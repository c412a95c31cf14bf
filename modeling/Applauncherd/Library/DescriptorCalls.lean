import Applauncherd.Library.DescriptorTable

namespace Applauncherd.Library.DescriptorCalls

open DescriptorTable

variable {F : Type*}

inductive Call
  | close (n : ℕ)
  | dup2 (old new : ℕ)
  deriving DecidableEq, Repr

namespace Call

def numbers : Call → List ℕ
  | close n => [n]
  | dup2 old new => [old, new]

def run (t : Table F) : Call → Table F
  | close n => DescriptorTable.close t n
  | dup2 old new => DescriptorTable.dup2 t old new

def drops (t : Table F) : Call → Option F
  | close n => lookup t n
  | dup2 old new => if old = new ∨ lookup t old = none then none else lookup t new

end Call

def run (t : Table F) (calls : List Call) : Table F := calls.foldl Call.run t

def drops : Table F → List Call → List F
  | _, [] => []
  | t, c :: calls => (c.drops t).toList ++ drops (c.run t) calls

theorem run_append (t : Table F) (cs ds : List Call) : run t (cs ++ ds) = run (run t cs) ds :=
  List.foldl_append

def Apart (P : F → Prop) (n : ℕ) (t : Table F) : Prop := ∀ m f, m ≠ n → lookup t m = some f → P f

variable {P : F → Prop} {n : ℕ} {t : Table F}

theorem Apart.call (h : Apart P n t) {c : Call} (hn : n ∉ c.numbers) : Apart P n (c.run t) := by
  intro m f hm hf
  cases c with
  | close k =>
    simp only [Call.run, lookup_close] at hf
    split_ifs at hf
    exact h m f hm hf
  | dup2 old new =>
    have hold : old ≠ n := by
      intro heq
      simp [Call.numbers, heq] at hn
    simp only [Call.run] at hf
    cases ho : lookup t old with
    | none =>
      simp only [DescriptorTable.dup2, ho] at hf
      exact h m f hm hf
    | some g =>
      rw [lookup_dup2 ho] at hf
      split_ifs at hf
      · rw [← Option.some.inj hf]
        exact h old g hold ho
      · exact h m f hm hf

theorem Apart.drops_call (h : Apart P n t) {c : Call} (hn : n ∉ c.numbers) {f : F}
    (hf : c.drops t = some f) : P f := by
  cases c with
  | close k =>
    have hk : k ≠ n := by
      intro heq
      simp [Call.numbers, heq] at hn
    exact h k f hk hf
  | dup2 old new =>
    have hnew : new ≠ n := by
      intro heq
      simp [Call.numbers, heq] at hn
    simp only [Call.drops] at hf
    split_ifs at hf
    exact h new f hnew hf

theorem Apart.drops_run (h : Apart P n t) {calls : List Call} (hn : ∀ c ∈ calls, n ∉ c.numbers)
    {f : F} (hf : f ∈ drops t calls) : P f := by
  induction calls generalizing t with
  | nil => cases hf
  | cons c calls ih =>
    obtain ⟨hc, hcs⟩ := List.forall_mem_cons.mp hn
    simp only [drops, List.mem_append, Option.mem_toList] at hf
    obtain hf | hf := hf
    · exact h.drops_call hc hf
    · exact ih (h.call hc) hcs hf

end Applauncherd.Library.DescriptorCalls
