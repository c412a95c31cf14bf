import Mathlib.Data.List.Basic
import Mathlib.Tactic.SplitIfs

namespace Applauncherd.Library.DescriptorTable

variable {F : Type*}

abbrev Table (F : Type*) := List (Option F)

def lookup (t : Table F) (n : ℕ) : Option F := (t[n]?).join

def put (t : Table F) (n : ℕ) (x : Option F) : Table F :=
  if n < t.length then t.set n x else t ++ List.replicate (n - t.length) none ++ [x]

/-- The kernel hands out the lowest number that is not open. -/
def lowest (t : Table F) : ℕ := t.findIdx Option.isNone

def install (t : Table F) (f : F) : ℕ × Table F := (lowest t, put t (lowest t) (some f))

def installAll (t : Table F) : List F → List ℕ × Table F
  | [] => ([], t)
  | f :: fs =>
    let (n, t) := install t f
    let (ns, t) := installAll t fs
    (n :: ns, t)

def close (t : Table F) (n : ℕ) : Table F := if n < t.length then t.set n none else t

/-- `dup2` leaves the table alone when the old number is not open. -/
def dup2 (t : Table F) (old new : ℕ) : Table F :=
  match lookup t old with
  | none => t
  | some f => put t new (some f)

@[simp] theorem lookup_put (t : Table F) (n m : ℕ) (x : Option F) :
    lookup (put t n x) m = if m = n then x else lookup t m := by
  unfold lookup put
  split_ifs with hn hm hm
  · subst m
    simp [hn]
  · rw [List.getElem?_set_ne (Ne.symm hm)]
  · subst m
    rw [List.getElem?_append_right (by simp; omega)]
    simp [show t.length + (n - t.length) = n by omega]
  · rcases Nat.lt_or_ge m t.length with h | h
    · rw [List.append_assoc, List.getElem?_append_left h]
    · rw [List.getElem?_eq_none h, List.append_assoc, List.getElem?_append_right h]
      rcases Nat.lt_or_ge m n with h' | h'
      · rw [List.getElem?_append_left (by simp; omega)]
        simp [show m - t.length < n - t.length by omega]
      · rw [List.getElem?_eq_none (by simp; omega)]

@[simp] theorem lookup_close (t : Table F) (n m : ℕ) :
    lookup (close t n) m = if m = n then none else lookup t m := by
  unfold close
  split_ifs with hn hm hm
  · subst m
    simp [lookup, hn]
  · simp [lookup, List.getElem?_set_ne (Ne.symm hm)]
  · subst m
    simp [lookup, List.getElem?_eq_none (Nat.le_of_not_lt hn)]
  · rfl

theorem lookup_dup2 {t : Table F} {old : ℕ} {f : F} (h : lookup t old = some f) (new m : ℕ) :
    lookup (dup2 t old new) m = if m = new then some f else lookup t m := by
  simp [dup2, h]

@[simp] theorem lookup_install (t : Table F) (f : F) (m : ℕ) :
    lookup (install t f).2 m = if m = lowest t then some f else lookup t m := by
  simp [install]

theorem lookup_lowest (t : Table F) : lookup t (lowest t) = none := by
  unfold lookup lowest
  rcases Nat.lt_or_ge (t.findIdx Option.isNone) t.length with h | h
  · have hn := List.findIdx_getElem (w := h)
    rw [List.getElem?_eq_getElem h]
    simpa using hn
  · rw [List.getElem?_eq_none h]
    rfl

@[simp] theorem installAll_length (t : Table F) (fs : List F) :
    (installAll t fs).1.length = fs.length := by
  induction fs generalizing t with
  | nil => rfl
  | cons f fs ih => simp [installAll, ih]

theorem installAll_frame (t : Table F) (fs : List F) {n : ℕ} {g : F}
    (h : lookup t n = some g) : lookup (installAll t fs).2 n = some g := by
  induction fs generalizing t with
  | nil => exact h
  | cons f fs ih =>
    apply ih
    have hne : n ≠ lowest t := by
      intro heq
      subst heq
      rw [lookup_lowest] at h
      cases h
    simp [hne, h]

theorem lookup_of_installAll {t : Table F} {fs : List F} {n : ℕ} {g : F}
    (h : lookup (installAll t fs).2 n = some g) (hg : g ∉ fs) : lookup t n = some g := by
  induction fs generalizing t with
  | nil => exact h
  | cons f fs ih =>
    have hi := ih h (fun hm ↦ hg (List.mem_cons_of_mem f hm))
    rw [lookup_put] at hi
    split_ifs at hi with hn
    · exact absurd (Option.some.inj hi ▸ List.mem_cons_self) hg
    · exact hi

theorem installAll_lookup (t : Table F) (fs : List F) :
    (installAll t fs).1.map (lookup (installAll t fs).2) = fs.map some := by
  induction fs generalizing t with
  | nil => rfl
  | cons f fs ih =>
    simp only [installAll, List.map_cons]
    rw [ih]
    congr 1
    exact installAll_frame _ _ (by simp [install])

theorem installAll_fresh (t : Table F) (fs : List F) :
    (∀ n ∈ (installAll t fs).1, lookup t n = none) ∧ (installAll t fs).1.Nodup := by
  induction fs generalizing t with
  | nil => exact ⟨fun n hn ↦ absurd hn List.not_mem_nil, List.nodup_nil⟩
  | cons f fs ih =>
    obtain ⟨hnone, hnodup⟩ := ih (install t f).2
    have hnew : ∀ n ∈ (installAll (install t f).2 fs).1, n ≠ lowest t ∧ lookup t n = none := by
      intro n hn
      have h := hnone n hn
      rw [lookup_install] at h
      split_ifs at h with heq
      exact ⟨heq, h⟩
    constructor
    · intro n hn
      obtain rfl | hn := List.mem_cons.mp hn
      · exact lookup_lowest t
      · exact (hnew n hn).2
    · exact List.nodup_cons.mpr ⟨fun hm ↦ (hnew _ hm).1 rfl, hnodup⟩

end Applauncherd.Library.DescriptorTable
