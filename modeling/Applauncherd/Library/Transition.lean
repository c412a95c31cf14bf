import Mathlib.Data.List.Basic
import Mathlib.Tactic.SplitIfs

namespace Applauncherd.Library.Transition

variable {σ Λ : Type*} {step : σ → Λ → Option σ} {ok : σ → Λ → Prop}

/-- A finite run of a labelled transition function. Every step meets the
side condition `ok` in the state it starts from. -/
inductive Run (step : σ → Λ → Option σ) (ok : σ → Λ → Prop) : σ → List Λ → σ → Prop
  | nil (s : σ) : Run step ok s [] s
  | cons {s t u : σ} {a : Λ} {l : List Λ} :
      ok s a → step s a = some t → Run step ok t l u → Run step ok s (a :: l) u

def Any : σ → Λ → Prop := fun _ _ ↦ True

theorem Run.append {s t u : σ} {l m : List Λ} (h : Run step ok s l t)
    (h' : Run step ok t m u) : Run step ok s (l ++ m) u := by
  induction h with
  | nil => exact h'
  | cons ha hs _ ih => exact .cons ha hs (ih h')

theorem Run.mono {ok' : σ → Λ → Prop} (hok : ∀ s a, ok s a → ok' s a) {s t : σ} {l : List Λ}
    (h : Run step ok s l t) : Run step ok' s l t := by
  induction h with
  | nil => exact .nil _
  | cons ha hs _ ih => exact .cons (hok _ _ ha) hs ih

theorem Run.invariant (Inv : σ → Prop)
    (hstep : ∀ s a t, Inv s → ok s a → step s a = some t → Inv t)
    {s t : σ} {l : List Λ} (h : Run step ok s l t) (hs : Inv s) : Inv t := by
  induction h with
  | nil => exact hs
  | cons ha hst _ ih => exact ih (hstep _ _ _ hs ha hst)

def translate {Λ' : Type*} (step : σ → Λ → Option σ) (f : σ → Λ → List Λ') : σ → List Λ → List Λ'
  | _, [] => []
  | s, a :: l => f s a ++ (step s a).elim [] fun t ↦ translate step f t l

theorem Run.refine {σ' Λ' : Type*} {step' : σ' → Λ' → Option σ'} (R : σ → σ' → Prop)
    (f : σ → Λ → List Λ')
    (hstep : ∀ s a t s', R s s' → ok s a → step s a = some t →
      ∃ t', Run step' Any s' (f s a) t' ∧ R t t')
    {s t : σ} {l : List Λ} (h : Run step ok s l t) {s' : σ'} (hs : R s s') :
    ∃ t', Run step' Any s' (translate step f s l) t' ∧ R t t' := by
  induction h generalizing s' with
  | nil => exact ⟨s', .nil _, hs⟩
  | cons ha hst _ ih =>
    obtain ⟨u', hl, hu⟩ := hstep _ _ _ _ hs ha hst
    obtain ⟨t', hl', ht⟩ := ih hu
    refine ⟨t', ?_, ht⟩
    rw [translate, hst]
    exact hl.append hl'

theorem Run.one {s t : σ} {a : Λ} (h : step s a = some t) : Run step Any s [a] t :=
  .cons trivial h (.nil _)

theorem Run.unique {ok' : σ → Λ → Prop} {s t t' : σ} {l : List Λ} (h : Run step ok s l t)
    (h' : Run step ok' s l t') : t = t' := by
  induction h with
  | nil =>
    cases h'
    rfl
  | cons _ hst _ ih =>
    cases h' with
    | cons _ hst' htl =>
      rw [hst] at hst'
      obtain rfl := Option.some.inj hst'
      exact ih htl

theorem Run.split {s t : σ} {l m : List Λ} (h : Run step ok s (l ++ m) t) :
    ∃ u, Run step ok s l u ∧ Run step ok u m t := by
  induction l generalizing s with
  | nil => exact ⟨s, .nil s, h⟩
  | cons a l ih =>
    cases h with
    | cons ha hst htl =>
      obtain ⟨u, hl, hm⟩ := ih htl
      exact ⟨u, .cons ha hst hl, hm⟩

theorem Run.last {s t : σ} {l : List Λ} {a : Λ} (h : Run step ok s (l ++ [a]) t) :
    ∃ u, Run step ok s l u ∧ ok u a ∧ step u a = some t := by
  obtain ⟨u, hl, hm⟩ := h.split
  cases hm with
  | cons ha hst hnil =>
    cases hnil
    exact ⟨u, hl, ha, hst⟩

theorem Run.restrict {p : Λ → Prop} {s t : σ} {l : List Λ} (h : Run step ok s l t)
    (hl : ∀ a ∈ l, p a) : Run step (fun _ a ↦ p a) s l t := by
  induction h with
  | nil => exact .nil _
  | cons _ hst _ ih =>
    obtain ⟨ha, hl⟩ := List.forall_mem_cons.mp hl
    exact .cons ha hst (ih hl)

theorem Run.length_le_measure (μ : σ → ℕ)
    (hstep : ∀ s a t, ok s a → step s a = some t → μ t < μ s) {s t : σ} {l : List Λ}
    (h : Run step ok s l t) : l.length ≤ μ s := by
  induction h with
  | nil => exact Nat.zero_le _
  | cons ha hst _ ih =>
    have hlt := hstep _ _ _ ha hst
    rw [List.length_cons]
    omega

/-- A step function with a history variable beside the state. -/
def remember {η : Type*} (step : σ → Λ → Option σ) (update : σ → Λ → η → η) :
    σ × η → Λ → Option (σ × η) :=
  fun x a ↦ (step x.1 a).map fun t ↦ (t, update x.1 a x.2)

theorem Run.forget {η : Type*} {update : σ → Λ → η → η} {x y : σ × η} {l : List Λ}
    (h : Run (remember step update) Any x l y) : Run step Any x.1 l y.1 := by
  induction h with
  | nil x => exact .nil _
  | cons _ hst _ ih =>
    obtain ⟨t, ht, rfl⟩ := Option.map_eq_some_iff.mp hst
    exact .cons trivial ht ih

instance (s : σ) (a : Λ) : Decidable (Any s a) := isTrue trivial

def exec (step : σ → Λ → Option σ) (ok : σ → Λ → Prop) [∀ s a, Decidable (ok s a)] :
    σ → List Λ → Option σ
  | s, [] => some s
  | s, a :: l => if ok s a then (step s a).bind fun t ↦ exec step ok t l else none

theorem run_of_exec [∀ s a, Decidable (ok s a)] {s t : σ} {l : List Λ}
    (h : exec step ok s l = some t) : Run step ok s l t := by
  induction l generalizing s with
  | nil =>
    cases h
    exact .nil _
  | cons a l ih =>
    unfold exec at h
    split_ifs at h with ha
    obtain ⟨u, hu, ht⟩ := Option.bind_eq_some_iff.mp h
    exact .cons ha hu (ih ht)

end Applauncherd.Library.Transition
