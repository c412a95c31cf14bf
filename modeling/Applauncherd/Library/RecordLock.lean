import Mathlib.Tactic.SplitIfs

namespace Applauncherd.Library.RecordLock

variable {P : Type*} {owner owner' : Option P} {p q : P} {critical critical' : P → Prop}

def Guarded (owner : Option P) (critical : P → Prop) : Prop := ∀ p, critical p → owner = some p

theorem Guarded.unique (h : Guarded owner critical) (hp : critical p) (hq : critical q) :
    p = q :=
  Option.some.inj ((h p hp).symm.trans (h q hq))

theorem Guarded.mono (h : Guarded owner critical) (hc : ∀ q, critical' q → critical q) :
    Guarded owner critical' :=
  fun q hq ↦ h q (hc q hq)

variable [DecidableEq P]

def acquire (owner : Option P) (p : P) : Option (Option P) :=
  if owner = none ∨ owner = some p then some (some p) else none

/-- A process gives its lock up when it closes any descriptor of the file, and
when it exits. -/
def release (owner : Option P) (p : P) : Option P := if owner = some p then none else owner

theorem acquire_cases (h : acquire owner p = some owner') :
    owner' = some p ∧ (owner = none ∨ owner = some p) := by
  unfold acquire at h
  split_ifs at h with ho
  exact ⟨(Option.some.inj h).symm, ho⟩

theorem release_of_ne (h : owner = some q) (hne : q ≠ p) : release owner p = some q := by
  unfold release
  split_ifs with ho
  · exact absurd (Option.some.inj (h.symm.trans ho)) hne
  · exact h

theorem Guarded.enter (h : Guarded owner critical) (ha : acquire owner p = some owner')
    (hc : ∀ q, q ≠ p → critical' q → critical q) : Guarded owner' critical' := by
  obtain ⟨rfl, ho⟩ := acquire_cases ha
  intro q hq
  by_cases hqp : q = p
  · rw [hqp]
  · have hown := h q (hc q hqp hq)
    obtain ho | ho := ho
    · rw [ho] at hown
      cases hown
    · exact absurd (Option.some.inj (hown.symm.trans ho)) hqp

theorem Guarded.leave (h : Guarded owner critical) (hp : ¬critical' p)
    (hc : ∀ q, q ≠ p → critical' q → critical q) : Guarded (release owner p) critical' := by
  intro q hq
  have hne : q ≠ p := by
    intro he
    exact hp (he ▸ hq)
  exact release_of_ne (h q (hc q hne hq)) hne

end Applauncherd.Library.RecordLock
