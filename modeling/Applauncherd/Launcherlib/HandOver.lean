import Applauncherd.Launcherlib.LaunchProcess

namespace Applauncherd.Launcherlib.HandOver

open Library.DescriptorTable ReadSocket Receive LaunchProcess

variable {t : Table OpenFile} {a b c : ℕ}

structure HandedOver (t t' : Table OpenFile) (a b c : ℕ) : Prop where
  stdin : lookup t' 0 = lookup t a
  stdout : lookup t' 1 = lookup t b
  stderr : lookup t' 2 = lookup t c
  closed : ∀ n ∈ [a, b, c], 2 < n → lookup t' n = none
  others : ∀ n ∉ [a, b, c], 2 < n → lookup t' n = lookup t n

/-- No descriptor is received at the number that it is to take or at a lower one,
unless its file is there already. -/
structure NoOverlap (t : Table OpenFile) (a b c : ℕ) : Prop where
  stdout : b ≠ 1
  stderr : c ≠ 1 ∧ c ≠ 2
  stdout_zero : b = 0 → a ≠ 1 ∧ lookup t 1 = lookup t 0
  stderr_zero : c = 0 → a ≠ 2 ∧ b ≠ 2 ∧ lookup t 2 = lookup t 0

theorem launch_files {k : Kernel} {boostedGid : UInt32} {r r' : Runtime} {app app' : AppData}
    (h : launchProcess k boostedGid r app = .entered r' app') :
    r'.files = duplicateFrom r.files 0 app.ioDescriptors := by
  simp only [launchProcess] at h
  split_ifs at h
  split at h
  · cases h
  · cases h
    unfold enterDirectory restorePriority
    split <;> split_ifs <;> rfl

def round (t : Table OpenFile) (i fd : ℕ) : Table OpenFile :=
  if 0 < fd then close (dup2 t fd i) fd else t

theorem duplicate_eq (t : Table OpenFile) (a b c : ℕ) :
    duplicateFrom t 0 [(a : ℤ), (b : ℤ), (c : ℤ)] = round (round (round t 0 a) 1 b) 2 c := by
  simp [duplicateFrom, round]

/-- Number 0 is passed over, as if it had not been received. -/
theorem lookup_round {fd : ℕ} (ho : (lookup t fd).isSome) (i n : ℕ) :
    lookup (round t i fd) n =
      if fd ≠ 0 ∧ n = fd then none else if fd ≠ 0 ∧ n = i then lookup t fd else lookup t n := by
  by_cases h0 : fd = 0
  · simp [round, h0]
  · obtain ⟨f, hf⟩ := Option.isSome_iff_exists.mp ho
    rw [round, if_pos (Nat.pos_of_ne_zero h0), lookup_close, lookup_dup2 hf, hf]
    simp [h0]

theorem round_open (i : ℕ) {fd n : ℕ} (hfd : (lookup t fd).isSome) (hn : (lookup t n).isSome)
    (hne : n ≠ fd) : (lookup (round t i fd) n).isSome := by
  rw [lookup_round hfd, if_neg fun h ↦ hne h.2]
  split_ifs
  · exact hfd
  · exact hn

theorem handOver_iff (ha : (lookup t a).isSome) (hb : (lookup t b).isSome)
    (hc : (lookup t c).isSome) (hab : a ≠ b) (hac : a ≠ c) (hbc : b ≠ c) :
    HandedOver t (duplicateFrom t 0 [(a : ℤ), (b : ℤ), (c : ℤ)]) a b c ↔ NoOverlap t a b c := by
  rw [duplicate_eq]
  have hb1 := round_open 0 ha hb hab.symm
  have hc1 := round_open 0 ha hc hac.symm
  have hc2 := round_open 1 hb1 hc1 hbc.symm
  have h1 := lookup_round ha 0
  have h2 := lookup_round hb1 1
  have h3 := lookup_round hc2 2
  constructor
  · intro h
    have hout := h.stdout
    have herr := h.stderr
    rw [h3, h2, h1] at hout
    rw [h3, h2, h2, h1, h1] at herr
    constructor
    case stdout => grind
    case stderr => constructor <;> grind
    case stdout_zero => grind
    case stderr_zero => grind
  · intro h
    obtain ⟨hb1, ⟨hc1, hc2⟩, hbz, hcz⟩ := h
    constructor
    case stdin =>
      rw [h3, h2, h1]
      grind
    case stdout =>
      rw [h3, h2, h1]
      grind
    case stderr =>
      rw [h3, h2, h2, h1, h1]
      grind
    case closed =>
      intro n hn hgt
      rw [h3, h2, h1]
      grind
    case others =>
      intro n hn hgt
      rw [h3, h2, h1]
      grind

theorem handedOver_above : HandedOver [none, none, none, some 7, some 8, some 9]
    (duplicateFrom [none, none, none, some 7, some 8, some 9] 0 [(3 : ℕ), (4 : ℕ), (5 : ℕ)])
    3 4 5 :=
  (handOver_iff rfl rfl rfl (by decide) (by decide) (by decide)).mpr
    ⟨by decide, by decide, nofun, nofun⟩

/-- A descriptor that is received at its own target is closed there. -/
theorem closed_at_target :
    ¬∀ (t : Table OpenFile) (a b c : ℕ), (lookup t a).isSome → (lookup t b).isSome →
      (lookup t c).isSome → a ≠ b → a ≠ c → b ≠ c →
      HandedOver t (duplicateFrom t 0 [(a : ℤ), (b : ℤ), (c : ℤ)]) a b c := by
  intro hall
  have h := hall [some 7, some 8, some 5, some 9] 0 1 3 rfl rfl rfl (by decide) (by decide)
    (by decide)
  exact absurd h.stdout (by decide)

end Applauncherd.Launcherlib.HandOver
