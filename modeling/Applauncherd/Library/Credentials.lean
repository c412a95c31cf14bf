import Mathlib.Data.List.Basic
import Mathlib.Tactic.SplitIfs
import Mathlib.Tactic.Tauto

namespace Applauncherd.Library.Credentials

/-- The number -1 asks a system call to leave an id alone and is no id itself. -/
abbrev ValidId := { id : UInt32 // id ≠ -1 }

def validId (id : UInt32) : Option ValidId := if h : id ≠ -1 then some ⟨id, h⟩ else none

structure Creds where
  ruid : ValidId
  euid : ValidId
  suid : ValidId
  rgid : ValidId
  egid : ValidId
  sgid : ValidId
  deriving DecidableEq

def Creds.privileged (c : Creds) : Bool := c.euid.val == 0

/-- A privileged process changes all three ids, any other one only its effective
id, and only to its real or saved id. -/
def setuid (c : Creds) (uid : UInt32) : Option Creds :=
  (validId uid).bind fun u ↦
    if c.privileged then some { c with ruid := u, euid := u, suid := u }
    else if u = c.ruid ∨ u = c.suid then some { c with euid := u }
    else none

def setgid (c : Creds) (gid : UInt32) : Option Creds :=
  (validId gid).bind fun g ↦
    if c.privileged then some { c with rgid := g, egid := g, sgid := g }
    else if g = c.rgid ∨ g = c.sgid then some { c with egid := g }
    else none

def setegid (c : Creds) (gid : UInt32) : Option Creds :=
  (validId gid).bind fun g ↦
    if c.privileged ∨ g = c.rgid ∨ g = c.egid ∨ g = c.sgid then some { c with egid := g }
    else none

/-- A call whose result is not looked at: a failed one changes nothing. -/
def attempt (call : Creds → UInt32 → Option Creds) (id : UInt32) (c : Creds) : Creds :=
  (call c id).getD c

@[simp] theorem validId_val (id : ValidId) : validId id.val = some id := by
  simp [validId, id.property]

@[simp] theorem validId_invalid : validId (-1) = none := rfl

theorem validId_of_ne {id : UInt32} (h : id ≠ -1) : validId id = some ⟨id, h⟩ := dif_pos h

/-- To try `setuid` with an id other than the real one takes it on as real and
effective id exactly if the process is privileged. -/
theorem setuid_taken {c : Creds} {uid : UInt32} (h : c.ruid.val ≠ uid) :
    ((attempt setuid uid c).ruid.val = uid ∧ (attempt setuid uid c).euid.val = uid) ↔
      c.privileged = true ∧ uid ≠ -1 := by
  by_cases hu : uid = -1
  · subst hu
    simp [attempt, setuid, h]
  · simp only [attempt, setuid, validId_of_ne hu, Option.bind_some]
    split_ifs with hp hs
    · simp [hp, hu]
    · simp [hp, h]
    · simp [hp, h]

theorem setgid_unprivileged {c : Creds} (hp : c.privileged = false) (gid : UInt32) :
    (attempt setgid gid c).rgid = c.rgid := by
  by_cases hg : gid = -1
  · subst hg
    simp [attempt, setgid]
  · simp only [attempt, setgid, validId_of_ne hg, Option.bind_some, hp]
    split_ifs with _ hs <;> simp_all

theorem setgid_privileged {c : Creds} (hp : c.privileged = true) {gid : UInt32} (hg : gid ≠ -1) :
    attempt setgid gid c = { c with rgid := ⟨gid, hg⟩, egid := ⟨gid, hg⟩, sgid := ⟨gid, hg⟩ } := by
  simp [attempt, setgid, validId_of_ne hg, hp]

theorem setuid_groups (c : Creds) (uid : UInt32) :
    (attempt setuid uid c).rgid = c.rgid ∧ (attempt setuid uid c).egid = c.egid ∧
      (attempt setuid uid c).sgid = c.sgid := by
  by_cases hu : uid = -1
  · subst hu
    simp [attempt, setuid]
  · simp only [attempt, setuid, validId_of_ne hu, Option.bind_some]
    split_ifs <;> simp

theorem setgid_uids (c : Creds) (gid : UInt32) :
    (attempt setgid gid c).ruid = c.ruid ∧ (attempt setgid gid c).euid = c.euid := by
  by_cases hg : gid = -1
  · subst hg
    simp [attempt, setgid]
  · simp only [attempt, setgid, validId_of_ne hg, Option.bind_some]
    split_ifs <;> simp

/-- The effective group that is left after it has been changed to `gid` and back:
the way back is closed to an unprivileged process whose effective group is neither
its real nor its saved one. -/
def flippedGroup (c : Creds) (gid : UInt32) : ValidId :=
  match validId gid with
  | none => c.egid
  | some g =>
    if c.privileged = false ∧ c.egid ≠ c.rgid ∧ c.egid ≠ c.sgid ∧ (g = c.rgid ∨ g = c.sgid) then g
    else c.egid

theorem setegid_flip (c : Creds) (gid : UInt32) :
    attempt setegid c.egid.val (attempt setegid gid c) = { c with egid := flippedGroup c gid } := by
  unfold attempt setegid flippedGroup
  cases validId gid with
  | none => simp
  | some g =>
    simp only [validId_val, Option.bind_some]
    have hp : ({ c with egid := g } : Creds).privileged = c.privileged := rfl
    by_cases hg : c.privileged = true ∨ g = c.rgid ∨ g = c.egid ∨ g = c.sgid
    · simp only [hg, if_true, Option.getD_some, hp]
      split_ifs with hback hstuck hstuck
      · grind
      · rfl
      · rfl
      · grind
    · simp only [hg, if_false, Option.getD_none]
      have hout : ¬(g = c.rgid ∨ g = c.sgid) := by tauto
      simp [hout]

end Applauncherd.Library.Credentials
