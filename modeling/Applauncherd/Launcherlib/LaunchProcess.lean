import Applauncherd.Library.Credentials
import Applauncherd.Launcherlib.Argv

namespace Applauncherd.Launcherlib.LaunchProcess

open Library Library.Environ Library.DescriptorTable Library.Credentials Receive Argv

structure Runtime extends Process where
  creds : Creds
  nice : ℤ
  cwd : Str
  deriving DecidableEq

structure Kernel where
  loads : Runtime → AppData → Bool
  chdir : Runtime → Str → Option Str

inductive Launch
  | died
  | fault
  | entered (r : Runtime) (app : AppData)

/-- The nice value is only ever raised, and `setpriority` takes at most 19. -/
def restorePriority (app : AppData) (r : Runtime) : Runtime :=
  if r.nice < app.prio.toInt then { r with nice := min 19 app.prio.toInt } else r

def takeUser (uid : UInt32) (c : Creds) : Creds :=
  if c.ruid.val ≠ uid then attempt setuid uid c else c

def takeGroup (gid : UInt32) (c : Creds) : Creds :=
  if c.rgid.val ≠ gid then attempt setgid gid c else c

def flipGroup (boostedGid : UInt32) (c : Creds) : Creds :=
  let orig := c.egid
  attempt setegid orig.val (attempt setegid boostedGid c)

/-- No result of these calls is looked at. -/
def takeIds (boostedGid uid gid : UInt32) (c : Creds) : Creds :=
  flipGroup boostedGid (takeGroup gid (takeUser uid c))

def duplicateFrom (files : Table ReadSocket.OpenFile) (i : ℕ) : List ℤ → Table ReadSocket.OpenFile
  | [] => files
  | fd :: fds =>
    let files := if 0 < fd then close (dup2 files fd.toNat i) fd.toNat else files
    duplicateFrom files (i + 1) fds

/-- "PWD" -/
def pwd : Str := [80, 87, 68]

def enterDirectory (k : Kernel) (r : Runtime) : Runtime :=
  match getenv r.environ pwd with
  | none => r
  | some dir => { r with cwd := (k.chdir r dir).getD r.cwd }

/-- `Booster::launchProcess` up to the application's entry point. -/
def launchProcess (k : Kernel) (boostedGid : UInt32) (r : Runtime) (app : AppData) : Launch :=
  let r := restorePriority app r
  let r := { r with creds := takeIds boostedGid app.uid app.gid r.creds }
  if k.loads r app then
    let r := { r with files := duplicateFrom r.files 0 app.ioDescriptors }
    let r := enterDirectory k r
    match skypeWorkaround app with
    | none => .fault
    | some app => .entered r app
  else .died

structure Identity (c : Creds) (uid gid : UInt32) : Prop where
  ruid : c.ruid.val = uid
  euid : c.euid.val = uid
  rgid : c.rgid.val = gid
  egid : c.egid.val = gid

def UserAttainable (c : Creds) (uid : UInt32) : Prop :=
  c.ruid.val = uid ∧ c.euid.val = uid ∨
    c.ruid.val ≠ uid ∧ c.privileged = true ∧ uid ≠ -1

/-- The group is right from the start or becomes so in the flip of the
effective group, or the user asked for is still allowed to change groups. -/
def GroupAttainable (c : Creds) (boostedGid uid gid : UInt32) : Prop :=
  c.rgid.val = gid ∧ (c.egid.val = gid ∨ uid ≠ 0 ∧ boostedGid = gid ∧ c.egid ≠ c.sgid) ∨
    c.rgid.val ≠ gid ∧ uid = 0 ∧ gid ≠ -1

instance (c : Creds) (uid : UInt32) : Decidable (UserAttainable c uid) :=
  inferInstanceAs (Decidable (_ ∨ _))

instance (c : Creds) (boostedGid uid gid : UInt32) :
    Decidable (GroupAttainable c boostedGid uid gid) :=
  inferInstanceAs (Decidable (_ ∨ _))

theorem takeUser_iff (c : Creds) (uid : UInt32) :
    ((takeUser uid c).ruid.val = uid ∧ (takeUser uid c).euid.val = uid) ↔
      UserAttainable c uid := by
  unfold takeUser UserAttainable
  by_cases h : c.ruid.val = uid
  · simp [h]
  · simp only [ne_eq, h, not_false_eq_true, if_true, false_and, false_or, true_and]
    exact setuid_taken h

theorem takeUser_groups (c : Creds) (uid : UInt32) :
    (takeUser uid c).rgid = c.rgid ∧ (takeUser uid c).egid = c.egid ∧
      (takeUser uid c).sgid = c.sgid := by
  unfold takeUser
  split_ifs
  · exact setuid_groups c uid
  · exact ⟨rfl, rfl, rfl⟩

theorem takeGroup_uids (c : Creds) (gid : UInt32) :
    (takeGroup gid c).ruid = c.ruid ∧ (takeGroup gid c).euid = c.euid := by
  unfold takeGroup
  split_ifs
  · exact setgid_uids c gid
  · exact ⟨rfl, rfl⟩

theorem privileged_iff {c : Creds} {uid : UInt32} (h : c.euid.val = uid) :
    c.privileged = true ↔ uid = 0 := by
  simp [Creds.privileged, h]

theorem flippedGroup_iff {c : Creds} {boostedGid uid gid : UInt32} (hu : c.euid.val = uid)
    (hg : c.rgid.val = gid) : (flippedGroup c boostedGid).val = gid ↔
      c.egid.val = gid ∨ uid ≠ 0 ∧ boostedGid = gid ∧ c.egid ≠ c.sgid := by
  have hp := privileged_iff hu
  have hegid : c.egid.val = gid ↔ c.egid = c.rgid := by rw [← hg, Subtype.ext_iff]
  by_cases hb : boostedGid = -1
  · have hne : gid ≠ -1 := hg ▸ c.rgid.property
    simp [flippedGroup, hb, hne.symm]
  · simp only [flippedGroup, validId_of_ne hb]
    have hbg : (⟨boostedGid, hb⟩ : ValidId) = c.rgid ↔ boostedGid = gid := by
      rw [Subtype.ext_iff, hg]
    split_ifs with h
    · obtain ⟨hunpriv, hr, hs, hin⟩ := h
      have hne : uid ≠ 0 := fun h0 ↦ by simp [hp.mpr h0] at hunpriv
      simp [hegid, hr, hs, hne]
    · constructor
      · exact .inl
      · intro hor
        obtain he | ⟨h0, rfl, hs⟩ := hor
        · exact he
        · by_contra hr
          refine h ⟨?_, fun h' ↦ hr (hegid.mpr h'), hs, .inl (hbg.mpr rfl)⟩
          exact Bool.eq_false_iff.mpr fun h' ↦ h0 (hp.mp h')

theorem takeGroup_iff {c : Creds} {boostedGid uid gid : UInt32} (hu : c.euid.val = uid) :
    ((takeGroup gid c).rgid.val = gid ∧ (flippedGroup (takeGroup gid c) boostedGid).val = gid) ↔
      GroupAttainable c boostedGid uid gid := by
  unfold takeGroup GroupAttainable
  by_cases hg : c.rgid.val = gid
  · simp only [hg, ne_eq, not_true_eq_false, if_false, true_and, false_and, or_false]
    exact flippedGroup_iff hu hg
  · simp only [hg, ne_eq, not_false_eq_true, if_true, false_and, false_or, true_and]
    cases hp : c.privileged with
    | false =>
      have h0 : uid ≠ 0 := fun h0 ↦ by simp [(privileged_iff hu).mpr h0] at hp
      simp [setgid_unprivileged hp, hg, h0]
    | true =>
      have h0 : uid = 0 := (privileged_iff hu).mp hp
      by_cases hv : gid = -1
      · subst hv
        simp [attempt, setgid, hg]
      · rw [setgid_privileged hp hv]
        have hp' : ({ c with rgid := ⟨gid, hv⟩, egid := ⟨gid, hv⟩, sgid := ⟨gid, hv⟩ } :
            Creds).euid.val = uid := hu
        rw [flippedGroup_iff hp' rfl]
        simp [h0, hv]

theorem takeIds_iff (c : Creds) (boostedGid uid gid : UInt32) :
    Identity (takeIds boostedGid uid gid c) uid gid ↔
      UserAttainable c uid ∧ GroupAttainable c boostedGid uid gid := by
  have hgroups := takeUser_groups c uid
  have huids := takeGroup_uids (takeUser uid c) gid
  have hsame : GroupAttainable (takeUser uid c) boostedGid uid gid ↔
      GroupAttainable c boostedGid uid gid := by
    simp only [GroupAttainable, hgroups]
  have hflip : takeIds boostedGid uid gid c = { takeGroup gid (takeUser uid c) with
      egid := flippedGroup (takeGroup gid (takeUser uid c)) boostedGid } := setegid_flip _ _
  rw [← takeUser_iff, ← hsame, hflip]
  constructor
  · intro hid
    obtain ⟨hru, heu, hrg, heg⟩ := hid
    simp only [huids] at hru heu
    exact ⟨⟨hru, heu⟩, (takeGroup_iff heu).mp ⟨hrg, heg⟩⟩
  · intro hatt
    obtain ⟨⟨hru, heu⟩, hg⟩ := hatt
    obtain ⟨hrg, heg⟩ := (takeGroup_iff heu).mpr hg
    exact ⟨by simp [huids, hru], by simp [huids, heu], hrg, heg⟩

theorem launch_creds {k : Kernel} {boostedGid : UInt32} {r r' : Runtime} {app app' : AppData}
    (h : launchProcess k boostedGid r app = .entered r' app') :
    r'.creds = takeIds boostedGid app.uid app.gid r.creds := by
  simp only [launchProcess] at h
  split_ifs at h
  split at h
  · cases h
  · cases h
    unfold enterDirectory restorePriority
    split <;> split_ifs <;> rfl

/-- An application that is entered runs under the ids that were asked for
exactly if the booster could attain first the user and then still the group. -/
theorem identity_iff {k : Kernel} {boostedGid : UInt32} {r r' : Runtime} {app app' : AppData}
    (h : launchProcess k boostedGid r app = .entered r' app') :
    Identity r'.creds app.uid app.gid ↔ UserAttainable r.creds app.uid ∧
      GroupAttainable r.creds boostedGid app.uid app.gid := by
  rw [launch_creds h]
  exact takeIds_iff _ _ _ _

def root : ValidId := ⟨0, by decide⟩

def rootRuntime : Runtime where
  pid := 1
  environ := []
  files := []
  creds := ⟨root, root, root, root, root, root⟩
  nice := 0
  cwd := []

def anyKernel : Kernel := ⟨fun _ _ ↦ true, fun _ dir ↦ some dir⟩

def requestFor (uid gid : UInt32) : AppData :=
  { AppData.new with argc := 1, argv := some [.str [97, 0]], uid := uid, gid := gid }

theorem identity_root : ∃ r' app',
    launchProcess anyKernel 126 rootRuntime (requestFor 0 1000) = .entered r' app' ∧
      Identity r'.creds 0 1000 := by
  have h : launchProcess anyKernel 126 rootRuntime (requestFor 0 1000) = .entered _ _ := rfl
  exact ⟨_, _, h, (identity_iff h).mpr ⟨by decide, by decide⟩⟩

theorem group_kept : ∃ r' app',
    launchProcess anyKernel 126 rootRuntime (requestFor 1000 1000) = .entered r' app' ∧
      ¬Identity r'.creds 1000 1000 :=
  ⟨_, _, rfl, fun h ↦ absurd h.rgid (by decide)⟩

end Applauncherd.Launcherlib.LaunchProcess
