import Applauncherd.Launcherlib.Attribution
import Applauncherd.Launcherlib.Tally
import Mathlib.Order.WellFounded

namespace Applauncherd.Launcherlib.CatchingUp

open Library.Transition Tables MainLoop Effects Consistency

def Zombie (s : System) (p : Pid) : Prop := ∃ c, s.procs p = some c ∧ c.status.isSome

def ahead (w : World) : List Pid :=
  match w.phase with
  | .reapZombies _ i => w.sys.tables.children.drop i
  | _ => []

def Noticed (w : World) (p : Pid) : Prop :=
  w.chldPending = true ∨ 0 < w.sigChldPipe ∨ p ∈ ahead w

def Watchful (w : World) : Prop := ∀ p, Zombie w.sys p → Noticed w p

theorem zombie_setProc {s : System} {b p : Pid} {c c' : Child} (hc : s.procs b = some c)
    (hs : c'.status = c.status) (h : Zombie (s.setProc b (some c')) p) : Zombie s p := by
  obtain ⟨d, hd, hdead⟩ := h
  obtain ⟨rfl, rfl⟩ | ⟨-, hd⟩ := setProc_cases hd
  · exact ⟨c, hc, hs ▸ hdead⟩
  · exact ⟨d, hd, hdead⟩

theorem zombie_forkBooster {s t : System} {type : UInt8} {sleepTime : UInt32} {newPid p : Pid}
    (ht : s.forkBooster type sleepTime newPid = some t) (h : Zombie t p) : Zombie s p := by
  obtain ⟨-, -, rfl⟩ := forkBooster_cases ht
  obtain ⟨d, hd, hdead⟩ := h
  obtain ⟨-, rfl⟩ | ⟨-, hd⟩ := setProc_cases hd
  · cases hdead
  · exact ⟨d, hd, hdead⟩

theorem zombie_read {s t : System} {newPid p : Pid} (ht : s.readFromBoosterPipe newPid = some t)
    (h : Zombie t p) : Zombie s p := by
  obtain rfl | ⟨packet, pipe, -, ht⟩ := readFromBoosterPipe_cases ht
  · exact h
  · have hz := zombie_forkBooster ht h
    exact hz

theorem zombie_reapChild {s t : System} {i : ℕ} {pid newPid p : Pid} {c : Child}
    (ht : s.reapChild i pid c newPid = some t) (h : Zombie t p) : p ≠ pid ∧ Zombie s p := by
  have hb : Zombie (buried s i pid c) p := by
    obtain ⟨type, ht⟩ | rfl := reapChild_cases ht
    · exact zombie_forkBooster ht h
    · exact h
  obtain ⟨d, hd, hdead⟩ := hb
  obtain ⟨hne, hd⟩ := setProc_none_cases hd
  exact ⟨hne, d, hd, hdead⟩

theorem drop_of_getElem? {l : List Pid} {i : ℕ} {pid : Pid} (h : l[i]? = some pid) :
    l.drop i = pid :: l.drop (i + 1) := by
  obtain ⟨hlt, rfl⟩ := List.getElem?_eq_some_iff.mp h
  exact List.drop_eq_getElem_cons hlt

theorem drop_eraseIdx {l : List Pid} {i : ℕ} (h : i ≤ l.length) :
    (l.eraseIdx i).drop i = l.drop (i + 1) := by
  rw [List.eraseIdx_eq_take_drop_succ]
  exact List.drop_left' (by simp [h])

theorem drop_reapChild {s t : System} {i : ℕ} {pid newPid : Pid} {c : Child}
    (hi : s.tables.children[i]? = some pid) (ht : s.reapChild i pid c newPid = some t) :
    t.tables.children.drop i = s.tables.children.drop (i + 1) ∨
      t.tables.children.drop i = s.tables.children.drop (i + 1) ++ [newPid] ∧
        ¬Zombie t newPid := by
  obtain ⟨hlt, -⟩ := List.getElem?_eq_some_iff.mp hi
  have hb : (buried s i pid c).tables.children.drop i = s.tables.children.drop (i + 1) :=
    drop_eraseIdx hlt.le
  obtain ⟨type, ht⟩ | rfl := reapChild_cases ht
  · obtain ⟨-, -, rfl⟩ := forkBooster_cases ht
    right
    have hlen : i ≤ (buried s i pid c).tables.children.length := by
      have := List.length_eraseIdx_of_lt hlt
      change i ≤ (s.tables.children.eraseIdx i).length
      omega
    refine ⟨?_, fun hz ↦ ?_⟩
    · change ((buried s i pid c).tables.children ++ [newPid]).drop i = _
      rw [List.drop_append_of_le_length hlen, hb]
    · obtain ⟨d, hd, hdead⟩ := hz
      cases (setProc_self ..).symm.trans hd
      cases hdead
  · exact .inl hb

theorem ahead_scan {w : World} {r : Ready} {i : ℕ} (hphase : w.phase = .reapZombies r i) :
    ahead w = w.sys.tables.children.drop i := by rw [ahead, hphase]

theorem Watchful.keep {w w' : World} (h : Watchful w)
    (hz : ∀ p, Zombie w'.sys p → Zombie w.sys p) (hpending : w'.chldPending = w.chldPending)
    (hpipe : w'.sigChldPipe = w.sigChldPipe) (ha : ahead w ⊆ ahead w') : Watchful w' := by
  intro p hp
  obtain hn | hn | hm := h p (hz p hp)
  · exact .inl (hpending.trans hn)
  · exact .inr (.inl (hpipe ▸ hn))
  · exact .inr (.inr (ha hm))

theorem Watchful.past {w w' : World} {r : Ready} {i : ℕ} {pid : Pid} (h : Watchful w)
    (hphase : w.phase = .reapZombies r i) (hi : w.sys.tables.children[i]? = some pid)
    (hz : ∀ p, Zombie w'.sys p → p ≠ pid ∧ Zombie w.sys p)
    (hpending : w'.chldPending = w.chldPending) (hpipe : w'.sigChldPipe = w.sigChldPipe)
    (ha : w.sys.tables.children.drop (i + 1) ⊆ ahead w') : Watchful w' := by
  intro p hp
  obtain ⟨hne, hp⟩ := hz p hp
  obtain hn | hn | hm := h p hp
  · exact .inl (hpending.trans hn)
  · exact .inr (.inl (hpipe ▸ hn))
  · rw [ahead_scan hphase, drop_of_getElem? hi] at hm
    exact .inr (.inr (ha ((List.mem_cons.mp hm).resolve_left hne)))

theorem daemonStep_watchful {types : List UInt8} {w w' : World} {newPid : Pid} (h : Watchful w)
    (hcons : Consistent types (Phase.todo w.phase) w.sys) (hs : daemonStep w newPid = some w') :
    Watchful w' := by
  have hid : ∀ p, Zombie w.sys p → Zombie w.sys p := fun _ hp ↦ hp
  cases daemonStep_cases hs with
  | fork hphase ht => exact h.keep (fun p ↦ zombie_forkBooster ht) rfl rfl (by simp [ahead, hphase])
  | read hphase hr ht => exact h.keep (fun p ↦ zombie_read ht) rfl rfl (by simp [ahead, hphase])
  | scan =>
    -- the scan that begins comes to every child
    intro p hp
    obtain ⟨d, hd, -⟩ := hp
    have hm : p ∈ w.sys.tables.children := (hcons.children_iff p).mpr (by
      rw [show w.sys.procs p = some d from hd]
      rfl)
    exact .inr (.inr hm)
  | scanned hphase hi =>
    have hempty : ahead w = [] := by
      rw [ahead_scan hphase]
      exact List.drop_eq_nil_of_le (List.getElem?_eq_none_iff.mp hi)
    exact h.keep hid rfl rfl (by rw [hempty]; exact List.nil_subset _)
  | running hphase hi hc hlive =>
    refine h.past hphase hi (fun p hp ↦ ⟨?_, hp⟩) rfl rfl (List.Subset.refl _)
    rintro rfl
    obtain ⟨d, hd, hdead⟩ := hp
    obtain rfl := Option.some.inj (hc.symm.trans hd)
    rw [hlive] at hdead
    cases hdead
  | @reap r i pid c t hphase hi hc hdead ht =>
    refine h.past hphase hi (fun p ↦ zombie_reapChild ht) rfl rfl ?_
    change _ ⊆ t.tables.children.drop i
    obtain hd | ⟨hd, -⟩ := drop_reapChild hi ht
    · rw [hd]
      exact List.Subset.refl _
    · rw [hd]
      exact List.subset_append_left _ _
  | @forget r i pid hphase hi hnone =>
    refine h.past hphase hi (fun p hp ↦ ⟨?_, hp⟩) rfl rfl ?_
    · rintro rfl
      obtain ⟨d, hd, -⟩ := hp
      cases hnone.symm.trans hd
    · obtain ⟨hlt, -⟩ := List.getElem?_eq_some_iff.mp hi
      change _ ⊆ (w.sys.tables.children.eraseIdx i).drop i
      rw [drop_eraseIdx hlt.le]
      exact List.Subset.refl _
  | leave hphase => exact h.keep (fun p hp ↦ hp) rfl rfl (by simp [ahead, hphase])
  | kill hphase =>
    refine h.keep (fun p hp ↦ ?_) rfl rfl (by simp [ahead, hphase])
    rwa [killBooster_eq] at hp
  | forked hphase | select hphase | skipRead hphase | skipScan hphase | exit hphase
  | skipTerm hphase | stay hphase | skipUsr1 hphase | killed hphase =>
    exact h.keep hid rfl rfl (by simp [ahead, hphase])

theorem step_watchful {types : List UInt8} {w w' : World} {a : Label} (h : Watchful w)
    (hcons : Consistent types (Phase.todo w.phase) w.sys) (hs : step w a = some w') :
    Watchful w' := by
  cases a with
  | accept b r =>
    obtain ⟨t, ht, rfl⟩ := Option.map_eq_some_iff.mp hs
    obtain ⟨c, hc, -, rfl⟩ := receiveDataFromInvoker_cases ht
    exact h.keep (fun p ↦ zombie_setProc hc rfl) rfl rfl (List.Subset.refl _)
  | write b =>
    obtain ⟨t, ht, rfl⟩ := Option.map_eq_some_iff.mp hs
    obtain ⟨c, r, hc, -, rfl⟩ := sendDataToParent_cases ht
    exact h.keep (fun p ↦ zombie_setProc hc rfl) rfl rfl (List.Subset.refl _)
  | die b status =>
    obtain ⟨t, ht, rfl⟩ := Option.map_eq_some_iff.mp hs
    exact fun p _ ↦ .inl rfl
  | sigChld =>
    simp only [step] at hs
    split_ifs at hs
    cases hs
    exact fun p _ ↦ .inr (.inl (Nat.succ_pos _))
  | sigTerm =>
    cases hs
    exact h
  | sigUsr1 =>
    cases hs
    exact h
  | daemon newPid => exact daemonStep_watchful h hcons hs

theorem run_watchful {registry : Registry} {bootMode : Bool} {labels : List Label} {w : World}
    (h : Run step Any (start registry bootMode) labels w) : Watchful w := by
  let Inv : World → Prop := fun w ↦ Known registry w ∧ Watchful w
  have hstep : ∀ w a w', Inv w → Any w a → step w a = some w' → Inv w' := by
    rintro w a w' ⟨hknown, hw⟩ - hs
    exact ⟨hknown.step hs, step_watchful hw hknown.2 hs⟩
  have h0 : Inv (start registry bootMode) := by
    refine ⟨start_known registry bootMode, fun p hp ↦ ?_⟩
    obtain ⟨c, hc, -⟩ := hp
    cases hc
  exact (h.invariant Inv hstep h0).2

/-- No child's end is missed. As long as a child has not been waited for, its
SIGCHLD is on its way, a byte in the pipe tells of it, or the scan that is going
on will come to it. -/
theorem no_end_missed {registry : Registry} {bootMode : Bool} {labels : List Label} {w : World}
    (h : Run step Any (start registry bootMode) labels w) {p : Pid} {c : Child}
    (hc : w.sys.procs p = some c) (hdead : c.status.isSome) :
    w.chldPending = true ∨ 0 < w.sigChldPipe ∨
      ∃ r i, w.phase = .reapZombies r i ∧ p ∈ w.sys.tables.children.drop i := by
  refine (run_watchful h p ⟨c, hc, hdead⟩).imp_right (Or.imp_right fun hm ↦ ?_)
  unfold ahead at hm
  split at hm
  · rename_i r i hphase
    exact ⟨r, i, hphase, hm⟩
  · cases hm

theorem no_end_missed_pending : ∃ w, Run step Any (start Attribution.twoTypes false)
    [.daemon 10, .daemon 11, .daemon 0, .die 10 (.exited 1)] w ∧
      (w.chldPending = true ∨ 0 < w.sigChldPipe ∨
        ∃ r i, w.phase = .reapZombies r i ∧ 10 ∈ w.sys.tables.children.drop i) := by
  have h : Run step Any (start Attribution.twoTypes false)
      [.daemon 10, .daemon 11, .daemon 0, .die 10 (.exited 1)] _ := run_of_exec rfl
  exact ⟨_, h, no_end_missed h rfl rfl⟩

def due : Phase → Ready
  | .booster r => r
  | .sigChld r => { r with booster := false }
  | .reapZombies r _ | .sigTerm r => ⟨false, false, r.sigTerm, r.sigUsr1⟩
  | .sigUsr1 r => ⟨false, false, false, r.sigUsr1⟩
  | .exited => ⟨false, false, true, true⟩
  | .forkBoosters _ | .select | .killBoosters _ => ⟨false, false, false, false⟩

/-- What has come in and has not been taken up by `select` yet. A signal that
is still pending counts twice, for itself and for the byte that it leads to. -/
def backlog (w : World) : ℕ :=
  (w.sys.pipe.length - (due w.phase).booster.toNat) +
    (2 * w.chldPending.toNat + (w.sigChldPipe - (due w.phase).sigChld.toNat)) +
    (w.sigTermPipe - (due w.phase).sigTerm.toNat) +
    (w.sigUsr1Pipe - (due w.phase).sigUsr1.toNat)

def stage : Phase → ℕ
  | .booster _ => 6
  | .sigChld _ => 5
  | .reapZombies _ _ => 4
  | .sigTerm _ => 3
  | .sigUsr1 _ => 2
  | .killBoosters _ | .forkBoosters _ => 1
  | .select | .exited => 0

def load (s : System) (p : Pid) : ℕ := if (s.procs p).any (·.status.isSome) then 2 else 1

/-- What is left of a loop of the daemon. A child that has ended is looked at
once more, as the child that replaces it. -/
def left (w : World) : ℕ :=
  match w.phase with
  | .reapZombies _ i => ((w.sys.tables.children.drop i).map (load w.sys)).sum
  | .forkBoosters types | .killBoosters types => types.length
  | _ => 0

/-- Steps for which nothing has to happen outside the daemon and the kernel. -/
def Internal : Label → Prop
  | .daemon _ | .sigChld => True
  | _ => False

def Shorter (w' w : World) : Prop :=
  backlog w' < backlog w ∨ backlog w' = backlog w ∧
    (stage w'.phase < stage w.phase ∨ stage w'.phase = stage w.phase ∧ left w' < left w)

/-- No signal is to be delivered, and the daemon does not go on, although there
is a pid for a child that it might fork. -/
def AtRest (w : World) : Prop :=
  w.chldPending = false ∧
    ∃ newPid, newPid ≠ 0 ∧ w.sys.procs newPid = none ∧ daemonStep w newPid = none

/-- The daemon has nothing left to do, and every type has a booster that has
not launched an application yet. -/
structure CaughtUp (registry : Registry) (w : World) : Prop where
  blocked : w.phase = .select
  served : w.sys.pipe = [] ∧ w.sigChldPipe = 0 ∧ w.sigTermPipe = 0 ∧ w.sigUsr1Pipe = 0
  no_zombies : ∀ p c, w.sys.procs p = some c → c.status = none
  boosters : ∀ type ∈ registry.types, ∃ p c, recorded w.sys type = some p ∧
    w.sys.procs p = some c ∧ c.type = type ∧ ¬Child.Launched c

end Applauncherd.Launcherlib.CatchingUp
