import Applauncherd.Launcherlib.Attribution
import Applauncherd.Launcherlib.Lifetimes

namespace Applauncherd.Launcherlib.LeavingBootMode

open Library.Transition Tables MainLoop Effects Consistency Attribution Lifetimes

variable {reapOk : System → Pid → Prop} {killOk : System → UInt8 → Prop} {w w' : World}

def killing : Phase → List UInt8
  | .killBoosters types => types
  | _ => []

structure InNormalMode (w : World) : Prop where
  normal : w.sys.tables.bootMode = false
  killed : killing w.phase = []
  forked : Phase.todo w.phase = []

/-- The boosters in charge preload their caches or are about to be replaced by
such that do. -/
structure NoBootMode (registry : Registry) (w : World) (sent : Pid → Bool) : Prop where
  inCharge : ∀ type ∈ registry.types, ∃ p c, recorded w.sys type = some p ∧
    w.sys.procs p = some c ∧ (c.bootMode = false ∨ sent p = true)
  replaced : ∀ type p newPid w', recorded w.sys type = some p → World.reaped w = some p →
    step w (.daemon newPid) = some w' → ∃ c, recorded w'.sys type = some newPid ∧
      w'.sys.procs newPid = some c ∧ c.type = type ∧ c.bootMode = false

theorem effect_tables {todo todo' : List UInt8} {s t : System}
    (he : Effect reapOk killOk todo s todo' t) :
    recorded t = recorded s ∨
      ∃ u type sleepTime newPid, recorded u = recorded s ∧
        u.tables.bootMode = s.tables.bootMode ∧ u.forkBooster type sleepTime newPid = some t := by
  cases he with
  | idle => exact .inl rfl
  | forget => exact .inl rfl
  | leave => exact .inl rfl
  | kill =>
    rw [killBooster_eq]
    exact .inl rfl
  | accept ht =>
    obtain ⟨c, -, -, rfl⟩ := receiveDataFromInvoker_cases ht
    exact .inl rfl
  | write ht =>
    obtain ⟨c, r, -, -, rfl⟩ := sendDataToParent_cases ht
    exact .inl rfl
  | die ht =>
    obtain ⟨c, -, rfl⟩ := die_cases ht
    exact .inl rfl
  | fork ht => exact .inr ⟨s, _, _, _, rfl, rfl, ht⟩
  | @read _ _ packet pipe _ hpipe ht =>
    obtain ⟨htypes, -, hboot⟩ := storeInvoker_eq s.tables packet.message
    refine .inr ⟨_, _, _, _, ?_, hboot, ht⟩
    funext type
    simp only [recorded, taken, htypes]
  | reap hi hc hok ht =>
    obtain ⟨type, ht⟩ | rfl := reapChild_cases ht
    · refine .inr ⟨_, _, _, _, ?_, ?_, ht⟩
      · rfl
      · rfl
    · exact .inl rfl

theorem effect_recorded {todo todo' : List UInt8} {s t : System}
    (he : Effect reapOk killOk todo s todo' t) {type : UInt8} {p : Pid}
    (hr : recorded t type = some p) :
    recorded s type = some p ∨ ∀ c, t.procs p = some c → c.bootMode = s.tables.bootMode := by
  obtain hrec | ⟨u, type', sleepTime, newPid, hrec, hboot, ht⟩ := effect_tables he
  · exact .inl (hrec ▸ hr)
  · obtain ⟨-, -, rfl⟩ := forkBooster_cases ht
    rw [recorded_spawned] at hr
    split_ifs at hr
    · cases hr
      refine .inr fun c hc ↦ ?_
      obtain rfl := Option.some.inj ((setProc_self ..).symm.trans hc)
      exact hboot
    · exact .inl (hrec ▸ hr)

theorem fork_bootMode {s t : System} {type : UInt8} {sleepTime : UInt32} {newPid : Pid}
    (ht : s.forkBooster type sleepTime newPid = some t) :
    t.tables.bootMode = s.tables.bootMode := by
  obtain ⟨-, -, rfl⟩ := forkBooster_cases ht
  rfl

theorem read_bootMode {s t : System} {newPid : Pid} (ht : s.readFromBoosterPipe newPid = some t) :
    t.tables.bootMode = s.tables.bootMode := by
  obtain rfl | ⟨packet, pipe, -, ht⟩ := readFromBoosterPipe_cases ht
  · rfl
  · exact (fork_bootMode ht).trans (storeInvoker_eq _ _).2.2

theorem reapChild_bootMode {s t : System} {i : ℕ} {pid newPid : Pid} {c : Child}
    (ht : s.reapChild i pid c newPid = some t) : t.tables.bootMode = s.tables.bootMode := by
  obtain ⟨type, ht⟩ | rfl := reapChild_cases ht
  · exact (fork_bootMode ht).trans rfl
  · rfl

theorem daemonStep_bootMode {newPid : Pid} (h : daemonStep w newPid = some w') :
    w'.sys.tables.bootMode = w.sys.tables.bootMode ∨
      killing w'.phase = w'.sys.tables.boosterTypeToPid.keys := by
  cases daemonStep_cases h with
  | fork hphase ht => exact .inl (fork_bootMode ht)
  | read hphase hr ht => exact .inl (read_bootMode ht)
  | reap hphase hi hc hdead ht => exact .inl (reapChild_bootMode ht)
  | leave => exact .inr rfl
  | @kill type types hphase =>
    left
    change (w.sys.killBooster type).tables.bootMode = _
    rw [killBooster_eq]
  | _ => exact .inl rfl

theorem step_bootMode {a : Label} (h : step w a = some w') :
    w'.sys.tables.bootMode = w.sys.tables.bootMode ∨
      killing w'.phase = w'.sys.tables.boosterTypeToPid.keys := by
  cases a with
  | daemon newPid => exact daemonStep_bootMode h
  | _ =>
    obtain ⟨-, htables, -⟩ := step_outside (fun _ ↦ Label.noConfusion) h
    exact .inl (congrArg Tables.bootMode htables)

theorem step_killing {registry : Registry} (hk : Known registry w) {a : Label}
    (h : step w a = some w') {type : UInt8} {p : Pid} (ht : type ∈ killing w.phase)
    (hr : recorded w.sys type = some p) : type ∈ killing w'.phase ∨ p ∈ killedBy w a := by
  rw [killedBy_eq hk.2 h]
  cases a with
  | daemon newPid =>
    cases hphase : w.phase with
    | killBoosters types =>
      rw [hphase] at ht
      obtain ⟨type', rest, rfl⟩ := List.exists_cons_of_ne_nil (List.ne_nil_of_mem ht)
      simp only [step, daemonStep, hphase] at h
      cases h
      obtain rfl | hrest := List.mem_cons.mp ht
      · exact .inr (by simpa [target, World.killed, hphase] using hr)
      · exact .inl hrest
    | _ =>
      rw [hphase] at ht
      cases ht
  | _ =>
    obtain ⟨hphase, -, -⟩ := step_outside (fun _ ↦ Label.noConfusion) h
    exact .inl (hphase ▸ ht)

/-- In normal mode a booster in charge was forked in normal mode, has been sent
SIGTERM or is about to be. -/
def Replaced (x : World × (Pid → Bool)) : Prop :=
  x.1.sys.tables.bootMode = false → ∀ type p c, recorded x.1.sys type = some p →
    x.1.sys.procs p = some c →
      c.bootMode = false ∨ x.2 p = true ∨ type ∈ killing x.1.phase

theorem step_recorded {a : Label} (h : step w a = some w') {type : UInt8} {p : Pid}
    (hr : recorded w'.sys type = some p) : recorded w.sys type = some p ∨
      ∀ c, w'.sys.procs p = some c → c.bootMode = w.sys.tables.bootMode :=
  effect_recorded (reapedBy_effect h) hr

theorem step_replaced {registry : Registry} {x y : World × (Pid → Bool)} {a : Label}
    (hk : Known registry x.1) (h : remember step sentAfter x a = some y) (hx : Replaced x) :
    Replaced y := by
  obtain ⟨w', hw, rfl⟩ := Option.map_eq_some_iff.mp h
  intro hnormal type p c' hr hc'
  obtain hmode | hkeys := step_bootMode hw
  · have hnow : x.1.sys.tables.bootMode = false := hmode.symm.trans hnormal
    obtain hold | hforked := step_recorded hw hr
    · obtain ⟨c, hc, hages, hnr⟩ | ⟨-, hborn⟩ := step_procs hw hc'
      · obtain hboot | hsent | hkill := hx hnow type p c hold hc
        · exact .inl (hages.bootMode.trans hboot)
        · exact .inr (.inl (sentAfter_kept hnr hsent))
        · obtain hstill | hkilled := step_killing hk hw hkill hold
          · exact .inr (.inr hstill)
          · exact .inr (.inl (sentAfter_killed x.2 hnr hkilled))
      · exact .inl (hborn.bootMode.trans hnow)
    · exact .inl ((hforked c' hc').trans hnow)
  · refine .inr (.inr ?_)
    rw [hkeys, Std.TreeMap.mem_keys, Std.TreeMap.mem_iff_isSome_getElem?]
    simp only [recorded] at hr
    rw [hr]
    rfl

abbrev SentRun (registry : Registry) (bootMode : Bool) : List Label → World × (Pid → Bool) → Prop :=
  Run (remember step sentAfter) Any (start registry bootMode, fun _ ↦ false)

theorem run_replaced {registry : Registry} {bootMode : Bool} {labels : List Label}
    {x : World × (Pid → Bool)} (h : SentRun registry bootMode labels x) : Replaced x := by
  have hrun := h.invariant (fun x ↦ Known registry x.1 ∧ Replaced x) ?_ ⟨start_known .., ?_⟩
  · exact hrun.2
  · rintro x a y ⟨hk, hx⟩ - hs
    obtain ⟨w', hw, rfl⟩ := Option.map_eq_some_iff.mp hs
    exact ⟨hk.step hw, step_replaced hk hs hx⟩
  · intro _ type p c hr
    simp [start, recorded] at hr

/-- No booster of the boot mode stays in charge. -/
theorem bootMode_left {registry : Registry} {bootMode : Bool} {labels : List Label} {w : World}
    {sent : Pid → Bool} (h : SentRun registry bootMode labels (w, sent)) (hn : InNormalMode w) :
    NoBootMode registry w sent := by
  have hcons := run_consistent (orderly_of_any h.forget)
  rw [hn.forked] at hcons
  constructor
  case inCharge =>
    intro type hm
    obtain ⟨p, hr⟩ := Option.isSome_iff_exists.mp (hcons.forked type hm List.not_mem_nil)
    obtain ⟨c, hc, -⟩ := hcons.booster type List.not_mem_nil p hr
    refine ⟨p, c, hr, hc, ?_⟩
    obtain hboot | hsent | hkill := run_replaced h hn.normal type p c hr hc
    · exact .inl hboot
    · exact .inr hsent
    · rw [hn.killed] at hkill
      cases hkill
  case replaced =>
    intro type p newPid w' hr hreaped hs
    obtain ⟨r, i, c, hphase, hi, hc, hmap⟩ := reaped_cases hreaped hs
    obtain ⟨t, ht, rfl⟩ := Option.map_eq_some_iff.mp hmap
    obtain ⟨d, hd, rfl⟩ := hcons.booster type List.not_mem_nil p hr
    obtain rfl : c = d := Option.some.inj (hc.symm.trans hd)
    obtain ⟨-, ht⟩ | ⟨hne, -⟩ := hcons.reap_cases registry.no_zero hc ht
    · obtain ⟨-, -, rfl⟩ := forkBooster_cases ht
      refine ⟨newborn (buried w.sys i p c) c.type boosterSleepTime, ?_, setProc_self .., rfl, hn.normal⟩
      exact (recorded_spawned ..).trans (if_pos rfl)
    · exact absurd hr hne

def killedThenReaped : List Label :=
  [.daemon 10, .daemon 11, .daemon 0, .sigUsr1, .daemon 0, .daemon 0, .daemon 0, .daemon 0,
    .daemon 0, .daemon 0, .daemon 0, .daemon 0, .die 10 (.signaled 15), .sigChld, .daemon 0,
    .daemon 0, .daemon 0]

theorem left_killedThenReaped : ∃ w sent, SentRun twoTypes true killedThenReaped (w, sent) ∧
    World.reaped w = some 10 ∧ NoBootMode twoTypes w sent := by
  have h : SentRun twoTypes true killedThenReaped _ := run_of_exec rfl
  exact ⟨_, _, h, rfl, bootMode_left h ⟨rfl, rfl, rfl⟩⟩

end Applauncherd.Launcherlib.LeavingBootMode
