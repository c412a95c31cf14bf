import Applauncherd.Launcherlib.Attribution
import Applauncherd.Launcherlib.Lifetimes

namespace Applauncherd.Launcherlib.SignalWindow

open Library.Transition Tables MainLoop Effects Consistency Attribution Lifetimes

inductive Handled
  | sigChld
  | sigTerm
  | sigUsr1
  deriving DecidableEq, Repr

def resetSignals : List Handled := [.sigChld, .sigTerm, .sigUsr1]

def sigTerm : ℕ := 15

/-- The daemon and its children, with the signals on their way to the children. -/
structure Family where
  world : World
  /-- How many handlers a child has reset. -/
  resets : Pid → ℕ
  pending : Pid → Bool
  sent : Pid → Bool
  /-- SIGTERM has been delivered to the daemon. -/
  told : Bool

inductive Event
  | main (a : Label)
  | reset (b : Pid)
  /-- A process other than the daemon sends SIGTERM. -/
  | kill (b : Pid)
  /-- An application may handle the signal. -/
  | deliver (b : Pid) (handled : Bool)
  deriving DecidableEq, Repr

def startedUp (f : Family) : Label → Bool
  | .accept b _ => f.resets b = resetSignals.length
  | _ => true

def running (f : Family) (b : Pid) : Bool := (f.world.sys.procs b).any (·.status.isNone)

def sigTermReset (f : Family) (b : Pid) : Bool := .sigTerm ∈ resetSignals.take (f.resets b)

def isLaunched : Stage → Bool
  | .launched _ => true
  | _ => false

/-- A child that has not reset it runs the daemon's handler, which writes to the
pipe that the child shares with the daemon. -/
def deliverSigTerm (f : Family) (b : Pid) (handled : Bool) : Option World :=
  if sigTermReset f b then
    if handled && (f.world.sys.procs b).any (isLaunched ·.stage) then some f.world
    else MainLoop.step f.world (.die b (.signaled sigTerm))
  else MainLoop.step f.world .sigTerm

def Family.advance (f : Family) (a : Label) (w : World) : Family where
  world := w
  resets := fun p ↦ if reapedBy f.world a = some p then 0 else f.resets p
  pending := sentAfter f.world a f.pending
  sent := sentAfter f.world a f.sent
  told := f.told || a = .sigTerm

def Family.resetNext (f : Family) (b : Pid) : Family :=
  { f with resets := Function.update f.resets b (f.resets b + 1) }

def Family.send (f : Family) (b : Pid) : Family :=
  { f with pending := Function.update f.pending b true, sent := Function.update f.sent b true }

def Family.take (f : Family) (b : Pid) (w : World) : Family :=
  { f with world := w, pending := Function.update f.pending b false }

def step (f : Family) : Event → Option Family
  | .main a => if startedUp f a then (MainLoop.step f.world a).map (f.advance a) else none
  | .reset b =>
    if running f b && f.resets b < resetSignals.length then some (f.resetNext b) else none
  | .kill b => if running f b then some (f.send b) else none
  | .deliver b handled =>
    if running f b && f.pending b then (deliverSigTerm f b handled).map (f.take b) else none

def begin (registry : Registry) (bootMode : Bool) : Family where
  world := start registry bootMode
  resets := fun _ ↦ 0
  pending := fun _ ↦ false
  sent := fun _ ↦ false
  told := false

/-- Signals to boosters concern boosters, and the daemon exits when it is told to. -/
structure StayWithBooster (f : Family) : Prop where
  daemon : f.world.phase = .exited → f.told = true
  booster : ∀ p c, f.world.sys.procs p = some c → f.sent p = true →
    f.pending p = true ∨ c.status.isSome ∨ Child.Launched c

def AfterReset (f : Family) : Event → Prop
  | .deliver b _ => sigTermReset f b = true
  | _ => True

instance (f : Family) (e : Event) : Decidable (AfterReset f e) :=
  match e with
  | .deliver b _ => inferInstanceAs (Decidable (sigTermReset f b = true))
  | .main _ | .reset _ | .kill _ => isTrue trivial

def seesSigTerm : Phase → Bool
  | .booster r | .sigChld r | .reapZombies r _ | .sigTerm r | .sigUsr1 r => r.sigTerm
  | .exited => true
  | _ => false

structure Quiet (w : World) : Prop where
  pipe : w.sigTermPipe = 0
  phase : seesSigTerm w.phase = false

theorem daemonStep_quiet {w w' : World} {newPid : Pid} (h : Quiet w)
    (hs : daemonStep w newPid = some w') : Quiet w' := by
  obtain ⟨hpipe, hsees⟩ := h
  cases daemonStep_cases hs with
  | select =>
    refine ⟨hpipe, ?_⟩
    simp [World.put, seesSigTerm, World.ready, hpipe]
  | exit hphase hr =>
    rw [hphase] at hsees
    cases hr.symm.trans hsees
  | forked | fork | leave | stay | skipUsr1 | killed | kill => exact ⟨hpipe, rfl⟩
  | read hphase | skipRead hphase | scan hphase | skipScan hphase | scanned hphase
  | running hphase | reap hphase | forget hphase | skipTerm hphase =>
    rw [hphase] at hsees
    exact ⟨hpipe, hsees⟩

theorem step_quiet {w w' : World} {a : Label} (h : Quiet w) (ha : a ≠ .sigTerm)
    (hs : MainLoop.step w a = some w') : Quiet w' := by
  cases a with
  | daemon newPid => exact daemonStep_quiet h hs
  | _ =>
    obtain ⟨hphase, -, hpipe⟩ := step_outside (fun _ ↦ Label.noConfusion) hs
    exact ⟨(hpipe ha).trans h.pipe, hphase ▸ h.phase⟩

structure Accounted (f : Family) : Prop where
  daemon : f.told = true ∨ Quiet f.world
  booster : ∀ p c, f.world.sys.procs p = some c → f.sent p = true →
    f.pending p = true ∨ c.status.isSome ∨ Child.Launched c
  unused : ∀ p, f.world.sys.procs p = none → f.sent p = false

theorem Accounted.stay {f : Family} (h : Accounted f) : StayWithBooster f := by
  refine ⟨?_, h.booster⟩
  intro hexit
  obtain htold | hquiet := h.daemon
  · exact htold
  · have hphase := hquiet.phase
    rw [hexit] at hphase
    cases hphase

theorem killed_exists {types : List UInt8} {w w' : World} {a : Label} {p : Pid}
    (hc : Consistent types (Phase.todo w.phase) w.sys) (hs : MainLoop.step w a = some w')
    (hk : p ∈ killedBy w a) : (w.sys.procs p).isSome := by
  rw [killedBy_eq hc hs, Option.mem_toList] at hk
  cases a with
  | daemon newPid =>
    obtain ⟨type, hkilled, hr⟩ := Option.bind_eq_some_iff.mp hk
    obtain ⟨types, hphase⟩ := killed_cases hkilled
    rw [hphase] at hc
    obtain ⟨c, hc, -⟩ := hc.booster type List.not_mem_nil p hr
    rw [hc]
    rfl
  | _ => cases hk

theorem Accounted.advance {types : List UInt8} {f : Family} {w : World} {a : Label}
    (h : Accounted f) (hc : Consistent types (Phase.todo f.world.phase) f.world.sys)
    (hs : MainLoop.step f.world a = some w) : Accounted (f.advance a w) := by
  constructor
  case daemon =>
    obtain htold | hquiet := h.daemon
    · exact .inl (by simp [Family.advance, htold])
    · by_cases ha : a = .sigTerm
      · exact .inl (by simp [Family.advance, ha])
      · exact .inr (step_quiet hquiet ha hs)
  case booster =>
    intro p c' hc' hsent
    obtain ⟨hr, hk | hold⟩ := sentAfter_cases hsent
    · exact .inl (sentAfter_killed f.pending hr hk)
    · obtain ⟨c, hpc, hages, -⟩ | ⟨hnone | hr', -⟩ := step_procs hs hc'
      · obtain hp | he | hl := h.booster p c hpc hold
        · exact .inl (sentAfter_kept hr hp)
        · exact .inr (.inl (hages.ended he))
        · exact .inr (.inr (hages.launched hl))
      · rw [h.unused p hnone] at hold
        cases hold
      · exact absurd hr' hr
  case unused =>
    intro p hnone
    by_contra hsent
    obtain ⟨hr, hwhy⟩ := sentAfter_cases (Bool.eq_true_of_not_eq_false hsent)
    have hsome : (f.world.sys.procs p).isSome := by
      obtain hk | hold := hwhy
      · exact killed_exists hc hs hk
      · by_contra hno
        rw [h.unused p (Option.not_isSome_iff_eq_none.mp hno)] at hold
        cases hold
    have hstay := effect_stays (reapedBy_effect hs) hr hsome
    have hw : w.sys.procs p = none := hnone
    rw [hw] at hstay
    cases hstay

theorem running_cases {f : Family} {b : Pid} (h : running f b) :
    ∃ c, f.world.sys.procs b = some c ∧ c.status = none := by
  obtain ⟨c, hc, hs⟩ := (Option.any_eq_true ..).mp h
  exact ⟨c, hc, Option.isNone_iff_eq_none.mp hs⟩

theorem send_self (f : Family) (b : Pid) : (f.send b).pending b = true :=
  Function.update_self ..

theorem send_other (f : Family) {b p : Pid} (h : p ≠ b) :
    (f.send b).pending p = f.pending p ∧ (f.send b).sent p = f.sent p :=
  ⟨Function.update_of_ne h .., Function.update_of_ne h ..⟩

theorem take_other (f : Family) {b p : Pid} (w : World) (h : p ≠ b) :
    (f.take b w).pending p = f.pending p := Function.update_of_ne h ..

theorem Accounted.send {f : Family} {b : Pid} (h : Accounted f) (hb : running f b) :
    Accounted (f.send b) := by
  obtain ⟨d, hd, -⟩ := running_cases hb
  refine ⟨h.daemon, ?_, ?_⟩
  · intro p c hc hsent
    by_cases hp : p = b
    · subst hp
      exact .inl (send_self f p)
    · obtain ⟨hpending, hsame⟩ := send_other f hp
      rw [hpending]
      exact h.booster p c hc (hsame ▸ hsent)
  · intro p hnone
    have hp : p ≠ b := by
      intro heq
      subst heq
      cases hd.symm.trans hnone
    exact (send_other f hp).2.trans (h.unused p hnone)

/-- A child that has reset the handler is terminated by the signal, unless it
has become an application that handles it. -/
theorem deliver_cases {f : Family} {b : Pid} {handled : Bool} {w : World} (hr : sigTermReset f b)
    (hs : deliverSigTerm f b handled = some w) :
    w = f.world ∧ (∃ c, f.world.sys.procs b = some c ∧ Child.Launched c) ∨
      MainLoop.step f.world (.die b (.signaled sigTerm)) = some w := by
  rw [deliverSigTerm, if_pos hr] at hs
  split_ifs at hs with hl
  · obtain ⟨-, hany⟩ := Bool.and_eq_true_iff.mp hl
    obtain ⟨c, hc, hstage⟩ := (Option.any_eq_true ..).mp hany
    refine .inl ⟨(Option.some.inj hs).symm, c, hc, ?_⟩
    cases hst : c.stage with
    | launched r => exact ⟨r, hst⟩
    | waiting | accepted =>
      rw [hst] at hstage
      cases hstage
  · exact .inr hs

theorem Accounted.take {f : Family} {b : Pid} {handled : Bool} {w : World} (h : Accounted f)
    (hr : sigTermReset f b) (hs : deliverSigTerm f b handled = some w) :
    Accounted (f.take b w) := by
  obtain ⟨rfl, c, hc, hl⟩ | hdie := deliver_cases hr hs
  · refine ⟨h.daemon, ?_, h.unused⟩
    intro p c' hc' hsent
    by_cases hp : p = b
    · subst hp
      obtain rfl : c = c' := Option.some.inj (hc.symm.trans hc')
      exact .inr (.inr hl)
    · rw [take_other f f.world hp]
      exact h.booster p c' hc' hsent
  · have hquiet := fun hq ↦ step_quiet hq (by simp) hdie
    obtain ⟨t, ht, rfl⟩ := Option.map_eq_some_iff.mp hdie
    obtain ⟨c, hc, rfl⟩ := die_cases ht
    refine ⟨h.daemon.imp_right hquiet, ?_, ?_⟩
    · intro p c' hc' hsent
      obtain ⟨rfl, rfl⟩ | ⟨hp, hold⟩ := setProc_cases hc'
      · exact .inr (.inl rfl)
      · rw [take_other f _ hp]
        exact h.booster p c' hold hsent
    · intro p hnone
      by_cases hp : p = b
      · subst hp
        cases (setProc_self ..).symm.trans hnone
      · exact h.unused p ((setProc_other _ _ hp).symm.trans hnone)

inductive Happens (f : Family) : Event → Family → Prop
  | main {a : Label} {w : World} : MainLoop.step f.world a = some w →
      Happens f (.main a) (f.advance a w)
  | reset (b : Pid) : Happens f (.reset b) (f.resetNext b)
  | kill {b : Pid} : running f b → Happens f (.kill b) (f.send b)
  | deliver {b : Pid} {handled : Bool} {w : World} : deliverSigTerm f b handled = some w →
      Happens f (.deliver b handled) (f.take b w)

theorem step_happens {f f' : Family} {e : Event} (hs : step f e = some f') : Happens f e f' := by
  cases e with
  | main a =>
    simp only [step] at hs
    split_ifs at hs
    obtain ⟨w, hw, rfl⟩ := Option.map_eq_some_iff.mp hs
    exact .main hw
  | reset b =>
    simp only [step] at hs
    split_ifs at hs
    cases hs
    exact .reset b
  | kill b =>
    simp only [step] at hs
    split_ifs at hs with hb
    cases hs
    exact .kill hb
  | deliver b handled =>
    simp only [step] at hs
    split_ifs at hs
    obtain ⟨w, hw, rfl⟩ := Option.map_eq_some_iff.mp hs
    exact .deliver hw

theorem step_accounted {types : List UInt8} {f f' : Family} {e : Event}
    (hc : Consistent types (Phase.todo f.world.phase) f.world.sys) (h : Accounted f)
    (hok : AfterReset f e) (hs : step f e = some f') : Accounted f' := by
  cases step_happens hs with
  | main hw => exact h.advance hc hw
  | reset b => exact ⟨h.daemon, h.booster, h.unused⟩
  | kill hb => exact h.send hb
  | deliver hw => exact h.take hok hw

theorem step_world {f f' : Family} {e : Event} (hs : step f e = some f') :
    f'.world = f.world ∨ ∃ a, MainLoop.step f.world a = some f'.world := by
  cases step_happens hs with
  | main hw => exact .inr ⟨_, hw⟩
  | reset b => exact .inl rfl
  | kill hb => exact .inl rfl
  | deliver hw =>
    unfold deliverSigTerm at hw
    split_ifs at hw
    · exact .inl (Option.some.inj hw).symm
    · exact .inr ⟨_, hw⟩
    · exact .inr ⟨_, hw⟩

theorem step_known {registry : Registry} {f f' : Family} {e : Event} (hs : step f e = some f')
    (h : Known registry f.world) : Known registry f'.world := by
  obtain hw | ⟨a, hw⟩ := step_world hs
  · rwa [hw]
  · exact h.step hw

theorem begin_accounted (registry : Registry) (bootMode : Bool) :
    Accounted (begin registry bootMode) := by
  refine ⟨.inr ⟨rfl, rfl⟩, ?_, fun _ _ ↦ rfl⟩
  intro p c hc
  cases hc

/-- Where no signal comes too early, boosters that are sent SIGTERM end, and the
daemon does not. -/
theorem signals_stay {registry : Registry} {bootMode : Bool} {events : List Event} {f : Family}
    (h : Run step AfterReset (begin registry bootMode) events f) : StayWithBooster f := by
  refine (h.invariant (fun f ↦ Known registry f.world ∧ Accounted f) ?_ ?_).2.stay
  · intro f e f' hf hok hs
    exact ⟨step_known hs hf.1, step_accounted hf.1.2 hf.2 hok hs⟩
  · exact ⟨start_known registry bootMode, begin_accounted registry bootMode⟩

def forkedThenSigUsr1 : List Event :=
  [.main (.daemon 10), .main (.daemon 11), .main (.daemon 0), .main .sigUsr1, .main (.daemon 0),
    .main (.daemon 0), .main (.daemon 0), .main (.daemon 0), .main (.daemon 0), .main (.daemon 0)]

theorem stay_resetBeforeSigTerm : ∃ f, Run step AfterReset (begin twoTypes true)
    (forkedThenSigUsr1 ++ [.reset 10, .reset 10, .deliver 10 false]) f ∧
      (f.world.sys.procs 10).any (·.status.isSome) ∧ StayWithBooster f := by
  have h : Run step AfterReset (begin twoTypes true)
    (forkedThenSigUsr1 ++ [.reset 10, .reset 10, .deliver 10 false]) _ := run_of_exec rfl
  exact ⟨_, h, rfl, signals_stay h⟩

/-- The booster has not come to reset the handler, and the daemon exits. -/
theorem daemon_exits : ¬∀ events f, Run step Any (begin twoTypes true) events f →
    StayWithBooster f := by
  intro hall
  have h : Run step Any (begin twoTypes true) (forkedThenSigUsr1 ++
    [.deliver 10 false, .main (.daemon 0), .main (.daemon 0), .main (.daemon 0),
      .main (.daemon 0), .main (.daemon 0), .main (.daemon 0)]) _ := run_of_exec rfl
  exact absurd ((hall _ _ h).daemon rfl) (by decide)

end Applauncherd.Launcherlib.SignalWindow
