import Applauncherd.Launcherlib.CatchingUp
import Applauncherd.Launcherlib.LeavingBootMode
import Applauncherd.Launcherlib.SignalWindow
import Mathlib.Algebra.Order.BigOperators.Group.Finset

namespace Applauncherd.Launcherlib.Renewal

open Library.Transition Tables MainLoop Effects Consistency Attribution Lifetimes LeavingBootMode
open CatchingUp (Shorter CaughtUp)
open SignalWindow hiding step

variable {registry : Registry} {w w' : World} {f f' : Family}

def Told (w : World) : Prop := 0 < w.sigTermPipe

/-- SIGUSR1 has come. It has been served unless there is a byte in the pipe. -/
def Leaving (w : World) : Prop := w.sys.tables.bootMode = false ∨ 0 < w.sigUsr1Pipe

inductive ModeStep (w w' : World) : Prop
  | leave : w.sys.tables.bootMode = true → w'.sys.tables.bootMode = false → ModeStep w w'
  | keep : w'.sys.tables.bootMode = w.sys.tables.bootMode →
      killing w.phase = (World.killed w).toList ++ killing w'.phase →
      (w.sys.tables.bootMode = true → w'.sigUsr1Pipe = w.sigUsr1Pipe) → ModeStep w w'

theorem killing_idle {phase : Phase} (hw : killing w.phase = []) (hphase : killing phase = []) :
    killing w.phase = (World.killed w).toList ++ killing phase := by
  have hkilled : World.killed w = none := by
    unfold World.killed
    split
    · rename_i hkill
      rw [hkill] at hw
      cases hw
    · rfl
  rw [hw, hphase, hkilled]
  rfl

theorem daemonStep_mode {newPid : Pid} (h : daemonStep w newPid = some w') :
    w'.sigTermPipe = w.sigTermPipe ∧ ModeStep w w' := by
  cases daemonStep_cases h with
  | fork hphase ht =>
    exact ⟨rfl, .keep (fork_bootMode ht) (killing_idle (hphase ▸ rfl) rfl) fun _ ↦ rfl⟩
  | read hphase hr ht =>
    exact ⟨rfl, .keep (read_bootMode ht) (killing_idle (hphase ▸ rfl) rfl) fun _ ↦ rfl⟩
  | reap hphase hi hc hdead ht =>
    exact ⟨rfl, .keep (reapChild_bootMode ht) (killing_idle (hphase ▸ rfl) rfl) fun _ ↦ rfl⟩
  | leave hphase hr hboot => exact ⟨rfl, .leave hboot rfl⟩
  | stay hphase hr hnormal =>
    refine ⟨rfl, .keep rfl (killing_idle (hphase ▸ rfl) rfl) fun hboot ↦ ?_⟩
    cases hnormal.symm.trans hboot
  | @kill type types hphase =>
    refine ⟨rfl, .keep ?_ (by rw [World.killed, hphase]; rfl) fun _ ↦ rfl⟩
    change (w.sys.killBooster type).tables.bootMode = _
    rw [killBooster_eq]
  | forked hphase | select hphase | skipRead hphase | scan hphase | skipScan hphase
  | scanned hphase | running hphase | forget hphase | exit hphase | skipTerm hphase
  | skipUsr1 hphase | killed hphase =>
    exact ⟨rfl, .keep rfl (killing_idle (hphase ▸ rfl) rfl) fun _ ↦ rfl⟩

theorem sigUsr1_kept {a : Label} (ha : ∀ newPid, a ≠ .daemon newPid) (h : step w a = some w') :
    w.sigUsr1Pipe ≤ w'.sigUsr1Pipe := by
  cases a with
  | daemon newPid => exact absurd rfl (ha newPid)
  | accept b r =>
    obtain ⟨t, -, rfl⟩ := Option.map_eq_some_iff.mp h
    exact le_rfl
  | write b =>
    obtain ⟨t, -, rfl⟩ := Option.map_eq_some_iff.mp h
    exact le_rfl
  | die b status =>
    obtain ⟨t, -, rfl⟩ := Option.map_eq_some_iff.mp h
    exact le_rfl
  | sigChld =>
    simp only [step] at h
    split_ifs at h
    cases h
    exact le_rfl
  | sigTerm =>
    cases h
    exact le_rfl
  | sigUsr1 =>
    cases h
    exact Nat.le_succ _

theorem Told.step {a : Label} (ht : Told w) (h : step w a = some w') : Told w' := by
  cases a with
  | daemon newPid =>
    have hpipe := (daemonStep_mode h).1
    rwa [Told, hpipe]
  | sigTerm =>
    cases h
    exact Nat.succ_pos _
  | _ =>
    obtain ⟨-, -, hpipe⟩ := step_outside (fun _ ↦ Label.noConfusion) h
    rwa [Told, hpipe Label.noConfusion]

theorem Leaving.step {a : Label} (hl : Leaving w) (h : step w a = some w') : Leaving w' := by
  cases a with
  | daemon newPid =>
    obtain ⟨-, ⟨-, hnormal⟩ | ⟨hmode, -, hpipe⟩⟩ := daemonStep_mode h
    · exact .inl hnormal
    · cases hb : w.sys.tables.bootMode with
      | false => exact .inl (hmode.trans hb)
      | true =>
        obtain hnormal | hpos := hl
        · cases hb.symm.trans hnormal
        · exact .inr (hpipe hb ▸ hpos)
  | _ =>
    obtain ⟨-, htables, -⟩ := step_outside (fun _ ↦ Label.noConfusion) h
    have hpipe := sigUsr1_kept (fun _ ↦ Label.noConfusion) h
    refine hl.imp (fun hnormal ↦ ?_) hpipe.trans_lt'
    rwa [htables]

/-- What holds between the mode of the daemon, its boosters and the signals that
are sent to them. -/
structure Kept (registry : Registry) (f : Family) : Prop where
  known : Known registry f.world
  replaced : Replaced (f.world, f.sent)
  pending : ∀ p, f.pending p = true → (f.world.sys.procs p).isSome
  signals : Told f.world ∨ f.told = false ∧ Accounted f

theorem sentAfter_exists (hk : Known registry w) {a : Label} (hs : step w a = some w')
    {mark : Pid → Bool} (hm : ∀ p, mark p = true → (w.sys.procs p).isSome) {p : Pid}
    (hp : sentAfter w a mark p = true) : (w'.sys.procs p).isSome := by
  obtain ⟨hr, hkilled | hold⟩ := sentAfter_cases hp
  · exact effect_stays (reapedBy_effect hs) hr (killed_exists hk.2 hs hkilled)
  · exact effect_stays (reapedBy_effect hs) hr (hm p hold)

theorem deliver_world {b : Pid} {handled : Bool} (hw : deliverSigTerm f b handled = some w) :
    (w = f.world ∨ step f.world (.die b (.signaled sigTerm)) = some w) ∧
        sigTermReset f b = true ∨
      step f.world .sigTerm = some w := by
  unfold deliverSigTerm at hw
  split_ifs at hw with hr
  · exact .inl ⟨.inl (Option.some.inj hw).symm, hr⟩
  · exact .inl ⟨.inr hw, hr⟩
  · exact .inr hw

theorem killedBy_outside (hk : Known registry w) {a : Label} (ha : ∀ newPid, a ≠ .daemon newPid)
    (hs : step w a = some w') : killedBy w a = [] := by
  rw [killedBy_eq hk.2 hs]
  cases a with
  | daemon newPid => exact absurd rfl (ha newPid)
  | _ => rfl

theorem sentAfter_outside (hk : Known registry w) {a : Label} (ha : ∀ newPid, a ≠ .daemon newPid)
    (hs : step w a = some w') (mark : Pid → Bool) : sentAfter w a mark = mark := by
  funext p
  rw [sentAfter, killedBy_outside hk ha hs]
  cases a with
  | daemon newPid => exact absurd rfl (ha newPid)
  | _ => simp [reapedBy]

theorem told_sigTerm (h : step w .sigTerm = some w') : Told w' := by
  cases h
  exact Nat.succ_pos _

theorem Kept.advance (h : Kept registry f) {a : Label} (hs : step f.world a = some w) :
    Kept registry (f.advance a w) := by
  constructor
  case known => exact h.known.step hs
  case replaced =>
    refine step_replaced (x := (f.world, f.sent)) (a := a) h.known ?_ h.replaced
    exact Option.map_eq_some_iff.mpr ⟨w, hs, rfl⟩
  case pending => exact fun p hp ↦ sentAfter_exists h.known hs h.pending hp
  case signals =>
    by_cases ha : a = .sigTerm
    · subst ha
      exact .inl (told_sigTerm hs)
    · refine h.signals.imp (fun ht ↦ ht.step hs) fun hacc ↦ ⟨?_, hacc.2.advance h.known.2 hs⟩
      simp [Family.advance, hacc.1, ha]

theorem Kept.send (h : Kept registry f) {b : Pid} (hb : running f b) :
    Kept registry (f.send b) := by
  constructor
  case known => exact h.known
  case replaced =>
    intro hnormal type p c hr hc
    refine (h.replaced hnormal type p c hr hc).imp_right (Or.imp_left fun hsent ↦ ?_)
    by_cases hp : p = b
    · subst hp
      exact Function.update_self ..
    · exact (send_other f hp).2.trans hsent
  case pending =>
    intro p hp
    by_cases heq : p = b
    · subst heq
      obtain ⟨c, hc, -⟩ := running_cases hb
      exact Option.isSome_iff_exists.mpr ⟨c, hc⟩
    · exact h.pending p ((send_other f heq).1 ▸ hp)
  case signals => exact h.signals.imp id fun hacc ↦ ⟨hacc.1, hacc.2.send hb⟩

theorem take_self (f : Family) (b : Pid) (w : World) : (f.take b w).pending b = false :=
  Function.update_self ..

theorem take_pending {b p : Pid} (h : (f.take b w).pending p = true) : f.pending p = true := by
  by_cases hp : p = b
  · subst hp
    cases (take_self f p w).symm.trans h
  · exact take_other f w hp ▸ h

theorem Kept.outside (h : Kept registry f) {a : Label} (ha : ∀ newPid, a ≠ .daemon newPid)
    (hs : step f.world a = some w) :
    Known registry w ∧ Replaced (w, f.sent) ∧ ∀ p, f.pending p = true → (w.sys.procs p).isSome := by
  have hsent := sentAfter_outside h.known ha hs
  refine ⟨h.known.step hs, ?_, fun p hp ↦ ?_⟩
  · refine step_replaced (x := (f.world, f.sent)) (a := a) h.known ?_ h.replaced
    exact Option.map_eq_some_iff.mpr ⟨w, hs, by rw [hsent]⟩
  · exact sentAfter_exists h.known hs h.pending (by rwa [hsent])

theorem Kept.take (h : Kept registry f) {b : Pid} {handled : Bool}
    (hw : deliverSigTerm f b handled = some w) : Kept registry (f.take b w) := by
  obtain ⟨rfl | hdie, hr⟩ | hterm := deliver_world hw
  · refine ⟨h.known, h.replaced, fun p hp ↦ h.pending p (take_pending hp), ?_⟩
    exact h.signals.imp id fun hacc ↦ ⟨hacc.1, hacc.2.take hr hw⟩
  · obtain ⟨hknown, hreplaced, hsome⟩ := h.outside (fun _ ↦ Label.noConfusion) hdie
    refine ⟨hknown, hreplaced, fun p hp ↦ hsome p (take_pending hp), ?_⟩
    exact h.signals.imp (fun ht ↦ ht.step hdie) fun hacc ↦ ⟨hacc.1, hacc.2.take hr hw⟩
  · -- the child has not reset the handler, and the daemon is told
    obtain ⟨hknown, hreplaced, hsome⟩ := h.outside (fun _ ↦ Label.noConfusion) hterm
    exact ⟨hknown, hreplaced, fun p hp ↦ hsome p (take_pending hp), .inl (told_sigTerm hterm)⟩

theorem step_kept (h : Kept registry f) {e : Event} (hs : SignalWindow.step f e = some f') :
    Kept registry f' := by
  cases step_happens hs with
  | main hw => exact h.advance hw
  | reset b =>
    refine ⟨h.known, h.replaced, h.pending, h.signals.imp id fun hacc ↦ ⟨hacc.1, ?_⟩⟩
    exact ⟨hacc.2.daemon, hacc.2.booster, hacc.2.unused⟩
  | kill hb => exact h.send hb
  | deliver hw => exact h.take hw

theorem begin_kept (registry : Registry) (bootMode : Bool) : Kept registry (begin registry bootMode) := by
  refine ⟨start_known registry bootMode, ?_, ?_, .inr ⟨rfl, begin_accounted registry bootMode⟩⟩
  · intro _ type p c hr
    simp [begin, start, recorded] at hr
  · intro p hp
    cases hp

theorem run_kept {bootMode : Bool} {events : List Event}
    (h : Run SignalWindow.step Any (begin registry bootMode) events f) : Kept registry f := by
  refine h.invariant (Kept registry) ?_ (begin_kept registry bootMode)
  exact fun f e f' hf _ hs ↦ step_kept hf hs

/-- Steps for which nothing has to happen outside the daemon, the kernel and the
children that are starting up. -/
def Internal : Event → Prop
  | .main a => CatchingUp.Internal a
  | .reset _ | .deliver _ _ => True
  | .kill _ => False

instance (e : Event) : Decidable (Internal e) :=
  match e with
  | .main (.daemon _) | .main .sigChld | .reset _ | .deliver _ _ => isTrue trivial
  | .main (.accept _ _) | .main (.write _) | .main (.die _ _) | .main .sigTerm | .main .sigUsr1
  | .kill _ => isFalse id

def pendingSet (f : Family) : Finset Pid :=
  f.world.sys.tables.children.toFinset.filter fun p ↦ f.pending p = true

/-- SIGTERMs that `killBoosters` has still to send count twice, as a signal is to
be delivered then. -/
def owed (f : Family) : ℕ := 2 * (killing f.world.phase).length + (pendingSet f).card

def unset (f : Family) : ℕ :=
  ∑ p ∈ f.world.sys.tables.children.toFinset, (resetSignals.length - f.resets p)

def Dwindles : Family → Family → Prop :=
  InvImage (Prod.Lex Nat.lt (Prod.Lex Nat.lt (Prod.Lex Shorter Nat.lt))) fun f ↦
    (f.world.sys.tables.bootMode.toNat, owed f, f.world, unset f)

theorem Dwindles.world (hmode : f'.world.sys.tables.bootMode.toNat ≤ f.world.sys.tables.bootMode.toNat)
    (howed : owed f' ≤ owed f) (h : Shorter f'.world f.world) : Dwindles f' f :=
  Prod.Lex.right' _ hmode (Prod.Lex.right' _ howed (Prod.Lex.left _ _ h))

structure AtRest (f : Family) : Prop where
  daemon : CatchingUp.AtRest f.world
  reset : ∀ b, SignalWindow.step f (.reset b) = none
  deliver : ∀ b handled, SignalWindow.step f (.deliver b handled) = none

end Applauncherd.Launcherlib.Renewal
