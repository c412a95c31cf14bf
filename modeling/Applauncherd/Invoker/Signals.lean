import Mathlib.Data.List.Basic
import Mathlib.Tactic.Tauto

namespace Applauncherd.Invoker.Signals

inductive Signal
  | sigabrt | sigalrm | sigbus | sigchld | sigcont | sighup | sigint | sigio | sigpipe | sigprof
  | sigpwr | sigquit | sigsegv | sigsys | sigterm | sigtrap | sigtstp | sigttin | sigttou
  | sigusr1 | sigusr2 | sigvtalrm | sigwinch | sigxcpu | sigxfsz
  deriving DecidableEq, Repr

def Signal.sigiot : Signal := .sigabrt

inductive Action
  | terminate
  | ignore
  | stop
  | continue
  deriving DecidableEq, Repr

def defaultAction : Signal → Action
  | .sigchld | .sigwinch => .ignore
  | .sigcont => .continue
  | .sigtstp | .sigttin | .sigttou => .stop
  | _ => .terminate

inductive Disposition
  | default
  | forward
  deriving DecidableEq, Repr

/-- The invoker's process while it waits. A stopped process is continued before
the next signal reaches it, so that it needs no state of its own. -/
structure Process where
  invokedPid : Int32
  disposition : Signal → Disposition
  forwarded : List Signal
  terminatedBy : Option Signal

def setAction (d : Disposition) (inv : Process) (s : Signal) : Process :=
  { inv with disposition := fun t ↦ if t = s then d else inv.disposition t }

def handled : List Signal :=
  [.sigabrt, .sigalrm, .sigbus, .sigchld, .sigcont, .sighup, .sigint, .sigio, .sigiot, .sigpipe,
    .sigprof, .sigpwr, .sigquit, .sigsegv, .sigsys, .sigterm, .sigtrap, .sigtstp, .sigttin,
    .sigttou, .sigusr1, .sigusr2, .sigvtalrm, .sigwinch, .sigxcpu, .sigxfsz]

def sigsSet (d : Disposition) (inv : Process) : Process := handled.foldl (setAction d) inv

def sigsInit (inv : Process) : Process := sigsSet .forward inv

def sigsRestore (inv : Process) : Process := sigsSet .default inv

def sigForwarder (inv : Process) (s : Signal) : Process × Bool :=
  if 0 ≤ inv.invokedPid then
    (sigsRestore { inv with forwarded := inv.forwarded ++ [s] }, true)
  else (inv, false)

def act (inv : Process) (s : Signal) : Process :=
  if defaultAction s = .terminate then { inv with terminatedBy := some s } else inv

/-- Signals are taken one at a time: no other interrupts the handler. The signal
that it raises is held back until it has returned, and has the default
disposition by then. -/
def deliver (inv : Process) (s : Signal) : Process :=
  if inv.terminatedBy.isSome then inv
  else
    match inv.disposition s with
    | .default => act inv s
    | .forward =>
      let (inv, raised) := sigForwarder inv s
      if raised then act inv s else inv

def waiting (pid : Int32) : Process := sigsInit ⟨pid, fun _ ↦ .default, [], none⟩

def deliverAll (inv : Process) (sigs : List Signal) : Process := sigs.foldl deliver inv

def untilTerminated : List Signal → List Signal
  | [] => []
  | s :: sigs => if defaultAction s = .terminate then [s] else s :: untilTerminated sigs

/-- Everything that reaches the waiting invoker is passed on to the application. -/
def Forwards (pid : Int32) (sigs : List Signal) : Prop :=
  (deliverAll (waiting pid) sigs).forwarded = untilTerminated sigs

theorem foldl_setAction (d : Disposition) (sigs : List Signal) (inv : Process) :
    sigs.foldl (setAction d) inv = { inv with
      disposition := fun s ↦ if s ∈ sigs then d else inv.disposition s } := by
  induction sigs generalizing inv with
  | nil => simp
  | cons t sigs ih =>
    rw [List.foldl_cons, ih]
    simp only [setAction, List.mem_cons, Process.mk.injEq, true_and, and_true]
    funext s
    by_cases hs : s ∈ sigs <;> simp [hs]

theorem mem_handled (s : Signal) : s ∈ handled := by
  cases s <;> decide

theorem sigsSet_eq (d : Disposition) (inv : Process) :
    sigsSet d inv = { inv with disposition := fun _ ↦ d } := by
  rw [sigsSet, foldl_setAction]
  congr 1
  funext s
  exact if_pos (mem_handled s)

theorem waiting_eq (pid : Int32) : waiting pid = ⟨pid, fun _ ↦ .forward, [], none⟩ := by
  rw [waiting, sigsInit, sigsSet_eq]

theorem act_disposition (inv : Process) (s : Signal) :
    (act inv s).disposition = inv.disposition ∧ (act inv s).forwarded = inv.forwarded := by
  unfold act
  split_ifs <;> exact ⟨rfl, rfl⟩

theorem deliverAll_default {inv : Process} (h : inv.disposition = fun _ ↦ .default)
    (sigs : List Signal) : (deliverAll inv sigs).forwarded = inv.forwarded := by
  induction sigs generalizing inv with
  | nil => rfl
  | cons s sigs ih =>
    have hstep : (deliver inv s).disposition = inv.disposition ∧
        (deliver inv s).forwarded = inv.forwarded := by
      unfold deliver
      split_ifs
      · exact ⟨rfl, rfl⟩
      · simpa [h] using act_disposition inv s
    exact (ih (hstep.1.trans h)).trans hstep.2

theorem deliver_waiting {pid : Int32} (h : 0 ≤ pid) (s : Signal) :
    (deliver (waiting pid) s).disposition = (fun _ ↦ .default) ∧
      (deliver (waiting pid) s).forwarded = [s] := by
  have hact := act_disposition ⟨pid, fun _ ↦ .default, [s], none⟩ s
  simpa [deliver, waiting_eq, sigForwarder, h, sigsRestore, sigsSet_eq] using hact

theorem forwarded_first {pid : Int32} (h : 0 ≤ pid) (sigs : List Signal) :
    (deliverAll (waiting pid) sigs).forwarded = sigs.take 1 := by
  cases sigs with
  | nil => simp [deliverAll, waiting_eq]
  | cons s sigs =>
    obtain ⟨hd, hf⟩ := deliver_waiting h s
    have hrest := deliverAll_default hd sigs
    rw [hf] at hrest
    simpa [deliverAll] using hrest

theorem untilTerminated_eq_first (sigs : List Signal) : untilTerminated sigs = sigs.take 1 ↔
    sigs.length ≤ 1 ∨ ∃ s ∈ sigs.head?, defaultAction s = .terminate := by
  rcases sigs with _ | ⟨s, _ | ⟨t, sigs⟩⟩
  · simp [untilTerminated]
  · simp [untilTerminated]
  · by_cases h : defaultAction s = .terminate
    · simp [untilTerminated, h]
    · by_cases ht : defaultAction t = .terminate <;> simp [untilTerminated, h, ht]

/-- All signals of a sequence are forwarded exactly if there is at most one or
the first one terminates the invoker. -/
theorem forwards_iff {pid : Int32} (h : 0 ≤ pid) (sigs : List Signal) :
    Forwards pid sigs ↔ sigs.length ≤ 1 ∨ ∃ s ∈ sigs.head?, defaultAction s = .terminate := by
  rw [Forwards, forwarded_first h, eq_comm]
  exact untilTerminated_eq_first sigs

theorem forwards_sigterm : Forwards 1234 [.sigterm, .sigterm] :=
  (forwards_iff (by decide) _).mpr (by decide)

theorem sigwinch_stops_forwarding : ¬Forwards 1234 [.sigwinch, .sigterm] := by
  intro h
  have hfirst : (deliverAll (waiting 1234) [.sigwinch, .sigterm]).forwarded = [.sigwinch] := by
    decide
  rw [Forwards, hfirst] at h
  revert h
  decide

end Applauncherd.Invoker.Signals
