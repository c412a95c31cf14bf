import Applauncherd.Library.Transition

namespace Applauncherd.MBooster.EventHandler

open Library.Transition

inductive Disposition
  | default
  | ignored
  | hupSignalHandler
  deriving DecidableEq

/-- The thread that runs `EventHandler::accept`, with the answer of `accept`. -/
inductive Acceptor
  | accepting
  | returned (ok : Bool)
  /-- The signal has been emitted. -/
  | done (ok : Bool)
  deriving DecidableEq

structure Handler where
  acceptor : Acceptor
  /-- The call of `quit` is queued. -/
  quitPosted : Bool
  themeChanged : Bool
  handlerIsSet : Bool
  /-- A byte is in the socket pair. -/
  sighup : Bool
  deriving DecidableEq

inductive Stage
  | forked
  /-- From `prctl` to `receiveDataFromInvoker`. -/
  | starting
  /-- In `Connection::accept` itself, without an event loop. -/
  | accepting
  | runEventLoop
  /-- The other thread has been started. -/
  | listening (h : Handler)
  | exec (h : Handler)
  /-- `quit` has been called, and what has been found ready is still handled. -/
  | quitting (h : Handler)
  | left (h : Handler)
  | restored (h : Handler)
  | receiving (thread : Option Acceptor)
  | received (thread : Option Acceptor)
  | application (thread : Option Acceptor)
  | exited
  deriving DecidableEq

structure Booster where
  stage : Stage
  daemonAlive : Bool
  /-- The daemon died before the child had asked for its signal. -/
  early : Bool
  pdeathsig : Bool
  /-- SIGHUP is pending. -/
  pending : Bool
  action : Disposition
  deriving DecidableEq

inductive Label
  | main
  | socketpair (ok : Bool)
  | emit
  | quit
  | handleSigHup
  | notifyThemeChange
  | deliver
  | daemonDies
  | connect (ok : Bool)
  | themeChange
  /-- The invoker's request, or none that is received. -/
  | request (ok : Bool)
  deriving DecidableEq

def start (old : Disposition) : Booster := ⟨.forked, true, false, false, false, old⟩

def Acceptor.connected : Acceptor → Bool
  | .accepting => false
  | .returned ok | .done ok => ok

/-- The next system call or so of the main thread. `eventLoop` says which
`receiveDataFromInvoker` it runs: that of `MBooster` outside the boot mode. -/
def mainStep (eventLoop : Bool) (old : Disposition) (b : Booster) : Option Booster :=
  match b.stage with
  | .forked => some { b with pdeathsig := true, stage := .starting }
  | .starting => some { b with stage := if eventLoop then .runEventLoop else .accepting }
  | .runEventLoop => some { b with stage := .listening ⟨.accepting, false, false, false, false⟩ }
  | .quitting h => some { b with stage := .left h }
  | .left h => some { b with
      action := if h.handlerIsSet then old else b.action
      stage := .restored h }
  | .restored h =>
    some { b with stage := if h.acceptor.connected then .receiving (some h.acceptor) else .exited }
  | .received thread => some { b with pdeathsig := false, stage := .application thread }
  | _ => none

def emitSignal (h : Handler) : Option Handler :=
  match h.acceptor with
  | .returned ok => some { h with acceptor := .done ok, quitPosted := true }
  | _ => none

/-- The slots that the event loop may call, also after `quit` until it is left. -/
def loopStep (h : Handler) : Label → Bool
  | .handleSigHup => h.handlerIsSet && h.sighup
  | .notifyThemeChange => h.themeChanged
  | _ => false

def acceptReturns (h : Handler) (ok : Bool) : Option Handler :=
  if h.acceptor = .accepting then some { h with acceptor := .returned ok } else none

def handlerStep (h : Handler) : Label → Option Handler
  | .emit => emitSignal h
  | .connect ok => acceptReturns h ok
  | .themeChange => some { h with themeChanged := true }
  | _ => none

def deliver (b : Booster) : Booster :=
  match b.action, b.stage with
  | .default, _ => { b with pending := false, stage := .exited }
  | .hupSignalHandler, .exec h => { b with pending := false, stage := .exec { h with sighup := true } }
  | .hupSignalHandler, .quitting h =>
    { b with pending := false, stage := .quitting { h with sighup := true } }
  | .hupSignalHandler, .left h => { b with pending := false, stage := .left { h with sighup := true } }
  | _, _ => { b with pending := false }

def daemonDies (b : Booster) : Booster :=
  { b with daemonAlive := false, early := b.stage = .forked, pending := b.pdeathsig }

def atHandler (b : Booster) (stage : Handler → Stage) (h : Handler) (a : Label) : Option Booster :=
  (handlerStep h a).map fun h ↦ { b with stage := stage h }

def atLoop (b : Booster) (stage : Handler → Stage) (h : Handler) (a : Label) : Option Booster :=
  if loopStep h a then some { b with stage := .exited } else atHandler b stage h a

def stageStep (b : Booster) (a : Label) : Option Booster :=
  match b.stage with
  | .accepting =>
    match a with
    | .connect ok => some { b with stage := if ok then .receiving none else .exited }
    | _ => none
  | .listening h =>
    match a with
    | .socketpair ok => some { b with
        action := if ok then .hupSignalHandler else b.action
        stage := .exec { h with handlerIsSet := ok } }
    | a => atHandler b .listening h a
  | .exec h =>
    match a with
    | .quit =>
      if h.quitPosted then some { b with stage := .quitting { h with quitPosted := false } } else none
    | a => atLoop b .exec h a
  | .quitting h => atLoop b .quitting h a
  | .left h => atHandler b .left h a
  | .restored h => atHandler b .restored h a
  | .receiving thread =>
    match a with
    | .request ok => some { b with stage := if ok then .received thread else .exited }
    | _ => none
  | _ => none

def step (eventLoop : Bool) (old : Disposition) (b : Booster) (a : Label) : Option Booster :=
  if b.stage = .exited then none
  else
    match a with
    | .main => mainStep eventLoop old b
    | .deliver => if b.pending then some (deliver b) else none
    | .daemonDies => if b.daemonAlive then some (daemonDies b) else none
    | a => stageStep b a

def Own (_ : Booster) : Label → Prop
  | .daemonDies | .connect _ | .themeChange | .request _ => False
  | _ => True

def Acceptor.isDone : Acceptor → Bool
  | .done _ => true
  | _ => false

/-- The signal of the other thread is not lost: until the main thread has called
`quit` it is queued. -/
structure Woken (h : Handler) : Prop where
  posted : h.quitPosted = h.acceptor.isDone

/-- SIGHUP goes to the socket pair while the handler is set, and only then. -/
structure Handles (old : Disposition) (h : Handler) (action : Disposition) : Prop where
  action : action = if h.handlerIsSet then .hupSignalHandler else old
  bytes : h.sighup = true → h.handlerIsSet = true

/-- The other thread has no part any more in the connection that has been accepted. -/
def Alone (thread : Option Acceptor) : Prop := thread = none ∨ thread = some (.done true)

def AtStage (old action : Disposition) : Stage → Prop
  | .forked | .starting | .accepting | .runEventLoop => action = old
  | .listening h => action = old ∧ Woken h ∧ h.handlerIsSet = false ∧ h.sighup = false
  | .exec h => Woken h ∧ Handles old h action
  | .quitting h | .left h => h.acceptor.isDone = true ∧ Handles old h action
  | .restored h => h.acceptor.isDone = true ∧ action = old
  | .receiving thread | .received thread | .application thread => Alone thread ∧ action = old
  | .exited => True

def Stage.asks : Stage → Bool
  | .forked | .application _ => false
  | _ => true

structure Orderly (old : Disposition) (b : Booster) : Prop where
  stage : AtStage old b.action b.stage
  pdeathsig : b.stage ≠ .exited → b.pdeathsig = b.stage.asks
  pending : b.pending = true → b.daemonAlive = false

variable {eventLoop : Bool} {old : Disposition} {b b' : Booster} {a : Label} {l : List Label}
  {h h' : Handler}

theorem step_cases (hs : step eventLoop old b a = some b') :
    b.stage ≠ .exited ∧ (a = .main ∧ mainStep eventLoop old b = some b' ∨
      a = .deliver ∧ b.pending = true ∧ b' = deliver b ∨
      a = .daemonDies ∧ b.daemonAlive = true ∧ b' = daemonDies b ∨ stageStep b a = some b') := by
  unfold step at hs
  by_cases hex : b.stage = .exited
  · rw [if_pos hex] at hs
    cases hs
  · rw [if_neg hex] at hs
    refine ⟨hex, ?_⟩
    cases a with
    | main => exact .inl ⟨rfl, hs⟩
    | deliver =>
      obtain ⟨hp, hb⟩ := Option.ite_none_right_eq_some.mp hs
      exact .inr (.inl ⟨rfl, hp, (Option.some.inj hb).symm⟩)
    | daemonDies =>
      obtain ⟨hd, hb⟩ := Option.ite_none_right_eq_some.mp hs
      exact .inr (.inr (.inl ⟨rfl, hd, (Option.some.inj hb).symm⟩))
    | _ => exact .inr (.inr (.inr hs))

theorem start_orderly (old : Disposition) : Orderly old (start old) where
  stage := rfl
  pdeathsig := fun _ ↦ rfl
  pending := nofun

theorem emitSignal_some (he : emitSignal h = some h') :
    ∃ ok, h.acceptor = .returned ok ∧ h' = { h with acceptor := .done ok, quitPosted := true } := by
  unfold emitSignal at he
  split at he
  · rename_i ok hok
    exact ⟨ok, hok, (Option.some.inj he).symm⟩
  · cases he

theorem handlerStep_frame (hs : handlerStep h a = some h') :
    h'.handlerIsSet = h.handlerIsSet ∧ h'.sighup = h.sighup := by
  cases a with
  | emit =>
    obtain ⟨ok, -, rfl⟩ := emitSignal_some hs
    exact ⟨rfl, rfl⟩
  | connect ok =>
    simp only [handlerStep, acceptReturns] at hs
    split_ifs at hs
    cases hs
    exact ⟨rfl, rfl⟩
  | themeChange =>
    cases hs
    exact ⟨rfl, rfl⟩
  | _ => cases hs

theorem handlerStep_woken (hw : Woken h) (hs : handlerStep h a = some h') : Woken h' := by
  cases a with
  | emit =>
    obtain ⟨ok, -, rfl⟩ := emitSignal_some hs
    exact ⟨rfl⟩
  | connect ok =>
    simp only [handlerStep, acceptReturns] at hs
    split_ifs at hs with hacc
    cases hs
    exact ⟨by rw [hw.posted, hacc]; rfl⟩
  | themeChange =>
    cases hs
    exact ⟨hw.posted⟩
  | _ => cases hs

theorem handlerStep_done (hd : h.acceptor.isDone = true) (hs : handlerStep h a = some h') :
    h'.acceptor = h.acceptor := by
  cases a with
  | emit =>
    obtain ⟨ok, hok, -⟩ := emitSignal_some hs
    rw [hok] at hd
    cases hd
  | connect ok =>
    simp only [handlerStep, acceptReturns] at hs
    split_ifs at hs with hacc
    rw [hacc] at hd
    cases hd
  | themeChange =>
    cases hs
    rfl
  | _ => cases hs

theorem Handles.step {action : Disposition} (hh : Handles old h action)
    (hs : handlerStep h a = some h') : Handles old h' action := by
  obtain ⟨hset, hsig⟩ := handlerStep_frame hs
  exact ⟨by rw [hset, hh.action], by rw [hset, hsig]; exact hh.bytes⟩

theorem Acceptor.connected_iff {acceptor : Acceptor} (h : acceptor.isDone = true) :
    acceptor.connected = true ↔ acceptor = .done true := by
  cases acceptor with
  | done ok => simp [Acceptor.connected]
  | _ => cases h

theorem Orderly.move (ho : Orderly old b) {action : Disposition} {stage : Stage}
    (hs : AtStage old action stage) (ha : b.stage.asks = stage.asks ∨ stage = .exited)
    (hne : b.stage ≠ .exited) :
    Orderly old { b with stage := stage, action := action } where
  stage := hs
  pdeathsig := fun hex ↦ (ho.pdeathsig hne).trans (ha.resolve_right hex)
  pending := ho.pending

theorem mainStep_orderly (ho : Orderly old b) (hs : mainStep eventLoop old b = some b') :
    Orderly old b' := by
  have hat := ho.stage
  unfold mainStep at hs
  cases hst : b.stage <;> rw [hst] at hs hat <;> try cases hs
  case forked => exact ⟨hat, fun _ ↦ rfl, ho.pending⟩
  case starting =>
    refine ho.move ?_ (.inl ?_) (by simp [hst])
    · cases eventLoop <;> exact hat
    · cases eventLoop <;> rw [hst] <;> rfl
  case runEventLoop =>
    exact ho.move ⟨hat, ⟨rfl⟩, rfl, rfl⟩ (.inl (by rw [hst]; rfl)) (by simp [hst])
  case quitting h => exact ho.move hat (.inl (by rw [hst]; rfl)) (by simp [hst])
  case left h =>
    obtain ⟨hdone, hh⟩ := hat
    refine ho.move ⟨hdone, ?_⟩ (.inl (by rw [hst]; rfl)) (by simp [hst])
    rw [hh.action]
    split_ifs <;> rfl
  case restored h =>
    obtain ⟨hdone, hact⟩ := hat
    split_ifs with hc
    · have hthread := (Acceptor.connected_iff hdone).mp hc
      exact ho.move ⟨.inr (by rw [hthread]), hact⟩ (.inl (by rw [hst]; rfl)) (by simp [hst])
    · exact ho.move trivial (.inr rfl) (by simp [hst])
  case received thread => exact ⟨hat, fun _ ↦ rfl, ho.pending⟩

theorem atHandler_orderly (ho : Orderly old b) {stage : Handler → Stage} (hst : b.stage = stage h)
    (hasks : ∀ h, (stage h).asks = true) (hne : ∀ h, stage h ≠ .exited)
    (hkeep : ∀ h', handlerStep h a = some h' → AtStage old b.action (stage h'))
    (hs : atHandler b stage h a = some b') : Orderly old b' := by
  obtain ⟨h', hh', rfl⟩ := Option.map_eq_some_iff.mp hs
  exact ho.move (hkeep h' hh') (.inl (by rw [hst, hasks, hasks])) (by rw [hst]; exact hne h)

theorem atLoop_orderly (ho : Orderly old b) {stage : Handler → Stage} (hst : b.stage = stage h)
    (hasks : ∀ h, (stage h).asks = true) (hne : ∀ h, stage h ≠ .exited)
    (hkeep : ∀ h', handlerStep h a = some h' → AtStage old b.action (stage h'))
    (hs : atLoop b stage h a = some b') : Orderly old b' := by
  unfold atLoop at hs
  split_ifs at hs
  · cases hs
    exact ho.move trivial (.inr rfl) (by rw [hst]; exact hne h)
  · exact atHandler_orderly ho hst hasks hne hkeep hs

theorem stageStep_orderly (ho : Orderly old b) (hs : stageStep b a = some b') : Orderly old b' := by
  have hat := ho.stage
  unfold stageStep at hs
  cases hst : b.stage <;> rw [hst] at hs hat <;> try cases hs
  case accepting =>
    cases a <;> cases hs
    rename_i ok
    cases ok
    · exact ho.move trivial (.inr rfl) (by simp [hst])
    · exact ho.move ⟨.inl rfl, hat⟩ (.inl (by rw [hst]; rfl)) (by simp [hst])
  case listening h =>
    obtain ⟨hact, hw, hset, hsig⟩ := hat
    have hkeep : ∀ h', handlerStep h a = some h' → AtStage old b.action (.listening h') := by
      intro h' hh'
      obtain ⟨hset', hsig'⟩ := handlerStep_frame hh'
      exact ⟨hact, handlerStep_woken hw hh', hset'.trans hset, hsig'.trans hsig⟩
    dsimp only at hs
    split at hs
    · cases hs
      refine ho.move ⟨⟨hw.posted⟩, ?_, fun hs ↦ absurd hs (by simp [hsig])⟩
        (.inl (by rw [hst]; rfl)) (by simp [hst])
      rw [hact]
    · exact atHandler_orderly ho hst (fun _ ↦ rfl) nofun hkeep hs
  case exec h =>
    obtain ⟨hw, hh⟩ := hat
    dsimp only at hs
    split at hs
    · split_ifs at hs with hposted
      cases hs
      refine ho.move ⟨?_, hh.action, hh.bytes⟩ (.inl (by rw [hst]; rfl)) (by simp [hst])
      exact hw.posted.symm.trans hposted
    · exact atLoop_orderly ho hst (fun _ ↦ rfl) nofun
        (fun h' hh' ↦ ⟨handlerStep_woken hw hh', hh.step hh'⟩) hs
  case quitting h =>
    obtain ⟨hdone, hh⟩ := hat
    refine atLoop_orderly ho hst (fun _ ↦ rfl) nofun (fun h' hh' ↦ ⟨?_, hh.step hh'⟩) hs
    rw [handlerStep_done hdone hh', hdone]
  case left h =>
    obtain ⟨hdone, hh⟩ := hat
    refine atHandler_orderly ho hst (fun _ ↦ rfl) nofun (fun h' hh' ↦ ⟨?_, hh.step hh'⟩) hs
    rw [handlerStep_done hdone hh', hdone]
  case restored h =>
    obtain ⟨hdone, hact⟩ := hat
    refine atHandler_orderly ho hst (fun _ ↦ rfl) nofun (fun h' hh' ↦ ⟨?_, hact⟩) hs
    rw [handlerStep_done hdone hh', hdone]
  case receiving thread =>
    cases a <;> cases hs
    rename_i ok
    cases ok
    · exact ho.move trivial (.inr rfl) (by simp [hst])
    · exact ho.move hat (.inl (by rw [hst]; rfl)) (by simp [hst])

theorem Handles.signal {action : Disposition} (hold : old ≠ .hupSignalHandler)
    (hh : Handles old h action) (ha : action = .hupSignalHandler) :
    Handles old { h with sighup := true } action := by
  refine ⟨hh.action, fun _ ↦ ?_⟩
  by_contra hset
  have hact := hh.action
  rw [if_neg hset, ha] at hact
  exact hold hact.symm

theorem deliver_orderly (hold : old ≠ .hupSignalHandler) (ho : Orderly old b)
    (hne : b.stage ≠ .exited) : Orderly old (deliver b) := by
  have hat := ho.stage
  have hpd := ho.pdeathsig hne
  unfold deliver
  split
  · exact ⟨trivial, fun h ↦ absurd rfl h, nofun⟩
  · rename_i h hact hst
    rw [hst] at hat hpd
    exact ⟨⟨⟨hat.1.posted⟩, hat.2.signal hold hact⟩, fun _ ↦ hpd, nofun⟩
  · rename_i h hact hst
    rw [hst] at hat hpd
    exact ⟨⟨hat.1, hat.2.signal hold hact⟩, fun _ ↦ hpd, nofun⟩
  · rename_i h hact hst
    rw [hst] at hat hpd
    exact ⟨⟨hat.1, hat.2.signal hold hact⟩, fun _ ↦ hpd, nofun⟩
  · exact ⟨hat, ho.pdeathsig, nofun⟩

theorem step_orderly (hold : old ≠ .hupSignalHandler) (ho : Orderly old b)
    (hs : step eventLoop old b a = some b') : Orderly old b' := by
  obtain ⟨hex, ⟨-, hs⟩ | ⟨-, -, rfl⟩ | ⟨-, -, rfl⟩ | hs⟩ := step_cases hs
  · exact mainStep_orderly ho hs
  · exact deliver_orderly hold ho hex
  · exact ⟨ho.stage, ho.pdeathsig, fun _ ↦ rfl⟩
  · exact stageStep_orderly ho hs

theorem run_orderly (hold : old ≠ .hupSignalHandler)
    (hr : Run (step eventLoop old) Any (start old) l b) : Orderly old b :=
  hr.invariant (Orderly old) (fun _ _ _ ho _ hs ↦ step_orderly hold ho hs) (start_orderly old)

/-- An application that has been handed over while the daemon lives. -/
def Free (thread : Option Acceptor) (b : Booster) : Prop :=
  b.stage = .application thread ∧ b.pdeathsig = false ∧ b.pending = false

theorem step_free {thread : Option Acceptor} (hf : Free thread b)
    (hs : step eventLoop old b a = some b') : Free thread b' := by
  obtain ⟨hst, hpd, hpe⟩ := hf
  obtain ⟨-, ⟨-, hs⟩ | ⟨-, hp, -⟩ | ⟨-, -, rfl⟩ | hs⟩ := step_cases hs
  · rw [mainStep, hst] at hs
    cases hs
  · rw [hpe] at hp
    cases hp
  · exact ⟨hst, hpd, hpd⟩
  · unfold stageStep at hs
    rw [hst] at hs
    cases hs

/-- However the threads, the signals and the daemon's death are interleaved: a
connection is in the hands of one thread, the end of `accept` is not missed by the
event loop, the application finds SIGHUP as the daemon had it, and an
application that is entered before the daemon dies is not touched by its death. -/
theorem handed_over (hold : old ≠ .hupSignalHandler)
    (hr : Run (step eventLoop old) Any (start old) l b) :
    (∀ h, b.stage = .exec h → h.acceptor.isDone = true → h.quitPosted = true) ∧
      (∀ h, b.stage = .restored h → h.acceptor.isDone = true) ∧
      (∀ thread, b.stage = .receiving thread ∨ b.stage = .received thread ∨
        b.stage = .application thread → Alone thread ∧ b.action = old) ∧
      (∀ thread, b.stage = .application thread → b.daemonAlive = true →
        ∀ m c, Run (step eventLoop old) Any b m c → c.stage = .application thread) := by
  have ho := run_orderly hold hr
  have hat := ho.stage
  refine ⟨?_, ?_, ?_, ?_⟩
  · intro h hst hdone
    rw [hst] at hat
    exact hat.1.posted.trans hdone
  · intro h hst
    rw [hst] at hat
    exact hat.1
  · rintro thread (hst | hst | hst) <;>
    · rw [hst] at hat
      exact hat
  · intro thread hst halive m c hm
    have hpd : b.pdeathsig = false := by
      rw [ho.pdeathsig (by simp [hst]), hst]
      rfl
    have hpe : b.pending = false := by
      by_contra hp
      have hdead := ho.pending (by simpa using hp)
      rw [halive] at hdead
      cases hdead
    have hfree : Free thread c :=
      hm.invariant (Free thread) (fun _ _ _ hf _ hs ↦ step_free hf hs) ⟨hst, hpd, hpe⟩
    exact hfree.1

def handOver : List Label :=
  [.main, .main, .main, .socketpair true, .connect true, .emit, .quit, .main, .main, .main,
    .request true, .main]

theorem handed_over_accepted : ∃ b, Run (step true .default) Any (start .default) handOver b ∧
    (∀ h, b.stage = .exec h → h.acceptor.isDone = true → h.quitPosted = true) ∧
      (∀ h, b.stage = .restored h → h.acceptor.isDone = true) ∧
      (∀ thread, b.stage = .receiving thread ∨ b.stage = .received thread ∨
        b.stage = .application thread → Alone thread ∧ b.action = .default) ∧
      (∀ thread, b.stage = .application thread → b.daemonAlive = true →
        ∀ m c, Run (step true .default) Any b m c → c.stage = .application thread) := by
  have hr : Run (step true .default) Any (start .default) handOver
      ⟨.application (some (.done true)), true, false, false, false, .default⟩ := run_of_exec rfl
  exact ⟨_, hr, handed_over nofun hr⟩

/-- A change of the theme ends a booster that has accepted a connection. -/
example : (exec (step true .default) Any (start .default)
    [.main, .main, .main, .socketpair true, .connect true, .emit, .themeChange,
      .notifyThemeChange]).map Booster.stage = some .exited := rfl

end Applauncherd.MBooster.EventHandler
