import Applauncherd.Library.Transition
import Applauncherd.Invoker.InvokeRemote
import Applauncherd.Invoker.NestedSignals

namespace Applauncherd.Invoker.SharedFate

open Library.Transition Protocol InvokeRemote Signals NestedSignals
open Launcherlib.Receive (Connection sendMsg)
open Launcherlib.Ending (sendAppExitStatus)

/-- A signal of `sigs_set`, or one that the invoker leaves alone and that
terminates a process. -/
inductive Sig
  | known (s : Signal)
  | other (n : ℕ)
  deriving DecidableEq

def Sig.terminates : Sig → Bool
  | .known s => defaultAction s = .terminate
  | .other _ => true

inductive End
  | exited
  | killed (sig : Sig)
  deriving DecidableEq

/-- The application once its `main` has been entered, and what `launchProcess`
writes to the invoker when it comes back. -/
structure Application where
  retVal : Option Int32
  sent : List UInt32
  ended : Option End
  /-- Nobody has the application's end of the connection open any more. -/
  closed : Bool
  /-- The daemon has waited for the application. -/
  reaped : Bool
  deriving DecidableEq

inductive Stage
  | action
  | status
  | sleeping
  /-- In `sigs_restore`, with these signals left. -/
  | restoring (left : List Signal) (status : UInt32)
  | exited (status : UInt32)
  | killed (sig : Sig)
  deriving DecidableEq

structure State where
  app : Application
  stage : Stage
  handling : Handling
  /-- The signals on their way to the invoker. -/
  pending : List Sig
  /-- What others than the daemon have sent it. -/
  outside : List Sig

inductive Label
  | returns (retVal : Int32)
  | write
  | exit
  | kill (sig : Sig)
  | close
  /-- With the invoker's pid stored for the application, or not. -/
  | reap (stored : Bool)
  | send (sig : Sig)
  | deliver (sig : Sig)
  | handler
  | main
  deriving DecidableEq

def start (pid : Int32) : State :=
  ⟨⟨none, [], none, false, false⟩, .action, ⟨waiting pid, []⟩, [], []⟩

def statusWords (retVal : Int32) : List UInt32 := [invokerMsgExit, retVal.toUInt32]

theorem sendAppExitStatus_sent (c : Connection) (retVal : Int32) :
    (sendAppExitStatus c retVal).sent = c.sent ++ statusWords retVal := by
  simp [sendAppExitStatus, sendMsg, statusWords]

def Application.write (app : Application) : Option Application :=
  match app.retVal with
  | some retVal =>
    if app.ended = none ∧ app.sent.length < 2 then
      some { app with sent := (statusWords retVal).take (app.sent.length + 1) }
    else none
  | none => none

/-- A word that the invoker reads, or what its variable held at the end of the
connection. -/
def Application.word (app : Application) (i : ℕ) (junk : UInt32) : Option UInt32 :=
  match app.sent[i]? with
  | some w => some w
  | none => if app.closed then some junk else none

def report (app : Application) : List Sig :=
  match app.ended with
  | some (.killed sig) => [sig]
  | _ => []

def Stage.alive : Stage → Bool
  | .exited _ | .killed _ => false
  | _ => true

def State.setHandling (s : State) (h : Handling) : State where
  app := s.app
  stage := h.inv.terminatedBy.elim s.stage fun t ↦ .killed (.known t)
  handling := h
  pending := s.pending
  outside := s.outside

def State.deliver (s : State) (sig : Sig) : State :=
  let s := { s with pending := s.pending.erase sig }
  match sig with
  | .known t => s.setHandling (s.handling.take t)
  | .other _ => { s with stage := .killed sig }

def State.takes (s : State) (sig : Sig) : Bool :=
  sig ∈ s.pending ∧ sig ∉ s.handling.signals.map Sig.known ∧ s.stage.alive

def State.main (j : Junk) (s : State) : Option State :=
  match s.stage with
  | .action => (s.app.word 0 j.exitAction).map fun action ↦
    { s with stage := if action ≠ invokerMsgExit then .sleeping else .status }
  | .status => (s.app.word 1 j.status).map fun status ↦
    { s with stage := .restoring handled status }
  | .sleeping =>
    some { s with stage := .restoring handled exitStatusApplicationConnectionLost }
  | .restoring (t :: left) status =>
    some { s with
      handling := ⟨setAction .default s.handling.inv t, s.handling.frames⟩
      stage := .restoring left status }
  | .restoring [] status => some { s with stage := .exited status }
  | .exited _ | .killed _ => none

def State.setApp (s : State) (app : Application) : State := { s with app := app }

/-- Signals of one number that are pending at the same time are one. -/
def State.signal (s : State) (sigs : List Sig) : State :=
  { s with pending := sigs.foldl (fun pending sig ↦ pending.insert sig) s.pending }

def step (j : Junk) (s : State) : Label → Option State
  | .returns retVal =>
    if s.app.ended = none ∧ s.app.retVal = none then
      some (s.setApp { s.app with retVal := some retVal })
    else none
  | .write => s.app.write.map s.setApp
  | .exit =>
    if s.app.ended = none ∧ (s.app.retVal = none ∨ s.app.sent.length = 2) then
      some (s.setApp { s.app with ended := some .exited })
    else none
  | .kill sig =>
    if s.app.ended = none ∧ sig.terminates then
      some (s.setApp { s.app with ended := some (.killed sig) })
    else none
  | .close =>
    if s.app.ended.isSome ∨ s.app.sent.length = 2 then
      some (s.setApp { s.app with closed := true })
    else none
  | .reap stored =>
    if s.app.ended.isSome ∧ s.app.reaped = false then
      let t := s.setApp { s.app with reaped := true }
      some (if stored then t.signal (report s.app) else t)
    else none
  | .send sig => some { s.signal [sig] with outside := s.outside ++ [sig] }
  | .deliver sig => if s.takes sig then some (s.deliver sig) else none
  | .handler => if s.stage.alive then s.handling.handler.map s.setHandling else none
  | .main => if s.handling.frames = [] then s.main j else none

inductive MainStep (j : Junk) (s : State) : State → Prop
  | action {action : UInt32} : s.stage = .action → s.app.word 0 j.exitAction = some action →
      MainStep j s { s with stage := if action ≠ invokerMsgExit then .sleeping else .status }
  | status {status : UInt32} : s.stage = .status → s.app.word 1 j.status = some status →
      MainStep j s { s with stage := .restoring handled status }
  | wake : s.stage = .sleeping →
      MainStep j s { s with stage := .restoring handled exitStatusApplicationConnectionLost }
  | restore {t : Signal} {left : List Signal} {status : UInt32} :
      s.stage = .restoring (t :: left) status → MainStep j s { s with
        handling := ⟨setAction .default s.handling.inv t, s.handling.frames⟩
        stage := .restoring left status }
  | exit {status : UInt32} : s.stage = .restoring [] status →
      MainStep j s { s with stage := .exited status }

theorem main_cases {j : Junk} {s s' : State} (hs : s.main j = some s') : MainStep j s s' := by
  unfold State.main at hs
  split at hs <;> rename_i hstage
  · obtain ⟨action, hw, rfl⟩ := Option.map_eq_some_iff.mp hs
    exact .action hstage hw
  · obtain ⟨status, hw, rfl⟩ := Option.map_eq_some_iff.mp hs
    exact .status hstage hw
  · cases hs
    exact .wake hstage
  · cases hs
    exact .restore hstage
  · cases hs
    exact .exit hstage
  · cases hs
  · cases hs

def Own (_ : State) : Label → Prop
  | .deliver _ | .handler | .main => True
  | _ => False

/-- The application was killed by this signal, and the daemon has seen it. -/
def Reported (app : Application) (sig : Sig) : Prop :=
  app.ended = some (.killed sig) ∧ app.reaped = true

def Cause (s : State) (sig : Sig) : Prop := sig ∈ s.outside ∨ Reported s.app sig

def ReadAt (j : Junk) (app : Application) : Stage → Prop
  | .action | .killed _ => True
  | .status => app.word 0 j.exitAction = some invokerMsgExit
  | .sleeping => ∃ action ≠ invokerMsgExit, app.word 0 j.exitAction = some action
  | .restoring _ status | .exited status => ∃ action, app.word 0 j.exitAction = some action ∧
      if action ≠ invokerMsgExit then status = exitStatusApplicationConnectionLost
      else app.word 1 j.status = some status

structure Inv (j : Junk) (pid : Int32) (s : State) : Prop where
  pid : s.handling.inv.invokedPid = pid
  nested : Nested s.handling
  sent : s.app.sent = (s.app.retVal.elim [] statusWords).take s.app.sent.length
  closed : s.app.closed = true → s.app.ended.isSome ∨ s.app.sent.length = 2
  readAt : ReadAt j s.app s.stage
  left : ∀ left status, s.stage = .restoring left status → left <:+ handled
  pending : ∀ sig ∈ s.pending, Cause s sig
  taken : ∀ t, s.handling.Taken t → Cause s (.known t)
  killed : ∀ sig, s.stage = .killed sig → Cause s sig

variable {j : Junk} {pid : Int32} {s s' : State} {app app' : Application} {a : Label}

theorem start_inv (j : Junk) (pid : Int32) : Inv j pid (start pid) := by
  constructor
  case nested => exact waiting_nested pid
  all_goals simp [start, ReadAt, waiting_eq, Handling.Taken, Handling.signals]

structure Later (app app' : Application) : Prop where
  word : ∀ {i junk w}, app.word i junk = some w → app'.word i junk = some w
  reported : ∀ {sig}, Reported app sig → Reported app' sig

theorem word_of_same (hs : app'.sent = app.sent) (hc : app.closed = true → app'.closed = true)
    {i : ℕ} {junk w : UInt32} (h : app.word i junk = some w) : app'.word i junk = some w := by
  unfold Application.word at h ⊢
  rw [hs]
  split at h
  · exact h
  · obtain ⟨hclosed, hj⟩ := Option.ite_none_right_eq_some.mp h
    rw [hc hclosed, ← hj]
    rfl

theorem Later.readAt (hl : Later app app') {stage : Stage} (h : ReadAt j app stage) :
    ReadAt j app' stage := by
  have hend : ∀ status, (∃ action, app.word 0 j.exitAction = some action ∧
      if action ≠ invokerMsgExit then status = exitStatusApplicationConnectionLost
      else app.word 1 j.status = some status) → ∃ action, app'.word 0 j.exitAction = some action ∧
      if action ≠ invokerMsgExit then status = exitStatusApplicationConnectionLost
      else app'.word 1 j.status = some status := by
    rintro status ⟨action, hw, hstatus⟩
    refine ⟨action, hl.word hw, ?_⟩
    split_ifs at hstatus ⊢
    · exact hstatus
    · exact hl.word hstatus
  cases stage with
  | action => trivial
  | killed sig => trivial
  | status => exact hl.word h
  | sleeping =>
    obtain ⟨action, hne, hw⟩ := h
    exact ⟨action, hne, hl.word hw⟩
  | restoring left status => exact hend status h
  | exited status => exact hend status h

theorem Inv.later (h : Inv j pid s) (hl : Later s.app app')
    (hsent : app'.sent = (app'.retVal.elim [] statusWords).take app'.sent.length)
    (hclosed : app'.closed = true → app'.ended.isSome ∨ app'.sent.length = 2) : Inv j pid (s.setApp app') where
  pid := h.pid
  nested := h.nested
  sent := hsent
  closed := hclosed
  readAt := hl.readAt h.readAt
  left := h.left
  pending := fun sig hm ↦ (h.pending sig hm).imp_right hl.reported
  taken := fun t hm ↦ (h.taken t hm).imp_right hl.reported
  killed := fun sig hs ↦ (h.killed sig hs).imp_right hl.reported

theorem write_later (h : Inv j pid s) (hw : s.app.write = some app') :
    Later s.app app' ∧ app'.sent = (app'.retVal.elim [] statusWords).take app'.sent.length ∧
      (app'.closed = true → app'.ended.isSome ∨ app'.sent.length = 2) := by
  unfold Application.write at hw
  split at hw
  · rename_i retVal hret
    obtain ⟨⟨hended, hlen⟩, hw⟩ := Option.ite_none_right_eq_some.mp hw
    obtain rfl := Option.some.inj hw
    have hwords : (statusWords retVal).length = 2 := rfl
    have hsent := h.sent
    rw [hret, Option.elim_some] at hsent
    have hopen : s.app.closed ≠ true := by
      intro hclosed
      obtain hsome | htwo := h.closed hclosed
      · rw [hended] at hsome
        cases hsome
      · omega
    refine ⟨⟨fun {i junk w} hi ↦ ?_, fun hr ↦ ?_⟩, ?_, fun hclosed ↦ absurd hclosed hopen⟩
    · -- before the end a word is read only if it has been written
      unfold Application.word at hi ⊢
      split at hi
      · rename_i v hv
        have hlt := (List.getElem?_eq_some_iff.mp hv).1
        rw [hsent, List.getElem?_take_of_lt hlt] at hv
        change (match ((statusWords retVal).take (s.app.sent.length + 1))[i]? with
          | some w => some w
          | none => if s.app.closed = true then some junk else none) = some w
        rw [List.getElem?_take_of_lt (by omega), hv]
        exact hi
      · obtain ⟨hclosed, -⟩ := Option.ite_none_right_eq_some.mp hi
        exact absurd hclosed hopen
    · rw [Reported, hended] at hr
      cases hr.1
    · change (statusWords retVal).take (s.app.sent.length + 1) = (s.app.retVal.elim [] statusWords).take
        ((statusWords retVal).take (s.app.sent.length + 1)).length
      rw [hret, Option.elim_some, List.length_take, hwords, Nat.min_eq_left (by omega)]
  · cases hw

theorem later_of_same (hs : app'.sent = app.sent) (hc : app.closed = true → app'.closed = true)
    (hr : ∀ sig, Reported app sig → Reported app' sig) : Later app app' :=
  ⟨fun hw ↦ word_of_same hs hc hw, fun {sig} h ↦ hr sig h⟩

theorem mem_insertAll {sigs pending : List Sig} {sig : Sig} :
    sig ∈ sigs.foldl (fun pending sig ↦ pending.insert sig) pending ↔
      sig ∈ pending ∨ sig ∈ sigs := by
  induction sigs generalizing pending with
  | nil => simp
  | cons t sigs ih =>
    rw [List.foldl_cons, ih, List.mem_insert_iff, List.mem_cons]
    tauto

theorem Inv.signal (h : Inv j pid s) {sigs outside : List Sig} (ho : s.outside ⊆ outside)
    (hs : ∀ sig ∈ sigs, sig ∈ outside ∨ Reported s.app sig) :
    Inv j pid { s.signal sigs with outside := outside } where
  pid := h.pid
  nested := h.nested
  sent := h.sent
  closed := h.closed
  readAt := h.readAt
  left := h.left
  pending := by
    intro sig hm
    obtain hm | hm := mem_insertAll.mp hm
    · exact (h.pending sig hm).imp_left fun hm ↦ ho hm
    · exact hs sig hm
  taken := fun t hm ↦ (h.taken t hm).imp_left fun hm ↦ ho hm
  killed := fun sig hk ↦ (h.killed sig hk).imp_left fun hm ↦ ho hm

theorem mem_report {sig : Sig} (h : sig ∈ report app) : app.ended = some (.killed sig) := by
  unfold report at h
  split at h
  · rename_i t ht
    rw [ht, List.mem_singleton.mp h]
  · cases h

theorem setHandling_cases (s : State) (h : Handling) :
    (∃ t, h.inv.terminatedBy = some t ∧ (s.setHandling h).stage = .killed (.known t)) ∨
      h.inv.terminatedBy = none ∧ (s.setHandling h).stage = s.stage := by
  cases hby : h.inv.terminatedBy with
  | none => exact .inr ⟨rfl, by rw [State.setHandling, hby]; rfl⟩
  | some t => exact .inl ⟨t, rfl, by rw [State.setHandling, hby]; rfl⟩

theorem Inv.setHandling (h : Inv j pid s) {hd : Handling} (hpid : hd.inv.invokedPid = pid)
    (hn : Nested hd) {pending : List Sig} (hp : pending ⊆ s.pending)
    (ht : ∀ t, hd.Taken t → Cause s (.known t)) :
    Inv j pid (State.setHandling { s with pending := pending } hd) := by
  have hstage := setHandling_cases { s with pending := pending } hd
  refine ⟨hpid, hn, h.sent, h.closed, ?_, ?_, fun sig hm ↦ h.pending sig (hp hm), ht, ?_⟩
  · change ReadAt j s.app _
    obtain ⟨t, -, hkilled⟩ | ⟨-, hsame⟩ := hstage
    · rw [hkilled]
      trivial
    · rw [hsame]
      exact h.readAt
  · intro left status hs
    obtain ⟨t, -, hkilled⟩ | ⟨-, hsame⟩ := hstage
    · cases hkilled.symm.trans hs
    · exact h.left left status (hsame.symm.trans hs)
  · intro sig hs
    obtain ⟨t, hby, hkilled⟩ | ⟨-, hsame⟩ := hstage
    · obtain rfl := Stage.killed.inj (hkilled.symm.trans hs)
      exact ht t (.inr (.inr hby))
    · exact h.killed sig (hsame.symm.trans hs)

theorem takes_cases {sig : Sig} (ht : s.takes sig) :
    sig ∈ s.pending ∧ sig ∉ s.handling.signals.map Sig.known ∧ s.stage.alive :=
  of_decide_eq_true ht

theorem deliver_inv (h : Inv j pid s) {sig : Sig} (ht : s.takes sig) :
    Inv j pid (s.deliver sig) := by
  obtain ⟨hm, hfree, -⟩ := takes_cases ht
  have hcause := h.pending sig hm
  cases sig with
  | other n =>
    refine ⟨h.pid, h.nested, h.sent, h.closed, trivial, nofun, fun t ht ↦ ?_, h.taken, fun t ht ↦ ?_⟩
    · exact h.pending t (List.mem_of_mem_erase ht)
    · obtain rfl : Sig.other n = t := Stage.killed.inj ht
      exact hcause
  | known t =>
    refine h.setHandling ((take_pid ..).trans h.pid) (h.nested.take fun hm ↦ ?_)
      (List.erase_subset ..) fun u hu ↦ ?_
    · exact hfree (List.mem_map_of_mem hm)
    · obtain rfl | hu := take_taken hu
      · exact hcause
      · exact h.taken u hu

theorem handler_inv (h : Inv j pid s) {hd : Handling} (hs : s.handling.handler = some hd) :
    Inv j pid (s.setHandling hd) :=
  h.setHandling ((handler_pid hs).trans h.pid) (h.nested.handler hs) (List.Subset.refl _)
    fun t ht ↦ h.taken t (handler_taken hs ht)

theorem Inv.move (h : Inv j pid s) {stage : Stage} (hr : ReadAt j s.app stage)
    (hl : ∀ left status, stage = .restoring left status → left <:+ handled)
    (hk : ∀ sig, stage ≠ .killed sig) : Inv j pid { s with stage := stage } where
  pid := h.pid
  nested := h.nested
  sent := h.sent
  closed := h.closed
  readAt := hr
  left := hl
  pending := h.pending
  taken := h.taken
  killed := fun sig hs ↦ absurd hs (hk sig)

theorem Inv.restore (h : Inv j pid s) (t : Signal) :
    Inv j pid { s with handling := ⟨setAction .default s.handling.inv t, s.handling.frames⟩ } where
  pid := h.pid
  nested := h.nested.mono rfl fun _ ↦ setAction_default _ t
  sent := h.sent
  closed := h.closed
  readAt := h.readAt
  left := h.left
  pending := h.pending
  taken := h.taken
  killed := h.killed

theorem main_inv (h : Inv j pid s) (hs : s.main j = some s') : Inv j pid s' := by
  have hat := h.readAt
  have hall : ∀ {status}, ∀ left' status', Stage.restoring handled status = .restoring left' status' →
      left' <:+ handled := by
    rintro status left' status' heq
    obtain ⟨rfl, -⟩ := Stage.restoring.inj heq
    exact List.suffix_refl _
  cases main_cases hs with
  | action hstage hw =>
    split_ifs with hne
    · exact h.move ⟨_, hne, hw⟩ nofun nofun
    · rw [not_not.mp hne] at hw
      exact h.move hw nofun nofun
  | status hstage hw =>
    rw [hstage] at hat
    refine h.move ⟨invokerMsgExit, hat, ?_⟩ hall nofun
    rw [if_neg (not_not.mpr rfl)]
    exact hw
  | wake hstage =>
    rw [hstage] at hat
    obtain ⟨action, hne, hw⟩ := hat
    refine h.move ⟨action, hw, ?_⟩ hall nofun
    rw [if_pos hne]
  | @restore t left status hstage =>
    rw [hstage] at hat
    refine (h.restore t).move hat ?_ nofun
    rintro left' status' heq
    obtain ⟨rfl, -⟩ := Stage.restoring.inj heq
    exact (List.suffix_cons t left).trans (h.left _ _ hstage)
  | exit hstage =>
    rw [hstage] at hat
    exact h.move hat nofun nofun

theorem reap_inv (h : Inv j pid s) (hended : s.app.ended.isSome) (stored : Bool) :
    Inv j pid (if stored then (s.setApp { s.app with reaped := true }).signal (report s.app)
      else s.setApp { s.app with reaped := true }) := by
  have hlater : Later s.app { s.app with reaped := true } :=
    later_of_same rfl id fun _ hr ↦ ⟨hr.1, rfl⟩
  have hreaped := h.later hlater h.sent fun _ ↦ .inl hended
  split_ifs
  · exact hreaped.signal (List.Subset.refl _) fun sig hm ↦ .inr ⟨mem_report hm, rfl⟩
  · exact hreaped

theorem step_inv (h : Inv j pid s) (hs : step j s a = some s') : Inv j pid s' := by
  cases a with
  | returns retVal =>
    obtain ⟨⟨hended, hret⟩, hs⟩ := Option.ite_none_right_eq_some.mp hs
    cases hs
    have hempty : s.app.sent = [] := by
      have hsent := h.sent
      rwa [hret, Option.elim_none, List.take_nil] at hsent
    refine h.later (later_of_same rfl id fun _ hr ↦ hr) ?_ h.closed
    change s.app.sent = (statusWords retVal).take s.app.sent.length
    rw [hempty]
    rfl
  | write =>
    obtain ⟨app', hw, rfl⟩ := Option.map_eq_some_iff.mp hs
    obtain ⟨hl, hsent, hclosed⟩ := write_later h hw
    exact h.later hl hsent hclosed
  | exit =>
    obtain ⟨⟨hended, -⟩, hs⟩ := Option.ite_none_right_eq_some.mp hs
    cases hs
    refine h.later (later_of_same rfl id fun sig hr ↦ ?_) h.sent fun _ ↦ .inl rfl
    rw [Reported, hended] at hr
    cases hr.1
  | kill sig =>
    obtain ⟨⟨hended, -⟩, hs⟩ := Option.ite_none_right_eq_some.mp hs
    cases hs
    refine h.later (later_of_same rfl id fun t hr ↦ ?_) h.sent fun _ ↦ .inl rfl
    rw [Reported, hended] at hr
    cases hr.1
  | close =>
    obtain ⟨hended, hs⟩ := Option.ite_none_right_eq_some.mp hs
    cases hs
    exact h.later (later_of_same rfl (fun _ ↦ rfl) fun _ hr ↦ hr) h.sent fun _ ↦ hended
  | reap stored =>
    obtain ⟨⟨hended, -⟩, hs⟩ := Option.ite_none_right_eq_some.mp hs
    cases hs
    exact reap_inv h hended stored
  | send sig =>
    cases hs
    refine h.signal (List.subset_append_left _ _) fun t ht ↦ .inl ?_
    exact List.mem_append_right _ ht
  | deliver sig =>
    obtain ⟨ht, hs⟩ := Option.ite_none_right_eq_some.mp hs
    cases hs
    exact deliver_inv h ht
  | handler =>
    obtain ⟨-, hs⟩ := Option.ite_none_right_eq_some.mp hs
    obtain ⟨hd, hhd, rfl⟩ := Option.map_eq_some_iff.mp hs
    exact handler_inv h hhd
  | main =>
    obtain ⟨-, hs⟩ := Option.ite_none_right_eq_some.mp hs
    exact main_inv h hs

def rank : Stage → ℕ
  | .action => handled.length + 3
  | .status | .sleeping => handled.length + 2
  | .restoring left _ => left.length + 1
  | .exited _ | .killed _ => 0

def remaining (s : State) : ℕ :=
  rank s.stage + (handled.length + 4) * s.pending.length + s.handling.work

theorem setHandling_rank (s : State) (hd : Handling) :
    rank (s.setHandling hd).stage ≤ rank s.stage := by
  obtain ⟨t, -, hkilled⟩ | ⟨-, hsame⟩ := setHandling_cases s hd
  · rw [hkilled]
    exact Nat.zero_le _
  · rw [hsame]

theorem deliver_remaining {sig : Sig} (hm : sig ∈ s.pending) :
    remaining (s.deliver sig) < remaining s := by
  have hlen : s.pending.length = (s.pending.erase sig).length + 1 := by
    rw [List.length_erase_of_mem hm]
    have := List.length_pos_of_mem hm
    omega
  simp only [remaining, hlen, Nat.mul_succ]
  cases sig with
  | other n =>
    change 0 + (handled.length + 4) * (s.pending.erase (.other n)).length + s.handling.work < _
    omega
  | known t =>
    have hrank := setHandling_rank { s with pending := s.pending.erase (.known t) }
      (s.handling.take t)
    have hwork := take_work s.handling t
    change _ ≤ rank s.stage at hrank
    change rank (State.setHandling { s with pending := s.pending.erase (.known t) }
        (s.handling.take t)).stage +
      (handled.length + 4) * (s.pending.erase (.known t)).length + (s.handling.take t).work < _
    omega

theorem main_remaining (hs : s.main j = some s') : remaining s' < remaining s := by
  cases main_cases hs with
  | action hstage =>
    split_ifs
    · simp only [remaining, hstage, rank]
      omega
    · simp only [remaining, hstage, rank]
      omega
  | status hstage | wake hstage | exit hstage =>
    simp only [remaining, hstage, rank]
    omega
  | restore hstage =>
    simp only [remaining, hstage, rank, Handling.work, List.length_cons]
    omega

theorem own_remaining (h : Inv j pid s) (ha : Own s a) (hs : step j s a = some s') :
    remaining s' < remaining s := by
  cases a with
  | deliver sig =>
    obtain ⟨ht, hs⟩ := Option.ite_none_right_eq_some.mp hs
    cases hs
    exact deliver_remaining (takes_cases ht).1
  | handler =>
    obtain ⟨-, hs⟩ := Option.ite_none_right_eq_some.mp hs
    obtain ⟨hd, hhd, rfl⟩ := Option.map_eq_some_iff.mp hs
    have hrank := setHandling_rank s hd
    have hwork := handler_work h.nested hhd
    change rank (s.setHandling hd).stage + (handled.length + 4) * s.pending.length + hd.work <
      rank s.stage + (handled.length + 4) * s.pending.length + s.handling.work
    omega
  | main =>
    obtain ⟨-, hs⟩ := Option.ite_none_right_eq_some.mp hs
    exact main_remaining hs
  | _ => cases ha

def AtRest (j : Junk) (s : State) : Prop := ∀ a, Own s a → step j s a = none

theorem Inv.first (h : Inv j pid s) (hpos : 0 < s.app.sent.length) (junk : UInt32) :
    s.app.sent[0]?.getD junk = invokerMsgExit := by
  have hsent := h.sent
  cases hret : s.app.retVal with
  | none =>
    rw [hret, Option.elim_none, List.take_nil] at hsent
    rw [hsent] at hpos
    cases hpos
  | some retVal =>
    rw [hret, Option.elim_some] at hsent
    rw [hsent, List.getElem?_take_of_lt hpos]
    rfl

end Applauncherd.Invoker.SharedFate
