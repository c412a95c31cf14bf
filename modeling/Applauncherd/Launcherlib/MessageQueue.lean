import Applauncherd.Launcherlib.Effects

namespace Applauncherd.Launcherlib.MessageQueue

open BoosterPipe (Message Inv Alone write_cases write_inv read_inv start_inv)
open Library.Transition MainLoop Effects

/-- What the booster pipe is for: messages are sent as a whole and received in
their order. -/
structure Queue where
  inFlight : List Message
  delivered : List Message

inductive Action
  | send (msg : Message)
  | receive

def transfer (q : Queue) : Action → Option Queue
  | .send msg => some { q with inFlight := q.inFlight ++ [msg] }
  | .receive =>
    match q.inFlight with
    | [] => none
    | msg :: rest => some ⟨rest, q.delivered ++ [msg]⟩

def empty : Queue := ⟨[], []⟩

section Bytes

variable {ι : Type} {msg : ι → Message} {s t : BoosterPipe.State ι} {decoded queue : List ι}

def finished (s : BoosterPipe.State ι) (queue : List ι) : List ι :=
  queue.filter fun i ↦ s.written i = 3

theorem finished_write [DecidableEq ι] {i : ι} (h : BoosterPipe.write msg s i = some t)
    (hi : i ∉ queue) : finished t queue = finished s queue := by
  obtain ⟨-, rfl⟩ := write_cases h
  apply List.filter_congr
  intro j hj
  have hne : j ≠ i := fun he ↦ hi (he ▸ hj)
  simp [hne]

theorem finished_step [DecidableEq ι] (hinv : Inv msg s decoded queue) {i : ι}
    (h : BoosterPipe.write msg s i = some t) :
    finished t (if s.written i = 0 then queue ++ [i] else queue) =
      finished s queue ++ if s.written i = 2 then [i] else [] := by
  have hlt := (write_cases h).1
  have hself : t.written i = s.written i + 1 := by
    obtain ⟨-, rfl⟩ := write_cases h
    exact if_pos rfl
  by_cases hz : s.written i = 0
  · have hnew : i ∉ queue := by
      intro hi
      have := (hinv.begun i).mp (List.mem_append_right _ hi)
      omega
    rw [if_pos hz, finished, List.filter_append, ← finished, finished_write h hnew]
    simp [hself, hz]
  · obtain ⟨queue, rfl⟩ := List.getLast?_eq_some_iff.mp (hinv.writing i (by omega) hlt)
    have hnew : i ∉ queue := by
      intro hi
      have hnodup := (List.nodup_append.mp hinv.nodup).2.1
      exact (List.nodup_append.mp hnodup).2.2 i hi i (List.mem_singleton_self i) rfl
    rw [if_neg hz, finished, List.filter_append, ← finished, finished_write h hnew, finished,
      finished, List.filter_append, List.append_assoc]
    have hone : s.written i ≠ 3 := by omega
    by_cases htwo : s.written i = 2
    · simp [hself, htwo]
    · simp [hself, htwo, hone]

def Carries (msg : ι → Message) (s : BoosterPipe.State ι) (q : Queue) : Prop :=
  ∃ decoded queue, Inv msg s decoded queue ∧ q = ⟨(finished s queue).map msg, s.decoded⟩

/-- The third write sends a message, and the third read receives one. -/
def actions (msg : ι → Message) (s : BoosterPipe.State ι) : BoosterPipe.Label ι → List Action
  | .write i => if s.written i = 2 then [.send (msg i)] else []
  | .read =>
    match s.reader with
    | .delay _ _ => [.receive]
    | _ => []

theorem write_carries [DecidableEq ι] {q : Queue} (h : Carries msg s q) {i : ι}
    (hok : Alone s (.write i)) (ht : BoosterPipe.write msg s i = some t) :
    ∃ q', Run transfer Any q (actions msg s (.write i)) q' ∧ Carries msg t q' := by
  obtain ⟨decoded, queue, hinv, rfl⟩ := h
  have hfin := finished_step hinv ht
  have hdecoded : t.decoded = s.decoded := by
    obtain ⟨-, rfl⟩ := write_cases ht
    rfl
  have hcarries : Carries msg t _ := ⟨decoded, _, write_inv hinv hok ht, rfl⟩
  rw [hfin, List.map_append, hdecoded] at hcarries
  rw [actions]
  by_cases htwo : s.written i = 2
  · rw [if_pos htwo] at hcarries ⊢
    exact ⟨_, .one rfl, hcarries⟩
  · rw [if_neg htwo] at hcarries ⊢
    rw [List.map_nil, List.append_nil] at hcarries
    exact ⟨_, .nil _, hcarries⟩

theorem read_decoded (hinv : Inv msg s decoded queue) (ht : BoosterPipe.read s = some t) :
    t.decoded.length = s.decoded.length + (actions msg s .read).length := by
  unfold BoosterPipe.read at ht
  by_cases hpipe : s.pipe = []
  · simp [hpipe] at ht
  · rw [if_neg hpipe] at ht
    cases hr : s.reader with
    | type =>
      simp only [hr] at ht
      cases ht
      simp [actions, hr]
    | pid type =>
      have hfour := hinv.word_there hpipe (by simp [hr])
      simp only [hr, if_neg (Nat.not_lt.mpr hfour)] at ht
      cases ht
      simp [actions, hr]
    | delay type invokerPid =>
      have hfour := hinv.word_there hpipe (by simp [hr])
      simp only [hr, if_neg (Nat.not_lt.mpr hfour)] at ht
      cases ht
      simp [actions, hr]
    | died => exact absurd hr hinv.alive

theorem actions_read (msg : ι → Message) (s : BoosterPipe.State ι) :
    actions msg s .read = [] ∨ actions msg s .read = [.receive] := by
  unfold actions
  cases s.reader <;> simp

theorem read_carries {q : Queue} (h : Carries msg s q) (ht : BoosterPipe.read s = some t) :
    ∃ q', Run transfer Any q (actions msg s .read) q' ∧ Carries msg t q' := by
  obtain ⟨decoded, queue, hinv, rfl⟩ := h
  have hlen := read_decoded hinv ht
  have hactions := actions_read msg s
  obtain ⟨hwritten, ⟨hdecoded, hinv'⟩ | ⟨i, queue, rfl, hdecoded, hinv'⟩⟩ := read_inv hinv ht
  · have hnone : actions msg s .read = [] := by
      refine List.length_eq_zero_iff.mp ?_
      rw [hdecoded] at hlen
      omega
    rw [hnone]
    refine ⟨_, .nil _, decoded, queue, hinv', ?_⟩
    rw [hdecoded, finished, finished, hwritten]
  · have hone : actions msg s .read = [.receive] := by
      refine hactions.resolve_left fun hnone ↦ ?_
      rw [hdecoded, hnone] at hlen
      simp at hlen
    have hthree := hinv'.decoded_finished (List.mem_append_right decoded (List.mem_singleton_self i))
    rw [hwritten] at hthree
    have hfin : finished s (i :: queue) = i :: finished t queue := by
      simp [finished, hwritten, hthree]
    rw [hone, hfin]
    refine ⟨_, .one rfl, decoded ++ [i], queue, hinv', ?_⟩
    rw [hdecoded]

/-- Where no booster writes into the message of another, the three writes and
the three reads of a message are as good as one of each. -/
theorem bytes_refine_queue [DecidableEq ι] {labels : List (BoosterPipe.Label ι)}
    (h : Run (BoosterPipe.step msg) Alone BoosterPipe.start labels s) :
    ∃ q, Run transfer Any empty
        (translate (BoosterPipe.step msg) (actions msg) BoosterPipe.start labels) q ∧
      q.delivered = s.decoded ∧ (BoosterPipe.Quiet s → q.inFlight = []) := by
  have hstep : ∀ (s : BoosterPipe.State ι) a t q, Carries msg s q → Alone s a →
      BoosterPipe.step msg s a = some t →
      ∃ q', Run transfer Any q (actions msg s a) q' ∧ Carries msg t q' := by
    intro s a t q hs hok ht
    cases a with
    | write i => exact write_carries hs hok ht
    | read => exact read_carries hs ht
  have hstart : Carries msg BoosterPipe.start empty := ⟨[], [], start_inv msg, rfl⟩
  obtain ⟨q, hrun, decoded, queue, hinv, rfl⟩ := h.refine _ (actions msg) hstep hstart
  refine ⟨_, hrun, rfl, ?_⟩
  intro hquiet
  rw [hinv.queue_nil hquiet]
  rfl

end Bytes

def messages (s : System) : List Message := s.pipe.map Packet.message

def mainActions (w : World) : Label → List Action
  | .write b =>
    match w.sys.procs b with
    | some ⟨type, _, _, .accepted r, none⟩ => [.send ⟨type, r.invokersPid, r.delay⟩]
    | _ => []
  | .daemon _ =>
    match w.phase with
    | .booster r => if r.booster ∧ w.sys.pipe ≠ [] then [.receive] else []
    | _ => []
  | _ => []

variable {w w' : World} {q : Queue}

theorem same_transfers {s t : System} (hq : q.inFlight = messages s) (hpipe : t.pipe = s.pipe) :
    ∃ q', Run transfer Any q [] q' ∧ q'.inFlight = messages t := by
  refine ⟨q, .nil _, ?_⟩
  rw [hq, messages, messages, hpipe]

theorem daemonStep_transfers {newPid : Tables.Pid} (hs : daemonStep w newPid = some w')
    (hq : q.inFlight = messages w.sys) :
    ∃ q', Run transfer Any q (mainActions w (.daemon newPid)) q' ∧ q'.inFlight = messages w'.sys := by
  cases daemonStep_cases hs with
  | @read r t hphase hr ht =>
    have htail := pipe_read ht
    simp only [mainActions, hphase, hr, true_and]
    cases hpipe : w.sys.pipe with
    | nil => exact same_transfers hq (by rw [World.put, htail, hpipe]; rfl)
    | cons packet pipe =>
      have hcons : q.inFlight = packet.message :: pipe.map Packet.message := by
        rw [hq, messages, hpipe, List.map_cons]
      have hstep : transfer q .receive =
          some ⟨pipe.map Packet.message, q.delivered ++ [packet.message]⟩ := by
        simp only [transfer, hcons]
      refine ⟨_, .one hstep, ?_⟩
      rw [messages, World.put, htail, hpipe, List.tail_cons]
  | skipRead hphase hr =>
    simp only [mainActions, hphase, hr, Bool.false_eq_true, false_and, if_false]
    exact same_transfers hq rfl
  | fork hphase ht =>
    simp only [mainActions, hphase]
    exact same_transfers hq (pipe_forkBooster ht)
  | reap hphase hi hc hdead ht =>
    simp only [mainActions, hphase]
    exact same_transfers hq (pipe_reapChild ht)
  | kill hphase =>
    simp only [mainActions, hphase]
    exact same_transfers hq (by rw [killBooster_eq]; rfl)
  | forked hphase | select hphase | scan hphase | skipScan hphase | scanned hphase
  | running hphase | forget hphase | exit hphase | skipTerm hphase | leave hphase | stay hphase
  | skipUsr1 hphase | killed hphase =>
    simp only [mainActions, hphase]
    exact same_transfers hq rfl

theorem step_transfers {a : Label} (hs : step w a = some w') (hq : q.inFlight = messages w.sys) :
    ∃ q', Run transfer Any q (mainActions w a) q' ∧ q'.inFlight = messages w'.sys := by
  cases a with
  | accept b r =>
    obtain ⟨t, ht, rfl⟩ := Option.map_eq_some_iff.mp hs
    obtain ⟨c, -, -, rfl⟩ := receiveDataFromInvoker_cases ht
    exact same_transfers hq rfl
  | write b =>
    obtain ⟨t, ht, rfl⟩ := Option.map_eq_some_iff.mp hs
    unfold System.sendDataToParent at ht
    split at ht
    · rename_i type bootMode sleepTime r hb
      cases ht
      have hsend : mainActions w (.write b) = [.send ⟨type, r.invokersPid, r.delay⟩] := by
        simp only [mainActions, hb]
      rw [hsend]
      refine ⟨_, .one rfl, ?_⟩
      change q.inFlight ++ [_] = (w.sys.pipe ++ [_]).map Packet.message
      rw [hq, List.map_append]
      rfl
    · cases ht
  | die b status =>
    obtain ⟨t, ht, rfl⟩ := Option.map_eq_some_iff.mp hs
    obtain ⟨c, -, rfl⟩ := die_cases ht
    exact same_transfers hq rfl
  | sigChld =>
    simp only [step] at hs
    split_ifs at hs
    cases hs
    exact same_transfers hq rfl
  | sigTerm | sigUsr1 =>
    cases hs
    exact same_transfers hq rfl
  | daemon newPid => exact daemonStep_transfers hs hq

/-- The pipe of the main loop is the same queue. -/
theorem mainLoop_refines_queue {registry : Registry} {bootMode : Bool} {labels : List Label}
    (h : Run step Any (start registry bootMode) labels w) :
    ∃ q, Run transfer Any empty (translate step mainActions (start registry bootMode) labels) q ∧
      q.inFlight = messages w.sys := by
  have hstart : empty.inFlight = messages (start registry bootMode).sys := rfl
  refine h.refine (fun w (q : Queue) ↦ q.inFlight = messages w.sys) mainActions ?_ hstart
  exact fun w a w' q hq _ hs ↦ step_transfers hs hq

end Applauncherd.Launcherlib.MessageQueue
