import Applauncherd.Launcherlib.MainLoop

namespace Applauncherd.Launcherlib.Effects

open BoosterPipe (Message)
open Library.Transition Tables MainLoop

def Child.Launched (c : Child) : Prop := ∃ r, c.stage = .launched r

theorem receiveDataFromInvoker_cases {s t : System} {b : Pid} {r : Request}
    (h : s.receiveDataFromInvoker b r = some t) :
    ∃ c, s.procs b = some c ∧ c.stage = .waiting ∧
      t = s.setProc b (some { c with stage := .accepted r }) := by
  unfold System.receiveDataFromInvoker at h
  split at h
  · rename_i type bootMode sleepTime hb
    exact ⟨_, hb, rfl, (Option.some.inj h).symm⟩
  · cases h

theorem readFromBoosterPipe_cases {s t : System} {newPid : Pid}
    (h : s.readFromBoosterPipe newPid = some t) :
    t = s ∨ ∃ packet pipe, s.pipe = packet :: pipe ∧
      { s with tables := storeInvoker s.tables packet.message, pipe := pipe }.forkBooster
        packet.message.type packet.message.delay newPid = some t := by
  unfold System.readFromBoosterPipe at h
  split at h
  · exact .inl (Option.some.inj h).symm
  · rename_i packet pipe hpipe
    exact .inr ⟨packet, pipe, hpipe, h⟩

theorem sendDataToParent_cases {s t : System} {b : Pid} (h : s.sendDataToParent b = some t) :
    ∃ c r, s.procs b = some c ∧ c.stage = .accepted r ∧
      t = { s.setProc b (some { c with stage := .launched r }) with
        pipe := s.pipe ++ [⟨b, c.type, r.invokersPid, r.delay⟩] } := by
  unfold System.sendDataToParent at h
  split at h
  · rename_i type bootMode sleepTime r hb
    exact ⟨_, r, hb, rfl, (Option.some.inj h).symm⟩
  · cases h

theorem die_cases {s t : System} {b : Pid} {status : Status} (h : s.die b status = some t) :
    ∃ c, s.procs b = some c ∧ t = s.setProc b (some { c with status := some status }) := by
  unfold System.die at h
  split at h
  · rename_i type bootMode sleepTime stage hb
    exact ⟨_, hb, (Option.some.inj h).symm⟩
  · cases h

def newborn (s : System) (type : UInt8) (sleepTime : UInt32) : Child :=
  ⟨type, s.tables.bootMode, sleepTime, .waiting, none⟩

def spawned (s : System) (type : UInt8) (sleepTime : UInt32) (newPid : Pid) : System :=
  { s.setProc newPid (some (newborn s type sleepTime)) with
    tables := Tables.forkBooster s.tables type newPid }

theorem forkBooster_cases {s t : System} {type : UInt8} {sleepTime : UInt32} {newPid : Pid}
    (h : s.forkBooster type sleepTime newPid = some t) :
    newPid ≠ 0 ∧ s.procs newPid = none ∧ t = spawned s type sleepTime newPid := by
  unfold System.forkBooster at h
  split_ifs at h with hnew
  exact ⟨hnew.1, hnew.2, (Option.some.inj h).symm⟩

def taken (s : System) (msg : Message) (pipe : List Packet) : System :=
  { s with tables := storeInvoker s.tables msg, pipe := pipe }

def buried (s : System) (i : ℕ) (pid : Pid) (c : Child) : System :=
  { s.setProc pid none with
    tables := buryChild s.tables i pid
    forwards := s.forwards ++ forwardsOf s.tables pid c }

theorem reapChild_cases {s t : System} {i : ℕ} {pid newPid : Pid} {c : Child}
    (h : s.reapChild i pid c newPid = some t) :
    (∃ type, (buried s i pid c).forkBooster type boosterSleepTime newPid = some t) ∨
      t = buried s i pid c := by
  simp only [System.reapChild] at h
  split_ifs at h
  · exact .inl ⟨_, h⟩
  · exact .inr (Option.some.inj h).symm

theorem pipe_forkBooster {s t : System} {type : UInt8} {sleepTime : UInt32} {newPid : Pid}
    (ht : s.forkBooster type sleepTime newPid = some t) : t.pipe = s.pipe := by
  obtain ⟨-, -, rfl⟩ := forkBooster_cases ht
  rfl

theorem pipe_read {s t : System} {newPid : Pid} (ht : s.readFromBoosterPipe newPid = some t) :
    t.pipe = s.pipe.tail := by
  unfold System.readFromBoosterPipe at ht
  split at ht
  · rename_i hpipe
    cases ht
    rw [hpipe]
    rfl
  · rename_i packet pipe hpipe
    rw [pipe_forkBooster ht, hpipe]
    rfl

theorem pipe_reapChild {s t : System} {i : ℕ} {pid newPid : Pid} {c : Child}
    (ht : s.reapChild i pid c newPid = some t) : t.pipe = s.pipe := by
  obtain ⟨type, ht⟩ | rfl := reapChild_cases ht
  · exact (pipe_forkBooster ht).trans rfl
  · rfl

theorem killBooster_eq (s : System) (type : UInt8) : s.killBooster type =
    { s with sigterms := (s.killBooster type).sigterms } := by
  simp only [System.killBooster]
  split_ifs <;> rfl

theorem ended_of_not_running {c : Child} (h : ∀ type bootMode sleepTime stage,
    c = ⟨type, bootMode, sleepTime, stage, none⟩ → False) : c.status.isSome := by
  obtain ⟨type, bootMode, sleepTime, stage, status⟩ := c
  cases status with
  | none => exact (h type bootMode sleepTime stage rfl).elim
  | some status => rfl

/-- What the daemon does next, by the place in `Daemon::run` that it has come to. -/
inductive DaemonStep (w : World) (newPid : Pid) : World → Prop
  | forked : w.phase = .forkBoosters [] → DaemonStep w newPid (w.put .select w.sys)
  | fork {type : UInt8} {types : List UInt8} {t : System} :
      w.phase = .forkBoosters (type :: types) → w.sys.forkBooster type 0 newPid = some t →
      DaemonStep w newPid (w.put (.forkBoosters types) t)
  | select : w.phase = .select → w.ready ≠ ⟨false, false, false, false⟩ →
      DaemonStep w newPid (w.put (.booster w.ready) w.sys)
  | read {r : Ready} {t : System} : w.phase = .booster r → r.booster = true →
      w.sys.readFromBoosterPipe newPid = some t → DaemonStep w newPid (w.put (.sigChld r) t)
  | skipRead {r : Ready} : w.phase = .booster r → r.booster = false →
      DaemonStep w newPid (w.put (.sigChld r) w.sys)
  | scan {r : Ready} : w.phase = .sigChld r → r.sigChld = true →
      DaemonStep w newPid
        { w.put (.reapZombies r 0) w.sys with sigChldPipe := w.sigChldPipe - 1 }
  | skipScan {r : Ready} : w.phase = .sigChld r → r.sigChld = false →
      DaemonStep w newPid (w.put (.sigTerm r) w.sys)
  | scanned {r : Ready} {i : ℕ} : w.phase = .reapZombies r i →
      w.sys.tables.children[i]? = none → DaemonStep w newPid (w.put (.sigTerm r) w.sys)
  | running {r : Ready} {i : ℕ} {pid : Pid} {c : Child} : w.phase = .reapZombies r i →
      w.sys.tables.children[i]? = some pid → w.sys.procs pid = some c → c.status = none →
      DaemonStep w newPid (w.put (.reapZombies r (i + 1)) w.sys)
  | reap {r : Ready} {i : ℕ} {pid : Pid} {c : Child} {t : System} :
      w.phase = .reapZombies r i → w.sys.tables.children[i]? = some pid →
      w.sys.procs pid = some c → c.status.isSome →
      w.sys.reapChild i pid c newPid = some t →
      DaemonStep w newPid (w.put (.reapZombies r i) t)
  | forget {r : Ready} {i : ℕ} {pid : Pid} : w.phase = .reapZombies r i →
      w.sys.tables.children[i]? = some pid → w.sys.procs pid = none →
      DaemonStep w newPid (w.put (.reapZombies r i) { w.sys with
        tables := { w.sys.tables with children := w.sys.tables.children.eraseIdx i } })
  | exit {r : Ready} : w.phase = .sigTerm r → r.sigTerm = true →
      DaemonStep w newPid (w.put .exited w.sys)
  | skipTerm {r : Ready} : w.phase = .sigTerm r → r.sigTerm = false →
      DaemonStep w newPid (w.put (.sigUsr1 r) w.sys)
  | leave {r : Ready} : w.phase = .sigUsr1 r → r.sigUsr1 = true →
      w.sys.tables.bootMode = true →
      DaemonStep w newPid
        { w.put (.killBoosters w.sys.tables.boosterTypeToPid.keys) w.sys.leaveBootMode with
          sigUsr1Pipe := w.sigUsr1Pipe - 1 }
  | stay {r : Ready} : w.phase = .sigUsr1 r → r.sigUsr1 = true →
      w.sys.tables.bootMode = false →
      DaemonStep w newPid { w.put .select w.sys with sigUsr1Pipe := w.sigUsr1Pipe - 1 }
  | skipUsr1 {r : Ready} : w.phase = .sigUsr1 r → r.sigUsr1 = false →
      DaemonStep w newPid (w.put .select w.sys)
  | killed : w.phase = .killBoosters [] → DaemonStep w newPid (w.put .select w.sys)
  | kill {type : UInt8} {types : List UInt8} : w.phase = .killBoosters (type :: types) →
      DaemonStep w newPid (w.put (.killBoosters types) (w.sys.killBooster type))

theorem reapStep_cases {w w' : World} {r : Ready} {i : ℕ} {newPid : Pid}
    (hphase : w.phase = .reapZombies r i) (h : reapStep w r i newPid = some w') :
    DaemonStep w newPid w' := by
  unfold reapStep at h
  split at h
  · rename_i hi
    cases h
    exact .scanned hphase hi
  · rename_i pid hi
    split at h
    · rename_i hc
      cases h
      exact .running hphase hi hc rfl
    · rename_i c hlive hc
      obtain ⟨t, ht, rfl⟩ := Option.map_eq_some_iff.mp h
      exact .reap hphase hi hc (ended_of_not_running hlive) ht
    · rename_i hnone
      cases h
      exact .forget hphase hi hnone

theorem daemonStep_cases {w w' : World} {newPid : Pid} (h : daemonStep w newPid = some w') :
    DaemonStep w newPid w' := by
  cases hphase : w.phase with
  | forkBoosters types =>
    cases types with
    | nil =>
      simp only [daemonStep, hphase] at h
      cases h
      exact .forked hphase
    | cons type types =>
      simp only [daemonStep, hphase] at h
      obtain ⟨t, ht, rfl⟩ := Option.map_eq_some_iff.mp h
      exact .fork hphase ht
  | select =>
    simp only [daemonStep, hphase] at h
    split_ifs at h with hready
    cases h
    exact .select hphase hready
  | booster r =>
    simp only [daemonStep, hphase] at h
    split_ifs at h with hr
    · obtain ⟨t, ht, rfl⟩ := Option.map_eq_some_iff.mp h
      exact .read hphase hr ht
    · cases h
      exact .skipRead hphase (Bool.eq_false_of_not_eq_true hr)
  | sigChld r =>
    simp only [daemonStep, hphase] at h
    split_ifs at h with hr <;> cases h
    · exact .scan hphase hr
    · exact .skipScan hphase (Bool.eq_false_of_not_eq_true hr)
  | reapZombies r i =>
    simp only [daemonStep, hphase] at h
    exact reapStep_cases hphase h
  | sigTerm r =>
    simp only [daemonStep, hphase] at h
    split_ifs at h with hr <;> cases h
    · exact .exit hphase hr
    · exact .skipTerm hphase (Bool.eq_false_of_not_eq_true hr)
  | sigUsr1 r =>
    simp only [daemonStep, hphase] at h
    split_ifs at h with hr hboot <;> cases h
    · exact .leave hphase hr hboot
    · exact .stay hphase hr (Bool.eq_false_of_not_eq_true hboot)
    · exact .skipUsr1 hphase (Bool.eq_false_of_not_eq_true hr)
  | killBoosters types =>
    cases types with
    | nil =>
      simp only [daemonStep, hphase] at h
      cases h
      exact .killed hphase
    | cons type types =>
      simp only [daemonStep, hphase] at h
      cases h
      exact .kill hphase
  | exited =>
    simp only [daemonStep, hphase] at h
    cases h

def Phase.todo : Phase → List UInt8
  | .forkBoosters types => types
  | _ => []

variable (reapOk : System → Pid → Prop) (killOk : System → UInt8 → Prop)

/-- What a step does to the system. The types are those that the daemon has
still to fork a first booster for. -/
inductive Effect : List UInt8 → System → List UInt8 → System → Prop
  | idle (todo : List UInt8) (s : System) : Effect todo s todo s
  | accept {todo : List UInt8} {s t : System} {b : Pid} {r : Request} :
      s.receiveDataFromInvoker b r = some t → Effect todo s todo t
  | write {todo : List UInt8} {s t : System} {b : Pid} :
      s.sendDataToParent b = some t → Effect todo s todo t
  | die {todo : List UInt8} {s t : System} {b : Pid} {status : Status} :
      s.die b status = some t → Effect todo s todo t
  | fork {type : UInt8} {todo : List UInt8} {s t : System} {newPid : Pid} :
      s.forkBooster type 0 newPid = some t → Effect (type :: todo) s todo t
  | read {s t : System} {packet : Packet} {pipe : List Packet} {newPid : Pid} :
      s.pipe = packet :: pipe →
      (taken s packet.message pipe).forkBooster packet.message.type packet.message.delay newPid =
        some t → Effect [] s [] t
  | reap {s t : System} {i : ℕ} {pid : Pid} {c : Child} {newPid : Pid} :
      s.tables.children[i]? = some pid → s.procs pid = some c → reapOk s pid →
      s.reapChild i pid c newPid = some t → Effect [] s [] t
  | forget {s : System} {i : ℕ} {pid : Pid} :
      s.tables.children[i]? = some pid → s.procs pid = none →
      Effect [] s [] { s with
        tables := { s.tables with children := s.tables.children.eraseIdx i } }
  | leave (s : System) : Effect [] s [] s.leaveBootMode
  | kill {s : System} {type : UInt8} : killOk s type → Effect [] s [] (s.killBooster type)

def World.reaped (w : World) : Option Pid :=
  match w.phase with
  | .reapZombies _ i =>
    w.sys.tables.children[i]?.filter fun pid ↦ (w.sys.procs pid).any fun c ↦ c.status.isSome
  | _ => none

def World.killed (w : World) : Option UInt8 :=
  match w.phase with
  | .killBoosters (type :: _) => some type
  | _ => none

def Orderly (w : World) : Label → Prop
  | .daemon _ => (∀ pid ∈ World.reaped w, reapOk w.sys pid) ∧
      ∀ type ∈ World.killed w, killOk w.sys type
  | _ => True

variable {reapOk killOk}

instance [∀ s pid, Decidable (reapOk s pid)] [∀ s type, Decidable (killOk s type)] (w : World)
    (a : Label) : Decidable (Orderly reapOk killOk w a) :=
  match a with
  | .daemon _ => @instDecidableAnd _ _ (Option.decidableForallMem _) (Option.decidableForallMem _)
  | .accept _ _ | .write _ | .die _ _ | .sigChld | .sigTerm | .sigUsr1 => isTrue trivial

theorem orderly_of_any {w w' : World} {labels : List Label} (h : Run step Any w labels w') :
    Run step (Orderly (fun _ _ ↦ True) fun _ _ ↦ True) w labels w' := by
  refine h.mono ?_
  intro w a _
  cases a with
  | daemon newPid => exact ⟨fun _ _ ↦ trivial, fun _ _ ↦ trivial⟩
  | _ => trivial

theorem daemonStep_effect {w w' : World} {newPid : Pid}
    (hok : Orderly reapOk killOk w (.daemon newPid)) (h : daemonStep w newPid = some w') :
    Effect reapOk killOk (Phase.todo w.phase) w.sys (Phase.todo w'.phase) w'.sys := by
  cases daemonStep_cases h with
  | fork hphase ht =>
    rw [hphase]
    exact .fork ht
  | read hphase hr ht =>
    rw [hphase]
    obtain rfl | ⟨packet, pipe, hpipe, ht⟩ := readFromBoosterPipe_cases ht
    · exact .idle _ _
    · exact .read hpipe ht
  | reap hphase hi hc hdead ht =>
    rw [hphase]
    refine .reap hi hc (hok.1 _ ?_) ht
    simp [World.reaped, hphase, hi, hc, hdead]
  | forget hphase hi hnone =>
    rw [hphase]
    exact .forget hi hnone
  | leave hphase hr hboot =>
    rw [hphase]
    exact .leave _
  | kill hphase =>
    rw [hphase]
    exact .kill (hok.2 _ (by simp [World.killed, hphase]))
  | forked hphase | select hphase | skipRead hphase | scan hphase | skipScan hphase
  | scanned hphase | running hphase | exit hphase | skipTerm hphase | stay hphase
  | skipUsr1 hphase | killed hphase =>
    rw [hphase]
    exact .idle _ _

theorem step_effect {w w' : World} {a : Label} (hok : Orderly reapOk killOk w a)
    (h : step w a = some w') :
    Effect reapOk killOk (Phase.todo w.phase) w.sys (Phase.todo w'.phase) w'.sys := by
  cases a with
  | accept b r =>
    obtain ⟨t, ht, rfl⟩ := Option.map_eq_some_iff.mp h
    exact .accept ht
  | write b =>
    obtain ⟨t, ht, rfl⟩ := Option.map_eq_some_iff.mp h
    exact .write ht
  | die b status =>
    obtain ⟨t, ht, rfl⟩ := Option.map_eq_some_iff.mp h
    exact .die ht
  | sigChld =>
    unfold step at h
    split_ifs at h
    cases h
    exact .idle _ _
  | sigTerm =>
    cases h
    exact .idle _ _
  | sigUsr1 =>
    cases h
    exact .idle _ _
  | daemon newPid => exact daemonStep_effect hok h

theorem step_outside {w w' : World} {a : Label} (ha : ∀ newPid, a ≠ .daemon newPid)
    (h : step w a = some w') :
    w'.phase = w.phase ∧ w'.sys.tables = w.sys.tables ∧
      (a ≠ .sigTerm → w'.sigTermPipe = w.sigTermPipe) := by
  cases a with
  | accept b r =>
    obtain ⟨t, ht, rfl⟩ := Option.map_eq_some_iff.mp h
    obtain ⟨c, -, -, rfl⟩ := receiveDataFromInvoker_cases ht
    exact ⟨rfl, rfl, fun _ ↦ rfl⟩
  | write b =>
    obtain ⟨t, ht, rfl⟩ := Option.map_eq_some_iff.mp h
    obtain ⟨c, r, -, -, rfl⟩ := sendDataToParent_cases ht
    exact ⟨rfl, rfl, fun _ ↦ rfl⟩
  | die b status =>
    obtain ⟨t, ht, rfl⟩ := Option.map_eq_some_iff.mp h
    obtain ⟨c, -, rfl⟩ := die_cases ht
    exact ⟨rfl, rfl, fun _ ↦ rfl⟩
  | sigChld =>
    unfold step at h
    split_ifs at h
    cases h
    exact ⟨rfl, rfl, fun _ ↦ rfl⟩
  | sigTerm =>
    cases h
    exact ⟨rfl, rfl, fun hne ↦ absurd rfl hne⟩
  | sigUsr1 =>
    cases h
    exact ⟨rfl, rfl, fun _ ↦ rfl⟩
  | daemon newPid => exact absurd rfl (ha newPid)

theorem effect_sigterms {todo todo' : List UInt8} {s t : System}
    (he : Effect reapOk killOk todo s todo' t) :
    t.sigterms = s.sigterms ∨
      todo = [] ∧ ∃ type, killOk s type ∧ t = s.killBooster type := by
  have hfork : ∀ {u : System} {type : UInt8} {sleepTime : UInt32} {newPid : Pid},
      u.forkBooster type sleepTime newPid = some t → t.sigterms = u.sigterms := by
    intro u type sleepTime newPid ht
    obtain ⟨-, -, rfl⟩ := forkBooster_cases ht
    rfl
  cases he with
  | idle => exact .inl rfl
  | forget => exact .inl rfl
  | leave => exact .inl rfl
  | kill hok => exact .inr ⟨rfl, _, hok, rfl⟩
  | accept ht =>
    obtain ⟨c, -, -, rfl⟩ := receiveDataFromInvoker_cases ht
    exact .inl rfl
  | write ht =>
    obtain ⟨c, r, -, -, rfl⟩ := sendDataToParent_cases ht
    exact .inl rfl
  | die ht =>
    obtain ⟨c, -, rfl⟩ := die_cases ht
    exact .inl rfl
  | fork ht => exact .inl (hfork ht)
  | read hpipe ht => exact .inl ((hfork ht).trans rfl)
  | reap hi hc hok ht =>
    obtain ⟨type, ht⟩ | rfl := reapChild_cases ht
    · exact .inl ((hfork ht).trans rfl)
    · exact .inl rfl

/-- An invariant of the system that every effect preserves holds in every state
that an orderly run reaches. -/
theorem run_invariant (I : List UInt8 → System → Prop)
    (hI : ∀ todo s todo' t, Effect reapOk killOk todo s todo' t → I todo s → I todo' t)
    {w w' : World} {labels : List Label} (h : Run step (Orderly reapOk killOk) w labels w')
    (hw : I (Phase.todo w.phase) w.sys) : I (Phase.todo w'.phase) w'.sys := by
  refine h.invariant (fun w ↦ I (Phase.todo w.phase) w.sys) ?_ hw
  intro u a v hu hok hs
  exact hI _ _ _ _ (step_effect hok hs) hu

end Applauncherd.Launcherlib.Effects
