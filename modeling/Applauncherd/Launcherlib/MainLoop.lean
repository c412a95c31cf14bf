import Applauncherd.Launcherlib.Tables

namespace Applauncherd.Launcherlib.MainLoop

open BoosterPipe (Message)
open Library.Transition Tables

inductive Status
  | exited (code : UInt8)
  | signaled (signal : ℕ)
  deriving DecidableEq, Repr

structure Request where
  invoker : Pid
  wait : Bool
  delay : UInt32
  deriving DecidableEq, Repr

def Request.invokersPid (r : Request) : Pid := if r.wait then r.invoker else 0

inductive Stage
  | waiting
  | accepted (r : Request)
  | launched (r : Request)
  deriving DecidableEq, Repr

/-- A child process of the daemon, a zombie once it has a status. -/
structure Child where
  type : UInt8
  bootMode : Bool
  sleepTime : UInt32
  stage : Stage
  status : Option Status
  deriving DecidableEq, Repr

/-- A message in the booster pipe. The daemon does not see who has sent it. -/
structure Packet where
  sender : Pid
  message : Message
  deriving DecidableEq, Repr

structure Forward where
  invoker : Pid
  signal : ℕ
  child : Child
  deriving DecidableEq, Repr

/-- A SIGTERM of `killBoosters`, and the state of the process that it went to. -/
structure Sigterm where
  pid : Pid
  child : Option Child
  deriving DecidableEq, Repr

structure System where
  tables : Tables
  procs : Pid → Option Child
  pipe : List Packet
  forwards : List Forward
  sigterms : List Sigterm

def System.setProc (s : System) (pid : Pid) (c : Option Child) : System :=
  { s with procs := fun p ↦ if p = pid then c else s.procs p }

def System.receiveDataFromInvoker (s : System) (b : Pid) (r : Request) : Option System :=
  match s.procs b with
  | some ⟨type, bootMode, sleepTime, .waiting, none⟩ =>
    some (s.setProc b (some ⟨type, bootMode, sleepTime, .accepted r, none⟩))
  | _ => none

def System.sendDataToParent (s : System) (b : Pid) : Option System :=
  match s.procs b with
  | some ⟨type, bootMode, sleepTime, .accepted r, none⟩ =>
    let s := s.setProc b (some ⟨type, bootMode, sleepTime, .launched r, none⟩)
    some { s with pipe := s.pipe ++ [⟨b, type, r.invokersPid, r.delay⟩] }
  | _ => none

def System.die (s : System) (b : Pid) (status : Status) : Option System :=
  match s.procs b with
  | some ⟨type, bootMode, sleepTime, stage, none⟩ =>
    some (s.setProc b (some ⟨type, bootMode, sleepTime, stage, some status⟩))
  | _ => none

/-- `fork` returns the pid of no unreaped child. A daemon that cannot fork has
died. -/
def System.forkBooster (s : System) (type : UInt8) (sleepTime : UInt32) (newPid : Pid) :
    Option System :=
  if newPid ≠ 0 ∧ s.procs newPid = none then
    let s := s.setProc newPid (some ⟨type, s.tables.bootMode, sleepTime, .waiting, none⟩)
    some { s with tables := Tables.forkBooster s.tables type newPid }
  else none

def System.readFromBoosterPipe (s : System) (newPid : Pid) : Option System :=
  match s.pipe with
  | [] => some s
  | packet :: pipe =>
    let s := { s with tables := storeInvoker s.tables packet.message, pipe := pipe }
    s.forkBooster packet.message.type packet.message.delay newPid

def forwardsOf (t : Tables) (pid : Pid) (c : Child) : List Forward :=
  match t.boosterPidToInvokerPid[pid]?, c.status with
  | some invoker, some (.signaled signal) => [⟨invoker, signal, c⟩]
  | _, _ => []

def System.reapChild (s : System) (i : ℕ) (pid : Pid) (c : Child) (newPid : Pid) : Option System :=
  let t := buryChild s.tables i pid
  let s := { s.setProc pid none with
    tables := t
    forwards := s.forwards ++ forwardsOf s.tables pid c }
  let type := boosterTypeForPid t pid
  if type ≠ 0 then s.forkBooster type boosterSleepTime newPid else some s

def System.killBooster (s : System) (type : UInt8) : System :=
  let pid := boosterPidForType s.tables type
  if pid ≠ 0 then { s with sigterms := s.sigterms ++ [⟨pid, s.procs pid⟩] } else s

def System.leaveBootMode (s : System) : System :=
  { s with tables := { s.tables with bootMode := false } }

structure Ready where
  booster : Bool
  sigChld : Bool
  sigTerm : Bool
  sigUsr1 : Bool
  deriving DecidableEq, Repr

inductive Phase
  | forkBoosters (types : List UInt8)
  | select
  | booster (r : Ready)
  | sigChld (r : Ready)
  | reapZombies (r : Ready) (i : ℕ)
  | sigTerm (r : Ready)
  | sigUsr1 (r : Ready)
  | killBoosters (types : List UInt8)
  | exited
  deriving DecidableEq, Repr

structure World where
  sys : System
  phase : Phase
  chldPending : Bool
  sigChldPipe : ℕ
  sigTermPipe : ℕ
  sigUsr1Pipe : ℕ

def World.ready (w : World) : Ready :=
  ⟨!w.sys.pipe.isEmpty, 0 < w.sigChldPipe, 0 < w.sigTermPipe, 0 < w.sigUsr1Pipe⟩

inductive Label
  | accept (b : Pid) (r : Request)
  | write (b : Pid)
  | die (b : Pid) (status : Status)
  | sigChld
  | sigTerm
  | sigUsr1
  /-- The daemon goes on; if it forks, `fork` returns the pid. -/
  | daemon (newPid : Pid)
  deriving DecidableEq, Repr

def World.put (w : World) (phase : Phase) (s : System) : World := { w with sys := s, phase := phase }

/-- The next step of `reapZombies`: `waitpid` reports a running child, one that
has ended, or that there is no such child. -/
def reapStep (w : World) (r : Ready) (i : ℕ) (newPid : Pid) : Option World :=
  match w.sys.tables.children[i]? with
  | none => some (w.put (.sigTerm r) w.sys)
  | some pid =>
    match w.sys.procs pid with
    | some ⟨_, _, _, _, none⟩ => some (w.put (.reapZombies r (i + 1)) w.sys)
    | some c => (w.sys.reapChild i pid c newPid).map (w.put (.reapZombies r i))
    | none =>
      let t := { w.sys.tables with children := w.sys.tables.children.eraseIdx i }
      some (w.put (.reapZombies r i) { w.sys with tables := t })

def daemonStep (w : World) (newPid : Pid) : Option World :=
  match w.phase with
  | .forkBoosters [] => some (w.put .select w.sys)
  | .forkBoosters (type :: types) =>
    (w.sys.forkBooster type 0 newPid).map (w.put (.forkBoosters types))
  | .select =>
    if w.ready = ⟨false, false, false, false⟩ then none else some (w.put (.booster w.ready) w.sys)
  | .booster r =>
    if r.booster then (w.sys.readFromBoosterPipe newPid).map (w.put (.sigChld r))
    else some (w.put (.sigChld r) w.sys)
  | .sigChld r =>
    if r.sigChld then
      some { w.put (.reapZombies r 0) w.sys with sigChldPipe := w.sigChldPipe - 1 }
    else some (w.put (.sigTerm r) w.sys)
  | .reapZombies r i => reapStep w r i newPid
  | .sigTerm r => if r.sigTerm then some (w.put .exited w.sys) else some (w.put (.sigUsr1 r) w.sys)
  | .sigUsr1 r =>
    if r.sigUsr1 then
      if w.sys.tables.bootMode then
        some { w.put (.killBoosters w.sys.tables.boosterTypeToPid.keys) w.sys.leaveBootMode with
          sigUsr1Pipe := w.sigUsr1Pipe - 1 }
      else some { w.put .select w.sys with sigUsr1Pipe := w.sigUsr1Pipe - 1 }
    else some (w.put .select w.sys)
  | .killBoosters [] => some (w.put .select w.sys)
  | .killBoosters (type :: types) => some (w.put (.killBoosters types) (w.sys.killBooster type))
  | .exited => none

def step (w : World) : Label → Option World
  | .accept b r => (w.sys.receiveDataFromInvoker b r).map (w.put w.phase)
  | .write b => (w.sys.sendDataToParent b).map (w.put w.phase)
  | .die b status =>
    (w.sys.die b status).map fun s ↦ { w.put w.phase s with chldPending := true }
  | .sigChld =>
    if w.chldPending then some { w with chldPending := false, sigChldPipe := w.sigChldPipe + 1 }
    else none
  | .sigTerm => some { w with sigTermPipe := w.sigTermPipe + 1 }
  | .sigUsr1 => some { w with sigUsr1Pipe := w.sigUsr1Pipe + 1 }
  | .daemon newPid => daemonStep w newPid

/-- The types in `BoosterPluginRegistry`, where a type is registered once. -/
structure Registry where
  types : List UInt8
  nodup : types.Nodup
  no_zero : 0 ∉ types

def start (registry : Registry) (bootMode : Bool) : World where
  sys := ⟨⟨bootMode, [], ∅, ∅⟩, fun _ ↦ none, [], [], []⟩
  phase := .forkBoosters registry.types
  chldPending := false
  sigChldPipe := 0
  sigTermPipe := 0
  sigUsr1Pipe := 0

end Applauncherd.Launcherlib.MainLoop
