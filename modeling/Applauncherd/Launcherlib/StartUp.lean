import Mathlib.Logic.Function.Basic
import Applauncherd.Library.Transition
import Applauncherd.Library.DescriptorTable
import Applauncherd.Library.RecordLock
import Applauncherd.Launcherlib.Tables

namespace Applauncherd.Launcherlib.StartUp

open Library.Transition Library.DescriptorTable Library.RecordLock Tables

structure Flags where
  daemon : Bool
  quiet : Bool
  bootMode : Bool
  debugMode : Bool
  deriving DecidableEq, Repr

def Flags.initial : Flags := ⟨false, false, false, false⟩

/-- `parseArgs` from the flags set so far, or `none` where it prints the usage
and exits. -/
def parseArgs : Flags → List String → Option Flags
  | flags, [] => some flags
  | flags, arg :: args =>
    if arg = "--boot-mode" ∨ arg = "-b" then parseArgs { flags with bootMode := true } args
    else if arg = "--daemon" ∨ arg = "-d" then parseArgs { flags with daemon := true } args
    else if arg = "--debug" then parseArgs { flags with debugMode := true } args
    else if arg = "--help" ∨ arg = "-h" then none
    else if arg = "--quiet" ∨ arg = "-q" then parseArgs { flags with quiet := true } args
    else parseArgs flags args

inductive File
  | lockFile
  | other
  deriving DecidableEq

inductive Call
  | openLock
  | setLock
  | construct
  | close (fd : ℕ)
  | openNull
  | pipe
  | fork
  | exit
  | detach
  | redirect (fd : ℕ)
  | prepare
  | forkBoosters
  | mainLoop
  | unlock
  | booster
  deriving DecidableEq

def lock : List Call := [.openLock, .setLock]

/-- The `dup` of the second descriptor takes the lowest free number too. -/
def consoleQuiet : List Call :=
  [.close 0, .close 1, .close 2, .openNull, .openNull, .openNull]

def daemonize : List Call :=
  [.fork, .fork, .detach, .redirect 0, .redirect 1, .redirect 2]

def constructor (flags : Flags) : List Call :=
  (if flags.quiet then consoleQuiet else []) ++ [.pipe, .pipe, .pipe, .pipe] ++
    if flags.daemon then daemonize else []

def run : List Call := [.prepare, .forkBoosters, .mainLoop]

def main : List Call := lock ++ .construct :: run

def boosterChild : List Call := [.unlock, .booster]

structure Proc where
  argv : List String
  fds : Table File
  lockFd : Option ℕ
  todo : List Call

/-- What the next call of a process does: it ends the process, it asks for the
lock, or it changes the process and may close a descriptor of the lock file. -/
inductive Move
  | ends
  | asks (p : Proc)
  | goes (p : Proc) (closed : Option File)

def move (p : Proc) : Option Move :=
  match p.todo with
  | .openLock :: rest =>
    let (fd, fds) := install p.fds .lockFile
    some (.goes { p with fds := fds, lockFd := some fd, todo := rest } none)
  | .setLock :: rest => some (.asks { p with todo := rest })
  | .construct :: rest =>
    match parseArgs Flags.initial p.argv with
    | none => some .ends
    | some flags => some (.goes { p with todo := constructor flags ++ rest } none)
  | .close fd :: rest =>
    some (.goes { p with fds := close p.fds fd, todo := rest } (lookup p.fds fd))
  | .openNull :: rest =>
    some (.goes { p with fds := (install p.fds .other).2, todo := rest } none)
  | .pipe :: rest =>
    some (.goes { p with fds := (installAll p.fds [.other, .other]).2, todo := rest } none)
  | .exit :: _ => some .ends
  | .redirect fd :: rest =>
    let (n, fds) := install p.fds .other
    some (.goes { p with fds := close (dup2 fds n fd) n, todo := rest }
      (if n = fd then none else lookup fds fd))
  | .detach :: rest | .prepare :: rest | .forkBoosters :: rest =>
    some (.goes { p with todo := rest } none)
  | .unlock :: rest =>
    match p.lockFd with
    | none => some (.goes { p with todo := rest } none)
    | some fd =>
      some (.goes { p with fds := close p.fds fd, lockFd := none, todo := rest }
        (lookup p.fds fd))
  | .fork :: _ | .mainLoop :: _ | .booster :: _ | [] => none

structure World where
  procs : Pid → Option Proc
  owner : Option Pid

def World.start : World := ⟨fun _ ↦ none, none⟩

def World.setProc (w : World) (pid : Pid) (p : Proc) : World :=
  { w with procs := Function.update w.procs pid (some p) }

def World.exit (w : World) (pid : Pid) : World :=
  ⟨Function.update w.procs pid none, release w.owner pid⟩

def World.close (w : World) (pid : Pid) (closed : Option File) : World :=
  if closed = some .lockFile then { w with owner := release w.owner pid } else w

/-- An instance is started, a process makes its next call, `/dev/null` cannot be
opened for it, it forks in `daemonize`, it forks a booster, or it exits: after a
failed call, on a signal, or at the end of a booster. -/
inductive Label
  | start (pid : Pid) (argv : List String) (fds : Table File)
  | call (pid : Pid)
  | noFile (pid : Pid)
  | fork (pid child : Pid)
  | forkBooster (pid child : Pid)
  | exit (pid : Pid)

def act (w : World) (pid : Pid) : Move → World
  | .ends => w.exit pid
  | .asks p =>
    match acquire w.owner pid with
    | none => w.exit pid
    | some owner => { w.setProc pid p with owner := owner }
  | .goes p closed => (w.close pid closed).setProc pid p

def step (w : World) : Label → Option World
  | .start pid argv fds =>
    match w.procs pid with
    | none => some (w.setProc pid ⟨argv, fds, none, main⟩)
    | some _ => none
  | .call pid => (w.procs pid).bind fun p ↦ (move p).map (act w pid)
  | .noFile pid =>
    match w.procs pid with
    | some p =>
      match p.todo with
      | .redirect _ :: rest => some (w.setProc pid { p with todo := rest })
      | _ => none
    | none => none
  | .fork pid child =>
    match w.procs pid, w.procs child with
    | some p, none =>
      match p.todo with
      | .fork :: rest =>
        some ((w.setProc pid { p with todo := [.exit] }).setProc child { p with todo := rest })
      | _ => none
    | _, _ => none
  | .forkBooster pid child =>
    match w.procs pid, w.procs child with
    | some p, none =>
      match p.todo with
      | .forkBoosters :: _ | .mainLoop :: _ =>
        some (w.setProc child { p with todo := boosterChild })
      | _ => none
    | _, _ => none
  | .exit pid => (w.procs pid).map fun _ ↦ w.exit pid

def World.InMainLoop (w : World) (pid : Pid) : Prop :=
  ∃ p, w.procs pid = some p ∧ p.todo = [.mainLoop]

end Applauncherd.Launcherlib.StartUp
