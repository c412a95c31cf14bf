import Applauncherd.Invoker.InvokeRemote
import Applauncherd.Invoker.Search
import Applauncherd.Library.RecordLock

namespace Applauncherd.SingleInstance.Lock

open Library Library.Environ Library.Path Library.RecordLock
open Invoker.Send Invoker.Search Invoker.InvokeRemote
open Launcherlib.ReadSocket Launcherlib.Receive Launcherlib.Magic Launcherlib.RoundTrip

def ascii (s : String) : Str := s.toList.map fun c ↦ c.toNat.toUInt8

def lockPathBase : Str := ascii "/tmp/single-instance-locks/"

def lockFileName : Str := ascii "instance.lock"

def lockPath (binaryName : Str) : Str := lockPathBase ++ binaryName ++ (slash :: lockFileName)

def lockFile (binaryName : Str) : Place Str := locate [] (lockPath binaryName)

/-- `lock()` by process `p`, where the lock file can be made and opened. -/
def lock {P : Type*} [DecidableEq P] (owner : Place Str → Option P) (p : P) (binaryName : Str) :
    Option (Place Str → Option P) :=
  (acquire (owner (lockFile binaryName)) p).map fun o ↦
    Function.update owner (lockFile binaryName) o

/-- A request that an invoker has sent for a program that it has found, and that a
booster has accepted. -/
structure Invocation where
  shell : Shell
  request : LaunchRequest
  found : searchProgram shell request.name = .ok request.progName
  sendmsgOk : Bool
  dummy : UInt8
  gid : UInt32
  uid : UInt32
  proc : Process
  accepted : (receiveApplicationData AppData.new (Connection.accepted
    (whole (invokeRemoteSends sendmsgOk dummy request)) gid uid proc)).1 = true

def Invocation.appData (i : Invocation) : AppData :=
  (receiveApplicationData AppData.new (Connection.accepted
    (whole (invokeRemoteSends i.sendmsgOk i.dummy i.request)) i.gid i.uid i.proc)).2.1

inductive Launch
  | invoker (i : Invocation)
  | singleInstance (sh : Shell) (argv1 : Str)

namespace Launch

def typed : Launch → Str
  | invoker i => i.request.name
  | singleInstance _ argv1 => argv1

def binaryName : Launch → Str
  | invoker i => i.appData.appName
  | singleInstance _ argv1 => argv1

/-- The program that is run: `execve` does not search for it. -/
def program : Launch → Place Str
  | invoker i => locate [] i.request.progName
  | singleInstance sh argv1 => locate sh.directory argv1

def start : Launch → Place Str
  | invoker i => startDirectory i.shell i.request.name
  | singleInstance sh argv1 => if rooted argv1 then [] else sh.directory

def way (l : Launch) : Route Str := route (components l.typed)

end Launch

def lockDirectory : Place Str := [ascii "tmp", ascii "single-instance-locks"]

/-- The lock file stands for the program: while the one launch runs, the other is
refused exactly if it is for the same program. -/
structure Identified (l m : Launch) : Prop where
  sameFile : lockFile l.binaryName = lockFile m.binaryName ↔ l.program = m.program
  refused : ∀ owner owner' : Place Str → Option ℕ, ∀ p q, p ≠ q →
    owner (lockFile m.binaryName) = none → lock owner p l.binaryName = some owner' →
      (lock owner' q m.binaryName = none ↔ l.program = m.program)

/-- Where `l` is spelled like `m` but for some directories `d` in front, `d` leads
from the place where `l` starts to the one where `m` starts exactly if it does so
below the lock directory. -/
def Aligned (l m : Launch) : Prop :=
  ∀ d, l.way.names = d ++ m.way.names →
    (above lockDirectory m.way.climb = above lockDirectory l.way.climb ++ d ↔
      above m.start m.way.climb = above l.start l.way.climb ++ d)

theorem aligned_of_rooted {l m : Launch} (hl : rooted l.typed) (hm : rooted m.typed)
    (hcl : l.way.climb = 0) (hcm : m.way.climb = 0) : Aligned l m := by
  have hstart : ∀ k : Launch, rooted k.typed → k.start = [] := by
    intro k hk
    cases k with
    | invoker i => exact if_pos hk
    | singleInstance sh argv1 => exact if_pos hk
  intro d _
  rw [hstart l hl, hstart m hm, hcl, hcm]
  simp [eq_comm]

def fooPath : Str := ascii "/usr/bin/foo"

end Applauncherd.SingleInstance.Lock
