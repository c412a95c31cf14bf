import Applauncherd.Protocol
import Applauncherd.Library.DescriptorTable
import Applauncherd.Launcherlib.ReadSocket
import Mathlib.Data.Int.Basic

namespace Applauncherd.Launcherlib.Receive

open Library Library.Environ Library.DescriptorTable Protocol ReadSocket

/-- An element of the `argv` array: an array from `new[]` starts indeterminate. -/
inductive Slot
  | uninit
  | null
  | str (buf : List UInt8)
  deriving DecidableEq, Repr

structure Process where
  pid : UInt32
  environ : List Str
  files : Table OpenFile
  deriving DecidableEq, Repr

structure Connection where
  fd : Socket
  fileName : Str
  argc : UInt32
  argv : Option (List Slot)
  io : List ℤ
  priority : UInt32
  delay : UInt32
  sendPid : Bool
  gid : UInt32
  uid : UInt32
  sent : List UInt32
  proc : Process
  deriving DecidableEq, Repr

/-- `Connection::Connection` and `accept`. The constructor leaves `m_gid` and
`m_uid` as the memory happens to be. -/
def Connection.accepted (fd : Socket) (gid uid : UInt32) (proc : Process) : Connection where
  fd := fd
  fileName := []
  argc := 0
  argv := none
  io := [-1, -1, -1]
  priority := 0
  delay := 0
  sendPid := false
  gid := gid
  uid := uid
  sent := []
  proc := proc

structure AppData where
  options : UInt32
  argc : Int32
  argv : Option (List Slot)
  appName : Str
  fileName : Str
  prio : Int32
  delay : Int32
  ioDescriptors : List ℤ
  gid : UInt32
  uid : UInt32
  deriving DecidableEq, Repr

def AppData.new : AppData := ⟨0, 0, none, [], [], 0, 0, [], 0, 0⟩

def sendMsg (c : Connection) (msg : UInt32) : Connection := { c with sent := c.sent ++ [msg] }

def sendPid (c : Connection) (pid : UInt32) : Connection := sendMsg (sendMsg c invokerMsgPid) pid

/-- `!x`, as C computes it: an integer. -/
def lnot (x : UInt32) : UInt32 := if x = 0 then 1 else 0

def receiveMagic (c : Connection) : UInt32 × Connection :=
  let (_, magic, s) := recvMsg c.fd
  let c := { c with fd := s }
  -- the negation binds tighter than the comparison
  if magic &&& invokerMsgMask = invokerMsgMagic ∧
      lnot (magic &&& invokerMsgMagicVersionMask) = invokerMsgMagicVersion then (-1, c)
  else
    (magic &&& invokerMsgMagicOptionMask,
      { c with sendPid := magic &&& invokerMsgMagicOptionWait != 0 })

def receiveAppName (c : Connection) : Str × Connection :=
  let (_, msg, s) := recvMsg c.fd
  if msg ≠ invokerMsgName then ([], { c with fd := s })
  else
    match recvStr s with
    | (none, s) => ([], { c with fd := s })
    | (some name, s) => (cstr name, { c with fd := s })

def receiveExec (c : Connection) : Bool × Connection :=
  match recvStr c.fd with
  | (none, s) => (false, { c with fd := s })
  | (some filename, s) => (true, { c with fd := s, fileName := cstr filename })

def receivePriority (c : Connection) : Bool × Connection :=
  let (_, w, s) := recvMsg c.fd
  (true, { c with fd := s, priority := w })

def receiveDelay (c : Connection) : Bool × Connection :=
  let (_, w, s) := recvMsg c.fd
  (true, { c with fd := s, delay := w })

def receiveIDs (c : Connection) : Bool × Connection :=
  let (_, u, s) := recvMsg c.fd
  let (_, g, s) := recvMsg s
  (true, { c with fd := s, uid := u, gid := g })

def argMax : UInt32 := 1024

def receiveArgv : ℕ → Socket → Bool × List Slot × Socket
  | 0, s => (true, [], s)
  | n + 1, s =>
    match recvStr s with
    | (none, s) => (false, .null :: List.replicate n .uninit, s)
    | (some arg, s) =>
      let (ok, slots, s) := receiveArgv n s
      (ok, .str arg :: slots, s)

def receiveArgs (c : Connection) : Bool × Connection :=
  let (_, argc, s) := recvMsg c.fd
  let c := { c with fd := s, argc := argc }
  if 0 < argc ∧ argc < argMax then
    let (ok, slots, s) := receiveArgv argc.toNat c.fd
    (ok, { c with fd := s, argv := some slots })
  else (false, c)

def putenvSanitize (var : Str) : Bool := equals ∈ var

def maxVars : UInt32 := 1024

def receiveVars : ℕ → Connection → Bool × Connection
  | 0, c => (true, c)
  | n + 1, c =>
    match recvStr c.fd with
    | (none, s) => (false, { c with fd := s })
    | (some var, s) =>
      let environ := if putenvSanitize (cstr var) then putenv c.proc.environ (cstr var)
        else c.proc.environ
      receiveVars n { c with fd := s, proc := { c.proc with environ := environ } }

def receiveEnv (c : Connection) : Bool × Connection :=
  let (_, n_vars, s) := recvMsg c.fd
  let c := { c with fd := s }
  if 0 < n_vars ∧ n_vars < maxVars then receiveVars n_vars.toNat c else (false, c)

/-- How many descriptors fit in `CMSG_SPACE(sizeof(m_io))` bytes of control
data where words are eight bytes long: three and one of padding. -/
def controlRoom : ℕ := 4

/-- `Connection::receiveIo`: only exactly three descriptors are taken over. The
others that fit are open in the booster all the same. -/
def receiveIo (c : Connection) : Bool × Connection :=
  match recvmsg c.fd with
  | (none, s) => (false, { c with fd := s })
  | (some files, s) =>
    let (ns, table) := installAll c.proc.files (files.take controlRoom)
    let c := { c with fd := s, proc := { c.proc with files := table } }
    if files.length = 3 then (true, { c with io := ns.map (↑) }) else (false, c)

def clearenv (c : Connection) : Connection := { c with proc := { c.proc with environ := [] } }

def acknowledge (c : Connection) : Connection :=
  let c := sendMsg c invokerMsgAck
  if c.sendPid then sendPid c c.proc.pid else c

/-- The body of the loop of `receiveActions`: `none` starts the next round, and
the results of the section handlers are not looked at. -/
def receiveAction (c : Connection) : Option Bool × Connection :=
  let (_, action, s) := recvMsg c.fd
  let c := { c with fd := s }
  if action = invokerMsgExec then (none, (receiveExec c).2)
  else if action = invokerMsgArgs then (none, (receiveArgs c).2)
  else if action = invokerMsgEnv then (none, (receiveEnv (clearenv c)).2)
  else if action = invokerMsgPrio then (none, (receivePriority c).2)
  else if action = invokerMsgDelay then (none, (receiveDelay c).2)
  else if action = invokerMsgIo then (none, (receiveIo c).2)
  else if action = invokerMsgIds then (none, (receiveIDs c).2)
  else if action = invokerMsgEnd then (some true, acknowledge c)
  else (some false, c)

def receiveActionsLoop : ℕ → Connection → Option (Bool × Connection)
  | 0, _ => none
  | n + 1, c =>
    match receiveAction c with
    | (some b, c) => some (b, c)
    | (none, c) => receiveActionsLoop n c

/-- Every round that goes on has read a word, so that the loop ends within the
length of the stream. -/
def receiveActions (c : Connection) : Bool × Connection :=
  (receiveActionsLoop (c.fd.stream.length + 1) c).getD (false, c)

def AppData.set (app : AppData) (c : Connection) : AppData :=
  { app with
    fileName := c.fileName
    prio := c.priority.toInt32
    delay := c.delay.toInt32
    argc := c.argc.toInt32
    argv := c.argv
    ioDescriptors := c.io
    uid := c.uid
    gid := c.gid }

def receiveApplicationData (app : AppData) (c : Connection) : Bool × AppData × Connection :=
  let (magic, c) := receiveMagic c
  let app := { app with options := magic }
  if app.options.toInt32 = -1 then (false, app, c)
  else
    let (name, c) := receiveAppName c
    let app := { app with appName := name }
    if app.appName = [] then (false, app, c)
    else
      match receiveActions c with
      | (false, c) => (false, app, c)
      | (true, c) => (true, app.set c, c)

end Applauncherd.Launcherlib.Receive
