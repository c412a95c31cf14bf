import Applauncherd.Protocol
import Applauncherd.Launcherlib.ReadSocket

namespace Applauncherd.Invoker.Send

open Library Library.Environ Protocol Launcherlib.ReadSocket

/-- A string that `execve` can have passed on: no NUL, under 128 KiB. -/
def Text (s : Str) : Prop := 0 ∉ s ∧ s.length < 2 ^ 17

/-- What `invoke_remote` is called with, together with what it asks the kernel
for. The counts of arguments and variables are values of `int`. -/
structure LaunchRequest where
  magicOptions : UInt32
  name : Str
  args : List Str
  progName : Str
  prio : Int32
  respawnDelay : UInt32
  uid : UInt32
  gid : UInt32
  io : Fin 3 → OpenFile
  environ : List Str
  options_bits : magicOptions &&& invokerMsgMagicOptionMask = magicOptions
  name_ne : name ≠ []
  progName_absolute : progName.head? = some 47
  argc_int : args.length + 1 < 2 ^ 31
  environ_ne : environ ≠ []
  environ_int : environ.length < 2 ^ 31
  environ_names : (environ.map Environ.name).Nodup
  environ_equals : ∀ e ∈ environ, equals ∈ e
  name_text : Text name
  args_text : ∀ a ∈ args, Text a
  progName_text : Text progName
  environ_text : ∀ e ∈ environ, Text e

def LaunchRequest.argv (r : LaunchRequest) : List Str := r.name :: r.args

def LaunchRequest.files (r : LaunchRequest) : List OpenFile := [r.io 0, r.io 1, r.io 2]

theorem LaunchRequest.argv_text (r : LaunchRequest) : ∀ a ∈ r.argv, Text a := by
  intro a ha
  rcases List.mem_cons.mp ha with rfl | ha
  · exact r.name_text
  · exact r.args_text a ha

def invokeSendMsg (msg : UInt32) : List Cell := (Word.encode msg).map plain

def sendText (str : Str) : List Cell := (str ++ [0]).map plain

def invokeSendStr (str : Str) : List Cell :=
  invokeSendMsg (UInt32.ofNat (str.length + 1)) ++ sendText str

def invokerSendMagic (options : UInt32) : List Cell :=
  invokeSendMsg (invokerMsgMagic ||| invokerMsgMagicVersion ||| options)

def invokerSendName (name : Str) : List Cell :=
  invokeSendMsg invokerMsgName ++ invokeSendStr name

def invokerSendExec (exec : Str) : List Cell :=
  invokeSendMsg invokerMsgExec ++ invokeSendStr exec

def sendList (strs : List Str) : List Cell :=
  invokeSendMsg (UInt32.ofNat strs.length) ++ strs.flatMap invokeSendStr

def invokerSendArgs (argv : List Str) : List Cell := invokeSendMsg invokerMsgArgs ++ sendList argv

def invokerSendPrio (prio : Int32) : List Cell :=
  invokeSendMsg invokerMsgPrio ++ invokeSendMsg prio.toUInt32

def invokerSendDelay (delay : UInt32) : List Cell :=
  invokeSendMsg invokerMsgDelay ++ invokeSendMsg delay

def invokerSendIds (uid gid : UInt32) : List Cell :=
  invokeSendMsg invokerMsgIds ++ invokeSendMsg uid ++ invokeSendMsg gid

def invokerSendEnv (environ : List Str) : List Cell :=
  invokeSendMsg invokerMsgEnv ++ sendList environ

/-- `sendmsg` either passes on one byte of an uninitialised variable together
with the descriptors, or fails, which is only reported. -/
def invokerSendIo (sendmsgOk : Bool) (dummy : UInt8) (files : List OpenFile) : List Cell :=
  invokeSendMsg invokerMsgIo ++ if sendmsgOk then [⟨dummy, files⟩] else []

def invokerSendEnd : List Cell := invokeSendMsg invokerMsgEnd

def sendActions (sendmsgOk : Bool) (dummy : UInt8) (r : LaunchRequest) : List Cell :=
  invokerSendExec r.progName ++ (invokerSendArgs r.argv ++ (invokerSendPrio r.prio ++
    (invokerSendDelay r.respawnDelay ++ (invokerSendIds r.uid r.gid ++
      (invokerSendIo sendmsgOk dummy r.files ++ (invokerSendEnv r.environ ++ invokerSendEnd))))))

def invokeRemoteSends (sendmsgOk : Bool) (dummy : UInt8) (r : LaunchRequest) : List Cell :=
  invokerSendMagic r.magicOptions ++ (invokerSendName r.name ++ sendActions sendmsgOk dummy r)

end Applauncherd.Invoker.Send
