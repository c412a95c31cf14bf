import Applauncherd.Library.Word

namespace Applauncherd.Protocol

open Library

def invokerMsgMask : UInt32 := 0xffff0000
def invokerMsgMagic : UInt32 := 0xb0070000
def invokerMsgMagicVersionMask : UInt32 := 0x0000ff00
def invokerMsgMagicVersion : UInt32 := 0x00000300
def invokerMsgMagicOptionMask : UInt32 := 0x000000ff
def invokerMsgMagicOptionWait : UInt32 := 0x00000001
def invokerMsgMagicOptionDlopenGlobal : UInt32 := 0x00000002
def invokerMsgMagicOptionDlopenDeep : UInt32 := 0x00000004
def invokerMsgMagicOptionSingleInstance : UInt32 := 0x00000008
def invokerMsgName : UInt32 := 0x5a5e0000
def invokerMsgExec : UInt32 := 0xe8ec0000
def invokerMsgArgs : UInt32 := 0xa4650000
def invokerMsgEnv : UInt32 := 0xe5710000
def invokerMsgPrio : UInt32 := 0xa1ce0000
def invokerMsgDelay : UInt32 := 0xb2de0012
def invokerMsgIds : UInt32 := 0xb2df4000
def invokerMsgIo : UInt32 := 0x10fd0000
def invokerMsgEnd : UInt32 := 0xdead0000
def invokerMsgPid : UInt32 := 0x1d1d0000
def invokerMsgExit : UInt32 := 0xe4170000
def invokerMsgAck : UInt32 := 0x600d0000
def invokerMsgBadCreds : UInt32 := 0x60035800

/-- The words that `Connection::receiveActions` takes for an action. -/
def actions : List UInt32 :=
  [invokerMsgExec, invokerMsgArgs, invokerMsgEnv, invokerMsgPrio, invokerMsgDelay,
    invokerMsgIo, invokerMsgIds, invokerMsgEnd]

theorem zero_mem_action {w : UInt32} (h : w ∈ actions) : 0 ∈ Word.encode w := by
  have hall : actions.all fun w ↦ decide (0 ∈ Word.encode w) := rfl
  exact of_decide_eq_true (List.all_eq_true.mp hall w h)

theorem action_large {w : UInt32} (h : w ∈ actions) : 2 ^ 28 < w.toNat := by
  have hall : actions.all fun w ↦ decide (2 ^ 28 < w.toNat) := rfl
  exact of_decide_eq_true (List.all_eq_true.mp hall w h)

theorem text_not_action {bs : List UInt8} (h : bs.length = 4) (hz : 0 ∉ bs) :
    Word.decode bs ∉ actions :=
  fun ha ↦ Word.decode_ne h hz (zero_mem_action ha) rfl

theorem small_not_action {w : UInt32} (h : w.toNat ≤ 2 ^ 28) : w ∉ actions :=
  fun ha ↦ by have := action_large ha; omega

end Applauncherd.Protocol
