import Applauncherd.Invoker.Send
import Applauncherd.Launcherlib.Sections

namespace Applauncherd.Launcherlib.Magic

open Library Library.Environ Protocol ReadSocket Receive Sections Invoker.Send

def Identified (w : UInt32) : Prop :=
  w &&& invokerMsgMask = invokerMsgMagic ∧
    w &&& invokerMsgMagicVersionMask = invokerMsgMagicVersion

instance (w : UInt32) : Decidable (Identified w) := inferInstanceAs (Decidable (_ ∧ _))

theorem lnot_ne_version (x : UInt32) : lnot x ≠ invokerMsgMagicVersion := by
  unfold lnot
  split_ifs <;> decide

/-- `receiveMagic` never reports a bad word. -/
theorem receiveMagic_eq (c : Connection) : receiveMagic c =
    ((recvMsg c.fd).2.1 &&& invokerMsgMagicOptionMask, { c with
      fd := (recvMsg c.fd).2.2
      sendPid := (recvMsg c.fd).2.1 &&& invokerMsgMagicOptionWait != 0 }) := by
  simp [receiveMagic, lnot_ne_version]

theorem options_ne (w : UInt32) : (w &&& invokerMsgMagicOptionMask).toInt32 ≠ -1 := by
  intro h
  have hlt : (w &&& invokerMsgMagicOptionMask).toNat < 256 := Word.and_lt w (by decide)
  have heq : w &&& invokerMsgMagicOptionMask = 0xffffffff := congrArg Int32.toUInt32 h
  rw [heq] at hlt
  revert hlt
  decide

def magicWord (s : Socket) : UInt32 := (recvMsg s).2.1

def readName (s : Socket) : Str × Socket :=
  if (recvMsg s).2.1 ≠ invokerMsgName then ([], (recvMsg s).2.2)
  else (((recvStr (recvMsg s).2.2).1.map cstr).getD [], (recvStr (recvMsg s).2.2).2)

theorem receiveAppName_eq (c : Connection) :
    receiveAppName c = ((readName c.fd).1, { c with fd := (readName c.fd).2 }) := by
  unfold receiveAppName readName
  rcases recvMsg c.fd with ⟨res, msg, s⟩
  by_cases h : msg = invokerMsgName
  · rcases hr : recvStr s with ⟨_ | name, s'⟩ <;> simp [h, hr]
  · simp [h]

def header (s : Socket) : Str × Socket := readName (recvMsg s).2.2

def request (s : Socket) : List Section × Socket := sections (header s).2

def identified (c : Connection) : Connection :=
  { c with sendPid := magicWord c.fd &&& invokerMsgMagicOptionWait != 0 }

theorem receiveApplicationData_eq (app : AppData) (c : Connection) :
    receiveApplicationData app c =
      if (header c.fd).1 = [] then
        (false, { app with
          options := magicWord c.fd &&& invokerMsgMagicOptionMask
          appName := [] }, { identified c with fd := (header c.fd).2 })
      else if Section.fin ∈ (request c.fd).1 then
        (true, AppData.set { app with
          options := magicWord c.fd &&& invokerMsgMagicOptionMask
          appName := (header c.fd).1 } (run (request c.fd).1 { identified c with
            fd := (request c.fd).2 }),
          run (request c.fd).1 { identified c with fd := (request c.fd).2 })
      else
        (false, { app with
          options := magicWord c.fd &&& invokerMsgMagicOptionMask
          appName := (header c.fd).1 },
          run (request c.fd).1 { identified c with fd := (request c.fd).2 }) := by
  unfold receiveApplicationData
  simp only [receiveMagic_eq, options_ne, if_false, receiveAppName_eq, receiveActions_eq]
  by_cases hn : (header c.fd).1 = []
  · have hn' := hn
    simp only [header] at hn'
    simp [hn', header, magicWord, identified]
  · have hn' := hn
    simp only [header] at hn'
    by_cases hf : Section.fin ∈ (request c.fd).1
    · have hf' := hf
      simp only [request, header] at hf'
      simp [hn', hf', header, request, magicWord, identified]
    · have hf' := hf
      simp only [request, header] at hf'
      simp [hn', hf', header, request, magicWord, identified]

end Applauncherd.Launcherlib.Magic
