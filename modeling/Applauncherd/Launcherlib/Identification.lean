import Applauncherd.Launcherlib.Decode

namespace Applauncherd.Launcherlib.Identification

open Library Library.Environ Library.DescriptorTable Protocol ReadSocket Receive Sections Magic
open Decode Invoker.Send

def Begins (s : Socket) (w : UInt32) : Prop :=
  (s.outcomes.head? = none ∨ s.outcomes.head? = some .full) ∧
    ∃ first rest, s.stream = first ++ rest ∧ first.map Cell.byte = Word.encode w

/-- The identification is enforced for the streams that begin with `w`: a bad
word is refused whatever follows, and a good one sets the options and the wait flag. -/
def MagicEnforced (w : UInt32) : Prop :=
  ∀ (app : AppData) (c : Connection), Begins c.fd w →
    (¬Identified w → (receiveApplicationData app c).1 = false) ∧
      (Identified w →
        (receiveApplicationData app c).2.1.options = w &&& invokerMsgMagicOptionMask ∧
        (receiveApplicationData app c).2.2.sendPid =
          (w &&& invokerMsgMagicOptionWait != 0))

theorem magicWord_begins {s : Socket} {w : UInt32} (h : Begins s w) : magicWord s = w := by
  obtain ⟨ho, first, rest, hs, hb⟩ := h
  have hl : first.length = 4 := by
    have := congrArg List.length hb
    simpa using this
  have htake : s.stream.take 4 = first := by rw [hs, ← hl, List.take_left]
  have ht : (s.transfer 4).1 = .ok first := by
    rw [← htake]
    unfold Socket.transfer
    rcases ho with ho | ho <;> rw [ho] <;> rfl
  rcases hr : s.transfer 4 with ⟨res, s'⟩
  rw [hr] at ht
  cases ht
  simp [magicWord, recvMsg, hr, hl, hb]

theorem apply_sendPid (sec : Section) (c : Connection) : (sec.apply c).sendPid = c.sendPid := by
  rcases sec with (_ | _) | _ | _ | _ | _ | (_ | _) | _ | _ | _ <;>
    simp [Section.apply, takeFiles_eq, acknowledge_eq]

theorem run_sendPid (secs : List Section) (c : Connection) :
    (run secs c).sendPid = c.sendPid := by
  induction secs generalizing c with
  | nil => rfl
  | cons sec secs ih => exact (ih _).trans (apply_sendPid sec c)

theorem options_received (app : AppData) (c : Connection) :
    (receiveApplicationData app c).2.1.options =
        magicWord c.fd &&& invokerMsgMagicOptionMask ∧
      (receiveApplicationData app c).2.2.sendPid =
        (magicWord c.fd &&& invokerMsgMagicOptionWait != 0) := by
  rw [receiveApplicationData_eq]
  split_ifs
  · exact ⟨rfl, rfl⟩
  · exact ⟨rfl, run_sendPid _ _⟩
  · exact ⟨rfl, run_sendPid _ _⟩

def shortest (w : UInt32) : List Cell :=
  invokeSendMsg w ++ (invokerSendName [97] ++ invokerSendEnd)

theorem shortest_begins (w : UInt32) : Begins (whole (shortest w)) w :=
  ⟨.inl rfl, invokeSendMsg w, _, rfl, by simp [invokeSendMsg, plain, Function.comp_def]⟩

theorem shortest_accepted (w : UInt32) (app : AppData) (c : Connection)
    (hc : c.fd = whole (shortest w)) : (receiveApplicationData app c).1 = true := by
  have hh : header c.fd = ([97], whole invokerSendEnd) := by
    rw [header, hc, shortest, recvMsg_send]
    change readName (whole (invokerSendName [97] ++ invokerSendEnd)) = _
    decide
  have hr : (request c.fd).1 = [.fin] := by
    rw [request, hh]
    decide
  rw [receiveApplicationData_eq, hh, hr]
  simp

/-- The identification is enforced only for the words that pass it. -/
theorem magicEnforced_iff (w : UInt32) : MagicEnforced w ↔ Identified w := by
  constructor
  · intro h
    by_contra hw
    let c := Connection.accepted (whole (shortest w)) 0 0 ⟨1, [], []⟩
    have hfalse := (h AppData.new c (shortest_begins w)).1 hw
    rw [shortest_accepted w AppData.new c rfl] at hfalse
    cases hfalse
  · intro h app c hb
    have hw := magicWord_begins hb
    refine ⟨fun hn ↦ absurd h hn, fun _ ↦ ?_⟩
    rw [← hw]
    exact options_received app c

theorem old_version_accepted : ¬MagicEnforced 0xb0070200 := by
  intro h
  have hfalse := (h AppData.new (Connection.accepted (whole (shortest 0xb0070200)) 0 0 ⟨1, [], []⟩)
    (shortest_begins _)).1 (by decide)
  revert hfalse
  decide

end Applauncherd.Launcherlib.Identification
