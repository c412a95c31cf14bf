import Applauncherd.Invoker.InvokeRemote
import Applauncherd.Invoker.Signals

namespace Applauncherd.Invoker.CutReply

open Library Protocol InvokeRemote Signals

variable {pid status : UInt32} {j : Junk} {k : ℕ}

/-- `g_invoked_pid` once the forwarder is installed, or `none` where the invoker
dies before that. -/
def invokedPid (j : Junk) (reply : List UInt8) : Option Int32 :=
  match invokeRecvAck j ⟨reply, []⟩ with
  | (false, _) => none
  | (true, r) => (invokerRecvPid j r).1.map UInt32.toInt32

/-- The first bytes of the reply to an invoker that waits. The reply to one that
does not is the first four. -/
def cutReply (pid status : UInt32) (k : ℕ) : List UInt8 :=
  (wire [invokerMsgAck, invokerMsgPid, pid, invokerMsgExit, status]).take k

/-- The invoker does not act on what it has not received: without the ACK it dies,
without the pid it forwards no signal, and without the status it returns none but
the one for a lost connection. -/
structure Heeded (k : ℕ) (pid : Option Int32) (result : Option Int32) : Prop where
  ack : k < 4 → result = none
  forwarding : k < 12 → ∀ p ∈ pid, ∀ sigs, (deliverAll (waiting p) sigs).forwarded = []
  status : k < 20 → ∀ st ∈ result, st = exitStatusApplicationConnectionLost.toInt32

def complete (junk word : UInt32) (n : ℕ) : UInt32 :=
  Word.decode ((Word.encode word).take n ++ (Word.encode junk).drop n)

def NoStatus (j : Junk) : Prop :=
  j.exitAction = invokerMsgExit → j.status = exitStatusApplicationConnectionLost

/-- What the words held before does not complete the word at which the reply breaks
off, nor stand for the words after it. -/
def HarmlessJunk (pid status : UInt32) (j : Junk) (k : ℕ) : Prop :=
  if k < 4 then complete j.ackAction invokerMsgAck k = invokerMsgAck → j.pidAction ≠ invokerMsgPid
  else if k < 8 then
    complete j.pidAction invokerMsgPid (k - 4) = invokerMsgPid → j.pid.toInt32 < 0 ∧ NoStatus j
  else if k < 12 then (complete j.pid pid (k - 8)).toInt32 < 0 ∧ NoStatus j
  else if k < 16 then
    complete j.exitAction invokerMsgExit (k - 12) = invokerMsgExit →
      j.status = exitStatusApplicationConnectionLost
  else k < 20 → complete j.status status (k - 16) = exitStatusApplicationConnectionLost

theorem complete_all {n : ℕ} (h : 4 ≤ n) (junk word : UInt32) : complete junk word n = word := by
  rw [complete, List.take_of_length_le (by simpa using h), List.drop_eq_nil_of_le (by simpa using h),
    List.append_nil, Word.decode_encode]

theorem complete_none (junk word : UInt32) : complete junk word 0 = junk := by
  rw [complete, List.take_zero, List.drop_zero, List.nil_append, Word.decode_encode]

theorem recvMsg_cut (msg w : UInt32) (words reads : List UInt32) (k : ℕ) :
    invokeRecvMsg msg ⟨(wire (w :: words)).take k, reads⟩ =
      (complete msg w k, ⟨(wire words).take (k - 4), reads ++ [complete msg w k]⟩) := by
  have hw : wire (w :: words) = Word.encode w ++ wire words := List.flatMap_cons
  have ht : ((wire (w :: words)).take k).take 4 = (Word.encode w).take k := by
    rw [List.take_take, Nat.min_comm, ← List.take_take, hw,
      List.take_left' (Word.encode_length w)]
  have hd : ((wire (w :: words)).take k).drop 4 = (wire words).take (k - 4) := by
    rw [List.drop_take, hw, List.drop_left' (Word.encode_length w)]
  have hl : (Word.encode msg).drop ((Word.encode w).take k).length = (Word.encode msg).drop k := by
    rw [List.length_take, Word.encode_length]
    rcases Nat.le_total k 4 with h | h
    · rw [Nat.min_eq_left h]
    · rw [Nat.min_eq_right h, List.drop_eq_nil_of_le (by simp), List.drop_eq_nil_of_le (by simpa)]
  simp only [invokeRecvMsg, ht, hd, hl, complete]

theorem recvAck_cut (words : List UInt32) : invokeRecvAck j ⟨(wire (invokerMsgAck :: words)).take k, []⟩ =
    (decide (complete j.ackAction invokerMsgAck k = invokerMsgAck),
      ⟨(wire words).take (k - 4), [complete j.ackAction invokerMsgAck k]⟩) := by
  simp only [invokeRecvAck, recvMsg_cut, List.nil_append, Prod.mk.injEq, and_true]
  by_cases h : complete j.ackAction invokerMsgAck k = invokerMsgAck
  · rw [h]
    rfl
  · simp [h]

theorem invokedPid_cut : invokedPid j (cutReply pid status k) =
    if complete j.ackAction invokerMsgAck k = invokerMsgAck ∧
      complete j.pidAction invokerMsgPid (k - 4) = invokerMsgPid then
      some (complete j.pid pid (k - 8)).toInt32
    else none := by
  unfold invokedPid cutReply
  rw [recvAck_cut]
  by_cases ha : complete j.ackAction invokerMsgAck k = invokerMsgAck
  · by_cases hp : complete j.pidAction invokerMsgPid (k - 4) = invokerMsgPid
    · simp [ha, hp, invokerRecvPid, recvMsg_cut, Nat.sub_sub]
    · simp [ha, hp, invokerRecvPid, recvMsg_cut]
  · simp [ha]

theorem invokeRemote_cut : (invokeRemote true j (cutReply pid status k)).1 =
    if complete j.ackAction invokerMsgAck k = invokerMsgAck ∧
      complete j.pidAction invokerMsgPid (k - 4) = invokerMsgPid then
      some (if complete j.exitAction invokerMsgExit (k - 12) = invokerMsgExit then
        (complete j.status status (k - 16)).toInt32
        else exitStatusApplicationConnectionLost.toInt32)
    else none := by
  unfold invokeRemote cutReply
  rw [recvAck_cut]
  by_cases ha : complete j.ackAction invokerMsgAck k = invokerMsgAck
  · by_cases hp : complete j.pidAction invokerMsgPid (k - 4) = invokerMsgPid
    · by_cases he : complete j.exitAction invokerMsgExit (k - 12) = invokerMsgExit
      · simp [ha, hp, he, invokerRecvPid, invokerRecvExit, recvMsg_cut, Nat.sub_sub]
      · simp [ha, hp, he, invokerRecvPid, invokerRecvExit, recvMsg_cut, Nat.sub_sub]
    · simp [ha, hp, invokerRecvPid, recvMsg_cut]
  · simp [ha]

theorem toInt32_inj {v w : UInt32} : v.toInt32 = w.toInt32 ↔ v = w :=
  ⟨fun h ↦ congrArg Int32.toUInt32 h, fun h ↦ congrArg UInt32.toInt32 h⟩

theorem nothing_forwarded {p : Int32} :
    (∀ sigs, (deliverAll (waiting p) sigs).forwarded = []) ↔ p < 0 := by
  constructor
  · intro h
    by_contra hp
    have hf := forwarded_first (Int32.not_lt.mp hp) [.sigterm]
    rw [h] at hf
    cases hf
  · intro hp sigs
    have hd : ∀ s, deliver (waiting p) s = waiting p := by
      intro s
      simp [waiting_eq, deliver, sigForwarder, Int32.not_le.mpr hp]
    have hall : deliverAll (waiting p) sigs = waiting p := by
      induction sigs with
      | nil => rfl
      | cons s sigs ih =>
        rw [deliverAll, List.foldl_cons, hd]
        exact ih
    rw [hall, waiting_eq]

theorem heeded_died (k : ℕ) : Heeded k none none :=
  ⟨fun _ ↦ rfl, nofun, nofun⟩

theorem heeded_waited {n st : Int32} : Heeded k (some n) (some st) ↔
    4 ≤ k ∧ (k < 12 → n < 0) ∧
      (k < 20 → st = exitStatusApplicationConnectionLost.toInt32) := by
  constructor
  · intro h
    refine ⟨?_, ?_, ?_⟩
    · by_contra hk
      cases h.ack (by omega)
    · exact fun hk ↦ nothing_forwarded.mp (h.forwarding hk n rfl)
    · exact fun hk ↦ h.status hk st rfl
  · intro h
    obtain ⟨hk, hn, hst⟩ := h
    refine ⟨?_, ?_, ?_⟩
    · intro hlt
      omega
    · intro hlt p hp
      cases hp
      exact nothing_forwarded.mpr (hn hlt)
    · intro hlt s hs
      cases hs
      exact hst hlt

theorem status_lost {exit status : UInt32} :
    (if exit = invokerMsgExit then status.toInt32
      else exitStatusApplicationConnectionLost.toInt32) =
        exitStatusApplicationConnectionLost.toInt32 ↔
      (exit = invokerMsgExit → status = exitStatusApplicationConnectionLost) := by
  split_ifs with h
  · simp [h, toInt32_inj]
  · simp [h]

theorem complete_before {n : ℕ} (h : k ≤ n) (junk word : UInt32) :
    complete junk word (k - n) = junk := by
  rw [Nat.sub_eq_zero_of_le h, complete_none]

theorem heeded_cut : Heeded k (invokedPid j (cutReply pid status k))
    (invokeRemote true j (cutReply pid status k)).1 ↔
      (complete j.ackAction invokerMsgAck k = invokerMsgAck →
        complete j.pidAction invokerMsgPid (k - 4) = invokerMsgPid →
        4 ≤ k ∧ (k < 12 → (complete j.pid pid (k - 8)).toInt32 < 0) ∧
          (k < 20 → complete j.exitAction invokerMsgExit (k - 12) = invokerMsgExit →
            complete j.status status (k - 16) = exitStatusApplicationConnectionLost)) := by
  rw [invokedPid_cut, invokeRemote_cut]
  by_cases h : complete j.ackAction invokerMsgAck k = invokerMsgAck ∧
      complete j.pidAction invokerMsgPid (k - 4) = invokerMsgPid
  · rw [if_pos h, if_pos h, heeded_waited, status_lost]
    exact ⟨fun hk _ _ ↦ hk, fun hk ↦ hk h.1 h.2⟩
  · rw [if_neg h, if_neg h]
    exact ⟨fun _ ha hp ↦ absurd ⟨ha, hp⟩ h, fun _ ↦ heeded_died k⟩

/-- The invoker acts on what it has received exactly if the words that it reads
into held nothing harmful. -/
theorem heeded_iff : Heeded k (invokedPid j (cutReply pid status k))
    (invokeRemote true j (cutReply pid status k)).1 ↔ HarmlessJunk pid status j k := by
  rw [heeded_cut]
  unfold HarmlessJunk NoStatus
  split_ifs with h4 h8 h12 h16
  · rw [complete_before h4.le]
    have hk : ¬4 ≤ k := by omega
    simp [hk]
  · have hk : 4 ≤ k ∧ k < 12 ∧ k < 20 := by omega
    rw [complete_all hk.1 j.ackAction, complete_before (show k ≤ 8 by omega),
      complete_before (show k ≤ 12 by omega), complete_before (show k ≤ 16 by omega)]
    simp [hk]
  · have hk : 4 ≤ k ∧ k < 20 := by omega
    rw [complete_all hk.1 j.ackAction, complete_all (by omega) j.pidAction,
      complete_before (show k ≤ 12 by omega), complete_before (show k ≤ 16 by omega)]
    simp [hk, h12]
  · have hk : 4 ≤ k ∧ k < 20 := by omega
    rw [complete_all hk.1 j.ackAction, complete_all (by omega) j.pidAction,
      complete_before h16.le]
    simp [hk, h12]
  · have hk : 4 ≤ k := by omega
    rw [complete_all hk j.ackAction, complete_all (by omega) j.pidAction,
      complete_all (by omega) j.exitAction]
    simp [hk, h12]

/-- The connection ends after PID, and signals are forwarded to whatever process has
the number that was on the stack. -/
theorem stalePid_forwarded : ¬∀ (pid status : UInt32) (j : Junk) (k : ℕ),
    Heeded k (invokedPid j (cutReply pid status k))
      (invokeRemote true j (cutReply pid status k)).1 := by
  intro h
  have hf := (h 77 0 ⟨0, 0, 1234, 0, 0⟩ 8).forwarding (by decide) 1234 (by decide)
  exact absurd (nothing_forwarded.mp hf) (by decide)

end Applauncherd.Invoker.CutReply
