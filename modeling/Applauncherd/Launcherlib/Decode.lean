import Applauncherd.Launcherlib.Magic

namespace Applauncherd.Launcherlib.Decode

open Library Library.Environ Library.DescriptorTable Protocol ReadSocket Receive Sections Magic
open Invoker.Send

@[simp] theorem recvMsg_send (w : UInt32) (rest : List Cell) :
    recvMsg (whole (invokeSendMsg w ++ rest)) = (true, w, whole rest) := by
  have ht : (invokeSendMsg w ++ rest).take 4 = invokeSendMsg w := List.take_left' (by simp [invokeSendMsg])
  have hd : (invokeSendMsg w ++ rest).drop 4 = rest := List.drop_left' (by simp [invokeSendMsg])
  have hb : (invokeSendMsg w).map Cell.byte = Word.encode w := by
    simp [invokeSendMsg, plain, Function.comp_def]
  have hl : ¬(invokeSendMsg w).length < 4 := by simp [invokeSendMsg]
  simp [recvMsg, ht, hd, hb, hl]

theorem sendText_length (s : Str) : (sendText s).length = s.length + 1 := by simp [sendText]

theorem sendText_bytes (s : Str) : (sendText s).map Cell.byte = s ++ [0] := by
  simp [sendText, plain, Function.comp_def]

theorem size_toNat {s : Str} (h : Text s) :
    (UInt32.ofNat (s.length + 1)).toNat = s.length + 1 := by
  have := h.2
  rw [UInt32.toNat_ofNat', Nat.mod_eq_of_lt (by omega)]

theorem recvStr_size (size : UInt32) (body : List Cell) :
    recvStr (whole (invokeSendMsg size ++ body)) =
      if size = 0 ∨ strLenMax < size then (none, whole body)
      else if UInt32.ofNat (body.take size.toNat).length < size then
        (none, whole (body.drop size.toNat))
      else (some (terminate ((body.take size.toNat).map Cell.byte)),
        whole (body.drop size.toNat)) := by
  unfold recvStr
  simp only [recvMsg_send, transfer_whole]
  simp

theorem recvStr_send {s : Str} (h : Text s) (hs : s.length ≤ 4095) (rest : List Cell) :
    recvStr (whole (invokeSendStr s ++ rest)) = (some (s ++ [0]), whole rest) := by
  have hn := size_toNat h
  have hl := sendText_length s
  rw [invokeSendStr, List.append_assoc, recvStr_size, hn, List.take_left' hl, List.drop_left' hl,
    if_neg, if_neg, sendText_bytes, terminate, List.dropLast_concat]
  · rw [hl]
    exact UInt32.lt_irrefl _
  · intro hor
    obtain h0 | hmax := hor
    · rw [h0] at hn
      simp at hn
    · rw [UInt32.lt_iff_toNat_lt, hn] at hmax
      have : strLenMax.toNat = 4096 := rfl
      omega

theorem recvStr_send_over {s : Str} (h : Text s) (hs : 4095 < s.length) (rest : List Cell) :
    recvStr (whole (invokeSendStr s ++ rest)) = (none, whole (sendText s ++ rest)) := by
  rw [invokeSendStr, List.append_assoc, recvStr_size, if_pos]
  right
  rw [UInt32.lt_iff_toNat_lt, size_toNat h]
  have : strLenMax.toNat = 4096 := rfl
  omega

def Refused (s : Socket) : Prop := Section.fin ∉ (sections s).1

theorem refused_of_invalid {s : Socket} (h : (recvMsg s).2.1 ∉ actions) : Refused s := by
  have hr : readSection s = (.invalid (recvMsg s).2.1, (recvMsg s).2.2) := readBody_invalid h _
  have hl : sections s = ([(readSection s).1], (readSection s).2) :=
    sections_last s false (by rw [hr]; rfl)
  simp [Refused, hl, hr]

/-- The text of a refused string is not read as an action: no action word is
free of zero bytes. -/
theorem refused_text {s : Str} (h : Text s) (hs : 4095 < s.length) (rest : List Cell) :
    Refused (whole (sendText s ++ rest)) := by
  apply refused_of_invalid
  have ht : (sendText s ++ rest).take 4 = (s.take 4).map plain := by
    have hle : 4 ≤ (s.map plain).length := by simp; omega
    rw [sendText, List.map_append, List.append_assoc, List.take_append_of_le_length hle,
      List.map_take]
  have hl : (s.take 4).length = 4 := by simp; omega
  have hb : ((s.take 4).map plain).map Cell.byte = s.take 4 := by
    rw [List.map_map]
    exact List.map_id _
  have hw : (recvMsg (whole (sendText s ++ rest))).2.1 = Word.decode (s.take 4) := by
    simp only [recvMsg, transfer_whole, ht, hb, List.length_map, hl, lt_irrefl, if_false]
  rw [hw]
  exact text_not_action hl fun hz ↦ h.1 (List.mem_of_mem_take hz)

/-- The size word of the next string is not read as an action: it is smaller
than every action. -/
theorem refused_size {s : Str} (h : Text s) (rest : List Cell) :
    Refused (whole (invokeSendStr s ++ rest)) := by
  apply refused_of_invalid
  simp only [invokeSendStr, List.append_assoc, recvMsg_send]
  apply small_not_action
  have := h.2
  rw [size_toNat h]
  omega

def AllText (strs : List Str) : Prop := ∀ s ∈ strs, Text s

theorem readStrings_send {strs : List Str} (h : AllText strs)
    (hs : ∀ s ∈ strs, s.length ≤ 4095) (rest : List Cell) :
    readStrings strs.length (whole (strs.flatMap invokeSendStr ++ rest)) =
      (strs.map fun s ↦ some (s ++ [0]), whole rest) := by
  induction strs with
  | nil => rfl
  | cons s strs ih =>
    have hcons := List.forall_mem_cons.mp h
    have hle := List.forall_mem_cons.mp hs
    simp only [List.length_cons, readStrings, List.flatMap_cons, List.append_assoc]
    rw [recvStr_send hcons.1 hle.1]
    simp only [ih hcons.2 hle.2, List.map_cons]

theorem readStrings_send_over {strs : List Str} (h : AllText strs)
    (hs : ∃ s ∈ strs, 4095 < s.length) (rest : List Cell) :
    Refused (readStrings strs.length (whole (strs.flatMap invokeSendStr ++ rest))).2 := by
  induction strs with
  | nil => simp at hs
  | cons s strs ih =>
    have hcons := List.forall_mem_cons.mp h
    simp only [List.length_cons, readStrings, List.flatMap_cons, List.append_assoc]
    rcases Nat.lt_or_ge 4095 s.length with hlt | hle
    · rw [recvStr_send_over hcons.1 hlt]
      exact refused_text hcons.1 hlt _
    · rw [recvStr_send hcons.1 hle]
      apply ih hcons.2
      obtain ⟨t, ht, hlt⟩ := hs
      rcases List.mem_cons.mp ht with rfl | ht
      · omega
      · exact ⟨t, ht, hlt⟩

def ListOk (bound : ℕ) (strs : List Str) : Prop :=
  strs.length < bound ∧ ∀ s ∈ strs, s.length ≤ 4095

theorem count_toNat {strs : List Str} (h : strs.length < 2 ^ 31) :
    (UInt32.ofNat strs.length).toNat = strs.length := by
  rw [UInt32.toNat_ofNat', Nat.mod_eq_of_lt (by omega)]

theorem inRange_count (bound : UInt32) {strs : List Str} (h : strs.length < 2 ^ 31)
    (hne : strs ≠ []) : inRange (UInt32.ofNat strs.length) bound = true ↔
      strs.length < bound.toNat := by
  have hpos := List.length_pos_iff.mpr hne
  simp only [inRange, Bool.and_eq_true, decide_eq_true_eq, UInt32.lt_iff_toNat_lt, count_toNat h]
  exact ⟨And.right, fun hlt ↦ ⟨hpos, hlt⟩⟩

theorem readList_send (bound : UInt32) {strs : List Str} (h : AllText strs)
    (hne : strs ≠ []) (hint : strs.length < 2 ^ 31) (hs : ListOk bound.toNat strs)
    (rest : List Cell) : readList bound (whole (sendList strs ++ rest)) =
      ((UInt32.ofNat strs.length, strs.map fun s ↦ some (s ++ [0])), whole rest) := by
  have hin := (inRange_count bound hint hne).mpr hs.1
  rw [sendList, List.append_assoc, readList, recvMsg_send]
  simp only [readBufs, hin, if_true, count_toNat hint, readStrings_send h hs.2]

theorem readList_send_over (bound : UInt32) {strs : List Str} (h : AllText strs)
    (hne : strs ≠ []) (hint : strs.length < 2 ^ 31) (hs : ¬ListOk bound.toNat strs)
    (rest : List Cell) : Refused (readList bound (whole (sendList strs ++ rest))).2 := by
  have hiff := inRange_count bound hint hne
  rw [sendList, List.append_assoc, readList, recvMsg_send]
  by_cases hlt : strs.length < bound.toNat
  · simp only [readBufs, hiff.mpr hlt, if_true, count_toNat hint]
    apply readStrings_send_over h
    by_contra hno
    exact hs ⟨hlt, fun s hm ↦ by_contra fun hl ↦ hno ⟨s, hm, by omega⟩⟩
  · have hout : inRange (UInt32.ofNat strs.length) bound ≠ true := fun hin ↦ hlt (hiff.mp hin)
    simp only [readBufs, hout]
    obtain ⟨s, strs, rfl⟩ := List.exists_cons_of_ne_nil hne
    simp only [List.flatMap_cons, List.append_assoc]
    exact refused_size (h s (by simp)) _

end Applauncherd.Launcherlib.Decode
