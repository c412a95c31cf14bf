import Applauncherd.Launcherlib.Truncation

namespace Applauncherd.Launcherlib.Received

open Library Library.Environ Protocol ReadSocket Receive Sections Truncation

def bytes (cells : List Cell) : List UInt8 := cells.map Cell.byte

/-- A word for which `recvMsg` answers true has come from the peer. -/
def ReceivedWord (s : Socket) : Prop :=
  (recvMsg s).1 = true → ∃ word, word.length = 4 ∧
    s.stream = word ++ (recvMsg s).2.2.stream ∧ (recvMsg s).2.1 = Word.decode (bytes word)

/-- A string that `recvStr` returns has come from the peer, as long as its size
says. -/
def ReceivedString (s : Socket) : Prop :=
  ∀ buf, (recvStr s).1 = some buf → ∃ word body, word.length = 4 ∧
    body.length = (Word.decode (bytes word)).toNat ∧
    s.stream = word ++ body ++ (recvStr s).2.stream ∧ buf = terminate (bytes body)

inductive Handler
  | receiveAppName
  | receiveExec
  | receiveArgs
  | receiveEnv
  deriving DecidableEq

def stringCalls : ℕ → Socket → List Socket
  | 0, _ => []
  | n + 1, s => s :: if (recvStr s).1.isSome then stringCalls n (recvStr s).2 else []

def listCalls (bound : UInt32) (s : Socket) : List Socket :=
  if inRange (recvMsg s).2.1 bound then stringCalls (recvMsg s).2.1.toNat (recvMsg s).2.2 else []

def Handler.calls (c : Connection) : Handler → List Socket
  | receiveAppName => if (recvMsg c.fd).2.1 = invokerMsgName then [(recvMsg c.fd).2.2] else []
  | receiveExec => [c.fd]
  | receiveArgs => listCalls argMax c.fd
  | receiveEnv => listCalls maxVars c.fd

def Handler.strings (c : Connection) (h : Handler) : List (Option (List UInt8)) :=
  (h.calls c).map fun s ↦ (recvStr s).1

/-- Nothing that a handler takes from the connection is made up. -/
structure Genuine (c : Connection) : Prop where
  words : ∀ h : Handler, ∀ s ∈ c.fd :: h.calls c, ReceivedWord s
  strings : ∀ h : Handler, ∀ s ∈ h.calls c, ReceivedString s

def ShortWord (s : Socket) : Prop := ∃ cells, (s.transfer 4).1 = .ok cells ∧ cells.length < 4

def FailedString (s : Socket) : Prop :=
  (recvMsg s).2.1 ≠ 0 ∧ (recvMsg s).2.1 ≤ strLenMax ∧
    ∃ junk, ((recvMsg s).2.2.transfer (recvMsg s).2.1.toNat).1 = .error junk

theorem readStrings_calls (n : ℕ) (s : Socket) :
    (readStrings n s).1 = (stringCalls n s).map fun s ↦ (recvStr s).1 := by
  induction n generalizing s with
  | zero => rfl
  | succ n ih =>
    rcases h : recvStr s with ⟨_ | buf, s'⟩
    · simp [readStrings, stringCalls, h]
    · simp [readStrings, stringCalls, h, ih]

theorem readList_calls (bound : UInt32) (s : Socket) :
    (readList bound s).1.2 = (listCalls bound s).map fun s ↦ (recvStr s).1 := by
  change (readBufs bound (recvMsg s).2.1 (recvMsg s).2.2).1 = _
  unfold readBufs listCalls
  split_ifs
  · exact readStrings_calls _ _
  · rfl

theorem handlers_strings (c : Connection) :
    (receiveAppName c).1 =
        ((Handler.receiveAppName.strings c).head?.join.map cstr).getD [] ∧
      (receiveExec c).2.fileName =
        ((Handler.receiveExec.strings c).head?.join.map cstr).getD c.fileName ∧
      (receiveArgs c).2.argv = (if inRange (recvMsg c.fd).2.1 argMax then
        some (toSlots (recvMsg c.fd).2.1.toNat (Handler.receiveArgs.strings c)) else c.argv) ∧
      (receiveEnv (clearenv c)).2.proc.environ =
        (Handler.receiveEnv.strings c).foldl storeVar [] := by
  refine ⟨?_, ?_, ?_, ?_⟩
  · unfold receiveAppName Handler.strings Handler.calls
    rcases recvMsg c.fd with ⟨res, msg, s⟩
    by_cases hm : msg = invokerMsgName
    · rcases h : recvStr s with ⟨_ | buf, s'⟩ <;> simp [hm, h]
    · simp [hm]
  · unfold receiveExec Handler.strings Handler.calls
    rcases h : recvStr c.fd with ⟨_ | buf, s⟩ <;> simp [h]
  · rw [receiveArgs_eq, Handler.strings, Handler.calls, ← readList_calls]
    rfl
  · rw [receiveEnv_eq, Handler.strings, Handler.calls, ← readList_calls]
    rfl

theorem transfer_ok {s : Socket} {n : ℕ} {cells : List Cell} (h : (s.transfer n).1 = .ok cells) :
    cells.length ≤ n ∧ s.stream = cells ++ (s.transfer n).2.stream := by
  obtain ⟨k, hk, hs, hc⟩ := transfer_stream s n
  obtain rfl := hc cells h
  rw [hs, List.take_append_drop]
  exact ⟨(List.length_take_le _ _).trans hk, rfl⟩

theorem transfer_error {s : Socket} {n : ℕ} {junk : List UInt8}
    (h : (s.transfer n).1 = .error junk) : (s.transfer n).2.stream = s.stream := by
  unfold Socket.transfer at h ⊢
  cases ho : s.outcomes.head? with
  | none => rw [ho] at h; cases h
  | some outcome =>
    cases outcome with
    | failed junk' => rfl
    | full => rw [ho] at h; cases h
    | short k => rw [ho] at h; cases h

theorem recvMsg_true_iff (s : Socket) :
    (recvMsg s).1 = true ↔ ∃ cells, (s.transfer 4).1 = .ok cells := by
  unfold recvMsg
  rcases s.transfer 4 with ⟨_ | cells, s'⟩
  · simp
  · simp only [Except.ok.injEq, exists_eq', iff_true]
    split_ifs <;> rfl

theorem recvMsg_word {s : Socket} (h : (recvMsg s).2.1 ≠ 0) : ∃ word, word.length = 4 ∧
    s.stream = word ++ (recvMsg s).2.2.stream ∧ (recvMsg s).2.1 = Word.decode (bytes word) := by
  rw [recvMsg_eq] at h ⊢
  rcases ht : (s.transfer 4).1 with junk | cells
  · rw [ht] at h
    exact absurd rfl h
  · obtain ⟨hle, hs⟩ := transfer_ok ht
    rw [ht, wordOf] at h
    split_ifs at h with hlt
    · exact absurd rfl h
    · exact ⟨cells, by omega, hs, if_neg hlt⟩

theorem receivedWord_iff (s : Socket) : ReceivedWord s ↔ ¬ShortWord s := by
  have hstream : (recvMsg s).2.2 = (s.transfer 4).2 := by rw [recvMsg_eq]
  constructor
  · intro h hshort
    obtain ⟨cells, hc, hlt⟩ := hshort
    obtain ⟨word, hlen, hs, -⟩ := h ((recvMsg_true_iff s).mpr ⟨cells, hc⟩)
    have hlength := congrArg List.length ((transfer_ok hc).2.symm.trans hs)
    rw [hstream, List.length_append, List.length_append] at hlength
    omega
  · intro h ht
    obtain ⟨cells, hc⟩ := (recvMsg_true_iff s).mp ht
    obtain ⟨hle, hs⟩ := transfer_ok hc
    have hge : ¬cells.length < 4 := fun hlt ↦ h ⟨cells, hc, hlt⟩
    refine ⟨cells, by omega, by rw [hstream, ← hs], ?_⟩
    rw [recvMsg_eq, hc, wordOf, if_neg hge, bytes]

/-- The result -1 of `read` is not below the size. -/
theorem recvStr_failed {s : Socket} (h : FailedString s) :
    ∃ buf, (recvStr s).1 = some buf ∧ (recvStr s).2.stream = (recvMsg s).2.2.stream := by
  obtain ⟨hne, hle, junk, hj⟩ := h
  have hsize : ¬((recvMsg s).2.1 = 0 ∨ strLenMax < (recvMsg s).2.1) :=
    not_or.mpr ⟨hne, UInt32.not_lt.mpr hle⟩
  rw [recvStr_eq, readBuf, if_neg hsize, hj]
  exact ⟨_, rfl, transfer_error hj⟩

theorem receivedString_iff (s : Socket) : ReceivedString s ↔ ¬FailedString s := by
  constructor
  · intro h hfail
    obtain ⟨buf, hbuf, hrest⟩ := recvStr_failed hfail
    obtain ⟨word, body, hword, hbody, hs, -⟩ := h buf hbuf
    obtain ⟨word', hword', hs', hsize⟩ := recvMsg_word hfail.1
    rw [hrest, List.append_assoc] at hs
    obtain ⟨rfl, hrest'⟩ := List.append_inj (hs.symm.trans hs') (hword.trans hword'.symm)
    obtain rfl : body = [] := List.append_left_eq_self.mp hrest'
    rw [← hsize] at hbody
    exact hfail.1 (UInt32.toNat_inj.mp hbody.symm)
  · intro h buf hbuf
    rw [recvStr_eq, readBuf] at hbuf ⊢
    split_ifs at hbuf ⊢ with hsize
    obtain ⟨hne, hle⟩ := not_or.mp hsize
    obtain ⟨word, hword, hs, hdecode⟩ := recvMsg_word hne
    rcases ht : ((recvMsg s).2.2.transfer (recvMsg s).2.1.toNat).1 with junk | cells
    · exact absurd ⟨hne, UInt32.not_lt.mp hle, junk, ht⟩ h
    · obtain ⟨hlen, hrest⟩ := transfer_ok ht
      rw [ht, bufOf] at hbuf
      split_ifs at hbuf with hlt
      have hfull : cells.length = (recvMsg s).2.1.toNat := by
        have hbound : cells.length < UInt32.size := hlen.trans_lt (UInt32.toNat_lt_size _)
        rw [UInt32.lt_iff_toNat_lt, UInt32.toNat_ofNat_of_lt' hbound] at hlt
        omega
      refine ⟨word, cells, hword, hdecode ▸ hfull, ?_, (Option.some.inj hbuf).symm⟩
      rw [List.append_assoc, ← hrest, ← hs]

/-- Everything is genuine exactly if no word is cut short and no string fails
to be read. -/
theorem genuine_iff (c : Connection) :
    Genuine c ↔ (∀ h : Handler, ∀ s ∈ c.fd :: h.calls c, ¬ShortWord s) ∧
      ∀ h : Handler, ∀ s ∈ h.calls c, ¬FailedString s := by
  simp only [← receivedWord_iff, ← receivedString_iff]
  exact ⟨fun h ↦ ⟨h.words, h.strings⟩, fun h ↦ ⟨h.1, h.2⟩⟩

def refusedRead : Socket := ⟨(Word.encode 3).map plain, [.full, .failed [104, 105, 33]]⟩

/-- Where the size is read and the string is not, `recvStr` returns what the
new buffer held, and at the end-of-file `recvMsg` answers true. -/
theorem not_genuine_refused :
    (recvStr refusedRead).1 = some [104, 105, 0] ∧
      ¬Genuine (Connection.accepted refusedRead 0 0 ⟨1, [], []⟩) ∧
      (recvMsg (whole [])).1 = true ∧
      ¬Genuine (Connection.accepted (whole []) 0 0 ⟨1, [], []⟩) := by
  refine ⟨by decide, fun h ↦ ?_, by decide, fun h ↦ ?_⟩
  · have hstring : ReceivedString refusedRead :=
      h.strings .receiveExec refusedRead List.mem_cons_self
    exact (receivedString_iff _).mp hstring ⟨by decide, by decide, [104, 105, 33], rfl⟩
  · obtain ⟨word, hlen, hs, -⟩ := h.words .receiveExec (whole []) List.mem_cons_self (by decide)
    obtain ⟨rfl, -⟩ := List.append_eq_nil_iff.mp hs.symm
    cases hlen

end Applauncherd.Launcherlib.Received
