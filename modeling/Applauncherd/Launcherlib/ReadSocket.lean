import Applauncherd.Library.Word
import Applauncherd.Library.Environ
import Mathlib.Order.Nat

namespace Applauncherd.Launcherlib.ReadSocket

open Library

abbrev OpenFile := ℕ

/-- One byte in flight, with the open files of an `SCM_RIGHTS` message that
travel with it. -/
structure Cell where
  byte : UInt8
  files : List OpenFile
  deriving DecidableEq, Repr

def plain (b : UInt8) : Cell := ⟨b, []⟩

/-- What the kernel makes of one transfer: all the bytes that are there, at
most `n` of them, or the result -1. A failed transfer leaves the caller's
buffer as it was; `junk` is what a fresh buffer happens to hold. -/
inductive Outcome
  | full
  | short (n : ℕ)
  | failed (junk : List UInt8)
  deriving DecidableEq, Repr

/-- The receiving end of the connection: the bytes until end-of-file and the
outcomes of the transfers to come. Transfers beyond the list are full. -/
structure Socket where
  stream : List Cell
  outcomes : List Outcome
  deriving DecidableEq, Repr

def whole (stream : List Cell) : Socket := ⟨stream, []⟩

def Socket.take (s : Socket) (n : ℕ) : List Cell × Socket :=
  (s.stream.take n, { s with stream := s.stream.drop n, outcomes := s.outcomes.tail })

def Socket.transfer (s : Socket) (n : ℕ) : Except (List UInt8) (List Cell) × Socket :=
  match s.outcomes.head? with
  | none | some .full => (.ok (s.take n).1, (s.take n).2)
  | some (.short k) => (.ok (s.take (min k n)).1, (s.take (min k n)).2)
  | some (.failed junk) => (.error junk, { s with outcomes := s.outcomes.tail })

/-- `Connection::recvMsg`: whether `read` did not fail, and the stored word. -/
def recvMsg (s : Socket) : Bool × UInt32 × Socket :=
  match s.transfer 4 with
  | (.error _, s) => (false, 0, s)
  | (.ok cells, s) =>
    if cells.length < 4 then (true, 0, s)
    else (true, Word.decode (cells.map Cell.byte), s)

def strLenMax : UInt32 := 4096

def fresh (junk : List UInt8) (size : ℕ) : List UInt8 :=
  (junk ++ List.replicate size 0).take size

def terminate (buf : List UInt8) : List UInt8 := buf.dropLast ++ [0]

/-- `Connection::recvStr`: the received buffer, or `none` for NULL. The result
of `read` is compared as an unsigned number, so -1 is not below the size. -/
def recvStr (s : Socket) : Option (List UInt8) × Socket :=
  let (res, size, s) := recvMsg s
  if !res || size == 0 || strLenMax < size then (none, s)
  else
    match s.transfer size.toNat with
    | (.error junk, s) => (some (terminate (fresh junk size.toNat)), s)
    | (.ok cells, s) =>
      if UInt32.ofNat cells.length < size then (none, s)
      else (some (terminate (cells.map Cell.byte)), s)

/-- `recvmsg` with room for one byte: the open files that came with it, or
`none` on failure. At end-of-file there are none. -/
def recvmsg (s : Socket) : Option (List OpenFile) × Socket :=
  match s.transfer 1 with
  | (.error _, s) => (none, s)
  | (.ok cells, s) => (some (cells.flatMap Cell.files), s)

@[simp] theorem transfer_whole (stream : List Cell) (n : ℕ) :
    (whole stream).transfer n = (.ok (stream.take n), whole (stream.drop n)) := rfl

theorem transfer_stream (s : Socket) (n : ℕ) :
    ∃ k ≤ n, (s.transfer n).2.stream = s.stream.drop k ∧
      ∀ cells, (s.transfer n).1 = .ok cells → cells = s.stream.take k := by
  unfold Socket.transfer Socket.take
  split
  · exact ⟨n, le_rfl, rfl, fun _ h ↦ (Except.ok.inj h).symm⟩
  · exact ⟨n, le_rfl, rfl, fun _ h ↦ (Except.ok.inj h).symm⟩
  · exact ⟨_, Nat.min_le_right _ n, rfl, fun _ h ↦ (Except.ok.inj h).symm⟩
  · exact ⟨0, Nat.zero_le n, rfl, fun _ h ↦ by cases h⟩

theorem transfer_length_le (s : Socket) (n : ℕ) :
    (s.transfer n).2.stream.length ≤ s.stream.length := by
  obtain ⟨k, -, hk, -⟩ := transfer_stream s n
  simp [hk]

theorem recvMsg_consumes (s : Socket) (h : (recvMsg s).2.1 ≠ 0) :
    (recvMsg s).2.2.stream.length + 4 ≤ s.stream.length := by
  obtain ⟨k, hk, hs, hc⟩ := transfer_stream s 4
  unfold recvMsg at h ⊢
  generalize s.transfer 4 = r at h hs hc ⊢
  obtain ⟨res, s'⟩ := r
  cases res with
  | error junk => exact absurd rfl h
  | ok cells =>
    have hlen := congrArg List.length (hc cells rfl)
    have hdrop := congrArg List.length hs
    simp only [List.length_take, List.length_drop] at hlen hdrop
    by_cases hl : cells.length < 4
    · simp [hl] at h
    · simp only [hl, if_false]
      omega

theorem recvMsg_length_le (s : Socket) :
    (recvMsg s).2.2.stream.length ≤ s.stream.length := by
  have h := transfer_length_le s 4
  unfold recvMsg
  split
  · simp_all
  · split <;> simp_all

theorem recvStr_length_le (s : Socket) :
    (recvStr s).2.stream.length ≤ s.stream.length := by
  have h := recvMsg_length_le s
  have h' := transfer_length_le (recvMsg s).2.2 (recvMsg s).2.1.toNat
  unfold recvStr
  simp only []
  split
  · exact h
  · split
    · simp_all only
      omega
    · split <;> simp_all only <;> omega

theorem recvmsg_length_le (s : Socket) :
    (recvmsg s).2.stream.length ≤ s.stream.length := by
  have h := transfer_length_le s 1
  unfold recvmsg
  split <;> simp_all

end Applauncherd.Launcherlib.ReadSocket
