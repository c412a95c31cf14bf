import Mathlib.Algebra.Order.Ring.Nat
import Mathlib.Data.List.Basic

namespace Applauncherd.Library.Word

abbrev Byte := UInt8

/-- The four bytes of a 32-bit word in the order a little-endian machine
stores them. -/
def encode (w : UInt32) : List Byte :=
  [w.toUInt8, (w >>> 8).toUInt8, (w >>> 16).toUInt8, (w >>> 24).toUInt8]

def decode : List Byte → UInt32
  | [a, b, c, d] =>
    UInt32.ofNat (a.toNat + 256 * b.toNat + 65536 * c.toNat + 16777216 * d.toNat)
  | _ => 0

@[simp] theorem encode_length (w : UInt32) : (encode w).length = 4 := rfl

@[simp] theorem decode_encode (w : UInt32) : decode (encode w) = w := by
  have h := w.toNat_lt
  apply UInt32.toNat_inj.mp
  simp [decode, encode, Nat.shiftRight_eq_div_pow]
  omega

theorem encode_decode {bs : List Byte} (h : bs.length = 4) : encode (decode bs) = bs := by
  obtain ⟨a, b, c, d, rfl⟩ : ∃ a b c d, bs = [a, b, c, d] := by
    match bs, h with
    | [a, b, c, d], _ => exact ⟨a, b, c, d, rfl⟩
  have ha := a.toNat_lt
  have hb := b.toNat_lt
  have hc := c.toNat_lt
  have hd := d.toNat_lt
  simp only [encode, decode, List.cons.injEq, and_true]
  refine ⟨?_, ?_, ?_, ?_⟩ <;> apply UInt8.toNat_inj.mp <;>
    simp [Nat.shiftRight_eq_div_pow] <;> omega

theorem encode_injective : Function.Injective encode := fun v w h ↦ by
  rw [← decode_encode v, h, decode_encode]

/-- A word whose bytes are all non-zero is none of the words that have a zero
byte: the reason why text is never taken for a code word. -/
theorem decode_ne {bs : List Byte} (h : bs.length = 4) (hz : 0 ∉ bs) {w : UInt32}
    (hw : 0 ∈ encode w) : decode bs ≠ w := by
  intro heq
  subst heq
  rw [encode_decode h] at hw
  exact hz hw

theorem or_and (a b m : UInt32) : (a ||| b) &&& m = (a &&& m) ||| (b &&& m) := by
  apply UInt32.toNat_inj.mp
  simp only [UInt32.toNat_and, UInt32.toNat_or, Nat.and_or_distrib_right]

theorem and_lt (a : UInt32) {m : UInt32} {k : ℕ} (h : m.toNat < k) : (a &&& m).toNat < k := by
  rw [UInt32.toNat_and]
  exact Nat.lt_of_le_of_lt Nat.and_le_right h

end Applauncherd.Library.Word
