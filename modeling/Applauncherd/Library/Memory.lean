import Applauncherd.Library.Environ
import Mathlib.Algebra.GroupWithZero.Nat
import Mathlib.Data.List.Basic
import Mathlib.Order.Nat

namespace Applauncherd.Library

/-- The bytes of a process, by address. What is past the end is not mapped. -/
abbrev Memory := List UInt8

end Applauncherd.Library

namespace Applauncherd.Library.Memory

open Environ

abbrev CString := {s : Str // 0 ∉ s}

def strlen (m : Memory) (p : ℕ) : Option ℕ := (m.drop p).findIdx? (· == 0)

def store (m : Memory) (p : ℕ) (bytes : List UInt8) : Option Memory :=
  if p + bytes.length ≤ m.length then
    some (m.take p ++ bytes ++ m.drop (p + bytes.length))
  else none

def memset (m : Memory) (p : ℕ) (b : UInt8) (n : ℕ) : Option Memory :=
  store m p (List.replicate n b)

def joined (strings : List CString) : Str := strings.flatMap fun s ↦ s.1 ++ [0]

def addresses : ℕ → List CString → List ℕ
  | _, [] => []
  | p, s :: strings => p :: addresses (p + (s.1.length + 1)) strings

@[simp] theorem joined_nil : joined [] = [] := rfl

@[simp] theorem joined_cons (s : CString) (strings : List CString) :
    joined (s :: strings) = s.1 ++ 0 :: joined strings := by
  simp [joined]

theorem joined_append (strings strings' : List CString) :
    joined (strings ++ strings') = joined strings ++ joined strings' :=
  List.flatMap_append

theorem joined_length (strings : List CString) :
    (joined strings).length = (strings.map fun s ↦ s.1.length + 1).sum := by
  induction strings with
  | nil => rfl
  | cons s strings ih =>
    rw [joined_cons, List.length_append, List.length_cons, ih, List.map_cons, List.sum_cons]
    omega

theorem joined_pos {strings : List CString} (h : strings ≠ []) : 0 < (joined strings).length := by
  cases strings with
  | nil => exact absurd rfl h
  | cons s strings =>
    rw [joined_cons, List.length_append, List.length_cons]
    omega

theorem strlen_append (before after : Memory) (s : CString) :
    strlen (before ++ s.1 ++ 0 :: after) before.length = some s.1.length := by
  have hs : ∀ b ∈ s.1, ¬b = 0 := fun b hb hz ↦ s.2 (hz ▸ hb)
  rw [strlen, List.append_assoc, List.drop_left, List.findIdx?_append,
    List.findIdx?_eq_none_iff.mpr (by simpa using hs)]
  simp [List.findIdx?_cons]

theorem store_append (before old after : Memory) {bytes : List UInt8}
    (h : bytes.length = old.length) :
    store (before ++ old ++ after) before.length bytes = some (before ++ bytes ++ after) := by
  have htake : (before ++ old ++ after).take before.length = before := by
    rw [List.append_assoc, List.take_left]
  have hdrop : (before ++ old ++ after).drop (before.length + old.length) = after := by
    rw [← List.length_append, List.drop_left]
  rw [store, if_pos (by simp [h]), h, htake, hdrop]

theorem memset_append (before old after : Memory) (b : UInt8) :
    memset (before ++ old ++ after) before.length b old.length =
      some (before ++ List.replicate old.length b ++ after) :=
  store_append before old after List.length_replicate

theorem store_none {m : Memory} {p : ℕ} {bytes : List UInt8} (h : m.length < bytes.length) :
    store m p bytes = none :=
  if_neg (by omega)

end Applauncherd.Library.Memory
