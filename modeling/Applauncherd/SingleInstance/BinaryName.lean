import Applauncherd.Invoker.Options
import Applauncherd.Launcherlib.ArgumentArea
import Mathlib.Data.List.TakeWhile

namespace Applauncherd.SingleInstance.BinaryName

open Library Library.Environ Library.Memory Library.Transition
open Invoker.Options (isSpace)
open Launcherlib.ArgumentArea

/-- `operator >>` into a string. -/
def extract (s : List UInt8) : Str := (s.dropWhile isSpace).takeWhile fun b ↦ !isSpace b

/-- `proc` gives the contents of `/proc/[pid]/cmdline` where that can be opened. -/
def binaryNameForPid (proc : ℤ → Option (List UInt8)) (pid : ℤ) : Str :=
  match proc pid with
  | some procFile => cstr (extract procFile)
  | none => []

abbrev Window := ℕ

def windowIdForBinary (windowPid : Window → ℤ) (proc : ℤ → Option (List UInt8))
    (clients : List Window) (binaryName : Str) : Window :=
  (clients.find? fun client ↦ binaryNameForPid proc (windowPid client) == binaryName).getD 0

def cmdline (before : Memory) (parent : List CString) (b : Image) : List UInt8 :=
  (b.memory.drop before.length).take (joined parent).length

structure FoundAgain (windowPid : Window → ℤ) (proc : ℤ → Option (List UInt8)) (window : Window)
    (name : Str) : Prop where
  binaryName : binaryNameForPid proc (windowPid window) = name
  windowId : ∀ before after : List Window,
    (∀ client ∈ before, binaryNameForPid proc (windowPid client) ≠ name) →
      windowIdForBinary windowPid proc (before ++ window :: after) name = window

/-- A name is read back if it is one word and the area has room for it and its
terminator. The second length is the one that `renameProcess` has in an `int`. -/
def Readable (size : ℕ) (name : CString) (args : List CString) : Prop :=
  (∀ b ∈ name.1, isSpace b = false) ∧
    (name.1 = [] ∨ name.1.length < size ∧ (name.1.length : ℤ) < int (joined (name :: args)).length)

theorem foundAgain_iff_binaryName (windowPid : Window → ℤ) (proc : ℤ → Option (List UInt8))
    (window : Window) (name : Str) :
    FoundAgain windowPid proc window name ↔ binaryNameForPid proc (windowPid window) = name := by
  constructor
  · exact fun h ↦ h.binaryName
  · intro h
    refine ⟨h, fun before after hbefore ↦ ?_⟩
    have hnone : before.find? (fun client ↦
        binaryNameForPid proc (windowPid client) == name) = none :=
      List.find?_eq_none.mpr fun client hc ↦ by simpa using hbefore client hc
    rw [windowIdForBinary, List.find?_append, hnone, Option.none_or, List.find?_cons_of_pos (by simp [h]),
      Option.getD_some]

theorem dropWhile_nul (v t : List UInt8) :
    (v ++ 0 :: t).dropWhile isSpace = v.dropWhile isSpace ++ 0 :: t := by
  induction v with
  | nil => rfl
  | cons b v ih =>
    rw [List.cons_append, List.dropWhile_cons, List.dropWhile_cons]
    split_ifs
    · exact ih
    · rfl

theorem cstr_takeWhile_nul {v : List UInt8} (hv : 0 ∉ v) (t : List UInt8) :
    cstr ((v ++ 0 :: t).takeWhile fun b ↦ !isSpace b) = v.takeWhile fun b ↦ !isSpace b := by
  induction v with
  | nil => rfl
  | cons b v ih =>
    obtain ⟨hb, hv⟩ := not_or.mp (mt List.mem_cons.mpr hv)
    have hne : (b != 0) = true := by simpa using Ne.symm hb
    rw [List.cons_append, List.takeWhile_cons, List.takeWhile_cons]
    split_ifs
    · rw [cstr, List.takeWhile_cons, if_pos hne]
      exact congrArg (b :: ·) (ih hv)
    · rfl

theorem cstr_extract {v : List UInt8} (hv : 0 ∉ v) (t : List UInt8) :
    cstr (extract (v ++ 0 :: t)) = extract v := by
  have hd : 0 ∉ v.dropWhile isSpace := fun h ↦ hv (List.dropWhile_subset _ h)
  rw [extract, dropWhile_nul, cstr_takeWhile_nul hd, extract]

theorem extract_eq_self_iff (v : List UInt8) : extract v = v ↔ ∀ b ∈ v, isSpace b = false := by
  constructor
  · intro h b hb
    rw [← h] at hb
    simpa using List.mem_takeWhile_imp hb
  · intro h
    have hd : v.dropWhile isSpace = v := by
      cases v with
      | nil => rfl
      | cons b v => simp [h b List.mem_cons_self]
    rw [extract, hd, List.takeWhile_eq_self_iff]
    simpa using h

theorem extract_length_le (v : List UInt8) : (extract v).length ≤ v.length :=
  ((List.takeWhile_sublist _).trans (List.dropWhile_sublist _)).length_le

theorem block_begins {size n : ℕ} {name rest : Str} (hs : 0 < size)
    (hn : n ≤ size) (hn' : n ≤ (name ++ 0 :: rest).length) :
    ∃ t, block size n (name ++ 0 :: rest) = name.take (n - 1) ++ 0 :: t := by
  cases n with
  | zero =>
    obtain ⟨size, rfl⟩ := Nat.exists_eq_succ_of_ne_zero hs.ne'
    exact ⟨List.replicate size 0, by simp [block, List.replicate_succ]⟩
  | succ n =>
    rw [block_succ size hn', Nat.add_sub_cancel]
    by_cases hle : n ≤ name.length
    · rw [List.take_append_of_le_length hle]
      exact ⟨_, rfl⟩
    · obtain ⟨k, rfl⟩ := Nat.exists_eq_add_of_lt (Nat.lt_of_not_le hle)
      rw [Nat.add_assoc, List.take_length_add_append, List.take_succ_cons,
        List.take_of_length_le (Nat.le_add_right name.length (k + 1))]
      exact ⟨rest.take k ++ 0 :: List.replicate (size - (name.length + (k + 1) + 1)) 0, by simp⟩

theorem extract_take_eq_iff {name : Str} (n : ℕ) :
    extract (name.take (n - 1)) = name ↔
      (∀ b ∈ name, isSpace b = false) ∧ (name = [] ∨ name.length < n) := by
  constructor
  · intro h
    have hle : name.length ≤ n - 1 := by
      have := extract_length_le (name.take (n - 1))
      rw [h] at this
      exact this.trans (List.length_take_le _ _)
    rw [List.take_of_length_le hle] at h
    refine ⟨(extract_eq_self_iff name).mp h, ?_⟩
    by_cases hz : name = []
    · exact .inl hz
    · have := List.length_pos_iff.mpr hz
      exact .inr (by omega)
  · intro h
    obtain ⟨hspace, rfl | hlt⟩ := h
    · simp [extract]
    · rw [List.take_of_length_le (by omega)]
      exact (extract_eq_self_iff name).mpr hspace

theorem cstr_extract_block (size : ℕ) (name : CString) (args : List CString) :
    let newArgv := joined (name :: args)
    cstr (extract (block size (copied size newArgv) newArgv)) = name.1 ↔
      Readable size name args := by
  intro newArgv
  have hcopied : (name.1.length < copied size newArgv ↔
      name.1.length < size ∧ (name.1.length : ℤ) < int newArgv.length) := by
    unfold copied
    omega
  rw [Readable, ← hcopied, ← extract_take_eq_iff]
  obtain ⟨hle, hle'⟩ := copied_le size newArgv
  rcases Nat.eq_zero_or_pos size with hz | hs
  · have hblock := block_length size newArgv
    rw [hz] at hle hblock ⊢
    rw [List.length_eq_zero_iff.mp hblock, Nat.le_zero.mp hle]
    simp [extract, cstr]
  · have hcons : newArgv = name.1 ++ 0 :: joined args := joined_cons name args
    obtain ⟨t, ht⟩ := block_begins hs hle (hle'.trans_eq (congrArg List.length hcons))
    have hnul : 0 ∉ name.1.take (copied size newArgv - 1) :=
      fun h ↦ name.2 (List.mem_of_mem_take h)
    rw [← hcons] at ht
    rw [ht, cstr_extract hnul]

theorem readable_iff {size : ℕ} {name : CString} {args : List CString}
    (h : (joined (name :: args)).length < 2 ^ 31) :
    Readable size name args ↔
      (∀ b ∈ name.1, isSpace b = false) ∧ (name.1 = [] ∨ name.1.length < size) := by
  have hlt : name.1.length < (joined (name :: args)).length := by
    rw [joined_cons, List.length_append, List.length_cons]
    omega
  rw [Readable, int_of_lt h]
  refine and_congr_right fun _ ↦ or_congr_right ?_
  omega

theorem foundAgain_iff_readable {before after : Memory} {parent : List CString} {b : Image}
    {name : CString} {args : List CString}
    (hm : b.memory = before ++ block (joined parent).length
      (copied (joined parent).length (joined (name :: args))) (joined (name :: args)) ++ after)
    (windowPid : Window → ℤ) (proc : ℤ → Option (List UInt8)) (window : Window)
    (hproc : proc (windowPid window) = some (cmdline before parent b)) :
    FoundAgain windowPid proc window name.1 ↔ Readable (joined parent).length name args := by
  have hcmd : cmdline before parent b = block (joined parent).length
      (copied (joined parent).length (joined (name :: args))) (joined (name :: args)) := by
    rw [cmdline, hm, List.append_assoc, List.drop_left, List.take_left' (block_length _ _)]
  rw [foundAgain_iff_binaryName, binaryNameForPid, hproc, hcmd]
  exact cstr_extract_block _ name args

/-- After any number of calls a booster is found by its name exactly if that is
readable. -/
theorem foundAgain_iff (before after : Memory) (parent : List CString) (boosterName : Str)
    (environ : List Str) (calls : List (List CString)) (name : CString) (args : List CString)
    (hS : (joined parent).length < 2 ^ 31) (hcalls : ∀ c ∈ calls, c ≠ []) :
    ∃ b, Run (rename before parent) Any (start before after parent boosterName environ)
        (calls ++ [name :: args]) b ∧
      ∀ windowPid proc window, proc (windowPid window) = some (cmdline before parent b) →
        (FoundAgain windowPid proc window name.1 ↔ Readable (joined parent).length name args) := by
  obtain ⟨b, hrun, hm⟩ := run_renames before after parent boosterName environ hS hcalls
    (List.cons_ne_nil name args)
  exact ⟨b, hrun, foundAgain_iff_readable hm⟩

/-- The launcher as the script starts it: a name and fifty blanks. -/
def launcherArgv : List CString :=
  [⟨[97, 112, 112, 108, 97, 117, 110, 99, 104, 101, 114, 100], by decide⟩,
    ⟨List.replicate 50 32, by decide⟩]

def boosterM : CString := ⟨[98, 111, 111, 115, 116, 101, 114, 45, 109], by decide⟩

def slashBinSlashFoo : CString := ⟨[47, 98, 105, 110, 47, 102, 111, 111], by decide⟩

def slashMyFoo : CString := ⟨[47, 109, 121, 32, 102, 111, 111], by decide⟩

theorem foundAgain_foo :
    ∃ b, Run (rename [] launcherArgv) Any (start [] [] launcherArgv [] [])
        ([[boosterM]] ++ [[slashBinSlashFoo]]) b ∧
      ∀ windowPid proc window, proc (windowPid window) = some (cmdline [] launcherArgv b) →
        FoundAgain windowPid proc window slashBinSlashFoo.1 := by
  obtain ⟨b, hrun, h⟩ := foundAgain_iff [] [] launcherArgv [] [] [[boosterM]] slashBinSlashFoo []
    (by decide) (by decide)
  refine ⟨b, hrun, fun windowPid proc window hproc ↦ (h windowPid proc window hproc).mpr ?_⟩
  exact ⟨by simp [slashBinSlashFoo, isSpace], .inr (by decide)⟩

/-- A name with a blank is read up to the blank. -/
theorem not_foundAgain_blank :
    ∃ b, Run (rename [] launcherArgv) Any (start [] [] launcherArgv [] [])
        ([[boosterM]] ++ [[slashMyFoo]]) b ∧
      ∀ windowPid proc window, proc (windowPid window) = some (cmdline [] launcherArgv b) →
        ¬FoundAgain windowPid proc window slashMyFoo.1 := by
  have hcalls : ∀ c ∈ [[boosterM]], c ≠ [] := by decide
  obtain ⟨b, hrun, hm⟩ := run_renames [] [] launcherArgv [] [] (by decide) hcalls
    (List.cons_ne_nil slashMyFoo [])
  refine ⟨b, hrun, fun windowPid proc window hproc hfound ↦ ?_⟩
  have hread := ((foundAgain_iff_readable hm windowPid proc window hproc).mp hfound).1
  exact absurd (hread 32 (by decide)) (by decide)

end Applauncherd.SingleInstance.BinaryName
