import Applauncherd.Launcherlib.Argv
import Applauncherd.Library.Memory
import Applauncherd.Library.Transition

namespace Applauncherd.Launcherlib.ArgumentArea

open Library Library.Environ Library.Memory Library.Transition
open Protocol ReadSocket Receive Argv

def int (n : ℤ) : ℤ := n.bmod (2 ^ 32)

def size_t (n : ℤ) : ℕ := (n % 2 ^ 64).toNat

/-- A booster: its memory with the launcher's arguments in it, and what it
keeps beside. -/
structure Image where
  memory : Memory
  spaceAvailable : ℤ
  name : Str
  environ : List Str

def reserved (m : Memory) : List ℕ → ℤ → Option ℤ
  | [], space => some space
  | p :: argv, space => do
    let n ← strlen m p
    reserved m argv (int (space + n + 1))

def copyArgv (m : Memory) (argv0 : ℕ) (spaceNeeded : ℤ) (newArgv : Str) : Option Memory :=
  if 0 < spaceNeeded then do
    let m ← store m argv0 (newArgv.take spaceNeeded.toNat)
    store m (argv0 + spaceNeeded.toNat - 1) [0]
  else some m

def overwriteArgv (m : Memory) (argv0 : ℕ) (space : ℤ) (newArgv : Str) : Option Memory := do
  let m ← memset m argv0 0 (size_t space)
  copyArgv m argv0 (min space (int newArgv.length)) newArgv

def spaceReserved (b : Image) (parentArgv : List ℕ) : Option ℤ :=
  if b.spaceAvailable = 0 then reserved b.memory parentArgv 0 else some b.spaceAvailable

def writeArgv (m : Memory) (argv0 : ℕ) (space sourceArgc : ℤ) (sourceArgv : Option (List Slot)) :
    Option Memory :=
  if space = 0 then some m else do
    let newArgv ← appendArgs sourceArgv sourceArgc.toNat
    overwriteArgv m argv0 space newArgv

def renameProcess (b : Image) (parentArgv : List ℕ) (sourceArgc : ℤ)
    (sourceArgv : Option (List Slot)) : Option Image :=
  match parentArgv with
  | [] => some b
  | argv0 :: _ =>
    if 0 < sourceArgc then do
      let space ← spaceReserved b parentArgv
      let memory ← writeArgv b.memory argv0 space sourceArgc sourceArgv
      let arg ← stringAt sourceArgv 0
      some {
        memory := memory
        spaceAvailable := space
        name := (basename arg).take 15
        environ := putenv b.environ (95 :: equals :: arg) }
    else some b

def slots (strings : List CString) : Option (List Slot) :=
  some (strings.map fun s ↦ .str (s.1 ++ [0]))

/-- One call by a booster whose launcher's arguments are right behind `before`. -/
def rename (before : Memory) (parent : List CString) (b : Image) (source : List CString) :
    Option Image :=
  renameProcess b (addresses before.length parent) source.length (slots source)

def start (before after : Memory) (parent : List CString) (name : Str) (environ : List Str) :
    Image :=
  ⟨before ++ joined parent ++ after, 0, name, environ⟩

/-- The first `n` bytes of a vector, the last of them NUL, and NULs up to the
size. -/
def block (size n : ℕ) (newArgv : Str) : List UInt8 :=
  (newArgv.take n).set (n - 1) 0 ++ List.replicate (size - n) 0

def copied (size : ℕ) (newArgv : Str) : ℕ := (min (size : ℤ) (int newArgv.length)).toNat

theorem int_of_lt {n : ℕ} (h : n < 2 ^ 31) : int n = n := by
  unfold int
  rw [Int.bmod]
  split_ifs <;> omega

theorem int_le (n : ℕ) : int n ≤ n := by
  unfold int
  rw [Int.bmod]
  split_ifs <;> omega

theorem size_t_of_nonneg {n : ℕ} (h : n < 2 ^ 31) : size_t n = n := by
  unfold size_t
  omega

theorem stringAt_slots (strings : List CString) (i : ℕ) :
    stringAt (slots strings) i = strings[i]?.map (·.1) := by
  cases h : strings[i]? with
  | none => simp [stringAt, slots, h]
  | some s => simp [stringAt, slots, h, cstr_append_nul s.2 []]

theorem appendArgs_slots (strings : List CString) (n : ℕ) (h : n ≤ strings.length) :
    appendArgs (slots strings) n = some (joined (strings.take n)) := by
  induction n with
  | zero => rfl
  | succ n ih =>
    have hn : strings[n]? = some strings[n] := List.getElem?_eq_getElem h
    rw [appendArgs, ih (Nat.le_of_succ_le h), stringAt_slots, hn, List.take_add_one, hn,
      joined_append, Option.toList_some, joined_cons, joined_nil]
    simp

theorem reserved_joined (before after : Memory) (parent : List CString) (space : ℕ)
    (h : space + (joined parent).length < 2 ^ 31) :
    reserved (before ++ joined parent ++ after) (addresses before.length parent) space =
      some ((space + (joined parent).length : ℕ) : ℤ) := by
  induction parent generalizing before space with
  | nil => rfl
  | cons s parent ih =>
    have hlen : (joined (s :: parent)).length = s.1.length + 1 + (joined parent).length := by
      rw [joined_cons, List.length_append, List.length_cons]
      omega
    have hm : before ++ joined (s :: parent) ++ after =
        (before ++ s.1 ++ [0]) ++ joined parent ++ after := by simp
    have hs : strlen (before ++ joined (s :: parent) ++ after) before.length =
        some s.1.length := by
      have := strlen_append before (joined parent ++ after) s
      simpa using this
    have hint : int ((space : ℤ) + s.1.length + 1) = ((space + (s.1.length + 1) : ℕ) : ℤ) := by
      have hcast : (space : ℤ) + s.1.length + 1 = ((space + (s.1.length + 1) : ℕ) : ℤ) := by omega
      rw [hcast, int_of_lt (by omega)]
    have hl : (before ++ s.1 ++ [0]).length = before.length + (s.1.length + 1) := by simp
    have hrest := ih (before ++ s.1 ++ [0]) (space + (s.1.length + 1)) (by omega)
    have hsum : space + (joined (s :: parent)).length =
        space + (s.1.length + 1) + (joined parent).length := by
      rw [hlen]
      omega
    rw [addresses, reserved, hs, hsum, ← hrest, hl, hm, ← hint]
    rfl

theorem copied_le (size : ℕ) (newArgv : Str) :
    copied size newArgv ≤ size ∧ copied size newArgv ≤ newArgv.length := by
  have := int_le newArgv.length
  unfold copied
  omega

theorem copied_of_lt (size : ℕ) {newArgv : Str} (h : newArgv.length < 2 ^ 31) :
    copied size newArgv = min size newArgv.length := by
  rw [copied, int_of_lt h]
  omega

theorem set_last {bytes : List UInt8} (h : bytes ≠ []) :
    bytes.set (bytes.length - 1) 0 = bytes.dropLast ++ [0] := by
  obtain ⟨init, b, rfl⟩ := (List.eq_nil_or_concat bytes).resolve_left h
  simp

theorem block_succ (size : ℕ) {n : ℕ} {newArgv : Str} (h : n < newArgv.length) :
    block size (n + 1) newArgv =
      newArgv.take n ++ 0 :: List.replicate (size - (n + 1)) 0 := by
  have hlen : (newArgv.take (n + 1)).length = n + 1 := List.length_take_of_le h
  have hne : newArgv.take (n + 1) ≠ [] := List.ne_nil_of_length_eq_add_one hlen
  have hset := set_last hne
  rw [hlen, List.dropLast_eq_take, hlen, List.take_take] at hset
  rw [block, hset, List.append_assoc, List.singleton_append]
  simp

theorem block_length (size : ℕ) (newArgv : Str) :
    (block size (copied size newArgv) newArgv).length = size := by
  have := copied_le size newArgv
  simp only [block, List.length_append, List.length_set, List.length_take, List.length_replicate]
  omega

theorem store_terminator (before after : Memory) {bytes : List UInt8} (h : bytes ≠ []) :
    store (before ++ bytes ++ after) (before.length + bytes.length - 1) [0] =
      some (before ++ bytes.set (bytes.length - 1) 0 ++ after) := by
  rw [set_last h]
  obtain ⟨init, b, rfl⟩ := (List.eq_nil_or_concat bytes).resolve_left h
  have hp : before.length + (init ++ [b]).length - 1 = (before ++ init).length := by
    simp only [List.length_append, List.length_singleton]
    omega
  have hm : before ++ (init ++ [b]) ++ after = (before ++ init) ++ [b] ++ after := by simp
  have hs : store ((before ++ init) ++ [b] ++ after) (before ++ init).length [0] =
      some (before ++ init ++ [0] ++ after) := store_append _ _ _ rfl
  rw [List.concat_eq_append, hp, hm, hs, List.dropLast_concat]
  simp

theorem copyArgv_append (before after : Memory) {size : ℕ} {spaceNeeded : ℤ} {newArgv : Str}
    (hle : spaceNeeded.toNat ≤ size) (hle' : spaceNeeded.toNat ≤ newArgv.length) :
    copyArgv (before ++ List.replicate size 0 ++ after) before.length spaceNeeded newArgv =
      some (before ++ block size spaceNeeded.toNat newArgv ++ after) := by
  unfold copyArgv
  split_ifs with hpos
  · have hn : 0 < spaceNeeded.toNat := by omega
    generalize spaceNeeded.toNat = n at hle hle' hn
    have hlen : (newArgv.take n).length = n := List.length_take_of_le hle'
    have hm : before ++ List.replicate size 0 ++ after =
        before ++ List.replicate n 0 ++ (List.replicate (size - n) 0 ++ after) := by
      rw [← Nat.add_sub_of_le hle, List.replicate_add, Nat.add_sub_cancel_left]
      simp only [List.append_assoc]
    have hlast := store_terminator before (List.replicate (size - n) 0 ++ after)
      (List.length_pos_iff.mp (hlen.symm ▸ hn))
    rw [hlen] at hlast
    rw [hm, store_append before (List.replicate n 0) _ (by simp [hlen]), Option.bind_eq_bind,
      Option.bind_some, hlast, block]
    simp only [List.append_assoc]
  · have hn : spaceNeeded.toNat = 0 := by omega
    simp [hn, block]

theorem overwriteArgv_append (before area after : Memory) (newArgv : Str)
    (h : area.length < 2 ^ 31) :
    overwriteArgv (before ++ area ++ after) before.length area.length newArgv =
      some (before ++ block area.length (copied area.length newArgv) newArgv ++ after) := by
  obtain ⟨hle, hle'⟩ := copied_le area.length newArgv
  rw [overwriteArgv, size_t_of_nonneg h, memset_append, Option.bind_eq_bind, Option.bind_some]
  exact copyArgv_append before after hle hle'

section

variable {before after : Memory} {parent : List CString}

structure Area (before after : Memory) (parent : List CString) (b : Image) : Prop where
  memory : ∃ area, area.length = (joined parent).length ∧ b.memory = before ++ area ++ after
  space : b.spaceAvailable = (joined parent).length ∨
    b.spaceAvailable = 0 ∧ b.memory = before ++ joined parent ++ after

theorem start_area (name : Str) (environ : List Str) :
    Area before after parent (start before after parent name environ) :=
  ⟨⟨joined parent, rfl, rfl⟩, .inr ⟨rfl, rfl⟩⟩

theorem Area.spaceReserved {b : Image} (h : Area before after parent b)
    (hS : (joined parent).length < 2 ^ 31) :
    spaceReserved b (addresses before.length parent) = some ((joined parent).length : ℤ) := by
  unfold ArgumentArea.spaceReserved
  split_ifs with hz
  · obtain hs | ⟨-, hm⟩ := h.space
    · obtain rfl : parent = [] := by
        by_contra hne
        have := joined_pos hne
        omega
      rfl
    · have hr := reserved_joined before after parent 0 (by omega)
      rw [Nat.zero_add] at hr
      rw [hm]
      exact hr
  · obtain hs | ⟨hs, -⟩ := h.space
    · rw [hs]
    · exact absurd hs hz

theorem Area.writeArgv {b : Image} (h : Area before after parent b)
    (hS : (joined parent).length < 2 ^ 31) (hp : parent ≠ []) (source : List CString) :
    let size := (joined parent).length
    writeArgv b.memory before.length size source.length (slots source) =
      some (before ++ block size (copied size (joined source)) (joined source) ++ after) := by
  intro size
  obtain ⟨area, harea, hm⟩ := h.memory
  have hpos : (size : ℤ) ≠ 0 := by
    have := joined_pos hp
    omega
  rw [ArgumentArea.writeArgv, if_neg hpos, Int.toNat_natCast, appendArgs_slots _ _ le_rfl,
    List.take_length, Option.bind_eq_bind, Option.bind_some, hm]
  simp only [size, ← harea]
  exact overwriteArgv_append before area after (joined source) (harea ▸ hS)

theorem rename_cons {b : Image} (h : Area before after parent b)
    (hS : (joined parent).length < 2 ^ 31) (hp : parent ≠ []) (arg : CString)
    (args : List CString) :
    let size := (joined parent).length
    let newArgv := joined (arg :: args)
    rename before parent b (arg :: args) = some {
      memory := before ++ block size (copied size newArgv) newArgv ++ after
      spaceAvailable := size
      name := (basename arg.1).take 15
      environ := putenv b.environ (95 :: equals :: arg.1) } := by
  intro size newArgv
  have hspace := h.spaceReserved hS
  have hwrite := h.writeArgv hS hp (arg :: args)
  obtain ⟨s, parent, rfl⟩ := List.exists_cons_of_ne_nil hp
  have hargc : (0 : ℤ) < (arg :: args).length := by simp
  rw [rename, addresses, renameProcess, if_pos hargc, ← addresses, hspace, Option.bind_eq_bind,
    Option.bind_some, hwrite, Option.bind_eq_bind, Option.bind_some, stringAt_slots]
  rfl

theorem rename_area {b : Image} (h : Area before after parent b)
    (hS : (joined parent).length < 2 ^ 31) {source : List CString} (hne : source ≠ []) :
    let size := (joined parent).length
    ∃ b', rename before parent b source = some b' ∧ Area before after parent b' ∧
      b'.memory = before ++ block size (copied size (joined source)) (joined source) ++ after := by
  intro size
  have hlen := block_length size (joined source)
  by_cases hp : parent = []
  · subst hp
    obtain ⟨area, harea, hm⟩ := h.memory
    obtain rfl := List.length_eq_zero_iff.mp harea
    rw [List.length_eq_zero_iff.mp hlen]
    exact ⟨b, rfl, h, hm⟩
  · obtain ⟨arg, args, rfl⟩ := List.exists_cons_of_ne_nil hne
    exact ⟨_, rename_cons h hS hp arg args, ⟨⟨_, hlen, rfl⟩, .inl rfl⟩, rfl⟩

theorem renames_area {b : Image} (h : Area before after parent b)
    (hS : (joined parent).length < 2 ^ 31) {calls : List (List CString)}
    (hne : ∀ source ∈ calls, source ≠ []) :
    ∃ b', Run (rename before parent) Any b calls b' ∧ Area before after parent b' := by
  induction calls generalizing b with
  | nil => exact ⟨b, .nil _, h⟩
  | cons source calls ih =>
    obtain ⟨b', hb', harea, -⟩ := rename_area h hS (hne source List.mem_cons_self)
    obtain ⟨t, hrun, ht⟩ := ih harea fun c hc ↦ hne c (List.mem_cons_of_mem _ hc)
    exact ⟨t, .cons trivial hb' hrun, ht⟩

theorem overwrite_eq_block {size : ℕ} {newArgv : Str} (hs : 0 < size) (hn : 0 < newArgv.length) :
    overwrite size newArgv = block size (min size newArgv.length) newArgv := by
  have hlen : (newArgv.take (min size newArgv.length)).length = min size newArgv.length :=
    List.length_take_of_le (Nat.min_le_right _ _)
  have hset := set_last (List.length_pos_iff.mp
    (hlen.symm ▸ (show 0 < min size newArgv.length by omega)))
  rw [hlen] at hset
  rw [block, hset]
  rfl

def Image.title (before : Memory) (parent : List CString) (b : Image) : Title where
  spaceAvailable := b.spaceAvailable.toNat
  block := (b.memory.drop before.length).take (joined parent).length
  name := b.name
  environ := b.environ

theorem rename_title {b : Image} (h : Area before after parent b)
    (hS : (joined parent).length < 2 ^ 31) (hp : parent ≠ []) {source : List CString}
    (hne : source ≠ []) (hL : (joined source).length < 2 ^ 31) :
    (rename before parent b source).map (Image.title before parent) =
      Argv.renameProcess (b.title before parent) (parent.map (·.1)) source.length
        (slots source) := by
  obtain ⟨arg, args, rfl⟩ := List.exists_cons_of_ne_nil hne
  have hspace : (if (b.title before parent).spaceAvailable = 0 then
      ((parent.map (·.1)).map fun s ↦ s.length + 1).sum
      else (b.title before parent).spaceAvailable) = (joined parent).length := by
    have hsum : ((parent.map (·.1)).map fun s ↦ s.length + 1).sum = (joined parent).length := by
      rw [joined_length, List.map_map]
      rfl
    rw [hsum]
    obtain hs | ⟨hs, -⟩ := h.space
    · simp [Image.title, hs]
    · simp [Image.title, hs]
  have hblock : (before ++ block (joined parent).length
      (copied (joined parent).length (joined (arg :: args))) (joined (arg :: args)) ++
        after).drop before.length = overwrite (joined parent).length (joined (arg :: args)) ++
          after := by
    rw [List.append_assoc, List.drop_left, copied_of_lt _ hL,
      overwrite_eq_block (joined_pos hp) (joined_pos hne)]
  have hlen : (overwrite (joined parent).length (joined (arg :: args))).length =
      (joined parent).length := by
    rw [overwrite_eq_block (joined_pos hp) (joined_pos hne), ← copied_of_lt _ hL, block_length]
  have hargc : (0 : ℤ) < (arg :: args).length ∧ parent.map (·.1) ≠ [] :=
    ⟨by simp, by simpa only [ne_eq, List.map_eq_nil_iff] using hp⟩
  rw [rename_cons h hS hp, Option.map_some, Argv.renameProcess, if_pos hargc, hspace,
    Int.toNat_natCast, appendArgs_slots _ _ le_rfl, List.take_length, stringAt_slots]
  simp only [Image.title, Int.toNat_natCast, hblock, List.take_left' hlen]
  rfl

end

theorem run_renames (before after : Memory) (parent : List CString) (name : Str)
    (environ : List Str) (hS : (joined parent).length < 2 ^ 31) {calls : List (List CString)}
    (hcalls : ∀ c ∈ calls, c ≠ []) {source : List CString} (hne : source ≠ []) :
    let size := (joined parent).length
    ∃ b, Run (rename before parent) Any (start before after parent name environ)
        (calls ++ [source]) b ∧
      b.memory = before ++ block size (copied size (joined source)) (joined source) ++ after := by
  intro size
  obtain ⟨b, hrun, harea⟩ := renames_area (start_area name environ) hS hcalls
  obtain ⟨b', hb', -, hm⟩ := rename_area harea hS hne
  exact ⟨b', hrun.append (.one hb'), hm⟩

/-- Whatever is around the area stays as it was, and after each call whose strings
an `int` can count the area holds them as far as they fit. -/
theorem renames_block (before after : Memory) (parent : List CString) (name : Str)
    (environ : List Str) (calls : List (List CString)) (source : List CString)
    (hS : (joined parent).length < 2 ^ 31) (hcalls : ∀ c ∈ calls, c ≠ []) (hne : source ≠ []) :
    let size := (joined parent).length
    ∃ b area, Run (rename before parent) Any (start before after parent name environ)
        (calls ++ [source]) b ∧
      b.memory = before ++ area ++ after ∧ area.length = size ∧
      ((joined source).length < 2 ^ 31 →
        area = block size (min size (joined source).length) (joined source)) := by
  intro size
  obtain ⟨b, hrun, hm⟩ := run_renames before after parent name environ hS hcalls hne
  refine ⟨b, _, hrun, hm, block_length size (joined source), fun hL ↦ ?_⟩
  rw [copied_of_lt size hL]

/-- Three calls on an area of seven bytes between two others. -/
theorem renames_block_short :
    let parent : List CString := [⟨[1, 2], by decide⟩, ⟨[3, 4, 5], by decide⟩]
    let foo : CString := ⟨[102, 111, 111], by decide⟩
    let long : CString := ⟨[108, 111, 110, 103, 101, 114, 33], by decide⟩
    ∃ b, Run (rename [9] parent) Any (start [9] [8] parent [] []) ([[long], [foo, long]] ++ [[foo]]) b ∧
      b.memory = [9, 102, 111, 111, 0, 0, 0, 0, 8] := by
  obtain ⟨b, area, hrun, hm, -, harea⟩ :=
    renames_block [9] [8] [⟨[1, 2], by decide⟩, ⟨[3, 4, 5], by decide⟩] [] []
      [[⟨[108, 111, 110, 103, 101, 114, 33], by decide⟩],
        [⟨[102, 111, 111], by decide⟩, ⟨[108, 111, 110, 103, 101, 114, 33], by decide⟩]]
      [⟨[102, 111, 111], by decide⟩] (by decide) (by decide) (by decide)
  refine ⟨b, hrun, ?_⟩
  rw [hm, harea (by decide)]
  rfl

theorem int_half : int ((2 ^ 31 : ℕ) : ℤ) = -2 ^ 31 := by decide

theorem copied_half (size : ℕ) {newArgv : Str} (h : newArgv.length = 2 ^ 31) :
    copied size newArgv = 0 := by
  rw [copied, h, int_half]
  omega

theorem rename_half (parent : CString) (h : parent.1.length + 1 = 2 ^ 31) (source : CString)
    (name : Str) (environ : List Str) :
    rename [] [parent] (start [] [] [parent] name environ) [source] = none := by
  have hspace : spaceReserved (start [] [] [parent] name environ) [0] = some (-2 ^ 31) := by
    have hs : strlen (start [] [] [parent] name environ).memory 0 = some parent.1.length := by
      have := strlen_append [] [] parent
      simpa [start] using this
    have hint : int (0 + parent.1.length + 1) = -2 ^ 31 := by
      rw [← int_half, ← h]
      congr 1
      omega
    have hz : (start [] [] [parent] name environ).spaceAvailable = 0 := rfl
    rw [spaceReserved, if_pos hz, reserved, hs, Option.bind_eq_bind, Option.bind_some, hint]
    rfl
  have hlen : (start [] [] [parent] name environ).memory.length = 2 ^ 31 := by
    simp [start, h]
  have hset : memset (start [] [] [parent] name environ).memory 0 0 (size_t (-2 ^ 31)) = none := by
    apply store_none
    rw [hlen, List.length_replicate]
    decide
  have hwrite : writeArgv (start [] [] [parent] name environ).memory 0 (-2 ^ 31)
      ([source] : List CString).length (slots [source]) = none := by
    rw [writeArgv, if_neg (by decide), Int.toNat_natCast, appendArgs_slots _ _ le_rfl,
      Option.bind_eq_bind, Option.bind_some, overwriteArgv, hset]
    rfl
  have hargc : (0 : ℤ) < ([source] : List CString).length := by simp
  rw [rename, addresses, renameProcess, if_pos hargc]
  change (spaceReserved _ [0]).bind _ = none
  rw [hspace, Option.bind_some]
  change (writeArgv _ 0 _ _ _).bind _ = none
  rw [hwrite]
  rfl

def letterA : CString := ⟨[97], by decide⟩

theorem head_block (c : UInt8) (newArgv : Str) :
    (block 2 2 (c :: newArgv)).head? = some c := by
  rcases newArgv with _ | ⟨b, newArgv⟩ <;> rfl

theorem block_half (long : CString) (h : long.1.length + 1 = 2 ^ 31) :
    ¬(∃ b, Run (rename [] [letterA]) Any (start [] [] [letterA] [] []) [[long]] b ∧
        b.memory = block 2 (min 2 (joined [long]).length) (joined [long])) ∧
      ¬(∃ b, Run (rename [] [long]) Any (start [] [] [long] [] []) [[letterA]] b ∧
        b.memory = block (2 ^ 31) (min (2 ^ 31) (joined [letterA]).length) (joined [letterA])) := by
  have hlen : (joined [long]).length = 2 ^ 31 := by simp [h]
  refine ⟨fun hex ↦ ?_, fun hex ↦ ?_⟩
  · obtain ⟨b, hrun, hm⟩ := hex
    have harea : Area [] [] [letterA] (start [] [] [letterA] [] []) := start_area [] []
    obtain ⟨b', hb', -, hm'⟩ := rename_area harea (by decide) (List.cons_ne_nil long [])
    cases hrun with
    | cons _ hs hnil =>
      cases hnil
      obtain rfl : b' = b := Option.some.inj (hb'.symm.trans hs)
      have hzero : b'.memory.head? = some 0 := by
        rw [hm', copied_half _ hlen]
        rfl
      obtain ⟨_ | ⟨c, s⟩, hz⟩ := long
      · simp at h
      · have hhead : b'.memory.head? = some c := by
          rw [hm, hlen]
          exact head_block c _
        obtain rfl : c = 0 := Option.some.inj (hhead.symm.trans hzero)
        exact hz List.mem_cons_self
  · obtain ⟨b, hrun, -⟩ := hex
    cases hrun with
    | cons _ hs _ =>
      rw [rename_half long h] at hs
      cases hs

def longA : CString :=
  ⟨List.replicate (2 ^ 31 - 1) 97, fun h ↦ by cases List.eq_of_mem_replicate h⟩

theorem longA_length : longA.1.length + 1 = 2 ^ 31 :=
  congrArg (· + 1) List.length_replicate

/-- Neither the strings nor the area may be longer than an `int` can tell. -/
theorem renames_block_longA :
    ¬(∃ b, Run (rename [] [letterA]) Any (start [] [] [letterA] [] []) [[longA]] b ∧
        b.memory = block 2 (min 2 (joined [longA]).length) (joined [longA])) ∧
      ¬(∃ b, Run (rename [] [longA]) Any (start [] [] [longA] [] []) [[letterA]] b ∧
        b.memory = block (2 ^ 31) (min (2 ^ 31) (joined [letterA]).length) (joined [letterA])) :=
  block_half longA longA_length

end Applauncherd.Launcherlib.ArgumentArea
