import Applauncherd.Library.MakeDirectory
import Applauncherd.Library.Memory
import Applauncherd.SingleInstance.Lock
import Mathlib.Data.List.TakeDrop

namespace Applauncherd.SingleInstance.Mkpath

open Library Library.Environ Library.Path Library.FileTree Library.MakeDirectory Library.Memory
open Lock

def pathname (path : Str) : Pathname Str := ⟨rooted path, components path⟩

/-- The files, and what `mkdir` has been called with so far. -/
structure World where
  tree : FileSystem Str
  attempts : List Str

variable (k : Caller Str)

/-- The body of the `if`. A failure of `mkdir` is passed over, one of `chmod` ends the loop. -/
def makePart (part : Str) (w : World) : Bool × World :=
  match k.mkdir w.tree (pathname part) 0o777 with
  | none => (true, ⟨w.tree, w.attempts ++ [part]⟩)
  | some t =>
    match k.chmod t (pathname part) 0o777 with
    | none => (false, ⟨t, w.attempts ++ [part]⟩)
    | some t' => (true, ⟨t', w.attempts ++ [part]⟩)

/-- `i` is an `unsigned int`, but `size()` is wider. -/
def boundary (path : Str) (i : UInt32) : Bool :=
  ((i + 1).toNat < path.length && path[(i + 1).toNat]? == some slash &&
    path[i.toNat]? != some slash) ||
  (i + 1).toNat == path.length

def mkpathLoop (path : Str) : ℕ → UInt32 → World → Option (Bool × World)
  | 0, _, _ => none
  | fuel + 1, i, w =>
    if i.toNat < path.length then
      if boundary path i then
        match makePart k (path.take (i + 1).toNat) w with
        | (true, w') => mkpathLoop path fuel (i + 1) w'
        | (false, w') => some (false, w')
      else mkpathLoop path fuel (i + 1) w
    else some (true, w)

def mkpath (fuel : ℕ) (path : CString) (t : FileSystem Str) : Option (Bool × World) :=
  mkpathLoop k path.1 fuel 0 ⟨t, []⟩

/-- A part of a path that ends where one of its components does, or the whole of it. -/
def ComponentPrefix (path part : Str) : Prop :=
  part ≠ [] ∧ (part = path ∨ part.getLast? ≠ some slash ∧ part ++ [slash] <+: path)

instance (path part : Str) : Decidable (ComponentPrefix path part) :=
  inferInstanceAs (Decidable (_ ∧ _))

def prefixesFrom (path : Str) (n m : ℕ) : List Str :=
  ((List.range' n m).map fun j ↦ path.take (j + 1)).filter fun part ↦ ComponentPrefix path part

def prefixes (path : Str) : List Str := prefixesFrom path 0 path.length

/-- What has been done when the call returns: every prefix tried, the shorter before the
longer, nothing but directories on the way made, and the answer given is right. -/
structure Made (t : FileSystem Str) (path : Str) (ok : Bool) (w : World) : Prop where
  attempted : ∀ part, ComponentPrefix path part → part ∈ w.attempts
  inOrder : w.attempts.Pairwise fun a b ↦ a.length < b.length
  created : ∀ p, w.tree p ≠ t p → t p = none ∧ w.tree p = some (.directory 0o777) ∧
    ∃ part, ComponentPrefix path part ∧ k.lookup w.tree (pathname part) = some p
  answer : ok = true ↔ k.isDirectory w.tree (pathname path) = true

def MakesPath (t : FileSystem Str) (path : CString) : Prop :=
  ∃ fuel ok w, mkpath k fuel path t = some (ok, w) ∧ Made k t path.1 ok w

def ChmodWorks : Prop :=
  ∀ t path t', k.mkdir t path 0o777 = some t' → (k.chmod t' path 0o777).isSome

variable {k} {path : Str} {w : World} {i : UInt32} {n m fuel : ℕ}

theorem take_concat_iff {α : Type*} {l : List α} {a : α} (hn : n ≤ l.length) :
    l.take n ++ [a] <+: l ↔ l[n]? = some a := by
  rw [List.prefix_iff_eq_take, List.length_append, List.length_take_of_le hn, List.length_singleton,
    List.take_add_one, List.append_cancel_left_eq]
  cases l[n]? with
  | none => simp
  | some b => simp [eq_comm]

theorem getLast?_take_succ {α : Type*} {l : List α} (hn : n < l.length) :
    (l.take (n + 1)).getLast? = l[n]? := by
  rw [List.getLast?_take, if_neg n.succ_ne_zero, Nat.add_sub_cancel, List.getElem?_eq_getElem hn]
  rfl

theorem toNat_succ (hi : i.toNat < path.length) (hlen : path.length < 2 ^ 32) :
    (i + 1).toNat = i.toNat + 1 := by
  rw [UInt32.toNat_add, UInt32.toNat_one]
  exact Nat.mod_eq_of_lt (by omega)

theorem boundary_iff (hi : i.toNat < path.length) (hlen : path.length < 2 ^ 32) :
    boundary path i = true ↔ ComponentPrefix path (path.take (i.toNat + 1)) := by
  have hne : path.take (i.toNat + 1) ≠ [] := by
    rw [Ne, ← List.length_eq_zero_iff, List.length_take_of_le hi]
    exact i.toNat.succ_ne_zero
  rw [boundary, toNat_succ hi hlen, ComponentPrefix, and_iff_right hne, List.take_eq_self_iff,
    getLast?_take_succ hi, take_concat_iff hi]
  by_cases hlast : i.toNat + 1 = path.length
  · simp [hlast]
  · have hlt : i.toNat + 1 < path.length := by omega
    have hle : ¬path.length ≤ i.toNat + 1 := by omega
    simp only [Bool.or_eq_true, Bool.and_eq_true, decide_eq_true_eq, beq_iff_eq, bne_iff_ne, hlast,
      hle, hlt, or_false, false_or, true_and]
    exact and_comm

def makeNext (k : Caller Str) (w : World) (part : Str) : World :=
  ⟨k.ensure 0o777 w.tree (pathname part), w.attempts ++ [part]⟩

theorem makePart_eq (hchmod : ChmodWorks k) (part : Str) (w : World) :
    makePart k part w = (true, makeNext k w part) := by
  obtain ⟨hnone, he⟩ | ⟨t, ht, ht'⟩ := mkdir_chmod (hchmod w.tree (pathname part))
  · rw [makePart, hnone, makeNext, he]
  · simp only [makePart, ht, ht', makeNext]

theorem foldl_makeNext (parts : List Str) (w : World) :
    parts.foldl (makeNext k) w =
      ⟨(parts.map pathname).foldl (k.ensure 0o777) w.tree, w.attempts ++ parts⟩ := by
  induction parts generalizing w with
  | nil => simp
  | cons part parts ih =>
    rw [List.foldl_cons, ih]
    simp [makeNext]

theorem prefixesFrom_succ (path : Str) (n m : ℕ) :
    prefixesFrom path n (m + 1) = if ComponentPrefix path (path.take (n + 1)) then
      path.take (n + 1) :: prefixesFrom path (n + 1) m else prefixesFrom path (n + 1) m := by
  rw [prefixesFrom, List.range'_succ, List.map_cons, List.filter_cons]
  simp only [decide_eq_true_eq]
  rfl

theorem mkpathLoop_eq (hchmod : ChmodWorks k) (hlen : path.length < 2 ^ 32)
    (hm : path.length = i.toNat + m) :
    mkpathLoop k path fuel i w =
      if m < fuel then some (true, (prefixesFrom path i.toNat m).foldl (makeNext k) w)
      else none := by
  induction fuel generalizing i m w with
  | zero => rfl
  | succ fuel ih =>
    cases m with
    | zero =>
      have hi : ¬i.toNat < path.length := by omega
      rw [mkpathLoop, if_neg hi, if_pos fuel.succ_pos]
      rfl
    | succ m =>
      have hi : i.toNat < path.length := by omega
      have hsucc := toNat_succ hi hlen
      have hrest := fun w ↦ ih (i := i + 1) (m := m) (w := w) (by omega)
      rw [hsucc] at hrest
      simp only [mkpathLoop, if_pos hi, prefixesFrom_succ, Nat.add_lt_add_iff_right]
      by_cases hb : boundary path i = true
      · rw [if_pos hb, if_pos ((boundary_iff hi hlen).mp hb), makePart_eq hchmod, hsucc]
        exact hrest _
      · rw [if_neg hb, if_neg (mt (boundary_iff hi hlen).mpr hb)]
        exact hrest w

/-- The index of a path that is too long comes back to its start and goes on for ever. -/
theorem mkpathLoop_long (hchmod : ChmodWorks k) (hlen : 2 ^ 32 ≤ path.length) :
    mkpathLoop k path fuel i w = none := by
  induction fuel generalizing i w with
  | zero => rfl
  | succ fuel ih =>
    have hi : i.toNat < path.length := i.toNat_lt.trans_le hlen
    rw [mkpathLoop, if_pos hi, makePart_eq hchmod]
    split_ifs
    · exact ih
    · exact ih

theorem ComponentPrefix.isPrefix {part : Str} (h : ComponentPrefix path part) : part <+: path := by
  obtain ⟨-, rfl | ⟨-, h⟩⟩ := h
  · exact List.prefix_refl part
  · exact (List.prefix_append part [slash]).trans h

theorem mem_prefixes {part : Str} : part ∈ prefixes path ↔ ComponentPrefix path part := by
  rw [prefixes, prefixesFrom, List.mem_filter, decide_eq_true_eq, and_iff_right_iff_imp]
  intro h
  have hle := h.isPrefix.length_le
  have hpos : 0 < part.length := List.length_pos_of_ne_nil h.1
  refine List.mem_map.mpr ⟨part.length - 1, ?_, ?_⟩
  · rw [List.mem_range'_1]
    omega
  · rw [Nat.sub_add_cancel hpos]
    exact (List.prefix_iff_eq_take.mp h.isPrefix).symm

theorem pairwise_prefixes (path : Str) :
    (prefixes path).Pairwise fun a b ↦ a.length < b.length := by
  refine List.Pairwise.filter _ (List.pairwise_map.mpr ?_)
  refine (List.pairwise_lt_range' 1).imp_of_mem fun {a b} ha hb hab ↦ ?_
  simp only [List.mem_range'_1, zero_add] at ha hb
  rw [List.length_take_of_le ha.2, List.length_take_of_le hb.2]
  exact Nat.succ_lt_succ hab

theorem prefixes_concat (hpath : path ≠ []) : ∃ ws, prefixes path = ws ++ [path] := by
  obtain ⟨n, hn⟩ := Nat.exists_eq_succ_of_ne_zero (mt List.length_eq_zero_iff.mp hpath)
  have hself : ComponentPrefix path path := ⟨hpath, .inl rfl⟩
  refine ⟨prefixesFrom path 0 n, ?_⟩
  rw [prefixes, prefixesFrom, hn, List.range'_concat, List.map_append, List.filter_append]
  congr 1
  rw [List.map_singleton, zero_add, one_mul, ← Nat.succ_eq_add_one, ← hn, List.take_length,
    List.filter_singleton, decide_eq_true hself, cond_true]

theorem onWay_of_shorter {a b : Str} (ha : ComponentPrefix path a) (hb : ComponentPrefix path b)
    (h : a.length < b.length) : OnWay (pathname a) (pathname b) := by
  have hbpath := hb.isPrefix
  obtain ⟨hne, rfl | ⟨-, hslash⟩⟩ := ha
  · exact absurd hbpath.length_le (by omega)
  · have hle : (a ++ [slash]).length ≤ b.length := by
      rw [List.length_append]
      exact h
    obtain ⟨rest, rfl⟩ := List.prefix_of_prefix_length_le hslash hbpath hle
    constructor
    · rw [pathname, pathname, rooted, rooted, List.append_assoc, List.head?_append_of_ne_nil _ hne]
    · rw [pathname, pathname, List.append_assoc, List.singleton_append, components_append]
      exact List.prefix_append _ _

theorem pairwise_onWay (path : Str) : ((prefixes path).map pathname).Pairwise OnWay := by
  refine List.pairwise_map.mpr ((pairwise_prefixes path).imp_of_mem fun ha hb hab ↦ ?_)
  exact onWay_of_shorter (mem_prefixes.mp ha) (mem_prefixes.mp hb) hab

def outcome (k : Caller Str) (t : FileSystem Str) (path : Str) : World :=
  ⟨((prefixes path).map pathname).foldl (k.ensure 0o777) t, prefixes path⟩

theorem mkpath_eq_some (hchmod : ChmodWorks k) {path : CString} {t : FileSystem Str} {ok : Bool} :
    mkpath k fuel path t = some (ok, w) ↔
      path.1.length < 2 ^ 32 ∧ path.1.length < fuel ∧ ok = true ∧ w = outcome k t path.1 := by
  by_cases hlen : path.1.length < 2 ^ 32
  · rw [mkpath, mkpathLoop_eq hchmod hlen (Nat.zero_add _).symm, and_iff_right hlen,
      foldl_makeNext, UInt32.toNat_zero]
    split_ifs with hfuel
    · rw [and_iff_right hfuel, Option.some_inj, Prod.mk.injEq]
      exact and_congr eq_comm eq_comm
    · exact iff_of_false nofun fun h ↦ hfuel h.1
  · rw [mkpath, mkpathLoop_long hchmod (Nat.le_of_not_lt hlen)]
    exact iff_of_false nofun fun h ↦ hlen h.1

theorem outcome_created (k : Caller Str) (t : FileSystem Str) (path : Str) (p : Place Str)
    (hp : (outcome k t path).tree p ≠ t p) :
    t p = none ∧ (outcome k t path).tree p = some (.directory 0o777) ∧
      ∃ part, ComponentPrefix path part ∧
        k.lookup (outcome k t path).tree (pathname part) = some p := by
  obtain ⟨hfree, hnew, w, hw, hlookup⟩ := changed_foldl_ensure hp
  obtain ⟨part, hpart, rfl⟩ := List.mem_map.mp hw
  exact ⟨hfree, hnew, part, mem_prefixes.mp hpart, hlookup⟩

theorem outcome_isDirectory (k : Caller Str) (t : FileSystem Str) (hpath : path ≠ []) :
    k.isDirectory (outcome k t path).tree (pathname path) = true ↔
      k.Passable 0o777 t ((prefixes path).map pathname) := by
  have hway := pairwise_onWay path
  obtain ⟨ws, hws⟩ := prefixes_concat hpath
  rw [hws, List.map_append, List.map_singleton] at hway
  rw [outcome, hws, List.map_append, List.map_singleton]
  exact isDirectory_foldl_ensure hway

/-- `mkpath` makes the path or says that it did not exactly if the path is short enough for
its index and nothing stands in the way. It never says that it did not. -/
theorem mkpath_makes_iff (hchmod : ChmodWorks k) (path : CString) (hpath : path.1 ≠ [])
    (t : FileSystem Str) :
    MakesPath k t path ↔
      path.1.length < 2 ^ 32 ∧ k.Passable 0o777 t ((prefixes path.1).map pathname) := by
  rw [← outcome_isDirectory k t hpath]
  constructor
  · intro ⟨fuel, ok, w, hrun, hmade⟩
    obtain ⟨hlen, -, rfl, rfl⟩ := (mkpath_eq_some hchmod).mp hrun
    exact ⟨hlen, hmade.answer.mp rfl⟩
  · intro ⟨hlen, hdir⟩
    refine ⟨path.1.length + 1, true, outcome k t path.1,
      (mkpath_eq_some hchmod).mpr ⟨hlen, Nat.lt_succ_self _, rfl, rfl⟩, ?_⟩
    exact
      { attempted := fun part hpart ↦ mem_prefixes.mpr hpart
        inOrder := pairwise_prefixes path.1
        created := outcome_created k t path.1
        answer := iff_of_true rfl hdir }

def plainCaller : Caller Str := ⟨[], 40, 0o022, fun _ _ ↦ true, fun _ _ ↦ true⟩

theorem plainCaller_chmodWorks : ChmodWorks plainCaller :=
  fun _ _ _ h ↦ chmod_of_mkdir (fun _ _ ↦ rfl) h

/-- The path of `lock("/x")`, with two slashes in a row. -/
def lockX : CString := ⟨lockPathBase ++ ascii "/x", by decide⟩

def emptyTree : FileSystem Str
  | [] => some (.directory 0o755)
  | _ => none

theorem mkpath_makes_lockX : MakesPath plainCaller emptyTree lockX :=
  (mkpath_makes_iff plainCaller_chmodWorks lockX (by decide) emptyTree).mpr
    ⟨by decide, by decide +kernel⟩

def occupiedTree (p : Place Str) : Option (Node Str) :=
  if p = [] ∨ p = [ascii "tmp"] then some (.directory 0o777)
  else if p = lockDirectory then some .other
  else none

/-- No directory can be made in a file, but the answer is `true`. -/
theorem mkpath_occupied : lockX.1 ≠ [] ∧ ChmodWorks plainCaller ∧
    (∃ w, mkpath plainCaller 100 lockX occupiedTree = some (true, w) ∧
      plainCaller.isDirectory w.tree (pathname lockX.1) = false) ∧
    ¬MakesPath plainCaller occupiedTree lockX := by
  have hnot : plainCaller.isDirectory (outcome plainCaller occupiedTree lockX.1).tree
      (pathname lockX.1) = false := by decide +kernel
  refine ⟨by decide, plainCaller_chmodWorks, ⟨_, ?_, hnot⟩, ?_⟩
  · exact (mkpath_eq_some plainCaller_chmodWorks).mpr ⟨by decide, by decide, rfl, rfl⟩
  · intro ⟨fuel, ok, w, hrun, hmade⟩
    obtain ⟨-, -, rfl, rfl⟩ := (mkpath_eq_some plainCaller_chmodWorks).mp hrun
    cases (hmade.answer.mp rfl).symm.trans hnot

end Applauncherd.SingleInstance.Mkpath
