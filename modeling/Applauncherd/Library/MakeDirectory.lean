import Applauncherd.Library.FileTree
import Mathlib.Logic.Function.Basic

namespace Applauncherd.Library.MakeDirectory

open Library.Path Library.FileTree

variable {ν : Type*}

/-- A process that makes system calls. `permits` tells whether the kernel lets it make a
directory where nothing else is in the way, and `mayChmod` whether it may set the mode. -/
structure Caller (ν : Type*) where
  cwd : Place ν
  links : ℕ
  umask : UInt32
  permits : FileSystem ν → Pathname ν → Bool
  mayChmod : FileSystem ν → Place ν → Bool

def chmodNode (mode : UInt32) : Node ν → Node ν
  | .directory _ => .directory mode
  | node => node

namespace Caller

variable (k : Caller ν) (t : FileSystem ν) (path : Pathname ν)

def lookup : Option (Place ν) := resolve t k.links (path.start k.cwd) path.way

def isDirectory : Bool := (k.lookup t path).any t.isDirectory

def vacancy : Option (Place ν) :=
  match path.way.getLast? with
  | some (.into name) =>
    (k.lookup t { path with way := path.way.dropLast }).bind fun p ↦
      if t.isDirectory p && (t (p ++ [name])).isNone && k.permits t path then
        some (p ++ [name])
      else none
  | _ => none

variable [DecidableEq ν]

def mkdir (mode : UInt32) : Option (FileSystem ν) :=
  (k.vacancy t path).map fun p ↦
    Function.update t p (some (.directory (mode &&& ~~~k.umask)))

def chmod (mode : UInt32) : Option (FileSystem ν) :=
  (k.lookup t path).bind fun p ↦
    if k.mayChmod t p then some (Function.update t p ((t p).map (chmodNode mode))) else none

def ensure (mode : UInt32) (t : FileSystem ν) (path : Pathname ν) : FileSystem ν :=
  match k.vacancy t path with
  | some p => Function.update t p (some (.directory mode))
  | none => t

/-- Each pathname in turn is that of a directory, or of a free place once those before it
have been filled. -/
def Passable (mode : UInt32) (t : FileSystem ν) : List (Pathname ν) → Prop
  | [] => True
  | w :: ws =>
    (k.isDirectory t w = true ∨ (k.vacancy t w).isSome) ∧ Passable mode (k.ensure mode t w) ws

instance decidablePassable (mode : UInt32) :
    ∀ (t : FileSystem ν) (ws : List (Pathname ν)), Decidable (k.Passable mode t ws)
  | _, [] => .isTrue trivial
  | t, w :: ws =>
    have := decidablePassable mode (k.ensure mode t w) ws
    inferInstanceAs (Decidable (_ ∧ _))

end Caller

variable {k : Caller ν} {t t' : FileSystem ν} {path w : Pathname ν} {p : Place ν} {mode : UInt32}

theorem isDirectory_iff :
    k.isDirectory t path = true ↔ ∃ p, k.lookup t path = some p ∧ t.isDirectory p = true := by
  rw [Caller.isDirectory, Option.any_eq_true]

theorem vacancy_spec (h : k.vacancy t path = some p) :
    ∃ cs name q, path.way = cs ++ [.into name] ∧ p = q ++ [name] ∧
      k.lookup t { path with way := cs } = some q ∧ t.isDirectory q = true ∧ t p = none := by
  unfold Caller.vacancy at h
  cases hlast : path.way.getLast? with
  | none => rw [hlast] at h; cases h
  | some component =>
    rw [hlast] at h
    cases component with
    | here => cases h
    | up => cases h
    | into name =>
      obtain ⟨cs, hcs⟩ := List.getLast?_eq_some_iff.mp hlast
      rw [hcs, List.dropLast_concat] at h
      obtain ⟨q, hq, h⟩ := Option.bind_eq_some_iff.mp h
      split_ifs at h with hfree
      cases h
      simp only [Bool.and_eq_true, Option.isNone_iff_eq_none] at hfree
      exact ⟨cs, name, q, hcs, rfl, hq, hfree.1.1, hfree.1.2⟩

theorem vacancy_free (h : k.vacancy t path = some p) : t p = none := by
  obtain ⟨cs, name, q, -, -, -, -, hfree⟩ := vacancy_spec h
  exact hfree

theorem lookup_of_vacancy (h : k.vacancy t path = some p) (ht : Extends t t')
    (hp : t'.isDirectory p = true) : k.lookup t' path = some p := by
  obtain ⟨cs, name, q, hway, rfl, hq, hdir, -⟩ := vacancy_spec h
  rw [Caller.lookup, hway]
  refine resolve_trans k.links (resolve_mono ht k.links hq) fun m ↦ ?_
  cases hnode : t' (q ++ [name]) with
  | none => simp [FileSystem.isDirectory, hnode] at hp
  | some node =>
    cases node with
    | directory mode => cases m <;> simp [resolve, follow, ht.isDirectory hdir, hnode]
    | link target => simp [FileSystem.isDirectory, hnode] at hp
    | other => simp [FileSystem.isDirectory, hnode] at hp

def OnWay (w path : Pathname ν) : Prop := w.absolute = path.absolute ∧ w.way <+: path.way

theorem isDirectory_of_onWay (hw : OnWay w path) (h : k.isDirectory t path = true) :
    k.isDirectory t w = true := by
  obtain ⟨q, hq, hdir⟩ := isDirectory_iff.mp h
  obtain ⟨habs, rest, hrest⟩ := hw
  rw [Caller.lookup, ← hrest] at hq
  obtain ⟨r, hr, m, hm⟩ := resolve_append k.links hq
  refine isDirectory_iff.mpr ⟨r, ?_, isDirectory_of_resolve hm hdir⟩
  rw [Caller.lookup, Pathname.start, habs]
  exact hr

theorem blocked_of_onWay (hw : OnWay w path) (hdir : ¬k.isDirectory t w = true)
    (hv : k.vacancy t w = none) :
    ¬k.isDirectory t path = true ∧ k.vacancy t path = none := by
  refine ⟨fun h ↦ hdir (isDirectory_of_onWay hw h), ?_⟩
  by_contra hsome
  obtain ⟨p, hp⟩ := Option.ne_none_iff_exists'.mp hsome
  obtain ⟨cs, name, q, hway, -, hq, hqdir, -⟩ := vacancy_spec hp
  obtain hlast | hbefore := List.prefix_concat_iff.mp (hway ▸ hw.2)
  · have heq : w = path := Pathname.ext hw.1 (hlast.trans hway.symm)
    rw [heq, hp] at hv
    cases hv
  · have hparent : OnWay w { path with way := cs } := ⟨hw.1, hbefore⟩
    exact hdir (isDirectory_of_onWay hparent (isDirectory_iff.mpr ⟨q, hq, hqdir⟩))

variable [DecidableEq ν]

theorem extends_update (h : t p = none) (node : Option (Node ν)) :
    Extends t (Function.update t p node) := by
  intro q n hq
  rw [Function.update_of_ne, hq]
  rintro rfl
  cases h.symm.trans hq

theorem isDirectory_update :
    FileSystem.isDirectory (Function.update t p (some (.directory mode))) p = true := by
  simp [FileSystem.isDirectory]

theorem mkdir_spec (h : k.mkdir t path mode = some t') :
    ∃ p, k.vacancy t path = some p ∧ k.lookup t' path = some p ∧
      t' = Function.update t p (some (.directory (mode &&& ~~~k.umask))) := by
  obtain ⟨p, hv, rfl⟩ := Option.map_eq_some_iff.mp h
  have hext := extends_update (vacancy_free hv)
  exact ⟨p, hv, lookup_of_vacancy hv (hext _) isDirectory_update, rfl⟩

theorem mkdir_chmod
    (hchmod : ∀ t', k.mkdir t path mode = some t' → (k.chmod t' path mode).isSome) :
    k.mkdir t path mode = none ∧ k.ensure mode t path = t ∨
      ∃ t', k.mkdir t path mode = some t' ∧
        k.chmod t' path mode = some (k.ensure mode t path) := by
  cases hmk : k.mkdir t path mode with
  | none =>
    have hv := Option.map_eq_none_iff.mp hmk
    exact .inl ⟨rfl, by rw [Caller.ensure, hv]⟩
  | some t' =>
    refine .inr ⟨t', rfl, ?_⟩
    obtain ⟨p, hv, hp, rfl⟩ := mkdir_spec hmk
    have hsome := hchmod _ hmk
    rw [Caller.chmod, hp, Option.bind_some, Option.isSome_ite] at hsome
    rw [Caller.chmod, hp, Option.bind_some, if_pos hsome, Function.update_self,
      Function.update_idem, Caller.ensure, hv]
    rfl

theorem chmod_of_mkdir (hmay : ∀ t p, k.mayChmod t p = true)
    (h : k.mkdir t path mode = some t') : (k.chmod t' path mode).isSome := by
  obtain ⟨p, -, hp, -⟩ := mkdir_spec h
  rw [Caller.chmod, hp, Option.bind_some, if_pos (hmay t' p)]
  rfl

theorem ensure_cases (k : Caller ν) (mode : UInt32) (t : FileSystem ν) (w : Pathname ν) :
    (∃ p, k.vacancy t w = some p ∧ t p = none ∧
      k.ensure mode t w = Function.update t p (some (.directory mode))) ∨
    k.vacancy t w = none ∧ k.ensure mode t w = t := by
  unfold Caller.ensure
  cases hv : k.vacancy t w with
  | none => exact .inr ⟨rfl, rfl⟩
  | some p => exact .inl ⟨p, rfl, vacancy_free hv, rfl⟩

theorem extends_ensure : Extends t (k.ensure mode t w) := by
  obtain ⟨p, -, hfree, he⟩ | ⟨-, he⟩ := ensure_cases k mode t w
  · exact he ▸ extends_update hfree _
  · rw [he]
    exact .refl t

theorem isDirectory_ensure :
    k.isDirectory (k.ensure mode t w) w = true ↔
      k.isDirectory t w = true ∨ (k.vacancy t w).isSome := by
  obtain ⟨p, hv, hfree, he⟩ | ⟨hv, he⟩ := ensure_cases k mode t w
  · rw [he, hv]
    refine iff_of_true (isDirectory_iff.mpr ⟨p, ?_, isDirectory_update⟩) (.inr rfl)
    exact lookup_of_vacancy hv (extends_update hfree _) isDirectory_update
  · simp [he, hv]

theorem extends_foldl_ensure (ws : List (Pathname ν)) :
    Extends t (ws.foldl (k.ensure mode) t) := by
  induction ws generalizing t with
  | nil => exact .refl t
  | cons w ws ih => exact extends_ensure.trans ih

theorem foldl_ensure_blocked {ws : List (Pathname ν)} (hws : ∀ w' ∈ ws, OnWay w w')
    (hdir : ¬k.isDirectory t w = true) (hv : k.vacancy t w = none) :
    ws.foldl (k.ensure mode) t = t := by
  induction ws with
  | nil => rfl
  | cons w' ws ih =>
    obtain ⟨-, hv'⟩ := blocked_of_onWay (hws w' List.mem_cons_self) hdir hv
    rw [List.foldl_cons, Caller.ensure, hv']
    exact ih fun w'' hw ↦ hws w'' (List.mem_cons_of_mem w' hw)

/-- Making all directories on the way to a pathname leads to a directory there exactly if
nothing stands in the way. -/
theorem isDirectory_foldl_ensure {ws : List (Pathname ν)}
    (hws : (ws ++ [path]).Pairwise OnWay) :
    k.isDirectory ((ws ++ [path]).foldl (k.ensure mode) t) path = true ↔
      k.Passable mode t (ws ++ [path]) := by
  induction ws generalizing t with
  | nil => simpa [Caller.Passable] using isDirectory_ensure
  | cons w ws ih =>
    rw [List.cons_append, List.pairwise_cons] at hws
    obtain ⟨hw, hrest⟩ := hws
    rw [List.cons_append, List.foldl_cons, Caller.Passable]
    by_cases hopen : k.isDirectory t w = true ∨ (k.vacancy t w).isSome
    · rw [ih hrest, and_iff_right hopen]
    · refine iff_of_false ?_ fun h ↦ hopen h.1
      obtain ⟨hdir, hv⟩ := not_or.mp hopen
      rw [Option.not_isSome_iff_eq_none] at hv
      have he : k.ensure mode t w = t := by rw [Caller.ensure, hv]
      rw [he, foldl_ensure_blocked hw hdir hv]
      exact (blocked_of_onWay (hw path (by simp)) hdir hv).1

theorem changed_foldl_ensure {ws : List (Pathname ν)}
    (hp : ws.foldl (k.ensure mode) t p ≠ t p) :
    t p = none ∧ ws.foldl (k.ensure mode) t p = some (.directory mode) ∧
      ∃ w ∈ ws, k.lookup (ws.foldl (k.ensure mode) t) w = some p := by
  induction ws generalizing t with
  | nil => exact absurd rfl hp
  | cons w ws ih =>
    rw [List.foldl_cons] at hp ⊢
    by_cases hstep : k.ensure mode t w p = t p
    · rw [← hstep] at hp ⊢
      obtain ⟨hfree, hnew, w', hw', hlookup⟩ := ih hp
      exact ⟨hfree, hnew, w', List.mem_cons_of_mem w hw', hlookup⟩
    · obtain ⟨q, hv, hfree, he⟩ | ⟨-, he⟩ := ensure_cases k mode t w
      · have hq : p = q := by
          by_contra hne
          exact hstep (by rw [he, Function.update_of_ne hne])
        subst q
        have hlater : Extends (k.ensure mode t w) (ws.foldl (k.ensure mode) (k.ensure mode t w)) :=
          extends_foldl_ensure ws
        have hnew := hlater p (.directory mode) (by rw [he, Function.update_self])
        refine ⟨hfree, hnew, w, List.mem_cons_self, ?_⟩
        refine lookup_of_vacancy hv (extends_ensure.trans hlater) ?_
        simp [FileSystem.isDirectory, hnew]
      · exact absurd (congrFun he p) hstep

end Applauncherd.Library.MakeDirectory
