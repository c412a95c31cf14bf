import Applauncherd.Library.Environ
import Mathlib.Data.List.Induction

namespace Applauncherd.Library.Path

open Environ

variable {ν : Type*}

/-- A place in a tree without links: the names on the way to it from the root. -/
abbrev Place (ν : Type*) := List ν

inductive Component (ν : Type*)
  | here
  | up
  | into (name : ν)
  deriving DecidableEq, Repr

def enter (p : Place ν) : Component ν → Place ν
  | .here => p
  | .up => p.dropLast
  | .into name => p ++ [name]

def walk (p : Place ν) (cs : List (Component ν)) : Place ν := cs.foldl enter p

@[simp] theorem walk_nil (p : Place ν) : walk p [] = p := rfl

/-- The way that some components lead from wherever they start: first up, then down. -/
structure Route (ν : Type*) where
  climb : ℕ
  names : List ν
  deriving DecidableEq, Repr

def Route.enter (r : Route ν) : Component ν → Route ν
  | .here => r
  | .up => if r.names = [] then { r with climb := r.climb + 1 } else
      { r with names := r.names.dropLast }
  | .into name => { r with names := r.names ++ [name] }

def route (cs : List (Component ν)) : Route ν := cs.foldl Route.enter ⟨0, []⟩

def above (p : Place ν) (n : ℕ) : Place ν := p.take (p.length - n)

def Route.from (r : Route ν) (p : Place ν) : Place ν := above p r.climb ++ r.names

@[simp] theorem above_zero (p : Place ν) : above p 0 = p := by simp [above]

def reach (isDir : Place ν → Bool) (p : Place ν) (cs : List (Component ν)) : Option (Place ν) :=
  cs.foldlM (fun p c ↦ if isDir p then some (enter p c) else none) p

theorem reach_append (isDir : Place ν → Bool) (p : Place ν) (cs ds : List (Component ν)) :
    reach isDir p (cs ++ ds) = (reach isDir p cs).bind fun q ↦ reach isDir q ds :=
  List.foldlM_append

theorem reach_walk {isDir : Place ν → Bool} {p q : Place ν} {cs : List (Component ν)}
    (h : reach isDir p cs = some q) : q = walk p cs := by
  induction cs generalizing p with
  | nil => exact (Option.some.inj h).symm
  | cons c cs ih =>
    rw [reach, List.foldlM_cons] at h
    split_ifs at h
    · exact ih h
    · cases h

def slash : UInt8 := 47

def component (name : Str) : Component Str :=
  if name = [46] then .here else if name = [46, 46] then .up else .into name

/-- Slashes in a row count as one, and one at the end does not count. -/
def components (path : Str) : List (Component Str) :=
  ((path.splitOn slash).filter (· ≠ [])).map component

def rooted (path : Str) : Bool := path.head? == some slash

def locate (cwd : Place Str) (path : Str) : Place Str :=
  walk (if rooted path then [] else cwd) (components path)

theorem components_append (a b : Str) :
    components (a ++ slash :: b) = components a ++ components b := by
  simp [components, List.splitOn_append_cons_self]

theorem components_slash (a : Str) : components (a ++ [slash]) = components a := by
  rw [components_append]
  exact List.append_nil _

end Applauncherd.Library.Path
