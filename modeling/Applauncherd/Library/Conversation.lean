import Applauncherd.Library.Transition
import Mathlib.Data.List.Basic

namespace Applauncherd.Library.Conversation

open Transition

variable {W R ρ ρ' : Type}

/-- A program at one end of a connection. It writes blocks of `W`s and asks for
at most so many `R`s at a time. -/
inductive Prog (W R ρ : Type)
  | ret (r : ρ)
  | send (block : List W) (next : Prog W R ρ)
  | recv (n : ℕ) (next : List R → Prog W R ρ)

namespace Prog

def bind : Prog W R ρ → (ρ → Prog W R ρ') → Prog W R ρ'
  | ret r, f => f r
  | send block p, f => send block (p.bind f)
  | recv n k, f => recv n fun xs ↦ (k xs).bind f

def ended : Prog W R ρ → Bool
  | ret _ => true
  | _ => false

def sendAll : List (List W) → Prog W R ρ → Prog W R ρ
  | [], p => p
  | block :: blocks, p => send block (sendAll blocks p)

/-- A reader on its own. Every request is for exactly the next block. -/
def feed : Prog W R ρ → List (List R) → Option (ρ × List (List R))
  | ret r, blocks => some (r, blocks)
  | recv n k, block :: blocks =>
    if block ≠ [] ∧ block.length = n then (k block).feed blocks else none
  | _, _ => none

end Prog

/-- One system call of one end, on the bytes in flight. A write waits until
there is room for all of it, a read until something has come or the other end
has closed. A write to a closed connection is an error and has no step. -/
def move (room : ℕ) (closed : Bool) :
    Prog W R ρ → List R → List W → Option (Prog W R ρ × List R × List W)
  | .ret _, _, _ => none
  | .send block p, inp, out =>
    if closed = false ∧ (out = [] ∨ out.length + block.length ≤ room) then
      some (p, inp, out ++ block) else none
  | .recv n k, inp, out =>
    if inp = [] ∧ closed = false then none else some (k (inp.take n), inp.drop n, out)

/-- The same with the blocks kept apart. A read takes exactly one of them. -/
def deliver (room : ℕ) (closed : Bool) :
    Prog W R ρ → List (List R) → List (List W) → Option (Prog W R ρ × List (List R) × List (List W))
  | .ret _, _, _ => none
  | .send block p, inp, out =>
    if out.flatten = [] ∨ out.flatten.length + block.length ≤ room then
      some (p, inp, out ++ [block]) else none
  | .recv n k, block :: inp, out =>
    if block ≠ [] ∧ block.length = n then some (k block, inp, out) else none
  | .recv _ k, [], out => if closed then some (k [], [], out) else none

structure State (A B ρ ρ' α β : Type) where
  left : Prog A B ρ
  right : Prog B A ρ'
  toRight : List α
  toLeft : List β

variable {A B α β : Type}

inductive Side
  | left
  | right
  deriving DecidableEq

abbrev Bytes (A B ρ ρ' : Type) := State A B ρ ρ' A B

abbrev Blocks (A B ρ ρ' : Type) := State A B ρ ρ' (List A) (List B)

def step (room : ℕ) (s : Bytes A B ρ ρ') : Side → Option (Bytes A B ρ ρ')
  | .left => (move room s.right.ended s.left s.toLeft s.toRight).map fun r ↦
      { s with left := r.1, toLeft := r.2.1, toRight := r.2.2 }
  | .right => (move room s.left.ended s.right s.toRight s.toLeft).map fun r ↦
      { s with right := r.1, toRight := r.2.1, toLeft := r.2.2 }

def blockStep (room : ℕ) (s : Blocks A B ρ ρ') : Side → Option (Blocks A B ρ ρ')
  | .left => (deliver room s.right.ended s.left s.toLeft s.toRight).map fun r ↦
      { s with left := r.1, toLeft := r.2.1, toRight := r.2.2 }
  | .right => (deliver room s.left.ended s.right s.toRight s.toLeft).map fun r ↦
      { s with right := r.1, toRight := r.2.1, toLeft := r.2.2 }

def Side.other : Side → Side
  | .left => .right
  | .right => .left

def State.swap (s : State A B ρ ρ' α β) : State B A ρ' ρ β α :=
  ⟨s.right, s.left, s.toLeft, s.toRight⟩

def start (p : Prog A B ρ) (q : Prog B A ρ') : State A B ρ ρ' α β := ⟨p, q, [], []⟩

def finished (r : ρ) (r' : ρ') : State A B ρ ρ' α β := start (.ret r) (.ret r')

theorem blockStep_swap {room : ℕ} {s t : Blocks A B ρ ρ'} {a : Side}
    (h : blockStep room s a = some t) : blockStep room s.swap a.other = some t.swap := by
  cases a
  · obtain ⟨r, hr, rfl⟩ := Option.map_eq_some_iff.mp h
    exact Option.map_eq_some_iff.mpr ⟨r, hr, rfl⟩
  · obtain ⟨r, hr, rfl⟩ := Option.map_eq_some_iff.mp h
    exact Option.map_eq_some_iff.mpr ⟨r, hr, rfl⟩

def Ending (room : ℕ) (s : Blocks A B ρ ρ') (r : ρ) (r' : ρ') (l : List Side) : Prop :=
  Run (blockStep room) Any s l (finished r r')

section

variable {room : ℕ} {s : Blocks A B ρ ρ'} {r : ρ} {r' : ρ'} {l : List Side}

theorem Ending.swap (h : Ending room s r r' l) : Ending room s.swap r' r (l.map Side.other) := by
  have key : ∀ {s t : Blocks A B ρ ρ'} {l : List Side}, Run (blockStep room) Any s l t →
      Run (blockStep room) Any s.swap (l.map Side.other) t.swap := by
    intro s t l hrun
    induction hrun with
    | nil s => exact .nil _
    | cons _ hst _ ih => exact .cons trivial (blockStep_swap hst) ih
  exact key h

end

def State.bytes (s : Blocks A B ρ ρ') : Bytes A B ρ ρ' :=
  ⟨s.left, s.right, s.toRight.flatten, s.toLeft.flatten⟩

inductive Meets : Prog A B ρ → Prog B A ρ' → ρ → ρ' → Prop
  | ended (r : ρ) (r' : ρ') : Meets (.ret r) (.ret r') r r'
  | toRight {block : List A} {p : Prog A B ρ} {k : List A → Prog B A ρ'} {r : ρ} {r' : ρ'} :
      block ≠ [] → Meets p (k block) r r' → Meets (.send block p) (.recv block.length k) r r'
  | toLeft {block : List B} {k : List B → Prog A B ρ} {q : Prog B A ρ'} {r : ρ} {r' : ρ'} :
      block ≠ [] → Meets (k block) q r r' → Meets (.recv block.length k) (.send block q) r r'
  | closedLeft {r : ρ} {n : ℕ} {k : List A → Prog B A ρ'} {r' : ρ'} :
      Meets (.ret r) (k []) r r' → Meets (.ret r) (.recv n k) r r'
  | closedRight {n : ℕ} {k : List B → Prog A B ρ} {r : ρ} {r' : ρ'} :
      Meets (k []) (.ret r') r r' → Meets (.recv n k) (.ret r') r r'

theorem Meets.sendAll {blocks : List (List A)} {p : Prog A B ρ} {q : Prog B A ρ'} {σ : Type}
    {f : σ → Prog B A ρ'} {q₁ : Prog B A σ} {v : σ} {r : ρ} {r' : ρ'}
    (hf : q₁.feed blocks = some (v, [])) (hq : q = q₁.bind f) (h : Meets p (f v) r r') :
    Meets (Prog.sendAll blocks p) q r r' := by
  subst hq
  induction blocks generalizing q₁ with
  | nil =>
    cases q₁ with
    | ret v' =>
      cases hf
      exact h
    | send => cases hf
    | recv => cases hf
  | cons block blocks ih =>
    cases q₁ with
    | ret v' => cases hf
    | send => cases hf
    | recv n k =>
      simp only [Prog.feed] at hf
      split_ifs at hf with hb
      obtain ⟨hne, rfl⟩ := hb
      exact .toRight hne (ih hf)

end Applauncherd.Library.Conversation
