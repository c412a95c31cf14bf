import Applauncherd.Library.Path

namespace Applauncherd.Library.FileTree

open Library.Path

variable {ν : Type*}

@[ext]
structure Pathname (ν : Type*) where
  absolute : Bool
  way : List (Component ν)
  deriving DecidableEq, Repr

inductive Node (ν : Type*)
  | directory (mode : UInt32)
  | link (target : Pathname ν)
  | other
  deriving DecidableEq, Repr

abbrev FileSystem (ν : Type*) := Place ν → Option (Node ν)

abbrev Way (ν : Type*) := Place ν → List (Component ν) → Option (Place ν)

def FileSystem.isDirectory (t : FileSystem ν) (p : Place ν) : Bool :=
  match t p with
  | some (.directory _) => true
  | _ => false

def Pathname.start (path : Pathname ν) (cwd : Place ν) : Place ν :=
  if path.absolute then [] else cwd

/-- Going on through directories. From a link on it is `next` that goes on. -/
def follow (t : FileSystem ν) (next : Way ν) : Way ν
  | p, [] => some p
  | p, c :: cs =>
    if t.isDirectory p then
      match c with
      | .here => follow t next p cs
      | .up => follow t next p.dropLast cs
      | .into name =>
        match t (p ++ [name]) with
        | none => none
        | some (.link target) => next (target.start p) (target.way ++ cs)
        | some _ => follow t next (p ++ [name]) cs
    else none

def resolve (t : FileSystem ν) : ℕ → Way ν
  | 0 => follow t fun _ _ ↦ none
  | n + 1 => follow t (resolve t n)

def Extends (t t' : FileSystem ν) : Prop := ∀ p node, t p = some node → t' p = some node

theorem Extends.refl (t : FileSystem ν) : Extends t t := fun _ _ h ↦ h

theorem Extends.trans {t t' t'' : FileSystem ν} (h : Extends t t') (h' : Extends t' t'') :
    Extends t t'' :=
  fun p node hp ↦ h' p node (h p node hp)

theorem Extends.isDirectory {t t' : FileSystem ν} (h : Extends t t') {p : Place ν}
    (hp : t.isDirectory p = true) : t'.isDirectory p = true := by
  unfold FileSystem.isDirectory at hp ⊢
  cases hnode : t p with
  | none => simp [hnode] at hp
  | some node => simpa only [h p node hnode, hnode] using hp

variable {t t' : FileSystem ν} {p q r : Place ν} {cs ds : List (Component ν)}

theorem follow_cons (t : FileSystem ν) (p : Place ν) (c : Component ν) :
    (∀ next cs, follow t next p (c :: cs) = none) ∨
    (∃ p', ∀ t', Extends t t' → ∀ next cs,
      follow t' next p (c :: cs) = follow t' next p' cs) ∨
    ∃ target : Pathname ν, ∀ t', Extends t t' → ∀ next cs,
      follow t' next p (c :: cs) = next (target.start p) (target.way ++ cs) := by
  by_cases hdir : t.isDirectory p = true
  · cases c with
    | here => exact .inr (.inl ⟨p, fun t' h next cs ↦ if_pos (h.isDirectory hdir)⟩)
    | up => exact .inr (.inl ⟨p.dropLast, fun t' h next cs ↦ if_pos (h.isDirectory hdir)⟩)
    | into name =>
      cases hnode : t (p ++ [name]) with
      | none =>
        left
        intro next cs
        simp [follow, hnode]
      | some node =>
        right
        cases node with
        | directory mode =>
          refine .inl ⟨p ++ [name], fun t' h next cs ↦ ?_⟩
          simp [follow, h.isDirectory hdir, h _ _ hnode]
        | other =>
          refine .inl ⟨p ++ [name], fun t' h next cs ↦ ?_⟩
          simp [follow, h.isDirectory hdir, h _ _ hnode]
        | link target =>
          refine .inr ⟨target, fun t' h next cs ↦ ?_⟩
          simp [follow, h.isDirectory hdir, h _ _ hnode]
  · exact .inl fun next cs ↦ if_neg hdir

theorem follow_mono (h : Extends t t') {next next' : Way ν}
    (hnext : ∀ p cs, next p cs = some q → next' p cs = some q)
    (hq : follow t next p cs = some q) : follow t' next' p cs = some q := by
  induction cs generalizing p with
  | nil => exact hq
  | cons c cs ih =>
    obtain hnone | ⟨p', hp'⟩ | ⟨target, htarget⟩ := follow_cons t p c
    · simp [hnone] at hq
    · rw [hp' t (.refl t)] at hq
      rw [hp' t' h]
      exact ih hq
    · rw [htarget t (.refl t)] at hq
      rw [htarget t' h]
      exact hnext _ _ hq

theorem resolve_mono (h : Extends t t') (n : ℕ) (hq : resolve t n p cs = some q) :
    resolve t' n p cs = some q := by
  induction n generalizing p cs with
  | zero => exact follow_mono h (fun _ _ h ↦ by cases h) hq
  | succ n ih => exact follow_mono h (fun _ _ ↦ ih) hq

theorem follow_append {next : Way ν} {F : Place ν → Prop}
    (hnext : ∀ p cs, next p (cs ++ ds) = some q → ∃ r, next p cs = some r ∧ F r)
    (hself : ∀ r, follow t next r ds = some q → F r)
    (hq : follow t next p (cs ++ ds) = some q) : ∃ r, follow t next p cs = some r ∧ F r := by
  induction cs generalizing p with
  | nil => exact ⟨p, rfl, hself p hq⟩
  | cons c cs ih =>
    rw [List.cons_append] at hq
    obtain hnone | ⟨p', hp'⟩ | ⟨target, htarget⟩ := follow_cons t p c
    · simp [hnone] at hq
    · rw [hp' t (.refl t)] at hq ⊢
      exact ih hq
    · rw [htarget t (.refl t), ← List.append_assoc] at hq
      rw [htarget t (.refl t)]
      exact hnext _ _ hq

theorem resolve_append (n : ℕ) (hq : resolve t n p (cs ++ ds) = some q) :
    ∃ r, resolve t n p cs = some r ∧ ∃ m, resolve t m r ds = some q := by
  induction n generalizing p cs with
  | zero => exact follow_append (fun _ _ h ↦ by cases h) (fun r hr ↦ ⟨0, hr⟩) hq
  | succ n ih => exact follow_append (fun _ _ ↦ ih) (fun r hr ↦ ⟨n + 1, hr⟩) hq

theorem follow_trans {next : Way ν}
    (hnext : ∀ p cs, next p cs = some r → next p (cs ++ ds) = some q)
    (hself : follow t next r ds = some q) (hr : follow t next p cs = some r) :
    follow t next p (cs ++ ds) = some q := by
  induction cs generalizing p with
  | nil =>
    cases hr
    exact hself
  | cons c cs ih =>
    rw [List.cons_append]
    obtain hnone | ⟨p', hp'⟩ | ⟨target, htarget⟩ := follow_cons t p c
    · simp [hnone] at hr
    · rw [hp' t (.refl t)] at hr ⊢
      exact ih hr
    · rw [htarget t (.refl t)] at hr
      rw [htarget t (.refl t), ← List.append_assoc]
      exact hnext _ _ hr

theorem resolve_trans (n : ℕ) (hr : resolve t n p cs = some r)
    (hq : ∀ m, resolve t m r ds = some q) : resolve t n p (cs ++ ds) = some q := by
  induction n generalizing p cs with
  | zero => exact follow_trans (fun _ _ h ↦ by cases h) (hq 0) hr
  | succ n ih => exact follow_trans (fun _ _ ↦ ih) (hq (n + 1)) hr

theorem resolve_nil (t : FileSystem ν) (n : ℕ) (p : Place ν) : resolve t n p [] = some p := by
  cases n <;> rfl

theorem isDirectory_of_resolve {m : ℕ} (h : resolve t m r ds = some q)
    (hq : t.isDirectory q = true) : t.isDirectory r = true := by
  cases ds with
  | nil =>
    rw [resolve_nil] at h
    exact Option.some.inj h ▸ hq
  | cons c ds =>
    by_contra hr
    cases m <;> simp [resolve, follow, hr] at h

end Applauncherd.Library.FileTree
