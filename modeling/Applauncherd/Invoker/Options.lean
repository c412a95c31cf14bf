import Applauncherd.Protocol
import Applauncherd.Library.Environ

namespace Applauncherd.Invoker.Options

open Library Library.Environ Protocol

inductive AppType
  | mApp | qtApp | qdeclApp | unknownApp
  deriving DecidableEq, Repr

inductive Opt
  | help
  | creds
  | waitTerm
  | noWait
  | globalSyms
  | deepSyms
  | singleInstance
  | type (arg : Str)
  | delay (arg : Str)
  | respawn (arg : Str)
  | unknown
  deriving DecidableEq, Repr

structure Settings where
  appType : AppType
  magicOptions : UInt32
  waitTerm : Bool
  delay : UInt32
  respawnDelay : UInt32
  deriving DecidableEq, Repr

def defaultDelay : UInt32 := 0
def respawnDelay : UInt32 := 3
def maxRespawnDelay : UInt32 := 10

def Settings.initial : Settings :=
  ⟨.unknownApp, 0 ||| invokerMsgMagicOptionWait, true, defaultDelay, Options.respawnDelay⟩

def ulongMax : ℕ := 2 ^ 64 - 1

def isSpace (b : UInt8) : Bool := b == 32 || 9 ≤ b && b ≤ 13

def isDigit (b : UInt8) : Bool := 48 ≤ b && b ≤ 57

def digits (s : Str) : ℕ := (s.takeWhile isDigit).foldl (fun n d ↦ 10 * n + (d.toNat - 48)) 0

/-- `strtoul` in base ten, and whether it sets ERANGE. A number with a minus
sign is negated as an unsigned one. -/
def strtoul (s : Str) : ℕ × Bool :=
  match s.dropWhile isSpace with
  | 45 :: s => if digits s ≤ ulongMax then ((2 ^ 64 - digits s) % 2 ^ 64, false) else (ulongMax, true)
  | 43 :: s => if digits s ≤ ulongMax then (digits s, false) else (ulongMax, true)
  | s => if digits s ≤ ulongMax then (digits s, false) else (ulongMax, true)

/-- `get_delay`, or `none` where it prints the usage. The result of `strtoul`
is cut to 32 bits before it is compared. -/
def getDelay (arg : Str) : Option UInt32 :=
  let (value, erange) := strtoul arg
  let delay := UInt32.ofNat value
  if (erange ∧ delay.toNat = ulongMax) ∨ delay = 0 then none else some delay

def appTypeOf (arg : Str) : Option AppType :=
  if arg = [109] then some .mApp
  else if arg = [113] ∨ arg = [113, 116] then some .qtApp
  else if arg = [100] then some .qdeclApp
  else none

def parseOpt (s : Settings) : Opt → Except ℕ Settings
  | .help => .error 0
  | .creds => .error 0
  | .waitTerm => .ok s
  | .noWait => .ok { s with
      waitTerm := false
      magicOptions := s.magicOptions &&& ~~~invokerMsgMagicOptionWait }
  | .globalSyms => .ok { s with
      magicOptions := s.magicOptions ||| invokerMsgMagicOptionDlopenGlobal }
  | .deepSyms => .ok { s with
      magicOptions := s.magicOptions ||| invokerMsgMagicOptionDlopenDeep }
  | .singleInstance => .ok { s with
      magicOptions := s.magicOptions ||| invokerMsgMagicOptionSingleInstance }
  | .type arg =>
    match appTypeOf arg with
    | none => .error 1
    | some t => .ok { s with appType := t }
  | .delay arg =>
    match getDelay arg with
    | none => .error 1
    | some d => .ok { s with delay := d }
  | .respawn arg =>
    match getDelay arg with
    | none => .error 1
    | some d => if maxRespawnDelay < d then .error 1 else .ok { s with respawnDelay := d }
  | .unknown => .error 1

def parseOpts (opts : List Opt) : Except ℕ Settings := opts.foldlM parseOpt Settings.initial

structure Consistent (s : Settings) : Prop where
  bits : s.magicOptions &&& invokerMsgMagicOptionMask = s.magicOptions
  wait : s.waitTerm = (s.magicOptions &&& invokerMsgMagicOptionWait != 0)

theorem Consistent.or {s : Settings} (h : Consistent s) {bit : UInt32}
    (hb : bit &&& invokerMsgMagicOptionMask = bit) (hw : bit &&& invokerMsgMagicOptionWait = 0) :
    Consistent { s with magicOptions := s.magicOptions ||| bit } where
  bits := by simp only [Word.or_and, h.bits, hb]
  wait := by simp only [Word.or_and, hw, UInt32.or_zero, h.wait]

theorem Consistent.noWait {s : Settings} (h : Consistent s) :
    Consistent { s with
      waitTerm := false
      magicOptions := s.magicOptions &&& ~~~invokerMsgMagicOptionWait } where
  bits := by
    simp only [UInt32.and_assoc]
    rw [UInt32.and_comm (~~~invokerMsgMagicOptionWait), ← UInt32.and_assoc, h.bits]
  wait := by
    have hz : ~~~invokerMsgMagicOptionWait &&& invokerMsgMagicOptionWait = 0 := by decide
    simp [UInt32.and_assoc, hz]

theorem parseOpt_consistent {s t : Settings} {opt : Opt} (h : Consistent s)
    (ht : parseOpt s opt = .ok t) : Consistent t := by
  cases opt <;> simp only [parseOpt] at ht
  case help => cases ht
  case creds => cases ht
  case unknown => cases ht
  case waitTerm =>
    cases ht
    exact h
  case noWait =>
    cases ht
    exact h.noWait
  case globalSyms =>
    cases ht
    exact h.or (by decide) (by decide)
  case deepSyms =>
    cases ht
    exact h.or (by decide) (by decide)
  case singleInstance =>
    cases ht
    exact h.or (by decide) (by decide)
  case type arg =>
    split at ht <;> cases ht
    exact ⟨h.bits, h.wait⟩
  case delay arg =>
    split at ht <;> cases ht
    exact ⟨h.bits, h.wait⟩
  case respawn arg =>
    split at ht
    · cases ht
    · split_ifs at ht
      cases ht
      exact ⟨h.bits, h.wait⟩

theorem foldlM_consistent {opts : List Opt} {s t : Settings} (h : Consistent s)
    (ht : opts.foldlM parseOpt s = .ok t) : Consistent t := by
  induction opts generalizing s with
  | nil =>
    cases ht
    exact h
  | cons opt opts ih =>
    rw [List.foldlM_cons] at ht
    cases hs : parseOpt s opt with
    | error status =>
      rw [hs] at ht
      cases ht
    | ok u =>
      rw [hs] at ht
      exact ih (parseOpt_consistent h hs) ht

/-- Whatever the options, the wait decision and the magic bit agree. -/
theorem parseOpts_consistent {opts : List Opt} {s : Settings} (h : parseOpts opts = .ok s) :
    Consistent s :=
  foldlM_consistent ⟨by decide, by decide⟩ h

end Applauncherd.Invoker.Options
