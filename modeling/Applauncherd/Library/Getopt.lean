import Applauncherd.Library.Environ
import Mathlib.Data.List.Infix
import Mathlib.Data.List.TakeWhile
import Mathlib.Tactic.SplitIfs

namespace Applauncherd.Library.Getopt

open Environ

structure LongOption where
  name : Str
  hasArg : Bool
  val : UInt8
  deriving DecidableEq

/-- The options of a program. Each long one has a name and a value of its own. -/
structure Table where
  optstring : Str
  longopts : List LongOption
  names : (longopts.map LongOption.name).Nodup
  vals : (longopts.map LongOption.val).Nodup

inductive Found
  | option (val : UInt8) (optarg : Option Str)
  /-- The character '?'. -/
  | bad
  deriving DecidableEq

/-- What is left to read: the rest of a cluster of short options, and the
elements after it. -/
structure Scan where
  nextchar : Str
  argv : List Str

def dash : UInt8 := 45
def colon : UInt8 := 58
def semicolon : UInt8 := 59

/-- "--" -/
def dashes : Str := [dash, dash]

def shortOption (optstring : Str) (c : UInt8) : Option Bool :=
  if c = colon ∨ c = semicolon then none
  else
    match optstring.dropWhile (· ≠ c) with
    | [] => none
    | _ :: rest => some (rest.head? == some colon)

def shortScan (t : Table) (c : UInt8) (nextchar : Str) (argv : List Str) : Found × Scan :=
  match shortOption t.optstring c with
  | none => (.bad, ⟨nextchar, argv⟩)
  | some false => (.option c none, ⟨nextchar, argv⟩)
  | some true =>
    if nextchar ≠ [] then (.option c (some nextchar), ⟨[], argv⟩)
    else
      match argv with
      | [] => (.bad, ⟨[], []⟩)
      | arg :: argv => (.option c (some arg), ⟨[], argv⟩)

/-- An exact match is taken first, then one that is not ambiguous. -/
def lookupLong (longopts : List LongOption) (key : Str) : Option LongOption :=
  match longopts.find? (·.name = key) with
  | some p => some p
  | none =>
    match longopts.filter (key.isPrefixOf ·.name) with
    | [] => none
    | p :: ps => if ps.all fun q ↦ q.hasArg = p.hasArg ∧ q.val = p.val then some p else none

def longScan (t : Table) (nextchar : Str) (argv : List Str) : Found × Scan :=
  match lookupLong t.longopts (nextchar.takeWhile (· ≠ equals)) with
  | none => (.bad, ⟨[], argv⟩)
  | some p =>
    match nextchar.dropWhile (· ≠ equals) with
    | _ :: optarg =>
      if p.hasArg then (.option p.val (some optarg), ⟨[], argv⟩) else (.bad, ⟨[], argv⟩)
    | [] =>
      if p.hasArg then
        match argv with
        | [] => (.bad, ⟨[], []⟩)
        | arg :: argv => (.option p.val (some arg), ⟨[], argv⟩)
      else (.option p.val none, ⟨[], argv⟩)

def nonOption (arg : Str) : Prop := arg.head? ≠ some dash ∨ arg.tail = []

instance (arg : Str) : Decidable (nonOption arg) := inferInstanceAs (Decidable (_ ∨ _))

/-- `getopt_long` where POSIXLY_CORRECT is set, or `none` where it returns -1. The
option string has no `::` and no `W;`. -/
def getoptLong (t : Table) : Scan → Option (Found × Scan)
  | ⟨c :: cs, argv⟩ => some (shortScan t c cs argv)
  | ⟨[], []⟩ => none
  | ⟨[], arg :: argv⟩ =>
    if arg = dashes ∨ nonOption arg then none
    else
      match arg.tail with
      | [] => none
      | c :: cs => some (if c = dash then longScan t cs argv else shortScan t c cs argv)

def operands (s : Scan) : List Str :=
  match s.argv with
  | [] => []
  | arg :: argv => if arg = dashes then argv else arg :: argv

def scan (t : Table) : ℕ → Scan → List Found × List Str
  | 0, s => ([], operands s)
  | n + 1, s =>
    match getoptLong t s with
    | none => ([], operands s)
    | some (f, s) => (f :: (scan t n s).1, (scan t n s).2)

def Scan.size (s : Scan) : ℕ := s.nextchar.length + s.argv.flatten.length + s.argv.length

/-- What the calls find until one returns -1, and the elements that are left:
every call reads a character at least. -/
def parse (t : Table) (argv : List Str) : List Found × List Str :=
  scan t ((⟨[], argv⟩ : Scan).size + 1) ⟨[], argv⟩

variable {t : Table} {s s' : Scan} {f : Found} {os os' : List Found} {argv ws rest : List Str}

inductive Cluster (t : Table) : List Found → Str → List Str → Prop
  | flag {c : UInt8} (h : shortOption t.optstring c = some false) :
      Cluster t [.option c none] [c] []
  | more {c : UInt8} {os : List Found} {cs : Str} {ws : List Str}
      (h : shortOption t.optstring c = some false) (hcs : Cluster t os cs ws) :
      Cluster t (.option c none :: os) (c :: cs) ws
  | attached {c : UInt8} {arg : Str} (h : shortOption t.optstring c = some true) (ha : arg ≠ []) :
      Cluster t [.option c (some arg)] (c :: arg) []
  | separate {c : UInt8} (arg : Str) (h : shortOption t.optstring c = some true) :
      Cluster t [.option c (some arg)] [c] [arg]

/-- A long option may be shortened as long as no other begins in the same way. -/
structure Abbreviates (t : Table) (key : Str) (p : LongOption) : Prop where
  mem : p ∈ t.longopts
  begins : key <+: p.name
  only : p.name = key ∨ ∀ q ∈ t.longopts, key <+: q.name → q = p

inductive Word (t : Table) : List Found → List Str → Prop
  | short {os : List Found} {cs : Str} {ws : List Str} (hd : cs.head? ≠ some dash)
      (h : Cluster t os cs ws) : Word t os ((dash :: cs) :: ws)
  | long {key : Str} {p : LongOption} (h : Abbreviates t key p) (hk : equals ∉ key) (hne : key ≠ [])
      (ha : p.hasArg = false) : Word t [.option p.val none] [dash :: dash :: key]
  | longAttached {key : Str} {p : LongOption} (arg : Str) (h : Abbreviates t key p)
      (hk : equals ∉ key) (ha : p.hasArg = true) :
      Word t [.option p.val (some arg)] [dash :: dash :: (key ++ equals :: arg)]
  | longSeparate {key : Str} {p : LongOption} (arg : Str) (h : Abbreviates t key p)
      (hk : equals ∉ key) (hne : key ≠ []) (ha : p.hasArg = true) :
      Word t [.option p.val (some arg)] [dash :: dash :: key, arg]

inductive Words (t : Table) : List Found → List Str → Prop
  | nil : Words t [] []
  | cons {os os' : List Found} {ws ws' : List Str} (h : Word t os ws) (hs : Words t os' ws') :
      Words t (os ++ os') (ws ++ ws')

def Ends (argv words rest : List Str) : Prop :=
  argv = words ++ rest ∧ (∀ arg, rest.head? = some arg → nonOption arg) ∨
    argv = words ++ dashes :: rest

theorem mem_inj {α : Type} {g : LongOption → α} {l : List LongOption} (h : (l.map g).Nodup)
    {p q : LongOption} (hp : p ∈ l) (hq : q ∈ l) (heq : g p = g q) : p = q :=
  List.inj_on_of_nodup_map h hp hq heq

theorem lookupLong_iff (t : Table) (key : Str) (p : LongOption) :
    lookupLong t.longopts key = some p ↔ Abbreviates t key p := by
  have hmem : ∀ q, q ∈ t.longopts.filter (key.isPrefixOf ·.name) ↔ q ∈ t.longopts ∧ key <+: q.name := by
    intro q
    rw [List.mem_filter, List.isPrefixOf_iff_prefix]
  unfold lookupLong
  cases hfind : t.longopts.find? (·.name = key) with
  | some q =>
    have hq := List.mem_of_find?_eq_some hfind
    have hname : q.name = key := by simpa using List.find?_some hfind
    simp only [Option.some.injEq]
    constructor
    · rintro rfl
      exact ⟨hq, hname ▸ List.prefix_refl _, .inl hname⟩
    · intro h
      obtain hp | honly := h.only
      · exact mem_inj t.names hq h.mem (hname.trans hp.symm)
      · exact honly q hq (hname ▸ List.prefix_refl _)
  | none =>
    have hno : ∀ q ∈ t.longopts, q.name ≠ key := by simpa using List.find?_eq_none.mp hfind
    cases hfilter : t.longopts.filter (key.isPrefixOf ·.name) with
    | nil =>
      refine iff_of_false nofun fun h ↦ ?_
      have hp := (hmem p).mpr ⟨h.mem, h.begins⟩
      rw [hfilter] at hp
      exact absurd hp List.not_mem_nil
    | cons q qs =>
      have hq := (hmem q).mp (hfilter ▸ List.mem_cons_self)
      have hqs : ∀ q' ∈ qs, q' ∈ t.longopts ∧ key <+: q'.name := fun q' h ↦
        (hmem q').mp (hfilter ▸ List.mem_cons_of_mem q h)
      dsimp only
      split_ifs with hall
      · rw [Option.some.injEq]
        constructor
        · rintro rfl
          refine ⟨hq.1, hq.2, .inr fun q' hq' hb ↦ ?_⟩
          have hin := (hmem q').mpr ⟨hq', hb⟩
          rw [hfilter] at hin
          obtain rfl | hin := List.mem_cons.mp hin
          · rfl
          · have hsame := of_decide_eq_true (List.all_eq_true.mp hall q' hin)
            exact mem_inj t.vals hq' hq.1 hsame.2
        · intro h
          obtain hp | honly := h.only
          · exact absurd hp (hno p h.mem)
          · exact honly q hq.1 hq.2
      · refine iff_of_false nofun fun h ↦ hall ?_
        obtain hp | honly := h.only
        · exact absurd hp (hno p h.mem)
        · rw [List.all_eq_true]
          intro q' hq'
          obtain rfl := honly q hq.1 hq.2
          obtain rfl := honly q' (hqs q' hq').1 (hqs q' hq').2
          simp

inductive Scans (t : Table) : Scan → List Found → List Str → Prop
  | stop {s : Scan} (h : getoptLong t s = none) : Scans t s [] (operands s)
  | step {s s' : Scan} {f : Found} {os : List Found} {rest : List Str}
      (h : getoptLong t s = some (f, s')) (hs : Scans t s' os rest) : Scans t s (f :: os) rest

theorem Scans.unique (h : Scans t s os rest) {rest' : List Str} (h' : Scans t s os' rest') :
    os = os' ∧ rest = rest' := by
  induction h generalizing os' with
  | stop hn =>
    cases h' with
    | stop => exact ⟨rfl, rfl⟩
    | step hf => rw [hn] at hf; cases hf
  | step hf _ ih =>
    cases h' with
    | stop hn => rw [hn] at hf; cases hf
    | step hf' hs =>
      rw [hf] at hf'
      cases hf'
      obtain ⟨rfl, rfl⟩ := ih hs
      exact ⟨rfl, rfl⟩

theorem shortScan_size (t : Table) (c : UInt8) (cs : Str) (argv : List Str) :
    (shortScan t c cs argv).2.size ≤ (⟨cs, argv⟩ : Scan).size := by
  unfold shortScan
  split
  · exact le_rfl
  · exact le_rfl
  · split_ifs
    · simp [Scan.size]
    · split
      · simp [Scan.size]
      · simp [Scan.size]
        omega

theorem longScan_size (t : Table) (nextchar : Str) (argv : List Str) :
    (longScan t nextchar argv).2.size ≤ (⟨[], argv⟩ : Scan).size := by
  unfold longScan
  split
  · exact le_rfl
  · split
    · split_ifs <;> exact le_rfl
    · split_ifs
      · split
        · exact le_rfl
        · simp [Scan.size]
          omega
      · exact le_rfl

theorem getoptLong_size (h : getoptLong t s = some (f, s')) : s'.size < s.size := by
  obtain ⟨nextchar, argv⟩ := s
  cases nextchar with
  | cons c cs =>
    have hle := shortScan_size t c cs argv
    simp only [getoptLong, Option.some.injEq] at h
    rw [h] at hle
    simp only [Scan.size, List.length_cons] at hle ⊢
    omega
  | nil =>
    cases argv with
    | nil => cases h
    | cons arg argv =>
      simp only [getoptLong] at h
      split_ifs at h
      split at h
      · cases h
      · rename_i c cs htail
        have hlen : arg.length = cs.length + 2 := by
          cases arg with
          | nil => cases htail
          | cons a arg => simpa using congrArg List.length htail
        have hle : s'.size ≤ (⟨cs, argv⟩ : Scan).size := by
          split_ifs at h
          · have hlong := longScan_size t cs argv
            rw [Option.some.inj h] at hlong
            simp only [Scan.size, List.length_nil] at hlong ⊢
            omega
          · have hshort := shortScan_size t c cs argv
            rwa [Option.some.inj h] at hshort
        simp only [Scan.size, List.length_nil, List.flatten_cons, List.length_append,
          List.length_cons] at hle ⊢
        omega

theorem scan_scans (n : ℕ) (s : Scan) (h : s.size < n) :
    Scans t s (scan t n s).1 (scan t n s).2 := by
  induction n generalizing s with
  | zero => omega
  | succ n ih =>
    unfold scan
    split
    · exact .stop ‹_›
    · rename_i f s' hs
      have hlt := getoptLong_size hs
      exact .step hs (ih s' (by omega))

theorem parse_iff : parse t argv = (os, rest) ↔ Scans t ⟨[], argv⟩ os rest := by
  have h := scan_scans (t := t) _ ⟨[], argv⟩ (Nat.lt_succ_self _)
  constructor
  · intro hp
    rw [← parse, hp] at h
    exact h
  · intro hs
    obtain ⟨ho, hr⟩ := h.unique hs
    exact Prod.ext ho hr

theorem Cluster.ne_nil {cs : Str} (h : Cluster t os cs ws) : cs ≠ [] := by
  cases h <;> exact List.cons_ne_nil _ _

theorem Cluster.scans {cs : Str} (h : Cluster t os cs ws) (hs : Scans t ⟨[], argv⟩ os' rest) :
    Scans t ⟨cs, ws ++ argv⟩ (os ++ os') rest := by
  induction h with
  | flag hf => exact .step (by simp [getoptLong, shortScan, hf]) hs
  | more hf _ ih => exact .step (by simp [getoptLong, shortScan, hf]) ih
  | attached ha hne => exact .step (by simp [getoptLong, shortScan, ha, hne]) hs
  | separate arg ha => exact .step (by simp [getoptLong, shortScan, ha]) hs

theorem Cluster.getoptLong {cs : Str} (h : Cluster t os cs ws) (hd : cs.head? ≠ some dash)
    (argv : List Str) : getoptLong t ⟨[], (dash :: cs) :: argv⟩ = getoptLong t ⟨cs, argv⟩ := by
  obtain ⟨c, cs', rfl⟩ := List.exists_cons_of_ne_nil h.ne_nil
  have hc : c ≠ dash := fun hc ↦ hd (by rw [hc]; rfl)
  have hno : ¬((dash :: c :: cs') = dashes ∨ nonOption (dash :: c :: cs')) := by
    simp [dashes, nonOption, hc]
  simp only [Getopt.getoptLong, if_neg hno, List.tail_cons, if_neg hc]

theorem key_all {key : Str} (hk : equals ∉ key) : ∀ b ∈ key, decide (b ≠ equals) = true :=
  fun _ hb ↦ decide_eq_true fun h ↦ hk (h ▸ hb)

theorem takeWhile_key {key : Str} (hk : equals ∉ key) (tail : Str) :
    (key ++ equals :: tail).takeWhile (· ≠ equals) = key ∧
      (key ++ equals :: tail).dropWhile (· ≠ equals) = equals :: tail := by
  rw [List.takeWhile_append_of_pos (key_all hk), List.dropWhile_append_of_pos (key_all hk)]
  simp

theorem takeWhile_whole {key : Str} (hk : equals ∉ key) :
    key.takeWhile (· ≠ equals) = key ∧ key.dropWhile (· ≠ equals) = [] :=
  ⟨List.takeWhile_eq_self_iff.mpr (key_all hk), List.dropWhile_eq_nil_iff.mpr (key_all hk)⟩

theorem getoptLong_long {key : Str} (hne : key ≠ []) (argv : List Str) :
    getoptLong t ⟨[], (dash :: dash :: key) :: argv⟩ = some (longScan t key argv) := by
  have hno : ¬((dash :: dash :: key) = dashes ∨ nonOption (dash :: dash :: key)) := by
    simp [dashes, nonOption, hne]
  simp only [getoptLong, if_neg hno, List.tail_cons, if_true]

theorem Scans.of_getoptLong (hs : Scans t s' os rest) (h : getoptLong t s = getoptLong t s')
    (hsome : getoptLong t s' ≠ none) : Scans t s os rest := by
  cases hs with
  | stop hn => exact absurd hn hsome
  | step hf hrest => exact .step (h.trans hf) hrest

theorem Word.scans (h : Word t os ws) (hs : Scans t ⟨[], argv⟩ os' rest) :
    Scans t ⟨[], ws ++ argv⟩ (os ++ os') rest := by
  cases h with
  | short hd hc =>
    refine (hc.scans hs).of_getoptLong (hc.getoptLong hd _) ?_
    obtain ⟨c, cs, rfl⟩ := List.exists_cons_of_ne_nil hc.ne_nil
    exact Option.some_ne_none _
  | long h hk hne ha =>
    obtain ⟨htake, hdrop⟩ := takeWhile_whole hk
    refine .step ?_ hs
    rw [List.cons_append, getoptLong_long hne]
    simp only [longScan, htake, hdrop, (lookupLong_iff t _ _).mpr h, ha, Bool.false_eq_true, if_false,
      List.nil_append]
  | longAttached arg h hk ha =>
    obtain ⟨htake, hdrop⟩ := takeWhile_key hk arg
    refine .step ?_ hs
    rw [List.cons_append, getoptLong_long (by simp)]
    simp only [longScan, htake, hdrop, (lookupLong_iff t _ _).mpr h, ha, if_true, List.nil_append]
  | longSeparate arg h hk hne ha =>
    obtain ⟨htake, hdrop⟩ := takeWhile_whole hk
    refine .step ?_ hs
    rw [List.cons_append, getoptLong_long hne]
    simp only [longScan, htake, hdrop, (lookupLong_iff t _ _).mpr h, ha, if_true, List.nil_append,
      List.cons_append]

theorem Words.scans (h : Words t os ws) (hs : Scans t ⟨[], argv⟩ os' rest) :
    Scans t ⟨[], ws ++ argv⟩ (os ++ os') rest := by
  induction h with
  | nil => exact hs
  | cons hw _ ih =>
    rw [List.append_assoc, List.append_assoc]
    exact hw.scans ih

theorem scans_end {argv rest : List Str} (h : Ends argv [] rest) : Scans t ⟨[], argv⟩ [] rest := by
  obtain ⟨rfl, hno⟩ | rfl := h
  · have hdashes : ∀ arg, nonOption arg → arg ≠ dashes := by
      rintro arg hn rfl
      revert hn
      decide
    have hoperands : operands ⟨[], argv⟩ = argv := by
      cases argv with
      | nil => rfl
      | cons arg args => exact if_neg (hdashes arg (hno arg rfl))
    have hstop : Scans t ⟨[], argv⟩ [] (operands ⟨[], argv⟩) := by
      refine .stop ?_
      cases argv with
      | nil => rfl
      | cons arg args => exact if_pos (.inr (hno arg rfl))
    rwa [hoperands] at hstop
  · have hstop : getoptLong t ⟨[], dashes :: rest⟩ = none := by simp [getoptLong]
    exact .stop hstop

def WellFormed (t : Table) (s : Scan) (os : List Found) (rest : List Str) : Prop :=
  ∃ os₁ os₂ ws argv words, os = os₁ ++ os₂ ∧ s.argv = ws ++ argv ∧
    (if s.nextchar = [] then os₁ = [] ∧ ws = [] else Cluster t os₁ s.nextchar ws) ∧
    Words t os₂ words ∧ Ends argv words rest

theorem shortScan_wellFormed {c : UInt8} {cs : Str} (h : shortScan t c cs argv = (f, s'))
    (hf : f ≠ .bad) (hs : WellFormed t s' os rest) : WellFormed t ⟨c :: cs, argv⟩ (f :: os) rest := by
  obtain ⟨os₁, os₂, ws, argv', words, rfl, hargv, hcluster, hwords, hends⟩ := hs
  unfold shortScan at h
  split at h
  · cases h
    exact absurd rfl hf
  · rename_i hc
    cases h
    refine ⟨.option c none :: os₁, os₂, ws, argv', words, rfl, hargv, ?_, hwords, hends⟩
    rw [if_neg (List.cons_ne_nil _ _)]
    split_ifs at hcluster with hnil
    · obtain ⟨rfl, rfl⟩ := hcluster
      obtain rfl : cs = [] := hnil
      exact .flag hc
    · exact .more hc hcluster
  · rename_i hc
    split_ifs at h with hne
    · cases h
      obtain ⟨rfl, rfl⟩ : os₁ = [] ∧ ws = [] := hcluster
      refine ⟨[.option c (some cs)], os₂, [], argv', words, rfl, hargv, ?_, hwords, hends⟩
      rw [if_neg (List.cons_ne_nil _ _)]
      exact .attached hc hne
    · obtain rfl : cs = [] := by simpa using hne
      split at h
      · cases h
        exact absurd rfl hf
      · rename_i arg argv
        cases h
        obtain ⟨rfl, rfl⟩ : os₁ = [] ∧ ws = [] := hcluster
        refine ⟨[.option c (some arg)], os₂, [arg], argv', words, rfl, ?_, ?_, hwords, hends⟩
        · exact congrArg (arg :: ·) hargv
        · rw [if_neg (List.cons_ne_nil _ _)]
          exact .separate arg hc

theorem WellFormed.word (hs : WellFormed t ⟨[], argv⟩ os' rest) (hw : Word t os ws) :
    WellFormed t ⟨[], ws ++ argv⟩ (os ++ os') rest := by
  obtain ⟨os₁, os₂, ws₁, argv', words, rfl, hargv, hnil, hwords, hends⟩ := hs
  obtain ⟨rfl, rfl⟩ : os₁ = [] ∧ ws₁ = [] := hnil
  obtain rfl : argv = argv' := hargv
  refine ⟨[], os ++ os₂, [], ws ++ argv, ws ++ words, rfl, rfl, ⟨rfl, rfl⟩, .cons hw hwords, ?_⟩
  obtain ⟨rfl, hno⟩ | rfl := hends
  · exact .inl ⟨(List.append_assoc _ _ _).symm, hno⟩
  · exact .inr (List.append_assoc _ _ _).symm

theorem Cluster.good {cs : Str} (h : Cluster t os cs ws) : .bad ∉ os := by
  induction h with
  | more _ _ ih => simpa using ih
  | _ => simp

theorem Words.good (h : Words t os ws) : .bad ∉ os := by
  induction h with
  | nil => exact List.not_mem_nil
  | cons hw _ ih =>
    refine List.not_mem_append ?_ ih
    cases hw with
    | short _ hc => exact hc.good
    | _ => simp

theorem longScan_word {key : Str} (h : longScan t key argv = (f, s')) (hf : f ≠ .bad)
    (hne : key ≠ []) : ∃ ws, s'.nextchar = [] ∧ Word t [f] ((dash :: dash :: key) :: ws) ∧
      argv = ws ++ s'.argv := by
  have hsplit : key.takeWhile (· ≠ equals) ++ key.dropWhile (· ≠ equals) = key :=
    List.takeWhile_append_dropWhile
  have hk : equals ∉ key.takeWhile (· ≠ equals) := fun hm ↦ by simpa using List.mem_takeWhile_imp hm
  unfold longScan at h
  split at h
  · cases h
    exact absurd rfl hf
  · rename_i p hp
    have habbr := (lookupLong_iff t _ _).mp hp
    split at h
    · rename_i b optarg hdrop
      split_ifs at h with ha
      · cases h
        obtain rfl : b = equals := by
          have := List.head?_dropWhile_not (fun b : UInt8 ↦ decide (b ≠ equals)) key
          rw [hdrop] at this
          simpa using this
        refine ⟨[], rfl, ?_, rfl⟩
        have hword := Word.longAttached optarg habbr hk ha
        rwa [← hdrop, hsplit] at hword
      · cases h
        exact absurd rfl hf
    · rename_i hdrop
      rw [hdrop, List.append_nil] at hsplit
      rw [hsplit] at habbr hk
      split_ifs at h with ha
      · split at h
        · cases h
          exact absurd rfl hf
        · rename_i arg argv
          cases h
          exact ⟨[arg], rfl, .longSeparate arg habbr hk hne ha, rfl⟩
      · cases h
        exact ⟨[], rfl, .long habbr hk hne (by simpa using ha), rfl⟩

theorem Scans.wellFormed (h : Scans t s os rest) (hb : .bad ∉ os) : WellFormed t s os rest := by
  induction h with
  | stop hn =>
    rename_i s
    obtain ⟨nextchar, argv⟩ := s
    cases nextchar with
    | cons c cs => cases hn
    | nil =>
      refine ⟨[], [], [], argv, [], rfl, rfl, ⟨rfl, rfl⟩, .nil, ?_⟩
      cases argv with
      | nil => exact .inl ⟨rfl, nofun⟩
      | cons arg argv =>
        by_cases hd : arg = dashes
        · exact .inr (by simp [operands, hd])
        · refine .inl ⟨by simp [operands, hd], fun arg' h ↦ ?_⟩
          obtain rfl : arg = arg' := by simpa [operands, hd] using h
          by_contra hno
          simp only [getoptLong, if_neg (not_or.mpr ⟨hd, hno⟩)] at hn
          split at hn
          · exact hno (.inr ‹_›)
          · cases hn
  | step hf hs ih =>
    rename_i s s' f os rest
    obtain ⟨hbf, hb⟩ := not_or.mp (mt List.mem_cons.mpr hb)
    have ih := ih hb
    obtain ⟨nextchar, argv⟩ := s
    cases nextchar with
    | cons c cs => exact shortScan_wellFormed (Option.some.inj hf) (Ne.symm hbf) ih
    | nil =>
      cases argv with
      | nil => cases hf
      | cons arg argv =>
        simp only [getoptLong] at hf
        split_ifs at hf with hno
        obtain ⟨-, hopt⟩ := not_or.mp hno
        obtain ⟨hhead, htail⟩ := not_or.mp hopt
        split at hf
        · contradiction
        · rename_i c cs hcs
          obtain rfl : arg = dash :: c :: cs := by
            cases arg with
            | nil => cases hcs
            | cons b arg => simp_all
          split_ifs at hf with hc
          · subst hc
            have hne : cs ≠ [] := fun h ↦ hno (.inl (by rw [h]; rfl))
            obtain ⟨ws, hnext, hword, rfl⟩ := longScan_word (Option.some.inj hf) (Ne.symm hbf) hne
            obtain ⟨nextchar, argv⟩ := s'
            obtain rfl : nextchar = [] := hnext
            exact ih.word hword
          · obtain ⟨os₁, os₂, ws, argv', words, hos, hargv, hcluster, hwords, hends⟩ :=
              shortScan_wellFormed (Option.some.inj hf) (Ne.symm hbf) ih
            obtain rfl : argv = ws ++ argv' := hargv
            rw [if_neg (List.cons_ne_nil _ _)] at hcluster
            rw [hos]
            have hrest : WellFormed t ⟨[], argv'⟩ os₂ rest :=
              ⟨[], os₂, [], argv', words, rfl, rfl, ⟨rfl, rfl⟩, hwords, hends⟩
            exact hrest.word (.short (by simpa using hc) hcluster)

/-- Where no option is bad, the elements are options one after the other, each
written in one of the ways there are, up to the first element that is none or up
to "--"; and whatever is written in this way is read back. -/
theorem parse_wellFormed_iff : parse t argv = (os, rest) ∧ .bad ∉ os ↔
    ∃ words, Words t os words ∧ Ends argv words rest := by
  rw [parse_iff]
  constructor
  · rintro ⟨hs, hb⟩
    obtain ⟨os₁, os₂, ws, argv', words, rfl, hargv, hnil, hwords, hends⟩ := hs.wellFormed hb
    obtain ⟨rfl, rfl⟩ : os₁ = [] ∧ ws = [] := hnil
    obtain rfl : argv = argv' := hargv
    exact ⟨words, hwords, hends⟩
  · rintro ⟨words, hwords, hends⟩
    refine ⟨?_, hwords.good⟩
    obtain ⟨rfl, hno⟩ | rfl := hends
    · simpa using hwords.scans (scans_end (.inl ⟨rfl, hno⟩))
    · simpa using hwords.scans (scans_end (.inr rfl))

end Applauncherd.Library.Getopt
