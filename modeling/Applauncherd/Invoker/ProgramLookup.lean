import Applauncherd.Invoker.Search

namespace Applauncherd.Invoker.ProgramLookup

open Library.Environ Library.Path Search

inductive Refusal
  | died (d : Died)
  | notFound (progName : Str)
  | notAFile (progName : Str)
  deriving DecidableEq, Repr

/-- How `main` comes by the program. `stat` follows links, so that `S_ISLNK` does
not hold of what it finds. -/
def lookupProgram (sh : Shell) (progname : Str) : Except Refusal Str :=
  match searchProgram sh progname with
  | .error d => .error (.died d)
  | .ok progName =>
    match sh.file progName with
    | none => .error (.notFound progName)
    | some fileStat =>
      if fileStat.type = .regular then .ok progName else .error (.notAFile progName)

def elements (sh : Shell) : List Str := tokens (sh.path.getD [])

/-- The program that the shell would run is the one that is found. -/
structure FindsProgram (sh : Shell) (progname : Str) : Prop where
  rootedName : rooted progname → searchProgram sh progname = .ok progname
  relativeName : ¬rooted progname → slash ∈ progname →
    searchProgram sh progname = .ok (mergePaths sh.cwd progname)
  found : slash ∉ progname → ∀ launch, searchProgram sh progname = .ok launch ↔
    ∃ token, ((elements sh).find? fun token ↦ sh.program (mergePaths token progname)) = some token ∧
      launch = sh.absolute (mergePaths token progname)
  dies : slash ∉ progname → ((∃ d, searchProgram sh progname = .error d) ↔
    ∀ token ∈ elements sh, sh.program (mergePaths token progname) = false)
  absolute : ∀ launch, searchProgram sh progname = .ok launch → rooted launch
  separator : ∀ base, base ≠ [] → ∀ rel,
    (base.getLast? = some slash ∧ mergePaths base rel = base ++ rel) ∨
      (base.getLast? ≠ some slash ∧ mergePaths base rel = base ++ slash :: rel)
  isFile : slash ∉ progname → ∀ launch, lookupProgram sh progname = .error (.notAFile launch) →
    ∀ token ∈ elements sh, sh.program (mergePaths token progname) = false

/-- What is first taken for the program in the elements of PATH is a regular file. -/
def FirstRegular (sh : Shell) (progname : Str) : Prop :=
  slash ∉ progname → ∀ token,
    ((elements sh).find? fun token ↦ sh.access (mergePaths token progname)) = some token →
      (sh.file (mergePaths token progname)).any (·.type = .regular)

theorem searchProgram_eq (sh : Shell) {progname : Str} (h : slash ∉ progname) :
    (∀ token, ((elements sh).find? fun token ↦ sh.access (mergePaths token progname)) = some token →
      searchProgram sh progname = .ok (sh.absolute (mergePaths token progname))) ∧
    (((elements sh).find? fun token ↦ sh.access (mergePaths token progname)) = none →
      ∃ d, searchProgram sh progname = .error d) := by
  have hr : ¬rooted progname := by
    intro hr
    exact h (List.mem_of_head? (beq_iff_eq.mp hr))
  unfold searchProgram elements
  rw [if_neg hr, if_neg h]
  cases hp : sh.path with
  | none => exact ⟨nofun, fun _ ↦ ⟨.noPath, rfl⟩⟩
  | some path =>
    simp only [Option.getD_some, findInPath_eq]
    constructor
    · intro token ht
      rw [ht]
      rfl
    · intro ht
      rw [ht]
      exact ⟨.notLocated progname, rfl⟩

theorem mergePaths_eq (base rel : Str) :
    (base.getLast? = some slash ∧ mergePaths base rel = base ++ rel) ∨
      (base.getLast? ≠ some slash ∧ mergePaths base rel = base ++ slash :: rel) := by
  by_cases h : base.getLast? = some slash
  · exact .inl ⟨h, by simp [mergePaths, h]⟩
  · exact .inr ⟨h, by simp [mergePaths, h]⟩

theorem getLast?_mergePaths (base : Str) {rel : Str} (h : rel ≠ []) :
    (mergePaths base rel).getLast? = rel.getLast? := by
  obtain ⟨init, b, rfl⟩ := (List.eq_nil_or_concat rel).resolve_left h
  simp [mergePaths, ← List.append_assoc]

theorem file_merge_cwd {sh : Shell} {path : Str} (hr : ¬rooted path) (hne : path ≠ []) {file : File}
    (h : sh.file (mergePaths sh.cwd path) = some file) : sh.file path = some file := by
  have hroot : rooted (mergePaths sh.cwd path) :=
    (rooted_mergePaths (rooted_ne sh.cwd_rooted) path).trans sh.cwd_rooted
  rw [Shell.file, if_pos hroot, components_mergePaths, reach_append,
    getLast?_mergePaths sh.cwd hne] at h
  cases hcwd : reach sh.isDirectory [] (components sh.cwd) with
  | none => simp [hcwd] at h
  | some q =>
    have hq : q = sh.directory := by
      rw [Shell.directory, locate, if_pos sh.cwd_rooted]
      exact reach_walk hcwd
    rw [hcwd, Option.bind_some, hq] at h
    rw [Shell.file, if_neg hr]
    exact h

theorem file_of_absolute {sh : Shell} {path : Str} (hne : path ≠ []) {file : File}
    (h : sh.file (sh.absolute path) = some file) : sh.file path = some file := by
  unfold Shell.absolute at h
  split_ifs at h with hr
  · exact h
  · exact file_merge_cwd hr hne h

theorem file_unique {sh : Shell} {path path' : Str} (hne : path ≠ []) (hne' : path' ≠ [])
    {file file' : File} (h : sh.absolute path = sh.absolute path')
    (hf : sh.file path = some file) (hf' : sh.file path' = some file') : file = file' := by
  by_cases hr : rooted path
  · have ha : sh.absolute path = path := if_pos hr
    have hfile := file_of_absolute hne' (h ▸ ha.symm ▸ hf)
    exact Option.some.inj (hfile.symm.trans hf')
  · by_cases hr' : rooted path'
    · have ha : sh.absolute path' = path' := if_pos hr'
      have hfile := file_of_absolute hne (h.symm ▸ ha.symm ▸ hf')
      exact Option.some.inj (hf.symm.trans hfile)
    · rw [Shell.absolute, Shell.absolute, if_neg hr, if_neg hr', mergePaths, mergePaths] at h
      obtain rfl := List.append_cancel_left h
      exact Option.some.inj (hf.symm.trans hf')

theorem find?_of_imp {α : Type*} {p q : α → Bool} {l : List α} (himp : ∀ a, q a = true → p a = true)
    (h : ∀ a, l.find? p = some a → q a = true) : l.find? q = l.find? p := by
  induction l with
  | nil => rfl
  | cons a l ih =>
    by_cases hp : p a = true
    · rw [List.find?_cons_of_pos hp] at h ⊢
      exact List.find?_cons_of_pos (h a rfl)
    · rw [List.find?_cons_of_neg hp] at h ⊢
      rw [List.find?_cons_of_neg fun hq ↦ hp (himp a hq)]
      exact ih h

theorem element_ne {sh : Shell} {progname token : Str} {p : Str → Bool}
    (h : ((elements sh).find? fun token ↦ p (mergePaths token progname)) = some token) :
    mergePaths token progname ≠ [] := by
  have hne : token ≠ [] := by
    simpa using (List.mem_filter.mp (List.mem_of_find?_eq_some h)).2
  exact List.append_ne_nil_of_left_ne_nil (List.append_ne_nil_of_left_ne_nil hne _) _

theorem program_access {sh : Shell} {path : Str} (h : sh.program path = true) :
    sh.access path = true := by
  obtain ⟨file, hfile, hp⟩ := (Option.any_eq_true _ _).mp h
  exact (Option.any_eq_true _ _).mpr ⟨file, hfile, (Bool.and_eq_true_iff.mp hp).1⟩

theorem program_of_regular {sh : Shell} {path : Str} (ha : sh.access path = true)
    (hr : (sh.file path).any (·.type = .regular) = true) : sh.program path = true := by
  obtain ⟨file, hfile, hx⟩ := (Option.any_eq_true _ _).mp ha
  rw [hfile] at hr
  exact (Option.any_eq_true _ _).mpr ⟨file, hfile, Bool.and_eq_true_iff.mpr ⟨hx, hr⟩⟩

theorem find_program {sh : Shell} {progname : Str} (h : FirstRegular sh progname)
    (hs : slash ∉ progname) :
    ((elements sh).find? fun token ↦ sh.program (mergePaths token progname)) =
      (elements sh).find? fun token ↦ sh.access (mergePaths token progname) := by
  refine find?_of_imp (fun _ ↦ program_access) fun token ht ↦ ?_
  have ha := List.find?_some ht
  exact program_of_regular ha (h hs token ht)

theorem searchProgram_rooted {sh : Shell} {progname launch : Str}
    (h : searchProgram sh progname = .ok launch) : rooted launch := by
  have hcwd : ∀ rel, rooted (mergePaths sh.cwd rel) := fun rel ↦
    (rooted_mergePaths (rooted_ne sh.cwd_rooted) rel).trans sh.cwd_rooted
  unfold searchProgram at h
  split_ifs at h with hr hs
  · cases h
    exact hr
  · cases h
    exact hcwd progname
  · split at h
    · cases h
    · split at h
      · cases h
      · cases h
        split_ifs with hr'
        · exact hr'
        · exact hcwd _

theorem not_notAFile {sh : Shell} {progname launch : Str} (h : FirstRegular sh progname)
    (hs : slash ∉ progname) : lookupProgram sh progname ≠ .error (.notAFile launch) := by
  intro hl
  obtain ⟨hsome, hnone⟩ := searchProgram_eq sh hs
  cases hf : (elements sh).find? fun token ↦ sh.access (mergePaths token progname) with
  | none =>
    obtain ⟨d, hd⟩ := hnone hf
    rw [lookupProgram, hd] at hl
    cases hl
  | some token =>
    simp only [lookupProgram, hsome token hf] at hl
    split at hl
    · cases hl
    · rename_i file hfile
      have hreg := h hs token hf
      rw [file_of_absolute (element_ne hf) hfile, Option.any_some] at hreg
      rw [if_pos (of_decide_eq_true hreg)] at hl
      cases hl

theorem regular_of_findsProgram {sh : Shell} {progname : Str} (h : FindsProgram sh progname) :
    FirstRegular sh progname := by
  intro hs token ht
  have hok := (searchProgram_eq sh hs).1 token ht
  obtain ⟨token', ht', heq⟩ := (h.found hs _).mp hok
  have ha := List.find?_some ht
  have hp := List.find?_some ht'
  obtain ⟨file, hfile, -⟩ := (Option.any_eq_true _ _).mp ha
  obtain ⟨file', hfile', hx⟩ := (Option.any_eq_true _ _).mp hp
  obtain rfl := file_unique (element_ne ht) (element_ne ht') heq hfile hfile'
  exact (Option.any_eq_true _ _).mpr ⟨file, hfile, (Bool.and_eq_true_iff.mp hx).2⟩

/-- The program is found exactly if the first match in the elements of PATH is a
regular file. -/
theorem findsProgram_iff (sh : Shell) (progname : Str) :
    FindsProgram sh progname ↔ FirstRegular sh progname := by
  constructor
  · exact regular_of_findsProgram
  · intro h
    constructor
    case rootedName =>
      intro hr
      exact if_pos hr
    case relativeName =>
      intro hr hs
      rw [searchProgram, if_neg hr, if_pos hs]
    case found =>
      intro hs launch
      obtain ⟨hsome, hnone⟩ := searchProgram_eq sh hs
      rw [find_program h hs]
      cases hf : (elements sh).find? fun token ↦ sh.access (mergePaths token progname) with
      | none =>
        obtain ⟨d, hd⟩ := hnone hf
        simp [hd]
      | some token => simp [hsome token hf, eq_comm]
    case dies =>
      intro hs
      obtain ⟨hsome, hnone⟩ := searchProgram_eq sh hs
      have hfind : (∀ token ∈ elements sh, sh.program (mergePaths token progname) = false) ↔
          ((elements sh).find? fun token ↦ sh.program (mergePaths token progname)) = none := by
        simp [List.find?_eq_none]
      rw [hfind, find_program h hs]
      cases hf : (elements sh).find? fun token ↦ sh.access (mergePaths token progname) with
      | none => simpa using hnone hf
      | some token => simp [hsome token hf]
    case absolute => exact fun launch ↦ searchProgram_rooted
    case separator => exact fun base _ rel ↦ mergePaths_eq base rel
    case isFile =>
      intro hs launch hl
      exact absurd hl (not_notAFile h hs)

/-- The directory `/a/x` comes before the program `/b/x`. -/
def shadowed : Shell where
  cwd := [47]
  path := some [47, 97, 58, 47, 98]
  files := fun p ↦
    if p = [[98], [120]] then some ⟨.regular, true⟩
    else if p ∈ [[], [[97]], [[98]], [[97], [120]]] then some ⟨.directory, true⟩
    else none
  cwd_rooted := rfl

/-- `main` refuses the directory, and the program behind it is not looked at. -/
theorem shadowed_notAFile :
    lookupProgram shadowed [120] = .error (.notAFile [47, 97, 47, 120]) ∧
      shadowed.program (mergePaths [47, 98] [120]) = true ∧ ¬FindsProgram shadowed [120] := by
  refine ⟨by decide, by decide, fun h ↦ ?_⟩
  have hreg := regular_of_findsProgram h (by decide) [47, 97] (by decide)
  revert hreg
  decide

end Applauncherd.Invoker.ProgramLookup
