import Applauncherd.Library.Environ
import Mathlib.Data.Int.Notation
import Mathlib.Data.List.Basic
import Mathlib.Order.Nat
import Mathlib.Tactic.SplitIfs

namespace Applauncherd.QDeclarativeBooster.MDeclarativeCache

open Library.Environ

abbrev QString := List UInt16

def slash : UInt16 := 47

def lastIndexOf (s : QString) (c : UInt16) : ℤ :=
  match s.reverse.findIdx? (· = c) with
  | some i => s.length - 1 - i
  | none => -1

def chop (s : QString) (n : ℤ) : QString := if n > 0 then s.take (s.length - n).toNat else s

/-- The arrays that a `QApplication` was made with, and refers to. -/
inductive QApplication
  | initial
  | caller (argv : List Str)
  deriving DecidableEq, Repr

structure MDeclarativeCachePrivate where
  qApplicationInstance : Option QApplication
  qDeclarativeViewInstance : Option ℕ
  initialArgc : ℕ
  initialArgv : List (Option Str)
  appDirPath : QString
  appFilePath : QString
  cachePopulated : Bool
  views : ℕ
  deriving DecidableEq, Repr

def ARGV_LIMIT : ℕ := 32

def new : MDeclarativeCachePrivate where
  qApplicationInstance := none
  qDeclarativeViewInstance := none
  initialArgc := ARGV_LIMIT
  initialArgv := List.replicate ARGV_LIMIT none
  appDirPath := []
  appFilePath := []
  cachePopulated := false
  views := 0

def populate (appName : Str) (d : MDeclarativeCachePrivate) : MDeclarativeCachePrivate :=
  { d with
    cachePopulated := true
    initialArgv := (some appName :: List.replicate (d.initialArgc - 1) (some [])) ++
      d.initialArgv.drop (max 1 d.initialArgc)
    qApplicationInstance := some (d.qApplicationInstance.getD .initial)
    qDeclarativeViewInstance := some d.views
    views := d.views + 1 }

def directory (path : QString) : QString := chop path (path.length - lastIndexOf path slash)

/-- Arguments up to the limit, over those of the application that is there. -/
def copyArguments (d : MDeclarativeCachePrivate) (application : QApplication) (argv : List Str) :
    MDeclarativeCachePrivate :=
  match application with
  | .initial =>
    { d with initialArgv := (argv.take ARGV_LIMIT).map some ++ d.initialArgv.drop argv.length }
  | .caller old =>
    let argv := argv.take ARGV_LIMIT ++ old.drop (min argv.length ARGV_LIMIT)
    { d with qApplicationInstance := some (.caller argv) }

/-- `fromAscii` is the conversion of a C string, which depends on the codec in use. -/
def qApplication (fromAscii : Str → QString) (argv : List Str) (d : MDeclarativeCachePrivate) :
    MDeclarativeCachePrivate :=
  match d.qApplicationInstance with
  | none => { d with qApplicationInstance := some (.caller argv) }
  | some application =>
    let d := { copyArguments d application argv with initialArgc := min argv.length ARGV_LIMIT }
    if d.cachePopulated then
      let path := (argv.head?.map fromAscii).getD []
      { d with appFilePath := path, appDirPath := directory path }
    else d

def qDeclarativeView (d : MDeclarativeCachePrivate) : ℕ × MDeclarativeCachePrivate :=
  match d.qDeclarativeViewInstance with
  | some view => (view, { d with qDeclarativeViewInstance := none })
  | none => (d.views, { d with views := d.views + 1 })

structure QCoreApplication where
  applicationDirPath : QString
  applicationFilePath : QString
  deriving DecidableEq, Repr

def applicationDirPath (core : QCoreApplication) (d : MDeclarativeCachePrivate) : QString :=
  if d.cachePopulated then d.appDirPath else core.applicationDirPath

def applicationFilePath (core : QCoreApplication) (d : MDeclarativeCachePrivate) : QString :=
  if d.cachePopulated then d.appFilePath else core.applicationFilePath

/-- The cache of a booster that waits for its application: `Booster::initialize` preloads
only outside the boot mode. -/
def boosterInitialize (appName : Str) (newBootMode : Bool) : MDeclarativeCachePrivate :=
  if !newBootMode then populate appName new else new

inductive Call
  | populate
  | qApplication
  | qDeclarativeView
  | applicationDirPath
  | applicationFilePath
  deriving DecidableEq, Repr

section Calls

variable (fromAscii : Str → QString) (appName : Str) (argv : List Str)

def step (d : MDeclarativeCachePrivate) : Call → MDeclarativeCachePrivate
  | .populate => populate appName d
  | .qApplication => qApplication fromAscii argv d
  | .qDeclarativeView => (qDeclarativeView d).2
  | .applicationDirPath => d
  | .applicationFilePath => d

def launched (newBootMode : Bool) (calls : List Call) : MDeclarativeCachePrivate :=
  calls.foldl (step fromAscii appName argv) (boosterInitialize appName newBootMode)

end Calls

inductive IsDirectory : QString → QString → Prop
  | slash (dir name : QString) : slash ∉ name → IsDirectory (dir ++ slash :: name) dir
  | none (name : QString) : slash ∉ name → IsDirectory name []

/-- The cache answers with the path of the launched application. -/
structure Answers (core : QCoreApplication) (path : QString) (d : MDeclarativeCachePrivate) :
    Prop where
  file : applicationFilePath core d = path
  dir : IsDirectory path (applicationDirPath core d)

theorem findIdx?_reverse {s : QString} {c : UInt16} (h : c ∉ s) :
    s.reverse.findIdx? (· = c) = none := by
  rw [List.findIdx?_eq_none_iff]
  intro x hx
  exact decide_eq_false fun heq ↦ h (heq ▸ List.mem_reverse.mp hx)

theorem lastIndexOf_append {dir name : QString} {c : UInt16} (h : c ∉ name) :
    lastIndexOf (dir ++ c :: name) c = dir.length := by
  have hrev : (dir ++ c :: name).reverse.findIdx? (· = c) = some name.length := by
    rw [List.reverse_append, List.reverse_cons, List.append_assoc, List.findIdx?_append,
      findIdx?_reverse h, List.singleton_append, List.findIdx?_cons]
    simp
  rw [lastIndexOf, hrev, List.length_append, List.length_cons]
  push_cast
  omega

theorem lastIndexOf_none {s : QString} {c : UInt16} (h : c ∉ s) : lastIndexOf s c = -1 := by
  rw [lastIndexOf, findIdx?_reverse h]

theorem directory_append {dir name : QString} (h : slash ∉ name) :
    directory (dir ++ slash :: name) = dir := by
  rw [directory, lastIndexOf_append h, chop, List.length_append, List.length_cons]
  have hpos : ((dir.length + (name.length + 1) : ℕ) : ℤ) - dir.length > 0 := by omega
  have hleft : (((dir.length + (name.length + 1) : ℕ) : ℤ) -
      (((dir.length + (name.length + 1) : ℕ) : ℤ) - dir.length)).toNat = dir.length := by omega
  rw [if_pos hpos, hleft, List.take_left]

theorem directory_none {path : QString} (h : slash ∉ path) : directory path = [] := by
  rw [directory, lastIndexOf_none h, chop, if_pos (by omega)]
  have hleft : ((path.length : ℤ) - (path.length - -1)).toNat = 0 := by omega
  rw [hleft, List.take_zero]

theorem isDirectory_directory (path : QString) : IsDirectory path (directory path) := by
  by_cases h : slash ∈ path
  · obtain ⟨name, dir, hrev, hname⟩ := List.eq_append_cons_of_mem (List.mem_reverse.mpr h)
    have hpath : path = dir.reverse ++ slash :: name.reverse := by
      rw [← List.reverse_reverse path, hrev]
      simp
    have hname' : slash ∉ name.reverse := fun hmem ↦ hname (List.mem_reverse.mp hmem)
    rw [hpath, directory_append hname']
    exact .slash dir.reverse name.reverse hname'
  · rw [directory_none h]
    exact .none path h

theorem isDirectory_iff (path dir : QString) : IsDirectory path dir ↔ dir = directory path := by
  constructor
  · intro h
    cases h with
    | slash dir name hname => exact (directory_append hname).symm
    | none name hname => exact (directory_none hname).symm
  · intro h
    exact h ▸ isDirectory_directory path

inductive Stage
  | plain
  | blank
  | informed
  deriving DecidableEq, Repr

def Stage.next : Stage → Call → Stage
  | .plain, .populate => .blank
  | .blank, .qApplication => .informed
  | stage, _ => stage

structure Represents (path : QString) (stage : Stage) (d : MDeclarativeCachePrivate) : Prop where
  populated : d.cachePopulated = true ↔ stage ≠ .plain
  instanced : stage ≠ .plain → d.qApplicationInstance ≠ none
  filePath : d.appFilePath = if stage = .informed then path else []
  dirPath : d.appDirPath = if stage = .informed then directory path else []

theorem new_represents (path : QString) : Represents path .plain new where
  populated := ⟨nofun, fun h ↦ absurd rfl h⟩
  instanced h := absurd rfl h
  filePath := rfl
  dirPath := rfl

variable {fromAscii : Str → QString} {appName argv0 : Str} {args : List Str}

theorem populate_represents {path : QString} {stage : Stage} {d : MDeclarativeCachePrivate}
    (h : Represents path stage d) : Represents path (stage.next .populate) (populate appName d) := by
  obtain ⟨hpop, hinst, hfile, hdir⟩ := h
  cases stage <;> refine ⟨?_, ?_, hfile, hdir⟩ <;> simp [populate, Stage.next]

theorem copyArguments_frame (d : MDeclarativeCachePrivate) (application : QApplication)
    (argv : List Str) :
    (copyArguments d application argv).cachePopulated = d.cachePopulated ∧
      (copyArguments d application argv).appFilePath = d.appFilePath ∧
      (copyArguments d application argv).appDirPath = d.appDirPath ∧
      (d.qApplicationInstance ≠ none →
        (copyArguments d application argv).qApplicationInstance ≠ none) := by
  cases application with
  | initial => exact ⟨rfl, rfl, rfl, id⟩
  | caller old => exact ⟨rfl, rfl, rfl, fun _ ↦ Option.some_ne_none _⟩

theorem qApplication_represents {stage : Stage} {d : MDeclarativeCachePrivate}
    (h : Represents (fromAscii argv0) stage d) :
    Represents (fromAscii argv0) (stage.next .qApplication)
      (qApplication fromAscii (argv0 :: args) d) := by
  unfold qApplication
  cases hq : d.qApplicationInstance with
  | none =>
    have hplain : stage = .plain := by
      by_contra hne
      exact h.instanced hne hq
    subst hplain
    exact ⟨h.populated, fun hne ↦ absurd rfl hne, h.filePath, h.dirPath⟩
  | some application =>
    obtain ⟨hpop, hfile, hdir, hinst⟩ := copyArguments_frame d application (argv0 :: args)
    have hinst := hinst (hq ▸ Option.some_ne_none application)
    dsimp only
    rw [hpop]
    by_cases hp : d.cachePopulated = true
    · have hstage := h.populated.mp hp
      have hnext : stage.next .qApplication = .informed := by
        cases stage with
        | plain => exact absurd rfl hstage
        | blank => rfl
        | informed => rfl
      rw [if_pos hp, hnext]
      exact ⟨⟨fun _ ↦ nofun, fun _ ↦ hp⟩, fun _ ↦ hinst, rfl, rfl⟩
    · have hplain : stage = .plain := by
        by_contra hne
        exact hp (h.populated.mpr hne)
      subst hplain
      rw [if_neg hp]
      exact ⟨h.populated, fun _ ↦ hinst, hfile.trans h.filePath, hdir.trans h.dirPath⟩

theorem step_represents {stage : Stage} {d : MDeclarativeCachePrivate} (call : Call)
    (h : Represents (fromAscii argv0) stage d) :
    Represents (fromAscii argv0) (stage.next call)
      (step fromAscii appName (argv0 :: args) d call) := by
  cases call with
  | populate => exact populate_represents h
  | qApplication => exact qApplication_represents h
  | qDeclarativeView =>
    have hnext : stage.next .qDeclarativeView = stage := by cases stage <;> rfl
    rw [hnext, step, qDeclarativeView]
    split <;> exact ⟨h.populated, h.instanced, h.filePath, h.dirPath⟩
  | applicationDirPath =>
    have hnext : stage.next .applicationDirPath = stage := by cases stage <;> rfl
    rwa [hnext]
  | applicationFilePath =>
    have hnext : stage.next .applicationFilePath = stage := by cases stage <;> rfl
    rwa [hnext]

def Stage.first (newBootMode : Bool) : Stage := if newBootMode then .plain else .blank

theorem launched_represents (newBootMode : Bool) (calls : List Call) :
    Represents (fromAscii argv0) (calls.foldl Stage.next (Stage.first newBootMode))
      (launched fromAscii appName (argv0 :: args) newBootMode calls) := by
  have hfirst : Represents (fromAscii argv0) (Stage.first newBootMode)
      (boosterInitialize appName newBootMode) := by
    cases newBootMode with
    | true => exact new_represents _
    | false => exact populate_represents (new_represents _)
  have hrun : ∀ (stage : Stage) d, Represents (fromAscii argv0) stage d →
      Represents (fromAscii argv0) (calls.foldl Stage.next stage)
        (calls.foldl (step fromAscii appName (argv0 :: args)) d) := by
    induction calls with
    | nil => exact fun _ _ h ↦ h
    | cons call calls ih => exact fun stage d h ↦ ih _ _ (step_represents call h)
  exact hrun _ _ hfirst

theorem foldl_informed (calls : List Call) : calls.foldl Stage.next .informed = .informed := by
  induction calls with
  | nil => rfl
  | cons call calls ih => exact ih

theorem foldl_blank (calls : List Call) :
    calls.foldl Stage.next .blank = if .qApplication ∈ calls then .informed else .blank := by
  induction calls with
  | nil => rfl
  | cons call calls ih =>
    rw [List.foldl_cons]
    cases call <;> simp [Stage.next, ih, foldl_informed]

theorem foldl_plain (calls : List Call) :
    calls.foldl Stage.next .plain =
      if List.Sublist [.populate, .qApplication] calls then .informed
      else if .populate ∈ calls then .blank else .plain := by
  induction calls with
  | nil => rfl
  | cons call calls ih =>
    rw [List.foldl_cons]
    by_cases hcall : call = .populate
    · subst hcall
      rw [Stage.next, foldl_blank]
      simp
    · have hnext : Stage.plain.next call = .plain := by
        cases call with
        | populate => exact absurd rfl hcall
        | _ => rfl
      rw [hnext, ih]
      simp [List.cons_sublist_cons', Ne.symm hcall]

/-- The cache has the path of the application, or has the same by coincidence. -/
def Known (core : QCoreApplication) (path : QString) (newBootMode : Bool) (calls : List Call) :
    Prop :=
  newBootMode = false ∨ List.Sublist [.populate, .qApplication] calls ∨
    (.populate ∈ calls ∧ path = []) ∨
    (.populate ∉ calls ∧ core.applicationFilePath = path ∧
      IsDirectory path core.applicationDirPath)

theorem Represents.answers_cases {core : QCoreApplication} {path : QString} {stage : Stage}
    {d : MDeclarativeCachePrivate} (h : Represents path stage d) :
    Answers core path d ↔ stage = .informed ∨ (stage = .blank ∧ path = []) ∨
      (stage = .plain ∧ core.applicationFilePath = path ∧
        IsDirectory path core.applicationDirPath) := by
  have hanswers : Answers core path d ↔
      applicationFilePath core d = path ∧ IsDirectory path (applicationDirPath core d) :=
    ⟨fun ⟨hfile, hdir⟩ ↦ ⟨hfile, hdir⟩, fun ⟨hfile, hdir⟩ ↦ ⟨hfile, hdir⟩⟩
  have hpop := h.populated
  have hfile := h.filePath
  have hdir := h.dirPath
  rw [hanswers, applicationFilePath, applicationDirPath]
  cases stage with
  | plain => simp [hpop]
  | blank =>
    simp only [hpop, hfile, hdir, reduceCtorEq, ne_eq, not_false_eq_true, ↓reduceIte, false_or,
      false_and, or_false, true_and]
    constructor
    · intro hpath
      exact hpath.1.symm
    · intro hpath
      exact ⟨hpath.symm, hpath ▸ .none [] List.not_mem_nil⟩
  | informed => simp [hpop, hfile, hdir, isDirectory_iff]

/-- The paths are those of the launched application exactly where the cache knows them. -/
theorem answers_iff (core : QCoreApplication) (newBootMode : Bool) {calls : List Call}
    (hcalls : .qApplication ∈ calls) :
    Answers core (fromAscii argv0)
        (launched fromAscii appName (argv0 :: args) newBootMode calls) ↔
      Known core (fromAscii argv0) newBootMode calls := by
  rw [(launched_represents newBootMode calls).answers_cases]
  cases newBootMode with
  | false =>
    have hinformed : calls.foldl Stage.next (Stage.first false) = .informed := by
      rw [Stage.first, if_neg Bool.false_ne_true, foldl_blank, if_pos hcalls]
    simp [hinformed, Known]
  | true =>
    rw [Stage.first, if_pos rfl, foldl_plain, Known]
    split_ifs with hboth hpopulate
    · simp [hboth]
    · simp [hboth, hpopulate]
    · simp [hboth, hpopulate]

def fromLatin1 (s : Str) : QString := s.map UInt8.toUInt16

/-- "/usr/bin/foo" -/
def usrBinFoo : Str := [47, 117, 115, 114, 47, 98, 105, 110, 47, 102, 111, 111]

/-- "/usr/bin/applauncherd.bin" and its directory -/
def boosterPaths : QCoreApplication where
  applicationDirPath := fromLatin1 (usrBinFoo.take 8)
  applicationFilePath := fromLatin1 (usrBinFoo.take 9 ++
    [97, 112, 112, 108, 97, 117, 110, 99, 104, 101, 114, 100, 46, 98, 105, 110])

theorem answers_normalMode :
    Answers boosterPaths (fromLatin1 usrBinFoo)
      (launched fromLatin1 [] [usrBinFoo] false
        [.qDeclarativeView, .qApplication, .applicationFilePath]) :=
  (answers_iff boosterPaths false (by decide)).mpr (.inl rfl)

/-- In the boot mode the answer is the path of the booster. -/
theorem not_answers_bootMode :
    ¬Answers boosterPaths (fromLatin1 usrBinFoo)
      (launched fromLatin1 [] [usrBinFoo] true [.qApplication]) := by
  intro h
  have hfile : applicationFilePath boosterPaths
      (launched fromLatin1 [] [usrBinFoo] true [.qApplication]) ≠ fromLatin1 usrBinFoo := by
    decide
  exact hfile h.file

end Applauncherd.QDeclarativeBooster.MDeclarativeCache
