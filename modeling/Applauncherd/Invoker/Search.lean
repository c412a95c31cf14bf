import Applauncherd.Library.Path

namespace Applauncherd.Invoker.Search

open Library.Environ Library.Path

inductive FileType
  | regular
  | directory
  | other
  deriving DecidableEq, Repr

structure File where
  type : FileType
  executable : Bool

structure Shell where
  cwd : Str
  path : Option Str
  files : Place Str → Option File
  cwd_rooted : rooted cwd

def Shell.directory (sh : Shell) : Place Str := locate [] sh.cwd

def Shell.isDirectory (sh : Shell) (p : Place Str) : Bool :=
  (sh.files p).any (·.type = .directory)

/-- Pathname resolution by the kernel. A slash at the end asks for a directory. -/
def Shell.file (sh : Shell) (path : Str) : Option File :=
  ((reach sh.isDirectory (if rooted path then [] else sh.directory) (components path)).bind
    sh.files).filter fun file ↦ file.type = .directory || path.getLast? != some slash

/-- `access(path, X_OK) == 0`. -/
def Shell.access (sh : Shell) (path : Str) : Bool := (sh.file path).any (·.executable)

def Shell.program (sh : Shell) (path : Str) : Bool :=
  (sh.file path).any fun file ↦ file.executable && file.type = .regular

inductive Died
  | noPath
  | notLocated (progname : Str)
  deriving DecidableEq, Repr

def mergePaths (basePath relPath : Str) : Str :=
  basePath ++ (if basePath.getLast? = some slash then [] else [slash]) ++ relPath

def Shell.absolute (sh : Shell) (path : Str) : Str :=
  if rooted path then path else mergePaths sh.cwd path

def colon : UInt8 := 58

/-- The tokens that `strtok_r` finds: empty ones are passed over. -/
def tokens (path : Str) : List Str := (path.splitOn colon).filter (· ≠ [])

def findInPath (sh : Shell) (progname : Str) : List Str → Option Str
  | [] => none
  | token :: rest =>
    let launch := mergePaths token progname
    if sh.access launch then some launch else findInPath sh progname rest

def searchProgram (sh : Shell) (progname : Str) : Except Died Str :=
  if rooted progname then .ok progname
  else if slash ∈ progname then .ok (mergePaths sh.cwd progname)
  else
    match sh.path with
    | none => .error .noPath
    | some path =>
      match findInPath sh progname (tokens path) with
      | none => .error (.notLocated progname)
      | some launch => .ok (if rooted launch then launch else mergePaths sh.cwd launch)

theorem components_mergePaths (base rel : Str) :
    components (mergePaths base rel) = components base ++ components rel := by
  unfold mergePaths
  split_ifs with h
  · obtain ⟨b, rfl⟩ := List.getLast?_eq_some_iff.mp h
    rw [List.append_nil, List.append_assoc, List.singleton_append, components_append,
      components_slash]
  · rw [List.append_assoc, List.singleton_append, components_append]

theorem rooted_mergePaths {base : Str} (h : base ≠ []) (rel : Str) :
    rooted (mergePaths base rel) = rooted base := by
  obtain ⟨b, bs, rfl⟩ := List.exists_cons_of_ne_nil h
  rfl

theorem findInPath_eq (sh : Shell) (progname : Str) (toks : List Str) :
    findInPath sh progname toks =
      (toks.find? fun token ↦ sh.access (mergePaths token progname)).map (mergePaths · progname) := by
  induction toks with
  | nil => rfl
  | cons token rest ih =>
    rw [findInPath, List.find?_cons]
    by_cases h : sh.access (mergePaths token progname)
    · simp [h]
    · simp [h, ih]

def startDirectory (sh : Shell) (progname : Str) : Place Str :=
  if rooted progname then []
  else if slash ∈ progname then sh.directory
  else
    match (tokens (sh.path.getD [])).find? fun token ↦
        sh.access (mergePaths token progname) with
    | none => sh.directory
    | some token => locate sh.directory token

theorem rooted_ne {path : Str} (h : rooted path) : path ≠ [] := by
  intro he
  subst path
  cases h

end Applauncherd.Invoker.Search
