import Applauncherd.Library.Getopt
import Applauncherd.Invoker.Options
import Applauncherd.Invoker.ProgramLookup
import Applauncherd.Invoker.Send
import Applauncherd.Launcherlib.Argv

namespace Applauncherd.Invoker.CommandLine

open Library.Environ Library.Getopt Library.Path Protocol Options Search ProgramLookup Send
open Launcherlib.Argv (strstr)
open Launcherlib.ReadSocket (OpenFile)

/-- "hcwnGDsd:t:r:" -/
def optstring : Str := [104, 99, 119, 110, 71, 68, 115, 100, 58, 116, 58, 114, 58]

/-- The options `help`, `creds`, `wait-term`, `no-wait`, `global-syms`, `deep-syms`,
`single-instance`, `type`, `delay` and `respawn`. -/
def longopts : List LongOption :=
  [⟨[104, 101, 108, 112], false, 104⟩,
    ⟨[99, 114, 101, 100, 115], false, 99⟩,
    ⟨[119, 97, 105, 116, 45, 116, 101, 114, 109], false, 119⟩,
    ⟨[110, 111, 45, 119, 97, 105, 116], false, 110⟩,
    ⟨[103, 108, 111, 98, 97, 108, 45, 115, 121, 109, 115], false, 71⟩,
    ⟨[100, 101, 101, 112, 45, 115, 121, 109, 115], false, 68⟩,
    ⟨[115, 105, 110, 103, 108, 101, 45, 105, 110, 115, 116, 97, 110, 99, 101], false, 115⟩,
    ⟨[116, 121, 112, 101], true, 116⟩,
    ⟨[100, 101, 108, 97, 121], true, 100⟩,
    ⟨[114, 101, 115, 112, 97, 119, 110], true, 114⟩]

def table : Table := ⟨optstring, longopts, by decide, by decide⟩

def optOf : Found → Opt
  | .bad => .unknown
  | .option val optarg =>
    if val = 104 then .help
    else if val = 99 then .creds
    else if val = 119 then .waitTerm
    else if val = 110 then .noWait
    else if val = 71 then .globalSyms
    else if val = 68 then .deepSyms
    else if val = 116 then .type (optarg.getD [])
    else if val = 100 then .delay (optarg.getD [])
    else if val = 114 then .respawn (optarg.getD [])
    else if val = 115 then .singleInstance
    else .unknown

/-- "invoker" -/
def progNameInvoker : Str := [105, 110, 118, 111, 107, 101, 114]

/-- "POSIXLY_CORRECT" -/
def posixlyCorrect : Str := [80, 79, 83, 73, 88, 76, 89, 95, 67, 79, 82, 82, 69, 67, 84]

/-- "PATH" -/
def pathName : Str := [80, 65, 84, 72]

/-- What the invoker is started with: `argv[0]`, the other elements, the variables,
the working directory and the files as it finds them. -/
structure Started where
  name : Str
  argv : List Str
  environ : List Str
  cwd : Str
  files : Place Str → Option File
  cwd_rooted : rooted cwd

/-- "POSIXLY_CORRECT=1" -/
def Started.put (p : Started) : List Str := putenv p.environ (posixlyCorrect ++ [equals, 49])

def Started.shell (p : Started) : Shell where
  cwd := p.cwd
  path := getenv p.put pathName
  files := p.files
  cwd_rooted := p.cwd_rooted

structure Invocation where
  progArgv : List Str
  progName : Str
  settings : Settings
  environ : List Str

/-- `main` up to the call of `invoke`, or the exit status where it does not get there. -/
def main (p : Started) : Except ℕ Invocation :=
  if strstr p.name progNameInvoker = none then .error 1
  else
    let (found, rest) := parse table p.argv
    match parseOpts (found.map optOf) with
    | .error status => .error status
    | .ok s =>
      match rest with
      | [] => .error 1
      | name :: args =>
        match lookupProgram p.shell name with
        | .error (.died _) => .error 1
        | .error (.notFound _) => .error 127
        | .error (.notAFile _) => .error 127
        | .ok progName =>
          if s.appType = .unknownApp then .error 1
          else .ok ⟨name :: args, progName, s, p.put⟩

theorem foldlM_unknown {opts : List Opt} (h : .unknown ∈ opts) (s : Settings) :
    ∃ status, opts.foldlM parseOpt s = .error status := by
  induction opts generalizing s with
  | nil => exact absurd h List.not_mem_nil
  | cons opt opts ih =>
    rw [List.foldlM_cons]
    cases hs : parseOpt s opt with
    | error status => exact ⟨status, rfl⟩
    | ok s' =>
      obtain rfl | h := List.mem_cons.mp h
      · cases hs
      · exact ih h s'

theorem not_bad {found : List Found} {s : Settings} (h : parseOpts (found.map optOf) = .ok s) :
    .bad ∉ found := by
  intro hb
  have hunknown : Opt.unknown ∈ found.map optOf := List.mem_map_of_mem hb
  obtain ⟨status, he⟩ := foldlM_unknown hunknown Settings.initial
  rw [parseOpts, he] at h
  cases h

/-- An application is invoked exactly where the command line has options that are
written well and stand for settings with a type, and then a program that is
found. All that follows the program's name is taken as it stands. -/
theorem main_ok_iff (p : Started) (inv : Invocation) :
    main p = .ok inv ↔ strstr p.name progNameInvoker ≠ none ∧
      ∃ found words name args, Words table found words ∧ Ends p.argv words (name :: args) ∧
        parseOpts (found.map optOf) = .ok inv.settings ∧ inv.settings.appType ≠ .unknownApp ∧
        lookupProgram p.shell name = .ok inv.progName ∧ inv.progArgv = name :: args ∧
        inv.environ = p.put := by
  constructor
  · intro h
    rw [main] at h
    split_ifs at h with hname
    refine ⟨hname, ?_⟩
    dsimp only at h
    split at h
    · cases h
    · rename_i s hs
      split at h
      · cases h
      · rename_i name args hrest
        split at h
        · cases h
        · cases h
        · cases h
        · rename_i progName hprog
          split_ifs at h with htype
          cases h
          have hparse : parse table p.argv = ((parse table p.argv).1, name :: args) :=
            Prod.ext rfl hrest
          obtain ⟨words, hwords, hends⟩ := parse_wellFormed_iff.mp ⟨hparse, not_bad hs⟩
          exact ⟨_, words, name, args, hwords, hends, hs, htype, hprog, rfl, rfl⟩
  · rintro ⟨hname, found, words, name, args, hwords, hends, hs, htype, hprog, hargv, henviron⟩
    obtain ⟨hparse, -⟩ := parse_wellFormed_iff.mpr ⟨words, hwords, hends⟩
    rw [main, if_neg hname, hparse]
    dsimp only
    rw [hs]
    dsimp only
    rw [hprog]
    dsimp only
    rw [if_neg htype, ← hargv, ← henviron]

/-- What `execve` lets through, with an environment in which every entry has a `=`
and no two have the same name. -/
structure Executed (p : Started) : Prop where
  argv : ∀ a ∈ p.argv, Text a
  argc : p.argv.length + 1 < 2 ^ 31
  cwd : 0 ∉ p.cwd
  environ : ∀ e ∈ p.environ, Text e
  count : p.environ.length + 1 < 2 ^ 31
  equals : ∀ e ∈ p.environ, equals ∈ e
  names : (p.environ.map name).Nodup

theorem zero_notMem_mergePaths {base rel : Str} (hb : 0 ∉ base) (hr : 0 ∉ rel) :
    0 ∉ mergePaths base rel := by
  unfold mergePaths
  split_ifs <;> simp [hb, hr, slash]

theorem mem_of_mem_splitOn {b c : UInt8} {path token : Str} (ht : token ∈ path.splitOn c)
    (hb : b ∈ token) : b ∈ path := by
  induction path generalizing token with
  | nil =>
    rw [List.splitOn_nil, List.mem_singleton] at ht
    subst ht
    cases hb
  | cons a path ih =>
    rw [List.splitOn_cons_eq_if_modifyHead] at ht
    split_ifs at ht
    · obtain rfl | ht := List.mem_cons.mp ht
      · cases hb
      · exact List.mem_cons_of_mem a (ih ht hb)
    · obtain ⟨first, others, hsplit⟩ := List.exists_cons_of_ne_nil (List.splitOn_ne_nil c path)
      rw [hsplit, List.modifyHead_cons] at ht
      obtain rfl | ht := List.mem_cons.mp ht
      · obtain rfl | hb := List.mem_cons.mp hb
        · exact List.mem_cons_self
        · exact List.mem_cons_of_mem a (ih (hsplit ▸ List.mem_cons_self) hb)
      · exact List.mem_cons_of_mem a (ih (hsplit ▸ List.mem_cons_of_mem first ht) hb)

theorem zero_notMem_searchProgram {sh : Shell} {progname launch : Str}
    (h : searchProgram sh progname = .ok launch) (hn : 0 ∉ progname) (hc : 0 ∉ sh.cwd)
    (hp : ∀ path, sh.path = some path → 0 ∉ path) : 0 ∉ launch := by
  unfold searchProgram at h
  split_ifs at h with hr hs
  · cases h
    exact hn
  · cases h
    exact zero_notMem_mergePaths hc hn
  · split at h
    · cases h
    · rename_i path hpath
      split at h
      · cases h
      · rename_i launch hfind
        rw [findInPath_eq] at hfind
        obtain ⟨token, htoken, rfl⟩ := Option.map_eq_some_iff.mp hfind
        have hmem := (List.mem_filter.mp (List.mem_of_find?_eq_some htoken)).1
        have hlaunch : 0 ∉ mergePaths token progname :=
          zero_notMem_mergePaths (fun hz ↦ hp path hpath (mem_of_mem_splitOn hmem hz)) hn
        cases h
        split_ifs
        · exact hlaunch
        · exact zero_notMem_mergePaths hc hlaunch

theorem searchProgram_of_lookup {sh : Shell} {progname progName : Str}
    (h : lookupProgram sh progname = .ok progName) : searchProgram sh progname = .ok progName := by
  unfold lookupProgram at h
  split at h
  · cases h
  · split at h
    · cases h
    · split_ifs at h
      cases h
      assumption

theorem directory_of_slash {sh : Shell} {path : Str} {file : File} (h : sh.file path = some file)
    (hs : path.getLast? = some slash) : file.type = .directory := by
  have hf := (Option.filter_eq_some_iff.mp h).2
  simpa [hs] using hf

theorem name_ne_nil {sh : Shell} {progname progName : Str}
    (h : lookupProgram sh progname = .ok progName) : progname ≠ [] := by
  rintro rfl
  have hlast : ∀ launch, searchProgram sh [] = .ok launch → launch.getLast? = some slash := by
    intro launch hl
    obtain ⟨hsome, hnone⟩ := searchProgram_eq sh (List.not_mem_nil : slash ∉ ([] : Str))
    cases hf : (elements sh).find? fun token ↦ sh.access (mergePaths token []) with
    | none =>
      obtain ⟨d, hd⟩ := hnone hf
      rw [hd] at hl
      cases hl
    | some token =>
      have hmerged : (mergePaths token []).getLast? = some slash := by
        obtain ⟨hs, he⟩ | ⟨-, he⟩ := mergePaths_eq token []
        · rw [he, List.append_nil, hs]
        · rw [he, List.getLast?_append]
          rfl
      rw [hsome token hf] at hl
      cases hl
      unfold Shell.absolute
      split_ifs
      · exact hmerged
      · rw [getLast?_mergePaths _ (element_ne hf), hmerged]
  unfold lookupProgram at h
  split at h
  · cases h
  · rename_i launch hl
    split at h
    · cases h
    · rename_i file hfile
      rw [directory_of_slash hfile (hlast launch hl), if_neg (by decide)] at h
      cases h

def InRange (s : Settings) : Prop := 1 ≤ s.respawnDelay ∧ s.respawnDelay ≤ maxRespawnDelay

theorem parseOpt_inRange {s s' : Settings} {opt : Opt} (h : InRange s)
    (ho : parseOpt s opt = .ok s') : InRange s' := by
  cases opt with
  | respawn arg =>
    rw [parseOpt] at ho
    split at ho
    · cases ho
    · rename_i d hd
      split_ifs at ho with hmax
      cases ho
      have hne : d ≠ 0 := by
        rintro rfl
        simp only [getDelay, Option.ite_none_left_eq_some, not_or, Option.some.injEq] at hd
        exact hd.1.2 hd.2
      refine ⟨UInt32.not_lt.mp fun hlt ↦ hne ?_, UInt32.not_lt.mp hmax⟩
      exact UInt32.lt_one_iff.mp hlt
  | type arg =>
    rw [parseOpt] at ho
    split at ho <;> cases ho
    exact h
  | delay arg =>
    rw [parseOpt] at ho
    split at ho <;> cases ho
    exact h
  | help | creds | unknown => cases ho
  | waitTerm | noWait | globalSyms | deepSyms | singleInstance =>
    cases ho
    exact h

theorem parseOpts_inRange {opts : List Opt} {s s' : Settings} (h : InRange s)
    (ho : opts.foldlM parseOpt s = .ok s') : InRange s' := by
  induction opts generalizing s with
  | nil =>
    cases ho
    exact h
  | cons opt opts ih =>
    rw [List.foldlM_cons] at ho
    cases hs : parseOpt s opt with
    | error status =>
      rw [hs] at ho
      cases ho
    | ok s₁ =>
      rw [hs] at ho
      exact ih (parseOpt_inRange h hs) ho

theorem put_text {p : Started} (h : Executed p) : ∀ e ∈ p.put, Text e := by
  intro e he
  obtain rfl | he := mem_putenv he
  · exact ⟨by decide, by decide⟩
  · exact h.environ e he

theorem put_equals {p : Started} (h : Executed p) : ∀ e ∈ p.put, equals ∈ e := by
  intro e he
  obtain rfl | he := mem_putenv he
  · decide
  · exact h.equals e he

theorem getenv_mem {environ : List Str} {n v : Str} (h : getenv environ n = some v) :
    ∃ e ∈ environ, v = value e := by
  obtain ⟨e, he, rfl⟩ := Option.map_eq_some_iff.mp h
  exact ⟨e, List.mem_of_find?_eq_some he, rfl⟩

theorem zero_notMem_value {e : Str} (h : 0 ∉ e) : 0 ∉ value e := fun hz ↦
  h ((List.dropWhile_sublist _).subset ((List.tail_sublist _).subset hz))

/-- Whatever `main` invokes is a request as `LaunchRequest` describes them. Its
variables are those that the invoker was started with, but for POSIXLY_CORRECT. -/
theorem invocation_request {p : Started} (hp : Executed p) {inv : Invocation}
    (h : main p = .ok inv) (hlen : inv.progName.length < 2 ^ 17) (prio : Int32) (uid gid : UInt32)
    (io : Fin 3 → OpenFile) :
    ∃ r : LaunchRequest, r.magicOptions = inv.settings.magicOptions ∧ r.argv = inv.progArgv ∧
      r.progName = inv.progName ∧ r.prio = prio ∧ r.respawnDelay = inv.settings.respawnDelay ∧
      r.uid = uid ∧ r.gid = gid ∧ r.io = io ∧ r.environ = inv.environ ∧
      inv.progArgv <:+ p.argv ∧
      inv.settings.waitTerm = (r.magicOptions &&& invokerMsgMagicOptionWait != 0) ∧
      1 ≤ r.respawnDelay ∧ r.respawnDelay ≤ maxRespawnDelay ∧
      ∀ n, getenv r.environ n = if n = posixlyCorrect then some [49] else getenv p.environ n := by
  obtain ⟨-, found, words, name, args, -, hends, hopts, -, hprog, hargv, henviron⟩ :=
    (main_ok_iff p inv).mp h
  have hsuffix : (name :: args) <:+ p.argv := by
    obtain ⟨heq, -⟩ | heq := hends
    · exact ⟨words, heq.symm⟩
    · exact ⟨words ++ [dashes], by rw [heq]; simp⟩
  have htext : ∀ a ∈ name :: args, Text a := fun a ha ↦ hp.argv a (hsuffix.subset ha)
  obtain ⟨hname, hargs⟩ := List.forall_mem_cons.mp htext
  have hcount : (name :: args).length ≤ p.argv.length := hsuffix.length_le
  have hput := put_text hp
  have hsearch := searchProgram_of_lookup hprog
  have hpath : ∀ path, p.shell.path = some path → 0 ∉ path := by
    intro path hget
    obtain ⟨e, he, rfl⟩ := getenv_mem hget
    exact zero_notMem_value (hput e he).1
  have hprogName : Text inv.progName :=
    ⟨zero_notMem_searchProgram hsearch hname.1 hp.cwd hpath, hlen⟩
  have hconsistent := parseOpts_consistent hopts
  obtain ⟨hlow, hhigh⟩ : InRange inv.settings := parseOpts_inRange ⟨by decide, by decide⟩ hopts
  let r : LaunchRequest := {
    magicOptions := inv.settings.magicOptions
    name := name
    args := args
    progName := inv.progName
    prio := prio
    respawnDelay := inv.settings.respawnDelay
    uid := uid
    gid := gid
    io := io
    environ := p.put
    options_bits := hconsistent.bits
    name_ne := name_ne_nil hprog
    progName_absolute := beq_iff_eq.mp (searchProgram_rooted hsearch)
    argc_int := by
      have := hp.argc
      rw [List.length_cons] at hcount
      omega
    environ_ne := putenv_ne_nil _ _
    environ_int := (putenv_length_le _ _).trans_lt hp.count
    environ_names := putenv_names hp.names _
    environ_equals := put_equals hp
    name_text := hname
    args_text := hargs
    progName_text := hprogName
    environ_text := hput }
  refine ⟨r, rfl, hargv.symm, rfl, rfl, rfl, rfl, rfl, rfl, henviron.symm, hargv ▸ hsuffix,
    hconsistent.wait, hlow, hhigh, fun n ↦ ?_⟩
  exact getenv_putenv p.environ _ n

theorem rooted_slash : rooted [47] := rfl

/-- `invoker -nt m --respawn=5 -- /a -n`, where every name below `/` is a program. -/
def onceStarted : Started where
  name := progNameInvoker
  argv := [[45, 110, 116], [109], [45, 45, 114, 101, 115, 112, 97, 119, 110, 61, 53], [45, 45], [47, 97],
    [45, 110]]
  environ := [[65, 61, 66]]
  cwd := [47]
  files := fun p ↦ bif p.isEmpty then some ⟨.directory, true⟩ else some ⟨.regular, true⟩
  cwd_rooted := rooted_slash

theorem onceStarted_executed : Executed onceStarted where
  argv := by simp [onceStarted, Text]
  argc := by decide
  cwd := by decide
  environ := by simp [onceStarted, Text]
  count := by decide
  equals := by simp [onceStarted, equals]
  names := by decide

theorem invocation_request_once : ∃ inv, main onceStarted = .ok inv ∧
    ∃ r : LaunchRequest, r.magicOptions = inv.settings.magicOptions ∧ r.argv = inv.progArgv ∧
      r.progName = inv.progName ∧ r.prio = 0 ∧ r.respawnDelay = inv.settings.respawnDelay ∧
      r.uid = 1000 ∧ r.gid = 1000 ∧ r.io = (fun i ↦ i.val) ∧ r.environ = inv.environ ∧
      inv.progArgv <:+ onceStarted.argv ∧
      inv.settings.waitTerm = (r.magicOptions &&& invokerMsgMagicOptionWait != 0) ∧
      1 ≤ r.respawnDelay ∧ r.respawnDelay ≤ maxRespawnDelay ∧
      ∀ n, getenv r.environ n =
        if n = posixlyCorrect then some [49] else getenv onceStarted.environ n := by
  have h : main onceStarted = .ok ⟨[[47, 97], [45, 110]], [47, 97], ⟨.mApp, 0, false, 0, 5⟩,
      onceStarted.put⟩ := rfl
  exact ⟨_, h, invocation_request onceStarted_executed h (by decide) 0 1000 1000 _⟩

end Applauncherd.Invoker.CommandLine
