import Applauncherd.Invoker.InvokeRemote
import Applauncherd.Launcherlib.Ending
import Applauncherd.Launcherlib.HandOver
import Applauncherd.Launcherlib.RoundTrip

namespace Applauncherd.Launcherlib.Launched

open Library Library.Environ Library.DescriptorTable Library.Credentials Protocol ReadSocket Receive
open Sections Magic RoundTrip Argv LaunchProcess HandOver Ending Invoker Invoker.Send

/-- An element of the array that `main` gets, the one after the last included. -/
inductive Element
  | string (s : Str)
  | null
  /-- The array is not that long, or what is there is not a string. -/
  | beyond
  deriving DecidableEq

/-- What `main` finds: its arguments, the variables, the standard descriptors. -/
structure Image where
  program : Str
  argc : ℤ
  argv : ℕ → Element
  getenv : Str → Option Str
  stdio : ℕ → Option OpenFile

/-- The image that `execve(prog_name, prog_argv, environ)` makes of the invoker,
as `invoke_fallback` calls it. -/
def invokeFallback (r : LaunchRequest) : Image where
  program := r.progName
  argc := r.argv.length
  argv i := (r.argv.map Element.string ++ [.null])[i]?.getD .beyond
  getenv := Environ.getenv r.environ
  stdio i := r.files[i]?

def element (argv : Option (List Slot)) (i : ℕ) : Element :=
  match argv.bind (·[i]?) with
  | some (.str buf) => if 0 ∈ buf then .string (cstr buf) else .beyond
  | some .null => .null
  | _ => .beyond

def image (r : Runtime) (app : AppData) : Image where
  program := app.fileName
  argc := app.argc.toInt
  argv := element app.argv
  getenv := Environ.getenv r.environ
  stdio i := if i < 3 then lookup r.files i else none

structure Booster extends Runtime where
  spaceAvailable : ℕ
  block : List UInt8
  name : Str
  oldPriority : ℤ
  deriving DecidableEq

structure Surroundings where
  kernel : Kernel
  /-- RLIMIT_NICE -/
  rlimitNice : ℕ
  boostedGid : UInt32
  initialArgv : List Str
  temporaryProcessName : Str
  /-- The write end of the pipe to the daemon, and the socket of the booster. -/
  pipeFd : ℕ
  socketFd : ℕ
  connection : OpenFile
  /-- What the constructor of the connection leaves in `m_gid` and `m_uid`. -/
  gid : UInt32
  uid : UInt32
  inst : Instance
  instanceLock : OpenFile

/-- The kernel keeps nice values from -20 to 19. A lower one than before takes a
privilege, or a resource limit that reaches it. -/
def mayLower (m : Surroundings) (creds : Creds) (nice : ℤ) : Bool :=
  creds.privileged || decide (20 - nice ≤ m.rlimitNice)

def setpriority (m : Surroundings) (nice : ℤ) (b : Booster) : Booster :=
  let nice := max (-20) (min 19 nice)
  if b.nice ≤ nice ∨ mayLower m b.creds nice then { b with nice := nice } else b

def pushPriority (m : Surroundings) (nice : ℤ) (b : Booster) : Booster :=
  setpriority m nice { b with oldPriority := b.nice }

def popPriority (m : Surroundings) (b : Booster) : Booster := setpriority m b.oldPriority b

def rename (m : Surroundings) (sourceArgc : ℤ) (sourceArgv : Option (List Slot)) (b : Booster) :
    Option Booster :=
  (renameProcess ⟨b.spaceAvailable, b.block, b.name, b.environ⟩ m.initialArgv sourceArgc
    sourceArgv).map fun t ↦ { b with
      spaceAvailable := t.spaceAvailable
      block := t.block
      name := t.name
      environ := t.environ }

def toProcess (b : Booster) : Process := b.toRuntime.toProcess

/-- `Booster::receiveDataFromInvoker`, with the number of the connection: none of
the booster's data but its environment and its descriptors is touched. -/
def receiveDataFromInvoker (m : Surroundings) (s : Socket) (b : Booster) :
    Option (AppData × Connection × Booster) :=
  let (fd, files) := install b.files m.connection
  let c := Connection.accepted s m.gid m.uid { toProcess b with files := files }
  match receiveApplicationData AppData.new c with
  | (false, _, _) => none
  | (true, app, c) =>
    let files := if c.sendPid then c.proc.files else close c.proc.files fd
    some (app, c, { b with environ := c.proc.environ, files := files })

/-- The files after the single-instance plugin has been asked, or `none` where
the booster exits. -/
def becomeInstance (m : Surroundings) (app : AppData) (b : Booster) : Option Booster :=
  if singleInstance app then
    match m.inst with
    | .noPlugin => some b
    | .first => some { b with files := (install b.files m.instanceLock).2 }
    | .running _ => none
  else some b

inductive Start
  | exited
  | fault
  | ready (app : AppData) (c : Connection) (b : Booster)

def initializeBooster (m : Surroundings) (s : Socket) (b : Booster) : Start :=
  let b := pushPriority m 10 b
  match rename m 1 (some [.str (m.temporaryProcessName ++ [0])]) b with
  | none => .fault
  | some b =>
    match receiveDataFromInvoker m s (popPriority m b) with
    | none => .exited
    | some (app, c, b) =>
      match becomeInstance m app b with
      | none => .exited
      | some b =>
        match rename m app.argc.toInt app.argv b with
        | none => .fault
        | some b => .ready app c { b with files := close b.files m.pipeFd }

def runBooster (m : Surroundings) (app : AppData) (c : Connection) (b : Booster) : Option Launch :=
  if app.fileName ≠ [] then
    let files := if c.sendPid then b.files else close b.files m.socketFd
    some (launchProcess m.kernel m.boostedGid { b.toRuntime with files := files } app)
  else none

/-- "_" -/
def underscore : Str := [95]

def cutName (arg : Str) : Str :=
  match strstr arg skypeLauncher, strstr arg launchSuffix with
  | some _, some i => arg.take i
  | _, _ => arg

def preloadedNice (m : Surroundings) (b : Booster) : ℤ :=
  if 10 ≤ b.nice ∨ mayLower m b.creds b.nice then b.nice else 10

/-- An application that the booster `b` has started for the request `r`, beside
the program that `execve` would have started. -/
structure LaunchedFor (m : Surroundings) (b : Booster) (r : LaunchRequest) (rt : Runtime)
    (app : AppData) : Prop where
  program : (image rt app).program = (invokeFallback r).program
  argc : (image rt app).argc = (invokeFallback r).argc
  argv : ∀ i, 0 < i → i < r.argv.length → (image rt app).argv i = (invokeFallback r).argv i
  name : (image rt app).argv 0 = .string (cutName r.name)
  /-- The array has no NULL after the last argument. -/
  unterminated : (image rt app).argv r.argv.length = .beyond
  getenv : ∀ n ≠ underscore, (image rt app).getenv n = (invokeFallback r).getenv n
  getenv_underscore : (image rt app).getenv underscore = some r.name
  stdio : (image rt app).stdio = (invokeFallback r).stdio
  pid : rt.pid = b.pid
  identity : Identity rt.creds r.uid r.gid ↔
    UserAttainable b.creds r.uid ∧ GroupAttainable b.creds m.boostedGid r.uid r.gid
  nice : rt.nice = max (preloadedNice m b) (min 19 r.prio.toInt)
  cwd : rt.cwd = (((invokeFallback r).getenv pwd).bind
    (m.kernel.chdir { rt with cwd := b.cwd })).getD b.cwd

variable {m : Surroundings} {b b' : Booster} {r : LaunchRequest} {files : Table OpenFile}

theorem setpriority_nice (m : Surroundings) {nice : ℤ} (h : -20 ≤ nice ∧ nice ≤ 19) (b : Booster) :
    setpriority m nice b =
      if b.nice ≤ nice ∨ mayLower m b.creds nice then { b with nice := nice } else b := by
  have hclamp : max (-20) (min 19 nice) = nice := by omega
  rw [setpriority, hclamp]

theorem popPriority_nice (hb : -20 ≤ b.nice ∧ b.nice ≤ 19)
    (hnice : b'.nice = (pushPriority m 10 b).nice) (hold : b'.oldPriority = b.nice)
    (hcreds : b'.creds = b.creds) : (popPriority m b').nice = preloadedNice m b := by
  have hpush : b'.nice = if b.nice ≤ 10 ∨ mayLower m b.creds 10 then 10 else b.nice := by
    rw [hnice, pushPriority, setpriority_nice m (by omega)]
    split_ifs <;> rfl
  have hraise : 10 ≤ b.nice → b'.nice ≤ b.nice := by
    intro hge
    rw [hpush]
    split_ifs with h
    · exact hge
    · exact le_rfl
  rw [popPriority, hold, setpriority_nice m hb, preloadedNice, hcreds]
  by_cases hge : 10 ≤ b.nice
  · rw [if_pos (.inl (hraise hge)), if_pos (.inl hge)]
  · rw [if_pos (.inl (by omega))] at hpush
    by_cases hmay : mayLower m b.creds b.nice = true
    · rw [if_pos (.inr hmay), if_pos (.inr hmay)]
    · have hlower : ¬(b'.nice ≤ b.nice ∨ mayLower m b.creds b.nice = true) := by
        rw [hpush]
        exact not_or.mpr ⟨hge, hmay⟩
      rw [if_neg hlower, if_neg (not_or.mpr ⟨hge, hmay⟩), hpush]

theorem restorePriority_nice (app : AppData) {rt : Runtime} (h : rt.nice ≤ 19) :
    (restorePriority app rt).nice = max rt.nice (min 19 app.prio.toInt) := by
  unfold restorePriority
  split_ifs with hlt
  · rw [max_eq_right (by omega)]
  · rw [max_eq_left (by omega)]

theorem preloadedNice_le (h : b.nice ≤ 19) : preloadedNice m b ≤ 19 := by
  unfold preloadedNice
  split_ifs <;> omega

theorem rename_eq {argc : ℤ} {argv : Option (List Slot)} {arg : Str} (hm : m.initialArgv ≠ [])
    (hargc : 0 < argc) (harg : stringAt argv 0 = some arg)
    (h : rename m argc argv b = some b') :
    b'.toRuntime = { b.toRuntime with environ := putenv b.environ (95 :: equals :: arg) } ∧
      b'.oldPriority = b.oldPriority := by
  obtain ⟨t, ht, rfl⟩ := Option.map_eq_some_iff.mp h
  rw [renameProcess, if_pos ⟨hargc, hm⟩, harg] at ht
  simp only [Option.bind_eq_bind, Option.bind_eq_some_iff, Option.some.injEq, exists_eq_left'] at ht
  obtain ⟨newArgv, -, rfl⟩ := ht
  exact ⟨rfl, rfl⟩

theorem rename_temporary (hm : m.initialArgv ≠ []) (b : Booster) :
    ∃ b', rename m 1 (some [.str (m.temporaryProcessName ++ [0])]) b = some b' ∧
      b'.toRuntime = { b.toRuntime with environ := b'.environ } ∧ b'.oldPriority = b.oldPriority := by
  have harg : stringAt (some [.str (m.temporaryProcessName ++ [0])]) 0 =
      some (cstr (m.temporaryProcessName ++ [0])) := by simp [stringAt]
  have happend : ∃ block, appendArgs (some [.str (m.temporaryProcessName ++ [0])]) 1 = some block :=
    ⟨_, by simp [appendArgs, harg]; rfl⟩
  obtain ⟨block, hblock⟩ := happend
  have hsome : ∃ b', rename m 1 (some [.str (m.temporaryProcessName ++ [0])]) b = some b' := by
    rw [rename, renameProcess, if_pos ⟨by decide, hm⟩, harg]
    simp [hblock]
  obtain ⟨b', hb'⟩ := hsome
  obtain ⟨hrt, hold⟩ := rename_eq hm (by decide) harg hb'
  refine ⟨b', hb', ?_, hold⟩
  rw [hrt]

structure Carries (r : LaunchRequest) (files : Table OpenFile) (a b c : ℕ) : Prop where
  above : 3 ≤ a ∧ 3 ≤ b ∧ 3 ≤ c
  distinct : a ≠ b ∧ a ≠ c ∧ b ≠ c
  stdin : lookup files a = some (r.io 0)
  stdout : lookup files b = some (r.io 1)
  stderr : lookup files c = some (r.io 2)

theorem Carries.close {i j k : ℕ} (h : Carries r files i j k) {n : ℕ} (hi : n ≠ i) (hj : n ≠ j)
    (hk : n ≠ k) : Carries r (close files n) i j k where
  above := h.above
  distinct := h.distinct
  stdin := by rw [lookup_close, if_neg hi.symm, h.stdin]
  stdout := by rw [lookup_close, if_neg hj.symm, h.stdout]
  stderr := by rw [lookup_close, if_neg hk.symm, h.stderr]

theorem Carries.install {i j k : ℕ} (h : Carries r files i j k) (f : OpenFile) :
    Carries r (install files f).2 i j k where
  above := h.above
  distinct := h.distinct
  stdin := installAll_frame files [f] h.stdin
  stdout := installAll_frame files [f] h.stdout
  stderr := installAll_frame files [f] h.stderr

theorem Carries.duplicate {i j k : ℕ} (h : Carries r files i j k) :
    lookup (duplicateFrom files 0 [(i : ℤ), (j : ℤ), (k : ℤ)]) 0 = some (r.io 0) ∧
      lookup (duplicateFrom files 0 [(i : ℤ), (j : ℤ), (k : ℤ)]) 1 = some (r.io 1) ∧
      lookup (duplicateFrom files 0 [(i : ℤ), (j : ℤ), (k : ℤ)]) 2 = some (r.io 2) := by
  obtain ⟨hi, hj, hk⟩ := h.above
  obtain ⟨hij, hik, hjk⟩ := h.distinct
  have oi : (lookup files i).isSome := by rw [h.stdin]; rfl
  have oj : (lookup files j).isSome := by rw [h.stdout]; rfl
  have ok : (lookup files k).isSome := by rw [h.stderr]; rfl
  have oj1 := round_open 0 oi oj hij.symm
  have ok1 := round_open 0 oi ok hik.symm
  have ok2 := round_open 1 oj1 ok1 hjk.symm
  have h1 := lookup_round oi 0
  have h2 := lookup_round oj1 1
  have h3 := lookup_round ok2 2
  rw [duplicate_eq]
  simp only [h3, h2, h1]
  have hstdin := h.stdin
  have hstdout := h.stdout
  have hstderr := h.stderr
  refine ⟨?_, ?_, ?_⟩ <;> grind

theorem three_le_of_fresh {t : Table OpenFile} (h : ∀ n < 3, (lookup t n).isSome) {n : ℕ}
    (hn : lookup t n = none) : 3 ≤ n := by
  by_contra hlt
  have hopen := h n (by omega)
  rw [hn] at hopen
  cases hopen

theorem carries_installed {t : Table OpenFile} (h : ∀ n < 3, (lookup t n).isSome) :
    ∃ i j k : ℕ, (installAll t r.files).1 = [i, j, k] ∧
      Carries r (installAll t r.files).2 i j k ∧
      ∀ n, (lookup t n).isSome → n ≠ i ∧ n ≠ j ∧ n ≠ k := by
  obtain ⟨hfresh, hnodup⟩ := installAll_fresh t r.files
  have hlookup := installAll_lookup t r.files
  obtain ⟨i, j, k, hijk⟩ := List.length_eq_three.mp (installAll_length t r.files)
  simp only [hijk, List.mem_cons, List.not_mem_nil, or_false, forall_eq_or_imp, forall_eq] at hfresh
  obtain ⟨hi, hj, hk⟩ := hfresh
  rw [hijk] at hlookup
  obtain ⟨hin, hlookup⟩ := List.cons.inj hlookup
  obtain ⟨hout, hlookup⟩ := List.cons.inj hlookup
  obtain ⟨herr, -⟩ := List.cons.inj hlookup
  simp only [hijk, List.nodup_cons, List.mem_cons, List.not_mem_nil, or_false, not_or,
    List.nodup_nil, not_false_eq_true, and_true] at hnodup
  refine ⟨i, j, k, hijk, ⟨⟨three_le_of_fresh h hi, three_le_of_fresh h hj, three_le_of_fresh h hk⟩,
    ⟨hnodup.1.1, hnodup.1.2, hnodup.2⟩, hin, hout, herr⟩, ?_⟩
  intro n hn
  refine ⟨?_, ?_, ?_⟩ <;>
  · rintro rfl
    simp_all

theorem receive_files (h : WithinLimits r) (dummy : UInt8) (c : Connection)
    (hc : c.fd = whole (invokeRemoteSends true dummy r)) :
    (receiveApplicationData AppData.new c).2.1.ioDescriptors =
        (installAll c.proc.files r.files).1.map (↑) ∧
      (receiveApplicationData AppData.new c).2.2.proc.files = (installAll c.proc.files r.files).2 ∧
      (receiveApplicationData AppData.new c).2.2.proc.pid = c.proc.pid := by
  have hh := header_send h.name true dummy
  have hr : request c.fd = (requestSections r, whole []) := by
    rw [request, hc, hh, sections_request h dummy]
  have hfin : Section.fin ∈ requestSections r := by simp [requestSections]
  rw [receiveApplicationData_eq, hr]
  simp only [hc, hh, r.name_ne, if_false, hfin, if_true, run_request]
  exact ⟨rfl, rfl, rfl⟩

theorem cstr_cutLaunch {arg : Str} (h : 0 ∉ arg) :
    cstr (cutLaunch arg (arg ++ [0])) = cutName arg := by
  unfold cutLaunch cutName
  have hwhole : cstr (arg ++ [0]) = arg := cstr_append_nul h []
  cases strstr arg skypeLauncher with
  | none => exact hwhole
  | some _ =>
    cases hi : strstr arg launchSuffix with
    | none => exact hwhole
    | some i =>
      have hlt : i < arg.length + 1 := List.mem_range.mp (List.mem_of_find?_eq_some hi)
      have hset : (arg ++ [0]).set i 0 = arg.take i ++ 0 :: (arg ++ [0]).drop (i + 1) := by
        rw [List.set_eq_take_append_cons_drop, if_pos (by simpa using hlt),
          List.take_append_of_le_length (by omega)]
      change cstr ((arg ++ [0]).set i 0) = arg.take i
      rw [hset]
      exact cstr_append_nul (fun hm ↦ h (List.mem_of_mem_take hm)) _

theorem zero_mem_cutLaunch (arg : Str) : 0 ∈ cutLaunch arg (arg ++ [0]) := by
  unfold cutLaunch
  split
  · rename_i i _ hi
    have hlt : i < arg.length + 1 := List.mem_range.mp (List.mem_of_find?_eq_some hi)
    exact List.mem_iff_getElem.mpr ⟨i, by simpa using hlt, by simp⟩
  · simp

def slots (r : LaunchRequest) : List Slot :=
  .str (cutLaunch r.name (r.name ++ [0])) :: r.args.map fun a ↦ .str (a ++ [0])

theorem skypeWorkaround_slots {app : AppData}
    (h : app.argv = some (r.argv.map fun a ↦ .str (a ++ [0]))) :
    stringAt app.argv 0 = some r.name ∧
      skypeWorkaround app = some { app with argv := some (slots r) } := by
  have harg : stringAt app.argv 0 = some r.name := by
    simp [stringAt, h, LaunchRequest.argv, cstr_append_nul r.name_text.1]
  refine ⟨harg, ?_⟩
  rw [skypeWorkaround, harg, h]
  rfl

theorem element_slots (r : LaunchRequest) (i : ℕ) :
    element (some (slots r)) i =
      match r.argv[i]? with
      | some arg => .string (if i = 0 then cutName arg else arg)
      | none => .beyond := by
  cases i with
  | zero =>
    simp [element, slots, LaunchRequest.argv, zero_mem_cutLaunch, cstr_cutLaunch r.name_text.1]
  | succ i =>
    simp only [element, slots, LaunchRequest.argv, Option.bind_some, List.getElem?_cons_succ,
      List.getElem?_map]
    cases hi : r.args[i]? with
    | none => rfl
    | some arg =>
      have htext := r.args_text arg (List.mem_of_getElem? hi)
      simp [cstr_append_nul htext.1]

theorem setpriority_frame (m : Surroundings) (nice : ℤ) (b : Booster) :
    setpriority m nice b = { b with nice := (setpriority m nice b).nice } := by
  unfold setpriority
  dsimp only
  split_ifs <;> rfl

theorem preloaded (hm : m.initialArgv ≠ []) (hb : -20 ≤ b.nice ∧ b.nice ≤ 19) :
    ∃ b', rename m 1 (some [.str (m.temporaryProcessName ++ [0])]) (pushPriority m 10 b) = some b' ∧
      (popPriority m b').toRuntime =
        { b.toRuntime with environ := b'.environ, nice := preloadedNice m b } := by
  obtain ⟨b', hb', hrt, hold⟩ := rename_temporary hm (pushPriority m 10 b)
  have hpush := setpriority_frame m 10 { b with oldPriority := b.nice }
  have hpush_rt : (pushPriority m 10 b).toRuntime =
      { b.toRuntime with nice := (pushPriority m 10 b).nice } := by
    rw [pushPriority, hpush]
  have hpush_old : (pushPriority m 10 b).oldPriority = b.nice := by
    rw [pushPriority, hpush]
  rw [hpush_rt] at hrt
  have hnice : b'.nice = (pushPriority m 10 b).nice := (congrArg Runtime.nice hrt :)
  have hcreds : b'.creds = b.creds := (congrArg Runtime.creds hrt :)
  refine ⟨b', hb', ?_⟩
  have hpop : (popPriority m b').toRuntime =
      { b'.toRuntime with nice := (popPriority m b').nice } := by
    rw [popPriority, setpriority_frame]
  rw [hpop, popPriority_nice hb hnice (hold.trans hpush_old) hcreds, hrt]

structure Got (m : Surroundings) (r : LaunchRequest) (b : Booster) (app : AppData) (c : Connection)
    (b' : Booster) : Prop where
  delivered : Delivered r app c
  sendPid : c.sendPid = (r.magicOptions &&& invokerMsgMagicOptionWait != 0)
  sent : c.sent = invokerMsgAck :: if c.sendPid then [invokerMsgPid, b.pid] else []
  files : ∃ i j k : ℕ, app.ioDescriptors = [(i : ℤ), (j : ℤ), (k : ℤ)] ∧
    Carries r b'.files i j k ∧
    (m.pipeFd ≠ i ∧ m.pipeFd ≠ j ∧ m.pipeFd ≠ k) ∧ m.socketFd ≠ i ∧ m.socketFd ≠ j ∧ m.socketFd ≠ k
  runtime : b'.toRuntime = { b.toRuntime with environ := c.proc.environ, files := b'.files }

theorem got (hlim : WithinLimits r) (hopen : ∀ n < 3, (lookup b.files n).isSome)
    (hpipe : (lookup b.files m.pipeFd).isSome) (hsocket : (lookup b.files m.socketFd).isSome)
    (dummy : UInt8) :
    ∃ app c b', receiveDataFromInvoker m (whole (invokeRemoteSends true dummy r)) b =
      some (app, c, b') ∧ Got m r b app c b' := by
  generalize hc₀ : Connection.accepted (whole (invokeRemoteSends true dummy r)) m.gid m.uid
    { toProcess b with files := (install b.files m.connection).2 } = c₀
  have hfd : c₀.fd = whole (invokeRemoteSends true dummy r) := by rw [← hc₀]; rfl
  have hproc : c₀.proc.files = (install b.files m.connection).2 := by rw [← hc₀]; rfl
  have hpid : c₀.proc.pid = b.pid := by rw [← hc₀]; rfl
  have hsent : c₀.sent = [] := by rw [← hc₀]; rfl
  obtain ⟨app, c, hrec, hdel, hsendPid, hack⟩ := receive_within hlim dummy AppData.new c₀ hfd
  obtain ⟨hio, hfiles, -⟩ := receive_files hlim dummy c₀ hfd
  rw [hrec] at hio hfiles
  have hkeep : ∀ n, (lookup b.files n).isSome → (lookup c₀.proc.files n).isSome := by
    intro n hn
    obtain ⟨f, hf⟩ := Option.isSome_iff_exists.mp hn
    have hframe : lookup (install b.files m.connection).2 n = some f :=
      installAll_frame b.files [m.connection] hf
    rw [hproc, hframe]
    rfl
  have hconn : (lookup c₀.proc.files (lowest b.files)).isSome := by
    rw [hproc, lookup_install, if_pos rfl]
    rfl
  obtain ⟨i, j, k, hijk, hcarries, hne⟩ := carries_installed (r := r) fun n hn ↦ hkeep n (hopen n hn)
  rw [← hfiles] at hcarries
  obtain ⟨hi, hj, hk⟩ := hne _ hconn
  refine ⟨app, c, { b with
    environ := c.proc.environ
    files := if c.sendPid then c.proc.files else close c.proc.files (lowest b.files) }, ?_, hdel,
    hsendPid, ?_, ⟨i, j, k, ?_, ?_, hne _ (hkeep _ hpipe), hne _ (hkeep _ hsocket)⟩, rfl⟩
  · have hlet : receiveDataFromInvoker m (whole (invokeRemoteSends true dummy r)) b =
        match receiveApplicationData AppData.new c₀ with
        | (false, _, _) => none
        | (true, app, c) => some (app, c, { b with
          environ := c.proc.environ
          files := if c.sendPid then c.proc.files else close c.proc.files (lowest b.files) }) := by
      rw [← hc₀]
      rfl
    rw [hlet, hrec]
  · rw [hack, hsent, hpid]
    rfl
  · rw [hio, hijk]
    rfl
  · change Carries r (if c.sendPid then _ else _) i j k
    split_ifs
    · exact hcarries
    · exact hcarries.close hi hj hk

theorem becomeInstance_some {app : AppData} (h : ¬Superseded m.inst app.options) (b : Booster) :
    ∃ b', becomeInstance m app b = some b' ∧ b'.toRuntime = { b.toRuntime with files := b'.files } ∧
      (b'.files = b.files ∨ b'.files = (install b.files m.instanceLock).2) := by
  unfold becomeInstance
  split_ifs with hs
  · split
    · exact ⟨b, rfl, rfl, .inl rfl⟩
    · exact ⟨_, rfl, rfl, .inr rfl⟩
    · rename_i activated hinst
      exact absurd ⟨by simpa [singleInstance] using hs, activated, hinst⟩ h
  · exact ⟨b, rfl, rfl, .inl rfl⟩

theorem slots_unterminated : element (some (slots r)) r.argv.length = .beyond := by
  rw [element_slots, List.getElem?_eq_none le_rfl]

theorem getenv_delivered {app : AppData} {c : Connection} (h : Delivered r app c) (n : Str) :
    Environ.getenv c.proc.environ n = Environ.getenv r.environ n := by
  ext v
  rw [h.environ, getenv_eq_some_iff r.environ_names]

theorem enterDirectory_cwd (k : Kernel) (rt : Runtime) :
    enterDirectory k rt = { rt with
      cwd := ((Environ.getenv rt.environ pwd).bind (k.chdir rt)).getD rt.cwd } := by
  unfold enterDirectory
  cases Environ.getenv rt.environ pwd <;> rfl

theorem launchProcess_delivered {app : AppData} (hargv : app.argv = some (r.argv.map fun a ↦ .str (a ++ [0])))
    (k : Kernel) (gid : UInt32) {rt : Runtime} (hnice : rt.nice ≤ 19) :
    ∃ rt', rt' = { rt with
        creds := takeIds gid app.uid app.gid rt.creds
        nice := max rt.nice (min 19 app.prio.toInt) } ∧
      (k.loads rt' app = false ∧ launchProcess k gid rt app = .died ∨
        launchProcess k gid rt app = .entered
          (enterDirectory k { rt' with files := duplicateFrom rt.files 0 app.ioDescriptors })
          { app with argv := some (slots r) }) := by
  have hrestore : restorePriority app rt = { rt with nice := max rt.nice (min 19 app.prio.toInt) } := by
    rw [← restorePriority_nice app hnice]
    unfold restorePriority
    split_ifs <;> rfl
  refine ⟨_, rfl, ?_⟩
  obtain ⟨-, hskype⟩ := skypeWorkaround_slots hargv
  rw [launchProcess, hrestore]
  dsimp only
  split_ifs with hloads
  · exact .inr (by rw [hskype])
  · exact .inl ⟨by simpa using hloads, rfl⟩

theorem launchedFor {app : AppData} {c : Connection} (hdel : Delivered r app c) {i j k : ℕ}
    (hio : app.ioDescriptors = [(i : ℤ), (j : ℤ), (k : ℤ)]) {rt rt' : Runtime}
    (hcarries : Carries r rt.files i j k)
    (hrt : rt = { b.toRuntime with
      environ := putenv c.proc.environ (95 :: equals :: r.name)
      files := rt.files
      nice := preloadedNice m b })
    (hrt' : rt' = { rt with
      creds := takeIds m.boostedGid app.uid app.gid rt.creds
      nice := max rt.nice (min 19 app.prio.toInt) }) :
    LaunchedFor m b r (enterDirectory m.kernel { rt' with
      files := duplicateFrom rt.files 0 app.ioDescriptors }) { app with argv := some (slots r) } := by
  have hnames : Environ.name (95 :: equals :: r.name) = underscore := rfl
  have hvalue : Environ.value (95 :: equals :: r.name) = r.name := rfl
  have henv : rt'.environ = putenv c.proc.environ (95 :: equals :: r.name) := by rw [hrt', hrt]
  have hgetenv : ∀ n, Environ.getenv rt'.environ n =
      if n = underscore then some r.name else Environ.getenv r.environ n := by
    intro n
    rw [henv, getenv_putenv, hnames, hvalue, getenv_delivered hdel]
  have hcreds : rt'.creds = takeIds m.boostedGid r.uid r.gid b.creds := by
    rw [hrt', hrt, hdel.uid, hdel.gid]
  have hnice : rt'.nice = max (preloadedNice m b) (min 19 r.prio.toInt) := by
    rw [hrt', hrt, hdel.prio]
  have hcwd : rt'.cwd = b.cwd := by rw [hrt', hrt]
  have hpid : rt'.pid = b.pid := by rw [hrt', hrt]
  rw [enterDirectory_cwd]
  have helement := element_slots r
  constructor
  case program => exact hdel.fileName
  case argc => exact hdel.argc
  case argv =>
    intro n hn hlt
    change element (some (slots r)) n = _
    have hmap : (r.argv.map Element.string ++ [.null])[n]? = some (.string r.argv[n]) := by
      rw [List.getElem?_append_left (by simpa using hlt), List.getElem?_map,
        List.getElem?_eq_getElem hlt]
      rfl
    rw [helement, List.getElem?_eq_getElem hlt]
    simp only [invokeFallback, hmap, if_neg (Nat.pos_iff_ne_zero.mp hn), Option.getD_some]
  case name => exact helement 0
  case unterminated => exact slots_unterminated
  case getenv =>
    intro n hn
    exact (hgetenv n).trans (if_neg hn)
  case getenv_underscore => exact (hgetenv underscore).trans (if_pos rfl)
  case stdio =>
    obtain ⟨h0, h1, h2⟩ := hcarries.duplicate
    funext n
    simp only [image, hio]
    match n with
    | 0 => exact h0
    | 1 => exact h1
    | 2 => exact h2
    | n + 3 => rfl
  case pid => exact hpid
  case identity =>
    dsimp only
    rw [hcreds]
    exact takeIds_iff _ _ _ _
  case nice => exact hnice
  case cwd =>
    dsimp only [invokeFallback]
    rw [hgetenv pwd, if_neg (by decide), hcwd]

theorem argvOf_delivered {app : AppData} {c : Connection} (h : Delivered r app c) :
    ArgvOf app (r.argv.map fun a ↦ .str (a ++ [0])) where
  argv := h.argv
  argc := by rw [h.argc, List.length_map]
  ne := List.cons_ne_nil _ _
  strings := by
    intro slot hs
    obtain ⟨a, -, rfl⟩ := List.mem_map.mp hs
    exact ⟨a ++ [0], rfl, by simp⟩

theorem rename_delivered {app : AppData} {c : Connection} (h : Delivered r app c)
    (hm : m.initialArgv ≠ []) (b : Booster) :
    ∃ b', rename m app.argc.toInt app.argv b = some b' ∧
      b'.toRuntime = { b.toRuntime with environ := putenv b.environ (95 :: equals :: r.name) } := by
  obtain ⟨t, ht⟩ := (argvOf_delivered h).renameProcess
    ⟨b.spaceAvailable, b.block, b.name, b.environ⟩ m.initialArgv
  have hsome : rename m app.argc.toInt app.argv b = some { b with
      spaceAvailable := t.spaceAvailable
      block := t.block
      name := t.name
      environ := t.environ } := by rw [rename, ht]; rfl
  have hargc : 0 < app.argc.toInt := by
    rw [h.argc]
    exact Int.natCast_pos.mpr (Nat.succ_pos _)
  exact ⟨_, hsome, (rename_eq hm hargc (skypeWorkaround_slots h.argv).1 hsome).1⟩

/-- A booster that loads the program starts it as `execve` would, but for what
`LaunchedFor` names: the variable `_`, the end of `argv`, ids that it cannot
attain and a nice value that it cannot take back. -/
theorem launched_like_execve (m : Surroundings) (b : Booster) (r : LaunchRequest)
    (hlim : WithinLimits r) (hinst : ¬Superseded m.inst r.magicOptions)
    (hargv : m.initialArgv ≠ []) (hopen : ∀ n < 3, (lookup b.files n).isSome)
    (hpipe : (lookup b.files m.pipeFd).isSome) (hsocket : (lookup b.files m.socketFd).isSome)
    (hnice : -20 ≤ b.nice ∧ b.nice ≤ 19) (dummy : UInt8) :
    ∃ app c b', initializeBooster m (whole (invokeRemoteSends true dummy r)) b = .ready app c b' ∧
      (c.sent = invokerMsgAck :: if r.magicOptions &&& invokerMsgMagicOptionWait ≠ 0 then
        [invokerMsgPid, b.pid] else []) ∧
      ((∃ rt, m.kernel.loads rt app = false ∧ runBooster m app c b' = some .died) ∨
        ∃ rt app', runBooster m app c b' = some (.entered rt app') ∧ LaunchedFor m b r rt app') := by
  obtain ⟨b₁, hren, hrt₁⟩ := preloaded hargv hnice
  have hfiles₁ : (popPriority m b₁).files = b.files := (congrArg (·.files) hrt₁ :)
  have hpid₁ : (popPriority m b₁).pid = b.pid := (congrArg (·.pid) hrt₁ :)
  obtain ⟨app, c, b₂, hrec, hgot⟩ := got (b := popPriority m b₁) (m := m) hlim
    (by rwa [hfiles₁]) (by rwa [hfiles₁]) (by rwa [hfiles₁]) dummy
  obtain ⟨i, j, k, hio, hcarries, ⟨hpi, hpj, hpk⟩, hsi, hsj, hsk⟩ := hgot.files
  obtain ⟨b₃, hinst₃, hrt₃, hfiles₃⟩ := becomeInstance_some (hgot.delivered.options ▸ hinst) b₂
  have hcarries₃ : Carries r b₃.files i j k := by
    obtain h | h := hfiles₃
    · rwa [h]
    · rw [h]
      exact hcarries.install _
  obtain ⟨b₄, hren₄, hrt₄⟩ := rename_delivered hgot.delivered hargv b₃
  rw [hrt₃, hgot.runtime, hrt₁] at hrt₄
  have hready : initializeBooster m (whole (invokeRemoteSends true dummy r)) b =
      .ready app c { b₄ with files := close b₄.files m.pipeFd } := by
    simp only [initializeBooster, hren, hrec, hinst₃, hren₄]
  have hfiles₄ : b₄.files = b₃.files := (congrArg (·.files) hrt₄ :)
  have hcarries₄ : Carries r (if c.sendPid then close b₄.files m.pipeFd
      else close (close b₄.files m.pipeFd) m.socketFd) i j k := by
    rw [hfiles₄]
    split_ifs
    · exact hcarries₃.close hpi hpj hpk
    · exact (hcarries₃.close hpi hpj hpk).close hsi hsj hsk
  refine ⟨app, c, _, hready, ?_, ?_⟩
  · rw [hgot.sent, hgot.sendPid, hpid₁]
    simp only [bne_iff_ne]
  · have hfile : app.fileName ≠ [] := by
      rw [hgot.delivered.fileName]
      exact fun h ↦ by simpa [h] using r.progName_absolute
    rw [runBooster, if_pos hfile]
    dsimp only
    generalize (if c.sendPid then close b₄.files m.pipeFd
      else close (close b₄.files m.pipeFd) m.socketFd) = files at hcarries₄
    have hrt : ({ b₄.toRuntime with files := files } : Runtime) = { b.toRuntime with
        environ := putenv c.proc.environ (95 :: equals :: r.name)
        files := files
        nice := preloadedNice m b } := by
      rw [hrt₄]
    generalize hrt' : ({ b₄.toRuntime with files := files } : Runtime) = rt at hrt ⊢
    have hnice' : rt.nice ≤ 19 := by
      rw [hrt]
      exact preloadedNice_le hnice.2
    have hfiles : rt.files = files := by rw [hrt]
    obtain ⟨rt', hrt', hlaunch⟩ := launchProcess_delivered hgot.delivered.argv m.kernel m.boostedGid
      hnice'
    rw [← hfiles] at hcarries₄
    obtain ⟨hloads, hdied⟩ | hentered := hlaunch
    · exact .inl ⟨rt', hloads, congrArg some hdied⟩
    · refine .inr ⟨_, _, congrArg some hentered, ?_⟩
      rw [← hfiles] at hrt
      exact launchedFor hgot.delivered hio hcarries₄ hrt hrt'

/-- A booster of the root user with a pipe at 3 and a socket at 4. -/
def rootBooster : Booster where
  toRuntime := { rootRuntime with files := [some 0, some 0, some 0, some 8, some 9] }
  spaceAvailable := 0
  block := []
  name := []
  oldPriority := 0

def anySurroundings : Surroundings where
  kernel := anyKernel
  rlimitNice := 0
  boostedGid := 126
  initialArgv := [[97]]
  temporaryProcessName := [98]
  pipeFd := 3
  socketFd := 4
  connection := 7
  gid := 0
  uid := 0
  inst := .noPlugin
  instanceLock := 6

theorem launched_like_execve_small :
    ∃ app c b', initializeBooster anySurroundings
        (whole (invokeRemoteSends true 0 InvokeRemote.smallRequest)) rootBooster = .ready app c b' ∧
      (c.sent = invokerMsgAck ::
        if InvokeRemote.smallRequest.magicOptions &&& invokerMsgMagicOptionWait ≠ 0 then
          [invokerMsgPid, rootBooster.pid] else []) ∧
      ((∃ rt, anySurroundings.kernel.loads rt app = false ∧
          runBooster anySurroundings app c b' = some .died) ∨
        ∃ rt app', runBooster anySurroundings app c b' = some (.entered rt app') ∧
          LaunchedFor anySurroundings rootBooster InvokeRemote.smallRequest rt app') :=
  launched_like_execve anySurroundings rootBooster InvokeRemote.smallRequest
    InvokeRemote.smallRequest_within (fun h ↦ by obtain ⟨-, activated, h⟩ := h; cases h)
    (by decide) (by decide) (by decide) (by decide) (by decide) 0

end Applauncherd.Launcherlib.Launched
