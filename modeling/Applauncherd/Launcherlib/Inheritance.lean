import Applauncherd.Library.DescriptorCalls
import Applauncherd.Launcherlib.MainLoop
import Applauncherd.Launcherlib.StartUp
import Mathlib.Data.Set.Insert

namespace Applauncherd.Launcherlib.Inheritance

open Library.DescriptorTable Library.DescriptorCalls
open StartUp (Flags)
open MainLoop (Registry)

inductive Pipe
  | booster
  | sigChld
  | sigTerm
  | sigUsr1
  deriving DecidableEq

inductive File
  /-- Something that the daemon was started with. -/
  | inherited (k : ℕ)
  | null
  | lockFile
  | pipe (p : Pipe) (writeEnd : Bool)
  /-- The socket on which boosters of a type accept connections. -/
  | socket (type : UInt8)
  | connection
  /-- What the invoker has as its descriptor `i`. -/
  | invokers (i : ℕ)
  | instanceLock
  /-- An end of `m_sighupFd`. -/
  | sighup (second : Bool)
  deriving DecidableEq

/-- Which `receiveDataFromInvoker` is run: that of `Booster`, or the event loop of
`MBooster` with its socket pair, before, while or after the other thread accepts. -/
inductive SocketPair
  | none
  | before
  | between
  | after
  deriving DecidableEq

def File.Own : File → Prop
  | inherited _ | null => False
  | _ => True

/-- A descriptor table, and the number that each file was opened at: `m_lockFd`,
the ends of the pipes, the socket hash, `m_fd` and `m_io`. -/
structure State where
  fds : Table File
  number : File → ℕ

def State.opens (s : State) (f : File) : State where
  fds := (install s.fds f).2
  number := Function.update s.number f (install s.fds f).1

def State.closes (s : State) (f : File) : State := { s with fds := close s.fds (s.number f) }

def openNull (fds : Table File) : Table File := (install fds .null).2

def consoleQuiet (s : State) : State :=
  { s with fds := openNull (openNull (openNull (close (close (close s.fds 0) 1) 2))) }

def redirect (i : ℕ) (s : State) : State :=
  let (new_fd, fds) := install s.fds .null
  { s with fds := close (dup2 fds new_fd i) new_fd }

def daemonize (s : State) : State := redirect 2 (redirect 1 (redirect 0 s))

def pipe (s : State) (p : Pipe) : State := (s.opens (.pipe p false)).opens (.pipe p true)

/-- `Daemon::lock`, the constructor and `initBoosterSockets`. -/
def startDaemon (flags : Flags) (registry : Registry) (s : State) : State :=
  let s := s.opens .lockFile
  let s := if flags.quiet then consoleQuiet s else s
  let s := pipe (pipe (pipe (pipe s .booster) .sigChld) .sigTerm) .sigUsr1
  let s := if flags.daemon then daemonize s else s
  registry.types.foldl (fun s type ↦ s.opens (.socket type)) s

def closeUnusedSockets (registry : Registry) (type : UInt8) (s : State) : State :=
  registry.types.foldl (fun s type' ↦ if type' ≠ type then s.closes (.socket type') else s) s

/-- The child's side of `forkBooster`, up to `BoosterFactory::create`. -/
def forkBooster (registry : Registry) (type : UInt8) (s : State) : State :=
  let s := s.closes (.pipe .booster false)
  let s := (s.closes (.pipe .sigChld false)).closes (.pipe .sigChld true)
  let s := (s.closes (.pipe .sigTerm false)).closes (.pipe .sigTerm true)
  let s := (s.closes (.pipe .sigUsr1 false)).closes (.pipe .sigUsr1 true)
  (closeUnusedSockets registry type s).closes .lockFile

def accept (pair : SocketPair) (s : State) : State :=
  match pair with
  | .none => s.opens .connection
  | .before => ((s.opens (.sighup false)).opens (.sighup true)).opens .connection
  | .between => ((s.opens (.sighup false)).opens .connection).opens (.sighup true)
  | .after => ((s.opens .connection).opens (.sighup false)).opens (.sighup true)

def receiveDataFromInvoker (pair : SocketPair) (wait : Bool) (s : State) : State :=
  let s := accept pair s
  let s := ((s.opens (.invokers 0)).opens (.invokers 1)).opens (.invokers 2)
  if wait then s else s.closes .connection

def initializeBooster (pair : SocketPair) (wait single : Bool) (s : State) : State :=
  let s := receiveDataFromInvoker pair wait s
  let s := if single then s.opens .instanceLock else s
  s.closes (.pipe .booster true)

def duplicateCalls (i : ℕ) : List ℤ → List Call
  | [] => []
  | fd :: fds =>
    (if 0 < fd then [.dup2 fd.toNat i, .close fd.toNat] else []) ++ duplicateCalls (i + 1) fds

def runBooster (wait : Bool) (type : UInt8) (s : State) : State :=
  let s := if wait then s else s.closes (.socket type)
  let io : List ℤ := [s.number (.invokers 0), s.number (.invokers 1), s.number (.invokers 2)]
  { s with fds := run s.fds (duplicateCalls 0 io) }

def application (flags : Flags) (registry : Registry) (type : UInt8) (pair : SocketPair)
    (wait single : Bool) (s : State) : State :=
  runBooster wait type (initializeBooster pair wait single (forkBooster registry type
    (startDaemon flags registry s)))

variable {given : Table File} {s : State} {S : Set File} {f : File}

/-- The standard descriptors are open, the files of `S` and no others of the
launcher are open above them, each once, and nothing is lost there of what was given. -/
structure Holds (given : Table File) (S : Set File) (s : State) : Prop where
  standard : ∀ n < 3, (lookup s.fds n).isSome
  mem : ∀ f ∈ S, f.Own ∧ 3 ≤ s.number f ∧ ∀ n, lookup s.fds n = some f ↔ n = s.number f
  not_mem : ∀ f ∉ S, f.Own → ∀ n, lookup s.fds n ≠ some f
  others : ∀ n f, 3 ≤ n → ¬f.Own → (lookup s.fds n = some f ↔ lookup given n = some f)

theorem three_le_lowest {t : Table File} (h : ∀ n < 3, (lookup t n).isSome) : 3 ≤ lowest t := by
  by_contra hlt
  have hopen := h (lowest t) (by omega)
  rw [lookup_lowest] at hopen
  cases hopen

theorem Holds.opens (h : Holds given S s) (hown : f.Own) (hf : f ∉ S) :
    Holds given (insert f S) (s.opens f) := by
  have hlow := three_le_lowest h.standard
  have hlookup : ∀ n, lookup (s.opens f).fds n = if n = lowest s.fds then some f else lookup s.fds n :=
    fun n ↦ lookup_install s.fds f n
  have hfree := lookup_lowest s.fds
  constructor
  case standard =>
    intro n hn
    rw [hlookup, if_neg (by omega)]
    exact h.standard n hn
  case mem =>
    intro g hg
    by_cases hgf : g = f
    · subst hgf
      have hnum : (s.opens g).number g = lowest s.fds := Function.update_self ..
      refine ⟨hown, by omega, fun n ↦ ?_⟩
      rw [hlookup, hnum]
      split_ifs with hn
      · simp [hn]
      · simpa [hn] using h.not_mem g hf hown n
    · have hnum : (s.opens f).number g = s.number g := Function.update_of_ne hgf ..
      obtain ⟨hown', hge, hg⟩ := h.mem g (hg.resolve_left hgf)
      refine ⟨hown', by omega, fun n ↦ ?_⟩
      rw [hlookup, hnum, ← hg]
      split_ifs with hn
      · subst hn
        simp [hfree, Ne.symm hgf]
      · rfl
  case not_mem =>
    intro g hg hown' n
    rw [hlookup]
    split_ifs
    · exact fun heq ↦ hg (.inl (Option.some.inj heq).symm)
    · exact h.not_mem g (fun hm ↦ hg (.inr hm)) hown' n
  case others =>
    intro n g hn hg
    rw [hlookup, ← h.others n g hn hg]
    split_ifs with hlow'
    · subst hlow'
      have hne : f ≠ g := fun heq ↦ hg (heq ▸ hown)
      simp [hfree, hne]
    · rfl

theorem Holds.closes (h : Holds given S s) (hf : f ∈ S) : Holds given (S \ {f}) (s.closes f) := by
  obtain ⟨hown, hge, hnum⟩ := h.mem f hf
  have hat : lookup s.fds (s.number f) = some f := (hnum _).mpr rfl
  have hlookup : ∀ n, lookup (s.closes f).fds n =
      if n = s.number f then none else lookup s.fds n := fun n ↦ lookup_close ..
  constructor
  case standard =>
    intro n hn
    rw [hlookup, if_neg (by omega)]
    exact h.standard n hn
  case mem =>
    intro g hg
    obtain ⟨hg, hgf⟩ := hg
    obtain ⟨hown', hge', hg⟩ := h.mem g hg
    refine ⟨hown', hge', fun n ↦ ?_⟩
    rw [hlookup]
    split_ifs with hn
    · subst hn
      have hne : s.number f ≠ s.number g := by
        intro heq
        have := (hg _).mpr heq
        rw [hat] at this
        exact hgf (Option.some.inj this).symm
      exact ⟨fun h ↦ (by cases h), fun h ↦ absurd h hne⟩
    · exact hg n
  case not_mem =>
    intro g hg hown' n
    rw [hlookup]
    split_ifs with hn
    · exact nofun
    · by_cases hgf : g = f
      · subst hgf
        exact fun heq ↦ hn ((hnum n).mp heq)
      · exact h.not_mem g (fun hm ↦ hg ⟨hm, hgf⟩) hown' n
  case others =>
    intro n g hn hg
    rw [hlookup, ← h.others n g hn hg]
    split_ifs with heq
    · subst heq
      have hne : f ≠ g := fun heq ↦ hg (heq ▸ hown)
      simp [hat, hne]
    · rfl

theorem isSome_of_lt_lowest {t : Table File} {n : ℕ} (h : n < lowest t) :
    (lookup t n).isSome := by
  have hlt : n < t.length := lt_of_lt_of_le h List.findIdx_le_length
  have hn := List.not_of_lt_findIdx h
  rw [lookup, List.getElem?_eq_getElem hlt]
  simpa [Option.isNone_iff_eq_none, Option.isSome_iff_ne_none] using hn

theorem lowest_eq {t : Table File} {n : ℕ} (hfree : lookup t n = none)
    (hopen : ∀ m < n, (lookup t m).isSome) : lowest t = n := by
  refine le_antisymm (Nat.le_of_not_lt fun hlt ↦ ?_) (Nat.le_of_not_lt fun hlt ↦ ?_)
  · have hsome := isSome_of_lt_lowest hlt
    rw [hfree] at hsome
    cases hsome
  · have hsome := hopen _ hlt
    rw [lookup_lowest] at hsome
    cases hsome

theorem Holds.replace (h : Holds given S s) {s' : State} (hnum : s'.number = s.number)
    (hhigh : ∀ n, 3 ≤ n → lookup s'.fds n = lookup s.fds n)
    (hlow : ∀ n < 3, ∃ g, lookup s'.fds n = some g ∧ ¬g.Own) : Holds given S s' := by
  constructor
  case standard =>
    intro n hn
    obtain ⟨g, hg, -⟩ := hlow n hn
    rw [hg]
    rfl
  case mem =>
    intro f hf
    obtain ⟨hown, hge, hat⟩ := h.mem f hf
    rw [hnum]
    refine ⟨hown, hge, fun n ↦ ?_⟩
    rcases Nat.lt_or_ge n 3 with hn | hn
    · obtain ⟨g, hg, hno⟩ := hlow n hn
      rw [hg]
      constructor
      · exact fun heq ↦ absurd (Option.some.inj heq ▸ hown) hno
      · intro heq
        omega
    · rw [hhigh n hn]
      exact hat n
  case not_mem =>
    intro f hf hown n
    rcases Nat.lt_or_ge n 3 with hn | hn
    · obtain ⟨g, hg, hno⟩ := hlow n hn
      rw [hg]
      exact fun heq ↦ hno (Option.some.inj heq ▸ hown)
    · rw [hhigh n hn]
      exact h.not_mem f hf hown n
  case others =>
    intro n f hn hf
    rw [hhigh n hn]
    exact h.others n f hn hf

def Reopened (s : State) (k : ℕ) (t : Table File) : Prop :=
  ∀ n, lookup t n = if n < k then some .null else if n < 3 then none else lookup s.fds n

theorem Reopened.openNull {k : ℕ} {t : Table File} (h : Reopened s k t) (hk : k < 3) :
    Reopened s (k + 1) (openNull t) := by
  have hlow : lowest t = k := by
    refine lowest_eq ?_ fun m hm ↦ ?_
    · rw [h, if_neg (lt_irrefl k), if_pos hk]
    · rw [h, if_pos hm]
      rfl
  intro n
  rw [Inheritance.openNull, lookup_install, hlow, h]
  by_cases hn : n = k
  · rw [if_pos hn, if_pos (by omega)]
  · rw [if_neg hn]
    have hiff : n < k ↔ n < k + 1 := by omega
    simp only [hiff]

theorem consoleQuiet_lookup (s : State) (n : ℕ) :
    lookup (consoleQuiet s).fds n = if n < 3 then some .null else lookup s.fds n := by
  have h₀ : Reopened s 0 (close (close (close s.fds 0) 1) 2) := by
    intro n
    match n with
    | 0 | 1 | 2 => simp
    | n + 3 => simp
  have h₃ := ((h₀.openNull (by omega)).openNull (by omega)).openNull (by omega) n
  rw [consoleQuiet, h₃]
  by_cases hn : n < 3
  · rw [if_pos hn, if_pos hn]
  · rw [if_neg hn, if_neg hn, if_neg hn]

theorem Holds.consoleQuiet (h : Holds given S s) : Holds given S (consoleQuiet s) := by
  have hnum : (Inheritance.consoleQuiet s).number = s.number := by rw [Inheritance.consoleQuiet]
  refine h.replace hnum (fun n hn ↦ ?_) fun n hn ↦ ⟨.null, ?_, id⟩
  · rw [consoleQuiet_lookup, if_neg (by omega)]
  · rw [consoleQuiet_lookup, if_pos hn]

theorem redirect_lookup {i : ℕ} (hopen : ∀ n < 3, (lookup s.fds n).isSome) (hi : i < 3) (n : ℕ) :
    lookup (redirect i s).fds n = if n = i then some .null else lookup s.fds n := by
  have hlow := three_le_lowest hopen
  have hat : lookup (install s.fds .null).2 (lowest s.fds) = some .null := by
    rw [lookup_install, if_pos rfl]
  change lookup (close (dup2 (install s.fds .null).2 (lowest s.fds) i) (lowest s.fds)) n = _
  rw [lookup_close, lookup_dup2 hat, lookup_install]
  by_cases hn : n = lowest s.fds
  · rw [if_pos hn, if_neg (by omega), hn, lookup_lowest]
  · rw [if_neg hn, if_neg hn]

theorem Holds.low (h : Holds given S s) {n : ℕ} (hn : n < 3) :
    ∃ g, lookup s.fds n = some g ∧ ¬g.Own := by
  obtain ⟨g, hg⟩ := Option.isSome_iff_exists.mp (h.standard n hn)
  refine ⟨g, hg, fun hown ↦ ?_⟩
  by_cases hm : g ∈ S
  · obtain ⟨-, hge, hat⟩ := h.mem g hm
    have := (hat n).mp hg
    omega
  · exact h.not_mem g hm hown n hg

theorem Holds.redirect (h : Holds given S s) {i : ℕ} (hi : i < 3) :
    Holds given S (redirect i s) := by
  refine h.replace rfl (fun n hn ↦ ?_) fun n hn ↦ ?_
  · rw [redirect_lookup h.standard hi, if_neg (by omega)]
  · rw [redirect_lookup h.standard hi]
    split_ifs
    · exact ⟨.null, rfl, id⟩
    · exact h.low hn

theorem Holds.congr (h : Holds given S s) {S' : Set File} (hS : S = S') : Holds given S' s := hS ▸ h

theorem Holds.openSockets {types : List UInt8} (h : Holds given S s) (hn : types.Nodup)
    (hno : ∀ type ∈ types, .socket type ∉ S) :
    Holds given (S ∪ {f | ∃ type ∈ types, f = .socket type})
      (types.foldl (fun s type ↦ s.opens (.socket type)) s) := by
  induction types generalizing s S with
  | nil => exact h.congr (by simp)
  | cons type types ih =>
    obtain ⟨hnot, hn⟩ := List.nodup_cons.mp hn
    obtain ⟨hfree, hno⟩ := List.forall_mem_cons.mp hno
    have ho : File.Own (.socket type) := trivial
    refine (ih (h.opens ho hfree) hn fun type' ht hm ↦ ?_).congr ?_
    · obtain heq | hm := hm
      · cases heq
        exact hnot ht
      · exact hno type' ht hm
    · ext f
      simp only [Set.mem_union, Set.mem_insert_iff, Set.mem_ofPred_eq, List.mem_cons, exists_eq_or_imp]
      tauto

theorem Holds.closeSockets {types : List UInt8} (h : Holds given S s) (hn : types.Nodup)
    (type : UInt8) (hm : ∀ type' ∈ types, .socket type' ∈ S) :
    Holds given (S \ {f | ∃ type' ∈ types, type' ≠ type ∧ f = .socket type'})
      (types.foldl (fun s type' ↦ if type' ≠ type then s.closes (.socket type') else s) s) := by
  induction types generalizing s S with
  | nil => exact h.congr (by simp)
  | cons type' types ih =>
    obtain ⟨hnot, hn⟩ := List.nodup_cons.mp hn
    obtain ⟨hopen, hm⟩ := List.forall_mem_cons.mp hm
    rw [List.foldl_cons]
    split_ifs with hne
    · refine (ih (h.closes hopen) hn fun t ht ↦ ⟨hm t ht, fun heq ↦ ?_⟩).congr ?_
      · cases heq
        exact hnot ht
      · ext f
        simp only [Set.mem_sdiff, Set.mem_singleton_iff, Set.mem_ofPred_eq, List.mem_cons,
          exists_eq_or_imp, not_or, hne, ne_eq, not_false_eq_true, true_and, and_assoc]
    · refine (ih h hn hm).congr ?_
      ext f
      simp only [Set.mem_sdiff, Set.mem_ofPred_eq, List.mem_cons, exists_eq_or_imp, hne, false_and,
        false_or]

def daemonFiles (registry : Registry) : Set File :=
  {f | f = .lockFile ∨ (∃ p writeEnd, f = .pipe p writeEnd) ∨ ∃ type ∈ registry.types, f = .socket type}

def boosterFiles (type : UInt8) : Set File := {.pipe .booster true, .socket type}

/-- What the application is left with beside its standard descriptors. -/
def leftFiles (type : UInt8) (pair : SocketPair) (wait single : Bool) : Set File :=
  {f | wait = true ∧ (f = .connection ∨ f = .socket type) ∨ single = true ∧ f = .instanceLock ∨
    pair ≠ .none ∧ ∃ second, f = .sighup second}

theorem Holds.pipe (h : Holds given S s) {p : Pipe} (hr : .pipe p false ∉ S) (hw : .pipe p true ∉ S) :
    Holds given (S ∪ {f | ∃ writeEnd, f = .pipe p writeEnd}) (pipe s p) := by
  have hone : File.pipe p true ∉ insert (.pipe p false) S := by simp [hw]
  have hopen : ∀ w, File.Own (.pipe p w) := fun _ ↦ trivial
  refine ((h.opens (hopen false) hr).opens (hopen true) hone).congr ?_
  ext f
  simp only [Set.mem_insert_iff, Set.mem_union, Set.mem_ofPred_eq, Bool.exists_bool]
  tauto

theorem startDaemon_holds (flags : Flags) (registry : Registry) (h : Holds given ∅ s) :
    Holds given (daemonFiles registry) (startDaemon flags registry s) := by
  have hlock : Holds given {.lockFile} (s.opens .lockFile) :=
    (h.opens (f := .lockFile) trivial (Set.notMem_empty _)).congr (insert_empty_eq _)
  have hquiet : Holds given {.lockFile}
      (if flags.quiet then consoleQuiet (s.opens .lockFile) else s.opens .lockFile) := by
    split_ifs
    · exact hlock.consoleQuiet
    · exact hlock
  have hpipes := (((hquiet.pipe (p := .booster) (by simp) (by simp)).pipe (p := .sigChld)
    (by simp) (by simp)).pipe (p := .sigTerm) (by simp) (by simp)).pipe (p := .sigUsr1)
    (by simp) (by simp)
  have hdaemon : ∀ {S : Set File} {s : State}, Holds given S s →
      Holds given S (if flags.daemon then daemonize s else s) := by
    intro S s hs
    split_ifs
    · exact ((hs.redirect (by omega)).redirect (by omega)).redirect (by omega)
    · exact hs
  refine ((hdaemon hpipes).openSockets registry.nodup fun type _ ↦ by simp).congr ?_
  ext f
  simp only [daemonFiles, Set.mem_union, Set.mem_singleton_iff, Set.mem_ofPred_eq]
  constructor
  · rintro (((((rfl | ⟨w, rfl⟩) | ⟨w, rfl⟩) | ⟨w, rfl⟩) | ⟨w, rfl⟩) | ⟨type, ht, rfl⟩) <;> simp
    exact ht
  · rintro (rfl | ⟨p, w, rfl⟩ | ⟨type, ht, rfl⟩)
    · simp
    · cases p <;> simp
    · simp [ht]

theorem forkBooster_holds {registry : Registry} {type : UInt8} (ht : type ∈ registry.types)
    (h : Holds given (daemonFiles registry) s) :
    Holds given (boosterFiles type) (forkBooster registry type s) := by
  have hpipe : ∀ p w, File.pipe p w ∈ daemonFiles registry := fun p w ↦ .inr (.inl ⟨p, w, rfl⟩)
  have h₁ := h.closes (hpipe .booster false)
  have h₂ := (h₁.closes (f := .pipe .sigChld false) (by simp [hpipe])).closes
    (f := .pipe .sigChld true) (by simp [hpipe])
  have h₃ := (h₂.closes (f := .pipe .sigTerm false) (by simp [hpipe])).closes
    (f := .pipe .sigTerm true) (by simp [hpipe])
  have h₄ := (h₃.closes (f := .pipe .sigUsr1 false) (by simp [hpipe])).closes
    (f := .pipe .sigUsr1 true) (by simp [hpipe])
  have h₅ := h₄.closeSockets registry.nodup type fun type' ht' ↦ by simp [daemonFiles, ht']
  refine (h₅.closes (f := .lockFile) (by simp [daemonFiles])).congr ?_
  ext f
  cases f with
  | socket type' =>
    have hiff : type' ∈ registry.types ∧ (type' ∈ registry.types → type' = type) ↔ type' = type :=
      ⟨fun h ↦ h.2 h.1, fun h ↦ ⟨h ▸ ht, fun _ ↦ h⟩⟩
    simpa [daemonFiles, boosterFiles] using hiff
  | pipe p w => cases p <;> cases w <;> simp [daemonFiles, boosterFiles]
  | _ => simp [daemonFiles, boosterFiles]

def bootedFiles (type : UInt8) (pair : SocketPair) (wait single : Bool) : Set File :=
  {f | (∃ i < 3, f = .invokers i) ∨ f ∈ leftFiles type pair wait single}

def acceptedFiles (pair : SocketPair) : Set File :=
  {f | f = .connection ∨ pair ≠ .none ∧ ∃ second, f = .sighup second}

theorem accept_holds {type : UInt8} (pair : SocketPair) (h : Holds given (boosterFiles type) s) :
    Holds given (boosterFiles type ∪ acceptedFiles pair) (accept pair s) := by
  have hc : File.Own .connection := trivial
  have hs : ∀ second, File.Own (.sighup second) := fun _ ↦ trivial
  cases pair with
  | none =>
    refine (h.opens hc (by simp [boosterFiles])).congr ?_
    ext f
    simp [acceptedFiles, or_comm]
  | before =>
    refine (((h.opens (hs false) (by simp [boosterFiles])).opens (hs true)
      (by simp [boosterFiles])).opens hc (by simp [boosterFiles])).congr ?_
    ext f
    cases f <;> simp [acceptedFiles, boosterFiles]
  | between =>
    refine (((h.opens (hs false) (by simp [boosterFiles])).opens hc
      (by simp [boosterFiles])).opens (hs true) (by simp [boosterFiles])).congr ?_
    ext f
    cases f <;> simp [acceptedFiles, boosterFiles]
  | after =>
    refine (((h.opens hc (by simp [boosterFiles])).opens (hs false)
      (by simp [boosterFiles])).opens (hs true) (by simp [boosterFiles])).congr ?_
    ext f
    cases f <;> simp [acceptedFiles, boosterFiles]

theorem initializeBooster_holds {type : UInt8} (pair : SocketPair) (wait single : Bool)
    (h : Holds given (boosterFiles type) s) :
    Holds given (insert (.socket type) (bootedFiles type pair wait single))
      (initializeBooster pair wait single s) := by
  have h₁ := accept_holds pair h
  have h₂ := ((h₁.opens (f := .invokers 0) trivial (by simp [boosterFiles, acceptedFiles])).opens
    (f := .invokers 1) trivial (by simp [boosterFiles, acceptedFiles])).opens
    (f := .invokers 2) trivial (by simp [boosterFiles, acceptedFiles])
  have h₃ : Holds given {f | f ∈ boosterFiles type ∨ (∃ i < 3, f = .invokers i) ∨
      wait = true ∧ f = .connection ∨ pair ≠ .none ∧ ∃ second, f = .sighup second}
      (receiveDataFromInvoker pair wait s) := by
    rw [receiveDataFromInvoker]
    cases wait with
    | true =>
      refine h₂.congr ?_
      ext f
      cases f <;> simp [boosterFiles, acceptedFiles]
      omega
    | false =>
      refine (h₂.closes (f := .connection) (by simp [acceptedFiles])).congr ?_
      ext f
      cases f <;> simp [boosterFiles, acceptedFiles]
      omega
  have h₄ : Holds given {f | f ∈ boosterFiles type ∨ (∃ i < 3, f = .invokers i) ∨
      wait = true ∧ f = .connection ∨ single = true ∧ f = .instanceLock ∨
      pair ≠ .none ∧ ∃ second, f = .sighup second}
      (if single then (receiveDataFromInvoker pair wait s).opens .instanceLock
        else receiveDataFromInvoker pair wait s) := by
    cases single with
    | true =>
      refine (h₃.opens (f := .instanceLock) trivial (by simp [boosterFiles])).congr ?_
      ext f
      cases f <;> simp [boosterFiles]
    | false =>
      refine h₃.congr ?_
      ext f
      cases f <;> simp [boosterFiles]
  refine (h₄.closes (f := .pipe .booster true) (by simp [boosterFiles])).congr ?_
  ext f
  cases f with
  | pipe p w => cases p <;> cases w <;> simp [boosterFiles, bootedFiles, leftFiles]
  | socket type' =>
    simp only [boosterFiles, bootedFiles, leftFiles]
    simp
  | _ => simp [boosterFiles, bootedFiles, leftFiles]

theorem lookup_moved {t : Table File} {a : ℕ} (h : lookup t a = some f) (i n : ℕ) :
    lookup (close (dup2 t a i) a) n =
      if n = a then none else if n = i then some f else lookup t n := by
  rw [lookup_close, lookup_dup2 h]

theorem runBooster_holds {type : UInt8} {pair : SocketPair} {wait single : Bool}
    (h : Holds given (insert (.socket type) (bootedFiles type pair wait single)) s) :
    Holds given (bootedFiles type pair wait single) (if wait then s else s.closes (.socket type)) := by
  cases wait with
  | true =>
    refine h.congr ?_
    ext f
    cases f <;> simp [bootedFiles, leftFiles]
  | false =>
    refine (h.closes (f := .socket type) (by simp)).congr ?_
    ext f
    cases f <;> simp [bootedFiles, leftFiles]

theorem run_duplicateCalls (t : Table File) {a b c : ℕ} (ha : 0 < a) (hb : 0 < b) (hc : 0 < c) :
    run t (duplicateCalls 0 [(a : ℤ), (b : ℤ), (c : ℤ)]) =
      close (dup2 (close (dup2 (close (dup2 t a 0) a) b 1) b) c 2) c := by
  simp [duplicateCalls, run, Call.run, ha, hb, hc]

theorem duplicated_lookup {type : UInt8} {pair : SocketPair} {wait single : Bool}
    (h : Holds given (bootedFiles type pair wait single) s) (n : ℕ) :
    lookup (run s.fds (duplicateCalls 0 [(s.number (.invokers 0) : ℤ),
        (s.number (.invokers 1) : ℤ), (s.number (.invokers 2) : ℤ)])) n =
      if n < 3 then some (.invokers n)
      else if n = s.number (.invokers 2) ∨ n = s.number (.invokers 1) ∨
        n = s.number (.invokers 0) then none
      else lookup s.fds n := by
  have hm : ∀ i < 3, File.invokers i ∈ bootedFiles type pair wait single :=
    fun i hi ↦ .inl ⟨i, hi, rfl⟩
  have hge : ∀ i < 3, 3 ≤ s.number (.invokers i) := fun i hi ↦ (h.mem _ (hm i hi)).2.1
  have hat : ∀ i < 3, lookup s.fds (s.number (.invokers i)) = some (.invokers i) :=
    fun i hi ↦ ((h.mem _ (hm i hi)).2.2 _).mpr rfl
  have hne : ∀ i < 3, ∀ j < 3, i ≠ j → s.number (.invokers i) ≠ s.number (.invokers j) := by
    intro i hi j hj hij heq
    have hi' := hat i hi
    rw [heq, hat j hj] at hi'
    cases hi'
    exact hij rfl
  have g0 := hge 0 (by omega)
  have g1 := hge 1 (by omega)
  have g2 := hge 2 (by omega)
  have n01 := hne 0 (by omega) 1 (by omega) (by omega)
  have n02 := hne 0 (by omega) 2 (by omega) (by omega)
  have n12 := hne 1 (by omega) 2 (by omega) (by omega)
  have h0 := lookup_moved (hat 0 (by omega)) 0
  have h1 := lookup_moved (t := close (dup2 s.fds (s.number (.invokers 0)) 0)
    (s.number (.invokers 0))) (f := .invokers 1) (a := s.number (.invokers 1))
    (by rw [h0, if_neg n01.symm, if_neg (by omega), hat 1 (by omega)]) 1
  have h2 := lookup_moved (t := close (dup2 (close (dup2 s.fds (s.number (.invokers 0)) 0)
    (s.number (.invokers 0))) (s.number (.invokers 1)) 1) (s.number (.invokers 1)))
    (f := .invokers 2) (a := s.number (.invokers 2))
    (by rw [h1, if_neg n12.symm, if_neg (by omega), h0, if_neg n02.symm, if_neg (by omega),
      hat 2 (by omega)]) 2
  rw [run_duplicateCalls _ (by omega) (by omega) (by omega), h2, h1, h0]
  match n with
  | 0 =>
    rw [if_neg (by omega), if_neg (by omega), if_neg (by omega), if_neg (by omega),
      if_neg (by omega), if_pos rfl, if_pos (by omega)]
  | 1 =>
    rw [if_neg (by omega), if_neg (by omega), if_neg (by omega), if_pos rfl, if_pos (by omega)]
  | 2 => rw [if_neg (by omega), if_pos rfl, if_pos (by omega)]
  | n + 3 =>
    rw [if_neg (show ¬n + 3 = 2 by omega), if_neg (show ¬n + 3 = 1 by omega),
      if_neg (show ¬n + 3 = 0 by omega), if_neg (show ¬n + 3 < 3 by omega)]
    by_cases e2 : n + 3 = s.number (.invokers 2)
    · rw [if_pos e2, if_pos (.inl e2)]
    · by_cases e1 : n + 3 = s.number (.invokers 1)
      · rw [if_neg e2, if_pos e1, if_pos (.inr (.inl e1))]
      · by_cases e0 : n + 3 = s.number (.invokers 0)
        · rw [if_neg e2, if_neg e1, if_pos e0, if_pos (.inr (.inr e0))]
        · rw [if_neg e2, if_neg e1, if_neg e0, if_neg (by simp [e0, e1, e2])]

/-- Of the launcher's own descriptors an application gets none but the lock of a
single instance, the socket pair of an event loop and, if its invoker waits, the
connection and the socket of its booster. What the daemon was started with above
the standard descriptors stays open. -/
theorem application_descriptors (flags : Flags) (registry : Registry) {type : UInt8}
    (ht : type ∈ registry.types) (pair : SocketPair) (wait single : Bool) {given : Table File}
    (hopen : ∀ n < 3, (lookup given n).isSome)
    (hgiven : ∀ n f, lookup given n = some f → ¬f.Own) (number : File → ℕ) (n : ℕ) (f : File) :
    let s := application flags registry type pair wait single ⟨given, number⟩
    lookup s.fds n = some f ↔
      if n < 3 then f = .invokers n
      else lookup given n = some f ∨ f ∈ leftFiles type pair wait single ∧ n = s.number f := by
  have h₀ : Holds given ∅ ⟨given, number⟩ := by
    refine ⟨hopen, fun f hf ↦ absurd hf (Set.notMem_empty f), ?_, fun _ _ _ _ ↦ Iff.rfl⟩
    exact fun f _ hown n hn ↦ hgiven n f hn hown
  have h := runBooster_holds (initializeBooster_holds pair wait single
    (forkBooster_holds ht (startDaemon_holds flags registry h₀)))
  intro s
  have hlookup := duplicated_lookup h n
  generalize hs' : (if wait then initializeBooster pair wait single (forkBooster registry type
    (startDaemon flags registry ⟨given, number⟩)) else (initializeBooster pair wait single
    (forkBooster registry type (startDaemon flags registry ⟨given, number⟩))).closes
      (.socket type)) = s' at h hlookup
  have hfds : s.fds = run s'.fds (duplicateCalls 0 [(s'.number (.invokers 0) : ℤ),
      (s'.number (.invokers 1) : ℤ), (s'.number (.invokers 2) : ℤ)]) := by
    rw [← hs']
    rfl
  have hnum : s.number = s'.number := by
    rw [← hs']
    rfl
  rw [hfds, hlookup, hnum]
  have hmem : ∀ i < 3, ∀ m, lookup s'.fds m = some (.invokers i) ↔ m = s'.number (.invokers i) :=
    fun i hi ↦ (h.mem _ (.inl ⟨i, hi, rfl⟩)).2.2
  split_ifs with hlt hex
  · rw [Option.some.injEq, eq_comm]
  · obtain ⟨i, hi, hex⟩ : ∃ i < 3, n = s'.number (.invokers i) := by
      obtain hex | hex | hex := hex
      · exact ⟨2, by omega, hex⟩
      · exact ⟨1, by omega, hex⟩
      · exact ⟨0, by omega, hex⟩
    have hat : lookup s'.fds n = some (.invokers i) := (hmem i hi n).mpr hex
    refine ⟨nofun, fun hor ↦ ?_⟩
    obtain hg | ⟨hf, heq⟩ := hor
    · have hno := hgiven n f hg
      rw [← h.others n f (by omega) hno, hat] at hg
      cases hg
      exact hno trivial
    · have hat' := ((h.mem f (.inr hf)).2.2 n).mpr heq
      rw [hat] at hat'
      cases hat'
      simp [leftFiles] at hf
  · have hgone : f.Own → lookup given n ≠ some f := fun hown hg ↦ hgiven n f hg hown
    by_cases hf : f ∈ bootedFiles type pair wait single
    · have hown := (h.mem f hf).1
      rw [(h.mem f hf).2.2]
      obtain ⟨i, hi, rfl⟩ | hf := hf
      · have hne : n ≠ s'.number (.invokers i) := by
          intro heq
          match i, hi with
          | 0, _ => exact hex (.inr (.inr heq))
          | 1, _ => exact hex (.inr (.inl heq))
          | 2, _ => exact hex (.inl heq)
        have hleft : File.invokers i ∉ leftFiles type pair wait single := by simp [leftFiles]
        simp [hne, hgone hown, hleft]
      · simp [hf, hgone hown]
    · have hleft : f ∉ leftFiles type pair wait single := fun hl ↦ hf (.inr hl)
      simp only [hleft, false_and, or_false]
      by_cases hown : f.Own
      · exact iff_of_false (h.not_mem f hf hown n) (hgone hown)
      · exact h.others n f (by omega) hown

def oneType : Registry := ⟨[109], by decide, by decide⟩

def fourOpen : Table File :=
  [some (.inherited 0), some (.inherited 1), some (.inherited 2), some (.inherited 7)]

theorem application_descriptors_leak :
    let s := application Flags.initial oneType 109 .between true false ⟨fourOpen, fun _ ↦ 0⟩
    lookup s.fds 3 = some (.inherited 7) ↔
      if 3 < 3 then File.inherited 7 = .invokers 3
      else lookup fourOpen 3 = some (.inherited 7) ∨
        .inherited 7 ∈ leftFiles 109 .between true false ∧ 3 = s.number (.inherited 7) := by
  refine application_descriptors Flags.initial oneType (by decide) .between true false (by decide) ?_ _ 3 _
  intro n f hf
  have hmem := List.mem_of_getElem? (Option.join_eq_some_iff.mp hf)
  simp only [fourOpen, List.mem_cons, Option.some.injEq, List.not_mem_nil, or_false] at hmem
  obtain rfl | rfl | rfl | rfl := hmem <;> exact id

end Applauncherd.Launcherlib.Inheritance
