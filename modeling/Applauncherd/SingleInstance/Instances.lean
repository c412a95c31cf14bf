import Applauncherd.Library.DescriptorCalls
import Applauncherd.Library.Transition
import Applauncherd.Launcherlib.Inheritance
import Applauncherd.Launcherlib.LaunchProcess
import Applauncherd.Launcherlib.Tables
import Applauncherd.SingleInstance.Lock

namespace Applauncherd.SingleInstance.Instances

open Library Library.Environ Library.Path Library.RecordLock Library.Transition
open Library.DescriptorTable Library.DescriptorCalls Lock
open Launcherlib.ReadSocket (OpenFile)
open Launcherlib.Inheritance (duplicateCalls)
open Launcherlib.LaunchProcess (duplicateFrom)
open Launcherlib.Tables (Pid)

inductive Stage
  | starting
  /-- `lock()` has failed. All that follows is `activateExistingInstance` and the exit. -/
  | refused
  | locked
  | running
  deriving DecidableEq

/-- A booster with a request for a single instance, or the `single-instance`
program. The numbers in `unused` are closed before the application runs, those
in `io` are to become its standard descriptors. -/
structure Proc where
  binaryName : Str
  files : Table OpenFile
  unused : List ℕ
  io : List ℤ
  stage : Stage

structure World where
  owner : Place Str → Option Pid
  procs : Pid → Option Proc

def World.empty : World := ⟨fun _ ↦ none, fun _ ↦ none⟩

def World.setProc (w : World) (pid : Pid) (p : Proc) : World :=
  { w with procs := Function.update w.procs pid (some p) }

/-- Of the locks of a process those go with whose file it closes a descriptor. -/
def World.drop (kind : OpenFile → Option (Place Str)) (w : World) (pid : Pid)
    (dropped : List OpenFile) : World :=
  { w with owner := fun k ↦
      if ∃ f ∈ dropped, kind f = some k then release (w.owner k) pid else w.owner k }

def World.exit (w : World) (pid : Pid) : World :=
  ⟨fun k ↦ release (w.owner k) pid, Function.update w.procs pid none⟩

def Proc.launchCalls (p : Proc) : List Call :=
  p.unused.map .close ++ duplicateCalls 0 p.io

inductive Label
  | start (pid : Pid) (p : Proc)
  /-- The lock file is opened, as a new open file, and locked with `F_SETLK`. -/
  | lock (pid : Pid) (file : OpenFile)
  /-- The lock file cannot be made or opened. -/
  | noFile (pid : Pid)
  | launch (pid : Pid)
  | exit (pid : Pid)

def lockStep (w : World) (pid : Pid) (p : Proc) (file : OpenFile) : World :=
  let p := { p with files := (install p.files file).2 }
  match Lock.lock w.owner pid p.binaryName with
  | some owner => { w.setProc pid { p with stage := .locked } with owner := owner }
  | none => w.setProc pid { p with stage := .refused }

def launchStep (kind : OpenFile → Option (Place Str)) (w : World) (pid : Pid) (p : Proc) : World :=
  (w.drop kind pid (drops p.files p.launchCalls)).setProc pid
    { p with files := DescriptorCalls.run p.files p.launchCalls, stage := .running }

/-- `kind` tells which lock file an open file is, if it is one. -/
def step (kind : OpenFile → Option (Place Str)) (w : World) : Label → Option World
  | .start pid p =>
    if w.procs pid = none then some (w.setProc pid { p with stage := .starting }) else none
  | .lock pid file =>
    (w.procs pid).bind fun p ↦
      if p.stage = .starting ∧ kind file = some (lockFile p.binaryName) then
        some (lockStep w pid p file) else none
  | .noFile pid =>
    (w.procs pid).bind fun p ↦
      if p.stage = .starting then some (w.setProc pid { p with stage := .refused }) else none
  | .launch pid =>
    (w.procs pid).bind fun p ↦
      if p.stage = .locked then some (launchStep kind w pid p) else none
  | .exit pid => (w.procs pid).map fun _ ↦ w.exit pid

theorem duplicateFrom_eq (t : Table OpenFile) (i : ℕ) (io : List ℤ) :
    duplicateFrom t i io = DescriptorCalls.run t (duplicateCalls i io) := by
  induction io generalizing t i with
  | nil => rfl
  | cons fd fds ih =>
    rw [duplicateFrom, duplicateCalls, run_append, ih]
    split_ifs <;> rfl

variable {kind : OpenFile → Option (Place Str)}

structure Tidy (kind : OpenFile → Option (Place Str)) (files : Table OpenFile) (p : Proc) :
    Prop where
  standard : ∀ n < 3, (lookup files n).isSome
  noLocks : ∀ n f, lookup files n = some f → kind f = none
  unused : ∀ n ∈ p.unused, (lookup files n).isSome
  io : ∀ fd ∈ p.io, 0 < fd → (lookup files fd.toNat).isSome
  three : p.io.length ≤ 3

def TidyStart (kind : OpenFile → Option (Place Str)) (_ : World) : Label → Prop
  | .start _ p => Tidy kind p.files p
  | _ => True

def Holds (w : World) (k : Place Str) (pid : Pid) : Prop :=
  ∃ p, w.procs pid = some p ∧ (p.stage = .locked ∨ p.stage = .running) ∧ lockFile p.binaryName = k

def Ready (kind : OpenFile → Option (Place Str)) (p : Proc) : Prop :=
  match p.stage with
  | .starting => Tidy kind p.files p
  | .locked => ∃ t file, p.files = (install t file).2 ∧ Tidy kind t p
  | .refused | .running => True

structure Kept (kind : OpenFile → Option (Place Str)) (w : World) : Prop where
  guarded : ∀ k, Guarded (w.owner k) (Holds w k)
  owned : ∀ k pid, w.owner k = some pid → Holds w k pid
  ready : ∀ pid p, w.procs pid = some p → Ready kind p

theorem mem_duplicateCalls {io : List ℤ} {i n : ℕ} {c : Call} (hc : c ∈ duplicateCalls i io)
    (hn : n ∈ c.numbers) : (∃ fd ∈ io, 0 < fd ∧ n = fd.toNat) ∨ n < i + io.length := by
  induction io generalizing i with
  | nil => cases hc
  | cons fd fds ih =>
    rw [duplicateCalls, List.mem_append] at hc
    obtain hc | hc := hc
    · split_ifs at hc with hpos
      · obtain rfl | hc := List.mem_cons.mp hc
        · simp only [Call.numbers, List.mem_cons, List.not_mem_nil, or_false] at hn
          obtain rfl | rfl := hn
          · exact .inl ⟨fd, List.mem_cons_self, hpos, rfl⟩
          · exact .inr (by simp)
        · obtain rfl := List.mem_singleton.mp hc
          simp only [Call.numbers, List.mem_singleton] at hn
          exact .inl ⟨fd, List.mem_cons_self, hpos, hn⟩
      · cases hc
    · obtain ⟨fd', hfd', h⟩ | hlt := ih hc
      · exact .inl ⟨fd', List.mem_cons_of_mem _ hfd', h⟩
      · exact .inr (by simp only [List.length_cons]; omega)

theorem launch_spares {p : Proc} {t : Table OpenFile} (h : Tidy kind t p) :
    ∀ c ∈ p.launchCalls, lowest t ∉ c.numbers := by
  have hopen : ∀ n, (lookup t n).isSome → lowest t ≠ n := by
    intro n hn heq
    rw [← heq, lookup_lowest] at hn
    cases hn
  intro c hc hn
  obtain hc | hc := List.mem_append.mp hc
  · obtain ⟨m, hm, rfl⟩ := List.mem_map.mp hc
    simp only [Call.numbers, List.mem_singleton] at hn
    exact hopen m (h.unused m hm) hn
  · obtain ⟨fd, hfd, hpos, heq⟩ | hlt := mem_duplicateCalls hc hn
    · exact hopen _ (h.io fd hfd hpos) heq
    · have hthree : p.io.length ≤ 3 := h.three
      exact hopen _ (h.standard (lowest t) (by omega)) rfl

theorem launch_drops {p : Proc} {t : Table OpenFile} {file : OpenFile}
    (hfiles : p.files = (install t file).2) (h : Tidy kind t p) {f : OpenFile}
    (hf : f ∈ drops p.files p.launchCalls) : kind f = none := by
  have hapart : Apart (kind · = none) (lowest t) p.files := by
    intro m g hm hg
    rw [hfiles, lookup_install, if_neg hm] at hg
    exact h.noLocks m g hg
  exact hapart.drops_run (launch_spares h) hf

theorem holds_other {w : World} {pid q : Pid} {p : Proc} {k : Place Str} (hq : q ≠ pid) :
    Holds (w.setProc pid p) k q ↔ Holds w k q := by
  simp [Holds, World.setProc, Function.update_of_ne hq]

theorem holds_self {w : World} {pid : Pid} {p : Proc} {k : Place Str} :
    Holds (w.setProc pid p) k pid ↔
      (p.stage = .locked ∨ p.stage = .running) ∧ lockFile p.binaryName = k := by
  simp [Holds, World.setProc]

theorem Kept.setProc {w : World} (h : Kept kind w) {pid : Pid} {p : Proc}
    (hholds : ∀ k, Holds (w.setProc pid p) k pid ↔ Holds w k pid) (hready : Ready kind p) :
    Kept kind (w.setProc pid p) := by
  have hall : ∀ k q, Holds (w.setProc pid p) k q ↔ Holds w k q := by
    intro k q
    by_cases hq : q = pid
    · subst hq
      exact hholds k
    · exact holds_other hq
  constructor
  case guarded => exact fun k ↦ (h.guarded k).mono fun q ↦ (hall k q).mp
  case owned => exact fun k q hq ↦ (hall k q).mpr (h.owned k q hq)
  case ready =>
    intro q p' hp'
    by_cases hq : q = pid
    · subst hq
      obtain rfl : p = p' := by simpa [World.setProc] using hp'
      exact hready
    · exact h.ready q p' (by simpa [World.setProc, Function.update_of_ne hq] using hp')

theorem Kept.exit {w : World} (h : Kept kind w) (pid : Pid) : Kept kind (w.exit pid) := by
  have hother : ∀ k q, q ≠ pid → (Holds (w.exit pid) k q ↔ Holds w k q) := by
    intro k q hq
    simp [Holds, World.exit, Function.update_of_ne hq]
  have hself : ∀ k, ¬Holds (w.exit pid) k pid := by
    intro k hk
    obtain ⟨p, hp, -⟩ := hk
    simp [World.exit] at hp
  constructor
  case guarded => exact fun k ↦ (h.guarded k).leave (hself k) fun q hq ↦ (hother k q hq).mp
  case owned =>
    intro k q hq
    change release (w.owner k) pid = some q at hq
    unfold release at hq
    split_ifs at hq with hp
    have hne : q ≠ pid := by
      intro heq
      exact hp (heq ▸ hq)
    exact (hother k q hne).mpr (h.owned k q hq)
  case ready =>
    intro q p hp
    by_cases hq : q = pid
    · subst hq
      simp [World.exit] at hp
    · exact h.ready q p (by simpa [World.exit, Function.update_of_ne hq] using hp)

theorem lock_cases {w : World} {pid : Pid} {name : Str} {owner : Place Str → Option Pid}
    (h : Lock.lock w.owner pid name = some owner) :
    (w.owner (lockFile name) = none ∨ w.owner (lockFile name) = some pid) ∧
      owner = Function.update w.owner (lockFile name) (some pid) := by
  obtain ⟨o, ho, rfl⟩ := Option.map_eq_some_iff.mp h
  obtain ⟨rfl, hor⟩ := acquire_cases ho
  exact ⟨hor, rfl⟩

theorem starting_not_holds {w : World} {pid : Pid} {p : Proc} (hp : w.procs pid = some p)
    (hs : p.stage = .starting) (k : Place Str) : ¬Holds w k pid := by
  intro hk
  obtain ⟨p', hp', hstage, -⟩ := hk
  obtain rfl : p = p' := Option.some.inj (hp.symm.trans hp')
  simp [hs] at hstage

theorem Kept.locked {w : World} (h : Kept kind w) {pid : Pid} {p : Proc}
    (hno : ∀ k, ¬Holds w k pid) (hnone : w.owner (lockFile p.binaryName) = none)
    (hready : Ready kind { p with stage := .locked }) :
    Kept kind { w.setProc pid { p with stage := .locked } with
      owner := Function.update w.owner (lockFile p.binaryName) (some pid) } := by
  let w' : World := { w.setProc pid { p with stage := .locked } with
    owner := Function.update w.owner (lockFile p.binaryName) (some pid) }
  have hself : ∀ k, Holds w' k pid ↔ lockFile p.binaryName = k := by
    intro k
    exact holds_self.trans (by simp)
  have hother : ∀ k q, q ≠ pid → (Holds w' k q ↔ Holds w k q) := fun k q hq ↦ holds_other hq
  constructor
  case guarded =>
    intro k q hq
    change Function.update w.owner _ _ k = some q
    by_cases hqp : q = pid
    · subst hqp
      rw [(hself k).mp hq, Function.update_self]
    · have hown := h.guarded k q ((hother k q hqp).mp hq)
      have hne : k ≠ lockFile p.binaryName := by
        intro heq
        rw [heq, hnone] at hown
        cases hown
      rw [Function.update_of_ne hne, hown]
  case owned =>
    intro k q hq
    change Function.update w.owner _ _ k = some q at hq
    by_cases hk : k = lockFile p.binaryName
    · rw [hk, Function.update_self] at hq
      obtain rfl := Option.some.inj hq
      exact (hself k).mpr hk.symm
    · rw [Function.update_of_ne hk] at hq
      have hold := h.owned k q hq
      have hqp : q ≠ pid := by
        intro heq
        exact hno k (heq ▸ hold)
      exact (hother k q hqp).mpr hold
  case ready =>
    intro q p' hp'
    by_cases hq : q = pid
    · subst hq
      obtain rfl : _ = p' := by simpa [World.setProc] using hp'
      exact hready
    · exact h.ready q p' (by simpa [World.setProc, Function.update_of_ne hq] using hp')

theorem lockStep_kept {w : World} (h : Kept kind w) {pid : Pid} {p : Proc} {file : OpenFile}
    (hp : w.procs pid = some p) (hs : p.stage = .starting) : Kept kind (lockStep w pid p file) := by
  have hno := starting_not_holds hp hs
  have htidy : Tidy kind p.files p := by
    have hr := h.ready pid p hp
    rwa [Ready, hs] at hr
  simp only [lockStep]
  split
  · rename_i owner hlock
    obtain ⟨hfree, rfl⟩ := lock_cases hlock
    -- the lock was not its own before
    have hnone : w.owner (lockFile p.binaryName) = none :=
      hfree.resolve_right fun heq ↦ hno _ (h.owned _ pid heq)
    have ht : Tidy kind p.files { p with files := (install p.files file).2, stage := .locked } :=
      ⟨htidy.standard, htidy.noLocks, htidy.unused, htidy.io, htidy.three⟩
    exact h.locked (p := { p with files := (install p.files file).2 }) hno hnone
      ⟨p.files, file, rfl, ht⟩
  · refine h.setProc (fun k ↦ ?_) trivial
    rw [holds_self]
    simp [hno k]

theorem drop_eq {w : World} {pid : Pid} {dropped : List OpenFile}
    (h : ∀ f ∈ dropped, kind f = none) : w.drop kind pid dropped = w := by
  have hno : ∀ k, ¬∃ f ∈ dropped, kind f = some k := by
    intro k hk
    obtain ⟨f, hf, hkind⟩ := hk
    rw [h f hf] at hkind
    cases hkind
  simp [World.drop, hno]

theorem launchStep_kept {w : World} (h : Kept kind w) {pid : Pid} {p : Proc}
    (hp : w.procs pid = some p) (hs : p.stage = .locked) :
    Kept kind (launchStep kind w pid p) := by
  have hr := h.ready pid p hp
  rw [Ready, hs] at hr
  obtain ⟨t, file, hfiles, htidy⟩ := hr
  rw [launchStep, drop_eq fun f ↦ launch_drops hfiles htidy]
  refine h.setProc (fun k ↦ ?_) trivial
  rw [holds_self]
  simp [Holds, hp, hs]

theorem step_kept {w w' : World} {a : Label} (h : Kept kind w) (ha : TidyStart kind w a)
    (hs : step kind w a = some w') : Kept kind w' := by
  cases a with
  | start pid p =>
    simp only [step] at hs
    split_ifs at hs with hnone
    cases hs
    have ht : Tidy kind p.files { p with stage := .starting } :=
      ⟨ha.standard, ha.noLocks, ha.unused, ha.io, ha.three⟩
    refine h.setProc (fun k ↦ ?_) ht
    rw [holds_self]
    simp [Holds, hnone]
  | lock pid file =>
    obtain ⟨p, hp, hs⟩ := Option.bind_eq_some_iff.mp hs
    split_ifs at hs with hstage
    cases hs
    exact lockStep_kept h hp hstage.1
  | noFile pid =>
    obtain ⟨p, hp, hs⟩ := Option.bind_eq_some_iff.mp hs
    split_ifs at hs with hstage
    cases hs
    refine h.setProc (fun k ↦ ?_) trivial
    rw [holds_self]
    simp [starting_not_holds hp hstage k]
  | launch pid =>
    obtain ⟨p, hp, hs⟩ := Option.bind_eq_some_iff.mp hs
    split_ifs at hs with hstage
    cases hs
    exact launchStep_kept h hp hstage
  | exit pid =>
    obtain ⟨p, hp, rfl⟩ := Option.map_eq_some_iff.mp hs
    exact h.exit pid

theorem run_kept {labels : List Label} {w : World}
    (h : Run (step kind) (TidyStart kind) .empty labels w) : Kept kind w := by
  refine h.invariant (Kept kind) (fun _ _ _ hw ha hs ↦ step_kept hw ha hs) ?_
  constructor
  case guarded =>
    intro k q hq
    obtain ⟨p, hp, -⟩ := hq
    cases hp
  case owned => exact fun k q hq ↦ by cases hq
  case ready => exact fun q p hp ↦ by cases hp

/-- What a lock file stands for: one process at most has passed it. Where the file
can be made and opened, the next is refused exactly as long as there is one. -/
structure OneInstance (w : World) : Prop where
  unique : ∀ k p q, Holds w k p → Holds w k q → p = q
  refused : ∀ pid p, w.procs pid = some p → p.stage = .starting →
    (Lock.lock w.owner pid p.binaryName = none ↔ ∃ q, Holds w (lockFile p.binaryName) q)

/-- Whatever the order in which boosters and `single-instance` programs start,
lock, launch and exit: for no lock file do two applications run, and where the lock
file can be made and opened no launch is refused but for one that runs or is about
to. -/
theorem one_instance {labels : List Label} {w : World}
    (h : Run (step kind) (TidyStart kind) .empty labels w) : OneInstance w := by
  have hw := run_kept h
  refine ⟨fun k p q ↦ (hw.guarded k).unique, fun pid p hp hs ↦ ⟨fun hnone ↦ ?_, fun hq ↦ ?_⟩⟩
  · cases ho : w.owner (lockFile p.binaryName) with
    | none => simp [Lock.lock, acquire, ho] at hnone
    | some q => exact ⟨q, hw.owned _ q ho⟩
  · obtain ⟨q, hq⟩ := hq
    have hne : q ≠ pid := by
      intro heq
      exact starting_not_holds hp hs _ (heq ▸ hq)
    simp [Lock.lock, acquire, hw.guarded _ q hq, hne]

def fooProc : Proc := ⟨fooPath, [some 0, some 1, some 2, some 5], [3], [], .starting⟩

def fooKind (file : OpenFile) : Option (Place Str) :=
  if file = 10 then some (lockFile fooPath) else none

theorem fooProc_tidy : Tidy fooKind fooProc.files fooProc where
  standard := by decide
  noLocks := by
    intro n f hf
    have hmem := List.mem_of_getElem? (Option.join_eq_some_iff.mp hf)
    simp only [fooProc, List.mem_cons, Option.some.injEq, List.not_mem_nil, or_false] at hmem
    obtain rfl | rfl | rfl | rfl := hmem <;> rfl
  unused := by simp [fooProc, lookup]
  io := by simp [fooProc]
  three := by simp [fooProc]

theorem one_instance_foo : ∃ w, Run (step fooKind) (TidyStart fooKind) .empty
    [.start 1 fooProc, .lock 1 10, .launch 1, .start 2 fooProc] w ∧ OneInstance w := by
  have h : Run (step fooKind) (TidyStart fooKind) .empty
      [.start 1 fooProc, .lock 1 10, .launch 1, .start 2 fooProc] _ :=
    .cons fooProc_tidy rfl (.cons trivial rfl (.cons trivial rfl (.cons fooProc_tidy rfl (.nil _))))
  exact ⟨_, h, one_instance h⟩

end Applauncherd.SingleInstance.Instances
