import Applauncherd.Launcherlib.StartUp

namespace Applauncherd.Launcherlib.MutualExclusion

open Library.Transition Library.DescriptorTable Library.RecordLock Tables StartUp

variable {w w' : World} {p q : Proc} {pid child : Pid} {closed : Option File}

/-- Neither of the two flags costs the process its lock: `--daemon` makes the
constructor fork and `--quiet` makes it close the console descriptors. -/
def Kept (p : Proc) (flags : Flags) : Prop :=
  flags.daemon = false ∧ (flags.quiet = true → ∀ fd < 3, lookup p.fds fd ≠ some .lockFile)

def Keeps (p : Proc) : Prop :=
  p.todo.head? = some .construct → ∀ flags ∈ parseArgs Flags.initial p.argv, Kept p flags

def KeepsLock (w : World) : Label → Prop
  | .call pid => ∀ p ∈ w.procs pid, Keeps p
  | _ => True

instance (flags : Flags) : Decidable (Kept p flags) :=
  have : Decidable (∀ fd < 3, lookup p.fds fd ≠ some .lockFile) := Nat.decidableBallLT 3 _
  instDecidableAnd

instance : Decidable (Keeps p) :=
  have : Decidable (∀ flags ∈ parseArgs Flags.initial p.argv, Kept p flags) :=
    Option.decidableForallMem _
  inferInstanceAs (Decidable (_ → _))

instance (w : World) : (a : Label) → Decidable (KeepsLock w a)
  | .call _ => Option.decidableForallMem _
  | .start _ _ _ | .noFile _ | .fork _ _ | .forkBooster _ _ | .exit _ => isTrue trivial

def Harmless (fds : Table File) : Call → Prop
  | .close fd => lookup fds fd ≠ some .lockFile
  | .fork | .exit | .redirect _ | .unlock => False
  | _ => True

theorem Harmless.mono {fds fds' : Table File} {c : Call} (h : Harmless fds c)
    (hm : ∀ n, lookup fds' n = some .lockFile → lookup fds n = some .lockFile) :
    Harmless fds' c := by
  cases c with
  | close fd =>
    intro hl
    exact h (hm fd hl)
  | _ => exact h

def Secure (p : Proc) : Prop :=
  p.todo <:+ main ∨ .openLock ∉ p.todo ∧ ∀ c ∈ p.todo, Harmless p.fds c

theorem main_harmless (fds : Table File) : ∀ c ∈ main, Harmless fds c := by
  intro c hc
  simp only [main, lock, run, List.cons_append, List.nil_append, List.mem_cons,
    List.not_mem_nil, or_false] at hc
  obtain rfl | rfl | rfl | rfl | rfl | rfl := hc <;> trivial

theorem Secure.harmless (h : Secure p) : ∀ c ∈ p.todo, Harmless p.fds c := by
  obtain h | h := h
  · intro c hc
    exact main_harmless _ c (h.subset hc)
  · exact h.2

theorem Secure.tail {c : Call} {rest : List Call} (h : Secure p) (ht : p.todo = c :: rest)
    (hq : q.todo = rest)
    (hm : ∀ n, lookup q.fds n = some .lockFile → lookup p.fds n = some .lockFile) :
    Secure q := by
  obtain h | ⟨ho, h⟩ := h
  · left
    rw [hq]
    rw [ht] at h
    exact (List.suffix_cons c rest).trans h
  · right
    rw [ht] at ho h
    rw [hq]
    constructor
    · intro hc
      exact ho (List.mem_cons_of_mem c hc)
    · intro d hd
      exact (h d (List.mem_cons_of_mem c hd)).mono hm

theorem Secure.opened {rest : List Call} (h : Secure p) (ht : p.todo = .openLock :: rest)
    (hq : q.todo = rest) : Secure q := by
  obtain h | ⟨ho, -⟩ := h
  · left
    rw [hq]
    rw [ht] at h
    exact (List.suffix_cons _ rest).trans h
  · rw [ht] at ho
    exact absurd List.mem_cons_self ho

theorem constructor_harmless {flags : Flags} {fds : Table File} (hd : flags.daemon = false)
    (hq : flags.quiet = true → ∀ fd < 3, lookup fds fd ≠ some .lockFile) :
    ∀ c ∈ constructor flags, c ≠ .openLock ∧ Harmless fds c := by
  intro c hc
  unfold constructor at hc
  rw [hd] at hc
  cases hf : flags.quiet with
  | false =>
    rw [hf] at hc
    simp only [Bool.false_eq_true, if_false, List.nil_append, List.append_nil, List.mem_cons,
      List.not_mem_nil, or_false, or_self] at hc
    subst hc
    exact ⟨nofun, trivial⟩
  | true =>
    have hl := hq hf
    rw [hf] at hc
    simp only [Bool.false_eq_true, if_false, if_true, consoleQuiet, List.append_nil,
      List.cons_append, List.nil_append, List.mem_cons, List.not_mem_nil, or_false] at hc
    obtain rfl | rfl | rfl | rfl | rfl | rfl | rfl | rfl | rfl | rfl := hc
    · exact ⟨nofun, hl 0 (by decide)⟩
    · exact ⟨nofun, hl 1 (by decide)⟩
    · exact ⟨nofun, hl 2 (by decide)⟩
    all_goals exact ⟨nofun, trivial⟩

theorem Secure.constructed {rest : List Call} {flags : Flags} (h : Secure p)
    (ht : p.todo = .construct :: rest) (hk : Keeps p)
    (hf : parseArgs Flags.initial p.argv = some flags) :
    Secure { p with todo := constructor flags ++ rest } := by
  obtain ⟨hd, hq⟩ := hk (by rw [ht]; rfl) flags hf
  have hc := constructor_harmless hd hq
  have hr : .openLock ∉ rest := by
    obtain h | ⟨ho, -⟩ := h
    · rw [ht] at h
      simp only [main, lock, run, List.cons_append, List.nil_append, List.suffix_cons_iff] at h
      simp_all
    · rw [ht] at ho
      intro hm
      exact ho (List.mem_cons_of_mem _ hm)
  right
  constructor
  · intro ho
    obtain ho | ho := List.mem_append.mp ho
    · exact (hc _ ho).1 rfl
    · exact hr ho
  · intro c hm
    obtain hm | hm := List.mem_append.mp hm
    · exact (hc c hm).2
    · have hp := h.harmless c
      rw [ht] at hp
      exact hp (List.mem_cons_of_mem _ hm)

theorem call_goes {c : Call} {rest : List Call} (ht : p.todo = c :: rest) (hq : q.todo = rest)
    (hc : c ≠ .setLock)
    (hl : Harmless p.fds c → closed ≠ some .lockFile ∧
      (c ≠ .openLock → ∀ n, lookup q.fds n = some .lockFile → lookup p.fds n = some .lockFile))
    (hs : .mainLoop ∈ p.todo → Secure p) :
    (.mainLoop ∈ q.todo → .mainLoop ∈ p.todo ∧ Secure q ∧ closed ≠ some .lockFile) ∧
      (.setLock ∉ q.todo → .setLock ∉ p.todo) := by
  refine ⟨?_, ?_⟩
  · intro hm
    have hm' : .mainLoop ∈ p.todo := ht ▸ List.mem_cons_of_mem c (hq ▸ hm)
    have hsec := hs hm'
    obtain ⟨hcl, hfd⟩ := hl (hsec.harmless c (ht ▸ List.mem_cons_self))
    refine ⟨hm', ?_, hcl⟩
    by_cases ho : c = .openLock
    · subst ho
      exact hsec.opened ht hq
    · exact hsec.tail ht hq (hfd ho)
  · intro hm hm'
    rw [ht] at hm'
    obtain hm' | hm' := List.mem_cons.mp hm'
    · exact hc hm'.symm
    · exact hm (hq ▸ hm')

theorem mem_constructed {c : Call} {flags : Flags} {rest : List Call}
    (h : c = .mainLoop ∨ c = .setLock) :
    c ∈ constructor flags ++ rest ↔ c ∈ .construct :: rest := by
  have hc : c ∉ constructor flags := by
    unfold constructor consoleQuiet daemonize
    obtain rfl | rfl := h <;> split_ifs <;> simp
  obtain rfl | rfl := h <;> simp [hc]

/-- What a call of a secured process leaves: it stays secured, closes no
descriptor of the lock file, and was already past `setLock` if it is now. -/
theorem move_goes (h : move p = some (.goes q closed)) (hk : Keeps p)
    (hs : .mainLoop ∈ p.todo → Secure p) :
    (.mainLoop ∈ q.todo → .mainLoop ∈ p.todo ∧ Secure q ∧ closed ≠ some .lockFile) ∧
      (.setLock ∉ q.todo → .setLock ∉ p.todo) := by
  obtain ⟨argv, fds, lockFd, todo⟩ := p
  cases todo with
  | nil => cases h
  | cons c rest =>
    cases c with
    | openLock =>
      cases h
      exact call_goes rfl rfl nofun (fun _ ↦ ⟨nofun, fun hn ↦ absurd rfl hn⟩) hs
    | construct =>
      simp only [move] at h
      cases hf : parseArgs Flags.initial argv with
      | none => simp [hf] at h
      | some flags =>
        simp only [hf, Option.some.injEq, Move.goes.injEq] at h
        obtain ⟨rfl, rfl⟩ := h
        refine ⟨?_, ?_⟩
        · intro hm
          have hm' := (mem_constructed (.inl rfl)).mp hm
          exact ⟨hm', (hs hm').constructed rfl hk hf, nofun⟩
        · intro hm hm'
          exact hm ((mem_constructed (.inr rfl)).mpr hm')
    | close fd =>
      cases h
      refine call_goes rfl rfl nofun (fun hh ↦ ⟨hh, fun _ n hn ↦ ?_⟩) hs
      rw [lookup_close] at hn
      split_ifs at hn
      exact hn
    | openNull =>
      cases h
      refine call_goes rfl rfl nofun (fun _ ↦ ⟨nofun, fun _ n hn ↦ ?_⟩) hs
      rw [lookup_install] at hn
      split_ifs at hn
      · cases hn
      · exact hn
    | pipe =>
      cases h
      refine call_goes rfl rfl nofun (fun _ ↦ ⟨nofun, fun _ n hn ↦ ?_⟩) hs
      exact lookup_of_installAll hn (by simp)
    | redirect fd =>
      cases h
      exact call_goes rfl rfl nofun False.elim hs
    | detach | prepare | forkBoosters =>
      cases h
      exact call_goes rfl rfl nofun (fun _ ↦ ⟨nofun, fun _ _ ↦ id⟩) hs
    | unlock =>
      cases lockFd <;> cases h
      · exact call_goes rfl rfl nofun False.elim hs
      · exact call_goes rfl rfl nofun False.elim hs
    | setLock | exit => cases h
    | fork | mainLoop | booster => cases h

theorem move_asks (h : move p = some (.asks q)) :
    p.todo = .setLock :: q.todo ∧ q.fds = p.fds := by
  obtain ⟨argv, fds, lockFd, todo⟩ := p
  cases todo with
  | nil => cases h
  | cons c rest =>
    cases c with
    | setLock =>
      cases h
      exact ⟨rfl, rfl⟩
    | construct =>
      simp only [move] at h
      cases hf : parseArgs Flags.initial argv <;> simp [hf] at h
    | unlock => cases lockFd <;> cases h
    | _ => cases h

def Past (p : Proc) : Prop := .setLock ∉ p.todo ∧ .mainLoop ∈ p.todo

def Critical (w : World) (pid : Pid) : Prop := ∃ p, w.procs pid = some p ∧ Past p

/-- Every instance between `setLock` and its end owns the lock. -/
structure Exclusive (w : World) : Prop where
  secure : ∀ pid p, w.procs pid = some p → .mainLoop ∈ p.todo → Secure p
  guarded : Guarded w.owner (Critical w)

theorem procs_setProc (w : World) (pid pid' : Pid) (p : Proc) :
    (w.setProc pid p).procs pid' = if pid' = pid then some p else w.procs pid' :=
  Function.update_apply w.procs pid (some p) pid'

theorem critical_setProc {pid' : Pid} (h : Critical (w.setProc pid p) pid') :
    pid' = pid ∧ Past p ∨ pid' ≠ pid ∧ Critical w pid' := by
  obtain ⟨q, hq, hp⟩ := h
  rw [procs_setProc] at hq
  split_ifs at hq with he
  · exact .inl ⟨he, Option.some.inj hq ▸ hp⟩
  · exact .inr ⟨he, q, hq, hp⟩

theorem Exclusive.setProc (h : Exclusive w) (hs : .mainLoop ∈ p.todo → Secure p)
    (hp : Past p → Critical w pid) : Exclusive (w.setProc pid p) := by
  refine ⟨?_, h.guarded.mono ?_⟩
  · intro pid' q hq
    rw [procs_setProc] at hq
    split_ifs at hq
    · exact Option.some.inj hq ▸ hs
    · exact h.secure pid' q hq
  · intro pid' hc
    obtain ⟨rfl, hp'⟩ | ⟨-, hc⟩ := critical_setProc hc
    · exact hp hp'
    · exact hc

theorem Exclusive.exit (h : Exclusive w) (pid : Pid) : Exclusive (w.exit pid) := by
  have hc : ∀ pid', Critical (w.exit pid) pid' → pid' ≠ pid ∧ Critical w pid' := by
    intro pid' hc
    obtain ⟨q, hq, hp⟩ := hc
    simp only [World.exit, Function.update_apply] at hq
    split_ifs at hq with he
    exact ⟨he, q, hq, hp⟩
  refine ⟨?_, h.guarded.leave ?_ ?_⟩
  · intro pid' q hq
    simp only [World.exit, Function.update_apply] at hq
    split_ifs at hq
    exact h.secure pid' q hq
  · intro hp
    exact (hc pid hp).1 rfl
  · intro pid' _ hp
    exact (hc pid' hp).2

theorem Exclusive.asks {owner : Option Pid} (h : Exclusive w) (hp : w.procs pid = some p)
    (hm : move p = some (.asks q)) (ha : acquire w.owner pid = some owner) :
    Exclusive { w.setProc pid q with owner := owner } := by
  obtain ⟨ht, hfd⟩ := move_asks hm
  refine ⟨?_, h.guarded.enter ha ?_⟩
  · intro pid' r hr hmain
    change (w.setProc pid q).procs pid' = some r at hr
    rw [procs_setProc] at hr
    split_ifs at hr
    · obtain rfl := Option.some.inj hr
      exact (h.secure pid p hp (ht ▸ List.mem_cons_of_mem _ hmain)).tail ht rfl
        (fun n hn ↦ hfd ▸ hn)
    · exact h.secure pid' r hr hmain
  · intro pid' hne hc
    obtain ⟨r, hr, hpast⟩ := hc
    change (w.setProc pid q).procs pid' = some r at hr
    rw [procs_setProc, if_neg hne] at hr
    exact ⟨r, hr, hpast⟩

theorem Exclusive.released (h : Exclusive w) (hn : ¬Critical w pid) :
    Exclusive { w with owner := release w.owner pid } :=
  ⟨h.secure, h.guarded.leave hn fun _ _ ↦ id⟩

theorem Exclusive.goes (h : Exclusive w) (hp : w.procs pid = some p)
    (hm : move p = some (.goes q closed)) (hk : Keeps p) :
    Exclusive ((w.close pid closed).setProc pid q) := by
  obtain ⟨hmain, hpast⟩ := move_goes hm hk (h.secure pid p hp)
  have hset : Exclusive (w.setProc pid q) := by
    apply h.setProc
    · intro hq
      exact (hmain hq).2.1
    · intro hq
      exact ⟨p, hp, hpast hq.1, (hmain hq.2).1⟩
  by_cases hcl : closed = some .lockFile
  · have hn : ¬Critical (w.setProc pid q) pid := by
      intro hc
      obtain ⟨-, hq⟩ | ⟨hne, -⟩ := critical_setProc hc
      · exact (hmain hq.2).2.2 hcl
      · exact hne rfl
    rw [World.close, if_pos hcl]
    exact hset.released hn
  · rw [World.close, if_neg hcl]
    exact hset

theorem Exclusive.act (h : Exclusive w) (hp : w.procs pid = some p) (hk : Keeps p) {m : Move}
    (hm : move p = some m) : Exclusive (act w pid m) := by
  cases m with
  | ends => exact h.exit pid
  | asks q =>
    unfold StartUp.act
    cases ha : acquire w.owner pid with
    | none => exact h.exit pid
    | some owner => exact h.asks hp hm ha
  | goes q closed => exact h.goes hp hm hk

theorem Exclusive.elsewhere {c : Call} {rest : List Call} (h : Exclusive w)
    (hp : w.procs pid = some p) (ht : p.todo = c :: rest) (hc : ∀ fds, ¬Harmless fds c) :
    .mainLoop ∉ rest := by
  intro hm
  have hsec := h.secure pid p hp (ht ▸ List.mem_cons_of_mem c hm)
  exact hc _ (hsec.harmless c (ht ▸ List.mem_cons_self))

theorem Exclusive.setElsewhere (h : Exclusive w) (hm : .mainLoop ∉ p.todo) :
    Exclusive (w.setProc pid p) :=
  h.setProc (fun hp ↦ absurd hp hm) (fun hp ↦ absurd hp.2 hm)

theorem step_exclusive {a : Label} (h : Exclusive w) (hk : KeepsLock w a)
    (hs : step w a = some w') : Exclusive w' := by
  cases a with
  | start pid argv fds =>
    simp only [step] at hs
    split at hs
    · cases hs
      apply h.setProc
      · intro _
        exact .inl List.suffix_rfl
      · intro hp
        exact absurd (show Call.setLock ∈ main by decide) hp.1
    · cases hs
  | call pid =>
    simp only [step] at hs
    obtain ⟨p, hp, hm⟩ := Option.bind_eq_some_iff.mp hs
    obtain ⟨m, hmove, rfl⟩ := Option.map_eq_some_iff.mp hm
    exact h.act hp (hk p hp) hmove
  | noFile pid =>
    simp only [step] at hs
    split at hs <;> try cases hs
    rename_i p hp
    split at hs <;> cases hs
    rename_i fd rest ht
    exact h.setElsewhere (h.elsewhere hp ht fun _ ↦ id)
  | fork pid child =>
    simp only [step] at hs
    split at hs <;> try cases hs
    rename_i p hp hchild
    split at hs <;> cases hs
    rename_i rest ht
    have hrest := h.elsewhere hp ht fun _ ↦ id
    have hparent : Exclusive (w.setProc pid { p with todo := [.exit] }) :=
      h.setElsewhere (show Call.mainLoop ∉ [Call.exit] by decide)
    exact hparent.setElsewhere hrest
  | forkBooster pid child =>
    simp only [step] at hs
    split at hs <;> try cases hs
    split at hs <;> cases hs
    all_goals exact h.setElsewhere (show Call.mainLoop ∉ boosterChild by decide)
  | exit pid =>
    simp only [step] at hs
    obtain ⟨_, -, rfl⟩ := Option.map_eq_some_iff.mp hs
    exact h.exit pid

theorem start_exclusive : Exclusive World.start :=
  ⟨nofun, nofun⟩

theorem run_exclusive {l : List Label} (h : Run step KeepsLock World.start l w) : Exclusive w :=
  h.invariant Exclusive (fun _ _ _ hw hk hs ↦ step_exclusive hw hk hs) start_exclusive

/-- While every constructor keeps the lock, one process at most is in the main
loop. -/
theorem one_main_loop {l : List Label} {a b : Pid} (h : Run step KeepsLock World.start l w)
    (ha : w.InMainLoop a) (hb : w.InMainLoop b) : a = b := by
  have hc : ∀ {pid}, w.InMainLoop pid → Critical w pid := by
    intro pid hp
    obtain ⟨p, hp, ht⟩ := hp
    exact ⟨p, hp, by rw [Past, ht]; decide⟩
  exact (run_exclusive h).guarded.unique (hc ha) (hc hb)

def console : Table File := [some .other, some .other, some .other]

def calls (pid : Pid) (n : ℕ) : List Label := List.replicate n (.call pid)

/-- The second instance finds the lock taken and ends. -/
theorem one_main_loop_quiet :
    ∃ w, Run step KeepsLock World.start
        (.start 1 ["applauncherd", "-q"] console :: calls 1 15 ++
          .start 2 ["applauncherd", "-d"] console :: calls 2 2) w ∧
      w.InMainLoop 1 ∧ ∀ b, w.InMainLoop b → 1 = b := by
  have hrun : ∃ w, Run step KeepsLock World.start
      (.start 1 ["applauncherd", "-q"] console :: calls 1 15 ++
        .start 2 ["applauncherd", "-d"] console :: calls 2 2) w ∧ w.InMainLoop 1 :=
    ⟨_, run_of_exec rfl, ⟨_, rfl, rfl⟩⟩
  obtain ⟨w, hw, ha⟩ := hrun
  exact ⟨w, hw, ha, fun _ hb ↦ one_main_loop hw ha hb⟩

/-- The lock stays with the process that `daemonize` ends, so another instance
takes it while the daemon runs. -/
theorem daemonize_loses_lock :
    ¬∀ (l : List Label) (w : World) (a b : Pid), Run step Any World.start l w →
      w.InMainLoop a → w.InMainLoop b → a = b := by
  intro h
  have hrun : ∃ w, Run step Any World.start
      (.start 1 ["applauncherd", "--daemon"] console :: calls 1 7 ++
        [.fork 1 2, .call 1, .fork 2 3, .call 2] ++ calls 3 6 ++
        .start 4 ["applauncherd"] console :: calls 4 9) w ∧ w.InMainLoop 3 ∧ w.InMainLoop 4 :=
    ⟨_, run_of_exec rfl, ⟨_, rfl, rfl⟩, ⟨_, rfl, rfl⟩⟩
  obtain ⟨w, hw, ha, hb⟩ := hrun
  exact absurd (h _ w 3 4 hw ha hb) (by decide)

end Applauncherd.Launcherlib.MutualExclusion
