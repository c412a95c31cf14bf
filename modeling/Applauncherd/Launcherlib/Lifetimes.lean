import Applauncherd.Launcherlib.Consistency

namespace Applauncherd.Launcherlib.Lifetimes

open Library.Transition Tables MainLoop Effects Consistency

variable {reapOk : System → Pid → Prop} {killOk : System → UInt8 → Prop}

structure Ages (c c' : Child) : Prop where
  bootMode : c'.bootMode = c.bootMode
  ended : c.status.isSome → c'.status.isSome
  launched : Child.Launched c → Child.Launched c'

theorem Ages.refl (c : Child) : Ages c c := ⟨rfl, id, id⟩

structure Born (s : System) (c : Child) : Prop where
  bootMode : c.bootMode = s.tables.bootMode
  waiting : c.stage = .waiting
  running : c.status = none

theorem newborn_born (s : System) (type : UInt8) (sleepTime : UInt32) :
    Born s (newborn s type sleepTime) := ⟨rfl, rfl, rfl⟩

theorem fork_procs {s t : System} {type : UInt8} {sleepTime : UInt32} {newPid p : Pid} {c : Child}
    (ht : s.forkBooster type sleepTime newPid = some t) (hc : t.procs p = some c) :
    s.procs p = some c ∨ s.procs p = none ∧ Born s c := by
  obtain ⟨-, hnew, rfl⟩ := forkBooster_cases ht
  obtain ⟨rfl, rfl⟩ | ⟨-, hold⟩ := setProc_cases hc
  · exact .inr ⟨hnew, newborn_born s type sleepTime⟩
  · exact .inl hold

theorem reap_procs {s t : System} {i : ℕ} {pid newPid p : Pid} {c c' : Child}
    (ht : s.reapChild i pid c newPid = some t) (hc' : t.procs p = some c') :
    p ≠ pid ∧ s.procs p = some c' ∨ (p = pid ∨ s.procs p = none) ∧ Born s c' := by
  have hburied : (buried s i pid c).procs p = some c' → p ≠ pid ∧ s.procs p = some c' :=
    setProc_none_cases
  obtain ⟨type, ht⟩ | rfl := reapChild_cases ht
  · obtain hold | ⟨hnone, hborn⟩ := fork_procs ht hc'
    · exact .inl (hburied hold)
    · refine .inr ⟨?_, hborn.bootMode, hborn.waiting, hborn.running⟩
      by_cases hp : p = pid
      · exact .inl hp
      · exact .inr ((setProc_other s _ hp).symm.trans hnone)
  · exact .inl (hburied hc')

theorem effect_procs {todo todo' : List UInt8} {s t : System}
    (he : Effect reapOk killOk todo s todo' t) {p : Pid} (hr : ¬reapOk s p) {c' : Child}
    (hc' : t.procs p = some c') :
    (∃ c, s.procs p = some c ∧ Ages c c') ∨ s.procs p = none ∧ Born s c' := by
  cases he with
  | idle => exact .inl ⟨c', hc', .refl c'⟩
  | forget => exact .inl ⟨c', hc', .refl c'⟩
  | leave => exact .inl ⟨c', hc', .refl c'⟩
  | kill =>
    rw [killBooster_eq] at hc'
    exact .inl ⟨c', hc', .refl c'⟩
  | accept ht =>
    obtain ⟨c, hc, hw, rfl⟩ := receiveDataFromInvoker_cases ht
    obtain ⟨rfl, rfl⟩ | ⟨-, hold⟩ := setProc_cases hc'
    · refine .inl ⟨c, hc, rfl, id, ?_⟩
      intro hl
      obtain ⟨r, hr⟩ := hl
      rw [hw] at hr
      cases hr
    · exact .inl ⟨c', hold, .refl c'⟩
  | write ht =>
    obtain ⟨c, r, hc, -, rfl⟩ := sendDataToParent_cases ht
    obtain ⟨rfl, rfl⟩ | ⟨-, hold⟩ := setProc_cases hc'
    · exact .inl ⟨c, hc, rfl, id, fun _ ↦ ⟨r, rfl⟩⟩
    · exact .inl ⟨c', hold, .refl c'⟩
  | die ht =>
    obtain ⟨c, hc, rfl⟩ := die_cases ht
    obtain ⟨rfl, rfl⟩ | ⟨-, hold⟩ := setProc_cases hc'
    · exact .inl ⟨c, hc, rfl, fun _ ↦ rfl, id⟩
    · exact .inl ⟨c', hold, .refl c'⟩
  | fork ht =>
    obtain hold | hborn := fork_procs ht hc'
    · exact .inl ⟨c', hold, .refl c'⟩
    · exact .inr hborn
  | @read _ _ packet pipe _ hpipe ht =>
    obtain ⟨-, -, hboot⟩ := storeInvoker_eq s.tables packet.message
    obtain hold | ⟨hnone, hborn⟩ := fork_procs ht hc'
    · exact .inl ⟨c', hold, .refl c'⟩
    · exact .inr ⟨hnone, hborn.bootMode.trans hboot, hborn.waiting, hborn.running⟩
  | reap hi hc hok ht =>
    obtain ⟨-, hold⟩ | ⟨hp, hborn⟩ := reap_procs ht hc'
    · exact .inl ⟨c', hold, .refl c'⟩
    · obtain rfl | hnone := hp
      · exact absurd hok hr
      · exact .inr ⟨hnone, hborn⟩

theorem setProc_stays {s : System} {b p : Pid} {c : Child} (h : (s.procs p).isSome) :
    ((s.setProc b (some c)).procs p).isSome := by
  by_cases hp : p = b
  · rw [hp, setProc_self]
    rfl
  · rwa [setProc_other s _ hp]

theorem fork_stays {s t : System} {type : UInt8} {sleepTime : UInt32} {newPid p : Pid}
    (ht : s.forkBooster type sleepTime newPid = some t) (h : (s.procs p).isSome) :
    (t.procs p).isSome := by
  obtain ⟨-, -, rfl⟩ := forkBooster_cases ht
  exact setProc_stays h

theorem effect_stays {todo todo' : List UInt8} {s t : System}
    (he : Effect reapOk killOk todo s todo' t) {p : Pid} (hr : ¬reapOk s p)
    (h : (s.procs p).isSome) : (t.procs p).isSome := by
  cases he with
  | idle => exact h
  | forget => exact h
  | leave => exact h
  | kill =>
    rw [killBooster_eq]
    exact h
  | accept ht =>
    obtain ⟨c, -, -, rfl⟩ := receiveDataFromInvoker_cases ht
    exact setProc_stays h
  | write ht =>
    obtain ⟨c, r, -, -, rfl⟩ := sendDataToParent_cases ht
    exact setProc_stays h
  | die ht =>
    obtain ⟨c, -, rfl⟩ := die_cases ht
    exact setProc_stays h
  | fork ht => exact fork_stays ht h
  | read hpipe ht => exact fork_stays ht h
  | @reap _ _ i pid c newPid hi hc hok ht =>
    have hne : p ≠ pid := fun heq ↦ hr (heq ▸ hok)
    have hburied : ((buried s i pid c).procs p).isSome := by
      change ((s.setProc pid none).procs p).isSome
      rwa [setProc_other s _ hne]
    obtain ⟨type, ht⟩ | rfl := reapChild_cases ht
    · exact fork_stays ht hburied
    · exact hburied

def reapedBy (w : World) : Label → Option Pid
  | .daemon _ => World.reaped w
  | _ => none

/-- The processes that a step sends SIGTERM, as `System.sigterms` has them. -/
def killedBy (w : World) (a : Label) : List Pid :=
  ((step w a).elim [] fun w' ↦ w'.sys.sigterms.drop w.sys.sigterms.length).map Sigterm.pid

theorem reaped_cases {w w' : World} {p newPid : Pid} (hr : World.reaped w = some p)
    (h : daemonStep w newPid = some w') :
    ∃ r i c, w.phase = .reapZombies r i ∧ w.sys.tables.children[i]? = some p ∧
      w.sys.procs p = some c ∧
      (w.sys.reapChild i p c newPid).map (w.put (.reapZombies r i)) = some w' := by
  unfold World.reaped at hr
  split at hr
  · rename_i r i hphase
    obtain ⟨hi, hany⟩ := Option.filter_eq_some_iff.mp hr
    obtain ⟨⟨type, bootMode, sleepTime, stage, status⟩, hc, hdead⟩ :=
      (Option.any_eq_true ..).mp hany
    refine ⟨r, i, _, hphase, hi, hc, ?_⟩
    cases status with
    | none => cases hdead
    | some status => simpa only [daemonStep, hphase, reapStep, hi, hc] using h
  · cases hr

theorem reaped_procs {w w' : World} {a : Label} {p : Pid} (hr : reapedBy w a = some p)
    (h : step w a = some w') {c' : Child} (hc' : w'.sys.procs p = some c') : Born w.sys c' := by
  cases a with
  | daemon newPid =>
    obtain ⟨r, i, c, -, -, -, hmap⟩ := reaped_cases hr h
    obtain ⟨t, ht, rfl⟩ := Option.map_eq_some_iff.mp hmap
    obtain ⟨hne, -⟩ | ⟨-, hborn⟩ := reap_procs ht hc'
    · exact absurd rfl hne
    · exact hborn
  | _ => cases hr

theorem reapedBy_effect {w w' : World} {a : Label} (h : step w a = some w') :
    Effect (fun _ q ↦ reapedBy w a = some q) (fun _ _ ↦ True) (Phase.todo w.phase) w.sys
      (Phase.todo w'.phase) w'.sys := by
  refine step_effect ?_ h
  cases a with
  | daemon newPid => exact ⟨fun _ hq ↦ hq, fun _ _ ↦ trivial⟩
  | _ => trivial

theorem step_procs {w w' : World} {a : Label} {p : Pid} (h : step w a = some w') {c' : Child}
    (hc' : w'.sys.procs p = some c') :
    (∃ c, w.sys.procs p = some c ∧ Ages c c' ∧ reapedBy w a ≠ some p) ∨
      (w.sys.procs p = none ∨ reapedBy w a = some p) ∧ Born w.sys c' := by
  by_cases hr : reapedBy w a = some p
  · exact .inr ⟨.inr hr, reaped_procs hr h hc'⟩
  · obtain ⟨c, hc, hages⟩ | ⟨hnone, hborn⟩ := effect_procs (reapedBy_effect h) hr hc'
    · exact .inl ⟨c, hc, hages, hr⟩
    · exact .inr ⟨.inl hnone, hborn⟩

theorem killBooster_sigterms {types : List UInt8} {s : System} (hc : Consistent types [] s)
    (type : UInt8) : (s.killBooster type).sigterms =
      s.sigterms ++ (recorded s type).toList.map fun p ↦ ⟨p, s.procs p⟩ := by
  have hpid : boosterPidForType s.tables type = (recorded s type).getD 0 := rfl
  simp only [System.killBooster, hpid]
  cases hr : recorded s type with
  | none => simp
  | some p =>
    have hp : p ≠ 0 := by
      rintro rfl
      obtain ⟨c, h0, -⟩ := hc.booster type List.not_mem_nil 0 hr
      cases hc.no_zero.symm.trans h0
    simp [hp]

theorem killed_cases {w : World} {type : UInt8} (h : World.killed w = some type) :
    ∃ types, w.phase = .killBoosters (type :: types) := by
  unfold World.killed at h
  split at h
  · rename_i type' types hphase
    cases h
    exact ⟨types, hphase⟩
  · cases h

def target (w : World) : Label → Option Pid
  | .daemon _ => (World.killed w).bind (recorded w.sys)
  | _ => none

/-- `killBoosters` sends SIGTERM to each recorded booster, and nobody else sends
any. -/
theorem step_sigterms {types : List UInt8} {w w' : World} {a : Label}
    (hc : Consistent types (Phase.todo w.phase) w.sys) (h : step w a = some w') :
    w'.sys.sigterms = w.sys.sigterms ++ (target w a).toList.map fun p ↦ ⟨p, w.sys.procs p⟩ := by
  have hother : Orderly (fun _ _ ↦ True) (fun _ _ ↦ False) w a →
      w'.sys.sigterms = w.sys.sigterms := by
    intro hok
    obtain hsame | ⟨-, type, hno, -⟩ := effect_sigterms (step_effect hok h)
    · exact hsame
    · exact hno.elim
  cases a with
  | daemon newPid =>
    cases hk : World.killed w with
    | none => simpa [target, hk] using hother ⟨fun _ _ ↦ trivial, by simp [hk]⟩
    | some type =>
      obtain ⟨types, hphase⟩ := killed_cases hk
      rw [hphase] at hc
      rw [target, hk, Option.bind_some, ← killBooster_sigterms hc type]
      simp only [step, daemonStep, hphase, Option.some.injEq] at h
      rw [← h]
      rfl
  | _ => simpa [target] using hother trivial

theorem killedBy_eq {types : List UInt8} {w w' : World} {a : Label}
    (hc : Consistent types (Phase.todo w.phase) w.sys) (h : step w a = some w') :
    killedBy w a = (target w a).toList := by
  rw [killedBy, h, Option.elim_some, step_sigterms hc h, List.drop_left, List.map_map]
  exact List.map_id _

/-- Whether the process that has a pid by now has been sent SIGTERM. -/
def sentAfter (w : World) (a : Label) (sent : Pid → Bool) (p : Pid) : Bool :=
  if reapedBy w a = some p then false else if p ∈ killedBy w a then true else sent p

theorem sentAfter_cases {w : World} {a : Label} {sent : Pid → Bool} {p : Pid}
    (h : sentAfter w a sent p = true) :
    reapedBy w a ≠ some p ∧ (p ∈ killedBy w a ∨ sent p = true) := by
  unfold sentAfter at h
  split_ifs at h with hr hk
  · exact ⟨hr, .inl hk⟩
  · exact ⟨hr, .inr h⟩

theorem sentAfter_kept {w : World} {a : Label} {sent : Pid → Bool} {p : Pid}
    (hr : reapedBy w a ≠ some p) (h : sent p = true) : sentAfter w a sent p = true := by
  rw [sentAfter, if_neg hr, h, ite_self]

theorem sentAfter_killed {w : World} {a : Label} {p : Pid} (sent : Pid → Bool)
    (hr : reapedBy w a ≠ some p) (hk : p ∈ killedBy w a) : sentAfter w a sent p = true := by
  rw [sentAfter, if_neg hr, if_pos hk]

end Applauncherd.Launcherlib.Lifetimes
