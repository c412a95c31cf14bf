import Applauncherd.Launcherlib.Effects

namespace Applauncherd.Launcherlib.Consistency

open BoosterPipe (Message)
open Library.Transition Tables MainLoop Effects

def recorded (s : System) (type : UInt8) : Option Pid := s.tables.boosterTypeToPid[type]?

/-- What holds between the tables, the processes and the pipe in every run. The
types in `hole` have no booster at the moment. -/
structure Consistent (types hole : List UInt8) (s : System) : Prop where
  children_nodup : s.tables.children.Nodup
  children_iff : ∀ p, p ∈ s.tables.children ↔ (s.procs p).isSome
  no_zero : s.procs 0 = none
  type_mem : ∀ p c, s.procs p = some c → c.type ∈ types
  packet_mem : ∀ k ∈ s.pipe, k.message.type ∈ types
  booster : ∀ type ∉ hole, ∀ p, recorded s type = some p → ∃ c, s.procs p = some c ∧ c.type = type
  forked : ∀ type ∈ types, type ∉ hole → (recorded s type).isSome
  unread : ∀ type ∉ hole, ∀ p c, recorded s type = some p → s.procs p = some c → Child.Launched c →
    ∃ k ∈ s.pipe, k.sender = p ∧ k.message.type = type
  invoker_key : ∀ b v, s.tables.boosterPidToInvokerPid[b]? = some v → (s.procs b).isSome

theorem start_consistent (registry : Registry) (bootMode : Bool) :
    Consistent registry.types registry.types (start registry bootMode).sys := by
  constructor <;> simp [start, recorded]

variable {types hole : List UInt8} {s : System}

@[simp] theorem setProc_self (s : System) (p : Pid) (c : Option Child) :
    (s.setProc p c).procs p = c := if_pos rfl

theorem setProc_other (s : System) {p q : Pid} (c : Option Child) (h : q ≠ p) :
    (s.setProc p c).procs q = s.procs q := if_neg h

theorem setProc_cases {s : System} {b p : Pid} {c d : Child}
    (h : (s.setProc b (some c)).procs p = some d) :
    p = b ∧ d = c ∨ p ≠ b ∧ s.procs p = some d := by
  by_cases hp : p = b
  · subst hp
    exact .inl ⟨rfl, (Option.some.inj ((setProc_self ..).symm.trans h)).symm⟩
  · exact .inr ⟨hp, (setProc_other s _ hp).symm.trans h⟩

theorem setProc_none_cases {s : System} {b p : Pid} {d : Child}
    (h : (s.setProc b none).procs p = some d) : p ≠ b ∧ s.procs p = some d := by
  by_cases hp : p = b
  · subst hp
    cases (setProc_self ..).symm.trans h
  · exact ⟨hp, (setProc_other s _ hp).symm.trans h⟩

theorem Consistent.update (h : Consistent types hole s) {b : Pid} {c c' : Child}
    (hc : s.procs b = some c) (ht : c'.type = c.type) (extra : List Packet)
    (hextra : ∀ k ∈ extra, k.message.type = c.type)
    (hl : Child.Launched c' → Child.Launched c ∨ ∃ k ∈ extra, k.sender = b) :
    Consistent types hole { s.setProc b (some c') with pipe := s.pipe ++ extra } := by
  have hsome : ∀ p, ((s.setProc b (some c')).procs p).isSome = (s.procs p).isSome := by
    intro p
    by_cases hp : p = b
    · subst hp
      simp [hc]
    · rw [setProc_other s _ hp]
  constructor
  case children_nodup => exact h.children_nodup
  case children_iff => exact fun p ↦ (h.children_iff p).trans (by rw [← hsome])
  case no_zero =>
    have hb : (0 : Pid) ≠ b := by
      intro heq
      subst heq
      rw [h.no_zero] at hc
      cases hc
    exact (setProc_other s _ hb).trans h.no_zero
  case type_mem =>
    intro p d hd
    obtain ⟨rfl, rfl⟩ | ⟨-, hd⟩ := setProc_cases hd
    · rw [ht]
      exact h.type_mem p c hc
    · exact h.type_mem p d hd
  case packet_mem =>
    intro k hk
    obtain hk | hk := List.mem_append.mp hk
    · exact h.packet_mem k hk
    · rw [hextra k hk]
      exact h.type_mem b c hc
  case booster =>
    intro type hn p hr
    obtain ⟨d, hd, htype⟩ := h.booster type hn p hr
    by_cases hp : p = b
    · subst hp
      obtain rfl : c = d := Option.some.inj (hc.symm.trans hd)
      exact ⟨c', setProc_self .., ht.trans htype⟩
    · exact ⟨d, (setProc_other s _ hp).trans hd, htype⟩
  case forked => exact h.forked
  case unread =>
    intro type hn p d hr hd hld
    have hold : ∀ c, s.procs p = some c → Child.Launched c →
        ∃ k ∈ s.pipe ++ extra, k.sender = p ∧ k.message.type = type := by
      intro c hc hlc
      obtain ⟨k, hk, hks⟩ := h.unread type hn p c hr hc hlc
      exact ⟨k, List.mem_append_left _ hk, hks⟩
    obtain ⟨rfl, rfl⟩ | ⟨-, hd⟩ := setProc_cases hd
    · obtain hlc | ⟨k, hk, hks⟩ := hl hld
      · exact hold c hc hlc
      · obtain ⟨d, hd, htype⟩ := h.booster type hn p hr
        obtain rfl : c = d := Option.some.inj (hc.symm.trans hd)
        exact ⟨k, List.mem_append_right _ hk, hks, (hextra k hk).trans htype⟩
    · exact hold d hd hld
  case invoker_key =>
    intro b' v hm
    exact (hsome b').symm ▸ h.invoker_key b' v hm

theorem Consistent.update_only (h : Consistent types hole s) {b : Pid} {c c' : Child}
    (hc : s.procs b = some c) (ht : c'.type = c.type)
    (hl : Child.Launched c' → Child.Launched c) :
    Consistent types hole (s.setProc b (some c')) := by
  have hu := h.update hc ht [] (by simp) fun hl' ↦ .inl (hl hl')
  rwa [List.append_nil] at hu

@[simp] theorem recorded_spawned (s : System) (type type' : UInt8) (sleepTime : UInt32)
    (newPid : Pid) : recorded (spawned s type sleepTime newPid) type' =
      if type = type' then some newPid else recorded s type' :=
  recorded_forkBooster _ _ _ _

theorem procs_spawned (s : System) (type : UInt8) (sleepTime : UInt32) {newPid p : Pid}
    (h : s.procs newPid = none) (hp : (s.procs p).isSome) :
    (spawned s type sleepTime newPid).procs p = s.procs p := by
  apply setProc_other
  intro heq
  subst heq
  simp [h] at hp

section Newborn

variable {type : UInt8} {sleepTime : UInt32} {newPid p : Pid}

theorem mem_children_spawned : p ∈ (spawned s type sleepTime newPid).tables.children ↔
    p ∈ s.tables.children ∨ p = newPid := by
  change p ∈ s.tables.children ++ [newPid] ↔ _
  rw [List.mem_append, List.mem_singleton]

theorem ne_newPid (hlive : ∀ p ∈ s.tables.children, (s.procs p).isSome)
    (hnew : s.procs newPid = none) (hp : p ∈ s.tables.children) : p ≠ newPid := by
  intro heq
  subst heq
  have hl := hlive p hp
  rw [hnew] at hl
  cases hl

theorem nodup_spawned (hlive : ∀ p ∈ s.tables.children, (s.procs p).isSome)
    (hnew : s.procs newPid = none) (hn : s.tables.children.Nodup) :
    (spawned s type sleepTime newPid).tables.children.Nodup := by
  change (s.tables.children ++ [newPid]).Nodup
  have hnot : newPid ∉ s.tables.children := fun hm ↦ ne_newPid hlive hnew hm rfl
  exact List.nodup_append_comm.mp (List.nodup_cons.mpr ⟨hnot, hn⟩)

theorem live_spawned (hlive : ∀ p ∈ s.tables.children, (s.procs p).isSome)
    (hnew : s.procs newPid = none)
    (hp : p ∈ (spawned s type sleepTime newPid).tables.children) :
    ((spawned s type sleepTime newPid).procs p).isSome := by
  obtain hp | rfl := mem_children_spawned.mp hp
  · rw [procs_spawned s type _ hnew (hlive p hp)]
    exact hlive p hp
  · simp [spawned]

end Newborn

theorem newborn_not_launched (s : System) (type : UInt8) (sleepTime : UInt32) :
    ¬Child.Launched (newborn s type sleepTime) := by
  intro hl
  obtain ⟨r, hr⟩ := hl
  cases hr

theorem Consistent.fork {type : UInt8} (h : Consistent types (type :: hole) s)
    (htype : type ∈ types) {sleepTime : UInt32} {newPid : Pid} {t : System}
    (ht : s.forkBooster type sleepTime newPid = some t) : Consistent types hole t := by
  obtain ⟨hzero, hnew, rfl⟩ := forkBooster_cases ht
  have hmem : ∀ type', type ≠ type' → type' ∉ hole → type' ∉ type :: hole := by
    intro type' hne hn
    simp [hne.symm, hn]
  constructor
  case children_nodup =>
    exact nodup_spawned (fun p ↦ (h.children_iff p).mp) hnew h.children_nodup
  case children_iff =>
    intro p
    rw [mem_children_spawned, h.children_iff p]
    by_cases hp : p = newPid
    · simp [spawned, hp]
    · simp [spawned, setProc_other s _ hp, hp]
  case no_zero => exact (setProc_other s _ hzero.symm).trans h.no_zero
  case type_mem =>
    intro p d hd
    obtain ⟨-, rfl⟩ | ⟨-, hd⟩ := setProc_cases hd
    · exact htype
    · exact h.type_mem p d hd
  case packet_mem => exact h.packet_mem
  case booster =>
    intro type' hn p hr
    rw [recorded_spawned] at hr
    split_ifs at hr with heq
    · cases hr
      exact ⟨_, setProc_self .., heq⟩
    · obtain ⟨d, hd, hdt⟩ := h.booster type' (hmem type' heq hn) p hr
      exact ⟨d, (procs_spawned s type sleepTime hnew (by simp [hd])).trans hd, hdt⟩
  case forked =>
    intro type' hm hn
    rw [recorded_spawned]
    split_ifs with heq
    · rfl
    · exact h.forked type' hm (hmem type' heq hn)
  case unread =>
    intro type' hn p d hr hd hld
    rw [recorded_spawned] at hr
    obtain ⟨-, rfl⟩ | ⟨hp, hd⟩ := setProc_cases hd
    · exact absurd hld (newborn_not_launched s type sleepTime)
    · split_ifs at hr with heq
      · exact absurd (Option.some.inj hr).symm hp
      · exact h.unread type' (hmem type' heq hn) p d hr hd hld
  case invoker_key =>
    intro b v hm
    have hb := h.invoker_key b v hm
    rw [procs_spawned s type sleepTime hnew hb]
    exact hb

/-- When a message is taken from the pipe, its type is left without a booster. -/
theorem Consistent.take (h : Consistent types [] s) {k : Packet} {pipe : List Packet}
    (hpipe : s.pipe = k :: pipe) : Consistent types [k.message.type] (taken s k.message pipe) := by
  obtain ⟨hrec, hchildren, -⟩ := storeInvoker_eq s.tables k.message
  have hrecorded : ∀ type, recorded (taken s k.message pipe) type = recorded s type := by
    intro type
    simp only [recorded, taken, hrec]
  constructor
  case children_nodup =>
    change (storeInvoker s.tables k.message).children.Nodup
    rw [hchildren]
    exact h.children_nodup
  case children_iff =>
    intro p
    change p ∈ (storeInvoker s.tables k.message).children ↔ _
    rw [hchildren]
    exact h.children_iff p
  case no_zero => exact h.no_zero
  case type_mem => exact h.type_mem
  case packet_mem => exact fun k' hk ↦ h.packet_mem k' (by rw [hpipe]; exact .tail _ hk)
  case booster =>
    intro type _ p hr
    rw [hrecorded] at hr
    exact h.booster type List.not_mem_nil p hr
  case forked =>
    intro type hm _
    rw [hrecorded]
    exact h.forked type hm List.not_mem_nil
  case unread =>
    intro type hn p d hr hd hld
    rw [hrecorded] at hr
    obtain ⟨k', hk, hks, hkt⟩ := h.unread type List.not_mem_nil p d hr hd hld
    rw [hpipe] at hk
    obtain rfl | hk := List.mem_cons.mp hk
    · exact absurd (List.mem_singleton.mpr hkt.symm) hn
    · exact ⟨k', hk, hks, hkt⟩
  case invoker_key =>
    intro b v hm
    obtain hm | ⟨-, -, hr⟩ := invokers_storeInvoker hm
    · exact h.invoker_key b v hm
    · obtain ⟨d, hd, -⟩ := h.booster _ List.not_mem_nil b hr
      change (s.procs b).isSome
      rw [hd]
      rfl

theorem mem_eraseIdx {l : List Pid} (h : l.Nodup) {i : ℕ} {pid p : Pid} (hi : l[i]? = some pid) :
    p ∈ l.eraseIdx i ↔ p ≠ pid ∧ p ∈ l := by
  obtain ⟨hlt, rfl⟩ := List.getElem?_eq_some_iff.mp hi
  rw [← h.erase_getElem i hlt, h.mem_erase_iff]

def holeOf (s : System) (pid : Pid) (c : Child) : List UInt8 :=
  if recorded s c.type = some pid then [c.type] else []

theorem Consistent.bury (h : Consistent types [] s) {i : ℕ} {pid : Pid} {c : Child}
    (hi : s.tables.children[i]? = some pid) (hc : s.procs pid = some c) :
    Consistent types (holeOf s pid c) (buried s i pid c) := by
  have hother : ∀ type ∉ holeOf s pid c, ∀ p, recorded s type = some p → p ≠ pid := by
    intro type hn p hr heq
    subst heq
    obtain ⟨d, hd, rfl⟩ := h.booster type List.not_mem_nil p hr
    obtain rfl : c = d := Option.some.inj (hc.symm.trans hd)
    simp [holeOf, hr] at hn
  constructor
  case children_nodup => exact h.children_nodup.eraseIdx i
  case children_iff =>
    intro p
    change p ∈ s.tables.children.eraseIdx i ↔ ((s.setProc pid none).procs p).isSome
    rw [mem_eraseIdx h.children_nodup hi, h.children_iff p]
    by_cases hp : p = pid
    · simp [hp]
    · simp [setProc_other s _ hp, hp]
  case no_zero =>
    have hz : (0 : Pid) ≠ pid := by
      intro heq
      subst heq
      rw [h.no_zero] at hc
      cases hc
    exact (setProc_other s _ hz).trans h.no_zero
  case type_mem => exact fun p d hd ↦ h.type_mem p d (setProc_none_cases hd).2
  case packet_mem => exact h.packet_mem
  case booster =>
    intro type hn p hr
    obtain ⟨d, hd, hdt⟩ := h.booster type List.not_mem_nil p hr
    exact ⟨d, (setProc_other s _ (hother type hn p hr)).trans hd, hdt⟩
  case forked => exact fun type hm _ ↦ h.forked type hm List.not_mem_nil
  case unread =>
    intro type hn p d hr hd hld
    exact h.unread type List.not_mem_nil p d hr (setProc_none_cases hd).2 hld
  case invoker_key =>
    intro b v hm
    obtain ⟨hb, hm⟩ := kept_buryChild hm
    change ((s.setProc pid none).procs b).isSome
    rw [setProc_other s _ hb]
    exact h.invoker_key b v hm

theorem Consistent.type_found (h : Consistent types [] s) {pid : Pid} {c : Child}
    (hc : s.procs pid = some c) : boosterTypeForPid s.tables pid =
      if recorded s c.type = some pid then c.type else 0 := by
  have hown : ∀ type, recorded s type = some pid → type = c.type := by
    intro type hr
    obtain ⟨d, hd, hdt⟩ := h.booster type List.not_mem_nil pid hr
    obtain rfl : c = d := Option.some.inj (hc.symm.trans hd)
    exact hdt.symm
  split_ifs with hr
  · exact boosterTypeForPid_eq hr hown
  · exact boosterTypeForPid_none fun type ht ↦ hr (hown type ht ▸ ht)

theorem Consistent.reap_cases (h : Consistent types [] s) (hz : 0 ∉ types) {i : ℕ} {pid newPid : Pid}
    {c : Child} {t : System} (hc : s.procs pid = some c)
    (ht : s.reapChild i pid c newPid = some t) :
    recorded s c.type = some pid ∧
        (buried s i pid c).forkBooster c.type boosterSleepTime newPid = some t ∨
      recorded s c.type ≠ some pid ∧ t = buried s i pid c := by
  have htype : boosterTypeForPid (buryChild s.tables i pid) pid = _ := h.type_found hc
  have hne : c.type ≠ 0 := fun h0 ↦ hz (h0 ▸ h.type_mem pid c hc)
  simp only [System.reapChild, htype] at ht
  by_cases hr : recorded s c.type = some pid
  · simp only [hr, if_true, hne, ne_eq, not_false_eq_true] at ht
    exact .inl ⟨hr, ht⟩
  · simp only [hr, if_false, ne_eq, not_true_eq_false] at ht
    exact .inr ⟨hr, (Option.some.inj ht).symm⟩

theorem Consistent.congr (h : Consistent types hole s) {t : System}
    (hc : t.tables.children = s.tables.children)
    (hi : t.tables.boosterPidToInvokerPid = s.tables.boosterPidToInvokerPid)
    (ht : t.tables.boosterTypeToPid = s.tables.boosterTypeToPid) (hprocs : t.procs = s.procs)
    (hpipe : t.pipe = s.pipe) : Consistent types hole t := by
  have hr : recorded t = recorded s := by
    funext type
    simp only [recorded, ht]
  obtain ⟨h1, h2, h3, h4, h5, h6, h7, h8, h9⟩ := h
  rw [← hc] at h1 h2
  rw [← hprocs] at h2 h3 h4 h6 h8 h9
  rw [← hpipe] at h5 h8
  rw [← hr] at h6 h7 h8
  rw [← hi] at h9
  exact ⟨h1, h2, h3, h4, h5, h6, h7, h8, h9⟩

variable {reapOk : System → Pid → Prop} {killOk : System → UInt8 → Prop}

theorem Consistent.not_forgotten (h : Consistent types hole s) {i : ℕ} {pid : Pid}
    (hi : s.tables.children[i]? = some pid) : s.procs pid ≠ none := by
  have hsome := (h.children_iff pid).mp (List.mem_of_getElem? hi)
  intro hnone
  rw [hnone] at hsome
  cases hsome

theorem effect_consistent (hz : 0 ∉ types) {todo todo' : List UInt8} {t : System}
    (hsub : ∀ type ∈ todo, type ∈ types) (h : Consistent types todo s)
    (he : Effect reapOk killOk todo s todo' t) : Consistent types todo' t := by
  cases he with
  | idle => exact h
  | accept ht =>
    obtain ⟨c, hc, -, rfl⟩ := receiveDataFromInvoker_cases ht
    refine h.update_only hc ?_ ?_
    · rfl
    · intro hl
      obtain ⟨r, hr⟩ := hl
      cases hr
  | write ht =>
    obtain ⟨c, r, hc, -, rfl⟩ := sendDataToParent_cases ht
    refine h.update hc ?_ _ ?_ ?_
    · rfl
    · simp
    · intro hl
      exact .inr ⟨_, List.mem_singleton_self _, rfl⟩
  | die ht =>
    obtain ⟨c, hc, rfl⟩ := die_cases ht
    refine h.update_only hc ?_ ?_
    · rfl
    · exact id
  | fork ht => exact h.fork (hsub _ (List.mem_cons_self ..)) ht
  | read hpipe ht =>
    have hm := h.packet_mem _ (by rw [hpipe]; exact List.mem_cons_self ..)
    exact (h.take hpipe).fork hm ht
  | reap hi hc hok ht =>
    have hb := h.bury hi hc
    obtain ⟨hr, ht⟩ | ⟨hr, rfl⟩ := h.reap_cases hz hc ht
    · rw [holeOf, if_pos hr] at hb
      exact hb.fork (h.type_mem _ _ hc) ht
    · rwa [holeOf, if_neg hr] at hb
  | forget hi hnone => exact absurd hnone (h.not_forgotten hi)
  | leave => exact h.congr rfl rfl rfl rfl rfl
  | kill hok =>
    rw [killBooster_eq]
    exact h.congr rfl rfl rfl rfl rfl

theorem effect_todo {todo todo' : List UInt8} {t : System}
    (he : Effect reapOk killOk todo s todo' t) : todo' = todo ∨ ∃ type, todo = type :: todo' := by
  cases he <;> simp

theorem effect_known (registry : Registry) {todo todo' : List UInt8} {t : System}
    (he : Effect reapOk killOk todo s todo' t)
    (h : todo ⊆ registry.types ∧ Consistent registry.types todo s) :
    todo' ⊆ registry.types ∧ Consistent registry.types todo' t := by
  obtain ⟨hsub, hs⟩ := h
  refine ⟨?_, effect_consistent registry.no_zero hsub hs he⟩
  obtain rfl | ⟨type, rfl⟩ := effect_todo he
  · exact hsub
  · exact (List.cons_subset.mp hsub).2

def Known (registry : Registry) (w : World) : Prop :=
  Phase.todo w.phase ⊆ registry.types ∧ Consistent registry.types (Phase.todo w.phase) w.sys

theorem start_known (registry : Registry) (bootMode : Bool) :
    Known registry (start registry bootMode) :=
  ⟨List.Subset.refl _, start_consistent registry bootMode⟩

theorem Known.step {registry : Registry} {w w' : World} (hk : Known registry w) {a : Label}
    (hs : step w a = some w') : Known registry w' := by
  have hok : Orderly (fun _ _ ↦ True) (fun _ _ ↦ True) w a := by
    cases a <;> simp [Orderly]
  exact effect_known registry (step_effect hok hs) hk

/-- What every effect preserves in a consistent system holds in every state that
the daemon reaches, and the tables are consistent there. -/
theorem run_preserves {registry : Registry} {bootMode : Bool} (I : List UInt8 → System → Prop)
    (hI : ∀ todo s todo' t, Effect reapOk killOk todo s todo' t →
      Consistent registry.types todo s → I todo s → I todo' t)
    (h0 : I registry.types (start registry bootMode).sys) {labels : List Label} {w : World}
    (h : Run step (Orderly reapOk killOk) (start registry bootMode) labels w) :
    Consistent registry.types (Phase.todo w.phase) w.sys ∧ I (Phase.todo w.phase) w.sys := by
  have hrun := run_invariant (fun todo s ↦ (todo ⊆ registry.types ∧
    Consistent registry.types todo s) ∧ I todo s) ?_ h
    ⟨⟨List.Subset.refl _, start_consistent registry bootMode⟩, h0⟩
  · exact ⟨hrun.1.2, hrun.2⟩
  · intro todo s todo' t he hs
    exact ⟨effect_known registry he hs.1, hI _ _ _ _ he hs.1.2 hs.2⟩

theorem run_consistent {registry : Registry} {bootMode : Bool} {labels : List Label} {w : World}
    (h : Run step (Orderly reapOk killOk) (start registry bootMode) labels w) :
    Consistent registry.types (Phase.todo w.phase) w.sys :=
  (run_preserves (fun _ _ ↦ True) (fun _ _ _ _ _ _ _ ↦ trivial) trivial h).1

end Applauncherd.Launcherlib.Consistency
