import Applauncherd.Launcherlib.ReapZombies

namespace Applauncherd.Launcherlib.DaemonEvents

open BoosterPipe (Message)
open Library.Transition Tables MainLoop Effects Consistency ReapZombies

/-- A turn of the daemon: a first fork, a message read from the booster pipe, a
call of `reapZombies` with the children that have exited since, or SIGUSR1. -/
inductive Event
  | fork (type : UInt8) (newPid : Pid)
  | message (msg : Message) (newPid : Pid)
  | reapZombies (exits : Pid → Option Status) (fork : System → Pid)
  | sigUsr1

/-- The daemon and the types that it has ever forked a booster for. -/
structure State where
  sys : System
  ever : List UInt8

def State.start (bootMode : Bool) : State := ⟨(MainLoop.start ⟨[], List.nodup_nil, List.not_mem_nil⟩ bootMode).sys, []⟩

def exiting (exits : Pid → Option Status) (s : System) : System :=
  { s with procs := fun p ↦ (s.procs p).map fun c ↦
      match c.status with
      | none => { c with status := exits p }
      | some _ => c }

def enterNormalMode (s : System) : System :=
  if s.tables.bootMode then
    s.tables.boosterTypeToPid.keys.foldl System.killBooster s.leaveBootMode
  else s

def step (s : State) : Event → Option State
  | .fork type newPid => (s.sys.forkBooster type 0 newPid).map fun t ↦ ⟨t, type :: s.ever⟩
  | .message msg newPid =>
    ({ s.sys with pipe := [⟨0, msg⟩] }.readFromBoosterPipe newPid).map fun t ↦
      ⟨t, msg.type :: s.ever⟩
  | .reapZombies exits fork =>
    (reapZombies fork (exiting exits s.sys)).map fun t ↦ ⟨t, s.ever⟩
  | .sigUsr1 => some ⟨enterNormalMode s.sys, s.ever⟩

/-- Types are not zero, and `fork` returns no pid of an unreaped child. -/
def Admissible (_ : State) : Event → Prop
  | .fork type _ => type ≠ 0
  | .message msg _ => msg.type ≠ 0
  | .reapZombies _ fork => Fresh fork
  | .sigUsr1 => True

/-- The tables list the unreaped children, and each type ever forked has a booster
of its own among them. -/
structure Agreeing (s : State) : Prop where
  children_nodup : s.sys.tables.children.Nodup
  children_iff : ∀ p, p ∈ s.sys.tables.children ↔ (s.sys.procs p).isSome
  has_booster : ∀ type ∈ s.ever, ∃ p, recorded s.sys type = some p ∧ p ≠ 0
  recorded_mem : ∀ type p, recorded s.sys type = some p → p ∈ s.sys.tables.children
  recorded_inj : ∀ type type' p, recorded s.sys type = some p → recorded s.sys type' = some p →
    type = type'
  key_mem : ∀ b v, s.sys.tables.boosterPidToInvokerPid[b]? = some v →
    b ∈ s.sys.tables.children
  type_of_pid : ∀ type ∈ s.ever,
    boosterTypeForPid s.sys.tables (boosterPidForType s.sys.tables type) = type
  pid_of_type : ∀ p, boosterTypeForPid s.sys.tables p ≠ 0 →
    boosterPidForType s.sys.tables (boosterTypeForPid s.sys.tables p) = p

structure Ordered (ever : List UInt8) (s : System) : Prop where
  sound : Sound s
  listed : ∀ p, (s.procs p).isSome → p ∈ s.tables.children
  forked : ∀ type ∈ ever, type ≠ 0 ∧ (recorded s type).isSome
  no_zero : recorded s 0 = none

variable {s t : System} {ever : List UInt8} {type : UInt8} {pid newPid : Pid}

theorem sound_spawned (h : Sound s) (hz : newPid ≠ 0) (hnew : s.procs newPid = none)
    (sleepTime : UInt32) : Sound (spawned s type sleepTime newPid) := by
  have hne : ∀ p ∈ s.tables.children, p ≠ newPid := fun p ↦ ne_newPid h.live hnew
  constructor
  case nodup => exact nodup_spawned h.live hnew h.nodup
  case live => exact fun p ↦ live_spawned h.live hnew
  case no_zero => exact (setProc_other s _ hz.symm).trans h.no_zero
  case recorded_mem =>
    intro type' p hr
    rw [recorded_spawned] at hr
    rw [mem_children_spawned]
    split_ifs at hr
    · exact .inr (Option.some.inj hr).symm
    · exact .inl (h.recorded_mem type' p hr)
  case recorded_inj =>
    intro type' type'' p hr hr'
    rw [recorded_spawned] at hr hr'
    split_ifs at hr hr' with h1 h2 h2
    · exact h1.symm.trans h2
    · exact absurd (Option.some.inj hr).symm (hne p (h.recorded_mem _ p hr'))
    · exact absurd (Option.some.inj hr').symm (hne p (h.recorded_mem _ p hr))
    · exact h.recorded_inj _ _ p hr hr'
  case key_mem =>
    intro b v hb
    exact mem_children_spawned.mpr (.inl (h.key_mem b v hb))

theorem Ordered.fork (h : Ordered ever s) (hne : type ≠ 0) {sleepTime : UInt32}
    (ht : s.forkBooster type sleepTime newPid = some t) : Ordered (type :: ever) t := by
  obtain ⟨hz, hnew, rfl⟩ := forkBooster_cases ht
  constructor
  case sound => exact sound_spawned h.sound hz hnew sleepTime
  case listed =>
    intro p hp
    rw [mem_children_spawned]
    by_cases heq : p = newPid
    · exact .inr heq
    · change ((s.setProc newPid _).procs p).isSome at hp
      rw [setProc_other s _ heq] at hp
      exact .inl (h.listed p hp)
  case forked =>
    intro type' hm
    rw [recorded_spawned]
    split_ifs with heq
    · exact ⟨heq ▸ hne, rfl⟩
    · obtain rfl | hm := List.mem_cons.mp hm
      · exact absurd rfl heq
      · exact h.forked type' hm
  case no_zero =>
    rw [recorded_spawned, if_neg hne]
    exact h.no_zero

theorem Ordered.store (h : Ordered ever s) (msg : Message) (pipe : List Packet) :
    Ordered ever (taken s msg pipe) := by
  obtain ⟨hrec, hchildren, -⟩ := storeInvoker_eq s.tables msg
  have hr : ∀ type, recorded (taken s msg pipe) type = recorded s type := by
    intro type
    simp only [recorded, taken, hrec]
  have hc : (taken s msg pipe).tables.children = s.tables.children := hchildren
  constructor
  case sound =>
    constructor
    case nodup => exact hc ▸ h.sound.nodup
    case live => exact hc ▸ h.sound.live
    case no_zero => exact h.sound.no_zero
    case recorded_mem =>
      intro type p
      rw [hr, hc]
      exact h.sound.recorded_mem type p
    case recorded_inj =>
      intro type type' p
      rw [hr, hr]
      exact h.sound.recorded_inj type type' p
    case key_mem =>
      intro b v hm
      rw [hc]
      obtain hm | ⟨-, -, hb⟩ := invokers_storeInvoker hm
      · exact h.sound.key_mem b v hm
      · exact h.sound.recorded_mem _ b hb
  case listed =>
    rw [hc]
    exact h.listed
  case forked =>
    intro type hm
    rw [hr]
    exact h.forked type hm
  case no_zero => exact (hr 0).trans h.no_zero

theorem Ordered.congr (h : Ordered ever s)
    (hc : t.tables.children = s.tables.children)
    (hi : t.tables.boosterPidToInvokerPid = s.tables.boosterPidToInvokerPid)
    (ht : t.tables.boosterTypeToPid = s.tables.boosterTypeToPid)
    (hprocs : ∀ p, (t.procs p).isSome = (s.procs p).isSome) : Ordered ever t := by
  have hr : recorded t = recorded s := by
    funext type
    simp only [recorded, ht]
  obtain ⟨⟨h1, h2, h3, h4, h5, h6⟩, h7, h8, h9⟩ := h
  rw [← hc] at h1 h2 h4 h6 h7
  rw [← hr] at h4 h5 h8 h9
  rw [← hi] at h6
  refine ⟨⟨h1, ?_, ?_, h4, h5, h6⟩, ?_, h8, h9⟩
  · intro p hp
    rw [hprocs]
    exact h2 p hp
  · simpa [h3] using hprocs 0
  · intro p hp
    rw [hprocs] at hp
    exact h7 p hp

theorem Ordered.exiting (h : Ordered ever s) (exits : Pid → Option Status) :
    Ordered ever (exiting exits s) := by
  refine h.congr rfl rfl rfl ?_
  intro p
  simp [DaemonEvents.exiting]

theorem Ordered.killBoosters (h : Ordered ever s) (types : List UInt8) :
    Ordered ever (types.foldl System.killBooster s) := by
  induction types generalizing s with
  | nil => exact h
  | cons type types ih =>
    apply ih
    rw [killBooster_eq]
    exact h.congr rfl rfl rfl fun _ ↦ rfl

theorem Ordered.enterNormalMode (h : Ordered ever s) : Ordered ever (enterNormalMode s) := by
  unfold DaemonEvents.enterNormalMode
  split_ifs
  · apply Ordered.killBoosters
    exact h.congr rfl rfl rfl fun _ ↦ rfl
  · exact h

section

variable {forked : List (UInt8 × Pid)}

theorem reaped_children (hr : Reaped s forked t) (p : Pid) : p ∈ t.tables.children ↔
    p ∈ s.tables.children ∧ exited s p = false ∨ p ∈ forked.map Prod.snd := by
  rw [hr.children, List.mem_append, List.mem_filter]
  simp [running]

theorem reaped_newborn (hr : Reaped s forked t) {e : UInt8 × Pid} (he : e ∈ forked) :
    e.2 ∈ t.tables.children :=
  (reaped_children hr e.2).mpr (.inr (List.mem_map_of_mem he))

theorem reaped_fresh (hr : Reaped s forked t) {e : UInt8 × Pid} (he : e ∈ forked) :
    ¬(e.2 ∈ s.tables.children ∧ exited s e.2 = false) := by
  intro hm
  have hn := hr.children_nodup
  rw [hr.children] at hn
  refine List.disjoint_of_nodup_append hn (List.mem_filter.mpr ⟨hm.1, ?_⟩)
    (List.mem_map_of_mem he)
  simp [running, hm.2]

theorem reaped_other (hr : Reaped s forked t) {p : Pid} (hp : p ∉ forked.map Prod.snd)
    (hn : ¬(p ∈ s.tables.children ∧ exited s p = true)) : t.procs p = s.procs p := by
  rw [hr.others p hp, if_neg hn]

theorem reaped_recorded (h : Ordered ever s) (hr : Reaped s forked t) {p : Pid}
    (hn : type ∉ forked.map Prod.fst) (hp : recorded t type = some p) :
    recorded s type = some p ∧ p ∈ s.tables.children ∧ exited s p = false := by
  rw [hr.recorded_others type hn] at hp
  have hm := h.sound.recorded_mem type p hp
  refine ⟨hp, hm, ?_⟩
  by_contra he
  refine hn ((hr.types_iff type).mpr ⟨?_, p, hm, by simpa using he, hp⟩)
  intro h0
  subst h0
  rw [h.no_zero] at hp
  cases hp

theorem reaped_recorded_inj (h : Ordered ever s) (hr : Reaped s forked t) {type' : UInt8} {p : Pid}
    (hp : recorded t type = some p) (hp' : recorded t type' = some p) : type = type' := by
  by_cases hm : type ∈ forked.map Prod.fst
  · obtain ⟨e, he, rfl⟩ := List.mem_map.mp hm
    rw [(hr.replaced e he).2] at hp
    obtain rfl := Option.some.inj hp
    by_cases hm' : type' ∈ forked.map Prod.fst
    · obtain ⟨e', he', rfl⟩ := List.mem_map.mp hm'
      rw [(hr.replaced e' he').2] at hp'
      have hn : (forked.map Prod.snd).Nodup := by
        have hn := hr.children_nodup
        rw [hr.children] at hn
        exact (List.nodup_append.mp hn).2.1
      rw [List.inj_on_of_nodup_map hn he' he (Option.some.inj hp')]
    · exact absurd (reaped_recorded h hr hm' hp').2 (reaped_fresh hr he)
  · obtain ⟨hs, hrun⟩ := reaped_recorded h hr hm hp
    by_cases hm' : type' ∈ forked.map Prod.fst
    · obtain ⟨e', he', rfl⟩ := List.mem_map.mp hm'
      rw [(hr.replaced e' he').2] at hp'
      obtain rfl := Option.some.inj hp'
      exact absurd hrun (reaped_fresh hr he')
    · exact h.sound.recorded_inj type type' p hs (reaped_recorded h hr hm' hp').1

theorem reaped_sound (h : Ordered ever s) (hr : Reaped s forked t) : Sound t := by
  constructor
  case nodup => exact hr.children_nodup
  case live =>
    intro p hp
    by_cases hm : p ∈ forked.map Prod.snd
    · obtain ⟨e, he, rfl⟩ := List.mem_map.mp hm
      rw [(hr.replaced e he).1]
      rfl
    · obtain ⟨hs, hex⟩ := ((reaped_children hr p).mp hp).resolve_right hm
      rw [reaped_other hr hm (by simp [hex])]
      exact h.sound.live p hs
  case no_zero => exact hr.no_zero
  case recorded_mem =>
    intro type p hp
    by_cases hm : type ∈ forked.map Prod.fst
    · obtain ⟨e, he, rfl⟩ := List.mem_map.mp hm
      rw [(hr.replaced e he).2] at hp
      exact Option.some.inj hp ▸ reaped_newborn hr he
    · exact (reaped_children hr p).mpr (.inl (reaped_recorded h hr hm hp).2)
  case recorded_inj => exact fun type type' p ↦ reaped_recorded_inj h hr
  case key_mem =>
    intro b v hb
    rw [hr.invokers] at hb
    split_ifs at hb with hgone
    have hm := h.sound.key_mem b v hb
    exact (reaped_children hr b).mpr (.inl ⟨hm, by simpa [hm] using hgone⟩)

theorem Ordered.reaped (h : Ordered ever s) (hr : Reaped s forked t) : Ordered ever t := by
  constructor
  case sound => exact reaped_sound h hr
  case listed =>
    intro p hp
    by_cases hm : p ∈ forked.map Prod.snd
    · exact (reaped_children hr p).mpr (.inr hm)
    · rw [hr.others p hm] at hp
      split_ifs at hp with hgone
      · cases hp
      · have hs := h.listed p hp
        exact (reaped_children hr p).mpr (.inl ⟨hs, by simpa [hs] using hgone⟩)
  case forked =>
    intro type hm
    refine ⟨(h.forked type hm).1, ?_⟩
    by_cases hf : type ∈ forked.map Prod.fst
    · obtain ⟨e, he, rfl⟩ := List.mem_map.mp hf
      rw [(hr.replaced e he).2]
      rfl
    · rw [hr.recorded_others type hf]
      exact (h.forked type hm).2
  case no_zero =>
    rw [hr.recorded_others 0 fun h0 ↦ ((hr.types_iff 0).mp h0).1 rfl]
    exact h.no_zero

end

theorem start_ordered (bootMode : Bool) :
    Ordered (State.start bootMode).ever (State.start bootMode).sys := by
  refine ⟨?_, ?_, ?_, ?_⟩
  · constructor <;> simp [State.start, MainLoop.start, recorded]
  · simp [State.start, MainLoop.start]
  · simp [State.start]
  · simp [State.start, MainLoop.start, recorded]

theorem step_ordered {a b : State} {e : Event} (h : Ordered a.ever a.sys) (he : Admissible a e)
    (hs : step a e = some b) : Ordered b.ever b.sys := by
  cases e with
  | fork type newPid =>
    obtain ⟨t, ht, rfl⟩ := Option.map_eq_some_iff.mp hs
    exact h.fork he ht
  | message msg newPid =>
    obtain ⟨t, ht, rfl⟩ := Option.map_eq_some_iff.mp hs
    exact (h.store msg []).fork he ht
  | reapZombies exits fork =>
    obtain ⟨t, ht, rfl⟩ := Option.map_eq_some_iff.mp hs
    have hx := h.exiting exits
    obtain ⟨t', forked, ht', -, hr⟩ := reapZombies_exact hx.sound he
    obtain rfl := Option.some.inj (ht.symm.trans ht')
    exact hx.reaped hr
  | sigUsr1 =>
    cases hs
    exact h.enterNormalMode

theorem Ordered.agreeing {a : State} (h : Ordered a.ever a.sys) : Agreeing a := by
  have hpid : ∀ type p, recorded a.sys type = some p → boosterPidForType a.sys.tables type = p := by
    intro type p hr
    simp only [recorded] at hr
    simp [boosterPidForType, hr]
  constructor
  case children_nodup => exact h.sound.nodup
  case children_iff => exact fun p ↦ ⟨h.sound.live p, h.listed p⟩
  case has_booster =>
    intro type hm
    obtain ⟨p, hp⟩ := Option.isSome_iff_exists.mp (h.forked type hm).2
    refine ⟨p, hp, ?_⟩
    intro h0
    have hl := h.sound.live p (h.sound.recorded_mem type p hp)
    rw [h0, h.sound.no_zero] at hl
    cases hl
  case recorded_mem => exact h.sound.recorded_mem
  case recorded_inj => exact h.sound.recorded_inj
  case key_mem => exact h.sound.key_mem
  case type_of_pid =>
    intro type hm
    obtain ⟨hne, hr⟩ := h.forked type hm
    obtain ⟨p, hp⟩ := Option.isSome_iff_exists.mp hr
    rw [hpid type p hp]
    exact (boosterTypeForPid_iff h.sound hne).mpr hp
  case pid_of_type =>
    intro p hne
    exact hpid _ p ((boosterTypeForPid_iff h.sound hne).mp rfl)

/-- The tables agree after every sequence of turns. -/
theorem tables_agree {bootMode : Bool} {events : List Event} {s : State}
    (h : Run step Admissible (State.start bootMode) events s) : Agreeing s := by
  have hi := h.invariant (fun a ↦ Ordered a.ever a.sys)
    (fun _ _ _ ha he hs ↦ step_ordered ha he hs) (start_ordered bootMode)
  exact hi.agreeing

def reuse (s : System) : Pid := if s.procs 10 = none then 10 else lowestFree s

theorem reuse_fresh : Fresh reuse := by
  intro s hex
  unfold reuse
  split_ifs with h
  · exact ⟨by decide, h⟩
  · exact lowestFree_fresh s hex

def crash : Pid → Option Status := fun p ↦ if p = 10 ∨ p = 11 then some (.signaled 11) else none

/-- The application and the booster that replaced it end together, and the pid of
the application goes to the next booster. -/
theorem tables_agree_reuse : ∃ s, Run step Admissible (State.start false)
    [.fork 109 10, .message ⟨109, 100, 3⟩ 11, .reapZombies crash reuse, .sigUsr1] s ∧
      recorded s.sys 109 = some 10 ∧ Agreeing s := by
  have hm : (109 : UInt8) ≠ 0 := by decide
  have h : Run step Admissible (State.start false)
      [.fork 109 10, .message ⟨109, 100, 3⟩ 11, .reapZombies crash reuse, .sigUsr1] _ :=
    .cons hm rfl (.cons hm rfl (.cons reuse_fresh rfl (.cons trivial rfl (.nil _))))
  exact ⟨_, h, rfl, tables_agree h⟩

end Applauncherd.Launcherlib.DaemonEvents
