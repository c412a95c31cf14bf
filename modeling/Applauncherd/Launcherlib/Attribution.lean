import Applauncherd.Launcherlib.Consistency

namespace Applauncherd.Launcherlib.Attribution

open BoosterPipe (Message)
open Library.Transition Tables MainLoop Effects Consistency

def Serves (c : Child) (invoker : Pid) : Prop :=
  ∃ r, c.stage = .launched r ∧ r.wait = true ∧ r.invoker = invoker

/-- The message is the one that its sender has written, and the daemon will
take it for that sender's. -/
def Genuine (s : System) (k : Packet) : Prop :=
  ∃ c r, s.procs k.sender = some c ∧ c.stage = .launched r ∧
    k.message = ⟨c.type, r.invokersPid, r.delay⟩ ∧ recorded s c.type = some k.sender

/-- The signal that an invoker has been sent is the one that killed the
application that was launched for it. -/
def Forward.Faithful (f : Forward) : Prop :=
  f.child.status = some (.signaled f.signal) ∧ Serves f.child f.invoker

structure Clean (hole : List UInt8) (s : System) : Prop where
  nodup : hole.Nodup
  waiting : ∀ p c, s.procs p = some c → ¬Child.Launched c →
    c.type ∉ hole ∧ recorded s c.type = some p
  genuine : ∀ k ∈ s.pipe, Genuine s k ∧ k.message.type ∉ hole
  types_nodup : (s.pipe.map fun k ↦ k.message.type).Nodup
  served : ∀ b v, s.tables.boosterPidToInvokerPid[b]? = some v →
    ∃ c, s.procs b = some c ∧ Serves c v
  faithful : ∀ f ∈ s.forwards, Forward.Faithful f

variable {types hole : List UInt8} {s : System}

theorem start_clean (registry : Registry) (bootMode : Bool) :
    Clean registry.types (start registry bootMode).sys := by
  constructor <;> simp [start, registry.nodup]

theorem Genuine.sender {k : Packet} (h : Genuine s k) :
    ∃ c, s.procs k.sender = some c ∧ Child.Launched c ∧
      recorded s k.message.type = some k.sender := by
  obtain ⟨c, r, hc, hl, hk, hr⟩ := h
  rw [hk]
  exact ⟨c, hc, ⟨r, hl⟩, hr⟩

theorem Clean.not_sender (h : Clean hole s) {b : Pid} {c : Child} (hc : s.procs b = some c)
    (hn : ¬Child.Launched c) {k : Packet} (hk : k ∈ s.pipe) :
    k.sender ≠ b ∧ k.message.type ≠ c.type := by
  obtain ⟨d, hd, hl, hr⟩ := (h.genuine k hk).1.sender
  have hsender : k.sender ≠ b := by
    intro heq
    subst heq
    obtain rfl : c = d := Option.some.inj (hc.symm.trans hd)
    exact hn hl
  refine ⟨hsender, fun ht ↦ hsender ?_⟩
  rw [ht, (h.waiting b c hc hn).2] at hr
  exact (Option.some.inj hr).symm

theorem Clean.update (h : Clean hole s) {b : Pid} {c c' : Child} (hc : s.procs b = some c)
    (ht : c'.type = c.type) (hl : ∀ r, c'.stage = .launched r ↔ c.stage = .launched r) :
    Clean hole (s.setProc b (some c')) := by
  have hlaunched : Child.Launched c' ↔ Child.Launched c := exists_congr hl
  constructor
  case nodup => exact h.nodup
  case waiting =>
    intro p d hd hn
    obtain ⟨rfl, rfl⟩ | ⟨-, hd⟩ := setProc_cases hd
    · rw [ht]
      exact h.waiting p c hc fun hlc ↦ hn (hlaunched.mpr hlc)
    · exact h.waiting p d hd hn
  case genuine =>
    intro k hk
    obtain ⟨⟨d, r, hd, hld, hkd, hr⟩, hhole⟩ := h.genuine k hk
    refine ⟨?_, hhole⟩
    by_cases hp : k.sender = b
    · rw [hp] at hd
      obtain rfl : c = d := Option.some.inj (hc.symm.trans hd)
      refine ⟨c', r, ?_, (hl r).mpr hld, ?_, ?_⟩
      · rw [hp]
        exact setProc_self ..
      · rw [ht]
        exact hkd
      · rw [ht]
        exact hr
    · exact ⟨d, r, (setProc_other s _ hp).trans hd, hld, hkd, hr⟩
  case types_nodup => exact h.types_nodup
  case served =>
    intro b' v hm
    obtain ⟨d, hd, r, hld, hw⟩ := h.served b' v hm
    by_cases hp : b' = b
    · subst hp
      obtain rfl : c = d := Option.some.inj (hc.symm.trans hd)
      exact ⟨c', setProc_self .., r, (hl r).mpr hld, hw⟩
    · exact ⟨d, (setProc_other s _ hp).trans hd, r, hld, hw⟩
  case faithful => exact h.faithful

theorem Clean.send (h : Clean hole s) {b : Pid} {c : Child} {r : Request}
    (hc : s.procs b = some c) (hr : c.stage = .accepted r) :
    Clean hole { s.setProc b (some { c with stage := .launched r }) with
      pipe := s.pipe ++ [⟨b, c.type, r.invokersPid, r.delay⟩] } := by
  have hn : ¬Child.Launched c := by
    intro hl
    obtain ⟨r', hr'⟩ := hl
    rw [hr] at hr'
    cases hr'
  obtain ⟨hhole, hrec⟩ := h.waiting b c hc hn
  constructor
  case nodup => exact h.nodup
  case waiting =>
    intro p d hd hnd
    obtain ⟨rfl, rfl⟩ | ⟨-, hd⟩ := setProc_cases hd
    · exact absurd ⟨r, rfl⟩ hnd
    · exact h.waiting p d hd hnd
  case genuine =>
    intro k hk
    obtain hk | hk := List.mem_append.mp hk
    · obtain ⟨⟨d, r', hd, hld, hkd, hr'⟩, hkh⟩ := h.genuine k hk
      have hsender := (h.not_sender hc hn hk).1
      exact ⟨⟨d, r', (setProc_other s _ hsender).trans hd, hld, hkd, hr'⟩, hkh⟩
    · rw [List.mem_singleton.mp hk]
      exact ⟨⟨_, r, setProc_self .., rfl, rfl, hrec⟩, hhole⟩
  case types_nodup =>
    rw [List.map_append, List.nodup_append]
    refine ⟨h.types_nodup, List.nodup_singleton _, ?_⟩
    intro type hm type' hm'
    obtain ⟨k, hk, rfl⟩ := List.mem_map.mp hm
    rw [List.map_singleton, List.mem_singleton] at hm'
    rw [hm']
    exact (h.not_sender hc hn hk).2
  case served =>
    intro b' v hm
    obtain ⟨d, hd, r', hld, hw⟩ := h.served b' v hm
    have hp : b' ≠ b := by
      intro heq
      subst heq
      obtain rfl : c = d := Option.some.inj (hc.symm.trans hd)
      exact hn ⟨r', hld⟩
    exact ⟨d, (setProc_other s _ hp).trans hd, r', hld, hw⟩
  case faithful => exact h.faithful

theorem Clean.fork {type : UInt8} (h : Clean (type :: hole) s) {sleepTime : UInt32}
    {newPid : Pid} {t : System} (ht : s.forkBooster type sleepTime newPid = some t) :
    Clean hole t := by
  obtain ⟨hzero, hnew, rfl⟩ := forkBooster_cases ht
  have hrec : ∀ type' ∉ type :: hole, recorded (spawned s type sleepTime newPid) type' =
      recorded s type' := by
    intro type' hn
    rw [recorded_spawned, if_neg]
    intro heq
    subst heq
    exact hn (List.mem_cons_self ..)
  have hprocs : ∀ p d, s.procs p = some d → (spawned s type sleepTime newPid).procs p = some d := by
    intro p d hd
    rw [procs_spawned s type sleepTime hnew (by simp [hd]), hd]
  constructor
  case nodup => exact h.nodup.of_cons
  case waiting =>
    intro p d hd hn
    obtain ⟨rfl, rfl⟩ | ⟨-, hd⟩ := setProc_cases hd
    · refine ⟨(List.nodup_cons.mp h.nodup).1, ?_⟩
      rw [recorded_spawned]
      exact if_pos rfl
    · obtain ⟨hd1, hd2⟩ := h.waiting p d hd hn
      exact ⟨fun hm ↦ hd1 (List.mem_cons_of_mem _ hm), (hrec _ hd1).trans hd2⟩
  case genuine =>
    intro k hk
    obtain ⟨⟨d, r, hd, hld, hkd, hr⟩, hkh⟩ := h.genuine k hk
    refine ⟨⟨d, r, hprocs _ _ hd, hld, hkd, ?_⟩, fun hm ↦ hkh (List.mem_cons_of_mem _ hm)⟩
    rw [hkd] at hkh
    exact (hrec _ hkh).trans hr
  case types_nodup => exact h.types_nodup
  case served =>
    intro b v hm
    obtain ⟨d, hd, hs⟩ := h.served b v hm
    exact ⟨d, hprocs _ _ hd, hs⟩
  case faithful => exact h.faithful

theorem invokersPid_eq {r : Request} {v : Pid} (h : r.invokersPid = v) (hv : v ≠ 0) :
    r.wait = true ∧ r.invoker = v := by
  unfold Request.invokersPid at h
  split_ifs at h with hw
  · exact ⟨hw, h⟩
  · exact absurd h.symm hv

theorem Clean.take (h : Clean [] s) {k : Packet} {pipe : List Packet}
    (hpipe : s.pipe = k :: pipe) : Clean [k.message.type] (taken s k.message pipe) := by
  have hrecorded : ∀ type, recorded (taken s k.message pipe) type = recorded s type := by
    intro type
    simp only [recorded, taken, (storeInvoker_eq s.tables k.message).1]
  have hk : k ∈ s.pipe := by simp [hpipe]
  have htypes := h.types_nodup
  rw [hpipe, List.map_cons, List.nodup_cons] at htypes
  constructor
  case nodup => exact List.nodup_singleton _
  case waiting =>
    intro p c hc hn
    rw [hrecorded, List.mem_singleton]
    exact ⟨fun ht ↦ (h.not_sender hc hn hk).2 ht.symm, (h.waiting p c hc hn).2⟩
  case genuine =>
    intro k' hk'
    obtain ⟨⟨c, r, hc, hl, hkc, hr⟩, -⟩ := h.genuine k' (by rw [hpipe]; exact .tail _ hk')
    refine ⟨⟨c, r, hc, hl, hkc, (hrecorded _).trans hr⟩, ?_⟩
    rw [List.mem_singleton]
    intro ht
    exact htypes.1 (ht ▸ List.mem_map_of_mem hk')
  case types_nodup => exact htypes.2
  case served =>
    intro b v hm
    obtain hm | ⟨hv, hne, hr⟩ := invokers_storeInvoker hm
    · exact h.served b v hm
    · obtain ⟨c, r, hc, hl, hkc, hrk⟩ := (h.genuine k hk).1
      rw [hkc] at hv hr
      obtain rfl : k.sender = b := Option.some.inj (hrk.symm.trans hr)
      exact ⟨c, hc, r, hl, invokersPid_eq hv hne⟩
  case faithful => exact h.faithful

def InTurn (s : System) (pid : Pid) : Prop := ∀ k ∈ s.pipe, k.sender ≠ pid

theorem forwardsOf_faithful (h : Clean hole s) {pid : Pid} {c : Child}
    (hc : s.procs pid = some c) {f : Forward} (hf : f ∈ forwardsOf s.tables pid c) :
    Forward.Faithful f := by
  unfold forwardsOf at hf
  split at hf
  · rename_i invoker signal hm hstatus
    obtain ⟨d, hd, hs⟩ := h.served pid invoker hm
    obtain rfl : c = d := Option.some.inj (hc.symm.trans hd)
    rw [List.mem_singleton.mp hf]
    exact ⟨hstatus, hs⟩
  · cases hf

theorem Clean.bury (h : Clean [] s) (i : ℕ) {pid : Pid} {c : Child}
    (hc : s.procs pid = some c) (hturn : InTurn s pid) :
    Clean (holeOf s pid c) (buried s i pid c) := by
  have hhole : ∀ type p, recorded s type = some p → p ≠ pid → type ∉ holeOf s pid c := by
    intro type p hr hp hm
    unfold holeOf at hm
    split_ifs at hm with hrc
    · rw [List.mem_singleton.mp hm, hrc] at hr
      exact hp (Option.some.inj hr).symm
    · cases hm
  constructor
  case nodup =>
    unfold holeOf
    split_ifs
    · exact List.nodup_singleton _
    · exact List.nodup_nil
  case waiting =>
    intro p d hd hn
    obtain ⟨hp, hd⟩ := setProc_none_cases hd
    have hw := (h.waiting p d hd hn).2
    exact ⟨hhole _ p hw hp, hw⟩
  case genuine =>
    intro k hk
    obtain ⟨⟨d, r, hd, hl, hkd, hr⟩, -⟩ := h.genuine k hk
    have hp : k.sender ≠ pid := hturn k hk
    refine ⟨⟨d, r, (setProc_other s _ hp).trans hd, hl, hkd, hr⟩, ?_⟩
    rw [hkd]
    exact hhole _ k.sender hr hp
  case types_nodup => exact h.types_nodup
  case served =>
    intro b v hm
    obtain ⟨hb, hm⟩ := kept_buryChild hm
    obtain ⟨d, hd, hsv⟩ := h.served b v hm
    exact ⟨d, (setProc_other s _ hb).trans hd, hsv⟩
  case faithful =>
    intro f hf
    obtain hf | hf := List.mem_append.mp hf
    · exact h.faithful f hf
    · exact forwardsOf_faithful h hc hf

theorem Clean.congr (h : Clean hole s) {t : System}
    (hi : t.tables.boosterPidToInvokerPid = s.tables.boosterPidToInvokerPid)
    (ht : t.tables.boosterTypeToPid = s.tables.boosterTypeToPid) (hprocs : t.procs = s.procs)
    (hpipe : t.pipe = s.pipe) (hf : t.forwards = s.forwards) : Clean hole t := by
  have hr : recorded t = recorded s := by
    funext type
    simp only [recorded, ht]
  obtain ⟨h1, h2, h3, h4, h5, h6⟩ := h
  refine ⟨h1, ?_, ?_, ?_, ?_, ?_⟩
  · rwa [hprocs, hr]
  · simpa only [Genuine, hprocs, hpipe, hr] using h3
  · rwa [hpipe]
  · rwa [hi, hprocs]
  · rwa [hf]

variable {killOk : System → UInt8 → Prop}

theorem effect_clean (hz : 0 ∉ types) {todo todo' : List UInt8} {t : System}
    (hs : Consistent types todo s) (h : Clean todo s) (he : Effect InTurn killOk todo s todo' t) :
    Clean todo' t := by
  cases he with
  | idle => exact h
  | accept ht =>
    obtain ⟨c, hc, hw, rfl⟩ := receiveDataFromInvoker_cases ht
    refine h.update hc ?_ fun r ↦ ?_
    · rfl
    · simp [hw]
  | write ht =>
    obtain ⟨c, r, hc, hr, rfl⟩ := sendDataToParent_cases ht
    exact h.send hc hr
  | die ht =>
    obtain ⟨c, hc, rfl⟩ := die_cases ht
    refine h.update hc ?_ fun r ↦ ?_
    · rfl
    · exact Iff.rfl
  | fork ht => exact h.fork ht
  | read hpipe ht => exact (h.take hpipe).fork ht
  | @reap _ _ i pid c newPid hi hc hok ht =>
    have hb := h.bury i hc hok
    obtain ⟨hr, ht⟩ | ⟨hr, rfl⟩ := hs.reap_cases hz hc ht
    · rw [holeOf, if_pos hr] at hb
      exact hb.fork ht
    · rwa [holeOf, if_neg hr] at hb
  | forget hi hnone => exact absurd hnone (hs.not_forgotten hi)
  | leave => exact h.congr rfl rfl rfl rfl rfl
  | kill hok =>
    rw [killBooster_eq]
    exact h.congr rfl rfl rfl rfl rfl

/-- A run in which no booster is reaped while its message is unread. -/
abbrev RunInTurn (registry : Registry) (bootMode : Bool) : List Label → World → Prop :=
  Run step (Orderly InTurn fun _ _ ↦ True) (start registry bootMode)

theorem run_clean {registry : Registry} {bootMode : Bool} {labels : List Label} {w : World}
    (h : RunInTurn registry bootMode labels w) : Clean (Phase.todo w.phase) w.sys := by
  refine (run_preserves Clean ?_ (start_clean registry bootMode) h).2
  intro todo s todo' t he hs hclean
  exact effect_clean registry.no_zero hs hclean he

structure Attributed (s : System) : Prop where
  pairs : ∀ b v, s.tables.boosterPidToInvokerPid[b]? = some v →
    ∃ c, s.procs b = some c ∧ Serves c v
  signals : ∀ f ∈ s.forwards, Forward.Faithful f

/-- Boosters and invokers are attributed correctly in every state of a run in
which messages are read in turn. -/
theorem attributed {registry : Registry} {bootMode : Bool} {labels : List Label} {w : World}
    (h : RunInTurn registry bootMode labels w) : Attributed w.sys :=
  ⟨(run_clean h).served, (run_clean h).faithful⟩

instance (s : System) (pid : Pid) : Decidable (InTurn s pid) :=
  inferInstanceAs (Decidable (∀ k ∈ s.pipe, k.sender ≠ pid))

def twoTypes : Registry := ⟨[109, 113], by decide, by decide⟩

def readBeforeCrash : List Label :=
  [.daemon 10, .daemon 11, .daemon 0, .accept 10 ⟨100, true, 3⟩, .write 10, .daemon 0, .daemon 12,
    .daemon 0, .daemon 0, .daemon 0, .die 10 (.signaled 11), .sigChld, .daemon 0, .daemon 0,
    .daemon 0, .daemon 0]

theorem attributed_readBeforeCrash :
    ∃ w, RunInTurn twoTypes false readBeforeCrash w ∧ Attributed w.sys := by
  have h : RunInTurn twoTypes false readBeforeCrash _ := run_of_exec rfl
  exact ⟨_, h, attributed h⟩

/-- Both boosters launch applications; the one of type m dies of a signal while
the daemon has read the message of the other one only. -/
def crashBeforeRead : List Label :=
  [.daemon 10, .daemon 11, .daemon 0, .accept 11 ⟨200, true, 3⟩, .write 11,
    .accept 10 ⟨100, true, 3⟩, .write 10, .die 10 (.signaled 11), .sigChld, .daemon 0, .daemon 12,
    .daemon 0, .daemon 13, .daemon 0, .daemon 0, .daemon 0, .daemon 0, .daemon 0, .daemon 0,
    .daemon 0, .daemon 14]

/-- The invoker is stored for the booster that has replaced the dead one. -/
theorem not_attributed :
    ¬∀ labels w, Run step Any (start twoTypes false) labels w → Attributed w.sys := by
  intro hall
  have h : Run step Any (start twoTypes false) crashBeforeRead _ := run_of_exec rfl
  obtain ⟨c, hc, r, hr, -⟩ := (hall _ _ h).pairs 13 100 rfl
  cases hc
  cases hr

end Applauncherd.Launcherlib.Attribution
