import Applauncherd.Launcherlib.Attribution
import Applauncherd.Launcherlib.CatchingUp
import Applauncherd.Launcherlib.Tally

namespace Applauncherd.Launcherlib.Crashes

open BoosterPipe (Message)
open Library.Transition Tables MainLoop Effects Consistency Attribution CatchingUp Tally

/-- The signal that killed an application, for the invoker that waits for it. -/
def crashOf : Option Child → List (Pid × ℕ)
  | some ⟨_, _, _, .launched r, some (.signaled signal)⟩ =>
    if r.invokersPid ≠ 0 then [(r.invokersPid, signal)] else []
  | _ => []

def crash : Entry (Pid × ℕ) := ⟨crashOf, rfl, fun _ _ _ ↦ rfl⟩

def signalled (s : System) : List (Pid × ℕ) := s.forwards.map fun f ↦ (f.invoker, f.signal)

def note (w : World) (a : Label) (crashes : List (Pid × ℕ)) : List (Pid × ℕ) :=
  match a with
  | .die b status =>
    crashes ++ crashOf ((w.sys.procs b).map fun c ↦ { c with status := some status })
  | _ => crashes

structure Stored (s : System) : Prop where
  invoker : ∀ b c r, s.procs b = some c → c.stage = .launched r → r.invokersPid ≠ 0 →
    (∃ k ∈ s.pipe, k.sender = b) ∨ s.tables.boosterPidToInvokerPid[b]? = some r.invokersPid
  no_zero : ∀ b : Pid, s.tables.boosterPidToInvokerPid[b]? ≠ some 0

variable {types todo todo' : List UInt8} {s t : System} {w w' : World} {registry : Registry}

theorem Stored.update (h : Stored s) {b : Pid} {c c' : Child} (hc : s.procs b = some c)
    (extra : List Packet)
    (hl : ∀ r, c'.stage = .launched r → c.stage = .launched r ∨ ∃ k ∈ extra, k.sender = b) :
    Stored { s.setProc b (some c') with pipe := s.pipe ++ extra } where
  invoker := by
    intro p d r hd hr hne
    have hold : ∀ c, s.procs p = some c → c.stage = .launched r →
        (∃ k ∈ s.pipe ++ extra, k.sender = p) ∨
          s.tables.boosterPidToInvokerPid[p]? = some r.invokersPid := by
      intro c hc hr
      refine (h.invoker p c r hc hr hne).imp_left ?_
      rintro ⟨k, hk, hs⟩
      exact ⟨k, List.mem_append_left _ hk, hs⟩
    obtain ⟨rfl, rfl⟩ | ⟨-, hd⟩ := setProc_cases hd
    · obtain hr | ⟨k, hk, hs⟩ := hl r hr
      · exact hold c hc hr
      · exact .inl ⟨k, List.mem_append_right _ hk, hs⟩
    · exact hold d hd hr
  no_zero := h.no_zero

theorem Stored.update_only (h : Stored s) {b : Pid} {c c' : Child} (hc : s.procs b = some c)
    (hl : ∀ r, c'.stage = .launched r → c.stage = .launched r) :
    Stored (s.setProc b (some c')) := by
  have hu := h.update hc [] fun r hr ↦ .inl (hl r hr)
  rwa [List.append_nil] at hu

theorem Stored.fork (h : Stored s) {type : UInt8} {sleepTime : UInt32} {newPid : Pid}
    (ht : s.forkBooster type sleepTime newPid = some t) : Stored t := by
  obtain ⟨-, -, rfl⟩ := forkBooster_cases ht
  constructor
  case invoker =>
    intro p d r hd hr hne
    obtain ⟨-, rfl⟩ | ⟨-, hd⟩ := setProc_cases hd
    · cases hr
    · exact h.invoker p d r hd hr hne
  case no_zero => exact h.no_zero

theorem mem_storeInvoker {t : Tables} {msg : Message} {b : Pid} (hb : b ≠ 0)
    (hr : t.boosterTypeToPid[msg.type]? = some b) (hv : msg.invokerPid ≠ 0) :
    (storeInvoker t msg).boosterPidToInvokerPid[b]? = some msg.invokerPid := by
  have hpid : boosterPidForType t msg.type = b := by rw [boosterPidForType, hr, Option.getD_some]
  rw [storeInvoker, hpid, if_pos ⟨hv, hb⟩]
  simp

theorem kept_storeInvoker {t : Tables} {msg : Message} {b b' : Pid} (hne : b' ≠ b)
    (hr : t.boosterTypeToPid[msg.type]? = some b') :
    (storeInvoker t msg).boosterPidToInvokerPid[b]? = t.boosterPidToInvokerPid[b]? := by
  have hpid : boosterPidForType t msg.type = b' := by rw [boosterPidForType, hr, Option.getD_some]
  unfold storeInvoker
  rw [hpid]
  split_ifs
  · simp [Std.TreeMap.getElem?_insert, hne]
  · rfl

theorem Stored.take (h : Stored s) (hc : Clean [] s) (hs : Consistent types [] s) {k : Packet}
    {pipe : List Packet} (hpipe : s.pipe = k :: pipe) : Stored (taken s k.message pipe) := by
  obtain ⟨c, r, hk, hstage, hmsg, hrec⟩ := (hc.genuine k (by simp [hpipe])).1
  have hrec' : s.tables.boosterTypeToPid[k.message.type]? = some k.sender := by
    rw [hmsg]
    exact hrec
  constructor
  case invoker =>
    intro b d r' hd hr' hne
    by_cases hb : k.sender = b
    · subst hb
      obtain rfl : c = d := Option.some.inj (hk.symm.trans hd)
      obtain rfl : r = r' := Stage.launched.inj (hstage.symm.trans hr')
      have hzero : k.sender ≠ 0 := by
        intro heq
        rw [heq, hs.no_zero] at hk
        cases hk
      have hv : k.message.invokerPid = r.invokersPid := by rw [hmsg]
      right
      rw [← hv]
      exact mem_storeInvoker hzero hrec' (hv ▸ hne)
    · refine (h.invoker b d r' hd hr' hne).imp ?_ fun hm ↦ ?_
      · rintro ⟨k', hk', hs'⟩
        rw [hpipe] at hk'
        obtain rfl | hk' := List.mem_cons.mp hk'
        · exact absurd hs' hb
        · exact ⟨k', hk', hs'⟩
      · exact (kept_storeInvoker hb hrec').trans hm
  case no_zero =>
    intro b hm
    obtain hm | ⟨-, hne, -⟩ := invokers_storeInvoker hm
    · exact h.no_zero b hm
    · exact hne rfl

theorem Stored.bury (h : Stored s) (i : ℕ) (pid : Pid) (c : Child) : Stored (buried s i pid c) where
  invoker := by
    intro b d r hd hr hne
    obtain ⟨hb, hd⟩ := setProc_none_cases hd
    refine (h.invoker b d r hd hr hne).imp_right fun hm ↦ ?_
    change (buryChild s.tables i pid).boosterPidToInvokerPid[b]? = _
    rw [invokers_buryChild, if_neg (Ne.symm hb), hm]
  no_zero := fun b hm ↦ h.no_zero b (kept_buryChild hm).2

theorem Stored.congr (h : Stored s)
    (hi : t.tables.boosterPidToInvokerPid = s.tables.boosterPidToInvokerPid)
    (hprocs : t.procs = s.procs) (hpipe : t.pipe = s.pipe) : Stored t := by
  obtain ⟨h1, h2⟩ := h
  rw [← hprocs, ← hpipe, ← hi] at h1
  rw [← hi] at h2
  exact ⟨h1, h2⟩

variable {killOk : System → UInt8 → Prop}

theorem effect_stored (hc : Clean todo s) (hs : Consistent types todo s) (h : Stored s)
    (he : Effect InTurn killOk todo s todo' t) : Stored t := by
  cases he with
  | idle => exact h
  | accept ht =>
    obtain ⟨c, hb, -, rfl⟩ := receiveDataFromInvoker_cases ht
    exact h.update_only hb nofun
  | write ht =>
    obtain ⟨c, r, hb, -, rfl⟩ := sendDataToParent_cases ht
    exact h.update hb _ fun _ _ ↦ .inr ⟨_, List.mem_singleton_self _, rfl⟩
  | die ht =>
    obtain ⟨c, hb, rfl⟩ := die_cases ht
    exact h.update_only hb fun _ hr ↦ hr
  | fork ht => exact h.fork ht
  | read hpipe ht => exact (h.take hc hs hpipe).fork ht
  | @reap _ _ i pid c newPid hi hb hok ht =>
    obtain ⟨type, ht⟩ | rfl := reapChild_cases ht
    · exact (h.bury i pid c).fork ht
    · exact h.bury i pid c
  | forget => exact h.congr rfl rfl rfl
  | leave => exact h.congr rfl rfl rfl
  | kill hok =>
    rw [killBooster_eq]
    exact h.congr rfl rfl rfl

/-- A child whose message has been read is reported exactly if a signal has
killed the application that it has launched for a waiting invoker. -/
theorem forwardsOf_eq (hc : Clean todo s) (h : Stored s) {pid : Pid} {c : Child}
    (hb : s.procs pid = some c) (hturn : InTurn s pid) :
    (forwardsOf s.tables pid c).map (fun f ↦ (f.invoker, f.signal)) = crashOf (some c) := by
  have hserved : ∀ v, s.tables.boosterPidToInvokerPid[pid]? = some v → Serves c v ∧ v ≠ 0 := by
    intro v hm
    obtain ⟨d, hd, hs⟩ := hc.served pid v hm
    obtain rfl : c = d := Option.some.inj (hb.symm.trans hd)
    exact ⟨hs, fun hv ↦ h.no_zero pid (hv ▸ hm)⟩
  have hnone : (∀ r, c.stage = .launched r → r.invokersPid = 0) →
      s.tables.boosterPidToInvokerPid[pid]? = none := by
    intro hzero
    by_contra hm
    obtain ⟨v, hm⟩ := Option.ne_none_iff_exists'.mp hm
    obtain ⟨⟨r, hr, hwait, hinvoker⟩, hv⟩ := hserved v hm
    have hpid := hzero r hr
    rw [Request.invokersPid, if_pos hwait, hinvoker] at hpid
    exact hv hpid
  have hstored := h.invoker pid c
  obtain ⟨type, bootMode, sleepTime, stage, status⟩ := c
  cases status with
  | none => cases stage <;> simp [forwardsOf, crashOf]
  | some status =>
    cases status with
    | exited code => cases stage <;> simp [forwardsOf, crashOf]
    | signaled signal =>
      cases stage with
      | waiting => simp [forwardsOf, crashOf, hnone nofun]
      | accepted r => simp [forwardsOf, crashOf, hnone nofun]
      | launched r =>
        by_cases hr : r.invokersPid = 0
        · have hm := hnone fun r' hr' ↦ Stage.launched.inj hr' ▸ hr
          simp [forwardsOf, crashOf, hm, hr]
        · obtain ⟨k, hk, hsender⟩ | hm := hstored r hb rfl hr
          · exact absurd hsender (hturn k hk)
          · simp [forwardsOf, crashOf, hm, hr]

theorem signalled_forkBooster {type : UInt8} {sleepTime : UInt32} {newPid : Pid}
    (ht : s.forkBooster type sleepTime newPid = some t) : signalled t = signalled s := by
  obtain ⟨-, -, rfl⟩ := forkBooster_cases ht
  rfl

theorem signalled_quiet (h : Quiet s t) : signalled t = signalled s := by
  cases h with
  | keep _ _ hf => rw [signalled, hf, signalled]
  | fork _ _ hf ht => rw [signalled_forkBooster ht, signalled, hf, signalled]
  | forget => rfl

theorem signalled_reaps (hc : Clean todo s) (h : Stored s) {pid newPid : Pid} {c : Child}
    (hturn : InTurn s pid) (hr : Reaps s newPid t pid c) :
    signalled t = signalled s ++ crashOf (some c) := by
  obtain ⟨hb, -, i, -, ht⟩ := hr
  have hburied : signalled (buried s i pid c) = signalled s ++ crashOf (some c) := by
    change (s.forwards ++ forwardsOf s.tables pid c).map _ = _
    rw [List.map_append, forwardsOf_eq hc h hb hturn]
    rfl
  obtain ⟨type, ht⟩ | rfl := reapChild_cases ht
  · rw [signalled_forkBooster ht, hburied]
  · exact hburied

/-- What has crashed has been reported, or the child has not been waited for. -/
structure Reported (registry : Registry) (w : World) (crashes : List (Pid × ℕ)) : Prop where
  known : Known registry w
  clean : Clean (Phase.todo w.phase) w.sys
  stored : Stored w.sys
  crashes : crashes.Perm (signalled w.sys ++ tally crash w.sys)

theorem crashOf_live {c : Child} (h : c.status = none) : crashOf (some c) = [] := by
  obtain ⟨type, bootMode, sleepTime, stage, status⟩ := c
  cases h
  cases stage <;> rfl

variable {crashes : List (Pid × ℕ)}

theorem daemonStep_crashes (h : Reported registry w crashes)
    (hturn : ∀ pid ∈ World.reaped w, InTurn w.sys pid) {newPid : Pid}
    (hs : daemonStep w newPid = some w') :
    crashes.Perm (signalled w'.sys ++ tally crash w'.sys) := by
  refine h.crashes.trans ?_
  obtain hquiet | ⟨pid, c, hr, hreaps⟩ := daemonStep_reaps hs
  · rw [signalled_quiet hquiet]
    exact (hquiet.tally crash).append_left _
  · rw [signalled_reaps h.clean h.stored (hturn pid hr) hreaps, List.append_assoc]
    exact (hreaps.tally crash h.known.2.children_nodup).append_left _

theorem alive_crashes (h : Reported registry w crashes) {b : Pid} {c c' : Child}
    (hb : w.sys.procs b = some c) (hlive : c.status = none) (hc' : c'.status = none) :
    crashes.Perm (signalled w.sys ++ tally crash (w.sys.setProc b (some c'))) := by
  have htally := tally_process crash h.known hb (some c')
  have hnone : crash.of (some c') = [] := crashOf_live hc'
  rw [Entry.get, hb, hnone, show crash.of (some c) = [] from crashOf_live hlive, List.append_nil,
    List.append_nil] at htally
  exact h.crashes.trans (htally.append_left _)

theorem die_crashes (h : Reported registry w crashes) {b : Pid} {status : Status}
    (ht : w.sys.die b status = some t) :
    (note w (.die b status) crashes).Perm (signalled t ++ tally crash t) := by
  unfold System.die at ht
  split at ht
  · rename_i type bootMode sleepTime stage hb
    cases ht
    have htally := tally_process crash h.known hb
      (some ⟨type, bootMode, sleepTime, stage, some status⟩)
    have hlive : crash.get w.sys b = [] := by
      rw [Entry.get, hb]
      exact crashOf_live rfl
    rw [hlive, List.append_nil] at htally
    rw [note, hb]
    refine (h.crashes.append_right _).trans ?_
    rw [List.append_assoc]
    exact htally.append_left _
  · cases ht

theorem step_crashes (h : Reported registry w crashes) {a : Label}
    (hok : Orderly InTurn (fun _ _ ↦ True) w a) (hs : step w a = some w') :
    (note w a crashes).Perm (signalled w'.sys ++ tally crash w'.sys) := by
  cases a with
  | accept b r =>
    obtain ⟨t, ht, rfl⟩ := Option.map_eq_some_iff.mp hs
    unfold System.receiveDataFromInvoker at ht
    split at ht
    · rename_i hb
      cases ht
      exact alive_crashes h hb rfl rfl
    · cases ht
  | write b =>
    obtain ⟨t, ht, rfl⟩ := Option.map_eq_some_iff.mp hs
    unfold System.sendDataToParent at ht
    split at ht
    · rename_i hb
      cases ht
      exact alive_crashes h hb rfl rfl
    · cases ht
  | die b status =>
    obtain ⟨t, ht, rfl⟩ := Option.map_eq_some_iff.mp hs
    exact die_crashes h ht
  | sigChld =>
    simp only [step] at hs
    split_ifs at hs
    cases hs
    exact h.crashes
  | sigTerm =>
    cases hs
    exact h.crashes
  | sigUsr1 =>
    cases hs
    exact h.crashes
  | daemon newPid => exact daemonStep_crashes h hok.1 hs

theorem Reported.step (h : Reported registry w crashes) {a : Label}
    (hok : Orderly InTurn (fun _ _ ↦ True) w a) (hs : step w a = some w') :
    Reported registry w' (note w a crashes) where
  known := h.known.step hs
  clean := effect_clean registry.no_zero h.known.2 h.clean (step_effect hok hs)
  stored := effect_stored h.clean h.known.2 h.stored (step_effect hok hs)
  crashes := step_crashes h hok hs

end Applauncherd.Launcherlib.Crashes
