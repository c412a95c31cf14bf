import Applauncherd.Launcherlib.Consistency

namespace Applauncherd.Launcherlib.Tally

open Library.Transition Tables MainLoop Effects Consistency

/-- What there is to count in a process. There is nothing in one that does not
exist, and nothing in a booster that waits. -/
structure Entry (α : Type*) where
  of : Option Child → List α
  of_none : of none = []
  of_waiting : ∀ type bootMode sleepTime, of (some ⟨type, bootMode, sleepTime, .waiting, none⟩) = []

variable {α : Type*} (f : Entry α) {registry : Registry} {s t : System} {w w' : World}

def Entry.get (s : System) (p : Pid) : List α := f.of (s.procs p)

def tally (s : System) : List α := s.tables.children.flatMap (f.get s)

section Update

variable {ι β : Type*} [DecidableEq ι] {a : ι} {l : List ι} {g : ι → List β}

theorem flatMap_update_not_mem (h : a ∉ l) (v : List β) :
    l.flatMap (Function.update g a v) = l.flatMap g := by
  refine List.flatMap_congr fun b hb ↦ ?_
  have hne : b ≠ a := fun heq ↦ h (heq ▸ hb)
  exact Function.update_of_ne hne ..

theorem flatMap_update (hn : l.Nodup) (ha : a ∈ l) (g : ι → List β) :
    ∃ l₁ l₂, ∀ v, l.flatMap (Function.update g a v) = l₁ ++ v ++ l₂ := by
  obtain ⟨s, t, rfl⟩ := List.append_of_mem ha
  obtain ⟨-, ht, hst⟩ := List.nodup_append.mp hn
  have hs : a ∉ s := fun hm ↦ hst a hm a List.mem_cons_self rfl
  have ht : a ∉ t := (List.nodup_cons.mp ht).1
  refine ⟨s.flatMap g, t.flatMap g, fun v ↦ ?_⟩
  rw [List.flatMap_append, List.flatMap_cons, flatMap_update_not_mem hs, flatMap_update_not_mem ht,
    Function.update_self, List.append_assoc]

end Update

theorem get_setProc (s : System) (b : Pid) (c : Option Child) :
    f.get (s.setProc b c) = Function.update (f.get s) b (f.of c) := by
  funext p
  by_cases hp : p = b
  · subst hp
    rw [Function.update_self, Entry.get, setProc_self]
  · rw [Function.update_of_ne hp, Entry.get, setProc_other s _ hp, Entry.get]

theorem tally_spawned {type : UInt8} {sleepTime : UInt32} {newPid : Pid}
    (hnew : s.procs newPid = none) : tally f (spawned s type sleepTime newPid) = tally f s := by
  have hfree : f.get s newPid = [] := by rw [Entry.get, hnew, f.of_none]
  have hget : f.get (spawned s type sleepTime newPid) = f.get s := by
    change f.get (s.setProc newPid (some (newborn s type sleepTime))) = _
    rw [get_setProc, newborn, f.of_waiting, ← hfree, Function.update_eq_self]
  change (s.tables.children ++ [newPid]).flatMap (f.get (spawned s type sleepTime newPid)) = _
  rw [hget, List.flatMap_append, List.flatMap_singleton, hfree, List.append_nil, tally]

theorem tally_forkBooster {type : UInt8} {sleepTime : UInt32} {newPid : Pid}
    (ht : s.forkBooster type sleepTime newPid = some t) : tally f t = tally f s := by
  obtain ⟨-, hnew, rfl⟩ := forkBooster_cases ht
  exact tally_spawned f hnew

theorem tally_congr (hc : t.tables.children = s.tables.children) (hp : t.procs = s.procs) :
    tally f t = tally f s := by
  have hget : f.get t = f.get s := by
    funext p
    rw [Entry.get, hp, Entry.get]
  rw [tally, hc, hget, tally]

/-- What a step of the daemon does in which nobody is reaped. -/
inductive Quiet (s : System) : System → Prop
  | keep {t : System} : t.tables.children = s.tables.children → t.procs = s.procs →
      t.forwards = s.forwards → Quiet s t
  | fork {u t : System} {type : UInt8} {sleepTime : UInt32} {newPid : Pid} :
      u.tables.children = s.tables.children → u.procs = s.procs → u.forwards = s.forwards →
      u.forkBooster type sleepTime newPid = some t → Quiet s t
  | forget {i : ℕ} {pid : Pid} : s.tables.children[i]? = some pid → s.procs pid = none →
      Quiet s { s with tables := { s.tables with children := s.tables.children.eraseIdx i } }

theorem read_quiet {newPid : Pid} (ht : s.readFromBoosterPipe newPid = some t) : Quiet s t := by
  obtain rfl | ⟨packet, pipe, -, ht⟩ := readFromBoosterPipe_cases ht
  · exact .keep rfl rfl rfl
  · obtain ⟨-, hchildren, -⟩ := storeInvoker_eq s.tables packet.message
    exact .fork (u := taken s packet.message pipe) hchildren rfl rfl ht

def Reaps (s : System) (newPid : Pid) (t : System) (pid : Pid) (c : Child) : Prop :=
  s.procs pid = some c ∧ c.status.isSome ∧
    ∃ i, s.tables.children[i]? = some pid ∧ s.reapChild i pid c newPid = some t

theorem daemonStep_reaps {newPid : Pid} (hs : daemonStep w newPid = some w') :
    Quiet w.sys w'.sys ∨ ∃ pid c, World.reaped w = some pid ∧ Reaps w.sys newPid w'.sys pid c := by
  cases daemonStep_cases hs with
  | fork hphase ht => exact .inl (.fork rfl rfl rfl ht)
  | read hphase hr ht => exact .inl (read_quiet ht)
  | @reap r i pid c t hphase hi hc hdead ht =>
    refine .inr ⟨pid, c, ?_, hc, hdead, i, hi, ht⟩
    rw [World.reaped, hphase]
    simp [Option.filter, hi, hc, hdead]
  | forget hphase hi hnone => exact .inl (.forget hi hnone)
  | @kill type types hphase =>
    left
    change Quiet w.sys (w.sys.killBooster type)
    rw [killBooster_eq]
    exact .keep rfl rfl rfl
  | _ => exact .inl (.keep rfl rfl rfl)

theorem erased_tally {i : ℕ} {pid : Pid} (hi : s.tables.children[i]? = some pid) :
    (tally f s).Perm (f.get s pid ++ (s.tables.children.eraseIdx i).flatMap (f.get s)) := by
  obtain ⟨hlt, rfl⟩ := List.getElem?_eq_some_iff.mp hi
  rw [← List.flatMap_cons]
  exact (List.getElem_cons_eraseIdx_perm hlt).symm.flatMap_right _

theorem Quiet.tally (h : Quiet s t) : (tally f s).Perm (tally f t) := by
  cases h with
  | keep hc hp => rw [tally_congr f hc hp]
  | fork hc hp _ ht => rw [tally_forkBooster f ht, tally_congr f hc hp]
  | forget hi hnone =>
    have herased := erased_tally f hi
    rwa [Entry.get, hnone, f.of_none] at herased

theorem Reaps.tally (hn : s.tables.children.Nodup) {newPid pid : Pid} {c : Child}
    (h : Reaps s newPid t pid c) : (tally f s).Perm (f.of (some c) ++ tally f t) := by
  obtain ⟨hc, -, i, hi, ht⟩ := h
  have hburied : (Tally.tally f s).Perm (f.get s pid ++ Tally.tally f (buried s i pid c)) := by
    have hnot : pid ∉ s.tables.children.eraseIdx i := fun hm ↦ ((mem_eraseIdx hn hi).mp hm).1 rfl
    have hget : f.get (buried s i pid c) = Function.update (f.get s) pid (f.of none) :=
      get_setProc f s pid none
    change (Tally.tally f s).Perm
      (f.get s pid ++ (s.tables.children.eraseIdx i).flatMap (f.get (buried s i pid c)))
    rw [hget, flatMap_update_not_mem hnot]
    exact erased_tally f hi
  rw [← hc]
  obtain ⟨type, ht⟩ | rfl := reapChild_cases ht
  · rwa [tally_forkBooster f ht]
  · exact hburied

theorem tally_process (hk : Known registry w) {b : Pid} {c : Child} (hb : w.sys.procs b = some c)
    (c' : Option Child) :
    (tally f w.sys ++ f.of c').Perm (tally f (w.sys.setProc b c') ++ f.get w.sys b) := by
  have hmem : b ∈ w.sys.tables.children := by
    rw [hk.2.children_iff, hb]
    rfl
  obtain ⟨l₁, l₂, hl⟩ := flatMap_update hk.2.children_nodup hmem (f.get w.sys)
  have hold : tally f w.sys = l₁ ++ f.get w.sys b ++ l₂ := by
    rw [← hl, Function.update_eq_self, tally]
  have hnew : tally f (w.sys.setProc b c') = l₁ ++ f.of c' ++ l₂ := by
    rw [← hl, ← get_setProc]
    rfl
  classical
  refine List.perm_iff_count.mpr fun x ↦ ?_
  simp only [hold, hnew, List.count_append]
  omega

end Applauncherd.Launcherlib.Tally
