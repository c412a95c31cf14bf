import Applauncherd.Library.Transition
import Applauncherd.Invoker.Signals
import Mathlib.Algebra.Order.Ring.Nat
import Mathlib.Algebra.Order.BigOperators.Group.List
import Mathlib.Data.List.Nodup

namespace Applauncherd.Invoker.NestedSignals

open Library.Transition Signals

inductive Place
  | kill
  | restore (left : List Signal)
  /-- Behind `raise`. The signal is held back until the handler has returned. -/
  | raised
  deriving DecidableEq

structure Frame where
  signal : Signal
  place : Place
  deriving DecidableEq

/-- The invoker with the calls of its handler, the innermost first. `sigs_init`
leaves `sa_mask` empty, so that a call blocks its own signal and no other. -/
structure Handling where
  inv : Process
  frames : List Frame

def Handling.signals (h : Handling) : List Signal := h.frames.map Frame.signal

def Handling.take (h : Handling) (t : Signal) : Handling :=
  match h.inv.disposition t with
  | .default => { h with inv := act h.inv t }
  | .forward => { h with frames := ⟨t, .kill⟩ :: h.frames }

/-- The next step of the innermost handler. Once it returns, the kernel delivers
the signal that it has raised before anything else runs. -/
def Handling.handler (h : Handling) : Option Handling :=
  match h.frames with
  | [] => none
  | ⟨t, .kill⟩ :: frames =>
    if 0 ≤ h.inv.invokedPid then
      some ⟨{ h.inv with forwarded := h.inv.forwarded ++ [t] }, ⟨t, .restore handled⟩ :: frames⟩
    else some ⟨h.inv, frames⟩
  | ⟨t, .restore (u :: left)⟩ :: frames =>
    some ⟨setAction .default h.inv u, ⟨t, .restore left⟩ :: frames⟩
  | ⟨t, .restore []⟩ :: frames => some ⟨h.inv, ⟨t, .raised⟩ :: frames⟩
  | ⟨t, .raised⟩ :: frames => some (Handling.take ⟨h.inv, frames⟩ t)

variable {h h' : Handling} {t : Signal}

theorem take_cases (h : Handling) (t : Signal) :
    h.inv.disposition t = .default ∧ h.take t = { h with inv := act h.inv t } ∨
      h.inv.disposition t = .forward ∧ h.take t = { h with frames := ⟨t, .kill⟩ :: h.frames } := by
  unfold Handling.take
  cases h.inv.disposition t with
  | default => exact .inl ⟨rfl, rfl⟩
  | forward => exact .inr ⟨rfl, rfl⟩

inductive HandlerStep (h : Handling) : Handling → Prop
  | pass {t : Signal} {frames : List Frame} : h.frames = ⟨t, .kill⟩ :: frames →
      0 ≤ h.inv.invokedPid → HandlerStep h
        ⟨{ h.inv with forwarded := h.inv.forwarded ++ [t] }, ⟨t, .restore handled⟩ :: frames⟩
  | skip {t : Signal} {frames : List Frame} : h.frames = ⟨t, .kill⟩ :: frames →
      ¬0 ≤ h.inv.invokedPid → HandlerStep h ⟨h.inv, frames⟩
  | restore {t u : Signal} {left : List Signal} {frames : List Frame} :
      h.frames = ⟨t, .restore (u :: left)⟩ :: frames →
      HandlerStep h ⟨setAction .default h.inv u, ⟨t, .restore left⟩ :: frames⟩
  | raise {t : Signal} {frames : List Frame} : h.frames = ⟨t, .restore []⟩ :: frames →
      HandlerStep h ⟨h.inv, ⟨t, .raised⟩ :: frames⟩
  | back {t : Signal} {frames : List Frame} : h.frames = ⟨t, .raised⟩ :: frames →
      HandlerStep h (Handling.take ⟨h.inv, frames⟩ t)

theorem handler_cases (hs : h.handler = some h') : HandlerStep h h' := by
  unfold Handling.handler at hs
  split at hs <;> rename_i hframes
  · cases hs
  · split_ifs at hs with hp <;> cases hs
    · exact .pass hframes hp
    · exact .skip hframes hp
  · cases hs
    exact .restore hframes
  · cases hs
    exact .raise hframes
  · cases hs
    exact .back hframes

def Restored (inv : Process) : Place → Prop
  | .kill => True
  | .restore left => left <:+ handled ∧ ∀ t ∉ left, inv.disposition t = .default
  | .raised => ∀ t, inv.disposition t = .default

structure Nested (h : Handling) : Prop where
  signals : h.signals.Nodup
  once : h.inv.forwarded.Nodup
  fresh : ∀ f ∈ h.frames, f.place = .kill → f.signal ∉ h.inv.forwarded
  restored : ∀ f ∈ h.frames, Restored h.inv f.place
  passed : ∀ t ∈ h.inv.forwarded, h.inv.disposition t = .default ∨ t ∈ h.signals

theorem waiting_nested (pid : Int32) : Nested ⟨waiting pid, []⟩ := by
  constructor <;> simp [Handling.signals, waiting_eq]

theorem Restored.mono {inv inv' : Process} {place : Place} (hr : Restored inv place)
    (hd : ∀ t, inv.disposition t = .default → inv'.disposition t = .default) :
    Restored inv' place := by
  cases place with
  | kill => trivial
  | restore left => exact ⟨hr.1, fun t ht ↦ hd t (hr.2 t ht)⟩
  | raised => exact fun t ↦ hd t (hr t)

theorem Nested.mono (hn : Nested h) {inv : Process} (hf : inv.forwarded = h.inv.forwarded)
    (hd : ∀ t, h.inv.disposition t = .default → inv.disposition t = .default) :
    Nested { h with inv := inv } where
  signals := hn.signals
  once := hf ▸ hn.once
  fresh := fun f hm hk ↦ hf ▸ hn.fresh f hm hk
  restored := fun f hm ↦ (hn.restored f hm).mono hd
  passed := fun t ht ↦ (hn.passed t (hf ▸ ht)).imp_left (hd t)

theorem setAction_default (inv : Process) (u : Signal) {t : Signal}
    (hd : inv.disposition t = .default) : (setAction .default inv u).disposition t = .default := by
  simp only [setAction]
  split_ifs
  · rfl
  · exact hd

theorem Nested.act (hn : Nested h) (t : Signal) : Nested { h with inv := act h.inv t } := by
  obtain ⟨hd, hf⟩ := act_disposition h.inv t
  exact hn.mono hf fun u hu ↦ hd ▸ hu

theorem Nested.take (hn : Nested h) (ht : t ∉ h.signals) : Nested (h.take t) := by
  obtain ⟨-, heq⟩ | ⟨hforward, heq⟩ := take_cases h t
  · rw [heq]
    exact hn.act t
  · rw [heq]
    refine ⟨List.nodup_cons.mpr ⟨ht, hn.signals⟩, hn.once, ?_, ?_, ?_⟩
    · intro f hm hk
      obtain rfl | hm := List.mem_cons.mp hm
      · intro hpassed
        obtain hdefault | hm := hn.passed t hpassed
        · cases hforward.symm.trans hdefault
        · exact ht hm
      · exact hn.fresh f hm hk
    · intro f hm
      obtain rfl | hm := List.mem_cons.mp hm
      · trivial
      · exact hn.restored f hm
    · exact fun u hu ↦ (hn.passed u hu).imp_right (List.mem_cons_of_mem _)

section Innermost

variable {place : Place} {frames : List Frame}

theorem Nested.innermost (hn : Nested h) (hf : h.frames = ⟨t, place⟩ :: frames) :
    t ∉ frames.map Frame.signal ∧ (frames.map Frame.signal).Nodup ∧ Restored h.inv place ∧
      h.signals = t :: frames.map Frame.signal := by
  have hsignals : h.signals = t :: frames.map Frame.signal := by rw [Handling.signals, hf]; rfl
  have hnodup := hn.signals
  rw [hsignals] at hnodup
  obtain ⟨hnot, hrest⟩ := List.nodup_cons.mp hnodup
  exact ⟨hnot, hrest, hn.restored ⟨t, place⟩ (hf ▸ List.mem_cons_self), hsignals⟩

theorem Nested.go (hn : Nested h) (hf : h.frames = ⟨t, place⟩ :: frames) {place' : Place}
    (hne : place' ≠ .kill) (hr : Restored h.inv place') :
    Nested ⟨h.inv, ⟨t, place'⟩ :: frames⟩ := by
  obtain ⟨-, -, -, hsignals⟩ := hn.innermost hf
  refine ⟨?_, hn.once, ?_, ?_, ?_⟩
  · change (t :: frames.map Frame.signal).Nodup
    rw [← hsignals]
    exact hn.signals
  · intro f hm hk
    obtain rfl | hm := List.mem_cons.mp hm
    · exact absurd hk hne
    · exact hn.fresh f (hf ▸ List.mem_cons_of_mem _ hm) hk
  · intro f hm
    obtain rfl | hm := List.mem_cons.mp hm
    · exact hr
    · exact hn.restored f (hf ▸ List.mem_cons_of_mem _ hm)
  · intro u hu
    change _ ∨ u ∈ t :: frames.map Frame.signal
    rw [← hsignals]
    exact hn.passed u hu

theorem Nested.pop (hn : Nested h) (hf : h.frames = ⟨t, place⟩ :: frames)
    (ht : t ∈ h.inv.forwarded → h.inv.disposition t = .default) : Nested ⟨h.inv, frames⟩ := by
  obtain ⟨-, hrest, -, hsignals⟩ := hn.innermost hf
  refine ⟨hrest, hn.once, ?_, ?_, ?_⟩
  · exact fun f hm ↦ hn.fresh f (hf ▸ List.mem_cons_of_mem _ hm)
  · exact fun f hm ↦ hn.restored f (hf ▸ List.mem_cons_of_mem _ hm)
  · intro u hu
    obtain hdefault | hm := hn.passed u hu
    · exact .inl hdefault
    · rw [hsignals] at hm
      obtain rfl | hm := List.mem_cons.mp hm
      · exact .inl (ht hu)
      · exact .inr hm

theorem Nested.pass (hn : Nested h) (hf : h.frames = ⟨t, .kill⟩ :: frames) :
    Nested ⟨{ h.inv with forwarded := h.inv.forwarded ++ [t] },
      ⟨t, .restore handled⟩ :: frames⟩ := by
  obtain ⟨hnot, -, -, hsignals⟩ := hn.innermost hf
  have hnew : t ∉ h.inv.forwarded := hn.fresh ⟨t, .kill⟩ (hf ▸ List.mem_cons_self) rfl
  refine ⟨?_, ?_, ?_, ?_, ?_⟩
  · change (t :: frames.map Frame.signal).Nodup
    rw [← hsignals]
    exact hn.signals
  · exact List.nodup_append_comm.mp (List.nodup_cons.mpr ⟨hnew, hn.once⟩)
  · intro f hm hk
    obtain rfl | hm := List.mem_cons.mp hm
    · cases hk
    · rw [List.mem_append, List.mem_singleton, not_or]
      refine ⟨hn.fresh f (hf ▸ List.mem_cons_of_mem _ hm) hk, fun heq ↦ hnot ?_⟩
      exact heq ▸ List.mem_map_of_mem hm
  · intro f hm
    obtain rfl | hm := List.mem_cons.mp hm
    · exact ⟨List.suffix_refl _, fun u hu ↦ absurd (mem_handled u) hu⟩
    · exact (hn.restored f (hf ▸ List.mem_cons_of_mem _ hm)).mono fun _ hd ↦ hd
  · intro u hu
    obtain hu | hu := List.mem_append.mp hu
    · change _ ∨ u ∈ t :: frames.map Frame.signal
      rw [← hsignals]
      exact hn.passed u hu
    · rw [List.mem_singleton.mp hu]
      exact .inr List.mem_cons_self

end Innermost

theorem Nested.handler (hn : Nested h) (hs : h.handler = some h') : Nested h' := by
  cases handler_cases hs with
  | pass hf => exact hn.pass hf
  | skip hf =>
    refine hn.pop hf fun hm ↦ absurd hm ?_
    exact hn.fresh ⟨_, .kill⟩ (hf ▸ List.mem_cons_self) rfl
  | @restore t u left frames hf =>
    obtain ⟨-, -, hr, -⟩ := hn.innermost hf
    have hmono : Nested ⟨setAction .default h.inv u, h.frames⟩ :=
      hn.mono rfl fun _ ↦ setAction_default h.inv u
    refine hmono.go hf nofun ⟨(List.suffix_cons u left).trans hr.1, fun v hv ↦ ?_⟩
    by_cases heq : v = u
    · subst heq
      exact if_pos rfl
    · exact setAction_default h.inv u (hr.2 v (by simp [heq, hv]))
  | raise hf =>
    obtain ⟨-, -, hr, -⟩ := hn.innermost hf
    exact hn.go hf nofun fun v ↦ hr.2 v List.not_mem_nil
  | back hf =>
    obtain ⟨hnot, -, hr, -⟩ := hn.innermost hf
    exact (hn.pop hf fun _ ↦ hr _).take hnot

/-- A signal is being handled, has been passed on or has terminated the invoker. -/
def Handling.Taken (h : Handling) (t : Signal) : Prop :=
  t ∈ h.signals ∨ t ∈ h.inv.forwarded ∨ h.inv.terminatedBy = some t

theorem act_taken {u : Signal} (h : Handling) (ht : Handling.Taken ⟨act h.inv t, h.frames⟩ u) :
    u = t ∨ h.Taken u := by
  obtain hm | hm | hby := ht
  · exact .inr (.inl hm)
  · exact .inr (.inr (.inl ((act_disposition h.inv t).2 ▸ hm)))
  · unfold Signals.act at hby
    split_ifs at hby
    · exact .inl (Option.some.inj hby).symm
    · exact .inr (.inr (.inr hby))

theorem take_taken {u : Signal} (ht : (h.take t).Taken u) : u = t ∨ h.Taken u := by
  obtain ⟨-, heq⟩ | ⟨-, heq⟩ := take_cases h t
  · exact act_taken h (heq ▸ ht)
  · rw [heq] at ht
    obtain hm | hm := ht
    · exact (List.mem_cons.mp hm).imp_right .inl
    · exact .inr (.inr hm)

theorem handler_taken (hs : h.handler = some h') (ht : h'.Taken t) : h.Taken t := by
  have hsignals : ∀ {u place frames}, h.frames = ⟨u, place⟩ :: frames →
      h.signals = u :: frames.map Frame.signal := by
    intro u place frames hf
    rw [Handling.signals, hf]
    rfl
  cases handler_cases hs with
  | @pass u frames hf =>
    rw [Handling.Taken, hsignals hf]
    obtain hm | hm | hby := ht
    · exact .inl hm
    · obtain hm | hm := List.mem_append.mp hm
      · exact .inr (.inl hm)
      · rw [List.mem_singleton.mp hm]
        exact .inl List.mem_cons_self
    · exact .inr (.inr hby)
  | skip hf =>
    rw [Handling.Taken, hsignals hf]
    exact ht.imp_left (List.mem_cons_of_mem _)
  | restore hf | raise hf =>
    rw [Handling.Taken, hsignals hf]
    exact ht
  | back hf =>
    rw [Handling.Taken, hsignals hf]
    obtain rfl | ht := take_taken ht
    · exact .inl List.mem_cons_self
    · exact ht.imp_left (List.mem_cons_of_mem _)

theorem act_pid (inv : Process) (t : Signal) : (act inv t).invokedPid = inv.invokedPid := by
  unfold act
  split_ifs <;> rfl

theorem take_pid (h : Handling) (t : Signal) :
    (h.take t).inv.invokedPid = h.inv.invokedPid := by
  obtain ⟨-, heq⟩ | ⟨-, heq⟩ := take_cases h t
  · rw [heq]
    exact act_pid h.inv t
  · rw [heq]

theorem handler_pid (hs : h.handler = some h') : h'.inv.invokedPid = h.inv.invokedPid := by
  cases handler_cases hs with
  | back hf => exact take_pid ..
  | pass hf | skip hf | restore hf | raise hf => rfl

/-- What holds as long as no signal is taken while the handler runs. -/
structure Alone (h : Handling) : Prop where
  nested : Nested h
  single : h.frames.length ≤ 1
  atMostOne : h.inv.forwarded.length ≤ 1
  kill : ∀ f ∈ h.frames, f.place = .kill → h.inv.forwarded = []
  idle : h.frames = [] → h.inv.forwarded = [] ∨ ∀ t, h.inv.disposition t = .default

theorem Alone.mono (ha : Alone h) {inv : Process} (hf : inv.forwarded = h.inv.forwarded)
    (hd : ∀ t, h.inv.disposition t = .default → inv.disposition t = .default) :
    Alone { h with inv := inv } where
  nested := ha.nested.mono hf hd
  single := ha.single
  atMostOne := hf ▸ ha.atMostOne
  kill := fun f hm hk ↦ hf.trans (ha.kill f hm hk)
  idle := fun hi ↦ (ha.idle hi).imp hf.trans fun hall t ↦ hd t (hall t)

theorem Alone.take (ha : Alone h) (hi : h.frames = []) (t : Signal) : Alone (h.take t) := by
  have hn := ha.nested.take (t := t) (by simp [Handling.signals, hi])
  obtain ⟨-, heq⟩ | ⟨hforward, heq⟩ := take_cases h t
  · rw [heq] at hn ⊢
    obtain ⟨hd, hf⟩ := act_disposition h.inv t
    exact ha.mono hf fun u hu ↦ hd ▸ hu
  · have hnil : h.inv.forwarded = [] := by
      refine (ha.idle hi).resolve_right fun hall ↦ ?_
      cases hforward.symm.trans (hall t)
    rw [heq] at hn ⊢
    refine ⟨hn, ?_, ha.atMostOne, fun _ _ _ ↦ hnil, nofun⟩
    simp [hi]

theorem Alone.handler (ha : Alone h) (hs : h.handler = some h') : Alone h' := by
  have hn := ha.nested.handler hs
  have hnil : ∀ f frames, h.frames = f :: frames → frames = [] := by
    intro f frames hf
    have hlen := ha.single
    rw [hf, List.length_cons] at hlen
    exact List.length_eq_zero_iff.mp (by omega)
  cases handler_cases hs with
  | pass hf =>
    obtain rfl := hnil _ _ hf
    have hnone := ha.kill ⟨_, .kill⟩ (hf ▸ List.mem_cons_self) rfl
    refine ⟨hn, le_rfl, ?_, ?_, nofun⟩
    · simp [hnone]
    · simp
  | skip hf =>
    obtain rfl := hnil _ _ hf
    have hnone := ha.kill ⟨_, .kill⟩ (hf ▸ List.mem_cons_self) rfl
    exact ⟨hn, Nat.zero_le _, ha.atMostOne, nofun, fun _ ↦ .inl hnone⟩
  | restore hf =>
    obtain rfl := hnil _ _ hf
    exact ⟨hn, le_rfl, ha.atMostOne, by simp, nofun⟩
  | raise hf =>
    obtain rfl := hnil _ _ hf
    exact ⟨hn, le_rfl, ha.atMostOne, by simp, nofun⟩
  | back hf =>
    obtain rfl := hnil _ _ hf
    obtain ⟨-, -, hr, -⟩ := ha.nested.innermost hf
    have hpop : Alone ⟨h.inv, []⟩ :=
      ⟨ha.nested.pop hf fun _ ↦ hr _, Nat.zero_le _, ha.atMostOne, nofun, fun _ ↦ .inr hr⟩
    exact hpop.take rfl _

def Place.weight : Place → ℕ
  | .kill => handled.length + 3
  | .restore left => left.length + 2
  | .raised => 1

def Handling.work (h : Handling) : ℕ := (h.frames.map fun f ↦ f.place.weight).sum

theorem take_work (h : Handling) (t : Signal) : (h.take t).work < h.work + (handled.length + 4) := by
  obtain ⟨-, heq⟩ | ⟨-, heq⟩ := take_cases h t
  · rw [heq]
    exact Nat.lt_add_of_pos_right (Nat.succ_pos _)
  · rw [heq]
    simp only [Handling.work, List.map_cons, List.sum_cons, Place.weight]
    omega

theorem handler_work (hn : Nested h) (hs : h.handler = some h') : h'.work < h.work := by
  cases handler_cases hs with
  | back hf =>
    obtain ⟨-, -, hr, -⟩ := hn.innermost hf
    rename_i u frames
    obtain ⟨-, heq⟩ | ⟨hforward, -⟩ := take_cases ⟨h.inv, frames⟩ u
    · rw [heq]
      simp [Handling.work, hf, Place.weight]
    · cases hforward.symm.trans (hr u)
  | pass hf | skip hf | restore hf | raise hf => simp [Handling.work, hf, Place.weight]

def alone (h : Handling) (_ : Unit) : Option Handling := h.handler

theorem restore_run (t : Signal) (left : List Signal) (inv : Process) :
    ∃ labels, Run alone Any ⟨inv, [⟨t, .restore left⟩]⟩ labels
      ⟨left.foldl (setAction .default) inv, [⟨t, .restore []⟩]⟩ := by
  induction left generalizing inv with
  | nil => exact ⟨[], .nil _⟩
  | cons u left ih =>
    obtain ⟨labels, hrun⟩ := ih (setAction .default inv u)
    exact ⟨() :: labels, .cons trivial rfl hrun⟩

/-- A call of the handler that no other interrupts comes to what `deliver` makes
of the signal at once. -/
theorem deliver_alone (inv : Process) (hlive : inv.terminatedBy = none) (t : Signal) :
    ∃ labels, Run alone Any (Handling.take ⟨inv, []⟩ t) labels ⟨deliver inv t, []⟩ := by
  have hnone : inv.terminatedBy.isSome = false := by rw [hlive]; rfl
  obtain ⟨hd, heq⟩ | ⟨hd, heq⟩ := take_cases ⟨inv, []⟩ t
  · refine ⟨[], ?_⟩
    have hdeliver : deliver inv t = act inv t := by
      change inv.disposition t = .default at hd
      simp [deliver, hnone, hd]
    rw [heq, hdeliver]
    exact .nil _
  · rw [heq]
    change inv.disposition t = .forward at hd
    by_cases hp : 0 ≤ inv.invokedPid
    · obtain ⟨labels, hrun⟩ :=
        restore_run t handled { inv with forwarded := inv.forwarded ++ [t] }
      have hdeliver : deliver inv t =
          act (sigsRestore { inv with forwarded := inv.forwarded ++ [t] }) t := by
        simp [deliver, hnone, hd, sigForwarder, hp]
      have hkill : alone ⟨inv, [⟨t, .kill⟩]⟩ () =
          some ⟨{ inv with forwarded := inv.forwarded ++ [t] }, [⟨t, .restore handled⟩]⟩ :=
        if_pos hp
      have hback : ∀ inv' : Process, inv'.disposition t = .default →
          alone ⟨inv', [⟨t, .raised⟩]⟩ () = some ⟨act inv' t, []⟩ := by
        intro inv' hdefault
        simp [alone, Handling.handler, Handling.take, hdefault]
      refine ⟨() :: (labels ++ [(), ()]), .cons trivial hkill (hrun.append ?_)⟩
      refine .cons trivial rfl (.one ?_)
      rw [hdeliver]
      exact hback _ (congrFun (congrArg Process.disposition (sigsSet_eq .default _)) t)
    · have hdeliver : deliver inv t = inv := by simp [deliver, hnone, hd, sigForwarder, hp]
      refine ⟨[()], .one ?_⟩
      rw [hdeliver]
      exact if_neg hp

end Applauncherd.Invoker.NestedSignals
