import Applauncherd.Launcherlib.Attribution

namespace Applauncherd.Launcherlib.ReapZombies

open Library.Transition Tables MainLoop Effects Consistency Attribution

/-- `reapZombies` from an index on, over children that do not end meanwhile. An
erased element leaves room for the one that `forkBooster` may append, so the
iterator stays valid and stands at the index. -/
def reapLoop (fork : System → Pid) : ℕ → ℕ → System → Option System
  | 0, _, _ => none
  | fuel + 1, i, s =>
    match s.tables.children[i]? with
    | none => some s
    | some pid =>
      match s.procs pid with
      | some ⟨_, _, _, _, none⟩ => reapLoop fork fuel (i + 1) s
      | some c =>
        (s.reapChild i pid c (fork (buried s i pid c))).bind (reapLoop fork fuel i)
      | none =>
        let t := { s.tables with children := s.tables.children.eraseIdx i }
        reapLoop fork fuel i { s with tables := t }

/-- Every child is looked at once, every replacement too, and the end is seen. -/
def reapZombies (fork : System → Pid) (s : System) : Option System :=
  reapLoop fork (2 * s.tables.children.length + 1) 0 s

variable {fork : System → Pid} {s t : System} {i fuel : ℕ} {pid : Pid} {c : Child}

/-- The loop is the one that the main loop goes through step by step. -/
theorem reapLoop_run {w : World} {r : Ready} (hphase : w.phase = .reapZombies r i)
    (h : reapLoop fork fuel i w.sys = some t) :
    ∃ labels, Run step Any w labels (w.put (.sigTerm r) t) := by
  induction fuel generalizing i w with
  | zero => cases h
  | succ fuel ih =>
    have hstep : ∀ newPid, step w (.daemon newPid) = reapStep w r i newPid := by
      intro newPid
      simp only [step, daemonStep, hphase]
    have hgo : ∀ newPid j u, reapStep w r i newPid = some (w.put (.reapZombies r j) u) →
        reapLoop fork fuel j u = some t →
        ∃ labels, Run step Any w labels (w.put (.sigTerm r) t) := by
      intro newPid j u hs hu
      obtain ⟨labels, hrun⟩ := ih (w := w.put (.reapZombies r j) u) rfl hu
      exact ⟨_, .cons trivial ((hstep newPid).trans hs) hrun⟩
    unfold reapLoop at h
    split at h
    · rename_i hi
      obtain rfl := Option.some.inj h
      refine ⟨_, .one ((hstep 0).trans ?_)⟩
      simp [reapStep, hi]
    · rename_i pid hi
      split at h
      · rename_i hc
        refine hgo 0 _ _ ?_ h
        simp [reapStep, hi, hc]
      · rename_i c hlive hc
        obtain ⟨u, hu, h⟩ := Option.bind_eq_some_iff.mp h
        refine hgo (fork (buried w.sys i pid c)) _ _ ?_ h
        unfold reapStep
        simp only [hi, hc]
        rw [hu]
        rfl
      · rename_i hc
        refine hgo 0 _ _ ?_ h
        simp [reapStep, hi, hc]

structure Sound (s : System) : Prop where
  nodup : s.tables.children.Nodup
  live : ∀ p ∈ s.tables.children, (s.procs p).isSome
  no_zero : s.procs 0 = none
  recorded_mem : ∀ type p, recorded s type = some p → p ∈ s.tables.children
  recorded_inj : ∀ type type' p, recorded s type = some p → recorded s type' = some p →
    type = type'
  key_mem : ∀ b v, s.tables.boosterPidToInvokerPid[b]? = some v → b ∈ s.tables.children

def Fresh (fork : System → Pid) : Prop :=
  ∀ s, (∃ p, p ≠ 0 ∧ s.procs p = none) → fork s ≠ 0 ∧ s.procs (fork s) = none

def exited (s : System) (p : Pid) : Bool := (s.procs p).any fun c ↦ c.status.isSome

def running (s : System) (p : Pid) : Bool := !exited s p

theorem boosterTypeForPid_iff (h : Sound s) {type : UInt8} (hne : type ≠ 0) :
    boosterTypeForPid s.tables pid = type ↔ recorded s type = some pid := by
  constructor
  · intro ht
    by_contra hr
    by_cases hex : ∃ type', recorded s type' = some pid
    · obtain ⟨type', hr'⟩ := hex
      have hfound := boosterTypeForPid_eq hr' fun _ hr'' ↦ h.recorded_inj _ _ _ hr'' hr'
      exact hr ((hfound.symm.trans ht) ▸ hr')
    · have hfound := boosterTypeForPid_none fun type' hr' ↦ hex ⟨type', hr'⟩
      exact hne (ht.symm.trans hfound)
  · intro hr
    exact boosterTypeForPid_eq hr fun _ hr' ↦ h.recorded_inj _ _ _ hr' hr

theorem reapLoop_end (hi : s.tables.children.length ≤ i) :
    reapLoop fork (fuel + 1) i s = some s := by
  unfold reapLoop
  rw [List.getElem?_eq_none hi]

theorem reapLoop_running (hi : s.tables.children[i]? = some pid) (hc : s.procs pid = some c)
    (hst : c.status = none) : reapLoop fork (fuel + 1) i s = reapLoop fork fuel (i + 1) s := by
  obtain ⟨type, bootMode, sleepTime, stage, status⟩ := c
  cases hst
  simp only [reapLoop, hi, hc]

theorem reapLoop_exited (hi : s.tables.children[i]? = some pid) (hc : s.procs pid = some c)
    (hst : c.status.isSome) : reapLoop fork (fuel + 1) i s =
      (s.reapChild i pid c (fork (buried s i pid c))).bind (reapLoop fork fuel i) := by
  obtain ⟨type, bootMode, sleepTime, stage, status⟩ := c
  cases status with
  | none => cases hst
  | some status => simp only [reapLoop, hi, hc]

theorem reapLoop_over (h : ∀ p ∈ s.tables.children.drop i, ∃ c, s.procs p = some c ∧
    c.status = none) (hf : s.tables.children.length - i < fuel) :
    reapLoop fork fuel i s = some s := by
  induction fuel generalizing i with
  | zero => omega
  | succ fuel ih =>
    by_cases hi : i < s.tables.children.length
    · rw [List.drop_eq_getElem_cons hi] at h
      obtain ⟨c, hc, hst⟩ := h _ List.mem_cons_self
      rw [reapLoop_running (List.getElem?_eq_getElem hi) hc hst]
      apply ih
      · exact fun p hp ↦ h p (List.mem_cons_of_mem _ hp)
      · omega
    · exact reapLoop_end (Nat.le_of_not_lt hi)

def passedOn (s : System) (p : Pid) : List Forward :=
  ((s.procs p).map (forwardsOf s.tables p)).getD []

/-- The state once the loop, started in `s`, has looked at the children in `done`
and has forked the boosters in `forked`. -/
structure Swept (s : System) (done rest : List Pid) (forked : List (UInt8 × Pid)) (t : System) :
    Prop where
  children : t.tables.children = done.filter (running s) ++ rest ++ forked.map Prod.snd
  nodup : t.tables.children.Nodup
  live : ∀ p ∈ t.tables.children, (t.procs p).isSome
  no_zero : t.procs 0 = none
  replaced : ∀ e ∈ forked, t.procs e.2 = some (newborn s e.1 boosterSleepTime)
  procs : ∀ p ∉ forked.map Prod.snd,
    t.procs p = if p ∈ done ∧ exited s p then none else s.procs p
  recorded_new : ∀ e ∈ forked, recorded t e.1 = some e.2
  recorded_old : ∀ type ∉ forked.map Prod.fst, recorded t type = recorded s type
  invokers : ∀ b, t.tables.boosterPidToInvokerPid[b]? =
    if b ∈ done ∧ exited s b then none else s.tables.boosterPidToInvokerPid[b]?
  forwards : t.forwards = s.forwards ++ (done.filter (exited s)).flatMap (passedOn s)
  bootMode : t.tables.bootMode = s.tables.bootMode
  pipe : t.pipe = s.pipe
  sigterms : t.sigterms = s.sigterms

theorem swept_start (h : Sound s) : Swept s [] s.tables.children [] s where
  children := by simp
  nodup := h.nodup
  live := h.live
  no_zero := h.no_zero
  replaced := nofun
  procs := by simp
  recorded_new := nofun
  recorded_old := fun _ _ ↦ rfl
  invokers := by simp
  forwards := by simp
  bootMode := rfl
  pipe := rfl
  sigterms := rfl

variable {done rest : List Pid} {forked : List (UInt8 × Pid)}

theorem Swept.at_index (h : Swept s done (pid :: rest) forked t) :
    t.tables.children[(done.filter (running s)).length]? = some pid ∧
      t.tables.children.eraseIdx (done.filter (running s)).length =
        done.filter (running s) ++ rest ++ forked.map Prod.snd := by
  rw [h.children, List.append_assoc, List.cons_append]
  constructor
  · rw [List.getElem?_append_right (Nat.le_refl _)]
    simp
  · rw [List.eraseIdx_append_of_length_le (Nat.le_refl _), Nat.sub_self, List.append_assoc]
    rfl

theorem Swept.not_forked (h : Swept s done (pid :: rest) forked t) :
    pid ∉ forked.map Prod.snd := by
  intro hm
  have hn := h.nodup
  rw [h.children] at hn
  exact List.disjoint_of_nodup_append hn (List.mem_append_right _ List.mem_cons_self) hm

theorem Swept.procs_rest (h : Swept s done (pid :: rest) forked t) (hd : pid ∉ done) :
    t.procs pid = s.procs pid := by
  rw [h.procs pid h.not_forked, if_neg (fun hm ↦ hd hm.1)]

theorem Swept.keep (h : Swept s done (pid :: rest) forked t) (hr : exited s pid = false) :
    Swept s (done ++ [pid]) rest forked t := by
  have hp : ∀ p, (p ∈ done ++ [pid] ∧ exited s p = true) ↔ p ∈ done ∧ exited s p = true := by
    intro p
    rw [List.mem_append, List.mem_singleton]
    constructor
    · intro hm
      obtain ⟨hm | rfl, he⟩ := hm
      · exact ⟨hm, he⟩
      · rw [hr] at he
        cases he
    · intro hm
      exact ⟨.inl hm.1, hm.2⟩
  refine { h with children := ?_, procs := ?_, invokers := ?_, forwards := ?_ }
  · rw [h.children]
    simp [List.filter_append, running, hr]
  · intro p hpf
    rw [h.procs p hpf]
    simp only [hp]
  · intro b
    rw [h.invokers b]
    simp only [hp]
  · rw [h.forwards]
    simp [List.filter_append, hr]

theorem Swept.bury (h : Swept s done (pid :: rest) forked t) (hd : pid ∉ done)
    (hc : s.procs pid = some c) (hst : exited s pid = true) :
    Swept s (done ++ [pid]) rest forked
      (buried t (done.filter (running s)).length pid c) := by
  have hsub : (buried t (done.filter (running s)).length pid c).tables.children =
      done.filter (running s) ++ rest ++ forked.map Prod.snd := h.at_index.2
  have hne : ∀ p ∈ done.filter (running s) ++ rest ++ forked.map Prod.snd,
      p ≠ pid ∧ p ∈ t.tables.children := by
    intro p hp
    rw [← h.at_index.2] at hp
    exact (mem_eraseIdx h.nodup h.at_index.1).mp hp
  have hp : ∀ p, p ≠ pid → (p ∈ done ++ [pid] ↔ p ∈ done) := by
    intro p hne
    simp [hne]
  constructor
  case children => rw [hsub]; simp [List.filter_append, running, hst]
  case nodup => exact h.nodup.eraseIdx _
  case live =>
    intro p hm
    rw [hsub] at hm
    obtain ⟨hne, hm⟩ := hne p hm
    change ((t.setProc pid none).procs p).isSome
    rw [setProc_other t _ hne]
    exact h.live p hm
  case no_zero =>
    change (t.setProc pid none).procs 0 = none
    by_cases h0 : (0 : Pid) = pid
    · rw [← h0, setProc_self]
    · rw [setProc_other t _ h0]
      exact h.no_zero
  case replaced =>
    intro e he
    have hm : e.2 ∈ forked.map Prod.snd := List.mem_map_of_mem he
    change (t.setProc pid none).procs e.2 = _
    rw [setProc_other t _ (hne _ (List.mem_append_right _ hm)).1]
    exact h.replaced e he
  case procs =>
    intro p hpf
    change (t.setProc pid none).procs p = _
    by_cases he : p = pid
    · subst he
      simp [hst]
    · rw [setProc_other t _ he, h.procs p hpf]
      simp only [hp p he]
  case recorded_new => exact h.recorded_new
  case recorded_old => exact h.recorded_old
  case invokers =>
    intro b
    change (buryChild t.tables _ pid).boosterPidToInvokerPid[b]? = _
    rw [invokers_buryChild, h.invokers b]
    by_cases he : b = pid
    · subst he
      simp [hst]
    · rw [if_neg (Ne.symm he)]
      simp only [hp b he]
  case forwards =>
    have hf : forwardsOf t.tables pid c = forwardsOf s.tables pid c := by
      unfold forwardsOf
      rw [h.invokers pid, if_neg (fun hm ↦ hd hm.1)]
    change t.forwards ++ forwardsOf t.tables pid c = _
    rw [hf, h.forwards]
    simp [List.filter_append, passedOn, hst, hc]
  case bootMode => exact h.bootMode
  case pipe => exact h.pipe
  case sigterms => exact h.sigterms

theorem Swept.spawn {type : UInt8} {newPid : Pid} (h : Swept s done rest forked t)
    (hn : type ∉ forked.map Prod.fst) (hne0 : newPid ≠ 0) (hnew : t.procs newPid = none) :
    Swept s done rest (forked ++ [(type, newPid)]) (spawned t type boosterSleepTime newPid) := by
  have hold : ∀ e ∈ forked, e.2 ∈ t.tables.children := by
    intro e he
    rw [h.children]
    exact List.mem_append_right _ (List.mem_map_of_mem he)
  constructor
  case children =>
    change t.tables.children ++ [newPid] = _
    rw [h.children]
    simp
  case nodup => exact nodup_spawned h.live hnew h.nodup
  case live => exact fun p ↦ live_spawned h.live hnew
  case no_zero => exact (setProc_other t _ hne0.symm).trans h.no_zero
  case replaced =>
    intro e he
    obtain he | he := List.mem_append.mp he
    · rw [procs_spawned t type _ hnew (h.live _ (hold e he))]
      exact h.replaced e he
    · rw [List.mem_singleton.mp he]
      simp [spawned, newborn, h.bootMode]
  case procs =>
    intro p hp
    simp only [List.map_append, List.mem_append, List.map_cons, List.map_nil,
      List.mem_singleton, not_or] at hp
    change (t.setProc newPid _).procs p = _
    rw [setProc_other t _ hp.2]
    exact h.procs p hp.1
  case recorded_new =>
    intro e he
    rw [recorded_spawned]
    obtain he | he := List.mem_append.mp he
    · have hm : e.1 ∈ forked.map Prod.fst := List.mem_map_of_mem he
      rw [if_neg (fun heq : type = e.1 ↦ hn (heq ▸ hm))]
      exact h.recorded_new e he
    · rw [List.mem_singleton.mp he, if_pos rfl]
  case recorded_old =>
    intro type' hm
    simp only [List.map_append, List.mem_append, List.map_cons, List.map_nil,
      List.mem_singleton, not_or] at hm
    rw [recorded_spawned, if_neg (Ne.symm hm.2)]
    exact h.recorded_old type' hm.1
  case invokers => exact h.invokers
  case forwards => exact h.forwards
  case bootMode => exact h.bootMode
  case pipe => exact h.pipe
  case sigterms => exact h.sigterms

/-- The types that a replacement is forked for, in the order of the children. -/
def due (s : System) (done : List Pid) : List UInt8 :=
  ((done.filter (exited s)).map (boosterTypeForPid s.tables)).filter (· ≠ 0)

theorem due_length (s : System) (done : List Pid) (pid : Pid) :
    (due s (done ++ [pid])).length ≤ (due s done).length + 1 := by
  unfold due
  rw [List.filter_append, List.map_append, List.filter_append, List.length_append]
  have hone : ((([pid].filter (exited s)).map (boosterTypeForPid s.tables)).filter (· ≠ 0)).length
      ≤ 1 := by
    refine (List.length_filter_le _ _).trans ?_
    rw [List.length_map]
    exact List.length_filter_le _ _
  omega

theorem mem_due (hs : Sound s) {type : UInt8} :
    type ∈ due s done ↔ type ≠ 0 ∧ ∃ p ∈ done, exited s p = true ∧ recorded s type = some p := by
  simp only [due, List.mem_filter, List.mem_map, decide_eq_true_eq]
  constructor
  · intro h
    obtain ⟨⟨p, ⟨hp, he⟩, rfl⟩, hne⟩ := h
    exact ⟨hne, p, hp, he, (boosterTypeForPid_iff hs hne).mp rfl⟩
  · intro h
    obtain ⟨hne, p, hp, he, hr⟩ := h
    exact ⟨⟨p, ⟨hp, he⟩, (boosterTypeForPid_iff hs hne).mpr hr⟩, hne⟩

theorem not_due (hs : Sound s) (hd : pid ∉ done) {type : UInt8}
    (hr : recorded s type = some pid) : type ∉ due s done := by
  intro hm
  obtain ⟨-, p, hp, -, hr'⟩ := (mem_due hs).mp hm
  exact hd (Option.some.inj (hr'.symm.trans hr) ▸ hp)

theorem Swept.recorded_iff (hs : Sound s) (h : Swept s done (pid :: rest) forked t)
    (hd : pid ∉ done) (hf : forked.map Prod.fst = due s done) (type : UInt8) :
    recorded t type = some pid ↔ recorded s type = some pid := by
  by_cases hm : type ∈ forked.map Prod.fst
  · obtain ⟨e, he, rfl⟩ := List.mem_map.mp hm
    rw [h.recorded_new e he]
    constructor
    · intro hr
      have hp : e.2 ∈ forked.map Prod.snd := List.mem_map_of_mem he
      exact absurd (Option.some.inj hr ▸ hp) h.not_forked
    · intro hr
      exact absurd (hf ▸ hm) (not_due hs hd hr)
  · rw [h.recorded_old type hm]

theorem Swept.type_found (hs : Sound s) (h : Swept s done (pid :: rest) forked t)
    (hd : pid ∉ done) (hf : forked.map Prod.fst = due s done) :
    boosterTypeForPid t.tables pid = boosterTypeForPid s.tables pid := by
  have hr := h.recorded_iff hs hd hf
  by_cases hex : ∃ type, recorded s type = some pid
  · obtain ⟨type, htype⟩ := hex
    have hinj : ∀ type', recorded s type' = some pid → type' = type :=
      fun _ hr' ↦ hs.recorded_inj _ _ _ hr' htype
    rw [boosterTypeForPid_eq htype hinj]
    exact boosterTypeForPid_eq ((hr type).mpr htype) fun type' ht ↦ hinj type' ((hr type').mp ht)
  · rw [boosterTypeForPid_none fun type ht ↦ hex ⟨type, ht⟩]
    exact boosterTypeForPid_none fun type ht ↦ hex ⟨type, (hr type).mp ht⟩

theorem Swept.reap (hs : Sound s) (hfork : Fresh fork) (h : Swept s done (pid :: rest) forked t)
    (hd : pid ∉ done) (hf : forked.map Prod.fst = due s done) (hc : s.procs pid = some c)
    (hst : exited s pid = true) :
    ∃ t' forked', t.reapChild (done.filter (running s)).length pid c
        (fork (buried t (done.filter (running s)).length pid c)) = some t' ∧
      Swept s (done ++ [pid]) rest forked' t' ∧
      forked'.map Prod.fst = due s (done ++ [pid]) := by
  have hb := h.bury hd hc hst
  have hdue : due s (done ++ [pid]) =
      due s done ++ [boosterTypeForPid s.tables pid].filter (· ≠ 0) := by
    simp [due, List.filter_append, hst]
  have hfound : boosterTypeForPid (buryChild t.tables (done.filter (running s)).length pid) pid =
      boosterTypeForPid s.tables pid := h.type_found hs hd hf
  unfold System.reapChild
  simp only [hfound]
  by_cases hz : boosterTypeForPid s.tables pid = 0
  · refine ⟨_, forked, by rw [if_neg (by simp [hz])]; rfl, hb, ?_⟩
    rw [hf, hdue, hz]
    simp
  · have hne : pid ≠ 0 := by
      intro h0
      rw [h0, hs.no_zero] at hc
      cases hc
    obtain ⟨hnew, hnone⟩ := hfork (buried t (done.filter (running s)).length pid c)
      ⟨pid, hne, setProc_self ..⟩
    have hn : boosterTypeForPid s.tables pid ∉ forked.map Prod.fst := by
      rw [hf]
      exact not_due hs hd ((boosterTypeForPid_iff hs hz).mp rfl)
    refine ⟨_, _, ?_, hb.spawn hn hnew hnone, ?_⟩
    · rw [if_pos hz]
      exact if_pos ⟨hnew, hnone⟩
    · rw [List.map_append, hf, hdue]
      simp [hz]

theorem Swept.loop (hs : Sound s) (hfork : Fresh fork) (h : Swept s done rest forked t)
    (hch : s.tables.children = done ++ rest) (hf : forked.map Prod.fst = due s done)
    (hfuel : 2 * rest.length + forked.length < fuel) :
    ∃ t' forked', reapLoop fork fuel (done.filter (running s)).length t = some t' ∧
      Swept s s.tables.children [] forked' t' ∧
      forked'.map Prod.fst = due s s.tables.children := by
  induction rest generalizing done forked t fuel with
  | nil =>
    rw [List.append_nil] at hch
    rw [hch]
    refine ⟨t, forked, reapLoop_over ?_ ?_, h, hf⟩
    · intro p hp
      rw [h.children, List.append_nil, List.drop_left] at hp
      obtain ⟨e, he, rfl⟩ := List.mem_map.mp hp
      exact ⟨_, h.replaced e he, rfl⟩
    · rw [h.children]
      simp
      simp at hfuel
      omega
  | cons pid rest ih =>
    have hn := hs.nodup
    rw [hch] at hn
    have hd : pid ∉ done := by
      intro hm
      exact List.disjoint_of_nodup_append hn hm List.mem_cons_self
    have hch' : s.tables.children = done ++ [pid] ++ rest := by simp [hch]
    obtain ⟨c, hc⟩ := Option.isSome_iff_exists.mp
      (hs.live pid (by rw [hch]; exact List.mem_append_right _ List.mem_cons_self))
    have htc : t.procs pid = some c := (h.procs_rest hd).trans hc
    obtain ⟨fuel, rfl⟩ : ∃ n, fuel = n + 1 := ⟨fuel - 1, by omega⟩
    cases hst : exited s pid with
    | false =>
      have hnone : c.status = none := by
        simpa [exited, hc] using hst
      rw [reapLoop_running h.at_index.1 htc hnone]
      have hlen : ((done ++ [pid]).filter (running s)).length =
          (done.filter (running s)).length + 1 := by
        simp [List.filter_append, running, hst]
      rw [← hlen]
      apply ih (h.keep hst) hch'
      · rw [hf]
        simp [due, List.filter_append, hst]
      · rw [List.length_cons] at hfuel
        omega
    | true =>
      have hsome : c.status.isSome := by
        simpa [exited, hc] using hst
      obtain ⟨t', forked', hreap, hswept, hf'⟩ := h.reap hs hfork hd hf hc hst
      rw [reapLoop_exited h.at_index.1 htc hsome, hreap, Option.bind_some]
      have hlen : (done.filter (running s)).length =
          ((done ++ [pid]).filter (running s)).length := by
        simp [List.filter_append, running, hst]
      rw [hlen]
      apply ih hswept hch' hf'
      have hdue := due_length s done pid
      rw [← hf, ← hf', List.length_map, List.length_map] at hdue
      rw [List.length_cons] at hfuel
      omega

def KilledFor (s : System) (p : Pid) (f : Forward) : Prop :=
  s.tables.boosterPidToInvokerPid[p]? = some f.invoker ∧ s.procs p = some f.child ∧
    f.child.status = some (.signaled f.signal)

/-- What one call of `reapZombies` makes of a state: the exited children are gone,
those of them that were recorded for a type are replaced, and the signals that
killed them are passed on to their invokers. -/
structure Reaped (s : System) (forked : List (UInt8 × Pid)) (t : System) : Prop where
  children : t.tables.children = s.tables.children.filter (running s) ++ forked.map Prod.snd
  children_nodup : t.tables.children.Nodup
  no_zero : t.procs 0 = none
  types_nodup : (forked.map Prod.fst).Nodup
  types_iff : ∀ type, type ∈ forked.map Prod.fst ↔
    type ≠ 0 ∧ ∃ p ∈ s.tables.children, exited s p = true ∧ recorded s type = some p
  replaced : ∀ e ∈ forked,
    t.procs e.2 = some (newborn s e.1 boosterSleepTime) ∧ recorded t e.1 = some e.2
  others : ∀ p ∉ forked.map Prod.snd,
    t.procs p = if p ∈ s.tables.children ∧ exited s p then none else s.procs p
  recorded_others : ∀ type ∉ forked.map Prod.fst, recorded t type = recorded s type
  invokers : ∀ b, t.tables.boosterPidToInvokerPid[b]? =
    if b ∈ s.tables.children ∧ exited s b then none else s.tables.boosterPidToInvokerPid[b]?
  -- one signal for each child that has a mapping and was killed, in the order of
  -- the children, and no other
  forwards : ∃ killed sent, t.forwards = s.forwards ++ sent ∧
    killed.Nodup ∧ killed.Sublist s.tables.children ∧
    (∀ p, p ∈ killed ↔ p ∈ s.tables.children ∧ ∃ f, KilledFor s p f) ∧
    List.Forall₂ (KilledFor s) killed sent
  bootMode : t.tables.bootMode = s.tables.bootMode
  pipe : t.pipe = s.pipe
  sigterms : t.sigterms = s.sigterms

theorem due_nodup (hs : Sound s) (hd : done.Nodup) : (due s done).Nodup := by
  induction done using List.reverseRecOn with
  | nil => simp [due]
  | append_singleton done pid ih =>
    obtain ⟨hn, -, hdis⟩ := List.nodup_append.mp hd
    have hpid : pid ∉ done := fun hm ↦ hdis pid hm pid (List.mem_singleton_self _) rfl
    have hnot : ∀ type ∈ due s done, boosterTypeForPid s.tables pid ≠ type := by
      intro type hm heq
      have hne := ((mem_due hs).mp hm).1
      exact not_due hs hpid ((boosterTypeForPid_iff hs hne).mp heq) hm
    unfold due at ih hnot ⊢
    rw [List.filter_append, List.map_append, List.filter_append, List.nodup_append]
    refine ⟨ih hn, ?_, ?_⟩
    · apply List.Nodup.filter
      cases he : exited s pid <;> simp [he]
    · intro type hm type' hm'
      simp only [List.mem_filter, List.mem_map, List.mem_singleton] at hm'
      obtain ⟨⟨p, ⟨rfl, -⟩, rfl⟩, -⟩ := hm'
      exact (hnot type hm).symm

theorem reapLoop_swept (hs : Sound s) (hfork : Fresh fork)
    (hfuel : 2 * s.tables.children.length < fuel) :
    ∃ t forked, reapLoop fork fuel 0 s = some t ∧ Swept s s.tables.children [] forked t ∧
      forked.map Prod.fst = due s s.tables.children :=
  (swept_start hs).loop hs hfork rfl rfl hfuel

theorem reapLoop_mono {fuel' : ℕ} (h : reapLoop fork fuel i s = some t) (hle : fuel ≤ fuel') :
    reapLoop fork fuel' i s = some t := by
  induction fuel generalizing i s fuel' with
  | zero => cases h
  | succ fuel ih =>
    obtain ⟨fuel', rfl⟩ : ∃ n, fuel' = n + 1 := ⟨fuel' - 1, by omega⟩
    have hle' : fuel ≤ fuel' := by omega
    unfold reapLoop at h ⊢
    split at h
    · exact h
    · split at h
      · exact ih h hle'
      · rename_i c _ _
        obtain ⟨u, hu, h⟩ := Option.bind_eq_some_iff.mp h
        simp only [hu, Option.bind_some]
        exact ih h hle'
      · exact ih h hle'

theorem passedOn_cases (s : System) (p : Pid) :
    (∃ f, KilledFor s p f ∧ exited s p = true ∧ passedOn s p = [f]) ∨
      (∀ f, ¬ KilledFor s p f) ∧ passedOn s p = [] := by
  unfold passedOn
  cases hc : s.procs p with
  | none =>
    refine .inr ⟨?_, rfl⟩
    rintro f ⟨-, hf, -⟩
    cases hc.symm.trans hf
  | some c =>
    have hother : (∀ signal, c.status ≠ some (.signaled signal)) → ∀ f, ¬ KilledFor s p f := by
      rintro hst f ⟨-, hf, hsig⟩
      obtain rfl := Option.some.inj (hc.symm.trans hf)
      exact hst _ hsig
    cases hv : s.tables.boosterPidToInvokerPid[p]? with
    | none =>
      refine .inr ⟨?_, by simp [forwardsOf, hv]⟩
      rintro f ⟨hf, -, -⟩
      cases hv.symm.trans hf
    | some invoker =>
      cases hst : c.status with
      | none => exact .inr ⟨hother (by simp [hst]), by simp [forwardsOf, hst]⟩
      | some status =>
        cases status with
        | exited code => exact .inr ⟨hother (by simp [hst]), by simp [forwardsOf, hst]⟩
        | signaled signal =>
          refine .inl ⟨⟨invoker, signal, c⟩, ⟨hv, hc, hst⟩, ?_, by simp [forwardsOf, hv, hst]⟩
          simp [exited, hc, hst]

theorem passedOn_once (s : System) (children : List Pid) :
    ∃ killed, killed.Sublist children ∧
      (∀ p ∈ children, p ∈ killed ↔ ∃ f, KilledFor s p f) ∧
      List.Forall₂ (KilledFor s) killed ((children.filter (exited s)).flatMap (passedOn s)) := by
  induction children with
  | nil => exact ⟨[], .slnil, nofun, .nil⟩
  | cons p rest ih =>
    obtain ⟨killed, hsub, hmem, hall⟩ := ih
    obtain ⟨f, hf, he, hp⟩ | ⟨hnone, hp⟩ := passedOn_cases s p
    · refine ⟨p :: killed, hsub.cons_cons p, ?_, ?_⟩
      · intro q hq
        by_cases heq : q = p
        · subst heq
          exact ⟨fun _ ↦ ⟨f, hf⟩, fun _ ↦ List.mem_cons_self⟩
        · rw [List.mem_cons, or_iff_right heq]
          exact hmem q ((List.mem_cons.mp hq).resolve_left heq)
      · rw [List.filter_cons_of_pos he, List.flatMap_cons, hp]
        exact .cons hf hall
    · have hflat : ((p :: rest).filter (exited s)).flatMap (passedOn s) =
          (rest.filter (exited s)).flatMap (passedOn s) := by
        cases he : exited s p <;> simp [he, hp]
      refine ⟨killed, hsub.cons p, ?_, hflat ▸ hall⟩
      intro q hq
      by_cases hr : q ∈ rest
      · exact hmem q hr
      · have heq : q = p := (List.mem_cons.mp hq).resolve_right hr
        constructor
        · exact fun hk ↦ absurd (hsub.mem hk) hr
        · rintro ⟨f, hf⟩
          exact absurd (heq ▸ hf) (hnone f)

theorem Swept.passed_once (h : Swept s s.tables.children [] forked t)
    (hn : s.tables.children.Nodup) :
    ∃ killed sent, t.forwards = s.forwards ++ sent ∧
      killed.Nodup ∧ killed.Sublist s.tables.children ∧
      (∀ p, p ∈ killed ↔ p ∈ s.tables.children ∧ ∃ f, KilledFor s p f) ∧
      List.Forall₂ (KilledFor s) killed sent := by
  obtain ⟨killed, hsub, hmem, hall⟩ := passedOn_once s s.tables.children
  refine ⟨killed, _, h.forwards, hn.sublist hsub, hsub, ?_, hall⟩
  intro p
  constructor
  · exact fun hp ↦ ⟨hsub.mem hp, (hmem p (hsub.mem hp)).mp hp⟩
  · exact fun hp ↦ (hmem p hp.1).mpr hp.2

theorem Swept.reaped (hs : Sound s) (h : Swept s s.tables.children [] forked t)
    (hf : forked.map Prod.fst = due s s.tables.children) : Reaped s forked t where
  children := by rw [h.children, List.append_nil]
  children_nodup := h.nodup
  no_zero := h.no_zero
  types_nodup := hf ▸ due_nodup hs hs.nodup
  types_iff := fun _ ↦ by rw [hf, mem_due hs]
  replaced := fun e he ↦ ⟨h.replaced e he, h.recorded_new e he⟩
  others := h.procs
  recorded_others := h.recorded_old
  invokers := h.invokers
  forwards := h.passed_once hs.nodup
  bootMode := h.bootMode
  pipe := h.pipe
  sigterms := h.sigterms

/-- The call returns, and with more fuel to the same result. -/
theorem reapZombies_exact (hs : Sound s) (hfork : Fresh fork) :
    ∃ t forked, reapZombies fork s = some t ∧
      (∀ fuel, 2 * s.tables.children.length < fuel → reapLoop fork fuel 0 s = some t) ∧
      Reaped s forked t := by
  obtain ⟨t, forked, ht, hswept, hf⟩ := reapLoop_swept hs hfork (Nat.lt_succ_self _)
  refine ⟨t, forked, ht, ?_, hswept.reaped hs hf⟩
  intro fuel hfuel
  exact reapLoop_mono ht hfuel

theorem sound_of_consistent {types : List UInt8} (h : Consistent types [] s) : Sound s where
  nodup := h.children_nodup
  live := fun p hp ↦ (h.children_iff p).mp hp
  no_zero := h.no_zero
  recorded_mem := by
    intro type p hr
    obtain ⟨c, hc, -⟩ := h.booster type List.not_mem_nil p hr
    exact (h.children_iff p).mpr (by rw [hc]; rfl)
  recorded_inj := by
    intro type type' p hr hr'
    obtain ⟨c, hc, rfl⟩ := h.booster type List.not_mem_nil p hr
    obtain ⟨c', hc', rfl⟩ := h.booster type' List.not_mem_nil p hr'
    rw [Option.some.inj (hc.symm.trans hc')]
  key_mem := fun b v hb ↦ (h.children_iff b).mpr (h.invoker_key b v hb)

def lowestFree (s : System) : Pid :=
  (((List.range (2 ^ 32)).map UInt32.ofNat).find? fun p ↦ p ≠ 0 ∧ s.procs p = none).getD 0

theorem lowestFree_fresh : Fresh lowestFree := by
  intro s hex
  obtain ⟨p, hne, hp⟩ := hex
  unfold lowestFree
  cases hf : ((List.range (2 ^ 32)).map UInt32.ofNat).find? fun p ↦ p ≠ 0 ∧ s.procs p = none with
  | none =>
    have hm : p ∈ (List.range (2 ^ 32)).map UInt32.ofNat :=
      List.mem_map.mpr ⟨p.toNat, List.mem_range.mpr p.toNat_lt, UInt32.ofNat_toNat⟩
    have := List.find?_eq_none.mp hf p hm
    simp [hne, hp] at this
  | some q => simpa using List.find?_some hf

/-- Both boosters have launched an application and ended. -/
def readBeforeBothEnd : List Label :=
  [.daemon 10, .daemon 11, .daemon 0, .accept 10 ⟨100, true, 3⟩, .write 10, .daemon 0, .daemon 12,
    .die 10 (.signaled 11), .die 11 (.exited 0), .sigChld]

theorem reaped_readBeforeBothEnd : ∃ w t forked,
    Run step Any (start twoTypes false) readBeforeBothEnd w ∧
      reapZombies lowestFree w.sys = some t ∧ Reaped w.sys forked t := by
  have h : Run step Any (start twoTypes false) readBeforeBothEnd _ := run_of_exec rfl
  have hs := sound_of_consistent (run_consistent (orderly_of_any h))
  obtain ⟨t, forked, ht, -, hr⟩ := reapZombies_exact hs lowestFree_fresh
  exact ⟨_, t, forked, h, ht, hr⟩

end Applauncherd.Launcherlib.ReapZombies
