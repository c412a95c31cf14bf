import Applauncherd.MBooster.EventHandler

namespace Applauncherd.MBooster.Orphans

open Library.Transition EventHandler

variable {eventLoop : Bool} {old : Disposition} {b b' : Booster} {a : Label} {l : List Label}
  {h h' : Handler}

def Leaving : Stage → Prop
  | .forked | .starting | .accepting | .runEventLoop | .listening _ => False
  | .exec h => h.sighup = true
  | _ => True

/-- The news of the daemon's death has come, or is still to come. -/
def Noticed (b : Booster) : Prop :=
  b.daemonAlive = false → b.early = true ∨ b.pending = true ∨ Leaving b.stage

theorem Noticed.move (hn : Noticed b) {action : Disposition} {stage : Stage}
    (hs : Leaving b.stage → Leaving stage) :
    Noticed { b with stage := stage, action := action } := by
  intro hd
  obtain h | h | h := hn hd
  · exact .inl h
  · exact .inr (.inl h)
  · exact .inr (.inr (hs h))

theorem mainStep_noticed (hn : Noticed b) (hs : mainStep eventLoop old b = some b') :
    Noticed b' := by
  unfold mainStep at hs
  cases hst : b.stage <;> rw [hst] at hs <;> try cases hs
  case forked =>
    intro hd
    obtain h | h | h := hn hd
    · exact .inl h
    · exact .inr (.inl h)
    · rw [hst] at h
      cases h
  case starting => exact hn.move fun h ↦ by rw [hst] at h; cases h
  case runEventLoop => exact hn.move fun h ↦ by rw [hst] at h; cases h
  case quitting h => exact hn.move fun _ ↦ trivial
  case left h => exact hn.move fun _ ↦ trivial
  case restored h =>
    refine hn.move fun _ ↦ ?_
    split_ifs <;> trivial
  case received thread => exact fun _ ↦ .inr (.inr trivial)

theorem atHandler_noticed (hn : Noticed b) {stage : Handler → Stage} (hst : b.stage = stage h)
    (hkeep : ∀ h', h'.sighup = h.sighup → Leaving (stage h) → Leaving (stage h'))
    (hs : atHandler b stage h a = some b') : Noticed b' := by
  obtain ⟨h', hh', rfl⟩ := Option.map_eq_some_iff.mp hs
  exact hn.move fun hl ↦ hkeep h' (handlerStep_frame hh').2 (hst ▸ hl)

theorem stageStep_noticed (hn : Noticed b) (hs : stageStep b a = some b') : Noticed b' := by
  have hloop : ∀ {stage : Handler → Stage} {h : Handler}, b.stage = stage h →
      (∀ h', h'.sighup = h.sighup → Leaving (stage h) → Leaving (stage h')) →
      atLoop b stage h a = some b' → Noticed b' := by
    intro stage h hst hkeep hs
    unfold atLoop at hs
    split_ifs at hs
    · cases hs
      exact hn.move fun _ ↦ trivial
    · exact atHandler_noticed hn hst hkeep hs
  unfold stageStep at hs
  cases hst : b.stage <;> rw [hst] at hs <;> try cases hs
  case accepting =>
    cases a <;> cases hs
    exact hn.move fun h ↦ by rw [hst] at h; cases h
  case listening h =>
    dsimp only at hs
    split at hs
    · cases hs
      exact hn.move fun h ↦ by rw [hst] at h; cases h
    · exact atHandler_noticed hn hst (fun _ _ hl ↦ hl.elim) hs
  case exec h =>
    dsimp only at hs
    split at hs
    · split_ifs at hs
      cases hs
      exact hn.move fun _ ↦ trivial
    · exact hloop hst (fun h' hsig hl ↦ hsig.trans hl) hs
  case quitting h => exact hloop hst (fun _ _ _ ↦ trivial) hs
  case left h => exact atHandler_noticed hn hst (fun _ _ _ ↦ trivial) hs
  case restored h => exact atHandler_noticed hn hst (fun _ _ _ ↦ trivial) hs
  case receiving thread =>
    cases a <;> cases hs
    refine hn.move fun _ ↦ ?_
    split_ifs <;> trivial

theorem deliver_leaving (ho : Orderly .default b) : Leaving (deliver b).stage := by
  have hat := ho.stage
  unfold deliver
  split
  · trivial
  · rfl
  · trivial
  · trivial
  · rename_i hdefault hexec _ _
    change Leaving b.stage
    cases hst : b.stage <;> rw [hst] at hat <;> try trivial
    case listening h => exact (hdefault hat.1).elim
    case exec h =>
      have hact := hat.2.action
      split_ifs at hact
      · exact (hexec h hact hst).elim
      · exact (hdefault hact).elim

theorem daemonDies_noticed (ho : Orderly .default b) (hex : b.stage ≠ .exited) :
    Noticed (daemonDies b) := by
  have hpd := ho.pdeathsig hex
  intro _
  by_cases hforked : b.stage = .forked
  · exact .inl (decide_eq_true hforked)
  · by_cases hasks : b.stage.asks = true
    · exact .inr (.inl (hpd.trans hasks))
    · refine .inr (.inr ?_)
      change Leaving b.stage
      cases hst : b.stage with
      | application thread => trivial
      | forked => exact absurd hst hforked
      | _ =>
        rw [hst] at hasks
        exact absurd rfl hasks

theorem step_noticed (ho : Orderly .default b) (hn : Noticed b)
    (hs : step eventLoop .default b a = some b') : Noticed b' := by
  obtain ⟨hex, ⟨-, hs⟩ | ⟨-, -, rfl⟩ | ⟨-, -, rfl⟩ | hs⟩ := step_cases hs
  · exact mainStep_noticed hn hs
  · exact fun _ ↦ .inr (.inr (deliver_leaving ho))
  · exact daemonDies_noticed ho hex
  · exact stageStep_noticed hn hs

def rank : Stage → ℕ
  | .forked => 8
  | .starting => 7
  | .runEventLoop => 6
  | .listening _ => 5
  | .exec _ => 4
  | .quitting _ => 3
  | .left _ => 2
  | .restored _ | .received _ => 1
  | .accepting | .receiving _ | .application _ | .exited => 0

def toEmit (h : Handler) : ℕ :=
  match h.acceptor with
  | .returned _ => 1
  | _ => 0

def stageToEmit : Stage → ℕ
  | .listening h | .exec h | .quitting h | .left h | .restored h => toEmit h
  | _ => 0

def remaining (b : Booster) : ℕ := rank b.stage + stageToEmit b.stage + b.pending.toNat

theorem toEmit_le (h : Handler) : toEmit h ≤ 1 := by
  unfold toEmit
  split <;> omega

theorem mainStep_remaining (hs : mainStep eventLoop old b = some b') : remaining b' < remaining b := by
  unfold mainStep at hs
  cases hst : b.stage <;> rw [hst] at hs <;> try cases hs
  case starting => cases eventLoop <;> simp [remaining, hst, rank, stageToEmit]
  case restored h =>
    split_ifs
    · simp only [remaining, hst, rank, stageToEmit]
      omega
    · simp only [remaining, hst, rank, stageToEmit]
      omega
  all_goals simp [remaining, hst, rank, stageToEmit, toEmit]

theorem atHandler_remaining {stage : Handler → Stage} (hst : b.stage = stage h)
    (hrank : ∀ h, rank (stage h) = rank b.stage) (hemit : ∀ h, stageToEmit (stage h) = toEmit h)
    (ha : Own b a) (hs : atHandler b stage h a = some b') : remaining b' < remaining b := by
  obtain ⟨h', hh', rfl⟩ := Option.map_eq_some_iff.mp hs
  cases a <;> try cases ha
  case emit =>
    obtain ⟨ok, hok, rfl⟩ := emitSignal_some hh'
    have hone : stageToEmit b.stage = 1 := by rw [hst, hemit, toEmit, hok]
    have hzero : stageToEmit (stage { h with acceptor := .done ok, quitPosted := true }) = 0 := hemit _
    simp [remaining, hrank, hone, hzero]
  all_goals cases hh'

theorem atLoop_remaining {stage : Handler → Stage} (hst : b.stage = stage h)
    (hrank : ∀ h, rank (stage h) = rank b.stage) (hemit : ∀ h, stageToEmit (stage h) = toEmit h)
    (hpos : 0 < rank b.stage) (ha : Own b a) (hs : atLoop b stage h a = some b') :
    remaining b' < remaining b := by
  unfold atLoop at hs
  split_ifs at hs
  · cases hs
    change 0 + 0 + b.pending.toNat < rank b.stage + stageToEmit b.stage + b.pending.toNat
    omega
  · exact atHandler_remaining hst hrank hemit ha hs

theorem stageStep_remaining (ha : Own b a) (hs : stageStep b a = some b') :
    remaining b' < remaining b := by
  unfold stageStep at hs
  cases hst : b.stage <;> rw [hst] at hs <;> try cases hs
  case accepting =>
    cases a <;> cases hs
    cases ha
  case listening h =>
    dsimp only at hs
    split at hs
    · cases hs
      simp [remaining, hst, rank, stageToEmit, toEmit]
    · exact atHandler_remaining hst (fun _ ↦ by rw [hst]; rfl) (fun _ ↦ rfl) ha hs
  case exec h =>
    dsimp only at hs
    split at hs
    · split_ifs at hs
      cases hs
      simp [remaining, hst, rank, stageToEmit, toEmit]
    · exact atLoop_remaining hst (fun _ ↦ by rw [hst]; rfl) (fun _ ↦ rfl) (by rw [hst]; exact Nat.succ_pos _) ha hs
  case quitting h =>
    exact atLoop_remaining hst (fun _ ↦ by rw [hst]; rfl) (fun _ ↦ rfl) (by rw [hst]; exact Nat.succ_pos _) ha hs
  case left h => exact atHandler_remaining hst (fun _ ↦ by rw [hst]; rfl) (fun _ ↦ rfl) ha hs
  case restored h => exact atHandler_remaining hst (fun _ ↦ by rw [hst]; rfl) (fun _ ↦ rfl) ha hs
  case receiving thread =>
    cases a <;> cases hs
    cases ha

theorem deliver_remaining (hp : b.pending = true) : remaining (deliver b) < remaining b := by
  unfold deliver
  split
  · simp [remaining, hp, rank, stageToEmit]
  · rename_i h _ hst
    simp [remaining, hp, hst, rank, stageToEmit, toEmit]
  · rename_i h _ hst
    simp [remaining, hp, hst, rank, stageToEmit, toEmit]
  · rename_i h _ hst
    simp [remaining, hp, hst, rank, stageToEmit, toEmit]
  · simp [remaining, hp]

theorem own_remaining (ha : Own b a) (hs : step eventLoop old b a = some b') :
    remaining b' < remaining b := by
  obtain ⟨-, ⟨-, hs⟩ | ⟨-, hp, rfl⟩ | ⟨rfl, -, -⟩ | hs⟩ := step_cases hs
  · exact mainStep_remaining hs
  · exact deliver_remaining hp
  · cases ha
  · exact stageStep_remaining ha hs

def AtRest (eventLoop : Bool) (old : Disposition) (b : Booster) : Prop :=
  ∀ a, Own b a → step eventLoop old b a = none

def Waits (b : Booster) : Prop := b.stage = .accepting ∨ ∃ h, b.stage = .exec h

theorem AtRest.pending (hr : AtRest eventLoop old b) (hex : b.stage ≠ .exited) :
    b.pending = false := by
  have hd := hr .deliver trivial
  rw [step, if_neg hex] at hd
  simpa using hd

theorem AtRest.early (hr : AtRest eventLoop old b) (ho : Orderly .default b) (hn : Noticed b)
    (hd : b.daemonAlive = false) (hw : Waits b) : b.early = true := by
  have hex : b.stage ≠ .exited := by
    obtain hst | ⟨h, hst⟩ := hw <;> simp [hst]
  obtain he | hp | hl := hn hd
  · exact he
  · rw [hr.pending hex] at hp
    cases hp
  · obtain hst | ⟨h, hst⟩ := hw
    · rw [hst] at hl
      cases hl
    · have hat := ho.stage
      rw [hst] at hl hat
      have hsig : h.sighup = true := hl
      have hhup := hr .handleSigHup trivial
      simp [step, stageStep, atLoop, loopStep, hst, hsig, hat.2.bytes hsig] at hhup

def Unvisited : Label → Prop
  | .connect _ | .themeChange => False
  | _ => True

/-- A booster that is on the way to wait for an invoker that does not come. -/
def SecludedAt : Stage → Prop
  | .forked | .starting | .accepting | .runEventLoop => True
  | .listening h | .exec h =>
    h.acceptor = .accepting ∧ h.quitPosted = false ∧ h.themeChanged = false ∧ h.sighup = false
  | _ => False

def Secluded (b : Booster) : Prop :=
  b.early = true → b.daemonAlive = false ∧ b.pending = false ∧ SecludedAt b.stage

theorem handlerStep_secluded (hacc : h.acceptor = .accepting) (ha : Unvisited a) :
    handlerStep h a = none := by
  cases a <;> try cases ha
  case emit => simp [handlerStep, emitSignal, hacc]
  all_goals rfl

theorem atHandler_frame {stage : Handler → Stage} (hs : atHandler b stage h a = some b') :
    b' = { b with stage := b'.stage, action := b'.action } := by
  obtain ⟨h', -, rfl⟩ := Option.map_eq_some_iff.mp hs
  rfl

theorem stageStep_frame (hs : stageStep b a = some b') :
    b' = { b with stage := b'.stage, action := b'.action } := by
  have hloop : ∀ {stage : Handler → Stage} {h : Handler}, atLoop b stage h a = some b' →
      b' = { b with stage := b'.stage, action := b'.action } := by
    intro stage h hs
    unfold atLoop at hs
    split_ifs at hs
    · cases hs
      rfl
    · exact atHandler_frame hs
  unfold stageStep at hs
  cases hst : b.stage <;> rw [hst] at hs <;> try cases hs
  case accepting => cases a <;> cases hs; rfl
  case listening h =>
    dsimp only at hs
    split at hs
    · cases hs
      rfl
    · exact atHandler_frame hs
  case exec h =>
    dsimp only at hs
    split at hs
    · split_ifs at hs
      cases hs
      rfl
    · exact hloop hs
  case quitting h => exact hloop hs
  case left h => exact atHandler_frame hs
  case restored h => exact atHandler_frame hs
  case receiving thread => cases a <;> cases hs; rfl

theorem stageStep_secluded (hsec : SecludedAt b.stage) (ha : Unvisited a)
    (hs : stageStep b a = some b') : SecludedAt b'.stage := by
  unfold stageStep at hs
  cases hst : b.stage <;> rw [hst] at hs hsec <;> try exact hsec.elim
  case accepting =>
    cases a <;> cases hs
    cases ha
  case listening h =>
    obtain ⟨hacc, hquit, htheme, hsig⟩ := hsec
    dsimp only at hs
    split at hs
    · cases hs
      exact ⟨hacc, hquit, htheme, hsig⟩
    · simp [atHandler, handlerStep_secluded hacc ha] at hs
  case exec h =>
    obtain ⟨hacc, hquit, htheme, hsig⟩ := hsec
    have hloop : loopStep h a = false := by cases a <;> simp [loopStep, htheme, hsig]
    dsimp only at hs
    split at hs
    · simp [hquit] at hs
    · simp [atLoop, hloop, atHandler, handlerStep_secluded hacc ha] at hs
  all_goals cases hs

theorem mainStep_secluded (hsec : SecludedAt b.stage) (hs : mainStep eventLoop old b = some b') :
    SecludedAt b'.stage := by
  unfold mainStep at hs
  cases hst : b.stage <;> rw [hst] at hs hsec <;> try exact hsec.elim
  case forked =>
    cases hs
    trivial
  case starting =>
    cases hs
    cases eventLoop <;> trivial
  case runEventLoop =>
    cases hs
    exact ⟨rfl, rfl, rfl, rfl⟩
  all_goals cases hs

theorem mainStep_frame (hs : mainStep eventLoop old b = some b') :
    b'.early = b.early ∧ b'.daemonAlive = b.daemonAlive ∧ b'.pending = b.pending := by
  unfold mainStep at hs
  split at hs <;> cases hs <;> exact ⟨rfl, rfl, rfl⟩

theorem deliver_early (b : Booster) : (deliver b).early = b.early := by
  unfold deliver
  split <;> rfl

theorem step_secluded (ho : Orderly old b) (hsec : Secluded b) (ha : Unvisited a)
    (hs : step eventLoop old b a = some b') : Secluded b' := by
  intro he
  obtain ⟨hex, ⟨-, hs⟩ | ⟨-, hp, rfl⟩ | ⟨-, halive, rfl⟩ | hs⟩ := step_cases hs
  · obtain ⟨hearly, hdead, hpend⟩ := mainStep_frame hs
    rw [hearly] at he
    obtain ⟨hd, hp, hst⟩ := hsec he
    exact ⟨hdead.trans hd, hpend.trans hp, mainStep_secluded hst hs⟩
  · rw [deliver_early] at he
    rw [(hsec he).2.1] at hp
    cases hp
  · have hforked : b.stage = .forked := of_decide_eq_true he
    have hpd : b.pdeathsig = false := by
      rw [ho.pdeathsig hex, hforked]
      rfl
    refine ⟨rfl, hpd, ?_⟩
    change SecludedAt b.stage
    rw [hforked]
    trivial
  · have hframe := stageStep_frame hs
    rw [hframe] at he
    obtain ⟨hd, hp, hst⟩ := hsec he
    have hst' := stageStep_secluded hst ha hs
    rw [hframe]
    exact ⟨hd, hp, hst'⟩

theorem AtRest.waits (hr : AtRest eventLoop old b) (hst : SecludedAt b.stage) : Waits b := by
  have hmain := hr .main trivial
  have hpair := hr (.socketpair true) trivial
  cases hstage : b.stage <;> rw [hstage] at hst <;> try exact hst.elim
  case accepting => exact .inl hstage
  case exec h => exact .inr ⟨h, hstage⟩
  case listening h => simp [step, stageStep, hstage] at hpair
  all_goals simp [step, mainStep, hstage] at hmain

theorem start_secluded (old : Disposition) : Secluded (start old) := nofun

/-- When the daemon has died a booster comes to rest within ten steps of its own,
whatever has happened before. It is then left waiting for an invoker only if the
daemon died before the child had asked for the signal, and in that case it is
left waiting if nobody comes. -/
theorem orphan_at_rest (hr : Run (step eventLoop .default) Any (start .default) l b)
    (hd : b.daemonAlive = false) :
    (∀ m c, Run (step eventLoop .default) Own b m c → m.length ≤ 10) ∧
      (AtRest eventLoop .default b → Waits b → b.early = true) ∧
      (AtRest eventLoop .default b → (∀ a ∈ l, Unvisited a) → b.early = true → Waits b) := by
  have hnot : Disposition.default ≠ .hupSignalHandler := nofun
  have hinv : Orderly .default b ∧ Noticed b :=
    hr.invariant (fun b ↦ Orderly .default b ∧ Noticed b)
      (fun _ _ _ h _ hs ↦ ⟨step_orderly hnot h.1 hs, step_noticed h.1 h.2 hs⟩)
      ⟨start_orderly _, nofun⟩
  refine ⟨?_, ?_, ?_⟩
  · intro m c hm
    have hle := hm.length_le_measure remaining fun _ _ _ ha hs ↦ own_remaining ha hs
    have hrank : rank b.stage ≤ 8 := by cases b.stage <;> simp [rank]
    have hemit : stageToEmit b.stage ≤ 1 := by
      cases b.stage <;> simp [stageToEmit, toEmit_le]
    have hpend : b.pending.toNat ≤ 1 := b.pending.toNat_le
    simp only [remaining] at hle
    omega
  · exact fun hrest hw ↦ hrest.early hinv.1 hinv.2 hd hw
  · intro hrest hl he
    have hsec : Orderly .default b ∧ Secluded b :=
      (hr.restrict hl).invariant (fun b ↦ Orderly .default b ∧ Secluded b)
        (fun _ _ _ h ha hs ↦ ⟨step_orderly hnot h.1 hs, step_secluded h.1 h.2 ha hs⟩)
        ⟨start_orderly _, start_secluded _⟩
    exact hrest.waits (hsec.2 he).2.2

theorem orphan_at_rest_early : ∃ b, Run (step true .default) Any (start .default)
      [.daemonDies, .main, .main, .main, .socketpair true] b ∧
    (∀ m c, Run (step true .default) Own b m c → m.length ≤ 10) ∧
      (AtRest true .default b → Waits b → b.early = true) ∧
      (AtRest true .default b →
        (∀ a ∈ ([.daemonDies, .main, .main, .main, .socketpair true] : List Label), Unvisited a) →
        b.early = true → Waits b) := by
  have hr : Run (step true .default) Any (start .default)
      [.daemonDies, .main, .main, .main, .socketpair true]
      ⟨.exec ⟨.accepting, false, false, true, false⟩, false, true, true, false,
        .hupSignalHandler⟩ := run_of_exec rfl
  exact ⟨_, hr, orphan_at_rest hr rfl⟩

end Applauncherd.MBooster.Orphans
