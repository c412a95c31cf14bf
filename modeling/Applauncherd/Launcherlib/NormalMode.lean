import Applauncherd.Launcherlib.Attribution

namespace Applauncherd.Launcherlib.NormalMode

open Library.Transition Tables MainLoop Effects Consistency Attribution

variable {types : List UInt8} {s : System}

def isAccepted : Stage → Bool
  | .accepted _ => true
  | _ => false

def NotLaunching (s : System) (type : UInt8) : Prop :=
  ∀ p ∈ recorded s type, (∀ c ∈ s.procs p, isAccepted c.stage = false) ∧
    ∀ k ∈ s.pipe, k.sender = p → k.message.type ≠ type

instance (s : System) (type : UInt8) : Decidable (NotLaunching s type) :=
  Option.decidableForallMem _

def Spared (k : Sigterm) : Prop := ∃ c, k.child = some c ∧ c.stage = .waiting

theorem recorded_not_launching (h : Consistent types [] s) {type : UInt8}
    (hn : NotLaunching s type) {p : Pid} (hp : recorded s type = some p) :
    ∃ c, s.procs p = some c ∧ c.stage = .waiting := by
  obtain ⟨c, hc, -⟩ := h.booster type List.not_mem_nil p hp
  obtain ⟨haccepted, hpipe⟩ := hn p hp
  refine ⟨c, hc, ?_⟩
  cases hstage : c.stage with
  | waiting => rfl
  | accepted r =>
    have := haccepted c hc
    rw [hstage] at this
    cases this
  | launched r =>
    obtain ⟨k, hk, hks, hkt⟩ := h.unread type List.not_mem_nil p c hp hc ⟨r, hstage⟩
    exact absurd hkt (hpipe k hk hks)

theorem killBooster_spared (h : Consistent types [] s) {type : UInt8} (hn : NotLaunching s type)
    (hs : ∀ k ∈ s.sigterms, Spared k) : ∀ k ∈ (s.killBooster type).sigterms, Spared k := by
  simp only [System.killBooster]
  split_ifs with hp
  · intro k hk
    obtain hk | hk := List.mem_append.mp hk
    · exact hs k hk
    · rw [List.mem_singleton.mp hk]
      cases hr : recorded s type with
      | none =>
        simp only [recorded] at hr
        simp [boosterPidForType, hr] at hp
      | some p =>
        have hpid : boosterPidForType s.tables type = p := by
          simp only [recorded] at hr
          simp [boosterPidForType, hr]
        rw [hpid]
        exact recorded_not_launching h hn hr
  · exact hs

theorem effect_spared {reapOk : System → Pid → Prop} {todo todo' : List UInt8} {t : System}
    (h : Consistent types todo s) (he : Effect reapOk NotLaunching todo s todo' t)
    (hs : ∀ k ∈ s.sigterms, Spared k) : ∀ k ∈ t.sigterms, Spared k := by
  obtain hsame | ⟨rfl, type, hok, rfl⟩ := effect_sigterms he
  · rwa [hsame]
  · exact killBooster_spared h hok hs

/-- A run in which a booster that is killed is not launching an application. -/
abbrev RunNotLaunching (registry : Registry) (bootMode : Bool) : List Label → World → Prop :=
  Run step (Orderly (fun _ _ ↦ True) NotLaunching) (start registry bootMode)

/-- Only boosters that wait are sent SIGTERM in such a run. -/
theorem applications_spared {registry : Registry} {bootMode : Bool} {labels : List Label}
    {w : World} (h : RunNotLaunching registry bootMode labels w) :
    ∀ k ∈ w.sys.sigterms, Spared k := by
  refine (run_preserves (fun _ s ↦ ∀ k ∈ s.sigterms, Spared k) ?_ ?_ h).2
  · intro todo s todo' t he hs hspared
    exact effect_spared hs he hspared
  · simp [start]

def readBeforeSigUsr1 : List Label :=
  [.daemon 10, .daemon 11, .daemon 0, .accept 10 ⟨100, true, 3⟩, .write 10, .daemon 0, .daemon 12,
    .daemon 0, .daemon 0, .daemon 0, .sigUsr1, .daemon 0, .daemon 0, .daemon 0, .daemon 0,
    .daemon 0, .daemon 0, .daemon 0]

theorem spared_readBeforeSigUsr1 : ∃ w, RunNotLaunching twoTypes true readBeforeSigUsr1 w ∧
    w.sys.sigterms.length = 2 ∧ ∀ k ∈ w.sys.sigterms, Spared k := by
  have h : RunNotLaunching twoTypes true readBeforeSigUsr1 _ := run_of_exec rfl
  exact ⟨_, h, rfl, applications_spared h⟩

def sigUsr1BeforeRead : List Label :=
  [.daemon 10, .daemon 11, .daemon 0, .accept 10 ⟨100, true, 3⟩, .write 10,
    .accept 11 ⟨200, true, 3⟩, .write 11, .sigUsr1, .daemon 0, .daemon 12, .daemon 0, .daemon 0,
    .daemon 0, .daemon 0, .daemon 0]

/-- One message is read before SIGUSR1 is served, and the other application is
killed. -/
theorem application_killed : ¬∀ labels w, Run step Any (start twoTypes true) labels w →
    ∀ k ∈ w.sys.sigterms, Spared k := by
  intro hall
  have h : Run step Any (start twoTypes true) sigUsr1BeforeRead _ := run_of_exec rfl
  obtain ⟨c, hc, hw⟩ := hall _ _ h ⟨11, some ⟨113, true, 0, .launched ⟨200, true, 3⟩, none⟩⟩
    (.tail _ (.head _))
  cases hc
  cases hw

end Applauncherd.Launcherlib.NormalMode
