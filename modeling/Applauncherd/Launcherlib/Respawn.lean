import Applauncherd.Launcherlib.Attribution

namespace Applauncherd.Launcherlib.Respawn

open Library.Transition Tables MainLoop Effects Consistency Attribution

variable {types hole : List UInt8} {s : System}

def Waiting (s : System) (type : UInt8) (p : Pid) : Prop :=
  ∃ c, s.procs p = some c ∧ c.type = type ∧ c.stage = .waiting ∧ c.status = none

structure Settled (s : System) : Prop where
  pipe : s.pipe = []
  alive : ∀ p c, s.procs p = some c → c.status = none
  written : ∀ p c r, s.procs p = some c → c.stage ≠ .accepted r

/-- A type has at most one waiting booster, and when all is settled the one that
is recorded. -/
structure OneWaiting (registry : Registry) (w : World) : Prop where
  unique : ∀ type p q, Waiting w.sys type p → Waiting w.sys type q → p = q
  recorded : Phase.todo w.phase = [] → Settled w.sys → ∀ type ∈ registry.types,
    ∃ p, w.sys.tables.boosterTypeToPid[type]? = some p ∧ Waiting w.sys type p

theorem waiting_unique (h : Clean hole s) {type : UInt8} {p q : Pid} (hp : Waiting s type p)
    (hq : Waiting s type q) : p = q := by
  obtain ⟨c, hc, rfl, hstage, -⟩ := hp
  obtain ⟨d, hd, htype, hstage', -⟩ := hq
  have hcn : ¬Child.Launched c := by
    intro hl
    obtain ⟨r, hr⟩ := hl
    rw [hstage] at hr
    cases hr
  have hdn : ¬Child.Launched d := by
    intro hl
    obtain ⟨r, hr⟩ := hl
    rw [hstage'] at hr
    cases hr
  have hrp := (h.waiting p c hc hcn).2
  have hrq := (h.waiting q d hd hdn).2
  rw [htype] at hrq
  exact Option.some.inj (hrp.symm.trans hrq)

theorem recorded_waiting (h : Consistent types [] s) (hs : Settled s) {type : UInt8}
    (hm : type ∈ types) : ∃ p, recorded s type = some p ∧ Waiting s type p := by
  obtain ⟨p, hp⟩ := Option.isSome_iff_exists.mp (h.forked type hm List.not_mem_nil)
  obtain ⟨c, hc, rfl⟩ := h.booster type List.not_mem_nil p hp
  refine ⟨p, hp, c, hc, rfl, ?_, hs.alive p c hc⟩
  cases hstage : c.stage with
  | waiting => rfl
  | accepted r => exact absurd hstage (hs.written p c r hc)
  | launched r =>
    obtain ⟨k, hk, -⟩ := h.unread _ List.not_mem_nil p c hp hc ⟨r, hstage⟩
    rw [hs.pipe] at hk
    cases hk

/-- Every type has its one waiting booster in every state of a run in which
messages are read in turn. -/
theorem oneWaiting {registry : Registry} {bootMode : Bool} {labels : List Label} {w : World}
    (h : RunInTurn registry bootMode labels w) : OneWaiting registry w := by
  refine ⟨fun type p q hp hq ↦ waiting_unique (run_clean h) hp hq, fun htodo hs type hm ↦ ?_⟩
  have hcons := run_consistent h
  rw [htodo] at hcons
  exact recorded_waiting hcons hs hm

theorem oneWaiting_readBeforeCrash :
    ∃ w, RunInTurn twoTypes false readBeforeCrash w ∧ OneWaiting twoTypes w := by
  have h : RunInTurn twoTypes false readBeforeCrash _ := run_of_exec rfl
  exact ⟨_, h, oneWaiting h⟩

theorem two_waiting :
    ¬∀ labels w, Run step Any (start twoTypes false) labels w → OneWaiting twoTypes w := by
  intro hall
  have h : Run step Any (start twoTypes false) crashBeforeRead _ := run_of_exec rfl
  have heq : (13 : Pid) = 14 := (hall _ _ h).unique 109 13 14
    ⟨⟨109, false, 2, .waiting, none⟩, rfl, rfl, rfl, rfl⟩
    ⟨⟨109, false, 3, .waiting, none⟩, rfl, rfl, rfl, rfl⟩
  revert heq
  decide

end Applauncherd.Launcherlib.Respawn
