import Applauncherd.Launcherlib.Argv

namespace Applauncherd.Launcherlib.RequestIds

open Library Library.Environ Protocol ReadSocket Receive Sections Magic Argv Invoker.Send

variable {s : Socket} {gid uid : UInt32} {proc : Process} {app : AppData}

def WordArrives (s : Socket) : Prop :=
  ∃ cells, (s.transfer 4).1 = .ok cells ∧ cells.length = 4

/-- The sections that `receiveActions` reads from a socket on, each with the
socket that its body is read from. -/
inductive Occurs : Socket → UInt32 → Socket → Prop
  | here (s : Socket) : Occurs s (recvMsg s).2.1 (recvMsg s).2.2
  | later {s : Socket} {action : UInt32} {body : Socket} :
      (readSection s).1.verdict = none → Occurs (readSection s).2 action body →
      Occurs s action body

def IdsReceived (s : Socket) (uid gid : UInt32) : Prop :=
  ∃ body, Occurs s invokerMsgIds body ∧ WordArrives body ∧ WordArrives (recvMsg body).2.2 ∧
    (recvMsg body).2.1 = uid ∧ (recvMsg (recvMsg body).2.2).2.1 = gid

def ids : Section → Option (UInt32 × UInt32)
  | .ids uid gid => some (uid, gid)
  | _ => none

def LastIdsReceived (s : Socket) : Prop :=
  ∃ uid gid, last ids (request s).1 = some (uid, gid) ∧ IdsReceived (header s).2 uid gid

structure IdsFromRequest (s : Socket) (proc : Process) (app app' : AppData) : Prop where
  received : IdsReceived (header s).2 app'.uid app'.gid
  independent : ∀ gid uid,
    let app₂ := (receiveApplicationData app (Connection.accepted s gid uid proc)).2.1
    app₂.uid = app'.uid ∧ app₂.gid = app'.gid

theorem run_ids (secs : List Section) (c : Connection) :
    ((run secs c).uid, (run secs c).gid) = (last ids secs).getD (c.uid, c.gid) := by
  refine run_last (g := fun c ↦ (c.uid, c.gid)) (fun sec c ↦ ?_) secs c
  rcases sec with (_ | _) | _ | _ | _ | _ | (_ | _) | _ | _ | _ <;>
    simp [Section.apply, ids, takeFiles_eq, acknowledge_eq]

theorem received_ids (h : (receiveApplicationData app (Connection.accepted s gid uid proc)).1 = true) :
    let app' := (receiveApplicationData app (Connection.accepted s gid uid proc)).2.1
    (app'.uid, app'.gid) = (last ids (request s).1).getD (uid, gid) := by
  rw [receiveApplicationData_eq] at h ⊢
  split_ifs at h ⊢
  exact run_ids _ _

/-- A stream without an IDS section leaves the ids as the memory happened to be. -/
theorem ids_from_request_iff
    (h : (receiveApplicationData app (Connection.accepted s gid uid proc)).1 = true) :
    IdsFromRequest s proc app
        (receiveApplicationData app (Connection.accepted s gid uid proc)).2.1 ↔
      LastIdsReceived s := by
  have hall : ∀ g u, (receiveApplicationData app (Connection.accepted s g u proc)).1 = true :=
    fun g u ↦ (accepted_iff s g u proc app).mpr ((accepted_iff s gid uid proc app).mp h)
  have hids := received_ids h
  generalize (receiveApplicationData app (Connection.accepted s gid uid proc)).2.1 = app' at hids ⊢
  cases hl : last ids (request s).1 with
  | none =>
    refine ⟨fun hp ↦ ?_, fun hl' ↦ ?_⟩
    · -- Two runs with different memory contents launch with different users.
      have h0 := received_ids (hall 0 0)
      have h1 := received_ids (hall 0 1)
      rw [hl] at h0 h1
      have huid := (hp.independent 0 0).1.trans (hp.independent 0 1).1.symm
      have heq : (0 : UInt32) = 1 :=
        (congrArg Prod.fst h0).symm.trans (huid.trans (congrArg Prod.fst h1))
      exact absurd heq (by decide)
    · obtain ⟨u, g, hlast, -⟩ := hl'
      rw [hl] at hlast
      cases hlast
  | some words =>
    obtain ⟨u, g⟩ := words
    rw [hl, Option.getD_some, Prod.mk.injEq] at hids
    obtain ⟨rfl, rfl⟩ := hids
    refine ⟨fun hp ↦ ⟨_, _, hl, hp.received⟩, fun hl' ↦ ⟨?_, fun g u ↦ ?_⟩⟩
    · obtain ⟨u, g, hlast, hr⟩ := hl'
      rw [hl, Option.some.injEq, Prod.mk.injEq] at hlast
      obtain ⟨rfl, rfl⟩ := hlast
      exact hr
    · have h2 := received_ids (hall g u)
      rw [hl, Option.getD_some, Prod.mk.injEq] at h2
      exact h2

/-- MAGIC, NAME "a", EXEC "/a" and ARGS "a", perhaps with the user 5 and the group
6, and END. -/
def shortRequest (withIds : Bool) : Socket :=
  whole (invokerSendMagic 0 ++ invokerSendName [97] ++ invokerSendExec [47, 97] ++
    invokerSendArgs [[97]] ++ (if withIds then invokerSendIds 5 6 else []) ++ invokerSendEnd)

theorem ids_from_shortRequest : IdsFromRequest (shortRequest true) ⟨1, [], []⟩ AppData.new
    (receiveApplicationData AppData.new
      (Connection.accepted (shortRequest true) 0 0 ⟨1, [], []⟩)).2.1 := by
  refine (ids_from_request_iff (by decide)).mpr ⟨5, 6, by decide, ?_⟩
  exact ⟨_, .later rfl (.later rfl (.here _)), ⟨_, rfl, rfl⟩, ⟨_, rfl, rfl⟩, rfl, rfl⟩

theorem ids_from_memory : ¬∀ s gid uid proc app,
    (receiveApplicationData app (Connection.accepted s gid uid proc)).1 = true →
      IdsFromRequest s proc app
        (receiveApplicationData app (Connection.accepted s gid uid proc)).2.1 := by
  intro hall
  have h := hall (shortRequest false) 0 0 ⟨1, [], []⟩ AppData.new (by decide)
  exact absurd (h.independent 0 1000).1 (by decide)

end Applauncherd.Launcherlib.RequestIds
