import Applauncherd.Launcherlib.BoosterPipe

namespace Applauncherd.Launcherlib

abbrev Tables.Pid := UInt32

structure Tables where
  bootMode : Bool
  children : List Tables.Pid
  boosterPidToInvokerPid : Std.TreeMap Tables.Pid Tables.Pid
  -- a map of `char`, which is signed on x86: types from 128 on would come first
  -- there, but all types are ASCII letters
  boosterTypeToPid : Std.TreeMap UInt8 Tables.Pid

end Applauncherd.Launcherlib

namespace Applauncherd.Launcherlib.Tables

open BoosterPipe

def boosterSleepTime : UInt32 := 2

def setPidToBooster (t : Tables) (type : UInt8) (pid : Pid) : Tables :=
  { t with boosterTypeToPid := t.boosterTypeToPid.insert type pid }

/-- The first type that the pid is recorded for, or 0. -/
def boosterTypeForPid (t : Tables) (pid : Pid) : UInt8 :=
  ((t.boosterTypeToPid.toList.find? fun entry ↦ entry.2 == pid).map Prod.fst).getD 0

def boosterPidForType (t : Tables) (type : UInt8) : Pid :=
  (t.boosterTypeToPid[type]?).getD 0

/-- The daemon's side of `forkBooster`, where `fork` has returned `newPid`. -/
def forkBooster (t : Tables) (type : UInt8) (newPid : Pid) : Tables :=
  let t := setPidToBooster t type 0
  let t := { t with children := t.children ++ [newPid] }
  setPidToBooster t type newPid

def storeInvoker (t : Tables) (msg : Message) : Tables :=
  if msg.invokerPid ≠ 0 ∧ boosterPidForType t msg.type ≠ 0 then
    { t with boosterPidToInvokerPid :=
        t.boosterPidToInvokerPid.insert (boosterPidForType t msg.type) msg.invokerPid }
  else t

/-- `reapZombies` once the child at an index has been waited for. -/
def buryChild (t : Tables) (i : ℕ) (pid : Pid) : Tables :=
  { t with
    children := t.children.eraseIdx i
    boosterPidToInvokerPid := t.boosterPidToInvokerPid.erase pid }

theorem recorded_setPidToBooster (t : Tables) (type type' : UInt8) (pid : Pid) :
    (setPidToBooster t type pid).boosterTypeToPid[type']? =
      if type = type' then some pid else t.boosterTypeToPid[type']? := by
  simp [setPidToBooster, Std.TreeMap.getElem?_insert]

@[simp] theorem recorded_forkBooster (t : Tables) (type type' : UInt8) (newPid : Pid) :
    (forkBooster t type newPid).boosterTypeToPid[type']? =
      if type = type' then some newPid else t.boosterTypeToPid[type']? := by
  simp only [forkBooster, recorded_setPidToBooster]
  split_ifs <;> rfl

@[simp] theorem invokers_buryChild (t : Tables) (i : ℕ) (pid b : Pid) :
    (buryChild t i pid).boosterPidToInvokerPid[b]? =
      if pid = b then none else t.boosterPidToInvokerPid[b]? := by
  simp [buryChild, Std.TreeMap.getElem?_erase]

theorem kept_buryChild {t : Tables} {i : ℕ} {pid b v : Pid}
    (h : (buryChild t i pid).boosterPidToInvokerPid[b]? = some v) :
    b ≠ pid ∧ t.boosterPidToInvokerPid[b]? = some v := by
  rw [invokers_buryChild] at h
  split_ifs at h with hb
  exact ⟨Ne.symm hb, h⟩

theorem storeInvoker_eq (t : Tables) (msg : Message) :
    (storeInvoker t msg).boosterTypeToPid = t.boosterTypeToPid ∧
      (storeInvoker t msg).children = t.children ∧
      (storeInvoker t msg).bootMode = t.bootMode := by
  unfold storeInvoker
  split_ifs <;> exact ⟨rfl, rfl, rfl⟩

theorem invokers_storeInvoker {t : Tables} {msg : Message} {b v : Pid}
    (h : (storeInvoker t msg).boosterPidToInvokerPid[b]? = some v) :
    t.boosterPidToInvokerPid[b]? = some v ∨
      msg.invokerPid = v ∧ v ≠ 0 ∧ t.boosterTypeToPid[msg.type]? = some b := by
  unfold storeInvoker boosterPidForType at h
  split_ifs at h with hc
  · obtain ⟨hv, hb⟩ := hc
    rw [Std.TreeMap.getElem?_insert] at h
    split_ifs at h with he
    · right
      cases hr : t.boosterTypeToPid[msg.type]? with
      | none => simp [hr] at hb
      | some p =>
        rw [hr, Option.getD_some] at he
        obtain rfl : p = b := Std.LawfulEqOrd.eq_of_compare he
        obtain rfl := Option.some.inj h
        exact ⟨rfl, hv, rfl⟩
    · exact .inl h
  · exact .inl h

theorem boosterTypeForPid_eq {t : Tables} {type : UInt8} {pid : Pid}
    (h : t.boosterTypeToPid[type]? = some pid)
    (hinj : ∀ type' : UInt8, t.boosterTypeToPid[type']? = some pid → type' = type) :
    boosterTypeForPid t pid = type := by
  unfold boosterTypeForPid
  cases hf : t.boosterTypeToPid.toList.find? fun entry ↦ entry.2 == pid with
  | none =>
    have hm := Std.TreeMap.mem_toList_iff_getElem?_eq_some.mpr h
    have := List.find?_eq_none.mp hf _ hm
    simp at this
  | some entry =>
    have hm := Std.TreeMap.mem_toList_iff_getElem?_eq_some.mp (List.mem_of_find?_eq_some hf)
    have hp : entry.2 = pid := by simpa using List.find?_some hf
    rw [hp] at hm
    exact hinj entry.1 hm

theorem boosterTypeForPid_none {t : Tables} {pid : Pid}
    (h : ∀ type : UInt8, t.boosterTypeToPid[type]? ≠ some pid) : boosterTypeForPid t pid = 0 := by
  unfold boosterTypeForPid
  rw [List.find?_eq_none.mpr]
  · rfl
  · intro entry hm
    have hr := Std.TreeMap.mem_toList_iff_getElem?_eq_some.mp hm
    simpa using fun hp : entry.2 = pid ↦ h entry.1 (hp ▸ hr)

end Applauncherd.Launcherlib.Tables
