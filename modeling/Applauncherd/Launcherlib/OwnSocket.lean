import Applauncherd.Launcherlib.SocketDescriptors

namespace Applauncherd.Launcherlib.OwnSocket

open Library.Memory SocketManager SocketDescriptors

structure BoosterPluginEntry where
  type : UInt8
  createFunc : ℕ
  socketName : CString
  temporaryProcessName : CString
  deriving DecidableEq

/-- A type that is registered again gets new functions in its old entry. -/
def registerPlugin (registry : List BoosterPluginEntry) (entry : BoosterPluginEntry) :
    List BoosterPluginEntry :=
  match registry.findIdx? (·.type = entry.type) with
  | some i => registry.set i entry
  | none => registry ++ [entry]

def registerPlugins (entries : List BoosterPluginEntry) : List BoosterPluginEntry :=
  entries.foldl registerPlugin []

theorem registerPlugin_types (registry : List BoosterPluginEntry) (entry : BoosterPluginEntry) :
    (registerPlugin registry entry).map BoosterPluginEntry.type =
      if entry.type ∈ registry.map BoosterPluginEntry.type then
        registry.map BoosterPluginEntry.type
      else registry.map BoosterPluginEntry.type ++ [entry.type] := by
  unfold registerPlugin
  split
  · case _ i hi =>
    obtain ⟨hlt, htype, -⟩ := List.findIdx?_eq_some_iff_getElem.mp hi
    have hi : i < (registry.map BoosterPluginEntry.type).length := by
      rwa [List.length_map]
    have hget : (registry.map BoosterPluginEntry.type)[i] = entry.type := by
      rw [List.getElem_map]
      exact of_decide_eq_true htype
    rw [if_pos (hget ▸ List.getElem_mem hi), List.map_set, ← hget, List.set_getElem_self]
  · case _ hnone =>
    have hnot : entry.type ∉ registry.map BoosterPluginEntry.type := by
      simpa using hnone
    rw [if_neg hnot, List.map_append, List.map_singleton]

theorem registerPlugins_nodup (entries : List BoosterPluginEntry) :
    ((registerPlugins entries).map BoosterPluginEntry.type).Nodup := by
  refine List.foldlRecOn (motive := fun registry ↦ (registry.map BoosterPluginEntry.type).Nodup)
    entries registerPlugin ?_ fun registry h entry _ ↦ ?_
  · exact List.nodup_nil
  · rw [registerPlugin_types]
    split_ifs with hmem
    · exact h
    · exact List.nodup_append_comm.mp (List.nodup_cons.mpr ⟨hmem, h⟩)

variable {P : Type} {s t : State P}

def closeUnusedSockets (registry : List BoosterPluginEntry) (s : State P) (type : UInt8) :
    State P :=
  registry.foldl
    (fun s plugin ↦ if plugin.type ≠ type then closeSocket s plugin.socketName else s) s

/-- The socket of one name is found, and open, and no other. -/
structure KeepsOnly (s : State P) (socketName : CString) : Prop where
  own : ∃ fd ∈ s.openFds, findSocket s socketName = (fd : ℕ)
  noOther : ∀ name, name ≠ socketName → findSocket s name = -1

theorem lookup_closeUnusedSockets (registry : List BoosterPluginEntry) (s : State P)
    (type : UInt8) (name : CString) :
    (closeUnusedSockets registry s type).socketHash.lookup name =
      if ∃ plugin ∈ registry, plugin.type ≠ type ∧ plugin.socketName = name then none
      else s.socketHash.lookup name := by
  induction registry generalizing s with
  | nil => simp [closeUnusedSockets]
  | cons plugin registry ih =>
    rw [closeUnusedSockets, List.foldl_cons, ← closeUnusedSockets, ih]
    by_cases htype : plugin.type = type
    · simp [htype]
    · rw [if_pos htype, lookup_closeSocket]
      by_cases hname : plugin.socketName = name
      · simp [htype, hname]
      · simp [hname, Ne.symm hname]

theorem closeUnusedSockets_inv (registry : List BoosterPluginEntry) (h : Inv s) (type : UInt8) :
    Inv (closeUnusedSockets registry s type) := by
  refine List.foldlRecOn registry _ h fun s hs plugin _ ↦ ?_
  split_ifs
  · exact closeSocket_inv hs plugin.socketName
  · exact hs

variable [DecidableEq P] {k : FileSystem P}

def initBoosterSockets (k : FileSystem P) (socketFd : UInt8 → ℕ) (s : State P)
    (registry : List BoosterPluginEntry) : Option (State P) :=
  registry.foldlM (fun s plugin ↦ initSocket k s plugin.socketName (socketFd plugin.type)) s

theorem initBoosterSockets_spec {socketFd : UInt8 → ℕ} {registry : List BoosterPluginEntry}
    (hinv : Inv s) (h : initBoosterSockets k socketFd s registry = some t) :
    Inv t ∧ ∀ name, name ∈ t.socketHash ↔
      name ∈ registry.map BoosterPluginEntry.socketName ∨ name ∈ s.socketHash := by
  induction registry generalizing s with
  | nil =>
    obtain rfl := Option.some.inj h
    exact ⟨hinv, by simp⟩
  | cons plugin registry ih =>
    rw [initBoosterSockets, List.foldlM_cons] at h
    obtain ⟨u, hu, ht⟩ := Option.bind_eq_some_iff.mp h
    obtain ⟨hinv', hnames⟩ := ih (initSocket_inv hinv hu) ht
    refine ⟨hinv', fun name ↦ ?_⟩
    rw [hnames, mem_initSocket hu, List.map_cons, List.mem_cons]
    tauto

/-- A booster keeps its own socket, and no other, exactly when no plugin of another type
has its socket name. -/
theorem keepsOnly_iff {openFds : Finset ℕ} {present : Name P → Option Bool}
    {socketFd : UInt8 → ℕ} {entries : List BoosterPluginEntry} {plugin : BoosterPluginEntry}
    (hmem : plugin ∈ registerPlugins entries)
    (h : initBoosterSockets k socketFd (start openFds present) (registerPlugins entries) = some t) :
    KeepsOnly (closeUnusedSockets (registerPlugins entries) t plugin.type) plugin.socketName ↔
      ∀ other ∈ registerPlugins entries, other.type ≠ plugin.type →
        other.socketName ≠ plugin.socketName := by
  obtain ⟨hinv, hnames⟩ := initBoosterSockets_spec (start_inv openFds present) h
  have hlookup := lookup_closeUnusedSockets (registerPlugins entries) t plugin.type
  constructor
  case mp =>
    intro hkeeps other hother htype hname
    obtain ⟨fd, -, hfind⟩ := hkeeps.own
    rw [findSocket_eq_iff, hlookup, if_pos ⟨other, hother, htype, hname⟩] at hfind
    cases hfind
  case mpr =>
    intro hdiffer
    constructor
    case own =>
      have hin := (hnames plugin.socketName).mpr
        (.inl (List.mem_map_of_mem hmem))
      obtain ⟨fd, hfd⟩ := Option.isSome_iff_exists.mp (AList.lookup_isSome.mpr hin)
      have hnone : ¬∃ other ∈ registerPlugins entries,
          other.type ≠ plugin.type ∧ other.socketName = plugin.socketName := by
        rintro ⟨other, hother, htype, hname⟩
        exact hdiffer other hother htype hname
      have hkept := hlookup plugin.socketName
      rw [if_neg hnone, hfd] at hkept
      have hinv' := closeUnusedSockets_inv (registerPlugins entries) hinv plugin.type
      exact ⟨fd, (hinv'.held _ (AList.mem_lookup_iff.mp hkept)).1,
        (findSocket_eq_iff _ _ _).mpr hkept⟩
    case noOther =>
      intro name hne
      refine findSocket_eq_neg_one ?_
      rw [hlookup]
      split_ifs with hclosed
      · rfl
      · refine AList.lookup_eq_none.mpr fun hin ↦ ?_
        obtain hin | hin := (hnames name).mp hin
        · obtain ⟨other, hother, rfl⟩ := List.mem_map.mp hin
          refine hclosed ⟨other, hother, fun htype ↦ hne ?_, rfl⟩
          rw [List.inj_on_of_nodup_map (registerPlugins_nodup entries) hother hmem htype]
        · exact absurd hin (AList.notMem_empty _)

def pluginOf (type : UInt8) (socketName : CString) : BoosterPluginEntry :=
  ⟨type, 0, socketName, socketName⟩

def numbers (type : UInt8) : ℕ := if type = 109 then 3 else 4

/-- The type 'm' is registered again, after 'q'. -/
theorem keepsOnly_again :
    ∃ t, initBoosterSockets flat numbers (start {0, 1, 2} fun _ ↦ none)
        (registerPlugins [pluginOf 109 slashA, pluginOf 113 slashA, pluginOf 109 slashB]) = some t ∧
      KeepsOnly (closeUnusedSockets
        (registerPlugins [pluginOf 109 slashA, pluginOf 113 slashA, pluginOf 109 slashB]) t 109)
        slashB := by
  have hinit : initBoosterSockets flat numbers (start {0, 1, 2} fun _ ↦ none)
      (registerPlugins [pluginOf 109 slashA, pluginOf 113 slashA, pluginOf 109 slashB]) =
        some _ := rfl
  have hmem : pluginOf 109 slashB ∈
      registerPlugins [pluginOf 109 slashA, pluginOf 113 slashA, pluginOf 109 slashB] := by
    decide
  exact ⟨_, hinit, (keepsOnly_iff hmem hinit).mpr (by decide)⟩

/-- Two types with one socket: a booster of either closes it. -/
theorem not_keepsOnly_shared :
    ∃ t, initBoosterSockets flat numbers (start {0, 1, 2} fun _ ↦ none)
        (registerPlugins [pluginOf 109 slashA, pluginOf 113 slashA]) = some t ∧
      ∀ type ∈ [109, 113], ¬KeepsOnly (closeUnusedSockets
        (registerPlugins [pluginOf 109 slashA, pluginOf 113 slashA]) t type) slashA := by
  have hinit : initBoosterSockets flat numbers (start {0, 1, 2} fun _ ↦ none)
      (registerPlugins [pluginOf 109 slashA, pluginOf 113 slashA]) = some _ := rfl
  refine ⟨_, hinit, fun type htype hkeeps ↦ ?_⟩
  obtain ⟨fd, -, hfd⟩ := hkeeps.own
  have hother : ∃ plugin ∈ registerPlugins [pluginOf 109 slashA, pluginOf 113 slashA],
      plugin.type ≠ type ∧ plugin.socketName = slashA := by
    obtain rfl | htype := List.mem_cons.mp htype
    · decide
    · obtain rfl := List.mem_singleton.mp htype
      decide
  rw [findSocket_eq_iff, lookup_closeUnusedSockets, if_pos hother] at hfd
  cases hfd

end Applauncherd.Launcherlib.OwnSocket
