import Applauncherd.Launcherlib.SocketManager

namespace Applauncherd.Launcherlib.SocketAddresses

open Library.Environ Library.Memory Library.Transition SocketManager

variable {P : Type} {s t : State P} {k k' : FileSystem P}

/-- The socket that `invoker_init` connects to, where every user may write to it. -/
def invokerInit (k' : FileSystem P) (s : State P) (socketId : CString) : Option ℕ :=
  match s.names (k'.name (address (sunPath socketId))) with
  | some (.socket fd true) => if fd ∈ s.openFds then some fd else none
  | _ => none

/-- Each socket is bound at its own path, and an invoker finds it there. -/
structure Agree (k k' : FileSystem P) (s : State P) : Prop where
  exact : ∀ i ∈ s.inits, i.bound = .path i.socketId.1
  apart : ∀ i ∈ s.inits, ∀ j ∈ s.inits, i.socketId ≠ j.socketId → k.name i.bound ≠ k.name j.bound
  sameFile : ∀ i ∈ s.inits, i.bound = .path i.unlinked ∧ i.bound = .path i.chmoded
  connects : ∀ socketId fd, findSocket s socketId = (fd : ℕ) → invokerInit k' s socketId = some fd

def Uncontested (k : FileSystem P) (s : State P) (socketId : CString) : Prop :=
  socketId ∉ s.socketHash → address (saData socketId) = .path socketId.1 ∧
    ∀ i ∈ s.inits, k.name i.bound ≠ k.name (address (saData socketId))

/-- The names fit into `sa_data`, and are names of different files, the same for the
invoker as for the daemon. -/
structure Fits (k k' : FileSystem P) (socketIds : List CString) : Prop where
  short : ∀ socketId ∈ socketIds, 1 ≤ socketId.1.length ∧ socketId.1.length ≤ 13
  common : ∀ socketId ∈ socketIds, k'.resolve socketId.1 = k.resolve socketId.1
  apart : ∀ a ∈ socketIds, ∀ b ∈ socketIds, a ≠ b → k.resolve a.1 ≠ k.resolve b.1

def FitsBeside (k : FileSystem P) (socketIds : List CString) (socketId : CString) : Prop :=
  socketId ∉ socketIds → (1 ≤ socketId.1.length ∧ socketId.1.length ≤ 13) ∧
    ∀ a ∈ socketIds, k.resolve a.1 ≠ k.resolve socketId.1

theorem cstr_strncpy (src : CString) (n : ℕ) : cstr (strncpy src n ++ [0]) = src.1.take n := by
  have hzero : List.replicate (n - src.1.length) (0 : UInt8) ++ [0] =
      0 :: List.replicate (n - src.1.length) 0 := by
    rw [← List.replicate_succ', List.replicate_succ]
  rw [strncpy, List.append_assoc, hzero]
  exact cstr_append_nul (fun h ↦ src.2 (List.mem_of_mem_take h)) _

theorem address_strncpy (socketId : CString) {n : ℕ} (hn : 0 < n) :
    address (strncpy socketId n ++ [0]) = .path socketId.1 ↔
      1 ≤ socketId.1.length ∧ socketId.1.length ≤ n := by
  obtain ⟨m, rfl⟩ : ∃ m, n = m + 1 := ⟨n - 1, by omega⟩
  rw [address, cstr_strncpy]
  obtain ⟨_ | ⟨c, cs⟩, hid⟩ := socketId
  · simp [strncpy, List.replicate_succ]
  · have hc : c ≠ 0 := fun h ↦ hid (h ▸ List.mem_cons_self)
    have hhead : (strncpy ⟨c :: cs, hid⟩ (m + 1) ++ [0]).head? ≠ some 0 := by
      simpa [strncpy] using hc
    rw [if_neg hhead, Address.path.injEq, List.take_eq_self_iff]
    exact (and_iff_right (Nat.le_add_left 1 cs.length)).symm

theorem address_saData_iff (socketId : CString) :
    address (saData socketId) = .path socketId.1 ↔
      1 ≤ socketId.1.length ∧ socketId.1.length ≤ 13 :=
  address_strncpy socketId (by decide)

theorem address_sunPath {socketId : CString}
    (h : 1 ≤ socketId.1.length ∧ socketId.1.length ≤ 13) :
    address (sunPath socketId) = .path socketId.1 :=
  (address_strncpy socketId (by decide)).mpr ⟨h.1, by omega⟩

theorem Fits.mono {socketIds socketIds' : List CString} (h : Fits k k' socketIds')
    (hsub : socketIds ⊆ socketIds') : Fits k k' socketIds where
  short a ha := h.short a (hsub ha)
  common a ha := h.common a (hsub ha)
  apart a ha b hb := h.apart a (hsub ha) b (hsub hb)

theorem Fits.address_saData {socketIds : List CString} (h : Fits k k' socketIds)
    {socketId : CString} (hid : socketId ∈ socketIds) :
    address (saData socketId) = .path socketId.1 :=
  (address_saData_iff socketId).mpr (h.short socketId hid)

theorem invokerInit_eq_some {socketId : CString} {fd : ℕ} (h : invokerInit k' s socketId = some fd) :
    s.names (k'.name (address (sunPath socketId))) = some (.socket fd true) := by
  unfold invokerInit at h
  split at h
  · case _ fd' hnode =>
    split_ifs at h
    obtain rfl := Option.some.inj h
    exact hnode
  · cases h

variable [DecidableEq P]

theorem unlink_eq_some {names : Name P → Option Node} {path : Str} {n : Name P} {node : Node}
    (h : unlink k names path n = some node) : names n = some node := by
  unfold unlink at h
  split_ifs at h with hp
  · exact h
  · by_cases hn : n = .file (k.resolve path)
    · rw [hn, Function.update_self] at h
      cases h
    · rwa [Function.update_of_ne hn] at h

theorem unlink_of_ne {names : Name P → Option Node} {path : Str} {n : Name P}
    (hn : n ≠ .file (k.resolve path)) : unlink k names path n = names n := by
  unfold unlink
  split_ifs
  · rfl
  · exact Function.update_of_ne hn _ _

theorem chmod_eq_socket {names : Name P → Option Node} {path : Str} {n : Name P} {fd : ℕ}
    {everyone : Bool} (h : chmod k names path n = some (.socket fd everyone)) :
    ∃ everyone', names n = some (.socket fd everyone') := by
  unfold chmod at h
  split_ifs at h with hp
  · exact ⟨everyone, h⟩
  · by_cases hn : n = .file (k.resolve path)
    · rw [hn, Function.update_self, Option.map_eq_some_iff] at h
      obtain ⟨node, hnode, hchmod⟩ := h
      rw [hn]
      cases node with
      | socket fd' everyone' =>
        obtain ⟨rfl, -⟩ := Node.socket.inj hchmod
        exact ⟨everyone', hnode⟩
      | directory => cases hchmod
      | other => cases hchmod
    · rw [Function.update_of_ne hn] at h
      exact ⟨everyone, h⟩

theorem chmod_of_ne {names : Name P → Option Node} {path : Str} {n : Name P}
    (hn : n ≠ .file (k.resolve path)) : chmod k names path n = names n := by
  unfold chmod
  split_ifs
  · rfl
  · exact Function.update_of_ne hn _ _

theorem chmod_self {names : Name P → Option Node} {path : Str} {node : Node} (hp : path ≠ [])
    (hnode : names (.file (k.resolve path)) = some node) :
    chmod k names path (.file (k.resolve path)) = some node.chmod := by
  rw [chmod, if_neg hp, Function.update_self, hnode]
  rfl

structure Inv (k : FileSystem P) (socketIds : List CString) (s : State P) : Prop where
  logged : ∀ i ∈ s.inits, i.bound = address (saData i.socketId) ∧
    i.unlinked = i.socketId.1 ∧ i.chmoded = i.socketId.1
  entered : ∀ socketId fd, s.socketHash.lookup socketId = some fd ↔
    ∃ i ∈ s.inits, i.socketId = socketId ∧ i.fd = fd
  isOpen : ∀ i ∈ s.inits, i.fd ∈ s.openFds
  once : ∀ i ∈ s.inits, ∀ j ∈ s.inits, i.fd = j.fd → i = j
  sockets : ∀ n fd everyone, s.names n = some (.socket fd everyone) →
    ∃ i ∈ s.inits, i.fd = fd ∧ k.name i.bound = n
  asked : ∀ socketId, socketId ∈ socketIds ↔ ∃ i ∈ s.inits, i.socketId = socketId

omit [DecidableEq P] in
theorem start_inv (openFds : Finset ℕ) (present : Name P → Option Bool) :
    Inv k [] (start openFds present) where
  logged := nofun
  entered _ _ := ⟨nofun, nofun⟩
  isOpen := nofun
  once := nofun
  sockets n fd everyone h := by
    obtain ⟨directory, -, hnode⟩ := Option.map_eq_some_iff.mp h
    cases directory <;> cases hnode
  asked _ := ⟨nofun, nofun⟩

theorem initSocket_inv {socketIds : List CString} (h : Inv k socketIds s) {socketId : CString}
    {fd : ℕ} (ht : initSocket k s socketId fd = some t) : Inv k (socketIds ++ [socketId]) t := by
  obtain ⟨hmem, rfl⟩ | ⟨hnew, hfd, -, rfl⟩ := initSocket_cases ht
  · obtain ⟨fd', hlookup⟩ := Option.isSome_iff_exists.mp (AList.lookup_isSome.mpr hmem)
    obtain ⟨i, hi, hid, -⟩ := (h.entered socketId fd').mp hlookup
    refine ⟨h.logged, h.entered, h.isOpen, h.once, h.sockets, fun a ↦ ?_⟩
    rw [List.mem_append, List.mem_singleton, h.asked]
    constructor
    · intro ha
      obtain ha | rfl := ha
      · exact ha
      · exact ⟨i, hi, hid⟩
    · exact .inl
  · constructor
    case logged =>
      intro i hi
      obtain hi | hi := List.mem_append.mp hi
      · exact h.logged i hi
      · obtain rfl := List.mem_singleton.mp hi
        exact ⟨rfl, rfl, rfl⟩
    case entered =>
      intro a fd'
      simp only [List.mem_append, List.mem_singleton, or_and_right, exists_or, exists_eq_left]
      rw [← h.entered]
      by_cases ha : a = socketId
      · rw [ha, AList.lookup_insert, Option.some.injEq, AList.lookup_eq_none.mpr hnew]
        simp
      · rw [AList.lookup_insert_ne ha]
        simp [Ne.symm ha]
    case isOpen =>
      intro i hi
      obtain hi | hi := List.mem_append.mp hi
      · exact Finset.mem_insert_of_mem (h.isOpen i hi)
      · obtain rfl := List.mem_singleton.mp hi
        exact Finset.mem_insert_self _ _
    case once =>
      have hother : ∀ i ∈ s.inits, i.fd ≠ fd := fun i hi heq ↦ hfd (heq ▸ h.isOpen i hi)
      intro i hi j hj hij
      obtain hi | hi := List.mem_append.mp hi <;> obtain hj | hj := List.mem_append.mp hj
      · exact h.once i hi j hj hij
      · obtain rfl := List.mem_singleton.mp hj
        exact absurd hij (hother i hi)
      · obtain rfl := List.mem_singleton.mp hi
        exact absurd hij.symm (hother j hj)
      · exact (List.mem_singleton.mp hi).trans (List.mem_singleton.mp hj).symm
    case sockets =>
      intro n fd' everyone hn
      obtain ⟨everyone', hn⟩ := chmod_eq_socket hn
      by_cases hbound : n = k.name (address (saData socketId))
      · rw [hbound, Function.update_self] at hn
        obtain ⟨rfl, -⟩ := Node.socket.inj (Option.some.inj hn)
        exact ⟨_, List.mem_append_right _ (List.mem_singleton_self _), rfl, hbound.symm⟩
      · rw [Function.update_of_ne hbound] at hn
        obtain ⟨i, hi, hrest⟩ := h.sockets n fd' everyone' (unlink_eq_some hn)
        exact ⟨i, List.mem_append_left _ hi, hrest⟩
    case asked =>
      intro a
      simp only [List.mem_append, List.mem_singleton, h.asked, or_and_right, exists_or,
        exists_eq_left]
      rw [eq_comm]

def requests (calls : List (CString × ℕ)) : List Label :=
  calls.map fun c ↦ .initSocket c.1 c.2

theorem run_inv {openFds : Finset ℕ} {present : Name P → Option Bool}
    {calls : List (CString × ℕ)}
    (h : Run (step k) Any (start openFds present) (requests calls) t) :
    Inv k (calls.map Prod.fst) t := by
  induction calls using List.reverseRecOn generalizing t with
  | nil =>
    cases h
    exact start_inv openFds present
  | append_singleton calls c ih =>
    rw [requests, List.map_append] at h
    obtain ⟨u, hu, -, ht⟩ := h.last
    rw [List.map_append]
    exact initSocket_inv (ih hu) ht

def InPlace (k : FileSystem P) (s : State P) : Prop :=
  ∀ i ∈ s.inits, s.names (k.name i.bound) = some (.socket i.fd true)

theorem initSocket_inPlace {socketIds : List CString} {socketId : CString} {fd : ℕ}
    (hfits : Fits k k' (socketIds ++ [socketId])) (hinv : Inv k socketIds s) (h : InPlace k s)
    (ht : initSocket k s socketId fd = some t) : InPlace k t := by
  have hbound := hfits.address_saData (List.mem_append_right _ (List.mem_singleton_self socketId))
  obtain ⟨-, rfl⟩ | ⟨hnew, -, hnone, rfl⟩ := initSocket_cases ht
  · exact h
  · intro i hi
    dsimp only
    rw [hbound]
    obtain hi | hi := List.mem_append.mp hi
    · have hasked := (hinv.asked i.socketId).mpr ⟨i, hi, rfl⟩
      have hne : i.socketId ≠ socketId := by
        intro heq
        have hlookup := (hinv.entered socketId i.fd).mpr ⟨i, hi, heq, rfl⟩
        rw [AList.lookup_eq_none.mpr hnew] at hlookup
        cases hlookup
      have hfile : k.name i.bound ≠ .file (k.resolve socketId.1) := by
        rw [(hinv.logged i hi).1, hfits.address_saData (List.mem_append_left _ hasked)]
        intro heq
        exact hfits.apart _ (List.mem_append_left _ hasked) _
          (List.mem_append_right _ (List.mem_singleton_self _)) hne (Name.file.inj heq)
      rw [chmod_of_ne hfile, FileSystem.name, Function.update_of_ne hfile, unlink_of_ne hfile]
      exact h i hi
    · obtain rfl := List.mem_singleton.mp hi
      have hlen := (hfits.short _
        (List.mem_append_right _ (List.mem_singleton_self socketId))).1
      rw [hbound, FileSystem.name]
      exact chmod_self (List.ne_nil_of_length_pos hlen) (Function.update_self _ _ _)

theorem run_inPlace {openFds : Finset ℕ} {present : Name P → Option Bool}
    {calls : List (CString × ℕ)} (hfits : Fits k k' (calls.map Prod.fst))
    (h : Run (step k) Any (start openFds present) (requests calls) t) : InPlace k t := by
  induction calls using List.reverseRecOn generalizing t with
  | nil =>
    cases h
    nofun
  | append_singleton calls c ih =>
    rw [requests, List.map_append] at h
    rw [List.map_append] at hfits
    obtain ⟨u, hu, -, ht⟩ := h.last
    exact initSocket_inPlace hfits (run_inv hu)
      (ih (hfits.mono (List.subset_append_left _ _)) hu) ht

theorem agree {openFds : Finset ℕ} {present : Name P → Option Bool}
    {calls : List (CString × ℕ)} (hfits : Fits k k' (calls.map Prod.fst))
    (h : Run (step k) Any (start openFds present) (requests calls) t) : Agree k k' t := by
  have hinv := run_inv h
  have hasked : ∀ i ∈ t.inits, i.socketId ∈ calls.map Prod.fst := fun i hi ↦
    (hinv.asked i.socketId).mpr ⟨i, hi, rfl⟩
  have hexact : ∀ i ∈ t.inits, i.bound = .path i.socketId.1 := fun i hi ↦
    (hinv.logged i hi).1.trans (hfits.address_saData (hasked i hi))
  refine ⟨hexact, ?_, ?_, ?_⟩
  case refine_1 =>
    intro i hi j hj hne heq
    rw [hexact i hi, hexact j hj] at heq
    exact hfits.apart _ (hasked i hi) _ (hasked j hj) hne (Name.file.inj heq)
  case refine_2 =>
    intro i hi
    obtain ⟨-, hunlinked, hchmoded⟩ := hinv.logged i hi
    rw [hunlinked, hchmoded]
    exact ⟨hexact i hi, hexact i hi⟩
  case refine_3 =>
    intro socketId fd hfind
    obtain ⟨i, hi, rfl, rfl⟩ := (hinv.entered _ _).mp ((findSocket_eq_iff _ _ _).mp hfind)
    have hsun := address_sunPath (hfits.short _ (hasked i hi))
    have hnode := run_inPlace hfits h i hi
    rw [hexact i hi, FileSystem.name, ← hfits.common _ (hasked i hi)] at hnode
    rw [invokerInit, hsun, FileSystem.name, hnode]
    exact if_pos (hinv.isOpen i hi)

theorem fits_of_agree {openFds : Finset ℕ} {present : Name P → Option Bool}
    {calls : List (CString × ℕ)} (hagree : Agree k k' t)
    (h : Run (step k) Any (start openFds present) (requests calls) t) :
    Fits k k' (calls.map Prod.fst) := by
  have hinv := run_inv h
  have hmade : ∀ socketId ∈ calls.map Prod.fst, ∃ i ∈ t.inits, i.socketId = socketId :=
    fun socketId ↦ (hinv.asked socketId).mp
  have hshort : ∀ i ∈ t.inits, 1 ≤ i.socketId.1.length ∧ i.socketId.1.length ≤ 13 :=
    fun i hi ↦ (address_saData_iff i.socketId).mp
      ((hinv.logged i hi).1.symm.trans (hagree.exact i hi))
  constructor
  case short =>
    intro socketId hid
    obtain ⟨i, hi, rfl⟩ := hmade socketId hid
    exact hshort i hi
  case common =>
    intro socketId hid
    obtain ⟨i, hi, rfl⟩ := hmade socketId hid
    have hsun := address_sunPath (hshort i hi)
    have hfind : findSocket t i.socketId = (i.fd : ℕ) :=
      (findSocket_eq_iff _ _ _).mpr ((hinv.entered _ _).mpr ⟨i, hi, rfl, rfl⟩)
    have hnode := invokerInit_eq_some (hagree.connects _ _ hfind)
    obtain ⟨j, hj, hfd, hname⟩ := hinv.sockets _ _ _ hnode
    obtain rfl := hinv.once j hj i hi hfd
    rw [hsun, hagree.exact j hj] at hname
    exact (Name.file.inj hname).symm
  case apart =>
    intro a ha b hb hne
    obtain ⟨i, hi, rfl⟩ := hmade a ha
    obtain ⟨j, hj, rfl⟩ := hmade b hb
    have hnames := hagree.apart i hi j hj hne
    rw [hagree.exact i hi, hagree.exact j hj] at hnames
    exact fun heq ↦ hnames (congrArg Name.file heq)

theorem uncontested_iff {openFds : Finset ℕ} {present : Name P → Option Bool}
    {calls : List (CString × ℕ)} (hagree : Agree k k' t)
    (h : Run (step k) Any (start openFds present) (requests calls) t) (socketId : CString) :
    Uncontested k t socketId ↔ FitsBeside k (calls.map Prod.fst) socketId := by
  have hinv := run_inv h
  have hentered : socketId ∈ t.socketHash ↔ socketId ∈ calls.map Prod.fst := by
    rw [hinv.asked, ← AList.lookup_isSome, Option.isSome_iff_exists]
    simp [hinv.entered]
  rw [Uncontested, FitsBeside, hentered, address_saData_iff]
  refine imp_congr_right fun _ ↦ and_congr_right fun hshort ↦ ?_
  rw [(address_saData_iff socketId).mpr hshort]
  constructor
  · intro hname a ha heq
    obtain ⟨i, hi, rfl⟩ := (hinv.asked a).mp ha
    refine hname i hi ?_
    rw [hagree.exact i hi]
    exact congrArg Name.file heq
  · intro hfile i hi heq
    rw [hagree.exact i hi] at heq
    exact hfile _ ((hinv.asked i.socketId).mpr ⟨i, hi, rfl⟩) (Name.file.inj heq)

/-- Daemon and invoker agree exactly on names that fit. The process may die in the call
that is current. -/
theorem agree_iff {openFds : Finset ℕ} {present : Name P → Option Bool}
    {calls : List (CString × ℕ)}
    (h : Run (step k) Any (start openFds present) (requests calls) t) (current : Option CString) :
    (Agree k k' t ∧ ∀ socketId ∈ current, Uncontested k t socketId) ↔
      Fits k k' (calls.map Prod.fst) ∧
        ∀ socketId ∈ current, FitsBeside k (calls.map Prod.fst) socketId := by
  have hreached : Agree k k' t ↔ Fits k k' (calls.map Prod.fst) :=
    ⟨fun hagree ↦ fits_of_agree hagree h, fun hfits ↦ agree hfits h⟩
  rw [← hreached]
  refine and_congr_right fun hagree ↦ ?_
  simp only [uncontested_iff hagree h]

/-- "/tmp/boostm" -/
def tmpBoostm : CString := ⟨[47, 116, 109, 112, 47, 98, 111, 111, 115, 116, 109], by decide⟩

/-- "/tmp/boostq" -/
def tmpBoostq : CString := ⟨[47, 116, 109, 112, 47, 98, 111, 111, 115, 116, 113], by decide⟩

theorem agree_boosters :
    ∃ t, Run (step flat) Any (start {0, 1, 2} fun _ ↦ none)
        (requests [(tmpBoostm, 3), (tmpBoostm, 4)]) t ∧
      Agree flat flat t ∧ ∀ socketId ∈ some tmpBoostq, Uncontested flat t socketId := by
  have hrun : Run (step flat) Any (start {0, 1, 2} fun _ ↦ none)
      (requests [(tmpBoostm, 3), (tmpBoostm, 4)]) _ := run_of_exec rfl
  refine ⟨_, hrun, (agree_iff hrun (some tmpBoostq)).mpr ⟨?_, ?_⟩⟩
  · exact ⟨by decide, fun _ _ ↦ rfl, by decide⟩
  · intro socketId hcurrent hnew
    obtain rfl := Option.some.inj hcurrent
    exact ⟨by decide, by decide⟩

/-- "/tmp/boost-aa" with another letter. -/
def tmpBoostAa (letter : UInt8) (h : letter ≠ 0) : CString :=
  ⟨[47, 116, 109, 112, 47, 98, 111, 111, 115, 116, 45, 97, 97, letter], by simp [h.symm]⟩

/-- The letter that tells two names apart is past the end of `sa_data`: the first socket is
bound at another path than its own, and the second one at no path. -/
theorem not_agree_long :
    ∃ t, Run (step flat) Any (start {0, 1, 2} fun _ ↦ none)
        (requests [(tmpBoostAa 97 (by decide), 3)]) t ∧
      ¬Agree flat flat t ∧ step flat t (.initSocket (tmpBoostAa 98 (by decide)) 4) = none := by
  have hrun : Run (step flat) Any (start {0, 1, 2} fun _ ↦ none)
      (requests [(tmpBoostAa 97 (by decide), 3)]) _ := run_of_exec rfl
  refine ⟨_, hrun, fun hagree ↦ ?_, rfl⟩
  exact absurd (hagree.exact _ (List.mem_singleton_self _)) (by decide)

end Applauncherd.Launcherlib.SocketAddresses
