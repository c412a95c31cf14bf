import Applauncherd.Launcherlib.SocketManager

namespace Applauncherd.Launcherlib.SocketDescriptors

open Library.Memory Library.Transition SocketManager

variable {P : Type} {s t : State P}

def values (s : State P) : List ℕ := s.socketHash.entries.map Sigma.snd

def made (s : State P) : List ℕ := s.inits.map Init.fd

def lastMade (s : State P) (fd : ℕ) : Option CString :=
  (s.inits.reverse.find? (·.fd = fd)).map Init.socketId

/-- No descriptor is closed more often than it was made, and it is open as long as
its socket is found. -/
structure Sound (s : State P) : Prop where
  once : ∀ fd, s.closed.count fd ≤ (made s).count fd
  openWhile : ∀ fd socketId, lastMade s fd = some socketId →
    (fd ∈ s.openFds ↔ findSocket s socketId = fd)

/-- `closeAllSockets` leaves number 0 open, so that it must not be that of a
socket. -/
def NoZero (s : State P) (a : Label) : Prop :=
  a = .closeAllSockets → ∀ socketId, findSocket s socketId ≠ 0

def AllClosed (s : State P) : Prop := ∀ fd ∈ made s, fd ∉ s.openFds

structure Inv (s : State P) : Prop where
  held : ∀ e ∈ s.socketHash.entries, e.2 ∈ s.openFds ∧ lastMade s e.2 = some e.1
  isOpen : ∀ fd ∈ made s, fd ∈ s.openFds → fd ∈ values s
  count : ∀ fd, s.closed.count fd + (values s).count fd = (made s).count fd

theorem mem_values_iff (s : State P) (fd : ℕ) :
    fd ∈ values s ↔ ∃ socketId, findSocket s socketId = fd := by
  simp only [findSocket_eq_iff, ← Option.mem_def, AList.mem_lookup_iff, values, List.mem_map]
  constructor
  · intro h
    obtain ⟨⟨socketId, fd'⟩, he, rfl⟩ := h
    exact ⟨socketId, he⟩
  · intro h
    obtain ⟨socketId, he⟩ := h
    exact ⟨_, he, rfl⟩

theorem noZero_iff (s : State P) (a : Label) :
    NoZero s a ↔ (a = .closeAllSockets → 0 ∉ values s) := by
  rw [NoZero, mem_values_iff, not_exists]
  rfl

instance (s : State P) (a : Label) : Decidable (NoZero s a) :=
  decidable_of_iff _ (noZero_iff s a).symm

theorem lastMade_mem {fd : ℕ} {socketId : CString} (h : lastMade s fd = some socketId) :
    fd ∈ made s := by
  obtain ⟨i, hi, -⟩ := Option.map_eq_some_iff.mp h
  have hfd := List.find?_some hi
  exact List.mem_map.mpr ⟨i, List.mem_reverse.mp (List.mem_of_find?_eq_some hi), of_decide_eq_true hfd⟩

theorem Inv.sound (h : Inv s) : Sound s := by
  constructor
  case once =>
    intro fd
    have := h.count fd
    omega
  case openWhile =>
    intro fd socketId hlast
    constructor
    · intro hopen
      obtain ⟨e, he, rfl⟩ := List.mem_map.mp (h.isOpen fd (lastMade_mem hlast) hopen)
      rw [(h.held e he).2] at hlast
      obtain rfl := Option.some.inj hlast
      exact (findSocket_eq_iff _ _ _).mpr (AList.mem_lookup_iff.mpr he)
    · intro hfind
      have he := AList.mem_lookup_iff.mp ((findSocket_eq_iff _ _ _).mp hfind)
      exact (h.held _ he).1

theorem start_inv (openFds : Finset ℕ) (present : Name P → Option Bool) : Inv (start openFds present) :=
  ⟨nofun, nofun, fun _ ↦ rfl⟩

theorem closeAllSockets_inv (h : Inv s) (hz : NoZero s .closeAllSockets) :
    Inv (closeAllSockets s) := by
  have hall : (values s).filter (0 < ·) = values s := by
    refine List.filter_eq_self.mpr fun fd hfd ↦ decide_eq_true ?_
    obtain ⟨socketId, hfind⟩ := (mem_values_iff s fd).mp hfd
    have := hz rfl socketId
    omega
  have hs : closeAllSockets s = { s.close (values s) with socketHash := ∅ } := by
    rw [closeAllSockets, ← values, hall]
  rw [hs]
  constructor
  case held => nofun
  case isOpen =>
    intro fd hm hopen
    obtain ⟨hopen, hnot⟩ := Finset.mem_sdiff.mp hopen
    exact absurd (List.mem_toFinset.mpr (h.isOpen fd hm hopen)) hnot
  case count =>
    intro fd
    change (s.closed ++ values s).count fd + 0 = (made s).count fd
    rw [List.count_append, Nat.add_zero]
    exact h.count fd

theorem entries_erase {socketId : CString} {fd : ℕ}
    (h : s.socketHash.lookup socketId = some fd) :
    ∃ l l', s.socketHash.entries = l ++ ⟨socketId, fd⟩ :: l' ∧
      (s.socketHash.erase socketId).entries = l ++ l' := by
  have hmem := AList.mem_lookup_iff.mp h
  obtain ⟨fd', l, l', hnot, heq, herase⟩ := List.exists_of_kerase (List.mem_keys_of_mem hmem)
  have hfd' : s.socketHash.lookup socketId = some fd' := by
    apply AList.mem_lookup_iff.mpr
    rw [heq]
    exact List.mem_append_right _ List.mem_cons_self
  obtain rfl : fd = fd' := Option.some.inj (h.symm.trans hfd')
  exact ⟨l, l', heq, herase⟩

theorem closeSocket_inv (h : Inv s) (socketId : CString) : Inv (closeSocket s socketId) := by
  unfold closeSocket
  cases hl : s.socketHash.lookup socketId with
  | none => exact h
  | some fd =>
    have hheld := h.held _ (AList.mem_lookup_iff.mp hl)
    obtain ⟨l, l', heq, herase⟩ := entries_erase hl
    have hvalues : values s = l.map Sigma.snd ++ fd :: l'.map Sigma.snd := by
      rw [values, heq, List.map_append, List.map_cons]
    constructor
    case held =>
      intro e he
      have hlookup := AList.mem_lookup_iff.mpr he
      have hne : e.1 ≠ socketId := by
        intro heq
        rw [heq, AList.lookup_erase] at hlookup
        cases hlookup
      rw [AList.lookup_erase_ne hne] at hlookup
      obtain ⟨hopen, hlast⟩ := h.held e (AList.mem_lookup_iff.mp hlookup)
      refine ⟨Finset.mem_sdiff.mpr ⟨hopen, fun hfd ↦ ?_⟩, hlast⟩
      rw [List.toFinset_cons, List.toFinset_nil, insert_empty_eq, Finset.mem_singleton] at hfd
      rw [hfd, hheld.2] at hlast
      exact hne (Option.some.inj hlast).symm
    case isOpen =>
      intro fd' hm hopen
      obtain ⟨hopen, hne⟩ := Finset.mem_sdiff.mp hopen
      have hv := h.isOpen fd' hm hopen
      rw [hvalues] at hv
      change fd' ∈ (s.socketHash.erase socketId).entries.map Sigma.snd
      rw [herase, List.map_append]
      simp only [List.toFinset_cons, List.toFinset_nil, insert_empty_eq, Finset.mem_singleton] at hne
      simpa [hne] using hv
    case count =>
      intro fd'
      have hc := h.count fd'
      change (s.closed ++ [fd]).count fd' +
        ((s.socketHash.erase socketId).entries.map Sigma.snd).count fd' = (made s).count fd'
      rw [herase, List.map_append, ← hc, hvalues]
      simp only [List.count_append, List.count_cons, List.count_nil]
      omega

theorem allClosed_closeAllSockets (h : Inv s) (hz : NoZero s .closeAllSockets) :
    AllClosed (closeAllSockets s) := by
  intro fd hm hopen
  have hv := (closeAllSockets_inv h hz).isOpen fd hm hopen
  exact absurd hv List.not_mem_nil

/-- A socket with number 0 outlives `closeAllSockets`. -/
theorem not_allClosed {socketId : CString} (h : Inv s) (hfind : findSocket s socketId = 0) :
    ¬AllClosed (closeAllSockets s) := by
  have he := AList.mem_lookup_iff.mp ((findSocket_eq_iff s socketId 0).mp hfind)
  obtain ⟨hopen, hlast⟩ := h.held _ he
  intro hall
  refine hall 0 (lastMade_mem hlast) (Finset.mem_sdiff.mpr ⟨hopen, fun hclosed ↦ ?_⟩)
  have hpos := List.of_mem_filter (List.mem_toFinset.mp hclosed)
  exact absurd (of_decide_eq_true hpos) (Nat.lt_irrefl 0)

variable [DecidableEq P] {k : FileSystem P}

omit [DecidableEq P] in
theorem lastMade_append (i : Init) (hi : t.inits = s.inits ++ [i]) (fd : ℕ) :
    lastMade t fd = if i.fd = fd then some i.socketId else lastMade s fd := by
  rw [lastMade, hi, List.reverse_append, List.reverse_singleton, List.singleton_append,
    List.find?_cons]
  by_cases h : i.fd = fd
  · simp [h]
  · simp [h, lastMade]

theorem initSocket_inv (h : Inv s) {socketId : CString} {fd : ℕ}
    (ht : initSocket k s socketId fd = some t) : Inv t := by
  obtain ⟨-, rfl⟩ | ⟨hnew, hfd, -, ht⟩ := initSocket_cases ht
  · exact h
  · have hentries : t.socketHash.entries = ⟨socketId, fd⟩ :: s.socketHash.entries := by
      rw [ht]
      exact AList.entries_insert_of_notMem hnew
    have hopen : t.openFds = insert fd s.openFds := by rw [ht]
    have hinits : t.inits = s.inits ++
        [⟨socketId, fd, socketId.1, address (saData socketId), socketId.1⟩] := by rw [ht]
    have hclosed : t.closed = s.closed := by rw [ht]
    have hvalues : values t = fd :: values s := by
      rw [values, hentries, List.map_cons, values]
    have hmade : made t = made s ++ [fd] := by
      rw [made, hinits, List.map_append, List.map_singleton, made]
    constructor
    case held =>
      intro e he
      rw [hentries] at he
      rw [hopen, lastMade_append _ hinits]
      obtain rfl | he := List.mem_cons.mp he
      · exact ⟨Finset.mem_insert_self _ _, if_pos rfl⟩
      · obtain ⟨heopen, hlast⟩ := h.held e he
        have hne : fd ≠ e.2 := by
          intro heq
          exact hfd (heq ▸ heopen)
        exact ⟨Finset.mem_insert_of_mem heopen, (if_neg hne).trans hlast⟩
    case isOpen =>
      intro fd' hm hopen'
      rw [hvalues]
      rw [hmade, List.mem_append, List.mem_singleton] at hm
      rw [hopen, Finset.mem_insert] at hopen'
      by_cases heq : fd' = fd
      · exact List.mem_cons.mpr (.inl heq)
      · exact List.mem_cons_of_mem _
          (h.isOpen fd' (hm.resolve_right heq) (hopen'.resolve_left heq))
    case count =>
      intro fd'
      have hc := h.count fd'
      rw [hclosed, hvalues, hmade, List.count_append, List.count_cons, List.count_cons,
        List.count_nil]
      omega

theorem step_inv {a : Label} (h : Inv s) (hz : NoZero s a) (ht : step k s a = some t) :
    Inv t := by
  cases a with
  | initSocket socketId fd => exact initSocket_inv h ht
  | closeSocket socketId =>
    obtain rfl := Option.some.inj ht
    exact closeSocket_inv h socketId
  | closeAllSockets =>
    obtain rfl := Option.some.inj ht
    exact closeAllSockets_inv h hz

theorem run_inv {openFds : Finset ℕ} {present : Name P → Option Bool} {labels : List Label}
    (h : Run (step k) NoZero (start openFds present) labels t) : Inv t :=
  h.invariant Inv (fun _ _ _ hs hz ht ↦ step_inv hs hz ht) (start_inv openFds present)

def Accounted (k : FileSystem P) (s : State P) (labels : List Label) : Prop :=
  ∀ l u, l <+: labels → Run (step k) Any s l u →
    Sound u ∧ (l.getLast? = some .closeAllSockets → AllClosed u)

theorem Accounted.mono {l labels : List Label} (h : Accounted k s labels) (hl : l <+: labels) :
    Accounted k s l :=
  fun m u hm hrun ↦ h m u (hm.trans hl) hrun

theorem accounted {openFds : Finset ℕ} {present : Name P → Option Bool} {labels : List Label}
    (h : Run (step k) NoZero (start openFds present) labels t) :
    Accounted k (start openFds present) labels := by
  intro l u hl hrun
  obtain ⟨m, rfl⟩ := hl
  obtain ⟨u', hl, -⟩ := h.split
  obtain rfl := hrun.unique hl
  refine ⟨(run_inv hl).sound, fun hlast ↦ ?_⟩
  obtain ⟨l', rfl⟩ := List.getLast?_eq_some_iff.mp hlast
  obtain ⟨w, hw, hz, hwu⟩ := hl.last
  obtain rfl := Option.some.inj hwu
  exact allClosed_closeAllSockets (run_inv hw) hz

/-- The descriptors are accounted for exactly in the runs that never call
`closeAllSockets` while a socket has number 0. -/
theorem accounted_iff {openFds : Finset ℕ} {present : Name P → Option Bool} {labels : List Label}
    (h : Run (step k) Any (start openFds present) labels t) :
    Accounted k (start openFds present) labels ↔
      Run (step k) NoZero (start openFds present) labels t := by
  constructor
  case mpr => exact accounted
  case mp =>
    intro hacc
    induction labels using List.reverseRecOn generalizing t with
    | nil =>
      cases h
      exact .nil _
    | append_singleton l a ih =>
      obtain ⟨u, hl, -, hst⟩ := h.last
      have hrun := ih hl (hacc.mono (List.prefix_append l [a]))
      refine hrun.append (.cons ?_ hst (.nil t))
      intro ha socketId hfind
      subst ha
      have hall := (hacc _ t (List.prefix_refl _) h).2 List.getLast?_concat
      obtain rfl := Option.some.inj hst
      exact not_allClosed (run_inv hrun) hfind hall

def slashA : CString := ⟨[47, 97], by decide⟩

def slashB : CString := ⟨[47, 98], by decide⟩

def reuse : List Label :=
  [.initSocket slashA 3, .initSocket slashB 4, .closeSocket slashA, .initSocket slashA 3,
    .closeAllSockets]

theorem accounted_reuse : Accounted flat (start {0, 1, 2} fun _ ↦ none) reuse := by
  have hrun : Run (step flat) NoZero (start {0, 1, 2} fun _ ↦ none) reuse _ := run_of_exec rfl
  exact (accounted_iff (hrun.mono fun _ _ _ ↦ trivial)).mpr hrun

/-- Number 0 is given out and is open in the end. -/
theorem not_accounted_zero :
    ¬Accounted flat (start {1, 2} fun _ ↦ none) [.initSocket slashA 0, .closeAllSockets] := by
  have hrun : Run (step flat) Any (start {1, 2} fun _ ↦ none)
      [.initSocket slashA 0, .closeAllSockets] _ := run_of_exec rfl
  intro hacc
  obtain ⟨-, hclosed⟩ := hacc _ _ (List.prefix_refl _) hrun
  exact hclosed rfl 0 (by decide) (by decide)

end Applauncherd.Launcherlib.SocketDescriptors
