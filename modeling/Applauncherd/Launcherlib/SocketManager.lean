import Applauncherd.Library.Memory
import Applauncherd.Library.Transition
import Mathlib.Data.Finset.Basic
import Mathlib.Data.List.AList

namespace Applauncherd.Launcherlib.SocketManager

open Library.Environ Library.Memory

/-- `strncpy` fills the rest with NULs. -/
def strncpy (src : CString) (n : ℕ) : List UInt8 :=
  src.1.take n ++ List.replicate (n - src.1.length) 0

/-- `sun.sa_data`, of 14 bytes in a `struct sockaddr`. -/
def saData (socketId : CString) : List UInt8 := strncpy socketId 13 ++ [0]

/-- `sun.sun_path`, of 108 bytes in a `struct sockaddr_un`. -/
def sunPath (socketId : CString) : List UInt8 := strncpy socketId 107 ++ [0]

/-- A local address as the kernel reads it. One that begins with NUL is a name
outside the file system, all of its bytes. -/
inductive Address
  | path (p : Str)
  | abstract (name : List UInt8)
  deriving DecidableEq, Repr

def address (buf : List UInt8) : Address :=
  if buf.head? = some 0 then .abstract buf else .path (cstr buf)

inductive Name (P : Type)
  | file (p : P)
  | abstract (name : List UInt8)
  deriving DecidableEq

inductive Node
  | directory
  | other
  | socket (fd : ℕ) (everyone : Bool)
  deriving DecidableEq, Repr

structure FileSystem (P : Type) where
  resolve : Str → P
  bindable : Name P → Bool

variable {P : Type}

def FileSystem.name (k : FileSystem P) : Address → Name P
  | .path p => .file (k.resolve p)
  | .abstract name => .abstract name

structure Init where
  socketId : CString
  fd : ℕ
  unlinked : Str
  bound : Address
  chmoded : Str
  deriving DecidableEq

/-- The process of a socket manager. `inits` and `closed` are its history. -/
structure State (P : Type) where
  socketHash : AList fun _ : CString ↦ ℕ
  openFds : Finset ℕ
  names : Name P → Option Node
  inits : List Init
  closed : List ℕ

def State.close (s : State P) (fds : List ℕ) : State P :=
  { s with openFds := s.openFds \ fds.toFinset, closed := s.closed ++ fds }

def closeSocket (s : State P) (socketId : CString) : State P :=
  match s.socketHash.lookup socketId with
  | some fd => { s.close [fd] with socketHash := s.socketHash.erase socketId }
  | none => s

def closeAllSockets (s : State P) : State P :=
  { s.close ((s.socketHash.entries.map Sigma.snd).filter (0 < ·)) with socketHash := ∅ }

def findSocket (s : State P) (socketId : CString) : ℤ :=
  match s.socketHash.lookup socketId with
  | some fd => fd
  | none => -1

theorem findSocket_eq_iff (s : State P) (socketId : CString) (fd : ℕ) :
    findSocket s socketId = fd ↔ s.socketHash.lookup socketId = some fd := by
  unfold findSocket
  cases s.socketHash.lookup socketId with
  | none => simp
  | some fd' =>
    rw [Option.some.injEq]
    change (fd' : ℤ) = fd ↔ fd' = fd
    omega

theorem findSocket_eq_neg_one {s : State P} {socketId : CString}
    (h : s.socketHash.lookup socketId = none) : findSocket s socketId = -1 := by
  rw [findSocket, h]

theorem lookup_closeSocket (s : State P) (socketName name : CString) :
    (closeSocket s socketName).socketHash.lookup name =
      if name = socketName then none else s.socketHash.lookup name := by
  unfold closeSocket
  split_ifs with h
  · subst h
    cases hl : s.socketHash.lookup name with
    | none => exact hl
    | some fd => exact AList.lookup_erase _ _
  · cases s.socketHash.lookup socketName with
    | none => rfl
    | some fd => exact AList.lookup_erase_ne h

variable [DecidableEq P]

/-- An empty path names nothing, and a directory is not unlinked. -/
def unlink (k : FileSystem P) (names : Name P → Option Node) (path : Str) :
    Name P → Option Node :=
  if path = [] ∨ names (.file (k.resolve path)) = some .directory then names
  else Function.update names (.file (k.resolve path)) none

def Node.chmod : Node → Node
  | .socket fd _ => .socket fd true
  | node => node

def chmod (k : FileSystem P) (names : Name P → Option Node) (path : Str) :
    Name P → Option Node :=
  if path = [] then names
  else Function.update names (.file (k.resolve path))
    ((names (.file (k.resolve path))).map Node.chmod)

/-- `none` where the process dies, and for a number that `socket` cannot return. -/
def initSocket (k : FileSystem P) (s : State P) (socketId : CString) (socketFd : ℕ) :
    Option (State P) :=
  if socketId ∈ s.socketHash then some s
  else if socketFd ∈ s.openFds then none
  else
    let names := unlink k s.names socketId.1
    let sun := address (saData socketId)
    if (names (k.name sun)).isSome || !k.bindable (k.name sun) then none
    else
      let names := Function.update names (k.name sun) (some (.socket socketFd false))
      some {
        socketHash := s.socketHash.insert socketId socketFd
        openFds := insert socketFd s.openFds
        names := chmod k names socketId.1
        inits := s.inits ++ [⟨socketId, socketFd, socketId.1, sun, socketId.1⟩]
        closed := s.closed }

inductive Label
  | initSocket (socketId : CString) (socketFd : ℕ)
  | closeSocket (socketId : CString)
  | closeAllSockets
  deriving DecidableEq

def step (k : FileSystem P) (s : State P) : Label → Option (State P)
  | .initSocket socketId socketFd => initSocket k s socketId socketFd
  | .closeSocket socketId => some (closeSocket s socketId)
  | .closeAllSockets => some (closeAllSockets s)

/-- A new socket manager, in a process with other descriptors. `present` are the names
that are there, with whether they are directories. -/
def start (openFds : Finset ℕ) (present : Name P → Option Bool) : State P where
  socketHash := ∅
  openFds := openFds
  names name := (present name).map fun directory ↦ if directory then .directory else .other
  inits := []
  closed := []

def flat : FileSystem Str := ⟨fun p ↦ p, fun _ ↦ true⟩

theorem initSocket_cases {k : FileSystem P} {s t : State P} {socketId : CString} {fd : ℕ}
    (h : initSocket k s socketId fd = some t) :
    (socketId ∈ s.socketHash ∧ t = s) ∨
      (socketId ∉ s.socketHash ∧ fd ∉ s.openFds ∧
        unlink k s.names socketId.1 (k.name (address (saData socketId))) = none ∧
        t = {
          socketHash := s.socketHash.insert socketId fd
          openFds := insert fd s.openFds
          names := chmod k (Function.update (unlink k s.names socketId.1)
            (k.name (address (saData socketId))) (some (.socket fd false))) socketId.1
          inits := s.inits ++
            [⟨socketId, fd, socketId.1, address (saData socketId), socketId.1⟩]
          closed := s.closed }) := by
  unfold initSocket at h
  dsimp only at h
  split_ifs at h with hmem hopen hbind
  · exact .inl ⟨hmem, (Option.some.inj h).symm⟩
  · simp only [Bool.or_eq_true, not_or, Bool.not_eq_true, Option.isSome_eq_false_iff,
      Option.isNone_iff_eq_none] at hbind
    exact .inr ⟨hmem, hopen, hbind.1, (Option.some.inj h).symm⟩

theorem mem_initSocket {k : FileSystem P} {s t : State P} {socketId : CString} {fd : ℕ}
    (h : initSocket k s socketId fd = some t) (name : CString) :
    name ∈ t.socketHash ↔ name = socketId ∨ name ∈ s.socketHash := by
  obtain ⟨hmem, rfl⟩ | ⟨-, -, -, rfl⟩ := initSocket_cases h
  · constructor
    · exact .inr
    · intro hname
      obtain rfl | hname := hname
      · exact hmem
      · exact hname
  · exact AList.mem_insert _

end Applauncherd.Launcherlib.SocketManager
