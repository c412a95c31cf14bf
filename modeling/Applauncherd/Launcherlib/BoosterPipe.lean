import Applauncherd.Library.Transition
import Applauncherd.Library.Word
import Mathlib.Data.Fintype.Basic
import Mathlib.Tactic.FinCases

namespace Applauncherd.Launcherlib.BoosterPipe

open Library Library.Transition

structure Message where
  type : UInt8
  invokerPid : UInt32
  delay : UInt32
  deriving DecidableEq, Repr

def Message.chunk (m : Message) : ℕ → List UInt8
  | 0 => [m.type]
  | 1 => Word.encode m.invokerPid
  | _ => Word.encode m.delay

def Message.bytes (m : Message) : List UInt8 := m.chunk 0 ++ (m.chunk 1 ++ m.chunk 2)

inductive Reader
  | type
  | pid (type : UInt8)
  | delay (type : UInt8) (invokerPid : UInt32)
  | died
  deriving DecidableEq, Repr

variable {ι : Type}

structure State (ι : Type) where
  written : ι → ℕ
  pipe : List UInt8
  reader : Reader
  decoded : List Message

def start : State ι := ⟨fun _ ↦ 0, [], .type, []⟩

inductive Label (ι : Type)
  | write (booster : ι)
  | read
  deriving DecidableEq

def write [DecidableEq ι] (msg : ι → Message) (s : State ι) (i : ι) : Option (State ι) :=
  if s.written i < 3 then
    some { s with
      written := fun j ↦ if j = i then s.written i + 1 else s.written j
      pipe := s.pipe ++ (msg i).chunk (s.written i) }
  else none

/-- The next `read` of `readFromBoosterPipe`. It waits until there is a byte and
takes as many as there are up to its size. -/
def read (s : State ι) : Option (State ι) :=
  if s.pipe = [] then none
  else
    match s.reader with
    | .type => some { s with pipe := s.pipe.drop 1, reader := .pid (s.pipe.headD 0) }
    | .pid t =>
      if s.pipe.length < 4 then some { s with pipe := [], reader := .died }
      else some { s with
        pipe := s.pipe.drop 4
        reader := .delay t (Word.decode (s.pipe.take 4)) }
    | .delay t p =>
      if s.pipe.length < 4 then some { s with pipe := [], reader := .died }
      else some { s with
        pipe := s.pipe.drop 4
        reader := .type
        decoded := s.decoded ++ [⟨t, p, Word.decode (s.pipe.take 4)⟩] }
    | .died => none

def step [DecidableEq ι] (msg : ι → Message) (s : State ι) : Label ι → Option (State ι)
  | .write i => write msg s i
  | .read => read s

/-- A booster writes only while no other has begun its message and not finished it. -/
def Alone (s : State ι) : Label ι → Prop
  | .write i => ∀ j, j ≠ i → s.written j = 0 ∨ s.written j = 3
  | .read => True

instance [DecidableEq ι] [Fintype ι] (s : State ι) (a : Label ι) : Decidable (Alone s a) :=
  match a with
  | .write i => inferInstanceAs (Decidable (∀ j, j ≠ i → s.written j = 0 ∨ s.written j = 3))
  | .read => isTrue trivial

def sent [Fintype ι] (msg : ι → Message) (s : State ι) : Multiset Message :=
  (Finset.univ.filter fun i ↦ s.written i = 3).val.map msg

def Quiet (s : State ι) : Prop :=
  s.pipe = [] ∧ s.reader = .type ∧ ∀ i, s.written i = 0 ∨ s.written i = 3

/-- The daemon has decoded some of the messages that were sent, each once, and
all of them when nothing is under way. -/
structure Intact [Fintype ι] (msg : ι → Message) (s : State ι) : Prop where
  alive : s.reader ≠ .died
  decoded : (s.decoded : Multiset Message) ≤ sent msg s
  complete : Quiet s → (s.decoded : Multiset Message) = sent msg s

def Message.unwritten (m : Message) : ℕ → List UInt8
  | 0 => m.bytes
  | 1 => m.chunk 1 ++ m.chunk 2
  | 2 => m.chunk 2
  | _ => []

theorem Message.bytes_length (m : Message) : m.bytes.length = 9 := rfl

theorem Message.unwritten_step (m : Message) {n : ℕ} (h : n < 3) :
    m.unwritten n = m.chunk n ++ m.unwritten (n + 1) := by
  match n, h with
  | 0, _ => rfl
  | 1, _ => rfl
  | 2, _ => simp [unwritten]

theorem Message.unwritten_length (m : Message) {n : ℕ} (hpos : 0 < n) (hle : n ≤ 3) :
    (m.unwritten n).length = 12 - 4 * n := by
  match n, hpos, hle with
  | 1, _, _ => rfl
  | 2, _, _ => rfl
  | 3, _, _ => rfl

def Reader.consumed : Reader → List UInt8
  | .type => []
  | .pid t => [t]
  | .delay t p => t :: Word.encode p
  | .died => []

def pending (msg : ι → Message) (written : ι → ℕ) (queue : List ι) : List UInt8 :=
  match queue.getLast? with
  | none => []
  | some i => (msg i).unwritten (written i)

/-- The boosters that have begun a message are those whose message has been
decoded and a queue of those whose bytes are on the way. -/
structure Inv (msg : ι → Message) (s : State ι) (decoded queue : List ι) : Prop where
  alive : s.reader ≠ .died
  nodup : (decoded ++ queue).Nodup
  begun : ∀ i, i ∈ decoded ++ queue ↔ 0 < s.written i
  bounded : ∀ i, s.written i ≤ 3
  writing : ∀ i, 0 < s.written i → s.written i < 3 → queue.getLast? = some i
  messages : s.decoded = decoded.map msg
  bytes : s.reader.consumed ++ (s.pipe ++ pending msg s.written queue) =
    queue.flatMap fun i ↦ (msg i).bytes

theorem start_inv (msg : ι → Message) : Inv msg start [] [] := by
  constructor <;> simp [start, Reader.consumed, pending]

theorem queue_length (msg : ι → Message) (queue : List ι) :
    (queue.flatMap fun i ↦ (msg i).bytes).length = 9 * queue.length := by
  induction queue with
  | nil => rfl
  | cons i queue ih =>
    rw [List.flatMap_cons, List.length_append, ih, Message.bytes_length, List.length_cons]
    omega

theorem Inv.last_begun {msg : ι → Message} {s : State ι} {decoded queue : List ι}
    (h : Inv msg s decoded queue) {i : ι} (hi : queue.getLast? = some i) : 0 < s.written i :=
  (h.begun i).mp (List.mem_append_right _ (List.mem_of_getLast? hi))

theorem Inv.pending_length {msg : ι → Message} {s : State ι} {decoded queue : List ι}
    (h : Inv msg s decoded queue) : (pending msg s.written queue).length ∈ [0, 4, 8] := by
  unfold pending
  cases hl : queue.getLast? with
  | none => simp
  | some i =>
    have hpos := h.last_begun hl
    have hle := h.bounded i
    have hlen := (msg i).unwritten_length hpos hle
    simp only [hlen, List.mem_cons, List.not_mem_nil, or_false]
    omega

theorem Inv.length_eq {msg : ι → Message} {s : State ι} {decoded queue : List ι}
    (h : Inv msg s decoded queue) :
    s.reader.consumed.length + (s.pipe.length + (pending msg s.written queue).length) =
      9 * queue.length := by
  rw [← queue_length msg, ← h.bytes, List.length_append, List.length_append]

theorem Inv.pending_nil {msg : ι → Message} {s : State ι} {decoded queue : List ι}
    (h : Inv msg s decoded queue) (hdone : ∀ i, s.written i = 0 ∨ s.written i = 3) :
    pending msg s.written queue = [] := by
  unfold pending
  cases hl : queue.getLast? with
  | none => rfl
  | some i =>
    have hpos := h.last_begun hl
    obtain h0 | h3 := hdone i
    · omega
    · simp only [h3]
      rfl

theorem pending_append (msg : ι → Message) (written : ι → ℕ) (queue : List ι) (i : ι) :
    pending msg written (queue ++ [i]) = (msg i).unwritten (written i) := by
  simp [pending]

theorem write_cases [DecidableEq ι] {msg : ι → Message} {s t : State ι} {i : ι}
    (h : write msg s i = some t) : s.written i < 3 ∧ t = { s with
      written := fun j ↦ if j = i then s.written i + 1 else s.written j
      pipe := s.pipe ++ (msg i).chunk (s.written i) } := by
  unfold write at h
  split_ifs at h with hlt
  exact ⟨hlt, (Option.some.inj h).symm⟩

theorem write_inv [DecidableEq ι] {msg : ι → Message} {s t : State ι} {decoded queue : List ι}
    (h : Inv msg s decoded queue) {i : ι} (hok : Alone s (.write i)) (ht : write msg s i = some t) :
    Inv msg t decoded (if s.written i = 0 then queue ++ [i] else queue) := by
  obtain ⟨hlt, rfl⟩ := write_cases ht
  have hbounded : ∀ j, (if j = i then s.written i + 1 else s.written j) ≤ 3 := by
    intro j
    split_ifs
    · exact hlt
    · exact h.bounded j
  have hwriting : ∀ queue : List ι, ∀ j, 0 < (if j = i then s.written i + 1 else s.written j) →
      (if j = i then s.written i + 1 else s.written j) < 3 → (queue ++ [i]).getLast? = some j := by
    intro queue j hpos hlt
    split_ifs at hpos hlt with hj
    · simp [hj]
    · have := hok j hj
      omega
  split_ifs with hz
  · -- the first word of a new message
    have hnew : i ∉ decoded ++ queue := fun hi ↦ by
      have := (h.begun i).mp hi
      omega
    have hnil : pending msg s.written queue = [] := by
      apply h.pending_nil
      intro j
      by_cases hj : j = i
      · exact .inl (hj ▸ hz)
      · exact hok j hj
    refine ⟨h.alive, ?_, ?_, hbounded, hwriting queue, h.messages, ?_⟩
    · rw [← List.append_assoc]
      exact List.nodup_append_comm.mp (List.nodup_cons.mpr ⟨hnew, h.nodup⟩)
    · intro j
      rw [← List.append_assoc, List.mem_append, h.begun j, List.mem_singleton]
      by_cases hj : j = i
      · simp [hj]
      · simp [hj]
    · have hb := h.bytes
      rw [hnil, List.append_nil] at hb
      rw [pending_append, List.flatMap_append, ← hb]
      simp [hz, Message.bytes, Message.unwritten]
  · -- the next word of the message at the end of the queue
    have hpos : 0 < s.written i := by omega
    obtain ⟨queue, rfl⟩ := List.getLast?_eq_some_iff.mp (h.writing i hpos hlt)
    refine ⟨h.alive, h.nodup, ?_, hbounded, hwriting queue, h.messages, ?_⟩
    · intro j
      rw [h.begun j]
      by_cases hj : j = i
      · simp [hj, hpos]
      · simp [hj]
    · have hb := h.bytes
      rw [pending_append, Message.unwritten_step _ hlt] at hb
      rw [pending_append, ← hb]
      simp

theorem Inv.word_there {msg : ι → Message} {s : State ι} {decoded queue : List ι}
    (h : Inv msg s decoded queue) (hpipe : s.pipe ≠ []) (hreader : s.reader ≠ .type) :
    4 ≤ s.pipe.length := by
  have hl := h.length_eq
  have hp := h.pending_length
  have hpos := List.length_pos_iff.mpr hpipe
  simp only [List.mem_cons, List.not_mem_nil, or_false] at hp
  cases hr : s.reader with
  | type => exact absurd hr hreader
  | pid t =>
    simp only [hr, Reader.consumed, List.length_cons, List.length_nil] at hl
    omega
  | delay t p =>
    simp only [hr, Reader.consumed, List.length_cons, Word.encode_length] at hl
    omega
  | died => exact absurd hr h.alive

theorem encode_take {bs : List UInt8} (h : 4 ≤ bs.length) :
    Word.encode (Word.decode (bs.take 4)) = bs.take 4 :=
  Word.encode_decode (by rw [List.length_take]; omega)

theorem first_message {m : Message} {t : UInt8} {p : UInt32} {pipe rest rest' : List UInt8}
    (hpipe : 4 ≤ pipe.length)
    (h : t :: Word.encode p ++ (pipe ++ rest) = m.bytes ++ rest') :
    (⟨t, p, Word.decode (pipe.take 4)⟩ : Message) = m ∧ pipe.drop 4 ++ rest = rest' := by
  have hsplit : t :: Word.encode p ++ (pipe ++ rest) =
      (t :: Word.encode p ++ pipe.take 4) ++ (pipe.drop 4 ++ rest) := by
    rw [List.append_assoc, ← List.append_assoc (pipe.take 4), List.take_append_drop]
  have hlen : (t :: Word.encode p ++ pipe.take 4).length = m.bytes.length := by
    simp only [List.length_append, List.length_cons, Word.encode_length, List.length_take,
      Message.bytes_length]
    omega
  rw [hsplit] at h
  obtain ⟨hm, hrest⟩ := List.append_inj h hlen
  refine ⟨?_, hrest⟩
  rw [← encode_take hpipe] at hm
  obtain ⟨type, invokerPid, delay⟩ := m
  simp only [Message.bytes, Message.chunk, List.cons_append, List.nil_append, List.cons.injEq] at hm
  obtain ⟨rfl, hm⟩ := hm
  obtain ⟨hp, hd⟩ := List.append_inj hm rfl
  rw [Word.encode_injective hp, Word.encode_injective hd]

theorem Inv.first_taken {msg : ι → Message} {s : State ι} {decoded queue : List ι} {i : ι}
    (h : Inv msg s decoded (i :: queue)) (hwhole : queue = [] → pending msg s.written [i] = []) :
    pending msg s.written (i :: queue) = pending msg s.written queue ∧
      ∀ j, 0 < s.written j → s.written j < 3 → queue.getLast? = some j := by
  cases queue with
  | nil =>
    have hnil := hwhole rfl
    refine ⟨hnil, fun j hpos hlt ↦ ?_⟩
    obtain rfl : i = j := by simpa using h.writing j hpos hlt
    have hlen := (msg i).unwritten_length hpos (h.bounded i)
    have hzero := congrArg List.length hnil
    change ((msg i).unwritten (s.written i)).length = 0 at hzero
    omega
  | cons k queue => exact ⟨rfl, fun j hpos hlt ↦ by simpa using h.writing j hpos hlt⟩

theorem read_inv {msg : ι → Message} {s t : State ι} {decoded queue : List ι}
    (h : Inv msg s decoded queue) (ht : read s = some t) :
    t.written = s.written ∧ (t.decoded = s.decoded ∧ Inv msg t decoded queue ∨
      ∃ i queue', queue = i :: queue' ∧ t.decoded = s.decoded ++ [msg i] ∧
        Inv msg t (decoded ++ [i]) queue') := by
  unfold read at ht
  by_cases hpipe : s.pipe = []
  · simp [hpipe] at ht
  rw [if_neg hpipe] at ht
  cases hr : s.reader with
  | type =>
    simp only [hr] at ht
    cases ht
    refine ⟨rfl, .inl ⟨rfl, by simp, h.nodup, h.begun, h.bounded, h.writing, h.messages, ?_⟩⟩
    obtain ⟨b, pipe, hb⟩ := List.exists_cons_of_ne_nil hpipe
    have hbytes := h.bytes
    rw [hr, hb] at hbytes
    simpa [hb, Reader.consumed] using hbytes
  | pid type =>
    have hfour := h.word_there hpipe (by simp [hr])
    simp only [hr, if_neg (Nat.not_lt.mpr hfour)] at ht
    cases ht
    refine ⟨rfl, .inl ⟨rfl, by simp, h.nodup, h.begun, h.bounded, h.writing, h.messages, ?_⟩⟩
    have hbytes := h.bytes
    have hpending : s.pipe.take 4 ++ (s.pipe.drop 4 ++ pending msg s.written queue) =
        s.pipe ++ pending msg s.written queue := by
      rw [← List.append_assoc, List.take_append_drop]
    rw [hr] at hbytes
    simpa [Reader.consumed, encode_take hfour, hpending] using hbytes
  | delay type invokerPid =>
    have hfour := h.word_there hpipe (by simp [hr])
    simp only [hr, if_neg (Nat.not_lt.mpr hfour)] at ht
    cases ht
    have hbytes := h.bytes
    simp only [hr, Reader.consumed] at hbytes
    cases queue with
    | nil => simp at hbytes
    | cons i queue =>
      rw [List.flatMap_cons] at hbytes
      obtain ⟨hm, hrest⟩ := first_message hfour hbytes
      have hassoc : (decoded ++ [i]) ++ queue = decoded ++ i :: queue := by simp
      have hlast := h.first_taken fun hq ↦ by
        subst hq
        exact (List.append_eq_nil_iff.mp hrest).2
      refine ⟨rfl, .inr ⟨i, queue, rfl, by rw [hm], by simp, hassoc ▸ h.nodup, hassoc ▸ h.begun,
        h.bounded, hlast.2, ?_, ?_⟩⟩
      · rw [h.messages, hm, List.map_append]
        rfl
      · rw [← hrest, hlast.1]
        rfl
  | died => exact absurd hr h.alive

theorem step_inv [DecidableEq ι] {msg : ι → Message} {s t : State ι} {a : Label ι}
    (h : ∃ decoded queue, Inv msg s decoded queue) (hok : Alone s a) (ht : step msg s a = some t) :
    ∃ decoded queue, Inv msg t decoded queue := by
  obtain ⟨decoded, queue, h⟩ := h
  cases a with
  | write i => exact ⟨decoded, _, write_inv h hok ht⟩
  | read =>
    obtain ⟨-, ⟨-, ht⟩ | ⟨i, queue', -, -, ht⟩⟩ := read_inv h ht
    · exact ⟨decoded, queue, ht⟩
    · exact ⟨decoded ++ [i], queue', ht⟩

theorem Inv.decoded_finished {msg : ι → Message} {s : State ι} {decoded queue : List ι}
    (h : Inv msg s decoded queue) {i : ι} (hi : i ∈ decoded) : s.written i = 3 := by
  have hpos := (h.begun i).mp (List.mem_append_left _ hi)
  have hle := h.bounded i
  by_contra hne
  have hlast := List.mem_of_getLast? (h.writing i hpos (by omega))
  exact (List.nodup_append.mp h.nodup).2.2 i hi i hlast rfl

theorem Inv.queue_nil {msg : ι → Message} {s : State ι} {decoded queue : List ι}
    (h : Inv msg s decoded queue) (hq : Quiet s) : queue = [] := by
  obtain ⟨hpipe, hreader, hdone⟩ := hq
  have hl := h.length_eq
  rw [h.pending_nil hdone, hpipe, hreader] at hl
  simp only [Reader.consumed, List.length_nil] at hl
  exact List.length_eq_zero_iff.mp (by omega)

theorem Inv.intact [Fintype ι] {msg : ι → Message} {s : State ι} {decoded queue : List ι}
    (h : Inv msg s decoded queue) : Intact msg s := by
  have hnodup : (decoded : Multiset ι).Nodup := (List.nodup_append.mp h.nodup).1
  have hmessages : (s.decoded : Multiset Message) = (decoded : Multiset ι).map msg := by
    rw [h.messages, Multiset.map_coe]
  refine ⟨h.alive, ?_, fun hq ↦ ?_⟩
  · rw [hmessages]
    apply Multiset.map_le_map
    rw [Multiset.le_iff_subset hnodup]
    intro i hi
    simpa using h.decoded_finished hi
  · rw [hmessages, sent]
    congr 1
    rw [Multiset.Nodup.ext hnodup (Finset.nodup _)]
    intro i
    have hb := h.begun i
    rw [h.queue_nil hq, List.append_nil] at hb
    have hdone := hq.2.2 i
    simp only [Multiset.mem_coe, Finset.mem_val, Finset.mem_filter, Finset.mem_univ, true_and, hb]
    omega

/-- Where no booster writes into the message of another, the messages arrive
as they were sent. -/
theorem messages_intact [DecidableEq ι] [Fintype ι] (msg : ι → Message) {labels : List (Label ι)}
    {s : State ι} (h : Run (step msg) Alone start labels s) : Intact msg s := by
  obtain ⟨decoded, queue, hinv⟩ := h.invariant (fun s ↦ ∃ decoded queue, Inv msg s decoded queue)
    (fun _ _ _ hs hok ht ↦ step_inv hs hok ht) ⟨[], [], start_inv msg⟩
  exact hinv.intact

theorem Intact.genuine [Fintype ι] {msg : ι → Message} {s : State ι} (h : Intact msg s)
    {m : Message} (hm : m ∈ s.decoded) : ∃ i, msg i = m := by
  obtain ⟨i, -, hi⟩ := Multiset.mem_map.mp (Multiset.subset_of_le h.decoded (Multiset.mem_coe.mpr hm))
  exact ⟨i, hi⟩

def twoBoosters : Fin 2 → Message
  | 0 => ⟨109, 100, 3⟩
  | 1 => ⟨113, 200, 5⟩

theorem messages_in_turn : ∃ s, Run (step twoBoosters) Alone start
    [.write 0, .read, .write 0, .write 0, .write 1, .read, .read, .write 1, .read, .write 1, .read,
      .read] s ∧ Intact twoBoosters s := by
  have h : Run (step twoBoosters) Alone start
      [.write 0, .read, .write 0, .write 0, .write 1, .read, .read, .write 1, .read, .write 1,
        .read, .read] _ :=
    run_of_exec rfl
  exact ⟨_, h, messages_intact twoBoosters h⟩

/-- Where the types of two boosters come first, the daemon takes the type of
the second for a part of the first one's pid. -/
theorem messages_mixed :
    ¬∀ labels s, Run (step twoBoosters) Any start labels s → Intact twoBoosters s := by
  intro hall
  have h : Run (step twoBoosters) Any start
      [.write 0, .write 1, .write 0, .write 0, .write 1, .write 1, .read, .read, .read] _ :=
    run_of_exec rfl
  obtain ⟨i, hi⟩ := (hall _ _ h).genuine (List.mem_singleton.mpr rfl)
  revert hi
  fin_cases i <;> decide

/-- Any two boosters can bring the daemon down: it reads the type of the second
where it expects the pid that the first sends. -/
theorem overlap_dies [DecidableEq ι] (msg : ι → Message) {i j : ι} (h : i ≠ j) :
    ∃ s, Run (step msg) Any start [.write i, .write j, .read, .read] s ∧ s.reader = .died := by
  let s₁ : State ι := ⟨fun k ↦ if k = i then 1 else 0, [(msg i).type], .type, []⟩
  let s₂ : State ι := ⟨fun k ↦ if k = j then 1 else s₁.written k,
    [(msg i).type, (msg j).type], .type, []⟩
  have hi : step msg start (.write i) = some s₁ := rfl
  have hj : step msg s₁ (.write j) = some s₂ := by
    simp [step, write, h.symm, Message.chunk, s₁, s₂]
  exact ⟨_, .cons trivial hi (.cons trivial hj (.cons trivial rfl (.cons trivial rfl (.nil _)))), rfl⟩

end Applauncherd.Launcherlib.BoosterPipe
