import Applauncherd.Invoker.InvokeRemote
import Applauncherd.Launcherlib.Effects
import Mathlib.Data.List.TakeWhile
import Mathlib.Data.Nat.Digits.Defs

namespace Applauncherd.Launcherlib.RespawnDelay

open Library Library.Environ ReadSocket Receive RoundTrip
open BoosterPipe (Message)
open MainLoop (System Child Packet)
open Tables (Pid)
open Effects (taken)
open Invoker.Send Invoker.Options

def value (s : Str) : ℕ := Nat.ofDigits 10 (s.reverse.map fun d ↦ d.toNat - 48)

def Numeral (s : Str) : Prop := s ≠ [] ∧ ∀ b ∈ s, isDigit b = true

/-- What `strtoul` looks at: behind white space a sign, and behind that the digits. -/
def negative (s : Str) : Bool := (s.dropWhile isSpace).head? = some 45

def unsigned (s : Str) : Str :=
  match s.dropWhile isSpace with
  | 45 :: s => s.takeWhile isDigit
  | 43 :: s => s.takeWhile isDigit
  | s => s.takeWhile isDigit

def magnitude (s : Str) : ℕ := value (unsigned s)

def signed (s : Str) : ℤ := if negative s then -magnitude s else magnitude s

def readMessage {ι : Type} (p : BoosterPipe.State ι) : Option (BoosterPipe.State ι) :=
  ((BoosterPipe.read p).bind BoosterPipe.read).bind BoosterPipe.read

def slept (c : Child) : ℕ :=
  if c.bootMode = false ∧ c.sleepTime ≠ 0 then c.sleepTime.toNat else 0

/-- The booster that is forked after a request with delay `d` was launched sleeps
for `v` seconds. -/
def NextSleeps (d : UInt32) (v : ℕ) : Prop :=
  ∀ (r : LaunchRequest) (dummy : UInt8) (gid uid : UInt32) (proc : Process) (app : AppData)
    (c : Connection), r.respawnDelay = d →
    receiveApplicationData AppData.new
      (Connection.accepted (whole (invokeRemoteSends true dummy r)) gid uid proc) = (true, app, c) →
    ∀ (ι : Type) (p : BoosterPipe.State ι) (type : UInt8) (invoker : UInt32) (rest : List UInt8),
      p.reader = .type →
      p.pipe = (⟨type, invoker, app.delay.toUInt32⟩ : Message).bytes ++ rest →
      ∃ p' m, readMessage p = some p' ∧ p'.decoded = p.decoded ++ [m] ∧
        ∀ (s t : System) (booster newPid : Pid) (packets : List Packet),
          s.pipe = ⟨booster, m⟩ :: packets → s.tables.bootMode = false →
          s.readFromBoosterPipe newPid = some t →
          ∃ child, t.procs newPid = some child ∧ slept child = v

/-- `--respawn` takes the numerals from 1 to the greatest delay, and the next
booster sleeps for as long as the numeral says. -/
structure Respawns (arg : Str) : Prop where
  accepted : ∀ s, (∃ t, parseOpt s (.respawn arg) = .ok t) ↔
    Numeral arg ∧ 1 ≤ value arg ∧ value arg ≤ maxRespawnDelay.toNat
  sleeps : ∀ s t, parseOpt s (.respawn arg) = .ok t → NextSleeps t.respawnDelay (value arg)

/-- The string is a numeral of 32 bits, or nothing in it passes for a delay. -/
def Clear (arg : Str) : Prop :=
  (Numeral arg ∧ value arg < 2 ^ 32) ∨ ulongMax < magnitude arg ∨
    signed arg % 2 ^ 32 < 1 ∨ (maxRespawnDelay.toNat : ℤ) < signed arg % 2 ^ 32

theorem value_concat (s : Str) (d : UInt8) : value (s ++ [d]) = 10 * value s + (d.toNat - 48) := by
  simp only [value, List.reverse_append, List.reverse_singleton, List.singleton_append,
    List.map_cons, Nat.ofDigits_cons]
  omega

theorem foldl_digits (s : Str) :
    s.foldl (fun n d ↦ 10 * n + (d.toNat - 48)) 0 = value s := by
  induction s using List.reverseRecOn with
  | nil => rfl
  | append_singleton s d ih => rw [List.foldl_append, ih, value_concat]; rfl

theorem strtoul_eq (s : Str) : strtoul s =
    if magnitude s ≤ ulongMax then ((signed s % 2 ^ 64).toNat, false) else (ulongMax, true) := by
  have hscan : strtoul s = if magnitude s ≤ ulongMax then
      (if negative s then (2 ^ 64 - magnitude s) % 2 ^ 64 else magnitude s, false)
      else (ulongMax, true) := by
    unfold strtoul magnitude negative unsigned digits
    simp only [foldl_digits]
    generalize s.dropWhile isSpace = t
    split
    · rfl
    · rfl
    · rename_i hminus hplus
      have hneg : t.head? ≠ some 45 := by
        intro h
        obtain ⟨s', rfl⟩ := List.head?_eq_some_iff.mp h
        exact hminus s' rfl
      simp only [hneg, decide_false]
      rfl
  rw [hscan, signed]
  split_ifs with hle hneg
  · congr 1
    unfold ulongMax at hle
    omega
  · congr 1
    unfold ulongMax at hle
    omega
  · rfl

theorem dropWhile_numeral {s : Str} (h : Numeral s) :
    s.dropWhile isSpace = s ∧ s.head? ≠ some 45 ∧ s.head? ≠ some 43 := by
  obtain ⟨hne, hd⟩ := h
  obtain ⟨b, bs, rfl⟩ := List.exists_cons_of_ne_nil hne
  have hb := hd b List.mem_cons_self
  have hle : 48 ≤ b := by
    simp only [isDigit, Bool.and_eq_true, decide_eq_true_eq] at hb
    exact hb.1
  have hspace : isSpace b = false := by
    simp only [isSpace, Bool.or_eq_false_iff, Bool.and_eq_false_iff, beq_eq_false_iff_ne,
      decide_eq_false_iff_not]
    refine ⟨?_, .inr fun h13 ↦ absurd (UInt8.le_trans hle h13) (by decide)⟩
    intro h32
    subst h32
    exact absurd hle (by decide)
  refine ⟨by simp [hspace], ?_, ?_⟩
  · intro h
    obtain rfl := Option.some.inj h
    exact absurd hle (by decide)
  · intro h
    obtain rfl := Option.some.inj h
    exact absurd hle (by decide)

theorem unsigned_numeral {s : Str} (h : Numeral s) : unsigned s = s := by
  obtain ⟨hdrop, hminus, hplus⟩ := dropWhile_numeral h
  have hd : s.takeWhile isDigit = s := List.takeWhile_eq_self_iff.mpr h.2
  unfold unsigned
  rw [hdrop]
  split
  · exact absurd rfl hminus
  · exact absurd rfl hplus
  · exact hd

theorem magnitude_numeral {s : Str} (h : Numeral s) : magnitude s = value s := by
  rw [magnitude, unsigned_numeral h]

theorem signed_numeral {s : Str} (h : Numeral s) : signed s = value s := by
  obtain ⟨hdrop, hminus, -⟩ := dropWhile_numeral h
  have hneg : negative s = false := by
    rw [negative, hdrop]
    exact decide_eq_false hminus
  rw [signed, hneg, magnitude_numeral h]
  rfl

def kept (arg : Str) : UInt32 := UInt32.ofNat (signed arg % 2 ^ 32).toNat

theorem kept_toNat (arg : Str) : ((kept arg).toNat : ℤ) = signed arg % 2 ^ 32 := by
  unfold kept
  rw [UInt32.toNat_ofNat']
  omega

theorem getDelay_eq (arg : Str) : getDelay arg =
    if ulongMax < magnitude arg then some (UInt32.ofNat ulongMax)
    else if kept arg = 0 then none else some (kept arg) := by
  unfold getDelay
  rw [strtoul_eq]
  by_cases h : ulongMax < magnitude arg
  · rw [if_pos h, if_neg (Nat.not_le.mpr h)]
    rfl
  · have hcut : UInt32.ofNat (signed arg % 2 ^ 64).toNat = kept arg := by
      apply UInt32.toNat_inj.mp
      rw [kept, UInt32.toNat_ofNat', UInt32.toNat_ofNat']
      omega
    rw [if_neg h, if_pos (Nat.le_of_not_lt h)]
    simp only [hcut, Bool.false_eq_true, false_and, false_or]

theorem parseOpt_respawn (s t : Settings) (arg : Str) :
    parseOpt s (.respawn arg) = .ok t ↔ (magnitude arg ≤ ulongMax ∧ 1 ≤ signed arg % 2 ^ 32 ∧
      signed arg % 2 ^ 32 ≤ maxRespawnDelay.toNat) ∧ t = { s with respawnDelay := kept arg } := by
  have hz : kept arg = 0 ↔ signed arg % 2 ^ 32 < 1 := by
    rw [← UInt32.toNat_inj, ← kept_toNat]
    change (kept arg).toNat = 0 ↔ _
    omega
  have hmax : maxRespawnDelay < kept arg ↔
      (maxRespawnDelay.toNat : ℤ) < signed arg % 2 ^ 32 := by
    rw [UInt32.lt_iff_toNat_lt, ← kept_toNat]
    omega
  rw [parseOpt, getDelay_eq]
  by_cases hover : ulongMax < magnitude arg
  · rw [if_pos hover]
    change (Except.error 1 : Except ℕ Settings) = .ok t ↔ _
    simp only [reduceCtorEq, false_iff]
    omega
  · rw [if_neg hover]
    by_cases hk : kept arg = 0
    · rw [if_pos hk]
      have := hz.mp hk
      simp only [reduceCtorEq, false_iff]
      omega
    · rw [if_neg hk]
      have := mt hz.mpr hk
      change (if maxRespawnDelay < kept arg then Except.error 1
        else .ok { s with respawnDelay := kept arg }) = .ok t ↔ _
      by_cases hm : maxRespawnDelay < kept arg
      · have := hmax.mp hm
        simp only [hm, if_true, reduceCtorEq, false_iff]
        omega
      · have hle := mt hmax.mpr hm
        rw [if_neg hm, Except.ok.injEq, eq_comm]
        exact ⟨fun ht ↦ ⟨⟨by omega, by omega, by omega⟩, ht⟩, fun h ↦ h.2⟩

section

variable {ι : Type} (written : ι → ℕ) (rest : List UInt8) (decoded : List Message)

theorem read_pid (type : UInt8) (pid : UInt32) :
    BoosterPipe.read ⟨written, Word.encode pid ++ rest, .pid type, decoded⟩ =
      some ⟨written, rest, .delay type pid, decoded⟩ := by
  have hlen : ¬(Word.encode pid ++ rest).length < 4 := by simp
  have htake : (Word.encode pid ++ rest).take 4 = Word.encode pid := rfl
  simp only [BoosterPipe.read, hlen, htake, Word.decode_encode]
  rfl

theorem read_delay (type : UInt8) (pid delay : UInt32) :
    BoosterPipe.read ⟨written, Word.encode delay ++ rest, .delay type pid, decoded⟩ =
      some ⟨written, rest, .type, decoded ++ [⟨type, pid, delay⟩]⟩ := by
  have hlen : ¬(Word.encode delay ++ rest).length < 4 := by simp
  have htake : (Word.encode delay ++ rest).take 4 = Word.encode delay := rfl
  simp only [BoosterPipe.read, hlen, htake, Word.decode_encode]
  rfl

theorem readMessage_bytes (m : Message) :
    readMessage ⟨written, m.bytes ++ rest, .type, decoded⟩ =
      some ⟨written, rest, .type, decoded ++ [m]⟩ := by
  have htype : BoosterPipe.read ⟨written, m.bytes ++ rest, .type, decoded⟩ =
      some ⟨written, Word.encode m.invokerPid ++ (Word.encode m.delay ++ rest), .pid m.type,
        decoded⟩ := rfl
  rw [readMessage, htype, Option.bind_some, read_pid, Option.bind_some, read_delay]

end

theorem slept_newborn {s t : System} {booster newPid : Pid} {m : Message} {packets : List Packet}
    (hp : s.pipe = ⟨booster, m⟩ :: packets) (hboot : s.tables.bootMode = false)
    (ht : s.readFromBoosterPipe newPid = some t) :
    ∃ child, t.procs newPid = some child ∧ slept child = m.delay.toNat := by
  rw [System.readFromBoosterPipe, hp] at ht
  obtain ⟨-, -, rfl⟩ := Effects.forkBooster_cases ht
  have hmode : (Tables.storeInvoker s.tables m).bootMode = false :=
    (Tables.storeInvoker_eq s.tables m).2.2.trans hboot
  refine ⟨⟨m.type, (Tables.storeInvoker s.tables m).bootMode, m.delay, .waiting, none⟩,
    by simp [Effects.spawned, Effects.newborn, System.setProc], ?_⟩
  by_cases hz : m.delay = 0
  · simp [slept, hz]
  · simp [slept, hmode, hz]

theorem nextSleeps (d : UInt32) : NextSleeps d d.toNat := by
  intro r dummy gid uid proc app c hd hreceive ι p type invoker rest hreader hpipe
  have hdelay : app.delay.toUInt32 = d := by
    have h := (request_roundtrip r dummy gid uid proc).2
    rw [hreceive] at h
    rw [(h rfl).delay, UInt32.toUInt32_toInt32, hd]
  obtain ⟨written, pipe, reader, decoded⟩ := p
  subst hreader hpipe
  refine ⟨_, _, readMessage_bytes _ _ _ _, rfl, fun s t booster newPid packets hp hboot ht ↦ ?_⟩
  rw [← hdelay]
  exact slept_newborn hp hboot ht

/-- A string is taken for what it says exactly if it is clear. -/
theorem respawns_iff (arg : Str) : Respawns arg ↔ Clear arg := by
  constructor
  · intro h
    by_cases hin : magnitude arg ≤ ulongMax ∧ 1 ≤ signed arg % 2 ^ 32 ∧
        signed arg % 2 ^ 32 ≤ maxRespawnDelay.toNat
    · obtain ⟨hn, -, hle⟩ := (h.accepted Settings.initial).mp
        ⟨_, (parseOpt_respawn _ _ arg).mpr ⟨hin, rfl⟩⟩
      exact .inl ⟨hn, hle.trans_lt (by decide)⟩
    · exact .inr (by omega)
  · intro h
    have hmax : maxRespawnDelay.toNat = 10 := rfl
    have hclear : magnitude arg ≤ ulongMax ∧ 1 ≤ signed arg % 2 ^ 32 ∧
        signed arg % 2 ^ 32 ≤ maxRespawnDelay.toNat → Numeral arg ∧ value arg < 2 ^ 32 := by
      intro hin
      obtain hn | hout := h
      · exact hn
      · omega
    have hvalue : Numeral arg → value arg < 2 ^ 32 →
        magnitude arg = value arg ∧ signed arg % 2 ^ 32 = value arg := by
      intro hn hlt
      rw [magnitude_numeral hn, signed_numeral hn]
      omega
    constructor
    case accepted =>
      intro s
      simp only [parseOpt_respawn, exists_and_left, exists_eq, and_true]
      constructor
      · intro hin
        obtain ⟨hn, hlt⟩ := hclear hin
        obtain ⟨-, hs⟩ := hvalue hn hlt
        refine ⟨hn, ?_, ?_⟩ <;> omega
      · intro hin
        obtain ⟨hn, hge, hle⟩ := hin
        obtain ⟨hm, hs⟩ := hvalue hn (by omega)
        unfold ulongMax
        refine ⟨?_, ?_, ?_⟩ <;> omega
    case sleeps =>
      intro s t ht
      obtain ⟨hin, rfl⟩ := (parseOpt_respawn s t arg).mp ht
      obtain ⟨hn, hlt⟩ := hclear hin
      have hkept : (kept arg).toNat = value arg := by
        have := kept_toNat arg
        rw [(hvalue hn hlt).2] at this
        omega
      rw [← hkept]
      exact nextSleeps (kept arg)

/-- "5abc" is taken for five, and "4294967299" for three. -/
theorem not_respawns_letters :
    let fiveAbc : Str := [53, 97, 98, 99]
    let wrapped : Str := [52, 50, 57, 52, 57, 54, 55, 50, 57, 57]
    parseOpt Settings.initial (.respawn fiveAbc) =
        .ok { Settings.initial with respawnDelay := 5 } ∧ ¬Respawns fiveAbc ∧
      parseOpt Settings.initial (.respawn wrapped) =
        .ok { Settings.initial with respawnDelay := 3 } ∧ ¬Respawns wrapped := by
  intro fiveAbc wrapped
  have hfive : parseOpt Settings.initial (.respawn fiveAbc) =
      .ok { Settings.initial with respawnDelay := 5 } := by rfl
  have hwrapped : parseOpt Settings.initial (.respawn wrapped) =
      .ok { Settings.initial with respawnDelay := 3 } := by rfl
  refine ⟨hfive, fun h ↦ ?_, hwrapped, fun h ↦ ?_⟩
  · obtain ⟨⟨-, hdigits⟩, -⟩ := (h.accepted Settings.initial).mp ⟨_, hfive⟩
    exact absurd (hdigits 97 (by decide)) (by decide)
  · obtain ⟨-, -, hle⟩ := (h.accepted Settings.initial).mp ⟨_, hwrapped⟩
    exact absurd hle (by decide)

end Applauncherd.Launcherlib.RespawnDelay
