import Applauncherd.Launcherlib.Magic
import Mathlib.Data.List.Induction

namespace Applauncherd.Launcherlib.Argv

open Library Library.Environ Protocol ReadSocket Receive Sections Magic Invoker.Send

/-- An element of an array of strings, as the C functions read it: `none` is an
access out of bounds or through a pointer that is not to a string. -/
def stringAt (argv : Option (List Slot)) (i : ℕ) : Option Str :=
  match argv.bind (·[i]?) with
  | some (.str buf) => if 0 ∈ buf then some (cstr buf) else none
  | _ => none

def appendArgs (argv : Option (List Slot)) : ℕ → Option Str
  | 0 => some []
  | n + 1 => do
    let block ← appendArgs argv n
    let arg ← stringAt argv n
    some (block ++ arg ++ [0])

structure Title where
  spaceAvailable : ℕ
  block : List UInt8
  name : Str
  environ : List Str

def basename (path : Str) : Str := (path.reverse.takeWhile (· ≠ 47)).reverse

def overwrite (space : ℕ) (newArgv : Str) : List UInt8 :=
  let spaceNeeded := min space newArgv.length
  terminate (newArgv.take spaceNeeded) ++ List.replicate (space - spaceNeeded) 0

/-- `PR_SET_NAME` keeps 15 bytes. -/
def renameProcess (t : Title) (parentArgv : List Str) (sourceArgc : ℤ)
    (sourceArgv : Option (List Slot)) : Option Title :=
  if 0 < sourceArgc ∧ parentArgv ≠ [] then do
    let space := if t.spaceAvailable = 0 then (parentArgv.map fun s ↦ s.length + 1).sum
      else t.spaceAvailable
    let newArgv ← appendArgs sourceArgv sourceArgc.toNat
    let arg ← stringAt sourceArgv 0
    some {
      spaceAvailable := space
      block := overwrite space newArgv
      name := (basename arg).take 15
      environ := putenv t.environ (95 :: equals :: arg) }
  else some t

def strstr (haystack needle : Str) : Option ℕ :=
  (List.range (haystack.length + 1)).find? fun i ↦ needle.isPrefixOf (haystack.drop i)

/-- ".launch" -/
def launchSuffix : Str := [46, 108, 97, 117, 110, 99, 104]

/-- "skypeplugin.launch" -/
def skypeLauncher : Str := [115, 107, 121, 112, 101, 112, 108, 117, 103, 105, 110] ++ launchSuffix

def cutLaunch (arg : Str) (buf : List UInt8) : List UInt8 :=
  match strstr arg skypeLauncher, strstr arg launchSuffix with
  | some _, some i => buf.set i 0
  | _, _ => buf

def cutSlot (arg : Str) : Slot → Slot
  | .str buf => .str (cutLaunch arg buf)
  | slot => slot

def skypeWorkaround (app : AppData) : Option AppData :=
  (stringAt app.argv 0).map fun arg ↦
    { app with argv := app.argv.map fun slots ↦ slots.modify 0 (cutSlot arg) }

def deleteArgv (app : AppData) : Option AppData :=
  match app.argv with
  | none => some app
  | some slots =>
    let n := app.argc.toInt.toNat
    if n ≤ slots.length ∧ Slot.uninit ∉ slots.take n then some { app with argv := none } else none

/-- What is done with `argv` from the request to the end of an application that
returns and leaves the array alone. -/
def useArgv (t : Title) (parentArgv : List Str) (app : AppData) : Option AppData := do
  let _ ← renameProcess t parentArgv app.argc.toInt app.argv
  let app ← skypeWorkaround app
  deleteArgv app

structure ArgvOf (app : AppData) (slots : List Slot) : Prop where
  argv : app.argv = some slots
  argc : app.argc.toInt = slots.length
  ne : slots ≠ []
  strings : ∀ slot ∈ slots, ∃ buf, slot = .str buf ∧ 0 ∈ buf

def SafeToRun (app : AppData) : Prop :=
  (∃ slots, ArgvOf app slots) ∧ ∀ t parentArgv, (useArgv t parentArgv app).isSome

theorem ArgvOf.stringAt {app : AppData} {slots : List Slot} (h : ArgvOf app slots) {i : ℕ}
    (hi : i < slots.length) : ∃ arg, stringAt app.argv i = some arg := by
  obtain ⟨buf, hs, hz⟩ := h.strings slots[i] (List.getElem_mem hi)
  exact ⟨cstr buf, by simp [Argv.stringAt, h.argv, hi, hs, hz]⟩

theorem ArgvOf.appendArgs {app : AppData} {slots : List Slot} (h : ArgvOf app slots) {n : ℕ}
    (hn : n ≤ slots.length) : ∃ block, appendArgs app.argv n = some block := by
  induction n with
  | zero => exact ⟨[], rfl⟩
  | succ n ih =>
    obtain ⟨block, hb⟩ := ih (by omega)
    obtain ⟨arg, ha⟩ := h.stringAt (i := n) (by omega)
    exact ⟨block ++ arg ++ [0], by simp [Argv.appendArgs, hb, ha]⟩

theorem ArgvOf.renameProcess {app : AppData} {slots : List Slot} (h : ArgvOf app slots)
    (t : Title) (parentArgv : List Str) :
    ∃ t', renameProcess t parentArgv app.argc.toInt app.argv = some t' := by
  obtain ⟨block, hb⟩ := h.appendArgs le_rfl
  obtain ⟨arg, ha⟩ := h.stringAt (List.length_pos_iff.mpr h.ne)
  unfold Argv.renameProcess
  by_cases hc : 0 < app.argc.toInt ∧ parentArgv ≠ []
  · rw [if_pos hc, h.argc, Int.toNat_natCast, hb, ha]
    exact ⟨_, rfl⟩
  · exact ⟨t, if_neg hc⟩

theorem uninit_not_mem_modify {slots : List Slot} (h : .uninit ∉ slots) (arg : Str) :
    .uninit ∉ slots.modify 0 (cutSlot arg) := by
  rcases slots with _ | ⟨_ | _ | _, slots⟩ <;> simp_all [cutSlot]

theorem ArgvOf.deleteArgv {app : AppData} {slots : List Slot} (h : ArgvOf app slots) (arg : Str) :
    ∃ app', deleteArgv { app with
      argv := app.argv.map fun slots ↦ slots.modify 0 (cutSlot arg) } = some app' := by
  have hu : Slot.uninit ∉ slots := by
    intro hm
    obtain ⟨buf, hb, -⟩ := h.strings _ hm
    cases hb
  have hu' := uninit_not_mem_modify hu arg
  have ht : Slot.uninit ∉ (slots.modify 0 (cutSlot arg)).take slots.length :=
    fun hm ↦ hu' (List.mem_of_mem_take hm)
  simp [Argv.deleteArgv, h.argv, h.argc, ht]

theorem ArgvOf.useArgv {app : AppData} {slots : List Slot} (h : ArgvOf app slots) (t : Title)
    (parentArgv : List Str) : (useArgv t parentArgv app).isSome := by
  obtain ⟨t', ht⟩ := h.renameProcess t parentArgv
  obtain ⟨arg, ha⟩ := h.stringAt (List.length_pos_iff.mpr h.ne)
  obtain ⟨app', hd⟩ := h.deleteArgv arg
  simp [Argv.useArgv, ht, skypeWorkaround, ha, hd]

def last {α : Type} (f : Section → Option α) (secs : List Section) : Option α :=
  secs.reverse.findSome? f

def filename : Section → Option Str
  | .exec name => name.map cstr
  | _ => none

def arguments : Section → Option (UInt32 × List (Option (List UInt8)))
  | .args count bufs => some (count, bufs)
  | _ => none

theorem last_append {α : Type} (f : Section → Option α) (secs : List Section) (sec : Section) :
    last f (secs ++ [sec]) = (f sec).or (last f secs) := by
  unfold last
  rw [List.reverse_concat, List.findSome?_cons]
  cases f sec <;> rfl

theorem last_mem {secs : List Section} {count : UInt32} {bufs : List (Option (List UInt8))}
    (h : last arguments secs = some (count, bufs)) : .args count bufs ∈ secs := by
  obtain ⟨sec, hm, hs⟩ := List.exists_of_findSome?_eq_some h
  rw [List.mem_reverse] at hm
  cases sec <;> cases hs
  exact hm

def WellRead : Section → Prop
  | .args count bufs => bufs.length ≤ count.toNat ∧ ∀ buf, some buf ∈ bufs → 0 ∈ buf
  | _ => True

theorem recvStr_nul {s : Socket} {buf : List UInt8} (h : (recvStr s).1 = some buf) : 0 ∈ buf := by
  unfold recvStr at h
  simp only [] at h
  split_ifs at h
  split at h
  · cases h
    simp [terminate]
  · split_ifs at h
    cases h
    simp [terminate]

theorem readStrings_nul (n : ℕ) (s : Socket) (buf : List UInt8)
    (h : some buf ∈ (readStrings n s).1) : 0 ∈ buf := by
  induction n generalizing s with
  | zero => simp [readStrings] at h
  | succ n ih =>
    rcases hr : recvStr s with ⟨_ | arg, s'⟩
    · simp [readStrings, hr] at h
    · simp only [readStrings, hr, List.mem_cons, Option.some.injEq] at h
      rcases h with rfl | h
      · exact recvStr_nul (congrArg Prod.fst hr)
      · exact ih s' h

theorem readSection_wellRead (s : Socket) : WellRead (readSection s).1 := by
  unfold readSection readBody
  split_ifs <;> try trivial
  simp only [WellRead, readList, readBufs]
  split_ifs
  · exact ⟨readStrings_length_le _ _, readStrings_nul _ _⟩
  · simp

theorem sectionsLoop_wellRead (n : ℕ) (s : Socket) {r : List Section × Socket}
    (h : sectionsLoop n s = some r) : ∀ sec ∈ r.1, WellRead sec := by
  induction n generalizing s r with
  | zero => cases h
  | succ n ih =>
    have hw := readSection_wellRead s
    unfold sectionsLoop at h
    split at h
    · cases h
      simpa using hw
    · obtain ⟨r', hr', rfl⟩ := Option.map_eq_some_iff.mp h
      exact List.forall_mem_cons.mpr ⟨hw, ih _ hr'⟩

theorem request_wellRead (s : Socket) : ∀ sec ∈ (request s).1, WellRead sec :=
  sectionsLoop_wellRead _ _ (sectionsLoop_enough _ _ (Nat.lt_succ_self _))

theorem run_append (secs : List Section) (sec : Section) (c : Connection) :
    run (secs ++ [sec]) c = sec.apply (run secs c) := by
  simp [run]

theorem run_last {α : Type} {g : Connection → α} {f : Section → Option α}
    (h : ∀ sec c, g (sec.apply c) = (f sec).getD (g c)) (secs : List Section)
    (c : Connection) : g (run secs c) = (last f secs).getD (g c) := by
  induction secs using List.reverseRecOn with
  | nil => rfl
  | append_singleton secs sec ih =>
    rw [run_append, last_append, h, ih]
    cases f sec <;> rfl

theorem run_fileName (secs : List Section) (c : Connection) :
    (run secs c).fileName = (last filename secs).getD c.fileName := by
  refine run_last (fun sec c ↦ ?_) secs c
  rcases sec with (_ | _) | _ | _ | _ | _ | (_ | _) | _ | _ | _ <;>
    simp [Section.apply, filename, takeFiles_eq, acknowledge_eq]

theorem toSlots_length {count : ℕ} {bufs : List (Option (List UInt8))}
    (h : bufs.length ≤ count) : (toSlots count bufs).length = count := by
  simp only [toSlots, List.length_append, List.length_map, List.length_replicate]
  omega

theorem run_args {secs : List Section} (hw : ∀ sec ∈ secs, WellRead sec) (c : Connection)
    (hc : c.argv = none) :
    (∀ slots, (run secs c).argv = some slots → slots.length < 1024) ∧
      match last arguments secs with
      | none => (run secs c).argv = none
      | some (count, bufs) => (run secs c).argc = count ∧
          (inRange count argMax = true →
            (run secs c).argv = some (toSlots count.toNat bufs)) := by
  induction secs using List.reverseRecOn with
  | nil => simp [run, hc, last]
  | append_singleton secs sec ih =>
    have ih := ih fun s hs ↦ hw s (List.mem_append_left _ hs)
    have hw := hw sec (by simp)
    rw [run_append, last_append]
    rcases sec with (_ | _) | _ | _ | _ | _ | (_ | _) | _ | _ | _
    case args count bufs =>
      refine ⟨?_, rfl, fun h ↦ by simp [Section.apply, h]⟩
      simp only [Section.apply]
      split_ifs with h
      · intro slots hslots
        cases hslots
        simp only [inRange, Bool.and_eq_true, decide_eq_true_eq, UInt32.lt_iff_toNat_lt] at h
        rw [toSlots_length hw.1]
        exact h.2
      · exact ih.1
    all_goals simpa [Section.apply, arguments, takeFiles_eq, acknowledge_eq] using ih

/-- The stream asks for an application by name and file name, up to END. -/
def Launchable (s : Socket) : Prop :=
  (header s).1 ≠ [] ∧ Section.fin ∈ (request s).1 ∧ (last filename (request s).1).getD [] ≠ []

/-- The last section with arguments on the stream has a count in range and all
of its strings arrive. -/
def ArgsComplete (s : Socket) : Prop :=
  ∃ count bufs, last arguments (request s).1 = some (count, bufs) ∧
    inRange count argMax = true ∧ bufs.length = count.toNat ∧ none ∉ bufs

theorem toInt_eq_length {count : UInt32} {n : ℕ} (h : count.toInt32.toInt = n) (hn : n < 1024) :
    count.toNat = n := by
  have hb : count.toInt32.toInt = (count.toNat : ℤ).bmod (2 ^ 32) :=
    BitVec.toInt_eq_toNat_bmod count.toBitVec
  have := count.toNat_lt
  rw [hb, Int.bmod] at h
  split_ifs at h <;> omega

theorem toSlots_strings {count : ℕ} {bufs : List (Option (List UInt8))}
    (h : ∀ slot ∈ toSlots count bufs, ∃ buf, slot = .str buf ∧ 0 ∈ buf) :
    count ≤ bufs.length ∧ none ∉ bufs := by
  constructor
  · by_contra hlt
    obtain ⟨buf, hb, -⟩ := h .uninit (by simp [toSlots]; omega)
    cases hb
  · intro hn
    obtain ⟨buf, hb, -⟩ := h .null (List.mem_append_left _ (List.mem_map.mpr ⟨none, hn, rfl⟩))
    cases hb

theorem argvOf_toSlots {app : AppData} {count : UInt32} {bufs : List (Option (List UInt8))}
    (hargc : app.argc = count.toInt32) (hargv : app.argv = some (toSlots count.toNat bufs))
    (hin : inRange count argMax = true) (hl : bufs.length = count.toNat) (hn : none ∉ bufs)
    (hz : ∀ buf, some buf ∈ bufs → 0 ∈ buf) : ArgvOf app (toSlots count.toNat bufs) := by
  have hlen := toSlots_length hl.le
  simp only [inRange, Bool.and_eq_true, decide_eq_true_eq, UInt32.lt_iff_toNat_lt] at hin
  have hpos : 0 < count.toNat := hin.1
  have hmax : count.toNat < 1024 := hin.2
  constructor
  case argv => exact hargv
  case argc =>
    have hb : count.toInt32.toInt = (count.toNat : ℤ).bmod (2 ^ 32) :=
      BitVec.toInt_eq_toNat_bmod count.toBitVec
    rw [hargc, hlen, hb, Int.bmod]
    split_ifs <;> omega
  case ne => exact List.length_pos_iff.mp (by omega)
  case strings =>
    intro slot hs
    rw [toSlots, hl, Nat.sub_self, List.replicate_zero, List.append_nil] at hs
    obtain ⟨buf, hb, rfl⟩ := List.mem_map.mp hs
    cases buf with
    | none => exact absurd hb hn
    | some buf => exact ⟨buf, rfl, hz buf hb⟩

def received (s : Socket) (gid uid : UInt32) (proc : Process) : Connection :=
  run (request s).1 { identified (Connection.accepted s gid uid proc) with fd := (request s).2 }

theorem received_fileName (s : Socket) (gid uid : UInt32) (proc : Process) :
    (received s gid uid proc).fileName = (last filename (request s).1).getD [] :=
  run_fileName _ _

theorem accepted_iff (s : Socket) (gid uid : UInt32) (proc : Process) (app : AppData) :
    (receiveApplicationData app (Connection.accepted s gid uid proc)).1 = true ↔
      (header s).1 ≠ [] ∧ Section.fin ∈ (request s).1 := by
  have hfd : (Connection.accepted s gid uid proc).fd = s := rfl
  rw [receiveApplicationData_eq, hfd]
  split_ifs with hn hf
  · simp [hn]
  · simp [hn, hf]
  · simp [hf]

theorem received_app {s : Socket} {gid uid : UInt32} {proc : Process} {app : AppData}
    (h : (receiveApplicationData app (Connection.accepted s gid uid proc)).1 = true) :
    let app' := (receiveApplicationData app (Connection.accepted s gid uid proc)).2.1
    app'.fileName = (received s gid uid proc).fileName ∧
      app'.argc = (received s gid uid proc).argc.toInt32 ∧
      app'.argv = (received s gid uid proc).argv := by
  rw [receiveApplicationData_eq] at h ⊢
  split_ifs at h ⊢
  exact ⟨rfl, rfl, rfl⟩

theorem launchable_iff (s : Socket) (gid uid : UInt32) (proc : Process) (app : AppData) :
    let r := receiveApplicationData app (Connection.accepted s gid uid proc)
    (r.1 = true ∧ r.2.1.fileName ≠ []) ↔ Launchable s := by
  intro r
  rw [Launchable, ← and_assoc, ← accepted_iff s gid uid proc app, ← received_fileName s gid uid proc]
  refine and_congr_right fun h ↦ ?_
  rw [(received_app h).1]

theorem safe_iff_complete {s : Socket} {gid uid : UInt32} {proc : Process} {app : AppData}
    (hargc : app.argc = (received s gid uid proc).argc.toInt32)
    (hargv : app.argv = (received s gid uid proc).argv) :
    SafeToRun app ↔ ArgsComplete s := by
  obtain ⟨hshort, hlast⟩ := run_args (request_wellRead s)
    { identified (Connection.accepted s gid uid proc) with fd := (request s).2 } rfl
  constructor
  · intro hsafe
    obtain ⟨⟨slots, h⟩, -⟩ := hsafe
    have hslots := hargv.symm.trans h.argv
    have hlt := hshort slots hslots
    have hpos := List.length_pos_iff.mpr h.ne
    split at hlast
    · rw [received, hlast] at hslots
      cases hslots
    · rename_i count bufs hl
      have hcount : count.toNat = slots.length := by
        have hint := h.argc
        rw [hargc, received, hlast.1] at hint
        exact toInt_eq_length hint hlt
      have hin : inRange count argMax = true := by
        simp only [inRange, Bool.and_eq_true, decide_eq_true_eq, UInt32.lt_iff_toNat_lt, hcount]
        exact ⟨hpos, hlt⟩
      obtain rfl : toSlots count.toNat bufs = slots := by
        rw [received, hlast.2 hin] at hslots
        exact Option.some.inj hslots
      obtain ⟨hle, hn⟩ := toSlots_strings h.strings
      have hw := request_wellRead s _ (last_mem hl)
      exact ⟨count, bufs, hl, hin, le_antisymm hw.1 hle, hn⟩
  · intro hcomplete
    obtain ⟨count, bufs, hl, hin, hlen, hn⟩ := hcomplete
    rw [hl] at hlast
    have hw := request_wellRead s _ (last_mem hl)
    have h : ArgvOf app (toSlots count.toNat bufs) :=
      argvOf_toSlots (hargc.trans (congrArg UInt32.toInt32 hlast.1)) (hargv.trans (hlast.2 hin))
        hin hlen hn hw.2
    exact ⟨⟨_, h⟩, h.useArgv⟩

/-- An accepted request with a file name is safe to run exactly if the last
list of arguments on the stream is complete. -/
theorem safeToRun_iff (s : Socket) (gid uid : UInt32) (proc : Process) (app : AppData) :
    let r := receiveApplicationData app (Connection.accepted s gid uid proc)
    (r.1 = true → r.2.1.fileName ≠ [] → SafeToRun r.2.1) ↔ (Launchable s → ArgsComplete s) := by
  intro r
  rw [← and_imp]
  apply imp_congr_ctx (launchable_iff s gid uid proc app)
  intro h
  have hr := ((launchable_iff s gid uid proc app).mpr h).1
  obtain ⟨-, hargc, hargv⟩ := received_app hr
  exact safe_iff_complete hargc hargv

def withoutArgs : List Cell :=
  invokerSendMagic 0 ++ (invokerSendName [97] ++ (invokerSendExec [47, 97] ++ invokerSendEnd))

theorem withoutArgs_unsafe :
    let r := receiveApplicationData AppData.new (Connection.accepted (whole withoutArgs) 0 0 ⟨1, [], []⟩)
    ¬(r.1 = true → r.2.1.fileName ≠ [] → SafeToRun r.2.1) := by
  intro r h
  obtain ⟨⟨slots, hs⟩, -⟩ := h (by decide) (by decide)
  have hnone : r.2.1.argv = none := by decide
  rw [hs.argv] at hnone
  cases hnone

end Applauncherd.Launcherlib.Argv
