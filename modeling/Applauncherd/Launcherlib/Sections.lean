import Applauncherd.Launcherlib.Receive

namespace Applauncherd.Launcherlib.Sections

open Library Library.Environ Library.DescriptorTable Protocol ReadSocket Receive

/-- What one round of `receiveActions` finds on the stream, before the booster
does anything with it. A list of strings ends at the first that is refused. -/
inductive Section
  | exec (filename : Option (List UInt8))
  | args (count : UInt32) (strings : List (Option (List UInt8)))
  | env (count : UInt32) (vars : List (Option (List UInt8)))
  | prio (w : UInt32)
  | delay (w : UInt32)
  | io (files : Option (List OpenFile))
  | ids (uid gid : UInt32)
  | fin
  | invalid (w : UInt32)
  deriving DecidableEq, Repr

def readStrings : ℕ → Socket → List (Option (List UInt8)) × Socket
  | 0, s => ([], s)
  | n + 1, s =>
    match recvStr s with
    | (none, s) => ([none], s)
    | (some buf, s) =>
      let (bufs, s) := readStrings n s
      (some buf :: bufs, s)

def inRange (count bound : UInt32) : Bool := 0 < count && count < bound

def readBufs (bound count : UInt32) (s : Socket) : List (Option (List UInt8)) × Socket :=
  if inRange count bound then readStrings count.toNat s else ([], s)

def readList (bound : UInt32) (s : Socket) : (UInt32 × List (Option (List UInt8))) × Socket :=
  let (_, count, s) := recvMsg s
  ((count, (readBufs bound count s).1), (readBufs bound count s).2)

def readBody (action : UInt32) (s : Socket) : Section × Socket :=
  if action = invokerMsgExec then (.exec (recvStr s).1, (recvStr s).2)
  else if action = invokerMsgArgs then
    (.args (readList argMax s).1.1 (readList argMax s).1.2, (readList argMax s).2)
  else if action = invokerMsgEnv then
    (.env (readList maxVars s).1.1 (readList maxVars s).1.2, (readList maxVars s).2)
  else if action = invokerMsgPrio then (.prio (recvMsg s).2.1, (recvMsg s).2.2)
  else if action = invokerMsgDelay then (.delay (recvMsg s).2.1, (recvMsg s).2.2)
  else if action = invokerMsgIo then (.io (recvmsg s).1, (recvmsg s).2)
  else if action = invokerMsgIds then
    (.ids (recvMsg s).2.1 (recvMsg (recvMsg s).2.2).2.1, (recvMsg (recvMsg s).2.2).2.2)
  else if action = invokerMsgEnd then (.fin, s)
  else (.invalid action, s)

def readSection (s : Socket) : Section × Socket := readBody (recvMsg s).2.1 (recvMsg s).2.2

def toSlot : Option (List UInt8) → Slot
  | none => .null
  | some buf => .str buf

def toSlots (count : ℕ) (bufs : List (Option (List UInt8))) : List Slot :=
  bufs.map toSlot ++ List.replicate (count - bufs.length) .uninit

def storeVar (environ : List Str) (var : Option (List UInt8)) : List Str :=
  match var with
  | none => environ
  | some buf => if putenvSanitize (cstr buf) then putenv environ (cstr buf) else environ

def takeFiles (c : Connection) (files : List OpenFile) : Connection :=
  let (ns, table) := installAll c.proc.files (files.take controlRoom)
  let c := { c with proc := { c.proc with files := table } }
  if files.length = 3 then { c with io := ns.map (↑) } else c

def Section.apply (c : Connection) : Section → Connection
  | .exec none => c
  | .exec (some buf) => { c with fileName := cstr buf }
  | .args count bufs =>
    { c with
      argc := count
      argv := if inRange count argMax then some (toSlots count.toNat bufs) else c.argv }
  | .env _ bufs => { c with proc := { c.proc with environ := bufs.foldl storeVar [] } }
  | .prio w => { c with priority := w }
  | .delay w => { c with delay := w }
  | .io none => c
  | .io (some files) => takeFiles c files
  | .ids u g => { c with uid := u, gid := g }
  | .fin => acknowledge c
  | .invalid _ => c

def Section.verdict : Section → Option Bool
  | .fin => some true
  | .invalid _ => some false
  | _ => none

theorem readStrings_length_le (n : ℕ) (s : Socket) : (readStrings n s).1.length ≤ n := by
  induction n generalizing s with
  | zero => simp [readStrings]
  | succ n ih =>
    unfold readStrings
    split
    · simp
    · simpa using ih _

theorem receiveArgv_eq (n : ℕ) (s : Socket) :
    receiveArgv n s = ((readStrings n s).1.all Option.isSome,
      toSlots n (readStrings n s).1, (readStrings n s).2) := by
  induction n generalizing s with
  | zero => rfl
  | succ n ih =>
    rcases h : recvStr s with ⟨_ | buf, s'⟩
    · simp [receiveArgv, readStrings, h, toSlots, toSlot]
    · simp [receiveArgv, readStrings, h, ih, toSlots, toSlot]

theorem receiveVars_eq (n : ℕ) (c : Connection) :
    (receiveVars n c).2 = { c with
      fd := (readStrings n c.fd).2
      proc := { c.proc with
        environ := (readStrings n c.fd).1.foldl storeVar c.proc.environ } } := by
  induction n generalizing c with
  | zero => rfl
  | succ n ih =>
    rcases h : recvStr c.fd with ⟨_ | buf, s'⟩
    · simp [receiveVars, readStrings, h, storeVar]
    · simp [receiveVars, readStrings, h, ih, storeVar]

theorem receiveExec_eq (c : Connection) :
    (receiveExec c).2 = (Section.exec (recvStr c.fd).1).apply { c with fd := (recvStr c.fd).2 } := by
  unfold receiveExec
  rcases recvStr c.fd with ⟨_ | buf, s⟩ <;> rfl

theorem receiveArgs_eq (c : Connection) :
    (receiveArgs c).2 = (Section.args (readList argMax c.fd).1.1 (readList argMax c.fd).1.2).apply
      { c with fd := (readList argMax c.fd).2 } := by
  unfold receiveArgs readList readBufs
  rcases recvMsg c.fd with ⟨res, count, s⟩
  by_cases h : 0 < count ∧ count < argMax
  · simp [h, inRange, Section.apply, receiveArgv_eq]
  · simp [h, inRange, Section.apply]

theorem receiveEnv_eq (c : Connection) :
    (receiveEnv (clearenv c)).2 =
      (Section.env (readList maxVars c.fd).1.1 (readList maxVars c.fd).1.2).apply
        { c with fd := (readList maxVars c.fd).2 } := by
  unfold receiveEnv readList readBufs clearenv
  rcases recvMsg c.fd with ⟨res, count, s⟩
  by_cases h : 0 < count ∧ count < maxVars
  · simp [h, inRange, Section.apply, receiveVars_eq]
  · simp [h, inRange, Section.apply]

theorem receiveIo_eq (c : Connection) :
    (receiveIo c).2 = (Section.io (recvmsg c.fd).1).apply { c with fd := (recvmsg c.fd).2 } := by
  unfold receiveIo
  rcases recvmsg c.fd with ⟨_ | files, s⟩
  · rfl
  · simp only [Section.apply, takeFiles]
    split_ifs <;> rfl

theorem receiveAction_eq (c : Connection) :
    receiveAction c = ((readSection c.fd).1.verdict,
      (readSection c.fd).1.apply { c with fd := (readSection c.fd).2 }) := by
  unfold receiveAction readSection readBody
  rcases recvMsg c.fd with ⟨res, action, s⟩
  simp only []
  split_ifs
  · rw [receiveExec_eq]
    rfl
  · rw [receiveArgs_eq]
    rfl
  · rw [receiveEnv_eq]
    rfl
  · rfl
  · rfl
  · rw [receiveIo_eq]
    rfl
  · rfl
  · rfl
  · rfl

def sectionsLoop : ℕ → Socket → Option (List Section × Socket)
  | 0, _ => none
  | n + 1, s =>
    match (readSection s).1.verdict with
    | some _ => some ([(readSection s).1], (readSection s).2)
    | none => (sectionsLoop n (readSection s).2).map fun r ↦ ((readSection s).1 :: r.1, r.2)

def sections (s : Socket) : List Section × Socket :=
  (sectionsLoop (s.stream.length + 1) s).getD ([], s)

def run (secs : List Section) (c : Connection) : Connection := secs.foldl Section.apply c

theorem readStrings_stream_le (n : ℕ) (s : Socket) :
    (readStrings n s).2.stream.length ≤ s.stream.length := by
  induction n generalizing s with
  | zero => exact le_rfl
  | succ n ih =>
    have h := recvStr_length_le s
    rcases hr : recvStr s with ⟨_ | buf, s'⟩ <;> rw [hr] at h
    · simpa [readStrings, hr] using h
    · simpa [readStrings, hr] using (ih s').trans h

theorem readList_stream_le (bound : UInt32) (s : Socket) :
    (readList bound s).2.stream.length ≤ s.stream.length := by
  refine le_trans ?_ (recvMsg_length_le s)
  simp only [readList, readBufs]
  split_ifs
  · exact readStrings_stream_le _ _
  · exact le_rfl

theorem readBody_stream_le (action : UInt32) (s : Socket) :
    (readBody action s).2.stream.length ≤ s.stream.length := by
  unfold readBody
  split_ifs
  · exact recvStr_length_le s
  · exact readList_stream_le _ s
  · exact readList_stream_le _ s
  · exact recvMsg_length_le s
  · exact recvMsg_length_le s
  · exact recvmsg_length_le s
  · exact (recvMsg_length_le _).trans (recvMsg_length_le s)
  · exact le_rfl
  · exact le_rfl

theorem readBody_invalid {action : UInt32} (h : action ∉ actions) (s : Socket) :
    readBody action s = (.invalid action, s) := by
  simp only [actions, List.mem_cons, List.not_mem_nil, or_false, not_or] at h
  simp [readBody, h]

theorem readSection_consumes (s : Socket) (h : (readSection s).1.verdict = none) :
    (readSection s).2.stream.length < s.stream.length := by
  have hne : (recvMsg s).2.1 ≠ 0 := by
    intro h0
    rw [readSection, h0, readBody_invalid (by decide)] at h
    cases h
  have hword := recvMsg_consumes s hne
  have hbody := readBody_stream_le (recvMsg s).2.1 (recvMsg s).2.2
  unfold readSection
  omega

theorem sectionsLoop_stable (n : ℕ) (s : Socket) (hn : s.stream.length < n) :
    ∃ r, ∀ m, s.stream.length < m → sectionsLoop m s = some r := by
  induction n generalizing s with
  | zero => omega
  | succ n ih =>
    cases hv : (readSection s).1.verdict with
    | some b =>
      refine ⟨([(readSection s).1], (readSection s).2), fun m hm ↦ ?_⟩
      obtain ⟨m, rfl⟩ : ∃ k, m = k + 1 := ⟨m - 1, by omega⟩
      simp [sectionsLoop, hv]
    | none =>
      have hlt := readSection_consumes s hv
      obtain ⟨r, hr⟩ := ih (readSection s).2 (by omega)
      refine ⟨((readSection s).1 :: r.1, r.2), fun m hm ↦ ?_⟩
      obtain ⟨m, rfl⟩ : ∃ k, m = k + 1 := ⟨m - 1, by omega⟩
      simp [sectionsLoop, hv, hr m (by omega)]

theorem sectionsLoop_enough (n : ℕ) (s : Socket) (hn : s.stream.length < n) :
    sectionsLoop n s = some (sections s) := by
  obtain ⟨r, hr⟩ := sectionsLoop_stable n s hn
  simp [sections, hr n hn, hr (s.stream.length + 1) (by omega)]

theorem sections_last (s : Socket) (b : Bool) (h : (readSection s).1.verdict = some b) :
    sections s = ([(readSection s).1], (readSection s).2) := by
  simp [sections, sectionsLoop, h]

theorem sections_more (s : Socket) (h : (readSection s).1.verdict = none) :
    sections s = ((readSection s).1 :: (sections (readSection s).2).1,
      (sections (readSection s).2).2) := by
  have hlt := readSection_consumes s h
  simp [sections, sectionsLoop, h, sectionsLoop_enough s.stream.length _ hlt]

theorem acknowledge_eq (c : Connection) : acknowledge c = { c with
    sent := c.sent ++ invokerMsgAck :: if c.sendPid then [invokerMsgPid, c.proc.pid] else [] } := by
  unfold acknowledge Receive.sendPid sendMsg
  split_ifs with h <;> simp [h]

theorem takeFiles_eq (c : Connection) (files : List OpenFile) : takeFiles c files = { c with
    io := if files.length = 3 then
      (installAll c.proc.files (files.take controlRoom)).1.map (↑) else c.io
    proc := { c.proc with
      files := (installAll c.proc.files (files.take controlRoom)).2 } } := by
  unfold takeFiles
  split_ifs <;> rfl

theorem apply_fd (sec : Section) (c : Connection) (s : Socket) :
    sec.apply { c with fd := s } = { sec.apply c with fd := s } := by
  rcases sec with (_ | _) | _ | _ | _ | _ | (_ | _) | _ | _ | _ <;> try rfl
  · simp only [Section.apply, takeFiles_eq]
  · simp only [Section.apply, acknowledge_eq]

theorem receiveActionsLoop_eq (n : ℕ) (c : Connection) :
    receiveActionsLoop n c = (sectionsLoop n c.fd).map fun r ↦
      (decide (Section.fin ∈ r.1), run r.1 { c with fd := r.2 }) := by
  induction n generalizing c with
  | zero => rfl
  | succ n ih =>
    rw [receiveActionsLoop, receiveAction_eq, sectionsLoop]
    cases hv : (readSection c.fd).1.verdict with
    | none =>
      have hne : Section.fin ≠ (readSection c.fd).1 := fun h ↦ by rw [← h] at hv; cases hv
      simp [ih, apply_fd, run, hne, Function.comp_def]
    | some b =>
      generalize (readSection c.fd).1 = sec at hv ⊢
      cases sec <;> cases hv <;> rfl

/-- The decoder accepts when the stream's sections reach an END, and then it
has applied all of them in order. -/
theorem receiveActions_eq (c : Connection) :
    receiveActions c = (decide (Section.fin ∈ (sections c.fd).1),
      run (sections c.fd).1 { c with fd := (sections c.fd).2 }) := by
  unfold receiveActions
  rw [receiveActionsLoop_eq, sectionsLoop_enough _ _ (Nat.lt_succ_self _)]
  rfl

end Applauncherd.Launcherlib.Sections
