import Applauncherd.Launcherlib.Argv
import Applauncherd.Invoker.InvokeRemote

namespace Applauncherd.Launcherlib.Truncation

open Library Library.Environ Protocol ReadSocket Receive Sections Magic Decode RoundTrip Argv
open Invoker.Send Invoker.InvokeRemote

variable {α β : Type}

/-- Where the stream is cut, a reader either reads what it reads on the whole
stream, or it reaches the end-of-file. -/
structure Prefixed (f : Socket → α × Socket) : Prop where
  at_end : (f (whole [])).2 = whole []
  cut : ∀ p q, (∃ x p', f (whole p) = (x, whole p') ∧ f (whole (p ++ q)) = (x, whole (p' ++ q))) ∨
    (f (whole p)).2 = whole []

theorem Prefixed.pure (x : α) : Prefixed fun s ↦ (x, s) :=
  ⟨rfl, fun p _ ↦ .inl ⟨x, p, rfl, rfl⟩⟩

theorem Prefixed.map {f : Socket → α × Socket} (hf : Prefixed f) (k : α → β) :
    Prefixed fun s ↦ (k (f s).1, (f s).2) := by
  refine ⟨hf.at_end, fun p q ↦ ?_⟩
  obtain ⟨x, p', hp, hq⟩ | h := hf.cut p q
  · exact .inl ⟨k x, p', by rw [hp], by rw [hq]⟩
  · exact .inr h

theorem Prefixed.bind {f : Socket → α × Socket} {g : α → Socket → β × Socket} (hf : Prefixed f)
    (hg : ∀ x, Prefixed (g x)) : Prefixed fun s ↦ g (f s).1 (f s).2 := by
  refine ⟨?_, fun p q ↦ ?_⟩
  · rw [hf.at_end]
    exact (hg _).at_end
  · obtain ⟨x, p', hp, hq⟩ | h := hf.cut p q
    · simp only [hp, hq]
      exact (hg x).cut p' q
    · right
      rw [h]
      exact (hg _).at_end

theorem transfer_prefixed (n : ℕ) : Prefixed fun s ↦ s.transfer n := by
  refine ⟨by simp, fun p q ↦ ?_⟩
  by_cases h : n ≤ p.length
  · left
    refine ⟨.ok (p.take n), p.drop n, rfl, ?_⟩
    rw [transfer_whole, List.take_append_of_le_length h, List.drop_append_of_le_length h]
  · right
    rw [transfer_whole, List.drop_eq_nil_of_le (by omega)]

def wordOf : Except (List UInt8) (List Cell) → UInt32
  | .error _ => 0
  | .ok cells => if cells.length < 4 then 0 else Word.decode (cells.map Cell.byte)

theorem recvMsg_eq (s : Socket) :
    (recvMsg s).2 = (wordOf (s.transfer 4).1, (s.transfer 4).2) := by
  unfold recvMsg wordOf
  rcases s.transfer 4 with ⟨_ | cells, s'⟩
  · rfl
  · simp only []
    split_ifs <;> rfl

theorem recvMsg_prefixed : Prefixed fun s ↦ (recvMsg s).2 := by
  simp only [recvMsg_eq]
  exact (transfer_prefixed 4).map wordOf

def bufOf (size : UInt32) : Except (List UInt8) (List Cell) → Option (List UInt8)
  | .error junk => some (terminate (fresh junk size.toNat))
  | .ok cells =>
    if UInt32.ofNat cells.length < size then none else some (terminate (cells.map Cell.byte))

def readBuf (size : UInt32) (s : Socket) : Option (List UInt8) × Socket :=
  if size = 0 ∨ strLenMax < size then (none, s)
  else (bufOf size (s.transfer size.toNat).1, (s.transfer size.toNat).2)

theorem recvMsg_failed {s : Socket} (h : (recvMsg s).1 = false) : (recvMsg s).2.1 = 0 := by
  unfold recvMsg at h ⊢
  generalize s.transfer 4 = r at h ⊢
  obtain ⟨_ | cells, s'⟩ := r
  · rfl
  · simp only [] at h
    split_ifs at h

theorem recvStr_eq (s : Socket) : recvStr s = readBuf (recvMsg s).2.1 (recvMsg s).2.2 := by
  have hfail := @recvMsg_failed s
  unfold recvStr readBuf
  generalize recvMsg s = r at hfail ⊢
  obtain ⟨res, size, s'⟩ := r
  by_cases hsize : size = 0 ∨ strLenMax < size
  · have hc : (!res || size == 0 || decide (strLenMax < size)) = true := by
      obtain h | h := hsize <;> simp [h]
    simp only [hc, if_true, hsize]
  · have hres : res = true := by
      cases res
      · exact absurd (.inl (hfail rfl)) hsize
      · rfl
    have hc : (!res || size == 0 || decide (strLenMax < size)) = false := by
      simp only [not_or] at hsize
      simp [hres, hsize.1, hsize.2]
    simp only [hc, hsize, Bool.false_eq_true, if_false, bufOf]
    rcases s'.transfer size.toNat with ⟨junk | cells, s''⟩
    · rfl
    · simp only []
      split_ifs <;> rfl

theorem recvStr_prefixed : Prefixed recvStr := by
  have hr : recvStr = fun s ↦ readBuf (recvMsg s).2.1 (recvMsg s).2.2 := funext recvStr_eq
  rw [hr]
  refine recvMsg_prefixed.bind fun size ↦ ?_
  unfold readBuf
  split_ifs
  · exact .pure none
  · exact (transfer_prefixed _).map _

theorem readStrings_prefixed (n : ℕ) : Prefixed (readStrings n) := by
  induction n with
  | zero => exact .pure []
  | succ n ih =>
    let next : Option (List UInt8) → Socket → List (Option (List UInt8)) × Socket
      | none, s => ([none], s)
      | some buf, s => (some buf :: (readStrings n s).1, (readStrings n s).2)
    have hr : readStrings (n + 1) = fun s ↦ next (recvStr s).1 (recvStr s).2 := by
      funext s
      unfold readStrings
      rcases recvStr s with ⟨_ | buf, s'⟩ <;> rfl
    rw [hr]
    refine recvStr_prefixed.bind fun var ↦ ?_
    cases var with
    | none => exact .pure [none]
    | some buf => exact ih.map (some buf :: ·)

theorem readList_prefixed (bound : UInt32) : Prefixed (readList bound) := by
  let list : UInt32 → Socket → (UInt32 × List (Option (List UInt8))) × Socket := fun count s ↦
    ((count, (readBufs bound count s).1), (readBufs bound count s).2)
  have hr : readList bound = fun s ↦ list (recvMsg s).2.1 (recvMsg s).2.2 := rfl
  rw [hr]
  refine recvMsg_prefixed.bind fun count ↦ ?_
  have hb : Prefixed (readBufs bound count) := by
    unfold readBufs
    split_ifs
    · exact readStrings_prefixed _
    · exact .pure []
  exact hb.map (count, ·)

theorem recvmsg_prefixed : Prefixed recvmsg := by
  let filesOf : Except (List UInt8) (List Cell) → Option (List OpenFile)
    | .error _ => none
    | .ok cells => some (cells.flatMap Cell.files)
  have hr : recvmsg = fun s ↦ (filesOf (s.transfer 1).1, (s.transfer 1).2) := by
    funext s
    unfold recvmsg
    rcases s.transfer 1 with ⟨_ | cells, s'⟩ <;> rfl
  rw [hr]
  exact (transfer_prefixed 1).map filesOf

theorem readBody_prefixed (action : UInt32) : Prefixed (readBody action) := by
  unfold readBody
  split_ifs
  · exact recvStr_prefixed.map _
  · exact (readList_prefixed argMax).map fun l ↦ Section.args l.1 l.2
  · exact (readList_prefixed maxVars).map fun l ↦ Section.env l.1 l.2
  · exact recvMsg_prefixed.map Section.prio
  · exact recvMsg_prefixed.map Section.delay
  · exact recvmsg_prefixed.map Section.io
  · let ids : UInt32 → Socket → Section × Socket := fun uid s ↦
      (.ids uid (recvMsg s).2.1, (recvMsg s).2.2)
    have hi : Prefixed fun s ↦ ids (recvMsg s).2.1 (recvMsg s).2.2 :=
      recvMsg_prefixed.bind fun uid ↦ recvMsg_prefixed.map (Section.ids uid)
    exact hi
  · exact .pure Section.fin
  · exact .pure (Section.invalid action)

theorem readSection_prefixed : Prefixed readSection := recvMsg_prefixed.bind readBody_prefixed

theorem header_prefixed : Prefixed header := by
  have hn : Prefixed readName := by
    let name : UInt32 → Socket → Str × Socket := fun msg s ↦
      if msg ≠ invokerMsgName then ([], s)
      else (((recvStr s).1.map cstr).getD [], (recvStr s).2)
    have hr : readName = fun s ↦ name (recvMsg s).2.1 (recvMsg s).2.2 := by
      funext s
      unfold readName
      rfl
    rw [hr]
    refine recvMsg_prefixed.bind fun msg ↦ ?_
    simp only [name]
    split_ifs
    · exact .pure []
    · exact recvStr_prefixed.map fun buf ↦ (buf.map cstr).getD []
  exact recvMsg_prefixed.bind fun _ ↦ hn

theorem refused_end : Refused (whole []) := refused_of_invalid (by decide)

theorem readBody_fin {action : UInt32} {s : Socket} (h : (readBody action s).1 = .fin) :
    action = invokerMsgEnd := by
  unfold readBody at h
  split_ifs at h
  assumption

theorem readSection_fin {p : List Cell} (h : (readSection (whole p)).1 = .fin) (q : List Cell) :
    readSection (whole p) = (.fin, whole (p.drop 4)) ∧
      readSection (whole (p ++ q)) = (.fin, whole (p.drop 4 ++ q)) := by
  have hw : (recvMsg (whole p)).2.1 = invokerMsgEnd := readBody_fin h
  have hlen : 4 ≤ p.length := by
    have hc := recvMsg_consumes (whole p) (by rw [hw]; decide)
    change _ ≤ p.length at hc
    omega
  have hp : (recvMsg (whole p)).2.2 = whole (p.drop 4) := by
    rw [recvMsg_eq, transfer_whole]
  have hq : (recvMsg (whole (p ++ q))).2 = (invokerMsgEnd, whole (p.drop 4 ++ q)) := by
    rw [recvMsg_eq, transfer_whole] at hw ⊢
    rw [List.take_append_of_le_length hlen, List.drop_append_of_le_length hlen, ← hw]
  constructor
  · rw [readSection, hw, hp]
    rfl
  · rw [readSection, hq]
    rfl

theorem sections_append {p : List Cell} (h : Section.fin ∈ (sections (whole p)).1)
    (q : List Cell) : ∃ secs p', sections (whole p) = (secs, whole p') ∧
      sections (whole (p ++ q)) = (secs, whole (p' ++ q)) := by
  induction hn : p.length using Nat.strong_induction_on generalizing p with
  | h n ih =>
    cases hv : (readSection (whole p)).1.verdict with
    | some b =>
      have hs := sections_last (whole p) b hv
      have hfin : (readSection (whole p)).1 = .fin := by
        rw [hs] at h
        exact (List.mem_singleton.mp h).symm
      obtain ⟨hp, hq⟩ := readSection_fin hfin q
      have hs' := sections_last (whole (p ++ q)) true (by rw [hq]; rfl)
      rw [hp] at hs
      rw [hq] at hs'
      exact ⟨[.fin], p.drop 4, hs, hs'⟩
    | none =>
      have hmore := sections_more (whole p) hv
      have hfin : Section.fin ∈ (sections (readSection (whole p)).2).1 := by
        rw [hmore] at h
        obtain heq | hm := List.mem_cons.mp h
        · rw [← heq] at hv
          cases hv
        · exact hm
      have hlt := readSection_consumes (whole p) hv
      obtain ⟨sec, p', hp, hq⟩ | hend := readSection_prefixed.cut p q
      · rw [hp] at hv hfin hlt
        have hs := sections_cons hp hv
        have hs' := sections_cons hq hv
        obtain ⟨secs, p'', hp', hq'⟩ := ih p'.length (hn ▸ hlt) hfin rfl
        rw [hp'] at hs
        rw [hq'] at hs'
        exact ⟨sec :: secs, p'', hs, hs'⟩
      · rw [hend] at hfin
        exact absurd hfin refused_end

theorem request_append {p : List Cell} (hn : (header (whole p)).1 ≠ [])
    (h : Section.fin ∈ (request (whole p)).1) (q : List Cell) :
    ∃ secs p', (header (whole (p ++ q))).1 ≠ [] ∧ Section.fin ∈ secs ∧
      request (whole (p ++ q)) = (secs, whole (p' ++ q)) := by
  obtain ⟨name, p', hp, hq⟩ | hend := header_prefixed.cut p q
  · rw [request, hp] at h
    obtain ⟨secs, p'', hs, hs'⟩ := sections_append h q
    rw [hs] at h
    refine ⟨secs, p'', ?_, h, ?_⟩
    · rw [hq]
      rwa [hp] at hn
    · rw [request, hq]
      exact hs'
  · rw [request, hend] at h
    exact absurd h refused_end

/-- No action has a 0x71 in its second byte. -/
theorem shifted_not_action {bs : List UInt8} (h : bs.length = 4) (h1 : bs[1]? = some 0x71) :
    Word.decode bs ∉ actions := by
  intro ha
  have hall : actions.all fun w ↦ decide ((Word.encode w)[1]? ≠ some 0x71) := rfl
  have hne := of_decide_eq_true (List.all_eq_true.mp hall _ ha)
  rw [Word.encode_decode h] at hne
  exact hne h1

/-- With the descriptors unsent the booster takes the first byte of the
environment's action for theirs, and the rest of it for the next action. -/
theorem refused_unsent (dummy : UInt8) (r : LaunchRequest) :
    Refused (whole (sendActions false dummy r)) := by
  refine refused_upto_ids fun _ _ ↦ ?_
  have hsend : invokerSendIo false dummy r.files ++
      (invokerSendEnv r.environ ++ invokerSendEnd) = invokeSendMsg invokerMsgIo ++
        (invokeSendMsg invokerMsgEnv ++ (sendList r.environ ++ invokerSendEnd)) := by
    simp [invokerSendIo, invokerSendEnv]
  rw [hsend, refused_body rfl]
  change Refused (recvmsg _).2
  apply refused_of_invalid
  obtain ⟨cell, rest, hrest⟩ : ∃ cell rest, sendList r.environ ++ invokerSendEnd = cell :: rest :=
    ⟨_, _, rfl⟩
  rw [hrest]
  have hw : (recvMsg (recvmsg (whole (invokeSendMsg invokerMsgEnv ++ cell :: rest))).2).2.1 =
      Word.decode [0, 0x71, 0xe5, cell.byte] := rfl
  rw [hw]
  exact shifted_not_action rfl rfl

theorem run_sent {secs : List Section} (h : Section.fin ∉ secs) (c : Connection) :
    (run secs c).sent = c.sent := by
  induction secs generalizing c with
  | nil => rfl
  | cons sec secs ih =>
    rw [List.mem_cons, not_or] at h
    have hsec : (sec.apply c).sent = c.sent := by
      rcases sec with (_ | _) | _ | _ | _ | _ | (_ | _) | _ | _ | _ <;> try rfl
      · simp only [Section.apply, takeFiles_eq]
      · exact absurd rfl h.1
    exact (ih h.2 _).trans hsec

theorem refused_sent {app : AppData} {c : Connection}
    (h : (receiveApplicationData app c).1 = false) :
    (receiveApplicationData app c).2.2.sent = c.sent := by
  rw [receiveApplicationData_eq] at h ⊢
  split_ifs at h ⊢ with hn hf
  · rfl
  · exact run_sent hf _

theorem receiveActions_returns (c : Connection) {n : ℕ} (hn : c.fd.stream.length < n) :
    receiveActionsLoop n c = some (receiveActions c) := by
  rw [receiveActionsLoop_eq, sectionsLoop_enough _ _ hn, receiveActions_eq]
  rfl

theorem nothing_unread {r : LaunchRequest} {sendmsgOk : Bool} {dummy : UInt8}
    (hn : (header (whole (invokeRemoteSends sendmsgOk dummy r))).1 ≠ [])
    (h : Section.fin ∈ (request (whole (invokeRemoteSends sendmsgOk dummy r))).1) :
    (request (whole (invokeRemoteSends sendmsgOk dummy r))).2 = whole [] := by
  have hname : r.name.length ≤ 4095 := by
    by_contra hl
    exact hn (header_send_over (by omega) sendmsgOk dummy)
  rw [request, header_send hname] at h ⊢
  cases sendmsgOk with
  | false => exact absurd h (refused_unsent dummy r)
  | true =>
    by_cases hl : r.progName.length ≤ 4095 ∧ ListOk 1024 r.argv ∧ ListOk 1024 r.environ
    · rw [sections_request ⟨hname, hl.1, hl.2.1, hl.2.2⟩]
    · exact absurd h (refused_request hl dummy)

/-- A request that is cut off anywhere is refused. -/
theorem truncated_refused (r : LaunchRequest) (sendmsgOk : Bool) (dummy : UInt8)
    {p : List Cell} (hp : p <+: invokeRemoteSends sendmsgOk dummy r)
    (hne : p ≠ invokeRemoteSends sendmsgOk dummy r) (gid uid : UInt32) (proc : Process) :
    let c := Connection.accepted (whole p) gid uid proc
    (receiveApplicationData AppData.new c).1 = false ∧
      (receiveApplicationData AppData.new c).2.2.sent = [] ∧
      ∀ c' n, c'.fd.stream.length < n → receiveActionsLoop n c' = some (receiveActions c') := by
  intro c
  have hr : (receiveApplicationData AppData.new c).1 = false := by
    by_contra ht
    obtain ⟨hn, hfin⟩ := (accepted_iff _ _ _ _ _).mp (Bool.eq_true_of_not_eq_false ht)
    obtain ⟨q, hq⟩ := hp
    obtain ⟨secs, p', hn', hfin', hreq⟩ := request_append hn hfin q
    rw [hq] at hn' hreq
    have hend := nothing_unread hn' (by rwa [hreq])
    rw [hreq] at hend
    have hq0 : p' ++ q = [] := congrArg Socket.stream hend
    rw [(List.append_eq_nil_iff.mp hq0).2, List.append_nil] at hq
    exact hne hq
  exact ⟨hr, refused_sent hr, fun c' n hn ↦ receiveActions_returns c' hn⟩

/-- The invoker dies in the middle of its END. -/
theorem truncated_refused_end :
    (receiveApplicationData AppData.new (Connection.accepted
      (whole (invokeRemoteSends true 0 smallRequest).dropLast) 0 0 ⟨1, [], []⟩)).1 = false :=
  (truncated_refused smallRequest true 0 (List.dropLast_prefix _) (by decide) 0 0 ⟨1, [], []⟩).1

/-- Whatever became of the descriptors, the booster has read what was sent after
them, and accepts the request. -/
structure InStep (r : LaunchRequest) (sendmsgOk : Bool) (app : AppData) (c : Connection) :
    Prop where
  accepted : (receiveApplicationData app c).1 = true
  sections : [envSection r, .fin] <:+ (request c.fd).1
  environ : ∀ n v, getenv (receiveApplicationData app c).2.2.proc.environ n = some v ↔
    ∃ e ∈ r.environ, name e = n ∧ value e = v
  unset : sendmsgOk = false → (receiveApplicationData app c).2.1.ioDescriptors = [-1, -1, -1]

/-- A request within the limits stays in step exactly if its descriptors were
sent. -/
theorem inStep_iff {r : LaunchRequest} (h : WithinLimits r) (sendmsgOk : Bool) (dummy : UInt8)
    (gid uid : UInt32) (proc : Process) :
    InStep r sendmsgOk AppData.new
        (Connection.accepted (whole (invokeRemoteSends sendmsgOk dummy r)) gid uid proc) ↔
      sendmsgOk = true := by
  constructor
  · intro hstep
    cases sendmsgOk with
    | true => rfl
    | false =>
      obtain ⟨-, hfin⟩ := (accepted_iff _ _ _ _ _).mp hstep.accepted
      rw [request, header_send h.name] at hfin
      exact absurd hfin (refused_unsent dummy r)
  · intro hok
    subst hok
    obtain ⟨app', c', hr, hd, -, -⟩ := receive_within h dummy AppData.new
      (Connection.accepted (whole (invokeRemoteSends true dummy r)) gid uid proc) rfl
    have hsections : (request (whole (invokeRemoteSends true dummy r))).1 = requestSections r := by
      rw [request, header_send h.name, sections_request h]
    constructor
    case accepted => rw [hr]
    case sections =>
      change _ <:+ (request (whole _)).1
      rw [hsections]
      exact ⟨[execSection r, argsSection r, .prio r.prio.toUInt32, .delay r.respawnDelay,
        .ids r.uid r.gid, .io (some r.files)], rfl⟩
    case environ =>
      rw [hr]
      exact hd.environ
    case unset =>
      intro hno
      cases hno

theorem inStep_smallRequest : InStep smallRequest true AppData.new
    (Connection.accepted (whole (invokeRemoteSends true 7 smallRequest)) 0 0 booster) :=
  (inStep_iff smallRequest_within true 7 0 0 booster).mpr rfl

theorem not_inStep_unsent : ¬InStep smallRequest false AppData.new
    (Connection.accepted (whole (invokeRemoteSends false 7 smallRequest)) 0 0 booster) := by
  intro h
  have haccepted := h.accepted
  revert haccepted
  decide

end Applauncherd.Launcherlib.Truncation
