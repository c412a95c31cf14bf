import Applauncherd.Library.Conversation
import Applauncherd.Invoker.InvokeRemote

namespace Applauncherd.Launcherlib.Exchange

open Library Library.Environ Library.Conversation Protocol Invoker.Send Invoker.Options
open ReadSocket (Cell OpenFile whole plain terminate strLenMax)
open Receive (AppData Connection argMax maxVars Process)
open Sections (Section inRange run)
open RoundTrip Ending Invoker Invoker.InvokeRemote

abbrev Booster := Prog UInt8 Cell

abbrev InvokerProg := Prog Cell UInt8

def recvMsg : Booster UInt32 :=
  .recv 4 fun cells ↦ .ret (if cells.length < 4 then 0 else Word.decode (cells.map Cell.byte))

def recvStr : Booster (Option (List UInt8)) :=
  recvMsg.bind fun size ↦
    if size == 0 || strLenMax < size then .ret none
    else .recv size.toNat fun cells ↦ .ret
      (if UInt32.ofNat cells.length < size then none else some (terminate (cells.map Cell.byte)))

def recvmsg : Booster (List OpenFile) := .recv 1 fun cells ↦ .ret (cells.flatMap Cell.files)

def readStrings : ℕ → Booster (List (Option (List UInt8)))
  | 0 => .ret []
  | n + 1 => recvStr.bind fun str ↦
    match str with
    | none => .ret [none]
    | some buf => (readStrings n).bind fun bufs ↦ .ret (some buf :: bufs)

def readList (bound : UInt32) : Booster (UInt32 × List (Option (List UInt8))) :=
  recvMsg.bind fun count ↦
    (if inRange count bound then readStrings count.toNat else .ret []).bind fun bufs ↦
      .ret (count, bufs)

def readBody (action : UInt32) : Booster Section :=
  if action = invokerMsgExec then recvStr.bind fun buf ↦ .ret (.exec buf)
  else if action = invokerMsgArgs then (readList argMax).bind fun l ↦ .ret (.args l.1 l.2)
  else if action = invokerMsgEnv then (readList maxVars).bind fun l ↦ .ret (.env l.1 l.2)
  else if action = invokerMsgPrio then recvMsg.bind fun w ↦ .ret (.prio w)
  else if action = invokerMsgDelay then recvMsg.bind fun w ↦ .ret (.delay w)
  else if action = invokerMsgIo then recvmsg.bind fun files ↦ .ret (.io (some files))
  else if action = invokerMsgIds then
    recvMsg.bind fun uid ↦ recvMsg.bind fun gid ↦ .ret (.ids uid gid)
  else if action = invokerMsgEnd then .ret .fin
  else .ret (.invalid action)

def readSection : Booster Section := recvMsg.bind readBody

/-- The loop of `receiveActions`, or `none` if it goes round more often. -/
def sections : ℕ → Booster (Option (List Section))
  | 0 => .ret none
  | rounds + 1 => readSection.bind fun sec ↦
    match sec.verdict with
    | some _ => .ret (some [sec])
    | none => (sections rounds).bind fun secs ↦ .ret (secs.map (sec :: ·))

def receiveAppName : Booster Str :=
  recvMsg.bind fun msg ↦
    if msg ≠ invokerMsgName then .ret []
    else recvStr.bind fun name ↦ .ret ((name.map cstr).getD [])

def writes (words : List UInt32) {ρ : Type} (p : Booster ρ) : Booster ρ :=
  .sendAll (words.map Word.encode) p

def receiveApplicationData (rounds : ℕ) (app : AppData) (c : Connection) :
    Booster (Option (Bool × AppData × Connection)) :=
  recvMsg.bind fun magic ↦
    let c := { c with sendPid := magic &&& invokerMsgMagicOptionWait != 0 }
    let app := { app with options := magic &&& invokerMsgMagicOptionMask }
    receiveAppName.bind fun name ↦
      let app := { app with appName := name }
      if name = [] then .ret (some (false, app, c))
      else (sections rounds).bind fun secs ↦ .ret (secs.map fun secs ↦
        let c := run secs c
        if Section.fin ∈ secs then (true, app.set c, c) else (false, app, c))

/-- The booster from the accepted connection to the end of the application.
What it answers is in the connection's log, in order. -/
def booster (rounds : ℕ) (inst : Instance) (main : Main) (c : Connection) :
    Booster (Option (Bool × AppData × Connection × Int32)) :=
  (receiveApplicationData rounds AppData.new c).bind fun received ↦
    match received with
    | none => .ret none
    | some (false, app, c') => writes c'.sent (.ret (some (false, app, c', 0)))
    | some (true, app, c') =>
      let served := serve inst main app c'
      writes c'.sent (writes (served.1.sent.drop c'.sent.length)
        (.ret (some (true, app, served))))

def invokeRecvMsg (msg : UInt32) : InvokerProg UInt32 :=
  .recv 4 fun bytes ↦ .ret (Word.decode (bytes ++ (Word.encode msg).drop bytes.length))

def invokerRecvExit (j : Junk) : InvokerProg (Option Int32) :=
  (invokeRecvMsg j.exitAction).bind fun action ↦
    if action ≠ invokerMsgExit then .ret (some exitStatusApplicationConnectionLost.toInt32)
    else (invokeRecvMsg j.status).bind fun status ↦ .ret (some status.toInt32)

def awaitReply (waitTerm : Bool) (j : Junk) : InvokerProg (Option Int32) :=
  (invokeRecvMsg j.ackAction).bind fun action ↦
    if action ≠ invokerMsgAck then .ret none
    else if waitTerm then
      (invokeRecvMsg j.pidAction).bind fun action ↦
        if action ≠ invokerMsgPid then .ret none
        else (invokeRecvMsg j.pid).bind fun _ ↦ invokerRecvExit j
    else .ret (some 0)

def strWrites (str : Str) : List (List Cell) :=
  [invokeSendMsg (UInt32.ofNat (str.length + 1)), sendText str]

def listWrites (strs : List Str) : List (List Cell) :=
  invokeSendMsg (UInt32.ofNat strs.length) :: strs.flatMap strWrites

def actionWrites (dummy : UInt8) (r : LaunchRequest) : List (List Cell) :=
  invokeSendMsg invokerMsgExec :: strWrites r.progName ++
  (invokeSendMsg invokerMsgArgs :: listWrites r.argv ++
  ([invokeSendMsg invokerMsgPrio, invokeSendMsg r.prio.toUInt32] ++
  ([invokeSendMsg invokerMsgDelay, invokeSendMsg r.respawnDelay] ++
  ([invokeSendMsg invokerMsgIds, invokeSendMsg r.uid, invokeSendMsg r.gid] ++
  ([invokeSendMsg invokerMsgIo, [⟨dummy, r.files⟩]] ++
  (invokeSendMsg invokerMsgEnv :: listWrites r.environ ++
  [invokeSendMsg invokerMsgEnd]))))))

def requestWrites (dummy : UInt8) (r : LaunchRequest) : List (List Cell) :=
  invokeSendMsg (invokerMsgMagic ||| invokerMsgMagicVersion ||| r.magicOptions) ::
    (invokeSendMsg invokerMsgName :: strWrites r.name ++ actionWrites dummy r)

theorem listWrites_flatten (strs : List Str) : (listWrites strs).flatten = sendList strs := by
  induction strs with
  | nil => rfl
  | cons s strs ih =>
    simp only [listWrites, sendList, List.flatten_cons, List.append_cancel_left_eq] at ih
    simp [listWrites, sendList, strWrites, invokeSendStr, ih]

theorem requestWrites_flatten (dummy : UInt8) (r : LaunchRequest) :
    (requestWrites dummy r).flatten = invokeRemoteSends true dummy r := by
  simp [requestWrites, actionWrites, listWrites_flatten, strWrites, invokeRemoteSends, sendActions,
    invokerSendMagic, invokerSendName, invokerSendExec, invokerSendArgs, invokerSendPrio,
    invokerSendDelay, invokerSendIds, invokerSendIo, invokerSendEnv, invokerSendEnd, invokeSendStr]

theorem meets_word {ρ ρ' : Type} {msg w : UInt32} {k : UInt32 → InvokerProg ρ} {q : Booster ρ'}
    {r : ρ} {r' : ρ'} (h : Meets (k w) q r r') :
    Meets ((invokeRecvMsg msg).bind k) (.send (Word.encode w) q) r r' := by
  have hne : Word.encode w ≠ [] := List.cons_ne_nil _ _
  have hover : (Word.encode msg).drop (Word.encode w).length = [] := rfl
  refine .toLeft (k := fun bytes ↦ k (Word.decode (bytes ++ (Word.encode msg).drop bytes.length)))
    hne ?_
  rw [hover, List.append_nil, Word.decode_encode]
  exact h

theorem meets_closed {ρ ρ' : Type} {msg : UInt32} {k : UInt32 → InvokerProg ρ} {r : ρ} {r' : ρ'}
    (h : Meets (k msg) (.ret r') r r') : Meets ((invokeRecvMsg msg).bind k) (.ret r') r r' := by
  refine .closedRight
    (k := fun bytes ↦ k (Word.decode (bytes ++ (Word.encode msg).drop bytes.length))) ?_
  rw [List.nil_append, List.length_nil, List.drop_zero, Word.decode_encode]
  exact h

section

variable {ρ : Type} (j : Junk) (x : ρ)

theorem reply_noWait : Meets (awaitReply false j) (writes [invokerMsgAck] (.ret x))
    (invokeRemote false j (wire [invokerMsgAck])).1 x := by
  rw [invokeRemote_noWait]
  exact meets_word (.ended _ _)

theorem reply_status (pid status : UInt32) :
    Meets (awaitReply true j)
      (writes [invokerMsgAck, invokerMsgPid, pid, invokerMsgExit, status] (.ret x))
      (invokeRemote true j (wire [invokerMsgAck, invokerMsgPid, pid, invokerMsgExit, status])).1
      x := by
  rw [invokeRemote_status]
  exact meets_word (meets_word (meets_word (meets_word (meets_word (.ended _ _)))))

/-- The connection is closed without a status, and the invoker reads words
that nobody has written. -/
theorem reply_lost (pid : UInt32) :
    Meets (awaitReply true j) (writes [invokerMsgAck, invokerMsgPid, pid] (.ret x))
      (invokeRemote true j (wire [invokerMsgAck, invokerMsgPid, pid])).1 x := by
  refine meets_word (meets_word (meets_word (meets_closed ?_)))
  simp only [invokeRemote, recvAck_wire, recvPid_wire, if_true, InvokeRemote.invokerRecvExit,
    recvMsg_end]
  split_ifs with hexit
  · exact .ended _ _
  · exact meets_closed (.ended _ _)

end

theorem served_sent {waitTerm : Bool} {app : AppData} {c : Connection} {pid : UInt32}
    (hpid : c.sendPid = waitTerm) (hfile : app.fileName ≠ [])
    (hsent : c.sent = invokerMsgAck :: if waitTerm then [invokerMsgPid, pid] else [])
    (inst : Instance) (main : Main) :
    ∃ status : List UInt32, (serve inst main app c).1.sent = c.sent ++ status ∧
      (waitTerm = false → status = []) ∧ (status = [] ∨ ∃ w, status = [invokerMsgExit, w]) := by
  by_cases hret : Returns inst main app.options
  · obtain ⟨⟨retVal, rfl⟩, hs⟩ := hret
    cases waitTerm with
    | false =>
      rw [serve_noWait hpid hfile]
      exact ⟨[], by simp, fun _ ↦ rfl, .inl rfl⟩
    | true =>
      refine ⟨[invokerMsgExit, retVal.toUInt32], ?_, fun h ↦ (by cases h), .inr ⟨_, rfl⟩⟩
      simp [serve_run hs, run_returns hfile, hpid, sendAppExitStatus, Receive.sendMsg]
  · rw [serve_silent c hret]
    exact ⟨[], by simp, fun _ ↦ rfl, .inl rfl⟩

theorem reply {waitTerm : Bool} {app : AppData} {c : Connection} {pid : UInt32}
    (hpid : c.sendPid = waitTerm) (hfile : app.fileName ≠ [])
    (hsent : c.sent = invokerMsgAck :: if waitTerm then [invokerMsgPid, pid] else [])
    (inst : Instance) (main : Main) (j : Junk) {ρ : Type} (x : ρ) :
    Meets (awaitReply waitTerm j)
      (writes c.sent (writes ((serve inst main app c).1.sent.drop c.sent.length) (.ret x)))
      (invokeRemote waitTerm j (wire (serve inst main app c).1.sent)).1 x := by
  obtain ⟨status, hserved, hno, hstatus⟩ := served_sent hpid hfile hsent inst main
  rw [hserved, List.drop_left, hsent]
  cases waitTerm with
  | false =>
    rw [hno rfl]
    exact reply_noWait j x
  | true =>
    obtain rfl | ⟨w, rfl⟩ := hstatus
    · exact reply_lost j x pid
    · exact reply_status j x pid w

end Applauncherd.Launcherlib.Exchange
