import Applauncherd.Invoker.Options
import Applauncherd.Launcherlib.Ending
import Applauncherd.Launcherlib.RoundTrip

namespace Applauncherd.Invoker.InvokeRemote

open Library Protocol Options Send
open Launcherlib Launcherlib.ReadSocket Launcherlib.Receive Launcherlib.RoundTrip Launcherlib.Ending

structure Reply where
  fd : List UInt8
  reads : List UInt32
  deriving DecidableEq, Repr

/-- `read` overwrites as many bytes of the word as there are, and its result is
not looked at; `msg` is what the word held before. -/
def invokeRecvMsg (msg : UInt32) (r : Reply) : UInt32 × Reply :=
  let bytes := r.fd.take 4
  let msg := Word.decode (bytes ++ (Word.encode msg).drop bytes.length)
  (msg, ⟨r.fd.drop 4, r.reads ++ [msg]⟩)

structure Junk where
  ackAction : UInt32
  pidAction : UInt32
  pid : UInt32
  exitAction : UInt32
  status : UInt32

def invokeRecvAck (j : Junk) (r : Reply) : Bool × Reply :=
  let (action, r) := invokeRecvMsg j.ackAction r
  (action != invokerMsgBadCreds && action == invokerMsgAck, r)

def invokerRecvPid (j : Junk) (r : Reply) : Option UInt32 × Reply :=
  let (action, r) := invokeRecvMsg j.pidAction r
  if action ≠ invokerMsgPid then (none, r)
  else
    let (pid, r) := invokeRecvMsg j.pid r
    (some pid, r)

def exitStatusApplicationConnectionLost : UInt32 := 0xfa

def invokerRecvExit (j : Junk) (r : Reply) : UInt32 × Reply :=
  let (action, r) := invokeRecvMsg j.exitAction r
  if action ≠ invokerMsgExit then (exitStatusApplicationConnectionLost, r)
  else invokeRecvMsg j.status r

/-- What `invoke_remote` makes of the reply once it has sent END: the status
that it returns, or `none` where it dies. -/
def invokeRemote (waitTerm : Bool) (j : Junk) (reply : List UInt8) : Option Int32 × Reply :=
  match invokeRecvAck j ⟨reply, []⟩ with
  | (false, r) => (none, r)
  | (true, r) =>
    if waitTerm then
      match invokerRecvPid j r with
      | (none, r) => (none, r)
      | (some _, r) =>
        let (status, r) := invokerRecvExit j r
        (some status.toInt32, r)
    else (some 0, r)

def wire (sent : List UInt32) : List UInt8 := sent.flatMap Word.encode

theorem recvMsg_wire (msg w : UInt32) (sent reads : List UInt32) :
    invokeRecvMsg msg ⟨wire (w :: sent), reads⟩ = (w, ⟨wire sent, reads ++ [w]⟩) := by
  have ht : (wire (w :: sent)).take 4 = Word.encode w := by
    rw [wire, List.flatMap_cons]
    exact List.take_left' rfl
  have hd : (wire (w :: sent)).drop 4 = wire sent := by
    rw [wire, List.flatMap_cons]
    exact List.drop_left' rfl
  have hover : (Word.encode msg).drop (Word.encode w).length = [] := rfl
  simp only [invokeRecvMsg, ht, hd, hover, List.append_nil, Word.decode_encode]

theorem recvMsg_end (msg : UInt32) (reads : List UInt32) :
    invokeRecvMsg msg ⟨wire [], reads⟩ = (msg, ⟨wire [], reads ++ [msg]⟩) := by
  simp [invokeRecvMsg, wire]

theorem recvAck_wire (j : Junk) (sent reads : List UInt32) :
    invokeRecvAck j ⟨wire (invokerMsgAck :: sent), reads⟩ =
      (true, ⟨wire sent, reads ++ [invokerMsgAck]⟩) := by
  rw [invokeRecvAck, recvMsg_wire]
  rfl

theorem recvPid_wire (j : Junk) (pid : UInt32) (sent reads : List UInt32) :
    invokerRecvPid j ⟨wire (invokerMsgPid :: pid :: sent), reads⟩ =
      (some pid, ⟨wire sent, reads ++ [invokerMsgPid, pid]⟩) := by
  simp [invokerRecvPid, recvMsg_wire]

theorem recvExit_wire (j : Junk) (status : UInt32) (sent reads : List UInt32) :
    invokerRecvExit j ⟨wire (invokerMsgExit :: status :: sent), reads⟩ =
      (status, ⟨wire sent, reads ++ [invokerMsgExit, status]⟩) := by
  simp [invokerRecvExit, recvMsg_wire]

theorem recvExit_end (j : Junk) (reads : List UInt32) :
    reads.length < (invokerRecvExit j ⟨wire [], reads⟩).2.reads.length := by
  simp only [invokerRecvExit, recvMsg_end]
  split_ifs <;> simp

theorem invokeRemote_noWait (j : Junk) :
    invokeRemote false j (wire [invokerMsgAck]) = (some 0, ⟨wire [], [invokerMsgAck]⟩) := by
  simp [invokeRemote, recvAck_wire]

theorem invokeRemote_status (j : Junk) (pid status : UInt32) :
    invokeRemote true j (wire [invokerMsgAck, invokerMsgPid, pid, invokerMsgExit, status]) =
      (some status.toInt32,
        ⟨wire [], [invokerMsgAck, invokerMsgPid, pid, invokerMsgExit, status]⟩) := by
  simp [invokeRemote, recvAck_wire, recvPid_wire, recvExit_wire]

theorem invokeRemote_lost (j : Junk) (pid : UInt32) :
    (invokeRemote true j (wire [invokerMsgAck, invokerMsgPid, pid])).2.reads ≠
      [invokerMsgAck, invokerMsgPid, pid] := by
  intro h
  have hend := recvExit_end j [invokerMsgAck, invokerMsgPid, pid]
  simp only [invokeRemote, recvAck_wire, recvPid_wire, if_true, List.nil_append,
    List.cons_append] at h
  rw [h] at hend
  exact lt_irrefl _ hend

/-- Booster and invoker agree on the words of the reply, and the invoker ends
as the application did. An invoker that does not wait succeeds at once. -/
structure ExitStatusKept (waitTerm : Bool) (served : Connection × Int32)
    (result : Option Int32 × Reply) : Prop where
  words : result.2.reads = served.1.sent
  status : waitTerm = true →
    ∃ status, result.1 = some status ∧ status.toInt % 256 = served.2.toInt % 256
  noWait : waitTerm = false → served.1.sent = [invokerMsgAck] ∧ result.1 = some 0

theorem kept_noWait {served : Connection × Int32} (h : served.1.sent = [invokerMsgAck])
    (j : Junk) :
    ExitStatusKept false served (invokeRemote false j (wire served.1.sent)) := by
  rw [h, invokeRemote_noWait]
  refine ⟨h.symm, fun hw ↦ ?_, fun _ ↦ ⟨h, rfl⟩⟩
  cases hw

theorem kept_status {served : Connection × Int32} (pid : UInt32)
    (h : served.1.sent =
      [invokerMsgAck, invokerMsgPid, pid, invokerMsgExit, served.2.toUInt32]) (j : Junk) :
    ExitStatusKept true served (invokeRemote true j (wire served.1.sent)) := by
  rw [h, invokeRemote_status]
  refine ⟨h.symm, fun _ ↦ ⟨_, rfl, ?_⟩, fun hw ↦ ?_⟩
  · rw [Int32.toInt32_toUInt32]
  · cases hw

theorem not_kept {served : Connection × Int32} (pid : UInt32)
    (h : served.1.sent = [invokerMsgAck, invokerMsgPid, pid]) (j : Junk) :
    ¬ExitStatusKept true served (invokeRemote true j (wire served.1.sent)) := by
  rw [h]
  exact fun hk ↦ invokeRemote_lost j pid (hk.words.trans h)

theorem progName_ne (r : LaunchRequest) : r.progName ≠ [] := by
  intro h
  have := r.progName_absolute
  simp [h] at this

theorem accepted_request {opts : List Opt} {s : Settings} (hs : parseOpts opts = .ok s)
    {r : LaunchRequest} (hr : r.magicOptions = s.magicOptions) {dummy : UInt8}
    {gid uid : UInt32} {proc : Process} {app : AppData} {c : Connection}
    (hacc : receiveApplicationData AppData.new
      (Connection.accepted (whole (invokeRemoteSends true dummy r)) gid uid proc) = (true, app, c)) :
    app.fileName ≠ [] ∧ app.options = s.magicOptions ∧ c.sendPid = s.waitTerm ∧
      c.sent = invokerMsgAck :: if s.waitTerm then [invokerMsgPid, proc.pid] else [] := by
  let c₀ := Connection.accepted (whole (invokeRemoteSends true dummy r)) gid uid proc
  have hlim : WithinLimits r := by
    by_contra hover
    have hfalse := receive_over hover dummy AppData.new c₀ rfl
    rw [hacc] at hfalse
    cases hfalse
  obtain ⟨app', c', hrec, hd, hpid, hsent⟩ := receive_within hlim dummy AppData.new c₀ rfl
  obtain ⟨rfl, rfl⟩ : app = app' ∧ c = c' := by simpa using hacc.symm.trans hrec
  have hwait : c.sendPid = s.waitTerm := by rw [hpid, hr, (parseOpts_consistent hs).wait]
  refine ⟨?_, hd.options.trans hr, hwait, ?_⟩
  · rw [hd.fileName]
    exact progName_ne r
  · rw [hsent, hwait]
    rfl

/-- The exit status is kept exactly if the invoker does not wait or the
application's `main` comes back. -/
theorem exitStatus_iff {opts : List Opt} {s : Settings} (hs : parseOpts opts = .ok s)
    {r : LaunchRequest} (hr : r.magicOptions = s.magicOptions) {dummy : UInt8}
    {gid uid : UInt32} {proc : Process} {app : AppData} {c : Connection}
    (hacc : receiveApplicationData AppData.new
      (Connection.accepted (whole (invokeRemoteSends true dummy r)) gid uid proc) = (true, app, c))
    (inst : Instance) (main : Main) (j : Junk) :
    ExitStatusKept s.waitTerm (serve inst main app c)
        (invokeRemote s.waitTerm j (wire (serve inst main app c).1.sent)) ↔
      (s.waitTerm = true → Returns inst main s.magicOptions) := by
  obtain ⟨hfile, hopt, hpid, hsent⟩ := accepted_request hs hr hacc
  rw [← hopt]
  cases hw : s.waitTerm with
  | false =>
    rw [hw] at hpid hsent
    have hserved : (serve inst main app c).1.sent = [invokerMsgAck] := by
      rw [serve_noWait hpid hfile, hsent]
      rfl
    exact ⟨fun _ h ↦ absurd h Bool.false_ne_true, fun _ ↦ kept_noWait hserved j⟩
  | true =>
    rw [hw] at hpid hsent
    refine ⟨fun hk _ ↦ ?_, fun hret ↦ ?_⟩
    · by_contra hno
      refine not_kept proc.pid ?_ j hk
      rw [serve_silent c hno, hsent]
      rfl
    · obtain ⟨⟨retVal, rfl⟩, hi⟩ := hret rfl
      refine kept_status proc.pid ?_ j
      simp [serve_run hi, run_returns hfile, hpid, sendAppExitStatus, sendMsg, hsent]

def smallRequest : LaunchRequest where
  magicOptions := invokerMsgMagicOptionWait
  name := [97]
  args := []
  progName := [47, 97]
  prio := 0
  respawnDelay := 3
  uid := 1000
  gid := 1000
  io := fun i ↦ i.val
  environ := [[65, 61, 66]]
  options_bits := by decide
  name_ne := by decide
  progName_absolute := by decide
  argc_int := by decide
  environ_ne := by decide
  environ_int := by decide
  environ_names := by decide
  environ_equals := by decide
  name_text := ⟨by decide, by decide⟩
  args_text := by simp
  progName_text := ⟨by decide, by decide⟩
  environ_text := by simp [Text]

theorem smallRequest_within : WithinLimits smallRequest where
  name := by decide
  progName := by decide
  argv := ⟨by decide, by simp [LaunchRequest.argv, smallRequest]⟩
  environ := ⟨by decide, by simp [smallRequest]⟩

def booster : Process := ⟨2, [], []⟩

theorem exitStatus_main_returns : ∃ app c, receiveApplicationData AppData.new
    (Connection.accepted (whole (invokeRemoteSends true 0 smallRequest)) 0 0 booster) = (true, app, c) ∧
      ExitStatusKept true (serve .noPlugin (.returns 3) app c)
        (invokeRemote true ⟨0, 0, 0, 0, 0⟩ (wire (serve .noPlugin (.returns 3) app c).1.sent)) := by
  obtain ⟨app, c, hrec, -⟩ := receive_within smallRequest_within 0 AppData.new
    (Connection.accepted (whole (invokeRemoteSends true 0 smallRequest)) 0 0 booster) rfl
  have hopts : parseOpts [] = .ok Settings.initial := rfl
  refine ⟨app, c, hrec, ?_⟩
  exact (exitStatus_iff hopts rfl hrec .noPlugin (.returns 3) ⟨0, 0, 0, 0, 0⟩).mpr
    fun _ ↦ ⟨⟨3, rfl⟩, fun hs ↦ by obtain ⟨-, activated, h⟩ := hs; cases h⟩

/-- The status of an application that calls `exit` does not come back. -/
theorem exit_status_lost : ∃ app c, receiveApplicationData AppData.new
    (Connection.accepted (whole (invokeRemoteSends true 0 smallRequest)) 0 0 booster) = (true, app, c) ∧
      ¬ExitStatusKept true (serve .noPlugin (.exits 3) app c)
        (invokeRemote true ⟨0, 0, 0, 0, 0⟩ (wire (serve .noPlugin (.exits 3) app c).1.sent)) := by
  obtain ⟨app, c, hrec, -⟩ := receive_within smallRequest_within 0 AppData.new
    (Connection.accepted (whole (invokeRemoteSends true 0 smallRequest)) 0 0 booster) rfl
  have hopts : parseOpts [] = .ok Settings.initial := rfl
  obtain ⟨-, -, -, hsent⟩ := accepted_request hopts rfl hrec
  have hno : ¬Returns .noPlugin (.exits 3) app.options := by
    intro hret
    obtain ⟨⟨retVal, h⟩, -⟩ := hret
    cases h
  refine ⟨app, c, hrec, not_kept 2 ?_ _⟩
  rw [serve_silent c hno, hsent]
  rfl

end Applauncherd.Invoker.InvokeRemote
