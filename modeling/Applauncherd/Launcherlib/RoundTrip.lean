import Applauncherd.Launcherlib.Decode

namespace Applauncherd.Launcherlib.RoundTrip

open Library Library.Environ Library.DescriptorTable Protocol ReadSocket Receive Sections Magic
open Decode Invoker.Send

theorem readSection_send (action : UInt32) (body : List Cell) :
    readSection (whole (invokeSendMsg action ++ body)) = readBody action (whole body) := by
  simp only [readSection, recvMsg_send]

theorem sections_cons {s s' : Socket} {sec : Section} (h : readSection s = (sec, s'))
    (hv : sec.verdict = none) : sections s = (sec :: (sections s').1, (sections s').2) := by
  have hs := sections_more s (by rw [h]; exact hv)
  rwa [h] at hs

theorem refused_cons {s s' : Socket} {sec : Section} (h : readSection s = (sec, s'))
    (hv : sec.verdict = none) : Refused s ↔ Refused s' := by
  have hne : Section.fin ≠ sec := fun h' ↦ by rw [← h'] at hv; cases hv
  simp [Refused, sections_cons h hv, hne]

theorem refused_body {action : UInt32} {body : List Cell}
    (hv : (readBody action (whole body)).1.verdict = none) :
    Refused (whole (invokeSendMsg action ++ body)) ↔ Refused (readBody action (whole body)).2 :=
  refused_cons (readSection_send action body) hv

structure WithinLimits (r : LaunchRequest) : Prop where
  name : r.name.length ≤ 4095
  progName : r.progName.length ≤ 4095
  argv : ListOk 1024 r.argv
  environ : ListOk 1024 r.environ

theorem argv_int (r : LaunchRequest) : r.argv.length < 2 ^ 31 := r.argc_int

def execSection (r : LaunchRequest) : Section := .exec (some (r.progName ++ [0]))

def argsSection (r : LaunchRequest) : Section :=
  .args (UInt32.ofNat r.argv.length) (r.argv.map fun a ↦ some (a ++ [0]))

def envSection (r : LaunchRequest) : Section :=
  .env (UInt32.ofNat r.environ.length) (r.environ.map fun e ↦ some (e ++ [0]))

theorem readSection_exec {r : LaunchRequest} (h : r.progName.length ≤ 4095) (rest : List Cell) :
    readSection (whole (invokerSendExec r.progName ++ rest)) = (execSection r, whole rest) := by
  rw [invokerSendExec, List.append_assoc, readSection_send]
  change (Section.exec _, _) = _
  rw [recvStr_send r.progName_text h]
  rfl

theorem readSection_args {r : LaunchRequest} (h : ListOk 1024 r.argv) (rest : List Cell) :
    readSection (whole (invokerSendArgs r.argv ++ rest)) = (argsSection r, whole rest) := by
  rw [invokerSendArgs, List.append_assoc, readSection_send]
  change (Section.args _ _, _) = _
  rw [readList_send argMax r.argv_text (List.cons_ne_nil _ _) (argv_int r) h]
  rfl

theorem readSection_prio (r : LaunchRequest) (rest : List Cell) :
    readSection (whole (invokerSendPrio r.prio ++ rest)) = (.prio r.prio.toUInt32, whole rest) := by
  rw [invokerSendPrio, List.append_assoc, readSection_send]
  change (Section.prio _, _) = _
  rw [recvMsg_send]

theorem readSection_delay (r : LaunchRequest) (rest : List Cell) :
    readSection (whole (invokerSendDelay r.respawnDelay ++ rest)) =
      (.delay r.respawnDelay, whole rest) := by
  rw [invokerSendDelay, List.append_assoc, readSection_send]
  change (Section.delay _, _) = _
  rw [recvMsg_send]

theorem readSection_ids (r : LaunchRequest) (rest : List Cell) :
    readSection (whole (invokerSendIds r.uid r.gid ++ rest)) = (.ids r.uid r.gid, whole rest) := by
  rw [invokerSendIds, List.append_assoc, List.append_assoc, readSection_send]
  change (Section.ids _ _, _) = _
  rw [recvMsg_send, recvMsg_send]

theorem readSection_io (dummy : UInt8) (r : LaunchRequest) (rest : List Cell) :
    readSection (whole (invokerSendIo true dummy r.files ++ rest)) =
      (.io (some r.files), whole rest) := by
  rw [invokerSendIo, List.append_assoc, readSection_send]
  change (Section.io _, _) = _
  simp [recvmsg]

theorem readSection_env {r : LaunchRequest} (h : ListOk 1024 r.environ) (rest : List Cell) :
    readSection (whole (invokerSendEnv r.environ ++ rest)) = (envSection r, whole rest) := by
  rw [invokerSendEnv, List.append_assoc, readSection_send]
  change (Section.env _ _, _) = _
  rw [readList_send maxVars r.environ_text r.environ_ne r.environ_int h]
  rfl

def requestSections (r : LaunchRequest) : List Section :=
  [execSection r, argsSection r, .prio r.prio.toUInt32, .delay r.respawnDelay,
    .ids r.uid r.gid, .io (some r.files), envSection r, .fin]

theorem sections_request {r : LaunchRequest} (h : WithinLimits r) (dummy : UInt8) :
    sections (whole (sendActions true dummy r)) = (requestSections r, whole []) := by
  have hend : sections (whole invokerSendEnd) = ([.fin], whole []) := by
    have hr : readSection (whole invokerSendEnd) = (.fin, whole []) := by
      have h := readSection_send invokerMsgEnd []
      rwa [List.append_nil] at h
    have hs := sections_last (whole invokerSendEnd) true (by rw [hr]; rfl)
    rwa [hr] at hs
  simp only [sendActions, requestSections]
  rw [sections_cons (readSection_exec h.progName _) rfl,
    sections_cons (readSection_args h.argv _) rfl,
    sections_cons (readSection_prio r _) rfl,
    sections_cons (readSection_delay r _) rfl,
    sections_cons (readSection_ids r _) rfl,
    sections_cons (readSection_io dummy r _) rfl,
    sections_cons (readSection_env h.environ _) rfl, hend]

theorem refused_upto_ids {r : LaunchRequest} {sendmsgOk : Bool} {dummy : UInt8}
    (h : r.progName.length ≤ 4095 → ListOk 1024 r.argv →
      Refused (whole (invokerSendIo sendmsgOk dummy r.files ++
        (invokerSendEnv r.environ ++ invokerSendEnd)))) :
    Refused (whole (sendActions sendmsgOk dummy r)) := by
  unfold sendActions
  by_cases hp : r.progName.length ≤ 4095
  · rw [refused_cons (readSection_exec hp _) rfl]
    by_cases ha : ListOk 1024 r.argv
    · rw [refused_cons (readSection_args ha _) rfl, refused_cons (readSection_prio r _) rfl,
        refused_cons (readSection_delay r _) rfl, refused_cons (readSection_ids r _) rfl]
      exact h hp ha
    · rw [invokerSendArgs, List.append_assoc, refused_body rfl]
      exact readList_send_over argMax r.argv_text (List.cons_ne_nil _ _) (argv_int r) ha _
  · rw [invokerSendExec, List.append_assoc, refused_body rfl]
    change Refused (recvStr _).2
    rw [recvStr_send_over r.progName_text (by omega)]
    exact refused_text r.progName_text (by omega) _

theorem refused_request {r : LaunchRequest}
    (h : ¬(r.progName.length ≤ 4095 ∧ ListOk 1024 r.argv ∧ ListOk 1024 r.environ))
    (dummy : UInt8) : Refused (whole (sendActions true dummy r)) := by
  refine refused_upto_ids fun hp ha ↦ ?_
  have he : ¬ListOk 1024 r.environ := fun he ↦ h ⟨hp, ha, he⟩
  rw [refused_cons (readSection_io dummy r _) rfl, invokerSendEnv, List.append_assoc,
    refused_body rfl]
  exact readList_send_over maxVars r.environ_text r.environ_ne r.environ_int he _

theorem magicWord_send (dummy : UInt8) (r : LaunchRequest) :
    magicWord (whole (invokeRemoteSends true dummy r)) =
      invokerMsgMagic ||| invokerMsgMagicVersion ||| r.magicOptions := by
  rw [magicWord, invokeRemoteSends, invokerSendMagic, recvMsg_send]

theorem magicWord_options (r : LaunchRequest) :
    (invokerMsgMagic ||| invokerMsgMagicVersion ||| r.magicOptions) &&&
      invokerMsgMagicOptionMask = r.magicOptions := by
  rw [Word.or_and, r.options_bits]
  exact UInt32.zero_or

theorem magicWord_wait (r : LaunchRequest) :
    (invokerMsgMagic ||| invokerMsgMagicVersion ||| r.magicOptions) &&&
      invokerMsgMagicOptionWait = r.magicOptions &&& invokerMsgMagicOptionWait := by
  rw [Word.or_and]
  exact UInt32.zero_or

theorem header_send {r : LaunchRequest} (h : r.name.length ≤ 4095) (sendmsgOk : Bool)
    (dummy : UInt8) : header (whole (invokeRemoteSends sendmsgOk dummy r)) =
      (r.name, whole (sendActions sendmsgOk dummy r)) := by
  rw [header, invokeRemoteSends, invokerSendMagic, recvMsg_send]
  simp only [readName, invokerSendName, List.append_assoc, recvMsg_send, ne_eq, not_true_eq_false,
    if_false, recvStr_send r.name_text h, Option.map_some, Option.getD_some,
    cstr_append_nul r.name_text.1]

theorem header_send_over {r : LaunchRequest} (h : 4095 < r.name.length) (sendmsgOk : Bool)
    (dummy : UInt8) : (header (whole (invokeRemoteSends sendmsgOk dummy r))).1 = [] := by
  rw [header, invokeRemoteSends, invokerSendMagic, recvMsg_send]
  simp [readName, invokerSendName, List.append_assoc, recvStr_send_over r.name_text h]

structure Delivered (r : LaunchRequest) (app : AppData) (c : Connection) : Prop where
  options : app.options = r.magicOptions
  appName : app.appName = r.name
  fileName : app.fileName = r.progName
  argc : app.argc.toInt = r.argv.length
  argv : app.argv = some (r.argv.map fun a ↦ .str (a ++ [0]))
  prio : app.prio = r.prio
  delay : app.delay = r.respawnDelay.toInt32
  uid : app.uid = r.uid
  gid : app.gid = r.gid
  io : ∃ ns : List ℕ, app.ioDescriptors = ns.map (↑) ∧
    ns.map (lookup c.proc.files) = r.files.map some
  environ : ∀ n v, getenv c.proc.environ n = some v ↔
    ∃ e ∈ r.environ, name e = n ∧ value e = v
  nothing_unread : c.fd.stream = []

theorem toInt32_count {n : ℕ} (h : n < 2 ^ 31) : (UInt32.ofNat n).toInt32.toInt = n :=
  Int32.toInt_ofNat_of_lt h

theorem run_request (r : LaunchRequest) (c : Connection) :
    run (requestSections r) c = { acknowledge c with
      fileName := cstr (r.progName ++ [0])
      argc := UInt32.ofNat r.argv.length
      argv := if inRange (UInt32.ofNat r.argv.length) argMax then
        some (toSlots (UInt32.ofNat r.argv.length).toNat (r.argv.map fun a ↦ some (a ++ [0])))
        else c.argv
      io := (installAll c.proc.files r.files).1.map (↑)
      priority := r.prio.toUInt32
      delay := r.respawnDelay
      gid := r.gid
      uid := r.uid
      proc := { c.proc with
        environ := (r.environ.map fun e ↦ some (e ++ [0])).foldl storeVar []
        files := (installAll c.proc.files r.files).2 } } := by
  have hfiles : r.files.take controlRoom = r.files := rfl
  have hlen : r.files.length = 3 := rfl
  simp only [requestSections, run, List.foldl_cons, List.foldl_nil, execSection, argsSection,
    envSection, Section.apply, takeFiles_eq, acknowledge_eq, hfiles, hlen, if_true]

theorem foldl_storeVar (r : LaunchRequest) :
    (r.environ.map fun e ↦ some (e ++ [0])).foldl storeVar [] = r.environ := by
  have hstore : ∀ es : List Str, (∀ e ∈ es, e ∈ r.environ) → ∀ environ,
      (es.map fun e ↦ some (e ++ [0])).foldl storeVar environ = es.foldl putenv environ := by
    intro es
    induction es with
    | nil => intro _ _; rfl
    | cons e es ih =>
      intro hes environ
      have he := hes e (by simp)
      have hc : cstr (e ++ [0]) = e := cstr_append_nul (r.environ_text e he).1 []
      have hs : putenvSanitize e = true := by
        simpa [putenvSanitize] using r.environ_equals e he
      simp only [List.map_cons, List.foldl_cons, storeVar, hc, hs, if_true]
      exact ih (fun x hx ↦ hes x (.tail _ hx)) _
  rw [hstore r.environ (fun _ h ↦ h) [], foldl_putenv (by simpa using r.environ_names)]
  simp

theorem receive_within {r : LaunchRequest} (h : WithinLimits r) (dummy : UInt8) (app : AppData)
    (c : Connection) (hc : c.fd = whole (invokeRemoteSends true dummy r)) :
    ∃ app' c', receiveApplicationData app c = (true, app', c') ∧ Delivered r app' c' ∧
      c'.sendPid = (r.magicOptions &&& invokerMsgMagicOptionWait != 0) ∧
      c'.sent = c.sent ++ invokerMsgAck ::
        if c'.sendPid then [invokerMsgPid, c.proc.pid] else [] := by
  have hh := header_send h.name true dummy
  have hr : request c.fd = (requestSections r, whole []) := by
    rw [request, hc, hh, sections_request h dummy]
  have hargc : r.argv.length < 2 ^ 31 := argv_int r
  have hin : inRange (UInt32.ofNat r.argv.length) argMax = true :=
    (inRange_count argMax hargc (List.cons_ne_nil _ _)).mpr h.argv.1
  have hfin : Section.fin ∈ requestSections r := by simp [requestSections]
  rw [receiveApplicationData_eq, hr]
  simp only [hc, hh, r.name_ne, if_false, hfin, if_true, magicWord_send, magicWord_options,
    run_request, identified, magicWord_wait, acknowledge_eq, foldl_storeVar, hin]
  refine ⟨_, _, rfl, ?_, rfl, rfl⟩
  constructor
  case options => rfl
  case appName => rfl
  case fileName => exact cstr_append_nul r.progName_text.1 []
  case argc => exact toInt32_count hargc
  case argv => simp [AppData.set, toSlots, count_toNat hargc, toSlot]
  case prio => rfl
  case delay => rfl
  case uid => rfl
  case gid => rfl
  case io => exact ⟨_, rfl, installAll_lookup _ _⟩
  case environ => exact getenv_eq_some_iff r.environ_names
  case nothing_unread => rfl

theorem receive_over {r : LaunchRequest} (h : ¬WithinLimits r) (dummy : UInt8) (app : AppData)
    (c : Connection) (hc : c.fd = whole (invokeRemoteSends true dummy r)) :
    (receiveApplicationData app c).1 = false := by
  rw [receiveApplicationData_eq, hc]
  by_cases hn : r.name.length ≤ 4095
  · have hrest : Refused (whole (sendActions true dummy r)) :=
      refused_request (fun ⟨hp, ha, he⟩ ↦ h ⟨hn, hp, ha, he⟩) dummy
    have hfin : Section.fin ∉ (request (whole (invokeRemoteSends true dummy r))).1 := by
      rwa [request, header_send hn]
    simp [header_send hn, r.name_ne, hfin]
  · have hlong : 4095 < r.name.length := by omega
    have hh := header_send_over hlong true dummy
    simp [hh]

/-- The booster accepts exactly the requests within its limits, and then it
holds the request as it was sent. -/
theorem request_roundtrip (r : LaunchRequest) (dummy : UInt8) (gid uid : UInt32)
    (proc : Process) :
    let c := Connection.accepted (whole (invokeRemoteSends true dummy r)) gid uid proc
    ((receiveApplicationData AppData.new c).1 = true ↔
      r.name.length ≤ 4095 ∧ r.progName.length ≤ 4095 ∧ (∀ a ∈ r.argv, a.length ≤ 4095) ∧
        (∀ e ∈ r.environ, e.length ≤ 4095) ∧ r.argv.length < 1024 ∧ r.environ.length < 1024) ∧
    ((receiveApplicationData AppData.new c).1 = true →
      Delivered r (receiveApplicationData AppData.new c).2.1
        (receiveApplicationData AppData.new c).2.2) := by
  intro c
  by_cases h : WithinLimits r
  · obtain ⟨app', c', hr, hd, -, -⟩ := receive_within h dummy AppData.new c rfl
    rw [hr]
    refine ⟨⟨fun _ ↦ ?_, fun _ ↦ rfl⟩, fun _ ↦ hd⟩
    exact ⟨h.name, h.progName, h.argv.2, h.environ.2, h.argv.1, h.environ.1⟩
  · have hr := receive_over h dummy AppData.new c rfl
    refine ⟨⟨fun ht ↦ ?_, fun ⟨hn, hp, ha, he, hac, hec⟩ ↦ ?_⟩, fun ht ↦ ?_⟩
    · rw [hr] at ht
      cases ht
    · exact absurd ⟨hn, hp, ⟨hac, ha⟩, ⟨hec, he⟩⟩ h
    · rw [hr] at ht
      cases ht

end Applauncherd.Launcherlib.RoundTrip
