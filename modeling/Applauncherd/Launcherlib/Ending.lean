import Applauncherd.Launcherlib.Receive

namespace Applauncherd.Launcherlib.Ending

open Protocol Receive

inductive Main
  | returns (retVal : Int32)
  | exits (status : Int32)
  deriving DecidableEq, Repr

inductive Instance
  | noPlugin
  | first
  | running (activated : Bool)
  deriving DecidableEq, Repr

def singleInstance (app : AppData) : Bool :=
  app.options &&& invokerMsgMagicOptionSingleInstance != 0

def sendAppExitStatus (c : Connection) (status : Int32) : Connection :=
  sendMsg (sendMsg c invokerMsgExit) status.toUInt32

def run (main : Main) (app : AppData) (c : Connection) : Connection × Int32 :=
  if app.fileName ≠ [] then
    match main with
    | .returns retVal => (if c.sendPid then sendAppExitStatus c retVal else c, retVal)
    | .exits status => (c, status)
  else (c, 0)

/-- `Booster::initialize` after the request has been received, and then `run`.
A running instance ends the process by `_exit` before that. -/
def serve (inst : Instance) (main : Main) (app : AppData) (c : Connection) : Connection × Int32 :=
  if singleInstance app then
    match inst with
    | .running activated => (c, if activated then 0 else 1)
    | .noPlugin | .first => run main app c
  else run main app c

def Superseded (inst : Instance) (options : UInt32) : Prop :=
  options &&& invokerMsgMagicOptionSingleInstance ≠ 0 ∧ ∃ activated, inst = .running activated

def Returns (inst : Instance) (main : Main) (options : UInt32) : Prop :=
  (∃ retVal, main = .returns retVal) ∧ ¬Superseded inst options

theorem serve_run {inst : Instance} {app : AppData} (h : ¬Superseded inst app.options) (main : Main)
    (c : Connection) : serve inst main app c = run main app c := by
  unfold serve
  by_cases hs : singleInstance app = true
  · rw [if_pos hs]
    cases inst with
    | running activated => exact absurd ⟨by simpa [singleInstance] using hs, activated, rfl⟩ h
    | noPlugin => rfl
    | first => rfl
  · exact if_neg hs

theorem serve_superseded {inst : Instance} {app : AppData} (h : Superseded inst app.options) (main : Main)
    (c : Connection) : (serve inst main app c).1 = c := by
  obtain ⟨hs, activated, rfl⟩ := h
  unfold serve
  rw [if_pos (by simpa [singleInstance] using hs)]

theorem run_returns {app : AppData} (h : app.fileName ≠ []) (retVal : Int32) (c : Connection) :
    run (.returns retVal) app c =
      (if c.sendPid then sendAppExitStatus c retVal else c, retVal) := by
  simp [run, h]

theorem run_exits (status : Int32) (app : AppData) (c : Connection) :
    (run (.exits status) app c).1 = c := by
  unfold run
  split_ifs <;> rfl

theorem serve_silent {inst : Instance} {main : Main} {app : AppData} (c : Connection)
    (h : ¬Returns inst main app.options) : (serve inst main app c).1 = c := by
  by_cases hs : Superseded inst app.options
  · exact serve_superseded hs main c
  · rw [serve_run hs]
    cases main with
    | returns retVal => exact absurd ⟨⟨retVal, rfl⟩, hs⟩ h
    | exits status => exact run_exits status app c

theorem serve_noWait {app : AppData} {c : Connection} (h : c.sendPid = false)
    (hf : app.fileName ≠ []) (inst : Instance) (main : Main) : (serve inst main app c).1 = c := by
  by_cases hr : Returns inst main app.options
  · obtain ⟨⟨retVal, rfl⟩, hs⟩ := hr
    simp [serve_run hs, run_returns hf, h]
  · exact serve_silent c hr

end Applauncherd.Launcherlib.Ending
