import Applauncherd.Launcherlib.CatchingUp
import Applauncherd.Launcherlib.Tally
import Mathlib.Data.List.ReduceOption

namespace Applauncherd.Launcherlib.Connections

open Library.Transition Tables MainLoop Effects Consistency CatchingUp Tally

/-- With this argument of `listen` the kernel lets one connection more wait. -/
def listenBacklog : ℕ := 10

structure Service where
  world : World
  /-- The connections of a type that no booster has accepted. What the invoker
  sends is a request, or it is none that a booster receives. -/
  sockets : UInt8 → List (Option Request)

inductive Event
  | connect (type : UInt8) (request : Option Request)
  | accept (b : Pid)
  | system (a : Label)
  deriving DecidableEq, Repr

def Service.put (s : Service) (w : World) : Service := { s with world := w }

/-- A waiting booster accepts the first connection and receives the request. It
exits if it cannot. -/
def received (b : Pid) : Option Request → Label
  | some r => .accept b r
  | none => .die b (.exited 1)

def Service.accept (s : Service) (b : Pid) : Option Service :=
  match s.world.sys.procs b with
  | some ⟨type, _, _, .waiting, none⟩ =>
    match s.sockets type with
    | [] => none
    | request :: rest =>
      (MainLoop.step s.world (received b request)).map fun w ↦
        ⟨w, Function.update s.sockets type rest⟩
  | _ => none

def step (registry : Registry) (s : Service) : Event → Option Service
  | .connect type request =>
    if type ∈ registry.types ∧ (s.sockets type).length ≤ listenBacklog then
      some { s with sockets := Function.update s.sockets type (s.sockets type ++ [request]) }
    else none
  | .accept b => s.accept b
  | .system (.accept _ _) => none
  | .system a => (MainLoop.step s.world a).map s.put

def start (registry : Registry) (bootMode : Bool) : Service :=
  ⟨MainLoop.start registry bootMode, fun _ ↦ []⟩

def requestOf : Option Child → List Request
  | some ⟨_, _, _, .accepted r, none⟩ => [r]
  | _ => []

def heldRequest : Entry Request := ⟨requestOf, rfl, fun _ _ _ ↦ rfl⟩

def held (s : System) : List Request := tally heldRequest s

def connections (registry : Registry) (s : Service) : List (Option Request) :=
  registry.types.flatMap s.sockets

/-- The requests that have come in, those for which an application has been
launched, and those that have died with their booster. -/
structure Books where
  arrived : List Request
  launched : List Request
  lost : List Request

def record (s : Service) (e : Event) (h : Books) : Books :=
  match e with
  | .connect _ (some r) => { h with arrived := h.arrived ++ [r] }
  | .system (.write b) => { h with launched := h.launched ++ heldRequest.get s.world.sys b }
  | .system (.die b _) => { h with lost := h.lost ++ heldRequest.get s.world.sys b }
  | _ => h

/-- Every request is in one place. -/
def Accounted (registry : Registry) (s : Service) (h : Books) : Prop :=
  h.arrived.Perm
    ((connections registry s).reduceOption ++ held s.world.sys ++ h.launched ++ h.lost)

variable {registry : Registry} {s t : System} {v v' : Service} {e : Event} {h : Books}

theorem requestOf_dead {c : Child} (h : c.status.isSome) : requestOf (some c) = [] := by
  obtain ⟨type, bootMode, sleepTime, stage, status⟩ := c
  cases status with
  | none => cases h
  | some status => cases stage <;> rfl

theorem held_daemonStep {w w' : World} (hn : w.sys.tables.children.Nodup) {newPid : Pid}
    (hs : daemonStep w newPid = some w') : (held w.sys).Perm (held w'.sys) := by
  obtain hquiet | ⟨pid, c, -, hreaps⟩ := daemonStep_reaps hs
  · exact hquiet.tally heldRequest
  · have htally := hreaps.tally heldRequest hn
    have hnone : heldRequest.of (some c) = [] := requestOf_dead hreaps.2.1
    rwa [hnone] at htally

theorem connections_update {type : UInt8} (ht : type ∈ registry.types) (v : Service) :
    ∃ l₁ l₂, connections registry v = l₁ ++ v.sockets type ++ l₂ ∧
      ∀ w l, connections registry ⟨w, Function.update v.sockets type l⟩ = l₁ ++ l ++ l₂ := by
  obtain ⟨l₁, l₂, hl⟩ := flatMap_update registry.nodup ht v.sockets
  refine ⟨l₁, l₂, ?_, fun w l ↦ hl l⟩
  rw [← hl, Function.update_eq_self, connections]

theorem accept_cases {b : Pid} (hs : v.accept b = some v') :
    ∃ c request rest, v.world.sys.procs b = some c ∧ c.stage = .waiting ∧
      v.sockets c.type = request :: rest ∧
      MainLoop.step v.world (received b request) = some v'.world ∧
      v' = ⟨v'.world, Function.update v.sockets c.type rest⟩ := by
  unfold Service.accept at hs
  split at hs
  · rename_i type bootMode sleepTime hb
    split at hs
    · cases hs
    · rename_i request rest hsocket
      obtain ⟨w, hw, rfl⟩ := Option.map_eq_some_iff.mp hs
      exact ⟨_, request, rest, hb, rfl, hsocket, hw, rfl⟩
  · cases hs

theorem step_world (hs : step registry v e = some v') :
    v'.world = v.world ∨ ∃ a, MainLoop.step v.world a = some v'.world := by
  unfold step at hs
  split at hs
  · split_ifs at hs
    cases hs
    exact .inl rfl
  · obtain ⟨c, request, rest, -, -, -, hw, -⟩ := accept_cases hs
    exact .inr ⟨_, hw⟩
  · cases hs
  · obtain ⟨w, hw, rfl⟩ := Option.map_eq_some_iff.mp hs
    exact .inr ⟨_, hw⟩

theorem held_released {w : World} (hk : Known registry w) {b : Pid} {c : Child}
    (hb : w.sys.procs b = some c) (c' : Option Child) (hc : requestOf c' = []) :
    (held w.sys).Perm (held (w.sys.setProc b c') ++ heldRequest.get w.sys b) := by
  have htally := tally_process heldRequest hk hb c'
  have hnone : heldRequest.of c' = [] := hc
  rwa [hnone, List.append_nil] at htally

theorem held_accepted {w : World} (hk : Known registry w) {b : Pid} {r : Request}
    (ht : w.sys.receiveDataFromInvoker b r = some t) : (held t).Perm (r :: held w.sys) := by
  unfold System.receiveDataFromInvoker at ht
  split at ht
  · rename_i type bootMode sleepTime hb
    cases ht
    have htally := tally_process heldRequest hk hb
      (some ⟨type, bootMode, sleepTime, .accepted r, none⟩)
    rw [Entry.get, hb, heldRequest.of_waiting, List.append_nil] at htally
    exact htally.symm.trans List.perm_append_comm
  · cases ht

theorem accept_accounted (hk : Known registry v.world) {b : Pid} (ha : Accounted registry v h)
    (hs : v.accept b = some v') : Accounted registry v' h := by
  obtain ⟨c, request, rest, hb, hstage, hsocket, hw, hv⟩ := accept_cases hs
  obtain ⟨l₁, l₂, hl, hset⟩ := connections_update (hk.2.type_mem b c hb) v
  have hconn : connections registry v' = l₁ ++ rest ++ l₂ := by rw [hv, hset]
  rw [hsocket] at hl
  refine ha.trans (List.perm_iff_count.mpr fun r ↦ ?_)
  cases request with
  | some r' =>
    obtain ⟨t, ht, hv'⟩ := Option.map_eq_some_iff.mp hw
    have hheld := (held_accepted hk ht).count_eq r
    simp only [← hv', World.put, hconn, hl, List.reduceOption_append, List.reduceOption_cons_of_some,
      List.count_append, List.count_cons, hheld]
    omega
  | none =>
    obtain ⟨t, ht, hv'⟩ := Option.map_eq_some_iff.mp hw
    obtain ⟨c', hb', rfl⟩ := die_cases ht
    obtain rfl : c = c' := Option.some.inj (hb.symm.trans hb')
    have hfree : heldRequest.get v.world.sys b = [] := by
      obtain ⟨type, bootMode, sleepTime, stage, status⟩ := c
      cases hstage
      rw [Entry.get, hb]
      rfl
    have hheld := (held_released hk hb _ (requestOf_dead (c := { c with status := some (.exited 1) })
      rfl)).count_eq r
    simp only [← hv', World.put, hconn, hl, List.reduceOption_append, List.reduceOption_cons_of_none,
      List.count_append, hheld, hfree, List.count_nil]
    omega

theorem connect_accounted {type : UInt8} {request : Option Request} (ht : type ∈ registry.types)
    (ha : Accounted registry v h) :
    Accounted registry
      ⟨v.world, Function.update v.sockets type (v.sockets type ++ [request])⟩
      (record v (.connect type request) h) := by
  obtain ⟨l₁, l₂, hl, hset⟩ := connections_update ht v
  refine List.perm_iff_count.mpr fun r ↦ ?_
  have hcount := ha.count_eq r
  simp only [hl, List.reduceOption_append, List.count_append] at hcount
  cases request with
  | some r' =>
    simp only [record, hset, List.reduceOption_append, List.reduceOption_cons_of_some,
      List.reduceOption_nil, List.count_append, hcount]
    omega
  | none =>
    simp only [record, hset, List.reduceOption_append, List.reduceOption_cons_of_none,
      List.reduceOption_nil, List.count_append, List.count_nil, hcount]
    omega

theorem Accounted.released {w : World} (ha : Accounted registry v h) {l launched lost : List Request}
    (hheld : (held v.world.sys).Perm (held w.sys ++ l))
    (hbooks : (launched ++ lost).Perm (h.launched ++ h.lost ++ l)) :
    Accounted registry (v.put w) ⟨h.arrived, launched, lost⟩ := by
  refine ha.trans (List.perm_iff_count.mpr fun r ↦ ?_)
  have hh := hheld.count_eq r
  have hb := hbooks.count_eq r
  have hconn : connections registry (v.put w) = connections registry v := rfl
  have hworld : (v.put w).world = w := rfl
  simp only [List.count_append, hconn, hworld] at hh hb ⊢
  omega

theorem step_accounted (hk : Known registry v.world) (ha : Accounted registry v h)
    (hs : step registry v e = some v') : Accounted registry v' (record v e h) := by
  have hsame : ∀ w, (held v.world.sys).Perm (held w.sys) → Accounted registry (v.put w) h := by
    intro w hheld
    refine ha.released (l := []) ?_ ?_
    · rwa [List.append_nil]
    · rw [List.append_nil]
  unfold step at hs
  split at hs
  · split_ifs at hs with hc
    cases hs
    exact connect_accounted hc.1 ha
  · exact accept_accounted hk ha hs
  · cases hs
  · rename_i a hno
    obtain ⟨w, hw, rfl⟩ := Option.map_eq_some_iff.mp hs
    cases a with
    | accept b r => exact (hno b r rfl).elim
    | write b =>
      obtain ⟨t, ht, rfl⟩ := Option.map_eq_some_iff.mp hw
      obtain ⟨c, r, hb, hstage, rfl⟩ := sendDataToParent_cases ht
      have hheld := held_released hk hb (some { c with stage := .launched r }) rfl
      refine ha.released hheld (List.perm_iff_count.mpr fun r ↦ ?_)
      simp only [List.count_append]
      omega
    | die b status =>
      obtain ⟨t, ht, rfl⟩ := Option.map_eq_some_iff.mp hw
      obtain ⟨c, hb, rfl⟩ := die_cases ht
      have hheld := held_released hk hb _
        (requestOf_dead (c := { c with status := some status }) rfl)
      exact ha.released hheld (by simp)
    | sigChld =>
      simp only [MainLoop.step] at hw
      split_ifs at hw
      cases hw
      exact hsame _ (.refl _)
    | sigTerm =>
      cases hw
      exact hsame _ (.refl _)
    | sigUsr1 =>
      cases hw
      exact hsame _ (.refl _)
    | daemon newPid => exact hsame _ (held_daemonStep hk.2.children_nodup hw)

/-- Steps for which nothing has to come from outside, and in which nobody dies
but the boosters that have accepted something else than a request. -/
def Internal : Event → Prop
  | .accept _ => True
  | .system (.write _) => True
  | .system a => CatchingUp.Internal a
  | .connect _ _ => False

def pending (registry : Registry) (v : Service) : ℕ :=
  2 * (connections registry v).length + (held v.world.sys).length

structure AtRest (v : Service) : Prop where
  world : CatchingUp.AtRest v.world
  accept : ∀ b, v.accept b = none
  write : ∀ b, v.world.sys.sendDataToParent b = none

theorem AtRest.held (hr : AtRest v) : held v.world.sys = [] := by
  refine List.flatMap_eq_nil_iff.mpr fun p _ ↦ ?_
  have hw := hr.write p
  unfold System.sendDataToParent at hw
  split at hw
  · cases hw
  · rename_i hno
    change requestOf _ = _
    unfold requestOf
    split
    · rename_i hp
      exact (hno _ _ _ _ hp).elim
    · rfl

theorem AtRest.socket (hr : AtRest v) {b : Pid} {c : Child} (hb : v.world.sys.procs b = some c)
    (hlive : c.status = none) (hn : ¬Child.Launched c) : v.sockets c.type = [] := by
  obtain ⟨type, bootMode, sleepTime, stage, status⟩ := c
  cases hlive
  cases stage with
  | waiting =>
    by_contra hne
    obtain ⟨request, rest, hsocket⟩ := List.exists_cons_of_ne_nil hne
    have ha := hr.accept b
    simp only [Service.accept, hb, hsocket] at ha
    cases request with
    | some r =>
      simp [received, MainLoop.step, System.receiveDataFromInvoker, hb] at ha
    | none => simp [received, MainLoop.step, System.die, hb] at ha
  | accepted r =>
    have hw := hr.write b
    simp [System.sendDataToParent, hb] at hw
  | launched r => exact absurd ⟨r, rfl⟩ hn

theorem AtRest.connections (hr : AtRest v) (hc : CaughtUp registry v.world) :
    connections registry v = [] := by
  refine List.flatMap_eq_nil_iff.mpr fun type hm ↦ ?_
  obtain ⟨p, c, -, hp, rfl, hn⟩ := hc.boosters type hm
  exact hr.socket hp (hc.no_zombies p c hp) hn

end Applauncherd.Launcherlib.Connections
