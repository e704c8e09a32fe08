import Habitat.Run.Arguments
import Habitat.Statement.Basic

/-!
# Dispatch

Statements that run something on behalf of other agents find their targets, run a body for each of
them, and gather the results. An error in a body stays with its target and is reported, unless a
`try` block is open: then it unwinds.

Capturing, releasing and migrating move the agents that can be moved, report all others together,
and then run the body for the moved ones.
-/
namespace Habitat.Exec

/-- How the run of a body for one target ended. -/
structure RemoteResult where
  value : Value
  passed : Bool

def RemoteResult.failed : RemoteResult := ⟨.nil, false⟩

/-- Runs a body on behalf of an agent. Nothing runs for the dead, or when the scope is
interrupted. -/
def runRemote (run : Sequence → Exec Value) (owner : String) (body : Sequence) (target : AgentRef) :
    Exec RemoteResult := do
  if (← interrupted) || (← machine).world.isDead target then return .failed
  let caller := (← scope).agent
  withAgent target do
    match ← attempt (withFrame owner caller (run body)) with
    | .ok v => return ⟨v, true⟩
    | .error e =>
      if (← scope).inTry then fail e
      report .error e.message
      return .failed

/-- Runs a body for each target in turn. A `break` ends the dispatch, and with `stop` so does the
first target that fails. -/
def runEach (remote : AgentRef → Exec RemoteResult) (stop : Bool) :
    List AgentRef → Exec (List RemoteResult)
  | [] => return []
  | a :: rest => do
    if ← interrupted then return []
    let r ← remote a
    let f ← takeFlow .leave
    if f = .leave || (stop && !r.passed) then return [r]
    let rs ← withHeld [r.value] (runEach remote stop rest)
    return r :: rs

/-- What the outcome of a run holds on to. -/
def heldBy : Except ExecError RemoteResult → List Value
  | .ok r => [r.value]
  | .error _ => []

/-- Runs a body for each target in a copy of the scope. -/
def runForked (remote : AgentRef → Exec RemoteResult) :
    List AgentRef → Exec (List (Except ExecError RemoteResult))
  | [] => return []
  | a :: rest => do
    let r ← forked ((← scope).name ++ "/" ++ a.name) (remote a)
    let rs ← withHeld (heldBy r) (runForked remote rest)
    return r :: rs

/-- The results, or the first error among them. -/
def firstError : List (Except ExecError RemoteResult) → Except ExecError (List RemoteResult)
  | [] => .ok []
  | .error e :: _ => .error e
  | .ok r :: rest => (firstError rest).map (r :: ·)

/-- Runs a body for all targets, one after another or, if the hint asks for it, in parallel. -/
def fanOut (run : Sequence → Exec Value) (owner : String) (body : Sequence)
    (targets : List AgentRef) (hint : Value) (stop : Bool) : Exec (List RemoteResult) := do
  if body.isEmpty || targets.isEmpty then return []
  let remote := runRemote run owner body
  withHeld (hint :: targets.map .agent) do
    if runsInParallel (parallelThreshold hint (← machine).config) targets.length then
      lift (firstError (← runForked remote targets))
    else runEach remote stop targets

/-! ## Ask -/

/-- Runs a body for an agent, the agents of a container, or those of a species. Only a single
agent gives a value. -/
def runAsk (run : Sequence → Exec Value) (target : Expr) (parallel : Option Expr)
    (body : Sequence) : Exec Value := do
  let v ← eval target
  let s ← get
  let toAll (targets : List AgentRef) : Exec Value := do
    let hint ← evalOrNil parallel
    let _ ← withHeld [v] (fanOut run "ask" body targets hint false)
    return .nil
  match v with
  | .agent a => return (← runRemote run "ask" body a).value
  | .species name => toAll (s.machine.world.reachable (holds s) s.scope.agent name)
  | .nil => fail (.nilAgent "ask")
  | v =>
    if v.isContainer then toAll (s.machine.store.agents v)
    else fail (.notAnAgent "ask" (← text v))

/-! ## Create -/

/-- The name of the species to create. -/
def speciesName (species : Option Expr) (executor : AgentRef) : Exec String := do
  match species with
  | none => return (← machine).world.speciesOf executor
  | some e =>
    match ← eval e with
    | .species name | .str name => return name
    | .agent a => return (← machine).world.speciesOf a
    | v => fail (.unknownSpecies (← text v))

/-- The population that new agents of a species join. -/
def birthplace (executor : AgentRef) (species : String) : Exec Population := do
  let s ← get
  let w := s.machine.world
  if (w.find? species).isNone then fail (.unknownSpecies species)
  match w.populationFor? (holds s) executor species with
  | none => fail (.noPopulation species executor.name)
  | some p => if p.species.isAbstract then fail (.abstractSpecies species) else return p

/-- The records of a source. -/
def recordsFrom (source : Expr) (limit : Option Nat) : Exec (List Record) := do
  let v ← eval source
  let m ← machine
  match m.delegateList.find? (·.accepts m.store v) with
  | none => fail (.unsupportedSource (← text v))
  | some d =>
    match d.create m.store limit v with
    | .ok records => return records
    | .error message => fail (.foreign message)

/-- Adds the initial values to each record. They see the fields of the record. -/
def initialise (init : Arguments) : List Record → Exec (List Record)
  | [] => return []
  | r :: rest => do
    let values ← withFrame "create" none do
      modifyScope (·.declareAll r.fields)
      Arguments.evaluate init
    let rs ← initialise init rest
    return r.extend values :: rs

/-- Puts new agents into a population. -/
def bear (p : Population) (inits : List Record) : Exec (List AgentRef) := fun ⟨scope, machine⟩ =>
  let (as, world, store) := machine.world.populate machine.store p inits
  .ok as ⟨scope, { machine with world := world, store := store }⟩

/-- Creates the agents that a statement asks for, and gives them back with their host. Without a
source and a positive number it creates none, and there is no host. -/
def createAgents (f : CreateFacets) : Exec (Option AgentRef × List AgentRef) := do
  let count ← match f.number with
    | some e => pure (some ((← eval e).asInt.getD 0).toInt)
    | none => pure none
  if f.source.isNone && count.all (· ≤ 0) then return (none, [])
  let executor ← currentAgent "create"
  let p ← birthplace executor (← speciesName f.species executor)
  let limit := count.map Int.toNat
  let records ← match f.source with
    | some source => recordsFrom source limit
    | none => pure (List.replicate (limit.getD 0) .empty)
  let records ← if f.init.isEmpty then pure records else initialise f.init records
  return (some p.host, ← bear p records)

/-- Creates agents and runs the body for each. -/
def runCreate (run : Sequence → Exec Value) (f : CreateFacets) (body : Sequence) : Exec Value := do
  let (host, as) ← createAgents f
  if host.isSome then
    withHeld ((host.map Value.agent).toList) do
      let hint ← evalOrNil f.parallel
      let _ ← fanOut run "create" body as hint false
  let created ← agentList as
  store f.returns created
  return created

/-! ## Moves -/

/-- Moves an agent, unless it is stuck. -/
def moveAgent (a : AgentRef) (p : Population) : Exec (Except ExecError Unit) := do
  let s ← get
  let m := s.machine
  if m.policy.stuck.contains a.name then return .error (.raised (a.name ++ " is stuck"))
  let (world, store) := m.world.move (holds s) m.store a p
  modifyMachine fun m => { m with world := world, store := store }
  return .ok ()

/-- Moves the agents that have somewhere to go; gives back those that moved and those that did
not. -/
def moveAll (destination : AgentRef → Exec (Option Population)) :
    List AgentRef → Exec (List AgentRef × List AgentRef)
  | [] => return ([], [])
  | a :: rest => do
    let moved ← match ← destination a with
      | some p => pure (← moveAgent a p).isOk
      | none => pure false
    let (yes, no) ← moveAll destination rest
    return if moved then (a :: yes, no) else (yes, a :: no)

/-- Reports all agents that did not move at once. -/
def reportRejected (verb : String) (rejected : List AgentRef) (reason : String) : Exec Unit := do
  if rejected.isEmpty then return ()
  let executor := ((← scope).agent.map (·.name)).getD ""
  report .error (executor ++ " can't " ++ verb ++ " " ++
    ", ".intercalate (rejected.map (·.name)) ++ " " ++ reason)

/-- What a statement that moves agents has worked out before the first of them moves. -/
structure Relocation where
  verb : String
  /-- What is told about the agents that do not move. -/
  reason : String
  /-- The host that the statement names. -/
  into : Option AgentRef
  destination : AgentRef → Exec (Option Population)
  candidates : List AgentRef

/-- What a relocation holds on to. -/
def Relocation.holdings (r : Relocation) : List Value :=
  (r.into.toList ++ r.candidates).map .agent

/-- Moves agents, reports the others, and runs the body for the moved ones. -/
def relocate (run : Sequence → Exec Value) (r : Relocation) (returns : Option String)
    (body : Sequence) : Exec Value :=
  withHeld r.holdings do
    let (moved, rejected) ← moveAll r.destination r.candidates
    reportRejected r.verb rejected r.reason
    let _ ← fanOut run r.verb body moved .nil true
    let result ← agentList moved
    store returns result
    return result

/-- The population of a host, which the statement cannot do without. -/
def requirePopulation (host : AgentRef) (species : String) : Exec Population := do
  match (← machine).world.population? host species with
  | some p => return p
  | none => fail (.noPopulation species host.name)

/-- Whether an agent is held by a host. -/
def isHostedBy (held : AgentRef → Bool) (w : World) (a host : AgentRef) : Bool :=
  (w.host? held a).any fun h => h.id == host.id

/-- Whether a macro-agent can capture a candidate: it lives, is neither the macro-agent nor one of
its hosts, and is not captured yet. -/
def canCapture (held : AgentRef → Bool) (w : World) (macroAgent candidate : AgentRef) : Bool :=
  !w.isDead candidate && !w.isInHostChain held macroAgent candidate &&
    !isHostedBy held w candidate macroAgent

/-- Where a captured candidate goes. -/
def captureInto (macroAgent : AgentRef) (fixed : Option Population) (candidate : AgentRef) :
    Exec (Option Population) := do
  let s ← get
  let w := s.machine.world.forget (holds s) macroAgent
  modifyMachine fun m => { m with world := w }
  let p := match fixed with
    | some p => some p
    | none => w.population? macroAgent (w.speciesOf candidate)
  return if canCapture (holds s) w macroAgent candidate then p else none

/-- Finds the agents that are to become micro-agents of the executing one. -/
def planCapture (target : Expr) (species : Option String) : Exec Relocation := do
  let macroAgent ← currentAgent "capture"
  let v ← eval target
  let candidates := (← machine).store.agents v
  let fixed ← match species with
    | some name => pure (some (← requirePopulation macroAgent name))
    | none => pure none
  let reason := match species with
    | some name => "as " ++ name ++ " agents"
    | none => "as micro-agents: no appropriate micro-population can welcome them"
  return ⟨"capture", reason, none, captureInto macroAgent fixed, candidates⟩

/-- A single agent. -/
def singleAgent (statement : String) (v : Value) : Exec AgentRef := do
  match v with
  | .agent a => return a
  | .nil => fail (.nilAgent statement)
  | v => fail (.notAnAgent statement (← text v))

/-- Where a released candidate goes: to the given host, or to the nearest host above the executing
agent that holds its species. -/
def releaseTo (executor : AgentRef) (host : Option AgentRef) (species : Option String)
    (candidate : AgentRef) : Exec (Option Population) := do
  let s ← get
  let w := s.machine.world
  let name := species.getD (w.speciesOf candidate)
  match host with
  | some h =>
    let w := w.forget (holds s) h
    modifyMachine fun m => { m with world := w }
    return if h.id == executor.id then none else w.population? h name
  | none =>
    return (w.host? (holds s) executor).bind fun h => w.populationFor? (holds s) h name

/-- Finds the micro-agents of the executing agent that are to go. -/
def planRelease (target : Expr) (species : Option String) (host : Option Expr) :
    Exec Relocation := do
  let executor ← currentAgent "release"
  let v ← eval target
  let host ← match host with
    | some e => pure (some (← singleAgent "release" (← eval e)))
    | none => pure none
  let s ← get
  let candidates := (s.machine.store.agents v).filter fun a =>
    isHostedBy (holds s) s.machine.world a executor
  return ⟨"release", "because no destination population can welcome them", host,
    releaseTo executor host species, candidates⟩

/-- Finds the micro-agents of one species that are to become another. -/
def planMigrate (source target : String) : Exec Relocation := do
  let executor ← currentAgent "migrate"
  let _ ← requirePopulation executor source
  let p ← requirePopulation executor target
  let candidates := (← machine).world.members executor source
  return ⟨"migrate", "to " ++ target, none, fun _ => return some p, candidates⟩

/-! ## Actions -/

/-- The result of an action that the program around a model carries out. -/
def runNative (handler : Native) (args : BoundArguments) : Exec Value := do
  match handler with
  | .echo => allocate (·.newList .any (args.map fun (name, v) => .pair (.str name) v))
  | .whoami =>
    let s ← scope
    return .pair ((s.agent.map Value.agent).getD .nil) ((s.myself.map Value.agent).getD .nil)
  | .finish =>
    setFlow .yield
    return .int (Int64.ofNat (← scope).depth)
  | .dispose =>
    setFlow .dispose
    return .str "disposed"
  | .cancel =>
    modifyMachine fun m => { m with cancelled := true }
    return .str "cancelled"
  | .fail message => fail (.foreign message)
  | .refuse => fail (.foreign ("native failure with " ++ toString args.length ++ " argument(s)"))

/-- What the program around a model does for native actions. -/
abbrev Handlers := Native → BoundArguments → Exec Value

/-- Runs a step of the program around a model; whatever goes wrong in it is a foreign error. -/
def asForeign {α : Type} (x : Exec α) : Exec α := fun s =>
  match x s with
  | .error (.error e) s => .error (.error (.foreign e.message)) s
  | r => r

/-- Runs an action in a frame with its arguments. A `return` ends here. -/
def invokeWith (handlers : Handlers) (run : Sequence → Exec Value) (action : Action)
    (args : BoundArguments) (caller : Option AgentRef) : Exec Value :=
  withHeld (args.map (·.2)) <| withFrame ("action " ++ action.name) caller do
    modifyScope (·.declareAll args)
    let r ← attempt (match action.body with
      | .statements body => run body
      | .native handler => asForeign (handlers handler args))
    let _ ← takeFlow .yield
    lift r

/-- Runs an action; the native ones do what `runNative` says. -/
def invoke (run : Sequence → Exec Value) (action : Action) (args : BoundArguments)
    (caller : Option AgentRef) : Exec Value :=
  invokeWith runNative run action args caller

/-- The agent whose action is called, and who calls it. -/
def callee (target : Option Expr) : Exec (AgentRef × Option AgentRef) := do
  match target with
  | some e => do
    let a ← singleAgent "do" (← eval e)
    return (a, (← scope).agent)
  | none => do
    let a ← currentAgent "do"
    return (a, (← scope).myself)

/-- Calls an action of an agent. The dead do nothing. -/
def runCall (handlers : Handlers) (run : Sequence → Exec Value) (c : ActionCall) :
    Exec Value := do
  let (agent, caller) ← callee c.target
  let w := (← machine).world
  if w.isDead agent then return .nil
  let species := c.species.getD (w.speciesOf agent)
  match w.findAction? species c.action with
  | none => fail (.unknownAction c.action species)
  | some action =>
    let args ← Arguments.bind c.args action.formals
    let v ← withAgent agent (invokeWith handlers run action args caller)
    store c.returns v
    return v

end Habitat.Exec
