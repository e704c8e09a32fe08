import Habitat.Proofs.Container.Footprint
import Habitat.Proofs.Run.Discipline
import Habitat.Proofs.World.Footprint
import Habitat.Run.Statement

/-!
# What a run reads and writes

The log of a step lists, from each state, what the step reads and writes outside of the frames of
its own line of execution, in order and on every way out. It follows the step: each definition here
stands for a step of the same name. Frames, signals, reports and new containers are not logged.

Births, moves and the request to stop concern all that runs, so they are `Access.shared`.

* `Exec.exprLog`, `Exec.editLog`, `Exec.dispatchLog`: expressions, edits, and bodies for agents.
* `Exec.statementLog`, `Exec.sequenceLog`: statements and sequences.
-/
namespace Habitat

/-- What a step accesses from a state. -/
abbrev Log := State → List Access

namespace Log

variable {α : Type}

/-- A step that accesses nothing. -/
def silent : Log := fun _ => []

/-- What comes after a step that accesses nothing. -/
def after (x : Exec α) (k : α → Log) : Log := fun s =>
  match x s with
  | .ok a t => k a t
  | .error _ _ => []

/-- A step, and what comes after it. -/
def bind (l : Log) (x : Exec α) (k : α → Log) : Log := fun s => l s ++ after x k s

/-- A step that looks into containers. -/
def ofStore (f : Store → List Access) : Log := fun s => f s.machine.store

end Log

namespace Exec

/-! ## Brackets -/

def frameLog (owner : String) (caller : Option AgentRef) (l : Log) : Log := fun s =>
  l (pushFrame owner caller s)

def agentLog (a : AgentRef) (l : Log) : Log := fun s =>
  if s.scope.isNewAgent a then l { s with scope := s.scope.pushAgent a } else l s

def tryLog (l : Log) : Log := fun s =>
  l { s with scope := { s.scope with tryDepth := s.scope.tryDepth + 1 } }

def heldLog (vs : List Value) (l : Log) : Log := fun s => l (s.holding vs)

def forkedLog (name : String) (l : Log) : Log := fun s =>
  l (State.holding ⟨s.scope.fork name, s.machine⟩ s.scope.holdings)

/-! ## Expressions -/

/-- The value of an expression, with all containers that are made on the way. -/
def raw (e : Expr) : Exec Value := compute fun env => e.eval env

/-- The values of expressions, with all containers that are made on the way. -/
def rawAll (es : List Expr) : Exec (List Value) := compute fun env => Expr.evalAll env es

/-- The keys and values of a map, with all containers that are made on the way. -/
def rawEntries (es : List (Expr × Expr)) : Exec (List (Value × Value)) :=
  compute fun env => Expr.evalEntries env es

def textLog (v : Value) : Log := .ofStore (·.textReads v)

def castLog (target : BaseType) (v : Value) : Log := .ofStore (·.castReads target v)

/-- A name that is no variable is an attribute of the executing agent. -/
def lookupLog (name : String) : Log := fun s =>
  if (s.scope.getVar name).isSome then [] else
  s.scope.agent.toList.map fun a => .read (.attr a.id name)

def attrLog (name : String) : Value → Log
  | .agent a => fun _ => [.read (.attr a.id name)]
  | .map r => .ofStore fun s => (Value.map r).look ++ (s.maps.get r).keyReads s (.str name)
  | .nil => .silent
  | v => textLog v

/-- What is no number is written down. -/
def pointLog (x y : Value) : Log :=
  if x.asFloat.isSome && y.asFloat.isSome then .silent
  else .ofStore fun s => s.textReads x ++ s.textReads y

def operatorLog : BinaryOp → Value → Value → Log
  | .eq, a, b | .ne, a, b => .ofStore (·.eqReads a b)
  | .add, .str _, b => textLog b
  | .add, .list r, b => fun _ => (Value.list r).look ++ if b.type = .list then b.look else []
  | _, _, _ => .silent

def sumLog : List Value → Value → Log
  | [], _ => .silent
  | v :: rest, acc =>
    (operatorLog .add acc v).bind (compute fun _ => Operators.binary .add acc v) (sumLog rest)

def builtinLog (function : Builtin) (args : List Value) : Log :=
  match function, args with
  | .length, [v] => fun _ => v.look
  | .contains, [c, v] => .ofStore fun s =>
    c.look ++ searchReads (s.eq · v) (s.eqReads · v) (s.elements c)
  | .at, [c, i] => if c.isContainer then .ofStore (·.atReads c i) else .silent
  | .dead, [.agent a] => fun _ => [.read (.life a.id)]
  | .sum, [c] => fun s => c.look ++ sumLog (s.machine.store.elements c) (.int 0) s
  | _, _ => .silent

/-- Finding the agents that a species name means to the executing agent. -/
def reachableLog (name : String) : Log := fun s =>
  s.machine.world.reachableReads (holds s) s.scope.agent name

mutual

def exprLog : Expr → Log
  | .nil | .bool _ | .int _ | .float _ | .str _ | .species _ | .selfAgent | .myself | .graph =>
    .silent
  | .var name _ => lookupLog name
  | .attr target name => (exprLog target).bind (raw target) (attrLog name)
  | .unary _ e => exprLog e
  | .binary .and l r => (exprLog l).bind (raw l) fun a => if a.truthy then exprLog r else .silent
  | .binary .or l r => (exprLog l).bind (raw l) fun a => if a.truthy then .silent else exprLog r
  | .binary op l r =>
    (exprLog l).bind (raw l) fun a => (exprLog r).bind (raw r) fun b => operatorLog op a b
  | .list items _ => exprsLog items
  | .map entries =>
    (entriesLog entries).bind (rawEntries entries) fun es =>
      .ofStore fun s => MapCell.entryReads s .any .any es
  | .pair k v => (exprLog k).bind (raw k) fun _ => exprLog v
  | .point x y => (exprLog x).bind (raw x) fun a => (exprLog y).bind (raw y) fun b => pointLog a b
  | .matrix cols rows fill =>
    (exprLog cols).bind (raw cols) fun _ => (exprLog rows).bind (raw rows) fun _ => exprLog fill
  | .population name => reachableLog name
  | .cast target e => (exprLog e).bind (raw e) (castLog target)
  | .call function args => (exprsLog args).bind (rawAll args) (builtinLog function)
  | .embedded inner _ _ _ => exprLog inner

def exprsLog : List Expr → Log
  | [] => .silent
  | e :: rest => (exprLog e).bind (raw e) fun _ => exprsLog rest

def entriesLog : List (Expr × Expr) → Log
  | [] => .silent
  | (k, v) :: rest =>
    (exprLog k).bind (raw k) fun _ => (exprLog v).bind (raw v) fun _ => entriesLog rest

end

def optionLog : Option Expr → Log
  | some e => exprLog e
  | none => .silent

/-! ## Arguments -/

def argumentsLog : Arguments → Log
  | [] => .silent
  | (_, e) :: rest => (exprLog e).bind (eval e) fun _ => argumentsLog rest

def castArgumentLog (type : BaseType) (v : Value) : Log :=
  if v.isNil then .silent else castLog type v

def formalsLog (args : Arguments) : List Formal → Log
  | [] => .silent
  | f :: rest =>
    let e := match args.lookup f.name with
      | some e => some e
      | none => f.fallback
    (optionLog e).bind (evalOrNil e) fun v =>
      (castArgumentLog f.type.base v).bind (Arguments.castArgument f.type.base v) fun _ =>
        formalsLog args rest

def bindLog (args : Arguments) (formals : List Formal) : Log :=
  (formalsLog args formals).bind (Arguments.bindFormals args formals) fun _ =>
    argumentsLog (args.filter fun a => !formals.any fun f => f.name == a.1)

/-! ## Edits -/

/-- Changing a container. -/
def changeLog (m : Mutation) : Log := fun s =>
  (m.target.container?.toList.map fun r => .write (.container r.1 r.2)) ++ m.reads s.machine.store

/-- What is not of the declared type is cast, and the warnings tell what it was. -/
def coerceLog (target : BaseType) (v : Value) : Log :=
  if target = .any ∨ v.isNil ∨ v.type = target then .silent
  else .ofStore fun s => s.textReads v ++ s.castReads target v

def indexLog (all : Bool) (container index : Value) : Log :=
  match container, index with
  | .matrix _, _ | .graph _, _ | .list _, .pair .. => .silent
  | .list _, _ => if all && index.isContainer then .silent else coerceLog .int index
  | _, _ => fun s => container.look ++ coerceLog (s.machine.store.keyType container) index s

def itemLog (container item : Value) : Log :=
  match container with
  | .graph _ => .silent
  | _ => fun s => container.look ++ coerceLog (s.machine.store.contentType container) item s

def itemsLog (container : Value) : List Value → Log
  | [] => .silent
  | v :: rest => (itemLog container v).bind (castItem container v) fun _ => itemsLog container rest

def payloadLog (kind : EditKind) (all : Bool) (container : Value) : Option Value → Log
  | none => .silent
  | some v =>
    if all && kind != .put && v.isContainer then fun s =>
      v.look ++ itemsLog container (s.machine.store.elements v) s
    else itemLog container v

def addLog (container : Value) (item : Payload) (index : Option Value) : Log :=
  match item, index with
  | .many vs, i => changeLog (.request container (.addAll i vs))
  | .one v, some i => changeLog (.request container (.insert i v))
  | .one v, none => changeLog (.request container (.add v))
  | .missing, _ => .silent

def removeLog (all : Bool) (container : Value) (item : Payload) (index : Option Value) : Log :=
  match index with
  | some i =>
    if all && i.isContainer then fun s =>
      i.look ++ changeLog (.request container (.removeAllAt (s.machine.store.elements i))) s
    else changeLog (.request container (.removeAt i))
  | none =>
    match item with
    | .many vs => changeLog (.request container (.removeAll vs))
    | .one v => changeLog (.request container (if all then .removeEvery v else .remove v))
    | .missing => if all then changeLog (.request container .clear) else .silent

/-- Putting a value, once it is known. -/
def putValueLog (all : Bool) (container : Value) (index : Option Value) (v : Value) : Log :=
  if all then changeLog (.request container (.fill v))
  else
    match rangeOf? container (index.getD .nil) with
    | some (r, start, stop) => changeLog (.range r start stop v)
    | none => changeLog (.request container (.put (index.getD .nil) v))

def putLog (all : Bool) (container : Value) (item : Payload) (index : Option Value) : Log :=
  match item with
  | .one v => putValueLog all container index v
  | .many vs => .after (allocate (·.newList .any vs)) (putValueLog all container index)
  | .missing => putValueLog all container index .nil

def graphLog (kind : EditKind) (f : EditFacets) (container : Value) (item : Option Value) : Log :=
  match kind, f.role, container, item with
  | .add, .node, .graph r, some v => changeLog (.vertex r v)
  | .add, .edge, .graph _, some e =>
    (optionLog f.weight).bind (evalOrNil f.weight) fun w =>
      changeLog (.request container (.insert e w))
  | _, _, _, _ => .silent

/-- An edit, once the container and the index are known. -/
def applyLog (kind : EditKind) (f : EditFacets) (container : Value) (index : Option Value) : Log :=
  (optionLog f.item).bind (evalOption f.item) fun item =>
    (graphLog kind f container item).bind (addToGraph kind f container item) fun done =>
      if done then .silent else
      (payloadLog kind f.all container item).bind (payload kind f.all container item) fun item =>
        match kind with
        | .add => addLog container item index
        | .remove => removeLog f.all container item index
        | .put => putLog f.all container item index

def editLog (kind : EditKind) (f : EditFacets) : Log :=
  (exprLog f.container).bind (eval f.container) fun container =>
    if !container.isContainer then .silent else
    match f.index with
    | none => applyLog kind f container none
    | some e =>
      (exprLog e).bind (eval e) fun i =>
        (indexLog f.all container i).bind (castIndex f.all container i) fun index =>
          applyLog kind f container (some index)

/-! ## Loops -/

def timesLog (log : Log) (visit : Exec (Value × Bool)) : Nat → Value → Log
  | 0, _ => .silent
  | n + 1, last => (heldLog [last] log).bind (withHeld [last] visit) fun r =>
    if r.2 then timesLog log visit n r.1 else .silent

def whileLog (conditionLog : Log) (condition : Exec Bool) (log : Log)
    (visit : Exec (Value × Bool)) : Nat → Value → Log
  | 0, _ => .silent
  | n + 1, last => conditionLog.bind condition fun holds =>
    if holds then (heldLog [last] log).bind (withHeld [last] visit) fun r =>
      if r.2 then whileLog conditionLog condition log visit n r.1 else .silent
    else .silent

def overLog (log : Value → Log) (visit : Value → Exec (Value × Bool)) : List Value → Value → Log
  | [], _ => .silent
  | x :: rest, last =>
    (heldLog (last :: rest) (log x)).bind (withHeld (last :: rest) (visit x)) fun r =>
      if r.2 then overLog log visit rest r.1 else .silent

def fromLog {α : Type} (inRange : α → Bool) (next : α → Option α) (log : α → Log)
    (visit : α → Exec (Value × Bool)) : Nat → α → Value → Log
  | 0, _, _ => .silent
  | n + 1, x, last =>
    if inRange x then (heldLog [last] (log x)).bind (withHeld [last] (visit x)) fun r =>
      if r.2 then
        match next x with
        | some y => fromLog inRange next log visit n y r.1
        | none => .silent
      else .silent
    else .silent

section
variable (log : Value → Log) (visit : Value → Exec (Value × Bool))

def countIntsLog (r : Range Int64) : Log :=
  let descending := decide (r.stop < r.start)
  if r.step = some 0 then .silent
  else if r.start = r.stop then log (.int r.start)
  else if r.step.any fun s => descending == decide (0 < s) then .silent
  else
    let step := r.step.getD (if descending then -1 else 1)
    let inRange := fun x : Int64 => if descending then decide (r.stop ≤ x) else decide (x ≤ r.stop)
    let bound := (r.stop.toInt - r.start.toInt).natAbs + 2
    fromLog inRange (nextInt step) (fun x => log (.int x)) (fun x => visit (.int x)) bound r.start
      .nil

def countFloatsLog (fuel : Nat) (r : Range Float) : Log :=
  let descending := decide (r.stop < r.start)
  if r.step.any (· == 0.0) then .silent
  else if r.start == r.stop then log (.float r.start)
  else if r.step.any fun s => descending == decide (0.0 < s) then .silent
  else
    let step := r.step.getD (if descending then -1.0 else 1.0)
    let inRange := fun x : Float => if descending then decide (r.stop ≤ x) else decide (x ≤ r.stop)
    fromLog inRange (fun x => some (x + step)) (fun x => log (.float x)) (fun x => visit (.float x))
      fuel r.start .nil

/-- What is no number is written down. -/
def numberLog (v : Value) : Log := if v.asFloat.isSome then .silent else textLog v

def stepLog (v : Option Value) : Log := (v.map numberLog).getD .silent

/-- The step of a loop among values that are not all integers. -/
def stepNumber : Option Value → Exec (Option Float)
  | some v => return some (← number v)
  | none => return none

def countAnyLog (fuel : Nat) (r : Range Value) : Log :=
  match intRange? r with
  | some r => countIntsLog log visit r
  | none =>
    (stepLog r.step).bind (stepNumber r.step) fun step =>
      (numberLog r.start).bind (number r.start) fun start =>
        (numberLog r.stop).bind (number r.stop) fun stop =>
          countFloatsLog log visit fuel ⟨start, stop, step⟩

def boundLog {α : Type} : Bound α → Log
  | .constant _ => .silent
  | .dynamic e => exprLog e

def rangeLog {α : Type} (read : Value → Option α) (r : Range (Bound α)) : Log :=
  (boundLog r.start).bind (resolve read r.start) fun _ =>
    (boundLog r.stop).bind (resolve read r.stop) fun _ => (r.step.map boundLog).getD .silent

def kindLog (fuel : Nat) : LoopKind → Log
  | .times count => (boundLog count).bind (resolve intBound? count) fun n =>
    timesLog (log .nil) (visit .nil) n.toInt.toNat .nil
  | .loopWhile condition =>
    whileLog (exprLog condition) (return (← eval condition).truthy) (log .nil) (visit .nil) fuel
      .nil
  | .each source => (exprLog source).bind (eval source) fun v s =>
    v.look ++ heldLog [v] (overLog log visit (s.machine.store.elements v) .nil) s
  | .intRange r => (rangeLog intBound? r).bind (resolveRange intBound? r) (countIntsLog log visit)
  | .floatRange r =>
    (rangeLog Value.asFloat r).bind (resolveRange Value.asFloat r) (countFloatsLog log visit fuel)
  | .anyRange r =>
    (exprLog r.start).bind (eval r.start) fun start =>
      (exprLog r.stop).bind (eval r.stop) fun stop =>
        (optionLog r.step).bind (evalOption r.step) fun step =>
          countAnyLog log visit fuel ⟨start, stop, step⟩

end

def iterateLog (log : Log) (var : Option String) (v : Value) : Log :=
  frameLog "loop" none (.after (store var v) fun _ => log)

def loopLog (log : Log) (fuel : Nat) (run : Sequence → Exec Value) (var : Option String)
    (kind : LoopKind) (body : Sequence) : Log :=
  kindLog (iterateLog log var) (iterate run var body) fuel kind

/-! ## Dispatch -/

section
variable (log : Log) (run : Sequence → Exec Value) (owner : String) (body : Sequence)

/-- A turn of an agent that runs. -/
def turnLog (target : AgentRef) : Log := fun s =>
  agentLog target (frameLog owner s.scope.agent log) s

def remoteLog (target : AgentRef) : Log := fun s =>
  if s.scope.flow.isInterrupting || s.machine.cancelled then []
  else .read (.life target.id) ::
    if s.machine.world.isDead target then [] else turnLog log owner target s

def eachLog (log : AgentRef → Log) (remote : AgentRef → Exec RemoteResult) (stop : Bool) :
    List AgentRef → Log
  | [] => .silent
  | a :: rest => .after interrupted fun i =>
    if i then .silent else
    (log a).bind (remote a) fun r => .after (takeFlow .leave) fun f =>
      if f = .leave || (stop && !r.passed) then .silent
      else heldLog [r.value] (eachLog log remote stop rest)

def forksLog (log : AgentRef → Log) (remote : AgentRef → Exec RemoteResult) : List AgentRef → Log
  | [] => .silent
  | a :: rest => fun s =>
    let name := s.scope.name ++ "/" ++ a.name
    (forkedLog name (log a)).bind (forked name (remote a))
      (fun r => heldLog (heldBy r) (forksLog log remote rest)) s

def dispatchLog (targets : List AgentRef) (hint : Value) (stop : Bool) : Log :=
  if body.isEmpty || targets.isEmpty then .silent else
  heldLog (hint :: targets.map .agent) fun s =>
    if runsInParallel (parallelThreshold hint s.machine.config) targets.length then
      forksLog (remoteLog log owner) (runRemote run owner body) targets s
    else eachLog (remoteLog log owner) (runRemote run owner body) stop targets s

end

section
variable (log : Sequence → Log) (run : Sequence → Exec Value)

def askAllLog (v : Value) (parallel : Option Expr) (body : Sequence) (targets : List AgentRef) :
    Log :=
  (optionLog parallel).bind (evalOrNil parallel) fun hint =>
    heldLog [v] (dispatchLog (log body) run "ask" body targets hint false)

def askLog (target : Expr) (parallel : Option Expr) (body : Sequence) : Log :=
  (exprLog target).bind (eval target) fun v =>
    match v with
    | .agent a => remoteLog (log body) "ask" a
    | .species name => fun s => reachableLog name s ++
      askAllLog log run v parallel body
        (s.machine.world.reachable (holds s) s.scope.agent name) s
    | .nil => .silent
    | v =>
      if v.isContainer then fun s =>
        v.look ++ askAllLog log run v parallel body (s.machine.store.agents v) s
      else textLog v

/-- The number of agents that a statement asks for. -/
def askedNumber (f : CreateFacets) : Exec (Option Int) := do
  match f.number with
  | some e => return some (((← eval e).asInt.getD 0).toInt)
  | none => return none

/-- A statement that creates none gets no further than its number. All others concern the
population that the new agents join. -/
def birthLog (f : CreateFacets) : Log :=
  (optionLog f.number).bind (askedNumber f) fun count =>
    if f.source.isNone && count.all (· ≤ 0) then .silent else fun _ => [.shared]

def createLog (f : CreateFacets) (body : Sequence) : Log :=
  (birthLog f).bind (createAgents f) fun r =>
    if r.1.isSome then
      heldLog (r.1.map Value.agent).toList <|
        (optionLog f.parallel).bind (evalOrNil f.parallel) fun hint =>
          dispatchLog (log body) run "create" body r.2 hint false
    else .silent

/-! ### Moves -/

def moveLog (a : AgentRef) : Log := fun s =>
  if s.machine.policy.stuck.contains a.name then [] else [.shared]

def movesLog (log : AgentRef → Log) (destination : AgentRef → Exec (Option Population)) :
    List AgentRef → Log
  | [] => .silent
  | a :: rest => (log a).bind (destination a) fun p =>
    match p with
    | some p => (moveLog a).bind (moveAgent a p) fun _ => movesLog log destination rest
    | none => movesLog log destination rest

def singleLog : Value → Log
  | .agent _ | .nil => .silent
  | v => textLog v

def planCaptureLog (target : Expr) : Log :=
  .after (currentAgent "capture") fun _ => (exprLog target).bind (eval target) fun v _ => v.look

def captureIntoLog (macroAgent candidate : AgentRef) : Log := fun s =>
  let w := s.machine.world
  w.forgetReads macroAgent ++ w.captureReads (holds s) macroAgent candidate

def planReleaseLog (target : Expr) (host : Option Expr) : Log :=
  .after (currentAgent "release") fun _ => (exprLog target).bind (eval target) fun v =>
    let candidatesLog : Log := fun s =>
      v.look ++ (s.machine.store.agents v).flatMap s.machine.world.hostReads
    match host with
    | none => candidatesLog
    | some e => (exprLog e).bind (eval e) fun h =>
      (singleLog h).bind (singleAgent "release" h) fun _ => candidatesLog

def releaseToLog (executor : AgentRef) (host : Option AgentRef) (species : Option String)
    (candidate : AgentRef) : Log := fun s =>
  let w := s.machine.world
  match host with
  | some h => w.forgetReads h
  | none => w.hostReads executor ++ (w.host? (holds s) executor).toList.flatMap fun h =>
      w.populationReads h (species.getD (w.speciesOf candidate))

def planMigrateLog (source target : String) : Log :=
  .after (currentAgent "migrate") fun executor =>
    .after (requirePopulation executor source) fun _ =>
      .after (requirePopulation executor target) fun _ s =>
        s.machine.world.membersReads executor source

def relocateLog (destinationLog : AgentRef → Log) (r : Relocation) (body : Sequence) : Log :=
  heldLog r.holdings <|
    (movesLog destinationLog r.destination r.candidates).bind (moveAll r.destination r.candidates)
      fun m => .after (reportRejected r.verb m.2 r.reason) fun _ =>
        dispatchLog (log body) run r.verb body m.1 .nil true

/-- Working out a relocation, and carrying it out on behalf of the executing agent. -/
def relocationLog (planLog : Log) (plan : Exec Relocation)
    (destinationLog : Relocation → AgentRef → AgentRef → Log) (body : Sequence) : Log := fun s =>
  planLog.bind plan (fun r => relocateLog log run
    (fun a t => s.scope.agent.toList.flatMap fun executor => destinationLog r executor a t)
    r body) s

/-! ### Actions -/

def nativeLog : Native → Log
  | .cancel => fun _ => [.shared]
  | _ => .silent

def invokeLog (action : Action) (args : BoundArguments) (caller : Option AgentRef) : Log :=
  heldLog (args.map (·.2)) <| frameLog ("action " ++ action.name) caller <|
    .after (modifyScope (·.declareAll args)) fun _ =>
      match action.body with
      | .statements body => log body
      | .native handler => nativeLog handler

def calleeLog : Option Expr → Log
  | some e => (exprLog e).bind (eval e) singleLog
  | none => .silent

def callLog (c : ActionCall) : Log :=
  (calleeLog c.target).bind (callee c.target) fun r s =>
    let w := s.machine.world
    .read (.life r.1.id) ::
      if w.isDead r.1 then [] else
      match w.findAction? (c.species.getD (w.speciesOf r.1)) c.action with
      | none => []
      | some action => (bindLog c.args action.formals).bind (Arguments.bind c.args action.formals)
        (fun args => agentLog r.1 (invokeLog log action args r.2)) s

/-! ## Statements -/

omit log run

def assignNameLog (name : String) (v : Value) : Log := fun s =>
  if (s.scope.setVar name v).isSome then [] else
  s.scope.agent.toList.flatMap fun a => .read (.attr a.id name) ::
    if (s.machine.world.attribute? a name).isSome then [.write (.attr a.id name)] else []

def assignToLog (target : Value) (name : String) (v : Value) : Log :=
  match target with
  | .agent a => fun _ => [.write (.attr a.id name)]
  | .map _ => changeLog (.request target (.put (.str name) v))
  | .nil => .silent
  | other => textLog other

def attemptLog (body : Sequence) (rescue : Option Sequence) : Log :=
  .after (recordValue .nil) fun _ =>
    (tryLog (frameLog "try" none (log body))).bind
      (attempt (withTry (withFrame "try" none (run body)))) fun r =>
        match r, rescue with
        | .error e, some rescue =>
          .after (modifyScope fun s => { s with currentError := some e }) fun _ =>
            frameLog "catch" none <| .after (declare "error" (.str e.message)) fun _ => log rescue
        | _, _ => .silent

def statementLog (fuel : Nat) : Statement → Log
  | .declare _ value | .yield value => optionLog value
  | .assign target name value => (exprLog value).bind (eval value) fun v =>
    match target with
    | none => assignNameLog name v
    | some e => (exprLog e).bind (eval e) fun t => assignToLog t name v
  | .branch condition yes no => (exprLog condition).bind (eval condition) fun v =>
    match if v.truthy then some yes else no with
    | some body => frameLog "if" none (log body)
    | none => .silent
  | .block body => frameLog "block" none (log body)
  | .loop var kind body => loopLog (log body) fuel run var kind body
  | .ask target parallel body => askLog log run target parallel body
  | .create f body => createLog log run f body
  | .capture target species _ body =>
    relocationLog log run (planCaptureLog target) (planCapture target species)
      (fun _ => captureIntoLog) body
  | .release target species host _ body =>
    relocationLog log run (planReleaseLog target host) (planRelease target species host)
      (fun r executor => releaseToLog executor r.into species) body
  | .migrate source target _ body =>
    relocationLog log run (planMigrateLog source target) (planMigrate source target)
      (fun _ _ _ => .silent) body
  | .call c => callLog log c
  | .edit kind f _ => editLog kind f
  | .attempt body rescue => attemptLog log run body rescue
  | .leave | .skip => .silent
  | .die => fun s => s.scope.agent.toList.map fun a => .write (.life a.id)
  | .write message | .warn message | .raise message =>
    (exprLog message).bind (eval message) textLog

def stepsLog (log : Statement → Log) (step : Statement → Exec Value) : Sequence → Value → Log
  | [], _ => .silent
  | s :: rest, last => .after interrupted fun i =>
    if i then .silent else
    .after (traceStatement s) fun _ =>
      (heldLog [last] (log s)).bind (withHeld [last] (step s)) fun v =>
        .after (recordValue v) fun _ => stepsLog log step rest v

end

def sequenceLog : Nat → Sequence → Log
  | 0, _ => .silent
  | n + 1, body =>
    stepsLog (statementLog (sequenceLog n) (sequence n) n) (statement n (sequence n)) body .nil

end Exec
end Habitat
