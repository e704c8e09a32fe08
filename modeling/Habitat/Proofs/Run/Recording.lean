import Habitat.Proofs.Run.Marks

/-!
# Everything that runs, with its marks

Each construct of the interpreter once more, as a recorded step. The lemma beside it says that
without its marks it is the construct that runs; so the marks of `Recorded.sequenceWith` are those
of a run of `Exec.sequenceWith`.

A statement leaves its mark when it has completed (`Recorded.steps`), and a `try` when it begins
(`Recorded.runAttempt`). Nothing else leaves one: what runs in a copy of the scope completes there.

* `Recorded.run_statementWith`: one layer of statements.
* `Recorded.run_sequenceWith`: sequences of any depth.
-/
namespace Habitat

open Exec Discipline

namespace Recorded

variable {α : Type}

/-! ## Loops -/

def iterate (run : Sequence → Recorded Value) (var : Option String) (body : Sequence)
    (v : Value) : Recorded (Value × Bool) :=
  withFrame "loop" none do
    store var v
    let last ← run body
    let f ← takeFlow .skip
    let m ← machine
    return (last, !f.terminatesLoop && !m.cancelled)

theorem run_iterate (run : Sequence → Recorded Value) (var : Option String) (body : Sequence)
    (v : Value) :
    (iterate run var body v).run = Exec.iterate (fun b => (run b).run) var body v := rfl

def repeatTimes (visit : Recorded (Value × Bool)) : Nat → Value → Recorded Value
  | 0, last => return last
  | n + 1, last => do
    let (v, more) ← withHeld [last] visit
    if more then repeatTimes visit n v else return v

theorem run_repeatTimes (visit : Recorded (Value × Bool)) (n : Nat) (last : Value) :
    (repeatTimes visit n last).run = Exec.repeatTimes visit.run n last := by
  induction n generalizing last with
  | zero => rfl
  | succ n ih =>
    simp only [repeatTimes, Exec.repeatTimes, run_bind, run_ite, run_pure, ih]
    rfl

def repeatWhile (condition : Recorded Bool) (visit : Recorded (Value × Bool)) :
    Nat → Value → Recorded Value
  | 0, _ => outOfFuel
  | n + 1, last => do
    if ← condition then
      let (v, more) ← withHeld [last] visit
      if more then repeatWhile condition visit n v else return v
    else return last

theorem run_repeatWhile (condition : Recorded Bool) (visit : Recorded (Value × Bool)) (n : Nat)
    (last : Value) :
    (repeatWhile condition visit n last).run =
      Exec.repeatWhile condition.run visit.run n last := by
  induction n generalizing last with
  | zero => rfl
  | succ n ih =>
    simp only [repeatWhile, Exec.repeatWhile, run_bind, run_ite, run_pure, ih]
    rfl

def repeatOver (visit : Value → Recorded (Value × Bool)) :
    List Value → Value → Recorded Value
  | [], last => return last
  | x :: rest, last => do
    let (v, more) ← withHeld (last :: rest) (visit x)
    if more then repeatOver visit rest v else return v

theorem run_repeatOver (visit : Value → Recorded (Value × Bool)) (vs : List Value)
    (last : Value) :
    (repeatOver visit vs last).run = Exec.repeatOver (fun v => (visit v).run) vs last := by
  induction vs generalizing last with
  | nil => rfl
  | cons x rest ih =>
    simp only [repeatOver, Exec.repeatOver, run_bind, run_ite, run_pure, ih]
    rfl

def repeatFrom (inRange : α → Bool) (next : α → Option α)
    (visit : α → Recorded (Value × Bool)) : Nat → α → Value → Recorded Value
  | 0, _, _ => outOfFuel
  | n + 1, x, last => do
    if inRange x then
      let (v, more) ← withHeld [last] (visit x)
      if more then
        match next x with
        | some y => repeatFrom inRange next visit n y v
        | none => return v
      else return v
    else return last

theorem run_repeatFrom (inRange : α → Bool) (next : α → Option α)
    (visit : α → Recorded (Value × Bool)) (n : Nat) (x : α) (last : Value) :
    (repeatFrom inRange next visit n x last).run =
      Exec.repeatFrom inRange next (fun x => (visit x).run) n x last := by
  induction n generalizing x last with
  | zero => rfl
  | succ n ih =>
    simp only [repeatFrom, Exec.repeatFrom, run_ite, run_bind, run_pure]
    cases next x with
    | some y => simp only [ih]; rfl
    | none => rfl

section
variable (visit : Value → Recorded (Value × Bool))

def countInts (r : Range Int64) : Recorded Value := do
  let descending := decide (r.stop < r.start)
  if r.step = some 0 then fail .zeroStep
  else if r.start = r.stop then return (← visit (.int r.start)).1
  else if r.step.any fun s => descending == decide (0 < s) then return .nil
  else
    let step := r.step.getD (if descending then -1 else 1)
    let inRange := fun x : Int64 => if descending then decide (r.stop ≤ x) else decide (x ≤ r.stop)
    let bound := (r.stop.toInt - r.start.toInt).natAbs + 2
    repeatFrom inRange (nextInt step) (fun x => visit (.int x)) bound r.start .nil

theorem run_countInts (r : Range Int64) :
    (countInts visit r).run = Exec.countInts (fun v => (visit v).run) r := by
  simp only [countInts, Exec.countInts, run_ite, run_bind, run_pure, run_silent, run_repeatFrom]

def countFloats (fuel : Nat) (r : Range Float) : Recorded Value := do
  let descending := decide (r.stop < r.start)
  if r.step.any (· == 0.0) then fail .zeroStep
  else if r.start == r.stop then return (← visit (.float r.start)).1
  else if r.step.any fun s => descending == decide (0.0 < s) then return .nil
  else
    let step := r.step.getD (if descending then -1.0 else 1.0)
    let inRange := fun x : Float => if descending then decide (r.stop ≤ x) else decide (x ≤ r.stop)
    repeatFrom inRange (fun x => some (x + step)) (fun x => visit (.float x)) fuel r.start .nil

theorem run_countFloats (fuel : Nat) (r : Range Float) :
    (countFloats visit fuel r).run = Exec.countFloats fuel (fun v => (visit v).run) r := by
  simp only [countFloats, Exec.countFloats, run_ite, run_bind, run_pure, run_silent, run_repeatFrom]

def countAny (fuel : Nat) (r : Range Value) : Recorded Value := do
  match intRange? r with
  | some r => countInts visit r
  | none =>
    let step ← match r.step with
      | some s => pure (some (← silent (number s) (idle_lawful.safe_number s)))
      | none => pure none
    let start ← silent (number r.start) (idle_lawful.safe_number r.start)
    let stop ← silent (number r.stop) (idle_lawful.safe_number r.stop)
    countFloats visit fuel ⟨start, stop, step⟩

theorem run_countAny (fuel : Nat) (r : Range Value) :
    (countAny visit fuel r).run = Exec.countAny fuel (fun v => (visit v).run) r := by
  unfold countAny Exec.countAny
  cases intRange? r with
  | some r => exact run_countInts visit r
  | none => cases r.step <;> simp only [run_bind, run_pure, run_silent, run_countFloats]

def runKind (fuel : Nat) : LoopKind → Recorded Value
  | .times count => do
    let n ← silent (resolve intBound? count) (idle_lawful.safe_resolve _ _)
    repeatTimes (visit .nil) n.toInt.toNat .nil
  | .loopWhile condition =>
    repeatWhile (do return (← eval condition).truthy) (visit .nil) fuel .nil
  | .each source => do
    let v ← eval source
    let vs := (← machine).store.elements v
    withHeld [v] (repeatOver visit vs .nil)
  | .intRange r => do
    countInts visit (← silent (resolveRange intBound? r) (idle_lawful.safe_resolveRange _ _))
  | .floatRange r => do
    countFloats visit fuel
      (← silent (resolveRange Value.asFloat r) (idle_lawful.safe_resolveRange _ _))
  | .anyRange r => do
    let start ← eval r.start
    let stop ← eval r.stop
    let step ← silent (evalOption r.step) (idle_lawful.safe_evalOption _)
    countAny visit fuel ⟨start, stop, step⟩

theorem run_runKind (fuel : Nat) (kind : LoopKind) :
    (runKind visit fuel kind).run = Exec.runKind fuel (fun v => (visit v).run) kind := by
  cases kind with
  | times count => simp only [runKind, Exec.runKind, run_bind, run_silent, run_repeatTimes]
  | loopWhile condition => exact run_repeatWhile _ _ _ _
  | each source =>
    simp only [runKind, Exec.runKind, run_bind, run_silent, run_withHeld, run_repeatOver]
  | intRange r => simp only [runKind, Exec.runKind, run_bind, run_silent, run_countInts]
  | floatRange r => simp only [runKind, Exec.runKind, run_bind, run_silent, run_countFloats]
  | anyRange r => simp only [runKind, Exec.runKind, run_bind, run_silent, run_countAny]

end

section
variable (run : Sequence → Recorded Value)

def runLoop (fuel : Nat) (var : Option String) (kind : LoopKind) (body : Sequence) :
    Recorded Value := do
  let r ← attempt (runKind (iterate run var body) fuel kind)
  let _ ← takeFlow .leave
  lift r

theorem run_runLoop (fuel : Nat) (var : Option String) (kind : LoopKind) (body : Sequence) :
    (runLoop run fuel var kind body).run =
      Exec.runLoop fuel (fun b => (run b).run) var kind body := by
  simp only [runLoop, Exec.runLoop, run_bind, run_silent, run_attempt, run_runKind, run_iterate]

/-! ## Dispatch -/

def runRemote (owner : String) (body : Sequence) (target : AgentRef) : Recorded RemoteResult := do
  if (← interrupted) || (← machine).world.isDead target then return .failed
  let caller := (← scope).agent
  withAgent target do
    match ← attempt (withFrame owner caller (run body)) with
    | .ok v => return ⟨v, true⟩
    | .error e =>
      if (← scope).inTry then fail e
      silent (report .error e.message) (idle_lawful.safe_report _ _)
      return .failed

theorem run_runRemote (owner : String) (body : Sequence) (target : AgentRef) :
    (runRemote run owner body target).run =
      Exec.runRemote (fun b => (run b).run) owner body target := by
  simp only [runRemote, Exec.runRemote, run_bind, run_silent, run_ite, run_pure, run_withAgent,
    run_attempt, run_withFrame]
  refine bind_congr fun i => bind_congr fun m => ite_congr rfl (fun _ => rfl) fun _ => ?_
  refine bind_congr fun s => congrArg (Exec.withAgent target) (bind_congr fun r => ?_)
  cases r with
  | ok v => rfl
  | error e => simp only [run_bind, run_silent, run_ite, run_pure]

def runEach (remote : AgentRef → Recorded RemoteResult) (stop : Bool) :
    List AgentRef → Recorded (List RemoteResult)
  | [] => return []
  | a :: rest => do
    if ← interrupted then return []
    let r ← remote a
    let f ← takeFlow .leave
    if f = .leave || (stop && !r.passed) then return [r]
    let rs ← withHeld [r.value] (runEach remote stop rest)
    return r :: rs

theorem run_runEach (remote : AgentRef → Recorded RemoteResult) (stop : Bool)
    (targets : List AgentRef) :
    (runEach remote stop targets).run =
      Exec.runEach (fun a => (remote a).run) stop targets := by
  induction targets with
  | nil => rfl
  | cons a rest ih =>
    simp only [runEach, Exec.runEach, run_bind, run_ite, run_pure, run_silent, run_withHeld, ih]

def fanOut (owner : String) (body : Sequence) (targets : List AgentRef) (hint : Value)
    (stop : Bool) : Recorded (List RemoteResult) := do
  if body.isEmpty || targets.isEmpty then return []
  let remote := runRemote run owner body
  withHeld (hint :: targets.map .agent) do
    if runsInParallel (parallelThreshold hint (← machine).config) targets.length then
      -- the marks of the bodies stay with the copies of the scope
      let rs ← silent (runForked (fun a => (remote a).run) targets) (idle_runForked _ _)
      lift (firstError rs)
    else runEach remote stop targets

theorem run_fanOut (owner : String) (body : Sequence) (targets : List AgentRef) (hint : Value)
    (stop : Bool) :
    (fanOut run owner body targets hint stop).run =
      Exec.fanOut (fun b => (run b).run) owner body targets hint stop := by
  simp only [fanOut, Exec.fanOut, run_bind, run_ite, run_pure, run_silent, run_withHeld,
    run_runEach, run_runRemote]

def runAsk (target : Expr) (parallel : Option Expr) (body : Sequence) : Recorded Value := do
  let v ← eval target
  let s ← silent get idle_lawful.safe_get
  let toAll (targets : List AgentRef) : Recorded Value := do
    let hint ← evalOrNil parallel
    let _ ← withHeld [v] (fanOut run "ask" body targets hint false)
    return .nil
  match v with
  | .agent a => return (← runRemote run "ask" body a).value
  | .species name => toAll (s.machine.world.reachable (holds s) s.scope.agent name)
  | .nil => fail (.nilAgent "ask")
  | v =>
    if v.isContainer then toAll (s.machine.store.agents v)
    else fail (.notAnAgent "ask" (← text v))

theorem run_runAsk (target : Expr) (parallel : Option Expr) (body : Sequence) :
    (runAsk run target parallel body).run =
      Exec.runAsk (fun b => (run b).run) target parallel body := by
  simp only [runAsk, Exec.runAsk, run_bind, run_silent]
  refine bind_congr fun v => bind_congr fun s => ?_
  cases v <;>
    simp only [run_bind, run_silent, run_pure, run_ite, run_withHeld, run_fanOut, run_runRemote]

def runCreate (f : CreateFacets) (body : Sequence) : Recorded Value := do
  let (host, as) ← silent (createAgents f) (idle_mobile.safe_createAgents f)
  if host.isSome then
    withHeld ((host.map Value.agent).toList) do
      let hint ← evalOrNil f.parallel
      let _ ← fanOut run "create" body as hint false
  let created ← silent (agentList as) (idle_lawful.safe_agentList as)
  store f.returns created
  return created

theorem run_runCreate (f : CreateFacets) (body : Sequence) :
    (runCreate run f body).run = Exec.runCreate (fun b => (run b).run) f body := by
  simp only [runCreate, Exec.runCreate, run_bind, run_silent, run_ite, run_pure, run_withHeld,
    run_fanOut]

/-! ## Moves -/

def relocate (r : Relocation) (hr : ∀ a, idle.Safe (r.destination a)) (returns : Option String)
    (body : Sequence) : Recorded Value :=
  withHeld r.holdings do
    let (moved, rejected) ←
      silent (moveAll r.destination r.candidates) (idle_moveAll hr r.candidates)
    silent (reportRejected r.verb rejected r.reason) (idle_lawful.safe_reportRejected _ _ _)
    let _ ← fanOut run r.verb body moved .nil true
    let result ← silent (agentList moved) (idle_lawful.safe_agentList moved)
    store returns result
    return result

theorem run_relocate (r : Relocation) (hr : ∀ a, idle.Safe (r.destination a))
    (returns : Option String) (body : Sequence) :
    (relocate run r hr returns body).run =
      Exec.relocate (fun b => (run b).run) r returns body := by
  simp only [relocate, Exec.relocate, run_bind, run_silent, run_pure, run_withHeld, run_fanOut]

/-- A statement that works out a relocation and then carries it out. -/
def relocation (st : Statement) {plan : Exec Relocation} (hst : st.plan? = some plan)
    (returns : Option String) (body : Sequence) : Recorded Value :=
  silentThen plan (idle_lawful.safe_plan hst)
    (fun _ _ _ hr a => idle_mobile.safe_destination hst hr a)
    fun r hr => relocate run r hr returns body

theorem run_relocation (st : Statement) {plan : Exec Relocation}
    (hst : st.plan? = some plan) (returns : Option String) (body : Sequence) :
    (relocation run st hst returns body).run =
      plan >>= fun r => Exec.relocate (fun b => (run b).run) r returns body :=
  run_silentThen _ _ _ fun r hr => run_relocate run r hr returns body

/-! ## Actions -/

variable (natives : Native → BoundArguments → Recorded Value)

/-- What native actions do, without marks. -/
def handlers : Handlers := fun native args => (natives native args).run

def invokeWith (action : Action) (args : BoundArguments) (caller : Option AgentRef) :
    Recorded Value :=
  withHeld (args.map (·.2)) <| withFrame ("action " ++ action.name) caller do
    silent (modifyScope (·.declareAll args)) (idle_lawful.safe_declareAll args)
    let r ← attempt (match action.body with
      | .statements body => run body
      | .native handler => asForeign (natives handler args))
    let _ ← takeFlow .yield
    lift r

theorem run_invokeWith (action : Action) (args : BoundArguments) (caller : Option AgentRef) :
    (invokeWith run natives action args caller).run =
      Exec.invokeWith (handlers natives) (fun b => (run b).run) action args caller := by
  simp only [invokeWith, Exec.invokeWith, run_withHeld, run_withFrame, run_bind, run_silent,
    run_attempt]
  cases action.body <;> rfl

def runCall (c : ActionCall) : Recorded Value := do
  let (agent, caller) ← silent (callee c.target) (idle_lawful.safe_callee c.target)
  let w := (← machine).world
  if w.isDead agent then return .nil
  let species := c.species.getD (w.speciesOf agent)
  match w.findAction? species c.action with
  | none => fail (.unknownAction c.action species)
  | some action =>
    let args ← silent (Arguments.bind c.args action.formals) (idle_lawful.safe_bind _ _)
    let v ← withAgent agent (invokeWith run natives action args caller)
    store c.returns v
    return v

theorem run_runCall (c : ActionCall) :
    (runCall run natives c).run =
      Exec.runCall (handlers natives) (fun b => (run b).run) c := by
  simp only [runCall, Exec.runCall, run_bind, run_silent, run_ite, run_pure]
  refine bind_congr fun a => bind_congr fun m => ite_congr rfl (fun _ => rfl) fun _ => ?_
  cases m.world.findAction? (c.species.getD (m.world.speciesOf a.1)) c.action with
  | none => rfl
  | some action => simp only [run_bind, run_silent, run_pure, run_withAgent, run_invokeWith]

/-! ## Statements -/

def runAttempt (body : Sequence) (rescue : Option Sequence) : Recorded Value := do
  mark .tried
  match ← attempt (withTry (withFrame "try" none (run body))) with
  | .ok v => return v
  | .error e =>
    silent (modifyScope fun s => { s with currentError := some e }) fun _ _ => At.ok rfl rfl
    match rescue with
    | some rescue =>
      withFrame "catch" none do
        silent (declare "error" (.str e.message)) (idle_lawful.safe_declare _ _)
        run rescue
    | none => return (← scope).lastValue

theorem run_runAttempt (body : Sequence) (rescue : Option Sequence) :
    (runAttempt run body rescue).run =
      Exec.runAttempt (fun b => (run b).run) body rescue := by
  simp only [runAttempt, Exec.runAttempt, run_bind, run_attempt, run_withTry, run_withFrame]
  refine bind_congr fun _ => bind_congr fun r => ?_
  cases r with
  | ok v => rfl
  | error e => cases rescue <;> rfl

def statementWith (fuel : Nat) : Statement → Recorded Value
  | .declare name value => do
    let v ← evalOrNil value
    silent (declare name v) (idle_lawful.safe_declare name v)
    return v
  | .assign target name value => do
    let v ← eval value
    match target with
    | none => silent (assignName name v) (idle_mobile.safe_assignName name v)
    | some e => do
      let t ← eval e
      silent (assignTo t name v) (idle_mobile.safe_assignTo t name v)
    return v
  | .branch condition yes no => do
    let holds := (← eval condition).truthy
    match if holds then some yes else no with
    | some body => withFrame "if" none (run body)
    | none => return .nil
  | .block body => withFrame "block" none (run body)
  | .loop var kind body => runLoop run fuel var kind body
  | .ask target parallel body => runAsk run target parallel body
  | .create f body => runCreate run f body
  | .capture target species returns body =>
    relocation run (.capture target species returns body) rfl returns body
  | .release target species host returns body =>
    relocation run (.release target species host returns body) rfl returns body
  | .migrate source target returns body =>
    relocation run (.migrate source target returns body) rfl returns body
  | .call c => runCall run natives c
  | .edit kind f _ => silent (runEdit kind f) (idle_lawful.safe_runEdit kind f)
  | .attempt body rescue => runAttempt run body rescue
  | .leave => do
    setFlow .leave
    return .nil
  | .skip => do
    setFlow .skip
    return .nil
  | .yield value => do
    let v ← evalOrNil value
    setFlow .yield
    return v
  | .die => do
    let a ← currentAgent "die"
    silent (modifyMachine fun m => { m with world := m.world.kill a })
      (idle_open.living.safe_kill a)
    setFlow .die
    return .nil
  | .write message => do
    let v ← eval message
    let t ← text v
    let agent := (← scope).agent.map (·.name)
    silent (modifyMachine (·.emit (.write agent t))) (idle_lawful.safe_modifyMachine fun _ => rfl)
    return v
  | .warn message => do
    let v ← eval message
    let t ← text v
    silent (warn t) (idle_lawful.safe_warn t)
    return v
  | .raise message => do fail (.raised (← text (← eval message)))

theorem run_statementWith (fuel : Nat) (st : Statement) :
    (statementWith run natives fuel st).run =
      Exec.statementWith (handlers natives) fuel (fun b => (run b).run) st := by
  cases st with
  | declare name value => rfl
  | assign target name value =>
    simp only [statementWith, Exec.statementWith, run_bind, run_silent]
    cases target <;> rfl
  | branch condition yes no =>
    simp only [statementWith, Exec.statementWith, run_bind, run_silent]
    refine bind_congr fun v => ?_
    cases (if v.truthy then some yes else no) <;> rfl
  | loop var kind body => exact run_runLoop run fuel var kind body
  | ask target parallel body => exact run_runAsk run target parallel body
  | create f body => exact run_runCreate run f body
  | capture target species returns body =>
    exact run_relocation run (.capture target species returns body) rfl returns body
  | release target species host returns body =>
    exact run_relocation run (.release target species host returns body) rfl returns body
  | migrate source target returns body =>
    exact run_relocation run (.migrate source target returns body) rfl returns body
  | call c => exact run_runCall run natives c
  | attempt body rescue => exact run_runAttempt run body rescue
  | _ => rfl

def steps (step : Statement → Recorded Value) : Sequence → Value → Recorded Value
  | [], last => return last
  | s :: rest, last => do
    if ← interrupted then return last
    silent (traceStatement s) (idle_lawful.safe_traceStatement s)
    let v ← withHeld [last] (step s)
    mark (.done v)
    steps step rest v

theorem traceStatement_eq_ok (st : Statement) (s : State) :
    traceStatement st s = .ok () (after (traceStatement st) s) := by
  unfold traceStatement
  rw [machine_bind_apply, after, machine_bind_apply]
  split <;> rfl

section
variable {step : Statement → Recorded Value} {st : Statement} {rest : Sequence} {last : Value}
  {s : State} (hs : Exec.interrupted s = .ok false s)
include hs

/-- A statement that completes leaves what it leaves itself, and then the mark of its value. -/
theorem marks_steps_of_value {v : Value}
    (h : value? (withHeld [last] (step st)).run (after (traceStatement st) s) = some v) :
    (steps step (st :: rest) last).marks s =
      (withHeld [last] (step st)).marks (after (traceStatement st) s) ++
        .done v :: (steps step rest v).marks (after (recordValue v)
          (after (withHeld [last] (step st)).run (after (traceStatement st) s))) := by
  obtain ⟨t, ht⟩ := eq_ok_of_value? h
  have htrace := traceStatement_eq_ok st s
  rw [steps, marks_bind_ok hs]
  refine (marks_bind_ok (x := silent (traceStatement st) _) htrace).trans ?_
  rw [marks_bind_ok ht, marks_bind_ok (x := mark (.done v)) (t := after (recordValue v) t) rfl,
    after_ok ht]
  rfl

/-- A statement that fails leaves only what it leaves itself. -/
theorem marks_steps_of_error {e : ExecError}
    (h : error? (withHeld [last] (step st)).run (after (traceStatement st) s) = some e) :
    (steps step (st :: rest) last).marks s =
      (withHeld [last] (step st)).marks (after (traceStatement st) s) := by
  obtain ⟨t, ht⟩ := eq_error_of_error? h
  have htrace := traceStatement_eq_ok st s
  rw [steps, marks_bind_ok hs]
  refine (marks_bind_ok (x := silent (traceStatement st) _) htrace).trans ?_
  rw [marks_bind_error ht]
  rfl

end

theorem run_steps (step : Statement → Recorded Value) (body : Sequence) (last : Value) :
    (steps step body last).run = Exec.steps (fun st => (step st).run) body last := by
  induction body generalizing last with
  | nil => rfl
  | cons s rest ih =>
    simp only [steps, Exec.steps, run_bind, run_ite, run_pure, run_silent, run_withHeld, ih]
    rfl

end

/-- A sequence with its marks. -/
def sequenceWith (natives : Native → BoundArguments → Recorded Value) :
    Nat → Sequence → Recorded Value
  | 0, _ => outOfFuel
  | n + 1, body => steps (statementWith (sequenceWith natives n) natives n) body .nil

theorem run_sequenceWith (natives : Native → BoundArguments → Recorded Value) (n : Nat)
    (body : Sequence) :
    (sequenceWith natives n body).run = Exec.sequenceWith (handlers natives) n body := by
  induction n generalizing body with
  | zero => rfl
  | succ n ih =>
    simp only [sequenceWith, Exec.sequenceWith, run_steps, run_statementWith, ih]

end Recorded
end Habitat
