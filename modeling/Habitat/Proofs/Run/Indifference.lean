import Habitat.Proofs.Run.Holding
import Habitat.Proofs.Run.Turns

/-!
# Nothing that runs can tell

Whether the agents that execute are held once more makes no difference to anything that runs: one
lemma for each step and construct, and by induction on the fuel one for every sequence.

* `Exec.indifferent_runEdit`, `indifferent_createAgents`, `indifferent_moveAll`: what runs no
  sequence.
* `Exec.indifferent_statementWith`, `indifferent_sequenceWith`: statements and sequences, given what
  native actions do.
* `Exec.indifferent_sequence`: sequences as they run.
-/
namespace Habitat.Exec

/-! ## Arguments -/

theorem indifferent_evaluate (args : Arguments) : Indifferent args.evaluate := by
  induction args with
  | nil => exact indifferent_pure []
  | cons a rest ih =>
    exact (indifferent_eval a.2).bind fun v => ih.bind fun vs => indifferent_pure ((a.1, v) :: vs)

theorem indifferent_castArgument (type : BaseType) (v : Value) :
    Indifferent (Arguments.castArgument type v) := by
  unfold Arguments.castArgument
  refine .ite (fun _ => indifferent_pure v) fun _ => .get_bind (fun _ _ _ => rfl) fun s => ?_
  cases Store.cast s.machine.world.speciesOf s.machine.store type v with
  | none => exact indifferent_pure v
  | some r => exact (indifferent_modifyStore _).bind fun _ => indifferent_pure r.1

theorem indifferent_bindFormals (args : Arguments) (formals : List Formal) :
    Indifferent (Arguments.bindFormals args formals) := by
  induction formals with
  | nil => exact indifferent_pure []
  | cons f rest ih =>
    refine (indifferent_evalOrNil _).bind fun v => (indifferent_castArgument _ v).bind fun w => ?_
    exact ih.bind fun vs => indifferent_pure ((f.name, w) :: vs)

theorem indifferent_bind (args : Arguments) (formals : List Formal) :
    Indifferent (args.bind formals) :=
  (indifferent_bindFormals args formals).bind fun bound =>
    (indifferent_evaluate _).bind fun others => indifferent_pure (bound ++ others)

/-! ## Containers -/

theorem indifferent_coerce (what : String) (target : BaseType) (v : Value) :
    Indifferent (coerce what target v) := by
  unfold coerce
  refine .ite (fun _ => indifferent_pure v) fun _ => .get_bind (fun _ _ _ => rfl) fun s => ?_
  extract_lets text
  cases Store.cast s.machine.world.speciesOf s.machine.store target v with
  | none => exact (indifferent_warn _).bind fun _ => indifferent_pure v
  | some r =>
    refine (indifferent_modifyStore _).bind fun _ => .ite (fun _ => indifferent_pure r.1) fun _ => ?_
    exact (indifferent_warn _).bind fun _ => indifferent_pure r.1

theorem indifferent_castIndex (all : Bool) (container index : Value) :
    Indifferent (castIndex all container index) := by
  unfold castIndex
  split
  · exact indifferent_pure _
  · exact indifferent_pure _
  · exact indifferent_pure _
  · exact .ite (fun _ => indifferent_pure _) fun _ => indifferent_coerce _ _ _
  · exact .machine_bind (fun _ _ => rfl) fun _ => indifferent_coerce _ _ _

theorem indifferent_castItem (container item : Value) : Indifferent (castItem container item) := by
  unfold castItem
  split
  · exact indifferent_pure item
  · exact .machine_bind (fun _ _ => rfl) fun _ => indifferent_coerce _ _ item

theorem indifferent_castItems (container : Value) (items : List Value) :
    Indifferent (castItems container items) := by
  induction items with
  | nil => exact indifferent_pure []
  | cons v rest ih =>
    exact (indifferent_castItem container v).bind fun w => ih.bind fun ws =>
      indifferent_pure (w :: ws)

theorem indifferent_payload (kind : EditKind) (all : Bool) (container : Value)
    (item : Option Value) : Indifferent (payload kind all container item) := by
  cases item with
  | none => exact indifferent_pure _
  | some v =>
    refine .ite (fun _ => .machine_bind (fun _ _ => rfl) fun m => ?_) fun _ => ?_
    · exact (indifferent_castItems container _).bind fun vs => indifferent_pure _
    · exact (indifferent_castItem container v).bind fun w => indifferent_pure _

theorem indifferent_change (container : Value) (request : Edit) :
    Indifferent (change container request) := by
  refine (indifferent_onStore _).bind fun r => ?_
  cases r with
  | ok _ => exact indifferent_pure ()
  | error e => exact indifferent_fail _

theorem indifferent_applyAdd (container : Value) (item : Payload) (index : Option Value) :
    Indifferent (applyAdd container item index) := by
  unfold applyAdd
  split
  · exact indifferent_change _ _
  · exact indifferent_change _ _
  · exact indifferent_change _ _
  · exact indifferent_pure ()

theorem indifferent_applyRemove (all : Bool) (container : Value) (item : Payload)
    (index : Option Value) : Indifferent (applyRemove all container item index) := by
  unfold applyRemove
  cases index with
  | some i =>
    refine .ite (fun _ => .machine_bind (fun _ _ => rfl) fun m => ?_) fun _ => ?_
    · exact indifferent_change _ _
    · exact indifferent_change _ _
  | none =>
    cases item with
    | many vs => exact indifferent_change _ _
    | one v => exact indifferent_change _ _
    | missing => exact .ite (fun _ => indifferent_change _ _) fun _ => indifferent_pure ()

theorem indifferent_replaceRange (r : Nat) (start stop : Int64) (v : Value) :
    Indifferent (replaceRange r start stop v) := by
  refine .machine_bind (fun _ _ => rfl) fun m => ?_
  dsimp only
  split
  · exact indifferent_modifyStore _
  · exact indifferent_fail _

theorem indifferent_applyPut (all : Bool) (container : Value) (item : Payload)
    (index : Option Value) : Indifferent (applyPut all container item index) := by
  unfold applyPut
  extract_lets i put
  have hput : ∀ v, Indifferent (put v) := by
    intro v
    refine .ite (fun _ => indifferent_change _ _) fun _ => ?_
    split
    · exact indifferent_replaceRange _ _ _ v
    · exact indifferent_change _ _
  cases item with
  | one v => exact (indifferent_pure v).bind hput
  | many vs => exact (indifferent_allocate _).bind hput
  | missing => exact (indifferent_pure _).bind hput

theorem indifferent_addToGraph (kind : EditKind) (f : EditFacets) (container : Value)
    (item : Option Value) : Indifferent (addToGraph kind f container item) := by
  unfold addToGraph
  split
  · refine .machine_bind (fun _ _ => rfl) fun m => ?_
    exact (indifferent_modifyStore _).bind fun _ => indifferent_pure true
  · refine (indifferent_evalOrNil _).bind fun w => ?_
    exact (indifferent_change _ _).bind fun _ => indifferent_pure true
  · exact indifferent_pure false

theorem indifferent_runEdit (kind : EditKind) (f : EditFacets) : Indifferent (runEdit kind f) := by
  unfold runEdit
  refine (indifferent_eval _).bind fun container => ?_
  extract_lets done edit start
  have hedit : ∀ index, Indifferent (edit index) := by
    intro index
    refine (indifferent_evalOption _).bind fun item => ?_
    refine (indifferent_addToGraph kind f container item).bind fun added => ?_
    refine .ite (fun _ => indifferent_pure container) fun _ => ?_
    refine (indifferent_payload kind f.all container item).bind fun item => ?_
    cases kind with
    | add =>
      exact (indifferent_applyAdd container item index).bind fun _ => indifferent_pure container
    | remove =>
      refine (indifferent_applyRemove f.all container item index).bind fun _ => ?_
      exact indifferent_pure container
    | put =>
      refine (indifferent_applyPut f.all container item index).bind fun _ => ?_
      exact indifferent_pure container
  have hstart : Indifferent (start ()) := by
    dsimp only [start]
    cases f.index with
    | none => exact (indifferent_pure none).bind hedit
    | some e =>
      refine (indifferent_eval e).bind fun i => ?_
      refine (indifferent_castIndex f.all container i).bind fun j => ?_
      exact (indifferent_pure (some j)).bind hedit
  refine .ite (fun _ => .bind ?_ fun _ => hstart) fun _ => hstart
  exact indifferent_fail _

/-! ## Targets and births -/

theorem indifferent_speciesName (species : Option Expr) (executor : AgentRef) :
    Indifferent (speciesName species executor) := by
  unfold speciesName
  cases species with
  | none => exact .machine_bind (fun _ _ => rfl) fun m => indifferent_pure _
  | some e =>
    refine (indifferent_eval e).bind fun v => ?_
    split
    · exact indifferent_pure _
    · exact indifferent_pure _
    · exact .machine_bind (fun _ _ => rfl) fun m => indifferent_pure _
    · exact (indifferent_text _).bind fun t => indifferent_fail _

theorem indifferent_birthplace (executor : AgentRef) (species : String) :
    Indifferent (birthplace executor species) := by
  unfold birthplace
  refine .get_bind (fun s held hh => ?_) fun s => ?_
  · rw [holds_rehold hh]
    rfl
  · extract_lets w find
    have hfind : Indifferent (find ()) := by
      dsimp only [find]
      cases w.populationFor? (holds s) executor species with
      | none => exact indifferent_fail _
      | some p => exact .ite (fun _ => indifferent_fail _) fun _ => indifferent_pure p
    exact .ite (fun _ => .bind (indifferent_fail _) fun _ => hfind) fun _ => hfind

theorem indifferent_recordsFrom (source : Expr) (limit : Option Nat) :
    Indifferent (recordsFrom source limit) := by
  refine (indifferent_eval source).bind fun v => .machine_bind (fun _ _ => rfl) fun m => ?_
  cases m.delegateList.find? (·.accepts m.store v) with
  | none => exact (indifferent_text v).bind fun t => indifferent_fail _
  | some d =>
    dsimp only
    cases d.create m.store limit v with
    | ok records => exact indifferent_pure records
    | error message => exact indifferent_fail _

theorem indifferent_initialise (init : Arguments) (records : List Record) :
    Indifferent (initialise init records) := by
  induction records with
  | nil => exact indifferent_pure []
  | cons r rest ih =>
    refine .bind (.withFrame ?_ "create" none) fun values =>
      ih.bind fun rs => indifferent_pure (r.extend values :: rs)
    exact (indifferent_declareAll r.fields).bind fun _ => indifferent_evaluate init

theorem indifferent_bear (p : Population) (inits : List Record) : Indifferent (bear p inits) :=
  fun _ => ⟨rfl, rfl, fun _ _ => rfl⟩

theorem indifferent_createAgents (f : CreateFacets) : Indifferent (createAgents f) := by
  unfold createAgents
  extract_lets create
  have hcreate : ∀ count, Indifferent (create count) := by
    intro count
    refine .ite (fun _ => indifferent_pure _) fun _ => ?_
    refine (indifferent_currentAgent "create").bind fun executor => ?_
    refine (indifferent_speciesName f.species executor).bind fun name => ?_
    refine (indifferent_birthplace executor name).bind fun p => ?_
    extract_lets limit born initial
    have hborn : ∀ records, Indifferent (born records) := fun records =>
      (indifferent_bear p records).bind fun as => indifferent_pure _
    have hinitial : ∀ records, Indifferent (initial records) := fun records =>
      .ite (fun _ => (indifferent_pure records).bind hborn) fun _ =>
        (indifferent_initialise f.init records).bind hborn
    cases f.source with
    | none => exact (indifferent_pure _).bind hinitial
    | some source => exact (indifferent_recordsFrom source limit).bind hinitial
  cases f.number with
  | none => exact (indifferent_pure none).bind hcreate
  | some e => exact (indifferent_eval e).bind fun v => (indifferent_pure _).bind hcreate

theorem indifferent_requirePopulation (host : AgentRef) (species : String) :
    Indifferent (requirePopulation host species) := by
  refine .machine_bind (fun _ _ => rfl) fun m => ?_
  cases m.world.population? host species with
  | some p => exact indifferent_pure p
  | none => exact indifferent_fail _

theorem indifferent_singleAgent (statement : String) (v : Value) :
    Indifferent (singleAgent statement v) := by
  unfold singleAgent
  split
  · exact indifferent_pure _
  · exact indifferent_fail _
  · exact (indifferent_text _).bind fun t => indifferent_fail _

theorem indifferent_callee (target : Option Expr) : Indifferent (callee target) := by
  cases target with
  | some e =>
    refine (indifferent_eval e).bind fun v => (indifferent_singleAgent "do" v).bind fun a => ?_
    exact indifferent_scope.bind fun s => indifferent_pure (a, s.agent)
  | none =>
    refine (indifferent_currentAgent "do").bind fun a => ?_
    exact indifferent_scope.bind fun s => indifferent_pure (a, s.myself)

/-! ## Moves -/

theorem indifferent_moveAgent (a : AgentRef) (p : Population) : Indifferent (moveAgent a p) := by
  refine .get_bind (fun s held hh => ?_) fun s => ?_
  · rw [holds_rehold hh]
    rfl
  · refine .ite (fun _ => indifferent_pure _) fun _ => ?_
    exact (indifferent_modifyMachine fun _ _ => rfl).bind fun _ => indifferent_pure _

theorem indifferent_moveAll {destination : AgentRef → Exec (Option Population)}
    (hd : ∀ a, Indifferent (destination a)) (as : List AgentRef) :
    Indifferent (moveAll destination as) := by
  induction as with
  | nil => exact indifferent_pure _
  | cons a rest ih =>
    unfold moveAll
    extract_lets go
    have hgo : ∀ moved, Indifferent (go moved) := fun moved =>
      ih.bind fun r => indifferent_pure _
    refine (hd a).bind fun o => ?_
    cases o with
    | none => exact (indifferent_pure false).bind hgo
    | some p => exact (indifferent_moveAgent a p).bind fun r => (indifferent_pure _).bind hgo

theorem indifferent_reportRejected (verb : String) (rejected : List AgentRef) (reason : String) :
    Indifferent (reportRejected verb rejected reason) :=
  .ite (fun _ => indifferent_pure ()) fun _ =>
    indifferent_scope.bind fun _ => indifferent_report _ _

theorem indifferent_captureInto (macroAgent : AgentRef) (fixed : Option Population)
    (a : AgentRef) : Indifferent (captureInto macroAgent fixed a) := by
  refine .get_bind (fun s held hh => ?_) fun s => ?_
  · rw [holds_rehold hh]
    rfl
  · exact (indifferent_modifyMachine fun _ _ => rfl).bind fun _ => indifferent_pure _

theorem indifferent_releaseTo (executor : AgentRef) (host : Option AgentRef)
    (species : Option String) (a : AgentRef) : Indifferent (releaseTo executor host species a) := by
  refine .get_bind (fun s held hh => ?_) fun s => ?_
  · rw [holds_rehold hh]
    rfl
  · cases host with
    | none => exact indifferent_pure _
    | some h => exact (indifferent_modifyMachine fun _ _ => rfl).bind fun _ => indifferent_pure _

/-- Statements that move agents work out alike whom they move. -/
theorem indifferent_plan {st : Statement} {plan : Exec Relocation} (hst : st.plan? = some plan) :
    Indifferent plan := by
  cases st with
  | capture target species returns body =>
    cases hst
    refine (indifferent_currentAgent "capture").bind fun m => (indifferent_eval target).bind fun v => ?_
    refine .machine_bind (fun _ _ => rfl) fun machine => ?_
    cases species with
    | none => exact (indifferent_pure none).bind fun fixed => indifferent_pure _
    | some name =>
      refine (indifferent_requirePopulation m name).bind fun p => ?_
      exact (indifferent_pure (some p)).bind fun fixed => indifferent_pure _
  | release target species host returns body =>
    cases hst
    refine (indifferent_currentAgent "release").bind fun x => (indifferent_eval target).bind fun v => ?_
    extract_lets plan
    have hplan : ∀ host, Indifferent (plan host) := fun host =>
      .get_bind (fun _ _ hh => by dsimp only; rw [holds_rehold hh]; rfl) fun s => indifferent_pure _
    cases host with
    | none => exact (indifferent_pure none).bind hplan
    | some e =>
      refine (indifferent_eval e).bind fun v => (indifferent_singleAgent "release" v).bind fun h => ?_
      exact (indifferent_pure (some h)).bind hplan
  | migrate source target returns body =>
    cases hst
    refine (indifferent_currentAgent "migrate").bind fun x => ?_
    refine (indifferent_requirePopulation x source).bind fun _ => ?_
    refine (indifferent_requirePopulation x target).bind fun p => ?_
    exact .machine_bind (fun _ _ => rfl) fun m => indifferent_pure _
  | _ => cases hst

/-- Where an agent goes is worked out alike, whatever the statement. -/
theorem indifferent_destination {st : Statement} {plan : Exec Relocation}
    (hst : st.plan? = some plan) {s t : State} {r : Relocation} (hr : plan s = .ok r t)
    (a : AgentRef) : Indifferent (r.destination a) := by
  cases st with
  | capture target species returns body =>
    cases hst
    obtain ⟨m, fixed, -, -, -, hdest, -⟩ := planCapture_eq_ok hr
    rw [hdest]
    exact indifferent_captureInto m fixed a
  | release target species host returns body =>
    cases hst
    obtain ⟨x, -, -, hdest, -, -⟩ := planRelease_eq_ok hr
    rw [hdest]
    exact indifferent_releaseTo x r.into species a
  | migrate source target returns body =>
    cases hst
    obtain ⟨x, p, -, -, -, hdest, -, -⟩ := planMigrate_eq_ok hr
    rw [hdest]
    exact indifferent_pure (some p)
  | _ => cases hst

/-! ## Loops -/

theorem indifferent_resolve {α : Type} (read : Value → Option α) (b : Bound α) :
    Indifferent (resolve read b) := by
  cases b with
  | constant a => exact indifferent_pure a
  | dynamic e =>
    refine (indifferent_eval e).bind fun v => ?_
    cases read v with
    | some a => exact indifferent_pure a
    | none => exact indifferent_fail _

theorem indifferent_resolveRange {α : Type} (read : Value → Option α) (r : Range (Bound α)) :
    Indifferent (resolveRange read r) := by
  refine (indifferent_resolve read r.start).bind fun start => ?_
  refine (indifferent_resolve read r.stop).bind fun stop => ?_
  cases r.step with
  | some b => exact (indifferent_resolve read b).bind fun step => indifferent_pure _
  | none => exact indifferent_pure _

theorem indifferent_number (v : Value) : Indifferent (number v) := by
  unfold number
  split
  · exact indifferent_pure _
  · exact (indifferent_text v).bind fun t => indifferent_fail _

section
variable {α : Type} {visit : α → Exec (Value × Bool)} (hvisit : ∀ x, Indifferent (visit x))
include hvisit

theorem indifferent_repeatTimes (x : α) (n : Nat) (last : Value) :
    Indifferent (repeatTimes (visit x) n last) := by
  induction n generalizing last with
  | zero => exact indifferent_pure last
  | succ n ih =>
    refine ((hvisit x).withHeld _).bind fun r => ?_
    exact .ite (fun _ => ih r.1) fun _ => indifferent_pure r.1

theorem indifferent_repeatWhile {condition : Exec Bool} (hc : Indifferent condition) (x : α)
    (n : Nat) (last : Value) : Indifferent (repeatWhile condition (visit x) n last) := by
  induction n generalizing last with
  | zero => exact indifferent_throw _
  | succ n ih =>
    refine hc.bind fun c => .ite (fun _ => ?_) fun _ => indifferent_pure last
    refine ((hvisit x).withHeld _).bind fun r => ?_
    exact .ite (fun _ => ih r.1) fun _ => indifferent_pure r.1

theorem indifferent_repeatFrom (inRange : α → Bool) (next : α → Option α) (n : Nat) (x : α)
    (last : Value) : Indifferent (repeatFrom inRange next visit n x last) := by
  induction n generalizing x last with
  | zero => exact indifferent_throw _
  | succ n ih =>
    refine .ite (fun _ => ?_) fun _ => indifferent_pure last
    refine ((hvisit x).withHeld _).bind fun r => ?_
    refine .ite (fun _ => ?_) fun _ => indifferent_pure r.1
    cases next x with
    | some y => exact ih y r.1
    | none => exact indifferent_pure r.1

end

section
variable {visit : Value → Exec (Value × Bool)} (hvisit : ∀ v, Indifferent (visit v))
include hvisit

theorem indifferent_repeatOver (vs : List Value) (last : Value) :
    Indifferent (repeatOver visit vs last) := by
  induction vs generalizing last with
  | nil => exact indifferent_pure last
  | cons v rest ih =>
    refine ((hvisit v).withHeld _).bind fun r => ?_
    exact .ite (fun _ => ih r.1) fun _ => indifferent_pure r.1

theorem indifferent_countInts (r : Range Int64) : Indifferent (countInts visit r) := by
  refine .ite (fun _ => indifferent_fail _) fun _ => ?_
  refine .ite (fun _ => (hvisit _).bind fun r => indifferent_pure r.1) fun _ => ?_
  refine .ite (fun _ => indifferent_pure _) fun _ => ?_
  exact indifferent_repeatFrom (fun x => hvisit (.int x)) _ _ _ r.start .nil

theorem indifferent_countFloats (fuel : Nat) (r : Range Float) :
    Indifferent (countFloats fuel visit r) := by
  refine .ite (fun _ => indifferent_fail _) fun _ => ?_
  refine .ite (fun _ => (hvisit _).bind fun r => indifferent_pure r.1) fun _ => ?_
  refine .ite (fun _ => indifferent_pure _) fun _ => ?_
  exact indifferent_repeatFrom (fun x => hvisit (.float x)) _ _ fuel r.start .nil

theorem indifferent_countAny (fuel : Nat) (r : Range Value) :
    Indifferent (countAny fuel visit r) := by
  unfold countAny
  cases intRange? r with
  | some r => exact indifferent_countInts hvisit r
  | none =>
    have hrest : ∀ step : Option Float, Indifferent (do
        let start ← number r.start
        let stop ← number r.stop
        countFloats fuel visit ⟨start, stop, step⟩) := fun step =>
      (indifferent_number r.start).bind fun start => (indifferent_number r.stop).bind fun stop =>
        indifferent_countFloats hvisit fuel ⟨start, stop, step⟩
    dsimp only
    cases r.step with
    | none => exact (indifferent_pure none).bind hrest
    | some v => exact (indifferent_number v).bind fun x => (indifferent_pure (some x)).bind hrest

theorem indifferent_runKind (fuel : Nat) (kind : LoopKind) :
    Indifferent (runKind fuel visit kind) := by
  cases kind with
  | times count =>
    exact (indifferent_resolve intBound? count).bind fun n =>
      indifferent_repeatTimes hvisit .nil _ .nil
  | loopWhile condition =>
    have hc : Indifferent (do return (← eval condition).truthy) :=
      (indifferent_eval condition).bind fun v => indifferent_pure v.truthy
    exact indifferent_repeatWhile hvisit hc .nil fuel .nil
  | each source =>
    refine (indifferent_eval source).bind fun v => .machine_bind (fun _ _ => rfl) fun m => ?_
    exact (indifferent_repeatOver hvisit _ .nil).withHeld _
  | intRange r =>
    exact (indifferent_resolveRange intBound? r).bind fun r => indifferent_countInts hvisit r
  | floatRange r =>
    exact (indifferent_resolveRange Value.asFloat r).bind fun r =>
      indifferent_countFloats hvisit fuel r
  | anyRange r =>
    refine (indifferent_eval r.start).bind fun start => (indifferent_eval r.stop).bind fun stop => ?_
    exact (indifferent_evalOption r.step).bind fun step =>
      indifferent_countAny hvisit fuel ⟨start, stop, step⟩

end

section
variable {run : Sequence → Exec Value} {body : Sequence} (hrun : Indifferent (run body))
include hrun

theorem indifferent_iterate (var : Option String) (v : Value) :
    Indifferent (iterate run var body v) := by
  refine .withFrame ((indifferent_store var v).bind fun _ => hrun.bind fun last => ?_) "loop" none
  refine (indifferent_takeFlow .skip).bind fun f => ?_
  exact .machine_bind (fun _ _ => rfl) fun m => indifferent_pure _

theorem indifferent_runLoop (fuel : Nat) (var : Option String) (kind : LoopKind) :
    Indifferent (runLoop fuel run var kind body) := by
  refine (indifferent_runKind (indifferent_iterate hrun var) fuel kind).attempt.bind fun r => ?_
  exact (indifferent_takeFlow .leave).bind fun _ => indifferent_lift r

/-! ## Dispatch -/

omit hrun in
theorem indifferent_contained {x : Exec Value} (hx : Indifferent x) : Indifferent (contained x) := by
  refine hx.attempt.bind fun r => ?_
  cases r with
  | ok v => exact indifferent_pure _
  | error e =>
    have hreport : Indifferent (do report .error e.message; return RemoteResult.failed) :=
      (indifferent_report _ _).bind fun _ => indifferent_pure _
    refine indifferent_scope.bind fun s => .ite (fun _ => ?_) fun _ => hreport
    exact (indifferent_fail e).bind fun _ => hreport

theorem indifferent_runRemote (owner : String) (a : AgentRef) :
    Indifferent (runRemote run owner body a) := by
  refine indifferent_interrupted.bind fun i => .machine_bind (fun _ _ => rfl) fun m => ?_
  refine .ite (fun _ => indifferent_pure _) fun _ => indifferent_scope.bind fun s => ?_
  exact (indifferent_contained (hrun.withFrame owner s.agent)).withAgent a

omit hrun in
theorem indifferent_runEach {remote : AgentRef → Exec RemoteResult}
    (h : ∀ a, Indifferent (remote a)) (stop : Bool) (targets : List AgentRef) :
    Indifferent (runEach remote stop targets) := by
  induction targets with
  | nil => exact indifferent_pure []
  | cons a rest ih =>
    refine indifferent_interrupted.bind fun i => .ite (fun _ => indifferent_pure []) fun _ => ?_
    refine (h a).bind fun r => (indifferent_takeFlow .leave).bind fun f => ?_
    refine .ite (fun _ => indifferent_pure [r]) fun _ => ?_
    exact (ih.withHeld _).bind fun rs => indifferent_pure (r :: rs)

omit hrun in
theorem indifferent_runForked {remote : AgentRef → Exec RemoteResult}
    (h : ∀ a, Indifferent (remote a)) (targets : List AgentRef) :
    Indifferent (runForked remote targets) := by
  induction targets with
  | nil => exact indifferent_pure []
  | cons a rest ih =>
    refine indifferent_scope.bind fun s => ((h a).forked _).bind fun r => ?_
    exact (ih.withHeld _).bind fun rs => indifferent_pure (r :: rs)

theorem indifferent_fanOut (owner : String) (targets : List AgentRef) (hint : Value)
    (stop : Bool) : Indifferent (fanOut run owner body targets hint stop) := by
  have hremote := indifferent_runRemote hrun owner
  refine .ite (fun _ => indifferent_pure _) fun _ => .withHeld ?_ _
  refine .machine_bind (fun _ _ => rfl) fun m => .ite (fun _ => ?_) fun _ => ?_
  · exact (indifferent_runForked hremote targets).bind fun rs => indifferent_lift _
  · exact indifferent_runEach hremote stop targets

theorem indifferent_runAsk (target : Expr) (parallel : Option Expr) :
    Indifferent (runAsk run target parallel body) := by
  refine (indifferent_eval target).bind fun v => .get_bind (fun s held hh => ?_) fun s => ?_
  · rw [holds_rehold hh]
    rfl
  have hall : ∀ targets, Indifferent (do
      let hint ← evalOrNil parallel
      let _ ← withHeld [v] (fanOut run "ask" body targets hint false)
      return Value.nil) := fun targets =>
    (indifferent_evalOrNil parallel).bind fun hint =>
      ((indifferent_fanOut hrun "ask" targets hint false).withHeld _).bind fun _ =>
        indifferent_pure _
  dsimp only
  split
  · exact (indifferent_runRemote hrun "ask" _).bind fun r => indifferent_pure _
  · exact hall _
  · exact indifferent_fail _
  · refine .ite (fun _ => hall _) fun _ => ?_
    exact (indifferent_text _).bind fun t => indifferent_fail _

theorem indifferent_runCreate (f : CreateFacets) : Indifferent (runCreate run f body) := by
  refine (indifferent_createAgents f).bind fun r => ?_
  have hend : Indifferent (do
      let created ← agentList r.2
      store f.returns created
      return created) :=
    (indifferent_agentList r.2).bind fun created =>
      (indifferent_store f.returns created).bind fun _ => indifferent_pure created
  refine .ite (fun _ => .bind (.withHeld ?_ _) fun _ => hend) fun _ => hend
  refine (indifferent_evalOrNil f.parallel).bind fun hint => ?_
  exact (indifferent_fanOut hrun "create" r.2 hint false).bind fun _ => indifferent_pure _

theorem indifferent_relocate {r : Relocation} (hd : ∀ a, Indifferent (r.destination a))
    (returns : Option String) : Indifferent (relocate run r returns body) := by
  refine .withHeld ((indifferent_moveAll hd r.candidates).bind fun m => ?_) _
  refine (indifferent_reportRejected _ _ _).bind fun _ => ?_
  refine (indifferent_fanOut hrun r.verb m.1 .nil true).bind fun _ => ?_
  exact (indifferent_agentList m.1).bind fun result =>
    (indifferent_store returns result).bind fun _ => indifferent_pure result

/-- A statement that works out a relocation and then carries it out. Only a relocation that was worked
out is known to ask alike where an agent goes. -/
theorem indifferent_relocation (st : Statement) {plan : Exec Relocation}
    (hst : st.plan? = some plan) (returns : Option String) :
    Indifferent (plan >>= fun r => relocate run r returns body) :=
  (indifferent_plan hst).bind_of fun _ _ _ hr =>
    indifferent_relocate hrun (indifferent_destination hst hr) returns

end

/-! ## Actions -/

/-- Nothing that the program around a model does depends on what is held. -/
def Handlers.Indifferent (handlers : Handlers) : Prop :=
  ∀ native args, (handlers native args).Indifferent

theorem indifferent_runNative : Handlers.Indifferent runNative := by
  intro native args
  cases native with
  | echo => exact indifferent_allocate _
  | whoami => exact indifferent_scope.bind fun s => indifferent_pure _
  | finish =>
    exact (indifferent_setFlow .yield).bind fun _ => indifferent_scope.bind fun s =>
      indifferent_pure _
  | dispose => exact (indifferent_setFlow .dispose).bind fun _ => indifferent_pure _
  | cancel =>
    exact (indifferent_modifyMachine fun _ _ => rfl).bind fun _ => indifferent_pure _
  | fail message => exact indifferent_fail _
  | refuse => exact indifferent_fail _

section
variable {handlers : Handlers} (hh : handlers.Indifferent) {run : Sequence → Exec Value}
  (hrun : ∀ body, Indifferent (run body))
include hh hrun

theorem indifferent_invokeWith (action : Action) (args : BoundArguments)
    (caller : Option AgentRef) : Indifferent (invokeWith handlers run action args caller) := by
  refine .withHeld (.withFrame ((indifferent_declareAll args).bind fun _ => ?_) _ caller) _
  refine .bind (.attempt ?_) fun r => ?_
  · cases action.body with
    | statements body => exact hrun body
    | native handler => exact (hh handler args).asForeign
  · exact (indifferent_takeFlow .yield).bind fun _ => indifferent_lift r

theorem indifferent_runCall (c : ActionCall) : Indifferent (runCall handlers run c) := by
  refine (indifferent_callee c.target).bind fun r => .machine_bind (fun _ _ => rfl) fun m => ?_
  refine .ite (fun _ => indifferent_pure _) fun _ => ?_
  dsimp only
  split
  · exact indifferent_fail _
  · refine (indifferent_bind c.args _).bind fun args => ?_
    refine ((indifferent_invokeWith hh hrun _ args r.2).withAgent r.1).bind fun v => ?_
    exact (indifferent_store c.returns v).bind fun _ => indifferent_pure v

end

/-! ## Statements -/

theorem indifferent_assignName (name : String) (v : Value) : Indifferent (assignName name v) := by
  intro s
  cases h : s.scope.setVar name v with
  | some scope =>
    have hset (m : Machine) :
        assignName name v ⟨s.scope, m⟩ = modifyScope (fun _ => scope) ⟨s.scope, m⟩ := by
      unfold assignName
      rw [scope_bind_apply, h]
    have hscope : IndifferentAt (modifyScope fun _ => scope) s :=
      ⟨(Scope.setVar_eq h).2, rfl, fun _ _ => rfl⟩
    exact hscope.of_eq (hset s.machine) fun held => hset { s.machine with held := held }
  | none =>
    let assignAttribute : Exec Unit := do
      let a ← currentAgent "set"
      if ((← machine).world.attribute? a name).isSome then
        modifyMachine fun m => { m with world := m.world.setAttribute a name v }
      else fail (.unknownVariable name)
    have hset (m : Machine) : assignName name v ⟨s.scope, m⟩ = assignAttribute ⟨s.scope, m⟩ := by
      unfold assignName
      rw [scope_bind_apply, h]
    have hattribute : Indifferent assignAttribute := by
      refine (indifferent_currentAgent "set").bind fun a => .machine_bind (fun _ _ => rfl) fun m => ?_
      refine .ite (fun _ => ?_) fun _ => indifferent_fail _
      exact indifferent_modifyMachine fun _ _ => rfl
    exact (hattribute s).of_eq (hset s.machine) fun held => hset { s.machine with held := held }

theorem indifferent_assignTo (target : Value) (name : String) (v : Value) :
    Indifferent (assignTo target name v) := by
  unfold assignTo
  split
  · exact indifferent_modifyMachine fun _ _ => rfl
  · exact indifferent_change _ _
  · exact indifferent_fail _
  · exact (indifferent_text _).bind fun t => indifferent_fail _

theorem indifferent_traceStatement (st : Statement) : Indifferent (traceStatement st) := by
  refine .machine_bind (fun _ _ => rfl) fun m => .ite (fun _ => ?_) fun _ => indifferent_pure ()
  exact indifferent_scope.bind fun s => indifferent_modifyMachine fun _ _ => rfl

theorem indifferent_steps {step : Statement → Exec Value} (h : ∀ st, Indifferent (step st))
    (body : Sequence) (last : Value) : Indifferent (steps step body last) := by
  induction body generalizing last with
  | nil => exact indifferent_pure last
  | cons st rest ih =>
    refine indifferent_interrupted.bind fun i => .ite (fun _ => indifferent_pure last) fun _ => ?_
    refine (indifferent_traceStatement st).bind fun _ => ((h st).withHeld _).bind fun v => ?_
    exact (indifferent_recordValue v).bind fun _ => ih v

section
variable {run : Sequence → Exec Value} (hrun : ∀ body, Indifferent (run body))
include hrun

theorem indifferent_runAttempt (body : Sequence) (rescue : Option Sequence) :
    Indifferent (runAttempt run body rescue) := by
  refine (indifferent_recordValue .nil).bind fun _ => ?_
  refine ((hrun body).withFrame "try" none).withTry.attempt.bind fun r => ?_
  cases r with
  | ok v => exact indifferent_pure v
  | error e =>
    have hcaught : Indifferent (modifyScope fun s => { s with currentError := some e }) :=
      indifferent_modifyScope fun _ => rfl
    refine hcaught.bind fun _ => ?_
    cases rescue with
    | none => exact indifferent_scope.bind fun s => indifferent_pure s.lastValue
    | some rescue =>
      exact .withFrame ((indifferent_declare _ _).bind fun _ => hrun rescue) "catch" none

/-- One layer of statements. -/
theorem indifferent_statementWith {handlers : Handlers} (hh : handlers.Indifferent) (fuel : Nat)
    (st : Statement) : Indifferent (statementWith handlers fuel run st) := by
  cases st with
  | declare name value =>
    exact (indifferent_evalOrNil value).bind fun v =>
      (indifferent_declare name v).bind fun _ => indifferent_pure v
  | assign target name value =>
    refine (indifferent_eval value).bind fun v => ?_
    cases target with
    | none => exact (indifferent_assignName name v).bind fun _ => indifferent_pure v
    | some e =>
      refine (indifferent_eval e).bind fun t => ?_
      exact (indifferent_assignTo t name v).bind fun _ => indifferent_pure v
  | branch condition yes no =>
    refine (indifferent_eval condition).bind fun v => ?_
    dsimp only
    split
    · exact (hrun _).withFrame "if" none
    · exact indifferent_pure _
  | block body => exact (hrun body).withFrame "block" none
  | loop var kind body => exact indifferent_runLoop (hrun body) fuel var kind
  | ask target parallel body => exact indifferent_runAsk (hrun body) target parallel
  | create f body => exact indifferent_runCreate (hrun body) f
  | capture target species returns body =>
    exact indifferent_relocation (hrun body) (.capture target species returns body) rfl returns
  | release target species host returns body =>
    exact indifferent_relocation (hrun body) (.release target species host returns body) rfl returns
  | migrate source target returns body =>
    exact indifferent_relocation (hrun body) (.migrate source target returns body) rfl returns
  | call c => exact indifferent_runCall hh hrun c
  | edit kind f warnings => exact indifferent_runEdit kind f
  | attempt body rescue => exact indifferent_runAttempt hrun body rescue
  | leave => exact (indifferent_setFlow .leave).bind fun _ => indifferent_pure _
  | skip => exact (indifferent_setFlow .skip).bind fun _ => indifferent_pure _
  | yield value =>
    refine (indifferent_evalOrNil value).bind fun v => ?_
    exact (indifferent_setFlow .yield).bind fun _ => indifferent_pure v
  | die =>
    refine (indifferent_currentAgent "die").bind fun a => ?_
    refine (indifferent_modifyMachine fun _ _ => rfl).bind fun _ => ?_
    exact (indifferent_setFlow .die).bind fun _ => indifferent_pure _
  | write message =>
    refine (indifferent_eval message).bind fun v => (indifferent_text v).bind fun t => ?_
    refine indifferent_scope.bind fun s => ?_
    exact (indifferent_modifyMachine fun _ _ => rfl).bind fun _ => indifferent_pure v
  | warn message =>
    refine (indifferent_eval message).bind fun v => (indifferent_text v).bind fun t => ?_
    exact (indifferent_warn t).bind fun _ => indifferent_pure v
  | raise message =>
    refine (indifferent_eval message).bind fun v => (indifferent_text v).bind fun t => ?_
    exact indifferent_fail _

end

theorem indifferent_sequenceWith {handlers : Handlers} (hh : handlers.Indifferent) (fuel : Nat)
    (body : Sequence) : Indifferent (sequenceWith handlers fuel body) := by
  induction fuel generalizing body with
  | zero => exact indifferent_throw _
  | succ n ih => exact indifferent_steps (indifferent_statementWith ih hh n) body .nil

theorem indifferent_sequence (fuel : Nat) (body : Sequence) : Indifferent (sequence fuel body) :=
  indifferent_sequenceWith indifferent_runNative fuel body

end Habitat.Exec
