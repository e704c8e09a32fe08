import Habitat.Proofs.Run.Relocation
import Habitat.Run.Statement

/-!
# Steps that run no sequence

Changes of containers, the search for targets and the moves of agents keep every discipline whose
laws allow for them: `Lawful` for what leaves the world alone, `Peopled` for births and attributes,
`Mobile` for moves too, and `Living` and `Open` where also deaths are allowed.

* `safe_runEdit`: the statements that change a container.
* `safe_createAgents`, `safe_assignName`, `safe_assignTo`: births and attributes.
* `safe_planCapture`, `safe_planRelease`, `safe_planMigrate`, `safe_moveAll`: relocations.
-/
namespace Habitat.Discipline

open Exec

/-- A lawful discipline that allows births and new values of attributes. -/
structure Peopled (D : Discipline) : Prop extends Lawful D where
  born : ∀ s m p inits, D.admits s → s.machine.world.Offers p →
    m.world = (s.machine.world.populate s.machine.store p inits).2.1 → D.keeps s ⟨s.scope, m⟩
  assigned : ∀ s m a name v, D.admits s → m.world = s.machine.world.setAttribute a name v →
    D.keeps s ⟨s.scope, m⟩

/-- A lawful discipline that allows births, deaths and new values of attributes. -/
structure Living (D : Discipline) : Prop extends Peopled D where
  died : ∀ s m a, D.admits s → m.world = s.machine.world.kill a → D.keeps s ⟨s.scope, m⟩

/-- A lawful discipline that allows every change of the world but deaths. -/
structure Mobile (D : Discipline) : Prop extends Peopled D where
  lost : ∀ s m held a, D.admits s → m.world = s.machine.world.forget held a →
    D.keeps s ⟨s.scope, m⟩
  moved : ∀ s m held a p, D.admits s → World.ById held → a.id < s.machine.world.agents.size →
    s.machine.world.Offers p →
    m.world = (s.machine.world.move held s.machine.store a p).1 → D.keeps s ⟨s.scope, m⟩

/-- A lawful discipline that allows every change of the world a statement makes. -/
structure Open (D : Discipline) : Prop extends Lawful D where
  world : ∀ s m, D.admits s → World.Follows s.machine.world m.world → D.keeps s ⟨s.scope, m⟩

variable {D : Discipline}

namespace Lawful

variable (L : Lawful D)

include L

/-! ## Containers -/

theorem safe_coerce (what : String) (target : BaseType) (v : Value) :
    D.Safe (coerce what target v) := by
  unfold coerce
  refine Rel.ite (fun _ => L.safe_pure v) fun _ => L.safe_get.bind L fun s => ?_
  extract_lets text
  cases Store.cast s.machine.world.speciesOf s.machine.store target v with
  | none => exact (L.safe_warn _).bind L fun _ => L.safe_pure v
  | some r =>
    refine (L.safe_modifyStore _).bind L fun _ => ?_
    exact Rel.ite (fun _ => L.safe_pure r.1) fun _ =>
      (L.safe_warn _).bind L fun _ => L.safe_pure r.1

theorem safe_castIndex (all : Bool) (container index : Value) :
    D.Safe (castIndex all container index) := by
  unfold castIndex
  split
  · exact L.safe_pure _
  · exact L.safe_pure _
  · exact L.safe_pure _
  · exact Rel.ite (fun _ => L.safe_pure _) fun _ => L.safe_coerce _ _ _
  · exact L.safe_machine.bind L fun m => L.safe_coerce _ _ _

theorem safe_castItem (container item : Value) : D.Safe (castItem container item) := by
  unfold castItem
  split
  · exact L.safe_pure item
  · exact L.safe_machine.bind L fun m => L.safe_coerce _ _ item

theorem safe_castItems (container : Value) (vs : List Value) :
    D.Safe (castItems container vs) := by
  induction vs with
  | nil => exact L.safe_pure []
  | cons v rest ih =>
    exact (L.safe_castItem container v).bind L fun w => ih.bind L fun ws => L.safe_pure (w :: ws)

theorem safe_payload (kind : EditKind) (all : Bool) (container : Value) (item : Option Value) :
    D.Safe (payload kind all container item) := by
  cases item with
  | none => exact L.safe_pure Payload.missing
  | some v =>
    refine Rel.ite (fun _ => L.safe_machine.bind L fun m => ?_) fun _ => ?_
    · exact (L.safe_castItems container _).bind L fun vs => L.safe_pure (Payload.many vs)
    · exact (L.safe_castItem container v).bind L fun w => L.safe_pure (Payload.one w)

theorem safe_change (container : Value) (request : Edit) : D.Safe (change container request) := by
  refine (L.safe_onStore _).bind L fun r => ?_
  cases r with
  | ok _ => exact L.safe_pure ()
  | error e => exact L.safe_fail fun _ => nofun

theorem safe_applyAdd (container : Value) (item : Payload) (index : Option Value) :
    D.Safe (applyAdd container item index) := by
  unfold applyAdd
  split
  · exact L.safe_change _ _
  · exact L.safe_change _ _
  · exact L.safe_change _ _
  · exact L.safe_pure ()

theorem safe_applyRemove (all : Bool) (container : Value) (item : Payload)
    (index : Option Value) : D.Safe (applyRemove all container item index) := by
  unfold applyRemove
  cases index with
  | some i =>
    exact Rel.ite (fun _ => L.safe_machine.bind L fun m => L.safe_change _ _) fun _ =>
      L.safe_change _ _
  | none =>
    cases item with
    | many vs => exact L.safe_change _ _
    | one v => exact L.safe_change _ _
    | missing => exact Rel.ite (fun _ => L.safe_change _ _) fun _ => L.safe_pure ()

theorem safe_replaceRange (r : Nat) (start stop : Int64) (v : Value) :
    D.Safe (replaceRange r start stop v) := by
  refine L.safe_machine.bind L fun m => ?_
  dsimp only
  split
  · exact L.safe_modifyStore _
  · exact L.safe_fail fun _ => nofun

theorem safe_applyPut (all : Bool) (container : Value) (item : Payload) (index : Option Value) :
    D.Safe (applyPut all container item index) := by
  unfold applyPut
  extract_lets i jp
  have hjp : ∀ v, D.Safe (jp v) := by
    intro v
    refine Rel.ite (fun _ => L.safe_change _ _) fun _ => ?_
    split
    · exact L.safe_replaceRange _ _ _ v
    · exact L.safe_change _ _
  cases item with
  | one v => exact (L.safe_pure v).bind L hjp
  | many vs => exact (L.safe_allocate _).bind L hjp
  | missing => exact (L.safe_pure _).bind L hjp

theorem safe_addToGraph (kind : EditKind) (f : EditFacets) (container : Value)
    (item : Option Value) : D.Safe (addToGraph kind f container item) := by
  unfold addToGraph
  split
  · refine L.safe_machine.bind L fun m => ?_
    exact (L.safe_modifyStore _).bind L fun _ => L.safe_pure true
  · refine (L.safe_evalOrNil _).bind L fun w => ?_
    exact (L.safe_change _ _).bind L fun _ => L.safe_pure true
  · exact L.safe_pure false

theorem safe_runEdit (kind : EditKind) (f : EditFacets) : D.Safe (runEdit kind f) := by
  unfold runEdit
  refine (L.safe_eval _).bind L fun container => ?_
  extract_lets done edit start
  have hedit : ∀ index, D.Safe (edit index) := by
    intro index
    refine (L.safe_evalOption _).bind L fun item => ?_
    refine (L.safe_addToGraph kind f container item).bind L fun added => ?_
    refine Rel.ite (fun _ => L.safe_pure container) fun _ => ?_
    refine (L.safe_payload kind f.all container item).bind L fun item => ?_
    cases kind with
    | add => exact (L.safe_applyAdd container item index).bind L fun _ => L.safe_pure container
    | remove =>
      exact (L.safe_applyRemove f.all container item index).bind L fun _ => L.safe_pure container
    | put =>
      exact (L.safe_applyPut f.all container item index).bind L fun _ => L.safe_pure container
  have hstart : D.Safe (start ()) := by
    dsimp only [start]
    cases f.index with
    | none => exact (L.safe_pure none).bind L hedit
    | some e =>
      refine (L.safe_eval e).bind L fun i => (L.safe_castIndex f.all container i).bind L fun j => ?_
      exact (L.safe_pure (some j)).bind L hedit
  refine Rel.ite (fun _ => Rel.bind L ?_ fun _ => hstart) fun _ => hstart
  exact L.safe_fail fun _ => nofun

/-! ## Targets -/

theorem safe_speciesName (species : Option Expr) (executor : AgentRef) :
    D.Safe (speciesName species executor) := by
  unfold speciesName
  cases species with
  | none => exact L.safe_machine.bind L fun m => L.safe_pure _
  | some e =>
    refine (L.safe_eval e).bind L fun v => ?_
    split
    · exact L.safe_pure _
    · exact L.safe_pure _
    · exact L.safe_machine.bind L fun m => L.safe_pure _
    · exact (L.safe_text _).bind L fun t => L.safe_fail fun _ => nofun

theorem safe_birthplace (executor : AgentRef) (species : String) :
    D.Safe (birthplace executor species) := by
  unfold birthplace
  refine L.safe_get.bind L fun s => ?_
  extract_lets w find
  have hfind : D.Safe (find ()) := by
    dsimp only [find]
    cases w.populationFor? (holds s) executor species with
    | none => exact L.safe_fail fun _ => nofun
    | some p => exact Rel.ite (fun _ => L.safe_fail fun _ => nofun) fun _ => L.safe_pure p
  refine Rel.ite (fun _ => Rel.bind L ?_ fun _ => hfind) fun _ => hfind
  exact L.safe_fail fun _ => nofun

theorem safe_recordsFrom (source : Expr) (limit : Option Nat) :
    D.Safe (recordsFrom source limit) := by
  refine (L.safe_eval source).bind L fun v => L.safe_machine.bind L fun m => ?_
  cases m.delegateList.find? (·.accepts m.store v) with
  | none => exact (L.safe_text v).bind L fun t => L.safe_fail fun _ => nofun
  | some d =>
    dsimp only
    cases d.create m.store limit v with
    | ok records => exact L.safe_pure records
    | error message => exact L.safe_fail fun _ => nofun

theorem safe_initialise (init : Arguments) (records : List Record) :
    D.Safe (initialise init records) := by
  induction records with
  | nil => exact L.safe_pure []
  | cons r rest ih =>
    refine Rel.bind L (Rel.withFrame L "create" none ?_) fun values =>
      ih.bind L fun rs => L.safe_pure (r.extend values :: rs)
    exact (L.safe_declareAll r.fields).bind L fun _ => L.safe_evaluate init

theorem safe_requirePopulation (host : AgentRef) (species : String) :
    D.Safe (requirePopulation host species) := by
  refine L.safe_machine.bind L fun m => ?_
  cases m.world.population? host species with
  | some p => exact L.safe_pure p
  | none => exact L.safe_fail fun _ => nofun

theorem safe_singleAgent (statement : String) (v : Value) :
    D.Safe (singleAgent statement v) := by
  unfold singleAgent
  split
  · exact L.safe_pure _
  · exact L.safe_fail fun _ => nofun
  · exact (L.safe_text _).bind L fun t => L.safe_fail fun _ => nofun

theorem safe_callee (target : Option Expr) : D.Safe (callee target) := by
  cases target with
  | some e =>
    refine (L.safe_eval e).bind L fun v => (L.safe_singleAgent "do" v).bind L fun a => ?_
    exact L.safe_scope.bind L fun s => L.safe_pure (a, s.agent)
  | none =>
    refine (L.safe_currentAgent "do").bind L fun a => ?_
    exact L.safe_scope.bind L fun s => L.safe_pure (a, s.myself)

theorem safe_planCapture (target : Expr) (species : Option String) :
    D.Safe (planCapture target species) := by
  refine (L.safe_currentAgent "capture").bind L fun m => (L.safe_eval target).bind L fun v => ?_
  refine L.safe_machine.bind L fun machine => ?_
  cases species with
  | none => exact (L.safe_pure none).bind L fun fixed => L.safe_pure _
  | some name =>
    refine (L.safe_requirePopulation m name).bind L fun p => ?_
    exact (L.safe_pure (some p)).bind L fun fixed => L.safe_pure _

theorem safe_planRelease (target : Expr) (species : Option String) (host : Option Expr) :
    D.Safe (planRelease target species host) := by
  refine (L.safe_currentAgent "release").bind L fun x => (L.safe_eval target).bind L fun v => ?_
  extract_lets plan
  have hplan : ∀ host, D.Safe (plan host) := fun host => L.safe_get.bind L fun s => L.safe_pure _
  cases host with
  | none => exact (L.safe_pure none).bind L hplan
  | some e =>
    refine (L.safe_eval e).bind L fun v => (L.safe_singleAgent "release" v).bind L fun h => ?_
    exact (L.safe_pure (some h)).bind L hplan

theorem safe_planMigrate (source target : String) : D.Safe (planMigrate source target) := by
  refine (L.safe_currentAgent "migrate").bind L fun x => ?_
  refine (L.safe_requirePopulation x source).bind L fun _ => ?_
  refine (L.safe_requirePopulation x target).bind L fun p => ?_
  exact L.safe_machine.bind L fun m => L.safe_pure _

theorem safe_reportRejected (verb : String) (rejected : List AgentRef) (reason : String) :
    D.Safe (reportRejected verb rejected reason) := by
  refine Rel.ite (fun _ => L.safe_pure ()) fun _ => ?_
  exact L.safe_scope.bind L fun s => L.safe_report _ _

/-! ## Bounds of loops, and traces -/

theorem safe_resolve {α : Type} (read : Value → Option α) (b : Bound α) :
    D.Safe (resolve read b) := by
  cases b with
  | constant a => exact L.safe_pure a
  | dynamic e =>
    refine (L.safe_eval e).bind L fun v => ?_
    cases read v with
    | some a => exact L.safe_pure a
    | none => exact L.safe_fail fun _ => nofun

theorem safe_resolveRange {α : Type} (read : Value → Option α) (r : Range (Bound α)) :
    D.Safe (resolveRange read r) := by
  refine (L.safe_resolve read r.start).bind L fun start => ?_
  refine (L.safe_resolve read r.stop).bind L fun stop => ?_
  cases r.step with
  | some b => exact (L.safe_resolve read b).bind L fun step => L.safe_pure _
  | none => exact L.safe_pure _

theorem safe_number (v : Value) : D.Safe (number v) := by
  unfold number
  split
  · exact L.safe_pure _
  · exact (L.safe_text v).bind L fun t => L.safe_fail fun _ => nofun

theorem safe_traceStatement (st : Statement) : D.Safe (traceStatement st) := by
  refine L.safe_machine.bind L fun m => Rel.ite (fun _ => ?_) fun _ => L.safe_pure ()
  exact L.safe_scope.bind L fun s => L.safe_modifyMachine fun _ => rfl

/-! ## The program around a model -/

/-- What goes wrong in the program around a model is an error that every discipline allows. -/
theorem safe_asForeign {x : Exec Value} (h : ∀ s, D.admits s → D.keeps s (after x s)) :
    D.Safe (asForeign x) := by
  intro s hs
  have hk := h s hs
  cases hx : x s with
  | ok v t =>
    rw [after_ok hx] at hk
    exact At.ok (a := v) (by simp only [asForeign, hx]) hk
  | error e t =>
    rw [after_error hx] at hk
    cases e with
    | error e =>
      exact At.error (e := .error (.foreign e.message)) (by simp only [asForeign, hx]) hk
        (L.error _ fun _ => nofun)
    | outOfFuel =>
      exact At.error (e := .outOfFuel) (by simp only [asForeign, hx]) hk L.outOfFuel

end Lawful

/-! ## Births, moves and attributes -/

/-- The discipline `D` from a world on: no agent is missing, and the species stay. -/
def grown (D : Discipline) (w : World) : Discipline where
  admits s := D.admits s ∧ w.Within s.machine.world
  keeps s t := D.keeps s t ∧ s.machine.world.Within t.machine.world
  raises := D.raises

theorem At.of_grown {α : Type} {x : Exec α} {s : State} (hs : D.admits s)
    (h : (D.grown s.machine.world).Safe x) : D.At x x s := by
  obtain ⟨hsame, hkept, hfault⟩ := h s ⟨hs, .refl _⟩
  exact ⟨hsame, hkept.1, hfault⟩

theorem pushFrame_world (owner : String) (caller : Option AgentRef) (s : State) :
    (pushFrame owner caller s).machine.world = s.machine.world := by
  unfold pushFrame
  dsimp only
  split <;> rfl

theorem pushFrame_cancelled (owner : String) (caller : Option AgentRef) (s : State) :
    (pushFrame owner caller s).machine.cancelled = s.machine.cancelled := by
  unfold pushFrame
  dsimp only
  split <;> rfl

theorem Lawful.grown (L : Lawful D) (w : World) : Lawful (D.grown w) where
  refl s hs := ⟨L.refl s hs.1, .refl _⟩
  trans s t u h h' := ⟨L.trans s t u h.1 h'.1, h.2.trans h'.2⟩
  admitted s t hs h := ⟨L.admitted s t hs.1 h.1, hs.2.trans h.2⟩
  declare s name v hs := ⟨L.declare s name v hs.1, .refl _⟩
  assign s name v scope hs h := ⟨L.assign s name v scope hs.1 h, .refl _⟩
  caught s e hs := ⟨L.caught s e hs.1, .refl _⟩
  machine s m hs hm := by
    refine ⟨L.machine s m hs.1 hm, ?_⟩
    rw [hm]
    exact .refl _
  frame_in s owner caller hs := by
    refine ⟨L.frame_in s owner caller hs.1, ?_⟩
    rw [pushFrame_world]
    exact hs.2
  frame_out s owner caller t hs h := by
    refine ⟨L.frame_out s owner caller t hs.1 h.1, ?_⟩
    rw [← pushFrame_world owner caller s]
    exact h.2
  agent_in s a hs ha := ⟨L.agent_in s a hs.1 ha, hs.2⟩
  agent_out s a t hs ha h := ⟨L.agent_out s a t hs.1 ha h.1, h.2⟩
  try_in s hs := ⟨L.try_in s hs.1, hs.2⟩
  try_out s t hs h := ⟨L.try_out s t hs.1 h.1, h.2⟩
  fork_in s name hs := ⟨L.fork_in s name hs.1, hs.2⟩
  fork_out s name t hs h := ⟨L.fork_out s name t hs.1 h.1, h.2⟩
  error := L.error
  noAgent s statement hs := L.noAgent s statement hs.1
  outOfFuel := L.outOfFuel

namespace Peopled

variable (V : Peopled D)

include V

theorem safe_bear {w : World} {p : Population} (inits : List Record) (hp : w.Offers p) :
    (D.grown w).Safe (bear p inits) := by
  intro s hs
  have hoffers := hp.within hs.2
  have hchange := World.Change.born _ s.machine.store p inits hoffers.host
  exact At.ok rfl ⟨V.born s _ p inits hs.1 hoffers rfl, hchange.within⟩

theorem safe_createAgents (f : CreateFacets) : D.Safe (createAgents f) := by
  have L := V.toLawful
  unfold createAgents
  extract_lets create
  have hcreate : ∀ count, D.Safe (create count) := by
    intro count
    refine Rel.ite (fun _ => L.safe_pure _) fun _ => ?_
    refine (L.safe_currentAgent "create").bind L fun executor => ?_
    refine (L.safe_speciesName f.species executor).bind L fun name s hs => ?_
    refine At.bind L (L.safe_birthplace executor name s hs) fun p t hp => ?_
    -- from here on the host of the population stays an agent of the world
    obtain ⟨hhost, rfl⟩ := birthplace_eq_ok hp
    refine At.of_grown hs ?_
    have LG := L.grown t.machine.world
    extract_lets limit born initial
    have hborn : ∀ records, (D.grown _).Safe (born records) := fun records =>
      (V.safe_bear records (World.populationFor?_offers hhost)).bind LG fun as => LG.safe_pure _
    have hinitial : ∀ records, (D.grown _).Safe (initial records) := fun records =>
      Rel.ite (fun _ => (LG.safe_pure records).bind LG hborn) fun _ =>
        (LG.safe_initialise f.init records).bind LG hborn
    cases f.source with
    | none => exact (LG.safe_pure _).bind LG hinitial
    | some source => exact (LG.safe_recordsFrom source limit).bind LG hinitial
  cases f.number with
  | none => exact (L.safe_pure none).bind L hcreate
  | some e => exact (L.safe_eval e).bind L fun v => (L.safe_pure _).bind L hcreate

theorem safe_assignName (name : String) (v : Value) : D.Safe (assignName name v) := by
  have L := V.toLawful
  refine Rel.scope_bind fun s hs => ?_
  cases h : s.scope.setVar name v with
  | some scope => exact At.ok rfl (V.assign s name v scope hs h)
  | none =>
    refine Rel.bind L (L.safe_currentAgent "set") (fun a => ?_) s hs
    refine L.safe_machine.bind L fun m => Rel.ite (fun _ => ?_) fun _ => L.safe_fail fun _ => nofun
    exact fun t ht => At.ok rfl (V.assigned t _ a name v ht rfl)

theorem safe_assignTo (target : Value) (name : String) (v : Value) :
    D.Safe (assignTo target name v) := by
  have L := V.toLawful
  unfold assignTo
  split
  · exact fun t ht => At.ok rfl (V.assigned t _ _ name v ht rfl)
  · exact L.safe_change _ _
  · exact L.safe_fail fun _ => nofun
  · exact (L.safe_text _).bind L fun t => L.safe_fail fun _ => nofun

end Peopled

theorem Living.safe_kill (V : Living D) (a : AgentRef) :
    D.Safe (modifyMachine fun m => { m with world := m.world.kill a }) := fun s hs =>
  At.ok rfl (V.died s _ a hs rfl)

namespace Mobile

variable (O : Mobile D)

include O

theorem grown (w : World) : Mobile (D.grown w) where
  toLawful := O.toLawful.grown w
  born s m p inits hs hp hm := by
    refine ⟨O.born s m p inits hs.1 hp hm, ?_⟩
    rw [hm]
    exact (World.Change.born _ _ p inits hp.host).within
  assigned s m a name v hs hm := by
    refine ⟨O.assigned s m a name v hs.1 hm, ?_⟩
    rw [hm]
    exact (World.Change.assigned _ a name v).within
  lost s m held a hs hm := by
    refine ⟨O.lost s m held a hs.1 hm, ?_⟩
    rw [hm]
    exact (World.Change.lost _ held a).within
  moved s m held a p hs hid ha hp hm := by
    refine ⟨O.moved s m held a p hs.1 hid ha hp hm, ?_⟩
    rw [hm]
    exact (World.Change.moved _ held hid _ a p ha hp.host).within

theorem safe_captureInto (m : AgentRef) (fixed : Option Population) (candidate : AgentRef) :
    D.Safe (captureInto m fixed candidate) := fun s hs =>
  At.ok (captureInto_eq m fixed candidate s) (O.lost s _ (holds s) m hs rfl)

theorem safe_releaseTo (executor : AgentRef) (host : Option AgentRef) (species : Option String)
    (candidate : AgentRef) : D.Safe (releaseTo executor host species candidate) := by
  intro s hs
  cases host with
  | none => exact At.ok (releaseTo_none_eq executor species candidate s) (O.refl s hs)
  | some h =>
    exact At.ok (releaseTo_some_eq executor h species candidate s)
      (O.lost s _ (holds s) h hs rfl)

theorem at_moveAgent {a : AgentRef} {p : Population} {s : State} (hs : D.admits s)
    (ha : a.id < s.machine.world.agents.size) (hp : s.machine.world.Offers p) :
    D.At (moveAgent a p) (moveAgent a p) s := by
  by_cases h : s.machine.policy.stuck.contains a.name = true
  · exact At.ok (moveAgent_stuck h) (O.refl s hs)
  · exact At.ok (moveAgent_free h) (O.moved s _ (holds s) a p hs (byId_holds s) ha hp rfl)

/-- Moves keep the discipline where whoever is moved is in the world, which offers the new
population. -/
theorem safe_moveAll {w : World} {r : Relocation} (hr : r.Fits w)
    (hd : ∀ a, (D.grown w).Safe (r.destination a)) (as : List AgentRef)
    (has : ∀ a ∈ as, a ∈ r.candidates) : (D.grown w).Safe (moveAll r.destination as) := by
  have G := O.grown w
  have L := G.toLawful
  induction as with
  | nil => exact L.safe_pure _
  | cons a rest ih =>
    have hrest := ih fun b hb => has b (List.mem_cons_of_mem a hb)
    unfold moveAll
    extract_lets go
    have hgo : ∀ moved, (D.grown w).Safe (go moved) := fun moved =>
      hrest.bind L fun r => L.safe_pure _
    intro s hs
    refine At.bind L (hd a s hs) fun o t ht => ?_
    have hadm := (hd a s hs).admitted L hs ht
    cases o with
    | none => exact (L.safe_pure false).bind L hgo t hadm
    | some p =>
      obtain ⟨ha, hp⟩ := hr a (has a List.mem_cons_self) s p t hs.2 ht
      have hmove := G.at_moveAgent hadm ha hp
      exact At.bind L hmove fun e u hu => (L.safe_pure _).bind L hgo u (hmove.admitted L hadm hu)

end Mobile

namespace Open

variable (O : Open D)

include O

theorem world_change {s : State} {m : Machine} (hs : D.admits s) {w : World} (hm : m.world = w)
    (h : World.Change s.machine.world w) : D.keeps s ⟨s.scope, m⟩ :=
  O.world s m hs (hm ▸ .single h)

theorem mobile : Mobile D where
  toLawful := O.toLawful
  born _ _ p inits hs hp hm := O.world_change hs hm (.born _ _ p inits hp.host)
  assigned _ _ a name v hs hm := O.world_change hs hm (.assigned _ a name v)
  lost _ _ held a hs hm := O.world_change hs hm (.lost _ held a)
  moved _ _ held a p hs hid ha hp hm := O.world_change hs hm (.moved _ held hid _ a p ha hp.host)

theorem living : Living D where
  toPeopled := O.mobile.toPeopled
  died _ _ a hs hm := O.world_change hs hm (.death _ a)

end Open
end Habitat.Discipline
