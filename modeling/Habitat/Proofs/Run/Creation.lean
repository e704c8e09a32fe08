import Habitat.Proofs.Run.Hosting
import Habitat.Proofs.Run.Turns
import Habitat.Proofs.World.Births

/-!
# Statements that create agents

Such a statement works out everything first: the population and one set of initial values for each
agent (`planCreate`). Then the agents are born all at once, and the bodies run (`runCreate_eq`).

So a failure on the way to the first birth leaves the world as it was. What can still fail
afterwards is the hint whether the bodies run in parallel, and an error of a body, which unwinds in
a `try` block only.

* `createAgents_world_iff`: the world is another one as soon as somebody is born.
* `unfailing_fanOut`: outside of `try`, bodies do not fail.
* `failed_creation_iff`: outside of `try`, a statement that fails leaves the world as it was, unless
  the hint has failed and there are new agents; these stay.
-/
namespace Habitat

open Exec Discipline

namespace Exec

/-! ## Before the first birth -/

/-- What a statement that creates agents has worked out before the first of them is born: the
population that they join, and their initial values. -/
structure Brood where
  place : Population
  inits : List Record

/-- The records of a source, or as many empty ones as are asked for. -/
def recordsFor (source : Option Expr) (limit : Option Nat) : Exec (List Record) :=
  match source with
  | some e => recordsFrom e limit
  | none => pure (List.replicate (limit.getD 0) .empty)

/-- The initial values of the agents: the records, with the values of the arguments on top. -/
def initsFor (init : Arguments) (records : List Record) : Exec (List Record) :=
  if init.isEmpty then pure records else initialise init records

/-- Works out which agents are to be born. -/
def planCreate (f : CreateFacets) : Exec (Option Brood) := do
  let number ← evalOption f.number
  let count := number.map fun v => (v.asInt.getD 0).toInt
  if f.source.isNone && count.all (· ≤ 0) then return none
  let executor ← currentAgent "create"
  let p ← birthplace executor (← speciesName f.species executor)
  let records ← recordsFor f.source (count.map Int.toNat)
  let inits ← initsFor f.init records
  return some ⟨p, inits⟩

/-- Puts the agents into their population. -/
def deliver : Option Brood → Exec (Option AgentRef × List AgentRef)
  | none => return (none, [])
  | some b => return (some b.place.host, ← bear b.place b.inits)

/-- Births come last. -/
theorem createAgents_eq (f : CreateFacets) : createAgents f = planCreate f >>= deliver := by
  obtain ⟨species, number, source, init, parallel, returns⟩ := f
  cases number <;> cases source <;> by_cases hinit : init = [] <;>
    simp [createAgents, planCreate, recordsFor, initsFor, evalOption, deliver, hinit]
  -- Only where a number and no source is given, it decides whether anything is worked out.
  all_goals
    refine bind_congr fun v => ?_
    split <;> simp [deliver]

/-- Runs the body for the agents, if there is a host whose agents they are. -/
def runBodies (run : Sequence → Exec Value) (f : CreateFacets) (body : Sequence)
    (host : Option AgentRef) (as : List AgentRef) : Exec Unit := do
  if host.isSome then
    withHeld ((host.map Value.agent).toList) do
      let hint ← evalOrNil f.parallel
      let _ ← fanOut run "create" body as hint false

/-- Gives the list of the agents. -/
def giveBack (returns : Option String) (as : List AgentRef) : Exec Value := do
  let created ← agentList as
  store returns created
  return created

theorem runCreate_eq (run : Sequence → Exec Value) (f : CreateFacets) (body : Sequence) :
    runCreate run f body = createAgents f >>= fun r =>
      runBodies run f body r.1 r.2 >>= fun _ => giveBack f.returns r.2 := by
  refine bind_congr fun ⟨host, as⟩ => ?_
  cases host <;> rfl

theorem giveBack_ok (returns : Option String) (as : List AgentRef) (s : State) :
    ∃ t, giveBack returns as s = .ok (.list s.machine.store.lists.size) t ∧
      t.machine.store = (s.machine.store.newList .agent (as.map .agent)).2 := by
  cases returns <;> exact ⟨_, rfl, rfl⟩

end Exec

theorem Discipline.Lawful.safe_planCreate {D : Discipline} (L : Lawful D) (f : CreateFacets) :
    D.Safe (planCreate f) := by
  refine (L.safe_evalOption f.number).bind L fun number => ?_
  refine Rel.ite (fun _ => L.safe_pure none) fun _ => ?_
  refine (L.safe_currentAgent "create").bind L fun executor => ?_
  refine (L.safe_speciesName f.species executor).bind L fun name => ?_
  refine (L.safe_birthplace executor name).bind L fun p => ?_
  have hrecords (limit : Option Nat) : D.Safe (recordsFor f.source limit) := by
    cases f.source with
    | none => exact L.safe_pure _
    | some e => exact L.safe_recordsFrom e limit
  refine (hrecords _).bind L fun records => ?_
  have hinits : D.Safe (initsFor f.init records) :=
    Rel.ite (fun _ => L.safe_pure records) fun _ => L.safe_initialise f.init records
  exact hinits.bind L fun inits => L.safe_pure (some (Brood.mk p inits))

/-- Working out what to create leaves the world as it is. -/
theorem Exec.world_planCreate (f : CreateFacets) (s : State) :
    (after (planCreate f) s).machine.world = s.machine.world :=
  ((ofWorld_lawful (· = s.machine.world)).safe_planCreate f s rfl).kept

/-! ## Failures -/

namespace Exec

variable {α β : Type}

/-- Outside of `try`, the step ends well with such a result, or it runs out of fuel. -/
def Unfailing (Q : α → Prop) (x : Exec α) : Prop :=
  ∀ s, s.scope.tryDepth = 0 →
    match x s with
    | .ok a t => Q a ∧ t.scope.tryDepth = 0
    | .error e _ => e = .outOfFuel

theorem Unfailing.bind {Q : α → Prop} {R : β → Prop} {x : Exec α} {f : α → Exec β}
    (hx : Unfailing Q x) (hf : ∀ a, Q a → Unfailing R (f a)) : Unfailing R (x >>= f) := by
  intro s hs
  have h := hx s hs
  cases hxs : x s with
  | ok a t =>
    rw [hxs] at h
    rw [bind_ok hxs]
    exact hf a h.1 t h.2
  | error e t =>
    rw [hxs] at h
    rwa [bind_error hxs]

theorem unfailing_pure {Q : α → Prop} {a : α} (h : Q a) : Unfailing Q (pure a) :=
  fun _ hs => ⟨h, hs⟩

theorem Unfailing.withHeld {Q : α → Prop} {x : Exec α} (hx : Unfailing Q x) (vs : List Value) :
    Unfailing Q (withHeld vs x) := by
  intro s hs
  have h := hx (s.holding vs) hs
  cases hxs : x (s.holding vs) with
  | ok a t =>
    rw [hxs] at h
    rw [show Exec.withHeld vs x s = _ from bracket_ok hxs]
    exact h
  | error e t =>
    rw [hxs] at h
    rw [show Exec.withHeld vs x s = _ from bracket_error hxs]
    exact h

/-- A step that only looks at the state, or changes it without opening `try`. -/
theorem unfailing_of_ok {Q : α → Prop} {x : Exec α}
    (h : ∀ s, ∃ a t, x s = .ok a t ∧ Q a ∧ t.scope.tryDepth = s.scope.tryDepth) :
    Unfailing Q x := by
  intro s hs
  obtain ⟨a, t, hx, ha, ht⟩ := h s
  rw [hx]
  exact ⟨ha, ht.trans hs⟩

theorem unfailing_scope : Unfailing (fun _ => True) scope :=
  unfailing_of_ok fun _ => ⟨_, _, rfl, trivial, rfl⟩

theorem unfailing_machine : Unfailing (fun _ => True) machine :=
  unfailing_of_ok fun _ => ⟨_, _, rfl, trivial, rfl⟩

theorem unfailing_interrupted : Unfailing (fun _ => True) interrupted :=
  unfailing_of_ok fun _ => ⟨_, _, rfl, trivial, rfl⟩

theorem unfailing_takeFlow (f : Flow) : Unfailing (fun _ => True) (takeFlow f) :=
  unfailing_of_ok fun _ => ⟨_, _, rfl, trivial, rfl⟩

theorem unfailing_contained {x : Exec Value} (hx : posture.Safe x) (a : AgentRef) :
    Unfailing (fun _ => True) (withAgent a (contained x)) := by
  intro s hs
  have hin : s.scope.inTry = false := by simp [Scope.inTry, hs]
  have hkept := (Rel.withAgent posture_sound.lawful a hx s trivial).kept
  rw [withAgent_contained hx, hin]
  cases h : withAgent a x s with
  | ok v t =>
    rw [after_ok h] at hkept
    exact ⟨trivial, hkept.2.trans hs⟩
  | error e t =>
    rw [after_error h] at hkept
    cases e with
    | error e => exact ⟨trivial, hkept.2.trans hs⟩
    | outOfFuel => rfl

/-- An error in a body stays with its target. -/
theorem unfailing_runRemote {run : Sequence → Exec Value} (hrun : ∀ body, posture.Safe (run body))
    (owner : String) (body : Sequence) (a : AgentRef) :
    Unfailing (fun _ => True) (runRemote run owner body a) := by
  refine unfailing_interrupted.bind fun i _ => unfailing_machine.bind fun m _ => ?_
  split
  · exact unfailing_pure trivial
  · refine unfailing_scope.bind fun s _ => ?_
    exact unfailing_contained (Rel.withFrame posture_sound.lawful owner s.agent (hrun body)) a

section
variable {remote : AgentRef → Exec RemoteResult}
  (hremote : ∀ a, Unfailing (fun _ => True) (remote a))
include hremote

theorem unfailing_runEach (stop : Bool) (targets : List AgentRef) :
    Unfailing (fun _ => True) (runEach remote stop targets) := by
  induction targets with
  | nil => exact unfailing_pure trivial
  | cons a rest ih =>
    refine unfailing_interrupted.bind fun i _ => ?_
    split
    · exact unfailing_pure trivial
    refine (hremote a).bind fun r _ => (unfailing_takeFlow .leave).bind fun f _ => ?_
    split
    · exact unfailing_pure trivial
    · exact (ih.withHeld [r.value]).bind fun rs _ => unfailing_pure trivial

/-- A worker hands no error back. -/
theorem unfailing_forked (name : String) (a : AgentRef) :
    Unfailing (fun r => ∃ v, r = .ok v) (forked name (remote a)) := by
  intro s hs
  have h := (hremote a).withHeld s.scope.holdings ⟨s.scope.fork name, s.machine⟩ hs
  unfold forked
  cases hx : withHeld s.scope.holdings (remote a) ⟨s.scope.fork name, s.machine⟩ with
  | ok r t =>
    rw [attempt_ok hx]
    exact ⟨⟨r, rfl⟩, hs⟩
  | error e t =>
    rw [hx] at h
    cases h
    rw [attempt_outOfFuel hx]

theorem unfailing_runForked (targets : List AgentRef) :
    Unfailing (fun rs => ∃ vs, firstError rs = .ok vs) (runForked remote targets) := by
  induction targets with
  | nil => exact unfailing_pure ⟨[], rfl⟩
  | cons a rest ih =>
    refine unfailing_scope.bind fun s _ => ?_
    refine (unfailing_forked hremote _ a).bind fun r ⟨v, hr⟩ => ?_
    refine (ih.withHeld _).bind fun rs ⟨vs, hrs⟩ => unfailing_pure ⟨v :: vs, ?_⟩
    rw [hr, firstError, hrs]
    rfl

end

/-- Outside of `try` a dispatch does not fail. -/
theorem unfailing_fanOut {run : Sequence → Exec Value} (hrun : ∀ body, posture.Safe (run body))
    (owner : String) (body : Sequence) (targets : List AgentRef) (hint : Value) (stop : Bool) :
    Unfailing (fun _ => True) (fanOut run owner body targets hint stop) := by
  have hremote := unfailing_runRemote hrun owner body
  unfold fanOut
  split
  · exact unfailing_pure trivial
  refine Unfailing.withHeld (unfailing_machine.bind fun m _ => ?_) _
  split
  · refine (unfailing_runForked hremote targets).bind fun rs ⟨vs, hrs⟩ => ?_
    rw [hrs]
    exact unfailing_pure trivial
  · exact unfailing_runEach hremote stop targets

variable {f : CreateFacets} {s t born : State} {e : Fault} {host : Option AgentRef}
  {as : List AgentRef}

/-- What has been worked out is delivered. -/
theorem createAgents_eq_ok (h : createAgents f s = .ok (host, as) born) :
    ∃ plan u, planCreate f s = .ok plan u ∧ deliver plan u = .ok (host, as) born := by
  rw [createAgents_eq] at h
  exact bind_eq_ok h

theorem createAgents_error (h : createAgents f s = .error e t) :
    t.machine.world = s.machine.world := by
  rw [createAgents_eq] at h
  have hworld := world_planCreate f s
  cases hplan : planCreate f s with
  | ok plan u =>
    rw [bind_ok hplan] at h
    cases plan <;> cases h
  | error e' u =>
    rw [bind_error hplan] at h
    cases h
    rwa [after_error hplan] at hworld

/-- The world is another one as soon as somebody is born. -/
theorem createAgents_world_iff (h : createAgents f s = .ok (host, as) born) :
    born.machine.world = s.machine.world ↔ as = [] := by
  obtain ⟨plan, u, hplan, hdeliver⟩ := createAgents_eq_ok h
  have hworld := world_planCreate f s
  rw [after_ok hplan] at hworld
  rw [← hworld]
  cases plan with
  | none =>
    cases hdeliver
    exact iff_of_true rfl rfl
  | some b =>
    cases hdeliver
    exact World.births_world_iff b.place _ b.inits u.machine.world

/-- Outside of `try` only the hint whether to run in parallel makes the bodies fail. -/
theorem runBodies_error {run : Sequence → Exec Value} (hrun : ∀ body, posture.Safe (run body))
    {body : Sequence} {e : ExecError} (htry : born.scope.tryDepth = 0)
    (h : runBodies run f body host as born = .error (.error e) t) :
    ∃ a u, host = some a ∧ evalOrNil f.parallel (born.holding [.agent a]) = .error (.error e) u ∧
      t.machine.world = born.machine.world := by
  cases host with
  | none => cases h
  | some a =>
    have hhint := (ofWorld_lawful (· = born.machine.world)).safe_evalOrNil f.parallel
      (born.holding [.agent a]) rfl
    have hdepth := posture_sound.lawful.safe_evalOrNil f.parallel (born.holding [.agent a]) trivial
    have heq : runBodies run f body (some a) as = withHeld [.agent a] (evalOrNil f.parallel >>=
      fun hint => fanOut run "create" body as hint false >>= fun _ => pure ()) := rfl
    rw [heq, withHeld] at h
    cases hh : evalOrNil f.parallel (born.holding [.agent a]) with
    | error e' u =>
      have hworld := hhint.kept
      rw [after_error hh] at hworld
      rw [bracket_error (bind_error hh)] at h
      cases h
      exact ⟨a, u, rfl, hh, hworld⟩
    | ok hint u =>
      have hkept := hdepth.kept.2
      rw [after_ok hh] at hkept
      have hfan := unfailing_fanOut hrun "create" body as hint false u (hkept.trans htry)
      cases hf : fanOut run "create" body as hint false u with
      | ok rs v =>
        rw [bracket_ok ((bind_ok hh).trans (bind_ok hf))] at h
        cases h
      | error e' v =>
        rw [hf] at hfan
        cases hfan
        rw [bracket_error ((bind_ok hh).trans (bind_error hf))] at h
        cases h

/-- Once the agents are born, only the hint can make the statement fail, and they stay. -/
theorem runCreate_error {run : Sequence → Exec Value} (hrun : ∀ body, posture.Safe (run body))
    {body : Sequence} {e : ExecError} (htry : s.scope.tryDepth = 0)
    (hc : createAgents f s = .ok (host, as) born)
    (h : runCreate run f body s = .error (.error e) t) :
    ∃ a u, host = some a ∧ evalOrNil f.parallel (born.holding [.agent a]) = .error (.error e) u ∧
      t.machine.world = born.machine.world := by
  have hdepth := (posture_sound.active.safe_createAgents f s trivial).kept.2
  rw [after_ok hc, htry] at hdepth
  rw [runCreate_eq, bind_ok hc] at h
  dsimp only at h
  cases hb : runBodies run f body host as born with
  | ok u v =>
    obtain ⟨w, hlist, -⟩ := giveBack_ok f.returns as v
    rw [bind_ok hb, hlist] at h
    cases h
  | error e' t' =>
    rw [bind_error hb] at h
    cases h
    exact runBodies_error hrun hdepth hb

end Exec

/-- The hint whether to run in parallel fails, and there are agents already that it was meant
for. -/
def State.HintFails (s : State) (f : CreateFacets) (e : ExecError) : Prop :=
  ∃ host as born t, createAgents f s = .ok (some host, as) born ∧ as ≠ [] ∧
    evalOrNil f.parallel (born.holding [.agent host]) = .error (.error e) t

/-- Outside of `try`, a statement that creates agents and fails leaves the world as it was, exactly
if it did not fail for the hint of a statement that had agents to create; in that case the new
agents stay. -/
theorem failed_creation_iff (n fuel : Nat) (f : CreateFacets) (body : Sequence) {s t : State}
    {e : ExecError} (htry : s.scope.tryDepth = 0)
    (h : statement fuel (sequence n) (.create f body) s = .error (.error e) t) :
    (t.machine.world = s.machine.world ↔ ¬s.HintFails f e) ∧
      ∀ host as born, createAgents f s = .ok (host, as) born →
        t.machine.world = born.machine.world := by
  have hrun : runCreate (sequence n) f body s = .error (.error e) t := h
  rcases hc : createAgents f s with ⟨⟨host, as⟩, born⟩ | ⟨e', t'⟩
  · obtain ⟨a, u, rfl, hhint, hworld⟩ := runCreate_error (posture_sequence n) htry hc hrun
    refine ⟨?_, fun host as' born' hok => ?_⟩
    · rw [hworld, createAgents_world_iff hc]
      constructor
      · rintro hnone ⟨_, as', _, _, hok, hsome, -⟩
        have hsame := hc.symm.trans hok
        cases hsame
        exact hsome hnone
      · intro hfails
        by_contra hsome
        exact hfails ⟨a, as, born, u, hc, hsome, hhint⟩
    · cases hok
      exact hworld
  · rw [runCreate_eq, bind_error hc] at hrun
    cases hrun
    refine ⟨iff_of_true (createAgents_error hc) ?_, fun host as born hok => ?_⟩
    · rintro ⟨_, _, _, _, hok, -⟩
      cases hc.symm.trans hok
    · cases hok

/-- A world that can have sheep. -/
def bareMeadow : State :=
  ⟨.start ⟨0, "world"⟩ "main", .start .standard
    ((World.start ⟨"world", none, ["sheep"], false, [], []⟩).register
      ⟨"sheep", none, [], false, [], []⟩) .empty⟩

/-- A sheep, in parallel as a variable says that is nowhere. -/
def pacedSheep : CreateFacets :=
  ⟨some (.species "sheep"), some (.int 1), none, [], some (.var "pace" .any), none⟩

/-- The statement fails, and the sheep is there. -/
theorem failed_creation_leaves_sheep :
    ∃ e t, statement 1 (sequence 1) (.create pacedSheep []) bareMeadow = .error (.error e) t ∧
      bareMeadow.HintFails pacedSheep e ∧ t.machine.world.agents.size = 2 := by
  obtain ⟨e, he⟩ := Option.isSome_iff_exists.mp
    (by decide +kernel :
      (error? (statement 1 (sequence 1) (.create pacedSheep [])) bareMeadow).isSome = true)
  have hends : (after (statement 1 (sequence 1) (.create pacedSheep []))
      bareMeadow).machine.world.agents.size = 2 := by decide +kernel
  obtain ⟨t, h⟩ := eq_error_of_error? he
  rw [after_error h] at hends
  refine ⟨e, t, h, ?_, hends⟩
  obtain ⟨hiff, -⟩ := failed_creation_iff 1 1 pacedSheep [] (s := bareMeadow) rfl h
  by_contra hfails
  have hsize := congrArg (·.agents.size) (hiff.mpr hfails)
  exact absurd (hends.symm.trans hsize) (by decide)

end Habitat
