import Mathlib.Data.List.Perm.Basic
import Habitat.Proofs.Run.Settling

/-!
# Holding what is held already

Running code holds values outside its scope, so that what they refer to is kept. All that this can
ever change is whether an agent is found to be held. The agents that execute are held by the scope
itself; so whoever holds them once more changes nothing, and nothing that runs can tell.

* `HeldAlike`: groups of held values that mark the same objects, along with the agents that execute.
* `Exec.Indifferent x`: from states that differ in such groups alone, `x` does the same, and leaves
  the executing agents and the groups as they were.
* `Indifferent.bind`, `Indifferent.withFrame`, `Indifferent.withAgent`, `Indifferent.withHeld`,
  `Indifferent.forked`: the combinators.
* `Exec.indifferent_eval` and its neighbours: the primitive steps.
-/
namespace Habitat

/-! ## Marks -/

namespace Marks

theorem setIfInBounds_comm (xs : Array Bool) (i j : Nat) :
    (xs.setIfInBounds i true).setIfInBounds j true =
      (xs.setIfInBounds j true).setIfInBounds i true := by
  by_cases h : i = j
  · rw [h]
  · exact Array.setIfInBounds_comm _ _ h

/-- Values can be added in any order. -/
theorem add_comm (k : Marks) (v w : Value) : (k.add v).add w = (k.add w).add v := by
  induction v generalizing k with
  | pair a b iha ihb => rw [add, ihb, iha, add]
  | _ =>
    induction w generalizing k with
    | pair a b iha ihb => rw [add, iha, ihb, add]
    | _ => first | rfl | simp only [add, setIfInBounds_comm]

instance : RightCommutative add := ⟨add_comm⟩

theorem addAll_append (k : Marks) (vs ws : List Value) :
    k.addAll (vs ++ ws) = (k.addAll vs).addAll ws := List.foldl_append

theorem addAll_perm (k : Marks) {vs ws : List Value} (h : vs.Perm ws) :
    k.addAll vs = k.addAll ws := h.foldl_eq k

theorem add_agent_agent (k : Marks) {a b : AgentRef} (h : a.id = b.id) :
    (k.add (.agent a)).add (.agent b) = k.add (.agent b) := by
  simp only [add, h, Array.setIfInBounds_setIfInBounds]

/-- An agent that is among the values need not be added before. -/
theorem addAll_add_agent (k : Marks) {a b : AgentRef} {vs : List Value} (hb : .agent b ∈ vs)
    (h : a.id = b.id) : (k.add (.agent a)).addAll vs = k.addAll vs := by
  obtain ⟨before, rest, rfl⟩ := List.append_of_mem hb
  have hmove : (before ++ Value.agent b :: rest).Perm (.agent b :: (before ++ rest)) :=
    List.perm_middle
  rw [addAll_perm _ hmove, addAll_perm _ hmove]
  exact congrArg (addAll · (before ++ rest)) (add_agent_agent k h)

end Marks

/-- The groups of held values mark the same objects, along with the agents that a scope holds. -/
def HeldAlike (as : List AgentRef) (held held' : List (List Value)) : Prop :=
  ∀ k : Marks, k.addAll (held.flatten ++ as.map .agent) = k.addAll (held'.flatten ++ as.map .agent)

namespace HeldAlike

variable {as : List AgentRef} {held held' : List (List Value)}

theorem cons (h : HeldAlike as held held') (vs : List Value) :
    HeldAlike as (vs :: held) (vs :: held') := by
  intro k
  simp only [List.flatten_cons, List.append_assoc, Marks.addAll_append k vs]
  exact h (k.addAll vs)

theorem pushAgent (h : HeldAlike as held held') (a : AgentRef) :
    HeldAlike (a :: as) held held' := by
  intro k
  simp only [List.map_cons, Marks.addAll_perm _ List.perm_middle]
  exact h (k.add (.agent a))

/-- To hold agents that execute once more, or nothing, makes no difference. -/
theorem extra (as : List AgentRef) (held : List (List Value)) {vs : List Value}
    (hvs : ∀ v ∈ vs, v = .nil ∨ ∃ a, v = .agent a ∧ ∃ b ∈ as, a.id = b.id) :
    HeldAlike as held (vs :: held) := by
  intro k
  induction vs generalizing k with
  | nil => rfl
  | cons v rest ih =>
    have hrest := ih (fun w hw => hvs w (List.mem_cons_of_mem v hw)) (k.add v)
    refine Eq.trans ?_ hrest
    rcases hvs v List.mem_cons_self with rfl | ⟨a, rfl, b, hb, hid⟩
    · rfl
    · exact (k.addAll_add_agent (List.mem_append_right _ (List.mem_map_of_mem hb)) hid).symm

end HeldAlike

/-- The rounds look at the world and the containers alone. -/
theorem Machine.retained_held (m : Machine) (held : List (List Value)) (outside : Marks) (n : Nat)
    (k : Marks) : { m with held := held }.retained outside n k = m.retained outside n k := by
  induction n generalizing k with
  | zero => rfl
  | succ n ih =>
    have hretain : { m with held := held }.retain outside k = m.retain outside k := rfl
    simp only [retained, hretain, ih]

/-- Who is kept does not depend on which of two groups of values that mark the same is held. -/
theorem Machine.holds_congr (m : Machine) (scope : Scope) {held : List (List Value)}
    (h : HeldAlike scope.agents m.held held) :
    { m with held := held }.holds scope.holdings = m.holds scope.holdings := by
  classical
  have houtside (k : Marks) (held : List (List Value)) :
      (k.addAll { m with held := held }.roots).addAll scope.holdings =
        (k.addAll (held.flatten ++ scope.agents.map .agent)).addAll
          ({ m with held := [] }.roots ++ { scope with agents := [] }.holdings) := by
    rw [← Marks.addAll_append, ← Marks.addAll_append]
    refine Marks.addAll_perm k (List.perm_iff_count.mpr fun v => ?_)
    simp only [roots, Scope.holdings, List.count_append, List.count_cons, List.flatten_nil,
      List.map_nil, List.count_nil]
    omega
  funext a
  have hmarks (k : Marks) : (k.addAll { m with held := held }.roots).addAll scope.holdings =
      (k.addAll m.roots).addAll scope.holdings := by
    rw [houtside, ← h]
    exact (houtside k m.held).symm
  rw [holds, holds, retained_held]
  exact congrArg (fun k : Marks => (m.retained k _ _).agents.getD a.id false) (hmarks _)

/-- The state with other groups of values held. -/
def State.rehold (s : State) (held : List (List Value)) : State :=
  ⟨s.scope, { s.machine with held := held }⟩

namespace Exec

variable {α β : Type}

/-- The end of a step, with other groups of values held. -/
def reheld (held : List (List Value)) :
    EStateM.Result Fault State α → EStateM.Result Fault State α
  | .ok a t => .ok a (t.rehold held)
  | .error e t => .error e (t.rehold held)

theorem holds_rehold {s : State} {held : List (List Value)}
    (h : HeldAlike s.scope.agents s.machine.held held) : holds (s.rehold held) = holds s :=
  funext fun a => congrFun (s.machine.holds_congr s.scope h) a

theorem env_rehold {scope : Scope} {m : Machine} {held : List (List Value)}
    (h : HeldAlike scope.agents m.held held) : env scope { m with held := held } = env scope m := by
  have hholds (store : Store) : { m with store := store, held := held }.holds scope.holdings =
      { m with store := store }.holds scope.holdings :=
    Machine.holds_congr { m with store := store } scope h
  simp only [env, hholds]

/-- What is run between two changes of the state carries over what it does with other groups. -/
theorem bracket_reheld {enter leave : State → State} {x : Exec α} {s u : State}
    {held held' : List (List Value)} (hx : x (enter u) = reheld held' (x (enter s)))
    (hleave : ∀ t : State, leave (t.rehold held') = (leave t).rehold held) :
    bracket enter leave x u = reheld held (bracket enter leave x s) := by
  cases h : x (enter s) with
  | ok a t =>
    rw [h] at hx
    rw [bracket_ok h, bracket_ok hx, hleave, reheld]
  | error e t =>
    rw [h] at hx
    rw [bracket_error h, bracket_error hx, hleave, reheld]

/-- From one state: other groups of held values that mark the same make no difference to a step,
which leaves the executing agents and the groups as they were. -/
structure IndifferentAt (x : Exec α) (s : State) : Prop where
  agents : (after x s).scope.agents = s.scope.agents
  held : (after x s).machine.held = s.machine.held
  same : ∀ held, HeldAlike s.scope.agents s.machine.held held →
    x (s.rehold held) = reheld held (x s)

/-- A step to which it makes no difference, from any state. -/
def Indifferent (x : Exec α) : Prop := ∀ s, IndifferentAt x s

namespace IndifferentAt

variable {x : Exec α} {s t : State} {a : α} {e : Fault}

theorem of_ok (h : x s = .ok a t) (hagents : t.scope.agents = s.scope.agents)
    (hheld : t.machine.held = s.machine.held)
    (hsame : ∀ held, HeldAlike s.scope.agents s.machine.held held →
      x (s.rehold held) = .ok a (t.rehold held)) : IndifferentAt x s := by
  refine ⟨?_, ?_, fun held hh => ?_⟩
  · rwa [after_ok h]
  · rwa [after_ok h]
  · rw [hsame held hh, h, reheld]

theorem of_error (h : x s = .error e t) (hagents : t.scope.agents = s.scope.agents)
    (hheld : t.machine.held = s.machine.held)
    (hsame : ∀ held, HeldAlike s.scope.agents s.machine.held held →
      x (s.rehold held) = .error e (t.rehold held)) : IndifferentAt x s := by
  refine ⟨?_, ?_, fun held hh => ?_⟩
  · rwa [after_error h]
  · rwa [after_error h]
  · rw [hsame held hh, h, reheld]

theorem ok (hx : IndifferentAt x s) (h : x s = .ok a t) :
    t.scope.agents = s.scope.agents ∧ t.machine.held = s.machine.held ∧
      ∀ held, HeldAlike s.scope.agents s.machine.held held →
        x (s.rehold held) = .ok a (t.rehold held) := by
  obtain ⟨hagents, hheld, hsame⟩ := hx
  rw [after_ok h] at hagents hheld
  rw [h] at hsame
  exact ⟨hagents, hheld, hsame⟩

theorem error (hx : IndifferentAt x s) (h : x s = .error e t) :
    t.scope.agents = s.scope.agents ∧ t.machine.held = s.machine.held ∧
      ∀ held, HeldAlike s.scope.agents s.machine.held held →
        x (s.rehold held) = .error e (t.rehold held) := by
  obtain ⟨hagents, hheld, hsame⟩ := hx
  rw [after_error h] at hagents hheld
  rw [h] at hsame
  exact ⟨hagents, hheld, hsame⟩

theorem of_eq {y : Exec α} (hx : IndifferentAt x s) (h : y s = x s)
    (hsame : ∀ held, y (s.rehold held) = x (s.rehold held)) : IndifferentAt y s := by
  refine ⟨?_, ?_, fun held hh => ?_⟩
  · simp only [after, h]
    exact hx.agents
  · simp only [after, h]
    exact hx.held
  · rw [hsame, h, hx.same held hh]

/-- A step that runs another one between two changes of the state, of which the second undoes what
the first does to the executing agents and the groups. -/
theorem bracket {enter leave : State → State} (hx : IndifferentAt x (enter s))
    (hleave : ∀ t, t.scope.agents = (enter s).scope.agents →
      t.machine.held = (enter s).machine.held →
      (leave t).scope.agents = s.scope.agents ∧ (leave t).machine.held = s.machine.held)
    (hsame : ∀ held, HeldAlike s.scope.agents s.machine.held held →
      ∃ held', HeldAlike (enter s).scope.agents (enter s).machine.held held' ∧
        enter (s.rehold held) = (enter s).rehold held' ∧
        ∀ t : State, leave (t.rehold held') = (leave t).rehold held) :
    IndifferentAt (bracket enter leave x) s := by
  obtain ⟨hagents, hheld⟩ := hleave _ hx.agents hx.held
  rw [← after_bracket enter leave x s] at hagents hheld
  refine ⟨hagents, hheld, fun held hh => ?_⟩
  obtain ⟨held', hh', henter, hout⟩ := hsame held hh
  exact bracket_reheld (henter ▸ hx.same held' hh') hout

end IndifferentAt

namespace Indifferent

variable {x : Exec α} {f : α → Exec β}

/-! ## Combinators -/

/-- The rest may rely on how the first part ended. -/
theorem bind_of (hx : Indifferent x) (hf : ∀ a s t, x s = .ok a t → Indifferent (f a)) :
    Indifferent (x >>= f) := by
  intro s
  cases h : x s with
  | ok a t =>
    obtain ⟨hagents, hheld, hfirst⟩ := (hx s).ok h
    have hrest := hf a s t h t
    refine ⟨?_, ?_, fun held hh => ?_⟩
    · rw [after_bind h, hrest.agents, hagents]
    · rw [after_bind h, hrest.held, hheld]
    · rw [bind_ok h, bind_ok (hfirst held hh)]
      exact hrest.same held (by rwa [hagents, hheld])
  | error e t =>
    obtain ⟨hagents, hheld, hfirst⟩ := (hx s).error h
    exact .of_error (bind_error h) hagents hheld fun held hh => bind_error (hfirst held hh)

theorem bind (hx : Indifferent x) (hf : ∀ a, Indifferent (f a)) : Indifferent (x >>= f) :=
  hx.bind_of fun a _ _ _ => hf a

theorem ite {c : Prop} [Decidable c] {y : Exec α} (hx : c → Indifferent x)
    (hy : ¬c → Indifferent y) : Indifferent (if c then x else y) := by
  split
  · exact hx ‹_›
  · exact hy ‹_›

/-- A step that first looks at the state, and goes on alike whatever is held. -/
theorem get_bind {f : State → Exec β}
    (hsame : ∀ s held, HeldAlike s.scope.agents s.machine.held held → f (s.rehold held) = f s)
    (hf : ∀ s, Indifferent (f s)) : Indifferent (get >>= f) := by
  intro s
  obtain ⟨hagents, hheld, hrun⟩ := hf s s
  refine ⟨hagents, hheld, fun held hh => ?_⟩
  rw [get_bind_apply, get_bind_apply, hsame s held hh]
  exact hrun held hh

/-- A step that first looks at the machine, but not at what is held. -/
theorem machine_bind {f : Machine → Exec β} (hsame : ∀ m held, f { m with held := held } = f m)
    (hf : ∀ m, Indifferent (f m)) : Indifferent (machine >>= f) :=
  get_bind (fun s held _ => hsame s.machine held) fun s => hf s.machine

theorem attempt (hx : Indifferent x) : Indifferent (attempt x) := by
  intro s
  cases h : x s with
  | ok a t =>
    obtain ⟨hagents, hheld, hrun⟩ := (hx s).ok h
    exact .of_ok (attempt_ok h) hagents hheld fun held hh => attempt_ok (hrun held hh)
  | error e t =>
    obtain ⟨hagents, hheld, hrun⟩ := (hx s).error h
    cases e with
    | error e =>
      exact .of_ok (attempt_error h) hagents hheld fun held hh => attempt_error (hrun held hh)
    | outOfFuel =>
      exact .of_error (attempt_outOfFuel h) hagents hheld fun held hh =>
        attempt_outOfFuel (hrun held hh)

theorem withFrame (hx : Indifferent x) (owner : String) (caller : Option AgentRef) :
    Indifferent (withFrame owner caller x) := by
  intro s
  have hsame (held : List (List Value)) :
      pushFrame owner caller (s.rehold held) = (pushFrame owner caller s).rehold held := by
    by_cases htrace : s.machine.config.trace = true
    · simp only [pushFrame, State.rehold, htrace, if_true, Machine.emit]
    · simp only [pushFrame, State.rehold, htrace, if_false, Bool.false_eq_true]
  have hheld : (pushFrame owner caller s).machine.held = s.machine.held := by
    unfold pushFrame
    dsimp only
    split <;> rfl
  refine .bracket (hx _) (fun t hagents ht => ⟨?_, ht.trans hheld⟩) fun held hh => ?_
  · exact t.scope.agents_pop.trans hagents
  · exact ⟨held, hheld.symm ▸ hh, hsame held, fun _ => rfl⟩

theorem withTry (hx : Indifferent x) : Indifferent (withTry x) := fun _ =>
  .bracket (hx _) (fun _ hagents hheld => ⟨hagents, hheld⟩) fun held hh =>
    ⟨held, hh, rfl, fun _ => rfl⟩

theorem withHeld (hx : Indifferent x) (vs : List Value) : Indifferent (withHeld vs x) := fun _ =>
  .bracket (hx _) (fun _ hagents hheld => ⟨hagents, congrArg List.tail hheld⟩) fun held hh =>
    ⟨vs :: held, hh.cons vs, rfl, fun _ => rfl⟩

theorem withAgent (hx : Indifferent x) (a : AgentRef) : Indifferent (withAgent a x) := by
  intro s
  by_cases ha : s.scope.isNewAgent a = true
  · refine .of_eq (.bracket (hx _) (fun _ hagents hheld => ?_) fun held hh => ?_)
      (withAgent_new ha) fun held => withAgent_new (s := s.rehold held) ha
    · exact ⟨congrArg List.tail hagents, hheld⟩
    · exact ⟨held, hh.pushAgent a, rfl, fun _ => rfl⟩
  · exact .of_eq (hx s) (withAgent_same ha) fun held => withAgent_same (s := s.rehold held) ha

/-- A copy of the scope is thrown away. -/
theorem forked (hx : Indifferent x) (name : String) : Indifferent (forked name x) := by
  intro s
  have hcopy := (hx.withHeld s.scope.holdings).attempt ⟨s.scope.fork name, s.machine⟩
  let inCopy := Exec.bracket (fun u => ⟨u.scope.fork name, u.machine⟩)
    (fun t => ⟨s.scope, t.machine⟩) (Exec.attempt (Exec.withHeld s.scope.holdings x))
  have hforked (m : Machine) : Exec.forked name x ⟨s.scope, m⟩ = inCopy ⟨s.scope, m⟩ := by
    unfold Exec.forked inCopy Exec.bracket
    dsimp only
    split <;> rename_i h <;> rw [h]
  have hsame : IndifferentAt inCopy s :=
    .bracket hcopy (fun _ _ hheld => ⟨rfl, hheld⟩) fun held hh => ⟨held, hh, rfl, fun _ => rfl⟩
  exact hsame.of_eq (hforked s.machine) fun held => hforked { s.machine with held := held }

/-- Whatever goes wrong in the program around a model is told as a foreign error. -/
theorem asForeign (hx : Indifferent x) : Indifferent (asForeign x) := by
  intro s
  cases h : x s with
  | ok a t =>
    obtain ⟨hagents, hheld, hrun⟩ := (hx s).ok h
    refine .of_ok (t := t) (a := a) ?_ hagents hheld fun held hh => ?_
    · simp only [Exec.asForeign, h]
    · simp only [Exec.asForeign, hrun held hh]
  | error e t =>
    obtain ⟨hagents, hheld, hrun⟩ := (hx s).error h
    cases e with
    | error e =>
      refine .of_error (t := t) (e := .error (.foreign e.message)) ?_ hagents hheld fun held hh => ?_
      · simp only [Exec.asForeign, h]
      · simp only [Exec.asForeign, hrun held hh]
    | outOfFuel =>
      refine .of_error (t := t) (e := .outOfFuel) ?_ hagents hheld fun held hh => ?_
      · simp only [Exec.asForeign, h]
      · simp only [Exec.asForeign, hrun held hh]

end Indifferent

/-! ## Primitive steps -/

theorem indifferent_pure (a : α) : Indifferent (pure a : Exec α) := fun _ =>
  ⟨rfl, rfl, fun _ _ => rfl⟩

theorem indifferent_throw (e : Fault) : Indifferent (throw e : Exec α) := fun _ =>
  ⟨rfl, rfl, fun _ _ => rfl⟩

theorem indifferent_fail (e : ExecError) : Indifferent (fail e : Exec α) := indifferent_throw _

theorem indifferent_lift (r : Except ExecError α) : Indifferent (lift r) := by
  cases r with
  | ok a => exact indifferent_pure a
  | error e => exact indifferent_fail e

theorem indifferent_scope : Indifferent scope := fun _ => ⟨rfl, rfl, fun _ _ => rfl⟩

theorem indifferent_interrupted : Indifferent interrupted := fun _ => ⟨rfl, rfl, fun _ _ => rfl⟩

/-- A change of the scope that leaves the executing agents alone. -/
theorem indifferent_modifyScope {f : Scope → Scope} (hf : ∀ s, (f s).agents = s.agents) :
    Indifferent (modifyScope f) := fun s => ⟨hf s.scope, rfl, fun _ _ => rfl⟩

/-- A change of the machine that leaves alone what is held. -/
theorem indifferent_modifyMachine {f : Machine → Machine}
    (hf : ∀ m held, f { m with held := held } = { f m with held := held }) :
    Indifferent (modifyMachine f) := by
  intro s
  have hsame : f s.machine = { f s.machine with held := s.machine.held } :=
    hf s.machine s.machine.held
  have hheld : (f s.machine).held = s.machine.held := (congrArg Machine.held hsame).trans rfl
  refine .of_ok (t := ⟨s.scope, f s.machine⟩) (a := ()) rfl rfl hheld fun held _ => ?_
  exact congrArg (fun m => EStateM.Result.ok () (⟨s.scope, m⟩ : State)) (hf s.machine held)

theorem indifferent_modifyStore (f : Store → Store) : Indifferent (modifyStore f) :=
  indifferent_modifyMachine fun _ _ => rfl

theorem indifferent_onStore (f : Store → α × Store) : Indifferent (onStore f) := fun _ =>
  ⟨rfl, rfl, fun _ _ => rfl⟩

theorem indifferent_allocate (make : Store → Value × Store) : Indifferent (allocate make) :=
  indifferent_onStore make

theorem indifferent_agentList (as : List AgentRef) : Indifferent (agentList as) :=
  indifferent_allocate _

theorem indifferent_setFlow (f : Flow) : Indifferent (setFlow f) :=
  indifferent_modifyScope fun _ => rfl

theorem indifferent_takeFlow (owned : Flow) : Indifferent (takeFlow owned) := fun _ =>
  ⟨rfl, rfl, fun _ _ => rfl⟩

theorem indifferent_recordValue (v : Value) : Indifferent (recordValue v) :=
  indifferent_modifyScope fun _ => rfl

theorem indifferent_declare (name : String) (v : Value) : Indifferent (declare name v) :=
  indifferent_modifyScope fun s => s.agents_declare name v

theorem indifferent_declareAll (vars : List (String × Value)) :
    Indifferent (modifyScope (·.declareAll vars)) := by
  refine indifferent_modifyScope fun s => ?_
  induction vars generalizing s with
  | nil => rfl
  | cons v rest ih => exact (ih _).trans (s.agents_declare v.1 v.2)

theorem indifferent_store (name : Option String) (v : Value) : Indifferent (store name v) := by
  cases name with
  | none => exact indifferent_pure ()
  | some n => exact indifferent_declare n v

theorem indifferent_currentAgent (statement : String) : Indifferent (currentAgent statement) := by
  refine indifferent_scope.bind fun s => ?_
  cases s.agent with
  | none => exact indifferent_fail _
  | some a => exact indifferent_pure a

theorem indifferent_text (v : Value) : Indifferent (text v) :=
  .machine_bind (fun _ _ => rfl) fun _ => indifferent_pure _

theorem indifferent_report (severity : Severity) (message : String) :
    Indifferent (report severity message) :=
  indifferent_scope.bind fun _ => indifferent_modifyMachine fun _ _ => rfl

theorem indifferent_warn (message : String) : Indifferent (warn message) :=
  .machine_bind (fun _ _ => rfl) fun _ => indifferent_report _ message

theorem indifferent_compute (f : Env → Eval α) : Indifferent (compute f) := by
  intro s
  let env := env s.scope { s.machine with store := .empty }
  have hsame (held : List (List Value)) (hh : HeldAlike s.scope.agents s.machine.held held) :
      Exec.env s.scope { { s.machine with held := held } with store := .empty } = env :=
    env_rehold (m := { s.machine with store := .empty }) hh
  cases h : f env s.machine.store with
  | ok a store =>
    refine .of_ok (t := ⟨s.scope, { s.machine with store := store }⟩) (a := a) ?_ rfl rfl ?_
    · simp only [compute, env] at h ⊢
      rw [h]
    · intro held hh
      simp only [compute, State.rehold, hsame held hh, h]
  | error e store =>
    refine .of_error (t := ⟨s.scope, { s.machine with store := store }⟩) (e := .error e) ?_ rfl rfl ?_
    · simp only [compute, env] at h ⊢
      rw [h]
    · intro held hh
      simp only [compute, State.rehold, hsame held hh, h]

theorem indifferent_eval (e : Expr) : Indifferent (eval e) := indifferent_compute _

theorem indifferent_evalOption (e : Option Expr) : Indifferent (evalOption e) := by
  cases e with
  | none => exact indifferent_pure none
  | some e => exact (indifferent_eval e).bind fun v => indifferent_pure (some v)

theorem indifferent_evalOrNil (e : Option Expr) : Indifferent (evalOrNil e) :=
  (indifferent_evalOption e).bind fun v => indifferent_pure (v.getD .nil)

end Exec
end Habitat
