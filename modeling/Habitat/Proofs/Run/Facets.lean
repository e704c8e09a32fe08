import Habitat.Proofs.Run.Edits
import Habitat.Run.Dispatch
import Habitat.Proofs.World.Births

/-!
# Expressions that are computed on the way

A statement computes its expressions one after another before it changes anything. That only makes
new containers, so a later expression sees the same variables, agents and world as the first one
(`State.Views`). In a frame of its own it sees the variables of that frame too (`State.Framed`).

* `Scope.declareAll_spec`: the last of the declared values of a name counts.
* `evaluate_spec`: the values of arguments.
* `initialise_spec`: the arguments of several records, each computed in a frame with the fields of
  the record.
-/
namespace Habitat

open Exec

/-- The machine is the same, up to new containers and to what was told. -/
structure Machine.Resumes (m m' : Machine) : Prop where
  same : { m' with store := m.store, events := m.events } = m
  store : m.store.Extends m'.store

namespace Machine.Resumes

variable {m m' m'' : Machine}

theorem refl (m : Machine) : m.Resumes m := ⟨rfl, .refl _⟩

theorem trans (h : m.Resumes m') (h' : m'.Resumes m'') : m.Resumes m'' where
  same := by
    have hmiddle := congrArg (fun x : Machine => { x with store := m.store, events := m.events })
      h'.same
    exact hmiddle.trans h.same
  store := h.store.trans h'.store

theorem world (h : m.Resumes m') : m'.world = m.world := by
  have hworld := congrArg Machine.world h.same
  exact hworld

theorem delegates (h : m.Resumes m') : m'.delegates = m.delegates := by
  have hdelegates := congrArg Machine.delegates h.same
  exact hdelegates

end Machine.Resumes

/-- What can be seen in `t` is what can be seen in `s`, and more containers. -/
structure State.Views (s t : State) : Prop where
  frames : t.scope.frames = s.scope.frames
  agents : t.scope.agents = s.scope.agents
  machine : s.machine.Resumes t.machine

namespace State.Views

variable {s t u : State}

theorem refl (s : State) : s.Views s := ⟨rfl, rfl, .refl _⟩

theorem trans (h : s.Views t) (h' : t.Views u) : s.Views u :=
  ⟨h'.frames.trans h.frames, h'.agents.trans h.agents, h.machine.trans h'.machine⟩

theorem agent (h : s.Views t) : t.scope.agent = s.scope.agent := by
  rw [Scope.agent, Scope.agent, h.agents]

theorem of_eval {e : Expr} {v : Value} (h : eval e s = .ok v t) : s.Views t := by
  have hgrows := grows_eval e s
  rw [after_ok h] at hgrows
  obtain ⟨hscope, hmachine⟩ := eval_keeps h
  exact ⟨by rw [hscope], by rw [hscope], by rw [hmachine], hgrows⟩

theorem of_evalOption {e : Option Expr} {v : Option Value} (h : evalOption e s = .ok v t) :
    s.Views t := by
  cases e with
  | none =>
    cases h
    exact .refl s
  | some e =>
    obtain ⟨w, u, hw, hrest⟩ := bind_eq_ok h
    cases hrest
    exact .of_eval hw

end State.Views

/-! ## Frames with variables -/

namespace Scope

variable {s : Scope} {x : String}

theorem lookup_putVar (name : String) (v : Value) (vars : List (String × Value)) (x : String) :
    (Frame.putVar name v vars).lookup x = if x = name then some v else vars.lookup x := by
  induction vars with
  | nil => rw [Frame.putVar, Record.lookup_cons_ite]
  | cons f rest ih =>
    unfold Frame.putVar
    split
    case isTrue h =>
      subst h
      rw [Record.lookup_cons_ite, Record.lookup_cons_ite]
      split <;> rfl
    case isFalse h =>
      rw [Record.lookup_cons_ite, Record.lookup_cons_ite, ih]
      by_cases hx : x = f.1
      · rw [if_pos hx, if_pos hx, if_neg fun hname => h (hx.symm.trans hname)]
      · rw [if_neg hx, if_neg hx]

theorem getVar_declare (hs : s.frames ≠ []) (name : String) (v : Value) (x : String) :
    (s.declare name v).getVar x = if x = name then some v else s.getVar x := by
  unfold declare getVar
  cases hframes : s.frames with
  | nil => exact absurd hframes hs
  | cons f rest =>
    dsimp only
    rw [List.findSome?_cons, List.findSome?_cons, Frame.declare, Frame.get?, Frame.get?,
      lookup_putVar]
    by_cases hx : x = name
    · rw [if_pos hx, if_pos hx]
    · rw [if_neg hx, if_neg hx]

/-- Declaring changes the innermost frame, and there only the variables. -/
theorem frames_declare (s : Scope) (name : String) (v : Value) :
    (s.declare name v).frames.tail = s.frames.tail ∧
      (s.declare name v).frames.length = s.frames.length ∧
      (s.declare name v).myself = s.myself ∧ (s.declare name v).agents = s.agents := by
  unfold declare myself
  cases hframes : s.frames <;> simp [Frame.declare, hframes]

/-- The last of the declared values of a name counts. -/
theorem declareAll_spec (hs : s.frames ≠ []) (vars : List (String × Value)) :
    (∀ x, (s.declareAll vars).getVar x = (vars.reverse.lookup x).or (s.getVar x)) ∧
      (s.declareAll vars).frames.tail = s.frames.tail ∧ (s.declareAll vars).frames ≠ [] ∧
      (s.declareAll vars).myself = s.myself ∧ (s.declareAll vars).agents = s.agents := by
  induction vars generalizing s with
  | nil => exact ⟨fun _ => rfl, rfl, hs, rfl, rfl⟩
  | cons f rest ih =>
    obtain ⟨htail, hlength, hmyself, hagents⟩ := s.frames_declare f.1 f.2
    have hne : (s.declare f.1 f.2).frames ≠ [] := by
      rw [← List.length_pos_iff] at hs ⊢
      omega
    obtain ⟨hvar, htail', hne', hmyself', hagents'⟩ := ih hne
    refine ⟨fun x => ?_, htail'.trans htail, hne', hmyself'.trans hmyself, hagents'.trans hagents⟩
    have hfirst : (s.declare f.1 f.2).getVar x = ([f].lookup x).or (s.getVar x) := by
      rw [getVar_declare hs, Record.lookup_cons_ite]
      split <;> rfl
    rw [List.reverse_cons, List.lookup_append, Option.or_assoc, ← hfirst]
    exact hvar x

/-- A frame on top of others is dropped. -/
theorem frames_pop {f : Frame} {fs : List Frame} (h : s.frames = f :: fs) (hfs : fs ≠ []) :
    s.pop.frames = fs ∧ s.pop.agents = s.agents := by
  cases fs with
  | nil => exact absurd rfl hfs
  | cons g rest =>
    simp only [pop, h]
    exact ⟨trivial, trivial⟩

end Scope

/-- What can be seen in a frame with variables: these, and what can be seen outside. -/
structure State.Framed (s : State) (vars : String → Option Value) (t : State) : Prop where
  vars : ∀ x, t.scope.getVar x = (vars x).or (s.scope.getVar x)
  myself : t.scope.myself = s.scope.myself
  agents : t.scope.agents = s.scope.agents
  machine : s.machine.Resumes t.machine

namespace State

variable {s t u : State} {vars : String → Option Value}

theorem Framed.views (h : s.Framed vars t) (h' : t.Views u) : s.Framed vars u where
  vars x := by
    rw [← h.vars x, Scope.getVar, Scope.getVar, h'.frames]
  myself := by rw [← h.myself, Scope.myself, Scope.myself, h'.frames]
  agents := h'.agents.trans h.agents
  machine := h.machine.trans h'.machine

theorem Views.framed (h : s.Views t) (h' : t.Framed vars u) : s.Framed vars u where
  vars x := by
    rw [h'.vars x, Scope.getVar, Scope.getVar, h.frames]
  myself := by rw [h'.myself, Scope.myself, Scope.myself, h.frames]
  agents := h'.agents.trans h.agents
  machine := h.machine.trans h'.machine

end State

namespace Exec

variable {s t : State} {name : String}

/-- What is given for a name: nothing, or the value of the last expression for it, computed where
certain variables can be seen. -/
inductive Given (init : Arguments) (s : State) (vars : String → Option Value) (name : String) :
    Option Value → Prop
  | absent (h : init.reverse.lookup name = none) : Given init s vars name none
  | computed {e : Expr} {u u' : State} {v : Value} (h : init.reverse.lookup name = some e)
    (hu : s.Framed vars u) (hv : eval e u = .ok v u') : Given init s vars name (some v)

theorem Given.of_views {init : Arguments} {vars : String → Option Value} {result : Option Value}
    (h : Given init t vars name result) (hst : s.Views t) : Given init s vars name result := by
  cases h with
  | absent h => exact .absent h
  | computed h hu hv => exact .computed h (hst.framed hu) hv

theorem lookup_reverse_cons {α : Type} (k : String) (a : α) (rest : List (String × α))
    (name : String) :
    ((k, a) :: rest).reverse.lookup name =
      (rest.reverse.lookup name).or (if name = k then some a else none) := by
  rw [List.reverse_cons, List.lookup_append, Record.lookup_cons_ite]
  rfl

/-- Arguments are computed one after another. -/
theorem evaluate_spec {init : Arguments} {s₀ : State} {vars : String → Option Value}
    {values : BoundArguments} (hs : s₀.Framed vars s)
    (h : Arguments.evaluate init s = .ok values t) :
    s.Views t ∧ ∀ name, Given init s₀ vars name (values.reverse.lookup name) := by
  induction init generalizing s values with
  | nil =>
    cases h
    exact ⟨.refl _, fun _ => .absent rfl⟩
  | cons a rest ih =>
    obtain ⟨k, e⟩ := a
    obtain ⟨v, u, hv, hrest⟩ := bind_eq_ok h
    obtain ⟨vs, u', hvs, hlast⟩ := bind_eq_ok hrest
    cases hlast
    obtain ⟨hviews, hgiven⟩ := ih (hs.views (.of_eval hv)) hvs
    refine ⟨(State.Views.of_eval hv).trans hviews, fun name => ?_⟩
    have hname := hgiven name
    have hcons := lookup_reverse_cons k e rest name
    rw [lookup_reverse_cons]
    generalize vs.reverse.lookup name = later at hname
    -- A later argument of the name counts, and else this one.
    cases hname with
    | computed hlater hw hvalue =>
      rw [hlater, Option.some_or] at hcons
      exact .computed hcons hw hvalue
    | absent hlater =>
      rw [hlater, Option.none_or] at hcons
      rw [Option.none_or]
      by_cases hk : name = k
      · rw [if_pos hk] at hcons ⊢
        exact .computed hcons hs hv
      · rw [if_neg hk] at hcons ⊢
        exact .absent hcons

/-! ## Records -/

/-- A record with the values of arguments on top, each computed in `s` among the fields of the
record. -/
structure Initialised (init : Arguments) (s : State) (r r' : Record) : Prop where
  ascending : Record.Ascending r'.fields
  value : ∀ name, ∃ given, Given init s r.get? name given ∧ r'.get? name = given.or (r.get? name)

theorem Initialised.of_views {init : Arguments} {r r' : Record} (h : Initialised init t r r')
    (hst : s.Views t) : Initialised init s r r' where
  ascending := h.ascending
  value name := by
    obtain ⟨given, hgiven, hvalue⟩ := h.value name
    exact ⟨given, hgiven.of_views hst, hvalue⟩

/-- The arguments for one record are computed in a frame with its fields, which is dropped
afterwards. -/
theorem evaluate_record (hs : s.scope.frames ≠ []) {init : Arguments} {r : Record}
    (hr : Record.Ascending r.fields) {values : BoundArguments}
    (h : withFrame "create" none (do
      modifyScope (·.declareAll r.fields)
      Arguments.evaluate init) s = .ok values t) :
    s.Views t ∧ Initialised init s r (r.extend values) := by
  obtain ⟨u, hu, rfl⟩ := bracket_eq_ok h
  obtain ⟨hvar, htail, hne, hmyself, hagents⟩ :=
    Scope.declareAll_spec (s := s.scope.push "create" none) (List.cons_ne_nil _ _) r.fields
  have hmachine : s.machine.Resumes (pushFrame "create" none s).machine := by
    unfold pushFrame
    split <;> exact ⟨rfl, .refl _⟩
  have hframed : s.Framed r.get? { pushFrame "create" none s with
      scope := (s.scope.push "create" none).declareAll r.fields } := by
    refine ⟨fun x => ?_, hmyself, hagents, hmachine⟩
    rw [Record.get?, ← Record.lookup_reverse hr]
    exact hvar x
  obtain ⟨hviews, hgiven⟩ := evaluate_spec hframed hu
  obtain ⟨f, fs, hframes⟩ := List.exists_cons_of_ne_nil hne
  obtain rfl : fs = s.scope.frames := by rwa [hframes] at htail
  obtain ⟨hpop, hagents'⟩ := Scope.frames_pop (hviews.frames.trans hframes) hs
  refine ⟨⟨hpop, hagents'.trans (hviews.agents.trans hagents), hmachine.trans hviews.machine⟩, ?_⟩
  exact ⟨Record.ascending_extend hr values,
    fun name => ⟨_, hgiven name, Record.get?_extend r values name⟩⟩

/-- Each record gets the values of the arguments, computed among its own fields. -/
theorem initialise_spec {init : Arguments} {records inits : List Record} {s₀ : State}
    (hs₀ : s₀.Views s) (hframes : s₀.scope.frames ≠ [])
    (hrecords : ∀ r ∈ records, Record.Ascending r.fields)
    (h : initialise init records s = .ok inits t) :
    s.Views t ∧ List.Forall₂ (Initialised init s₀) records inits := by
  induction records generalizing s inits with
  | nil =>
    cases h
    exact ⟨.refl _, .nil⟩
  | cons r rest ih =>
    obtain ⟨values, u, hvalues, hrest⟩ := bind_eq_ok h
    obtain ⟨inits', u', hinits, hlast⟩ := bind_eq_ok hrest
    cases hlast
    have hr := hrecords r List.mem_cons_self
    obtain ⟨hviews, hinit⟩ := evaluate_record (hs₀.frames ▸ hframes) hr hvalues
    obtain ⟨hviews', hall⟩ := ih (hs₀.trans hviews)
      (fun r hr => hrecords r (List.mem_cons_of_mem _ hr)) hinits
    exact ⟨hviews.trans hviews', .cons (hinit.of_views hs₀) hall⟩

end Exec
end Habitat
