import Habitat.Proofs.Run.Traversal
import Mathlib.Data.List.Forall2

/-!
# Balanced scopes

Every statement leaves the stacks of its scope as they were, on every way out: the frames belong
to the same constructs and callers, only the innermost of them may have new variables, the agents
and the open `try` blocks are the same, and as many frames were pushed as popped.

A stack that is not empty at first is therefore never empty, and there is always an executing
agent. `watchedSequence` is an interpreter that does something else, whatever it is, as soon as a
statement would start on an empty stack or fail for want of an agent; it cannot be told from the
one that runs.

* `balance_sound`: every change a statement makes keeps the balance.
* `statementWith_balanced`: statements of any depth do.
-/
namespace Habitat

/-! ## Frames -/

namespace Frame

/-- The names that are declared in a frame. -/
def names (f : Frame) : List String := f.vars.map (·.1)

/-- A frame of the same construct and caller. -/
structure Alike (f g : Frame) : Prop where
  owner : g.owner = f.owner
  myself : g.myself = f.myself
  level : g.level = f.level

/-- A frame of the same construct with the same names; only values differ. -/
structure Steady (f g : Frame) : Prop extends Alike f g where
  names : g.names = f.names

theorem Alike.refl (f : Frame) : Alike f f := ⟨rfl, rfl, rfl⟩

theorem Alike.trans {f g h : Frame} (a : Alike f g) (b : Alike g h) : Alike f h :=
  ⟨b.owner.trans a.owner, b.myself.trans a.myself, b.level.trans a.level⟩

theorem Steady.refl (f : Frame) : Steady f f := ⟨Alike.refl f, rfl⟩

theorem Steady.trans {f g h : Frame} (a : Steady f g) (b : Steady g h) : Steady f h :=
  ⟨a.toAlike.trans b.toAlike, b.names.trans a.names⟩

theorem declare_alike (f : Frame) (name : String) (v : Value) : Alike f (f.declare name v) :=
  ⟨rfl, rfl, rfl⟩

theorem subset_putVar (name : String) (v : Value) (vars : List (String × Value)) :
    vars.map (·.1) ⊆ (putVar name v vars).map (·.1) := by
  induction vars with
  | nil => exact List.nil_subset _
  | cons x rest ih =>
    unfold putVar
    split
    · exact List.Subset.refl _
    · exact List.cons_subset_cons _ ih

/-- A declaration takes no name away. -/
theorem subset_declare (f : Frame) (name : String) (v : Value) :
    f.names ⊆ (f.declare name v).names := subset_putVar name v f.vars

theorem putVar_names {name : String} (v : Value) {vars : List (String × Value)}
    (h : (vars.lookup name).isSome = true) :
    (putVar name v vars).map (·.1) = vars.map (·.1) := by
  induction vars with
  | nil => cases h
  | cons x rest ih =>
    unfold putVar
    split
    · rfl
    · rename_i hne
      rw [List.lookup_cons, beq_eq_false_iff_ne.mpr (Ne.symm hne)] at h
      simp [ih h]

/-- A declaration of a name that is there only changes its value. -/
theorem declare_steady {f : Frame} {name : String} (v : Value)
    (h : (f.get? name).isSome = true) : Steady f (f.declare name v) :=
  ⟨declare_alike f name v, putVar_names v h⟩

end Frame

namespace Scope

theorem steady_refl (fs : List Frame) : List.Forall₂ Frame.Steady fs fs :=
  List.forall₂_same.mpr fun f _ => .refl f

/-- Assignment keeps the names of every frame. -/
theorem assignIn_steady {name : String} {v : Value} {fs gs : List Frame}
    (h : assignIn name v fs = some gs) : List.Forall₂ Frame.Steady fs gs := by
  induction fs generalizing gs with
  | nil => cases h
  | cons f rest ih =>
    unfold assignIn at h
    split at h
    · cases h
      exact .cons (Frame.declare_steady v ‹_›) (steady_refl rest)
    · obtain ⟨hs, hrest, rfl⟩ := Option.map_eq_some_iff.mp h
      exact .cons (.refl f) (ih hrest)

/-- The innermost frame may have new names; the others keep theirs. -/
inductive FramesKept : List Frame → List Frame → Prop
  | nil : FramesKept [] []
  | cons {f g : Frame} {fs gs : List Frame} (alike : f.Alike g) (names : f.names ⊆ g.names)
      (outer : List.Forall₂ Frame.Steady fs gs) : FramesKept (f :: fs) (g :: gs)

theorem FramesKept.of_steady {fs gs : List Frame} (h : List.Forall₂ Frame.Steady fs gs) :
    FramesKept fs gs := by
  cases h with
  | nil => exact .nil
  | cons hd tl => exact .cons hd.toAlike (by rw [hd.names]; exact List.Subset.refl _) tl

theorem steady_trans {fs gs hs : List Frame} (a : List.Forall₂ Frame.Steady fs gs)
    (b : List.Forall₂ Frame.Steady gs hs) : List.Forall₂ Frame.Steady fs hs := by
  induction a generalizing hs with
  | nil => exact b
  | cons hd _ ih =>
    cases b with
    | cons hd' tl' => exact .cons (hd.trans hd') (ih tl')

theorem FramesKept.refl (fs : List Frame) : FramesKept fs fs := .of_steady (steady_refl fs)

theorem FramesKept.trans {fs gs hs : List Frame} (a : FramesKept fs gs) (b : FramesKept gs hs) :
    FramesKept fs hs := by
  cases a with
  | nil => exact b
  | cons alike names outer =>
    cases b with
    | cons alike' names' outer' =>
      refine .cons (alike.trans alike') (List.Subset.trans names names') ?_
      exact steady_trans outer outer'

/-- The frames below the one that was pushed. -/
theorem FramesKept.outer_steady {f : Frame} {fs gs : List Frame} (h : FramesKept (f :: fs) gs) :
    ∃ g hs, gs = g :: hs ∧ List.Forall₂ Frame.Steady fs hs := by
  cases h with
  | cons alike names outer => exact ⟨_, _, rfl, outer⟩

/-! ## Scopes -/

/-- At least one frame and one executing agent. -/
structure Ready (s : Scope) : Prop where
  frames : s.frames ≠ []
  agents : s.agents ≠ []

/-- The stacks are as they were, and what was pushed was popped. -/
structure Balanced (s t : Scope) : Prop where
  frames : FramesKept s.frames t.frames
  agents : t.agents = s.agents
  tryDepth : t.tryDepth = s.tryDepth
  stats : ∃ k, t.stats.pushes = s.stats.pushes + k ∧ t.stats.pops = s.stats.pops + k

theorem Balanced.refl (s : Scope) : Balanced s s :=
  ⟨.refl s.frames, rfl, rfl, 0, rfl, rfl⟩

theorem Balanced.trans {s t u : Scope} (a : Balanced s t) (b : Balanced t u) : Balanced s u := by
  obtain ⟨k, hpush, hpop⟩ := a.stats
  obtain ⟨l, hpush', hpop'⟩ := b.stats
  refine ⟨a.frames.trans b.frames, b.agents.trans a.agents, b.tryDepth.trans a.tryDepth, k + l, ?_⟩
  omega

/-- What only changes the frames. -/
theorem Balanced.of_frames {s : Scope} {fs : List Frame} (h : FramesKept s.frames fs) :
    Balanced s { s with frames := fs } := ⟨h, rfl, rfl, 0, rfl, rfl⟩

theorem Ready.of_balanced {s t : Scope} (hs : s.Ready) (h : Balanced s t) : t.Ready := by
  refine ⟨?_, by rw [h.agents]; exact hs.agents⟩
  intro ht
  have hk := h.frames
  rw [ht] at hk
  generalize hfs : s.frames = fs at hk
  cases hk
  exact hs.frames hfs

theorem declare_balanced (s : Scope) (name : String) (v : Value) :
    Balanced s (s.declare name v) := by
  unfold declare
  split
  case h_1 f rest h =>
    refine .of_frames ?_
    rw [h]
    exact .cons (f.declare_alike name v) (f.subset_declare name v) (steady_refl rest)
  case h_2 => exact .refl s

theorem setVar_balanced {s t : Scope} {name : String} {v : Value}
    (h : s.setVar name v = some t) : Balanced s t := by
  obtain ⟨fs, hfs, rfl⟩ := Option.map_eq_some_iff.mp h
  exact .of_frames (.of_steady (assignIn_steady hfs))

/-- A frame that was pushed is popped, whatever happened to its variables. -/
theorem pop_balanced {s t : Scope} {owner : String} {caller : Option AgentRef} (hs : s.Ready)
    (h : Balanced (s.push owner caller) t) : Balanced s t.pop := by
  obtain ⟨g, gs, hg, houter⟩ := h.frames.outer_steady
  obtain ⟨k, hpush, hpop⟩ := h.stats
  cases gs with
  | nil =>
    have hnil : s.frames = [] := List.forall₂_nil_right_iff.mp houter
    exact absurd hnil hs.frames
  | cons f rest =>
    simp only [pop, hg]
    refine ⟨.of_steady houter, h.agents, h.tryDepth, k + 1, ?_, ?_⟩
    · simp only [hpush, push]; omega
    · simp only [hpop, push]; omega

theorem popAgent_balanced {s t : Scope} {a : AgentRef} (h : Balanced (s.pushAgent a) t) :
    Balanced s t.popAgent := by
  refine ⟨h.frames, ?_, h.tryDepth, h.stats⟩
  simp only [popAgent, h.agents, pushAgent, List.tail_cons]

end Scope

/-! ## Every step keeps the balance -/

/-- Stacks that are not empty stay as they are, and there is an executing agent. -/
def Discipline.balance : Discipline where
  admits s := s.scope.Ready
  keeps s t := s.scope.Balanced t.scope
  raises e := ∀ statement, e ≠ .error (.noAgent statement)

open Discipline Exec

theorem balance_sound : Sound balance where
  refl s _ := .refl s.scope
  trans _ _ _ := Scope.Balanced.trans
  admitted _ _ := Scope.Ready.of_balanced
  declare s name v _ := s.scope.declare_balanced name v
  assign _ _ _ _ _ := Scope.setVar_balanced
  record _ _ _ := ⟨.refl _, rfl, rfl, 0, rfl, rfl⟩
  caught _ _ _ := ⟨.refl _, rfl, rfl, 0, rfl, rfl⟩
  machine s _ _ _ := .refl s.scope
  frame_in _ _ _ hs := ⟨List.cons_ne_nil _ _, hs.agents⟩
  frame_out _ _ _ _ := Scope.pop_balanced
  agent_in _ _ hs _ := ⟨hs.frames, List.cons_ne_nil _ _⟩
  agent_out _ _ _ _ _ := Scope.popAgent_balanced
  try_in _ hs := ⟨hs.frames, hs.agents⟩
  try_out s t _ h := by
    refine ⟨h.frames, h.agents, ?_, h.stats⟩
    have hdepth : t.scope.tryDepth = s.scope.tryDepth + 1 := h.tryDepth
    simp only [hdepth]
    omega
  fork_in _ _ hs := ⟨hs.frames, hs.agents⟩
  fork_out s _ _ _ _ := .refl s.scope
  error e he statement h := by
    cases h
    exact he statement rfl
  noAgent s statement hs h := absurd (List.head?_eq_none_iff.mp h) hs.agents
  outOfFuel _ := nofun
  world s _ _ _ := .refl s.scope
  signal _ _ _ := ⟨.refl _, rfl, rfl, 0, rfl, rfl⟩

/-! ## Watching a run -/

namespace Exec

/-- Does `alarm` where a step would start on an empty stack or has failed for want of an agent. -/
def watched (alarm x : Exec Value) : Exec Value := fun s =>
  if s.scope.frames.isEmpty || s.scope.agents.isEmpty then alarm s
  else
    match x s with
    | .error (.error (.noAgent _)) t => alarm t
    | r => r

/-- Runs a sequence and watches each statement, those inside other statements included. -/
def watchedSequence (handlers : Handlers) (alarm : Exec Value) : Nat → Sequence → Exec Value
  | 0, _ => throw .outOfFuel
  | n + 1, body =>
    steps (fun st => watched alarm (statementWith handlers n (watchedSequence handlers alarm n) st))
      body .nil

/-- Runs a statement and watches it and each statement inside. -/
def watchedStatement (handlers : Handlers) (alarm : Exec Value) (n : Nat) (st : Statement) :
    Exec Value :=
  watched alarm (statementWith handlers n (watchedSequence handlers alarm n) st)

end Exec

/-- Where the balance is kept there is nothing to watch for. -/
theorem rel_watched {x y : Exec Value} (alarm : Exec Value) (h : balance.Rel x y) :
    balance.Rel x (watched alarm y) := by
  intro s hs
  obtain ⟨hsame, hkept, hfault⟩ := h s hs
  refine ⟨?_, hkept, hfault⟩
  have hready : (s.scope.frames.isEmpty || s.scope.agents.isEmpty) = false := by
    simp [hs.frames, hs.agents]
  unfold watched
  rw [hready, hsame]
  simp only [Bool.false_eq_true, if_false]
  split
  case h_1 statement t hx => exact absurd rfl (hfault _ t hx statement)
  case h_2 => rfl

/-- What native actions do keeps the balance. -/
def Exec.Handlers.Balanced (handlers : Handlers) : Prop :=
  ∀ native args (s : State), s.scope.Ready → s.scope.Balanced (after (handlers native args) s).scope

section
variable {handlers : Handlers} (hh : handlers.Balanced)
include hh

theorem rel_watchedSequence (alarm : Exec Value) (n : Nat) (body : Sequence) :
    balance.Rel (sequenceWith handlers n body) (watchedSequence handlers alarm n body) := by
  have hn := fun native args => balance_sound.safe_asForeign (hh native args)
  induction n generalizing body with
  | zero => exact balance_sound.safe_throw_outOfFuel
  | succ n ih =>
    refine balance_sound.active.rel_steps (fun st => ?_) body .nil
    exact rel_watched alarm (balance_sound.rel_statementWith ih hn n st)

/-- Statements of any depth are balanced, never want an agent, and never run a statement inside
on an empty stack. -/
theorem statementWith_balanced (n : Nat) (st : Statement) (s : State) (hs : s.scope.Ready) :
    s.scope.Balanced (after (statementWith handlers n (sequenceWith handlers n) st) s).scope ∧
      (∀ statement t, statementWith handlers n (sequenceWith handlers n) st s ≠
        .error (.error (.noAgent statement)) t) ∧
      ∀ alarm, watchedStatement handlers alarm n st s =
        statementWith handlers n (sequenceWith handlers n) st s := by
  have hn := fun native args => balance_sound.safe_asForeign (hh native args)
  obtain ⟨-, hkept, hfault⟩ := balance_sound.safe_statementWith hn n st s hs
  refine ⟨hkept, ?_, ?_⟩
  · intro statement t h
    exact hfault _ t h statement rfl
  · intro alarm
    have hrel := balance_sound.rel_statementWith (rel_watchedSequence hh alarm n) hn n st
    exact (rel_watched alarm hrel s hs).same

end

/-- The native actions that the interpreter knows leave the stacks alone. -/
theorem runNative_balanced : Handlers.Balanced runNative := by
  intro native args s _
  cases native <;> exact ⟨.refl _, rfl, rfl, 0, rfl, rfl⟩

/-- The root dies inside a block, from a scope with one frame and one agent. -/
theorem statementWith_balanced_die :
    let s := State.fresh ⟨"world", none, [], false, [], []⟩
    let x := statement 1 (sequence 1) (.block [.die])
    s.scope.Balanced (after x s).scope ∧
      (∀ name t, x s ≠ .error (.error (.noAgent name)) t) ∧
      ∀ alarm, watchedStatement runNative alarm 1 (.block [.die]) s = x s :=
  statementWith_balanced runNative_balanced 1 (.block [.die]) _ ⟨nofun, nofun⟩

end Habitat
