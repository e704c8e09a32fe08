import Habitat.Proofs.Run.Turns
import Mathlib.Data.List.Basic

/-!
# Errors at the boundary of a dispatch

Outside of `try` a dispatch ends well, whatever its bodies raise: it reports each error once, on
behalf of the target in whose turn it was raised. Inside of `try` the dispatch reports nothing, and
the error of the first target that raised one unwinds.

`dispatchTurns` lists the turns that a dispatch takes, with the states before and after each. How
the dispatch ends, what it reports and who has a turn is said by the theorems.

* `runEach_eq_conclude`, `runForked_eq_turns`: targets one after another, and by workers.
* `accounts_turns`, `targets_turns_of_not_last`, `isDead_of_idle`: what is reported, and who has a
  turn.
* `pooled`: workers that run in some order; `fanOut_eq_pooled` says which one a dispatch in parallel
  is, and `pooled_eq_conclude` how they end.
* `dispatch_contains_errors`: whole dispatches.
-/
namespace Habitat

open Exec Discipline

/-! ## The turns of a dispatch -/

/-- The turns of agents, each of which starts where the one before it ended, and the state after
them. -/
def turns (x : AgentRef → Exec Value) (inTry : Bool) (isLast : Turn → Bool) :
    List AgentRef → State → List Turn × State
  | [], s => ([], s)
  | a :: rest, s =>
    let τ := Turn.take x a s
    if isLast τ then ([τ], τ.next inTry) else
    let (τs, t) := turns x inTry isLast rest
      ((τ.next inTry).holding (heldBy (τ.outcome inTry)))
    (τ :: τs, t.release)

/-- The turns that a dispatch takes, and the state after them. -/
def dispatchTurns (run : Sequence → Exec Value) (owner : String) (body : Sequence)
    (targets : List AgentRef) (hint : Value) (stop : Bool) (s : State) : List Turn × State :=
  if body.isEmpty || targets.isEmpty then ([], s) else
  let inTry := s.scope.inTry
  let held := s.holding (hint :: targets.map .agent)
  let (τs, t) :=
    if runsInParallel (parallelThreshold hint s.machine.config) targets.length then
      turns (bodyInCopy run owner body) inTry (fun _ => false) targets held
    else turns (bodyFor run owner body) inTry (·.isLast inTry stop) targets held
  (τs, t.release)

/-- How a dispatch that took turns ends: with all results, or inside of `try` with the first
error. -/
def conclude (inTry : Bool) (d : List Turn × State) :
    EStateM.Result Fault State (List RemoteResult) :=
  match if inTry then d.1.findSome? Turn.error? else none with
  | some e => .error (.error e) d.2
  | none => .ok (d.1.map Turn.result) d.2

/-- Reports that consist of what the bodies reported in their turns, and what `own` adds after
each. -/
def Accounts (own : Turn → List Report) : List Report → List Turn → List Report → Prop
  | before, [], after => after = before
  | before, τ :: rest, after =>
    τ.before.machine.reports = before ∧ Accounts own (τ.after.machine.reports ++ own τ) rest after

/-! ## All targets -/

theorem conclude_cons_error {inTry : Bool} {τ : Turn} {e : ExecError} (hin : inTry = true)
    (h : τ.error? = some e) (τs : List Turn) (t : State) :
    conclude inTry (τ :: τs, t) = .error (.error e) t := by
  simp [conclude, hin, h]

theorem conclude_cons_ok {inTry : Bool} {τ : Turn} (h : (inTry && τ.error?.isSome) = false)
    (τs : List Turn) (t : State) :
    conclude inTry (τ :: τs, t) =
      match conclude inTry (τs, t) with
      | .ok rs u => .ok (τ.result :: rs) u
      | .error e u => .error e u := by
  cases inTry with
  | false => rfl
  | true =>
    have hnone : τ.error? = none := by simpa using h
    simp only [conclude, if_true, List.findSome?_cons, hnone]
    cases τs.findSome? Turn.error? <;> rfl

theorem turns_cons (x : AgentRef → Exec Value) (inTry : Bool) (isLast : Turn → Bool)
    (a : AgentRef) (rest : List AgentRef) (s : State) :
    turns x inTry isLast (a :: rest) s =
      let τ := Turn.take x a s
      if isLast τ then ([τ], τ.next inTry) else
      let d := turns x inTry isLast rest ((τ.next inTry).holding (heldBy (τ.outcome inTry)))
      (τ :: d.1, d.2.release) := rfl

theorem take_mem_turns (x : AgentRef → Exec Value) (inTry : Bool) (isLast : Turn → Bool)
    (a : AgentRef) (rest : List AgentRef) (s : State) :
    Turn.take x a s ∈ (turns x inTry isLast (a :: rest) s).1 := by
  rw [turns_cons]
  dsimp only
  split
  · exact List.mem_cons_self
  · exact List.mem_cons_self

namespace Exec

theorem takeFlow_of_normal {s : State} (hs : s.scope.flow = .normal) (owned : Flow) :
    takeFlow owned s = .ok .normal s := by
  obtain ⟨scope, machine⟩ := s
  obtain ⟨name, frames, agents, flow, tryDepth, currentError, lastValue, stats⟩ := scope
  obtain rfl : flow = .normal := hs
  cases owned <;> rfl

/-- Nobody has a turn after a request to stop. -/
theorem runEach_of_cancelled (remote : AgentRef → Exec RemoteResult) (stop : Bool)
    (targets : List AgentRef) {s : State} (hs : s.scope.flow = .normal)
    (hc : s.machine.cancelled = true) : runEach remote stop targets s = .ok [] s := by
  cases targets with
  | nil => rfl
  | cons a rest =>
    unfold runEach
    rw [bind_ok (interrupted_of_normal hs), hc]
    rfl

/-- The values that are held during turns are let go afterwards. -/
theorem withHeld_eq_conclude {inTry : Bool} {x : Exec (List RemoteResult)} {s : State}
    {vs : List Value} {d : List Turn × State} (hx : x (s.holding vs) = conclude inTry d) :
    withHeld vs x s = conclude inTry (d.1, d.2.release) := by
  unfold conclude at *
  split at hx
  · rename_i e he
    simp only [he]
    exact bracket_error hx
  · rename_i hnone
    simp only [hnone]
    exact bracket_ok hx

/-- The turns after one that gave a result. -/
theorem withHeld_cons_eq_conclude {inTry : Bool} {τ : Turn} {x : Exec (List RemoteResult)}
    {s : State} {vs : List Value} {d : List Turn × State}
    (h : (inTry && τ.error?.isSome) = false) (hx : x (s.holding vs) = conclude inTry d) :
    (do
      let rs ← withHeld vs x
      return τ.result :: rs) s = conclude inTry (τ :: d.1, d.2.release) := by
  have hheld := withHeld_eq_conclude hx
  rw [conclude_cons_ok h]
  cases hc : conclude inTry (d.1, d.2.release) with
  | ok rs t => exact bind_ok (hheld.trans hc)
  | error e t => exact bind_error (hheld.trans hc)

end Exec

section
variable {run : Sequence → Exec Value} (hrun : ∀ body, posture.Safe (run body))
include hrun

/-- One after another, in the caller's scope. -/
theorem runEach_eq_conclude (owner : String) (body : Sequence) (stop : Bool)
    (targets : List AgentRef) {inTry : Bool} {s : State} (hs : s.scope.flow = .normal)
    (hc : s.machine.cancelled = false) (hin : s.scope.inTry = inTry)
    (hquiet : ∀ τ ∈ (turns (bodyFor run owner body) inTry (·.isLast inTry stop) targets s).1,
      τ.Quiet) :
    runEach (runRemote run owner body) stop targets s =
      conclude inTry
        (turns (bodyFor run owner body) inTry (·.isLast inTry stop) targets s) := by
  induction targets generalizing s with
  | nil => cases inTry <;> rfl
  | cons a rest ih =>
    have hremote := runRemote_eq_finish hrun owner body a hs
    have hτ := hquiet _ (take_mem_turns _ _ _ a rest s)
    have hkept := Turn.posture_take (posture_bodyFor hrun owner body a) s
    rw [turns_cons] at hquiet ⊢
    rw [hin] at hremote
    unfold runEach
    rw [bind_ok (interrupted_of_normal hs), hc]
    generalize Turn.take (bodyFor run owner body) a s = τ at *
    dsimp only at hquiet ⊢
    rw [if_neg Bool.false_ne_true]
    rcases Turn.outcome_cases inTry τ with ⟨e, htry, he, hout⟩ | ⟨htry, hout⟩
    · have hlast : τ.isLast inTry stop = true := by simp [Turn.isLast, htry, he]
      rw [bind_error (hremote.trans (Turn.finish_of_error hτ.finished hout)), if_pos hlast,
        conclude_cons_error htry he]
    · have hflow : (τ.next inTry).scope.flow = .normal := by rw [Turn.next_scope, hτ.flow]
      rw [bind_ok (hremote.trans (Turn.finish_of_ok hτ.finished hout)),
        bind_ok (takeFlow_of_normal hflow .leave)]
      by_cases hstop : (stop && !τ.result.passed) = true
      · have hlast : τ.isLast inTry stop = true := by simp [Turn.isLast, hstop]
        rw [if_pos hlast, conclude_cons_ok htry]
        simp only [hstop]
        cases inTry <;> rfl
      · have hheld : heldBy (τ.outcome inTry) = [τ.result.value] := by rw [hout]; rfl
        have hgoes : (decide (Flow.normal = .leave) || stop && !τ.result.passed) = false := by
          simpa using hstop
        rw [hgoes, if_neg Bool.false_ne_true]
        cases hcancelled : τ.after.machine.cancelled with
        | true =>
          have hlast : τ.isLast inTry stop = true := by simp [Turn.isLast, hcancelled]
          rw [if_pos hlast]
          have hrest := runEach_of_cancelled (runRemote run owner body) stop rest
            (s := (τ.next inTry).holding [τ.result.value]) hflow
            (Turn.next_cancelled.trans hcancelled)
          have hnone : conclude inTry ([], (τ.next inTry).holding [τ.result.value]) =
              .ok [] ((τ.next inTry).holding [τ.result.value]) := by
            cases inTry <;> rfl
          exact withHeld_cons_eq_conclude htry (hrest.trans hnone.symm)
        | false =>
          have hgoes : ¬τ.isLast inTry stop = true := by
            simp [Turn.isLast, hcancelled, htry, hstop]
          rw [if_neg hgoes, hheld] at hquiet ⊢
          refine withHeld_cons_eq_conclude htry
            (ih hflow (Turn.next_cancelled.trans hcancelled) ?_ ?_)
          · rw [← hin]
            simp only [State.holding, Turn.next_scope, Scope.inTry, hkept.2]
          · exact fun τ' hτ' => hquiet τ' (List.mem_cons_of_mem _ hτ')

/-- By workers, each in a copy of the caller's scope. -/
theorem runForked_eq_turns (owner : String) (body : Sequence) (targets : List AgentRef)
    {inTry : Bool} {s : State} (hin : s.scope.inTry = inTry)
    (hfinished : ∀ τ ∈ (turns (bodyInCopy run owner body) inTry (fun _ => false) targets s).1,
      τ.ending ≠ .unfinished) :
    let d := turns (bodyInCopy run owner body) inTry (fun _ => false) targets s
    runForked (runRemote run owner body) targets s = .ok (d.1.map (·.outcome inTry)) d.2 := by
  induction targets generalizing s with
  | nil => rfl
  | cons a rest ih =>
    have hremote := inCopy_runRemote_eq_finish hrun owner body a s
    have hτ := hfinished _ (take_mem_turns _ _ _ a rest s)
    have hkept := Turn.posture_take (x := bodyInCopy run owner body) (a := a) (posture_inCopy a _) s
    rw [turns_cons] at hfinished ⊢
    rw [hin] at hremote
    unfold runForked
    rw [scope_bind_apply]
    generalize Turn.take (bodyInCopy run owner body) a s = τ at *
    dsimp only at hfinished ⊢
    rw [if_neg Bool.false_ne_true] at hfinished ⊢
    have hworker : forked (s.scope.name ++ "/" ++ a.name) (runRemote run owner body a) s =
        .ok (τ.outcome inTry) (τ.next inTry) := by
      rw [forked_eq_attempt]
      cases hout : τ.outcome inTry with
      | ok r => exact attempt_ok (hremote.trans (Turn.finish_of_ok hτ hout))
      | error e => exact attempt_error (hremote.trans (Turn.finish_of_error hτ hout))
    rw [bind_ok hworker]
    have hin' : ((τ.next inTry).holding (heldBy (τ.outcome inTry))).scope.inTry = inTry := by
      rw [← hin]
      simp only [State.holding, Turn.next_scope, Scope.inTry, hkept.2]
    have hrest := ih hin' fun τ' hτ' => hfinished τ' (List.mem_cons_of_mem _ hτ')
    rw [bind_ok (show withHeld (heldBy (τ.outcome inTry)) _ (τ.next inTry) = _ from
      bracket_ok hrest)]
    rfl

end

theorem lift_firstError_outcomes (inTry : Bool) (τs : List Turn) (t : State) :
    lift (firstError (τs.map (·.outcome inTry))) t = conclude inTry (τs, t) := by
  induction τs with
  | nil => cases inTry <;> rfl
  | cons τ rest ih =>
    rcases Turn.outcome_cases inTry τ with ⟨e, htry, he, hout⟩ | ⟨htry, hout⟩
    · rw [conclude_cons_error htry he, List.map_cons, hout]
      rfl
    · rw [conclude_cons_ok htry, ← ih, List.map_cons, hout, firstError]
      cases firstError (rest.map (·.outcome inTry)) <;> rfl

/-- A dispatch chooses how to run before its first turn. -/
theorem fanOut_apply {run : Sequence → Exec Value} {body : Sequence} {targets : List AgentRef}
    (hne : ¬(body.isEmpty || targets.isEmpty) = true) (owner : String) (hint : Value) (stop : Bool)
    (s : State) :
    fanOut run owner body targets hint stop s =
      withHeld (hint :: targets.map .agent)
        (if runsInParallel (parallelThreshold hint s.machine.config) targets.length then do
          lift (firstError (← runForked (runRemote run owner body) targets))
        else runEach (runRemote run owner body) stop targets) s := by
  unfold fanOut
  rw [if_neg hne]
  rfl

/-- A dispatch ends as its turns do. -/
theorem fanOut_eq_conclude {run : Sequence → Exec Value} (hrun : ∀ body, posture.Safe (run body))
    (owner : String) (body : Sequence) (targets : List AgentRef) (hint : Value) (stop : Bool)
    {s : State} (hs : s.scope.flow = .normal) (hc : s.machine.cancelled = false)
    (hquiet : ∀ τ ∈ (dispatchTurns run owner body targets hint stop s).1, τ.Quiet) :
    fanOut run owner body targets hint stop s =
      conclude s.scope.inTry (dispatchTurns run owner body targets hint stop s) := by
  unfold dispatchTurns at *
  by_cases hne : (body.isEmpty || targets.isEmpty) = true
  · unfold fanOut
    rw [if_pos hne, if_pos hne]
    cases s.scope.inTry <;> rfl
  · rw [if_neg hne] at hquiet
    rw [fanOut_apply hne, if_neg hne]
    cases hpar : runsInParallel (parallelThreshold hint s.machine.config) targets.length with
    | true =>
      simp only [hpar, if_true] at hquiet ⊢
      refine withHeld_eq_conclude ?_
      rw [bind_ok (runForked_eq_turns hrun owner body targets rfl
        fun τ hτ => (hquiet τ hτ).finished)]
      exact lift_firstError_outcomes _ _ _
    | false =>
      simp only [hpar, if_false, Bool.false_eq_true] at hquiet ⊢
      exact withHeld_eq_conclude (runEach_eq_conclude hrun owner body stop targets hs hc rfl hquiet)

/-! ## Workers in any order -/

namespace Exec

/-- What workers that ran in some order came to, in the order of the targets. Each worker knows the
place of its target. -/
def inOrder {α : Type} (count : Nat) (order : List (AgentRef × Nat)) (outcomes : List α) : List α :=
  (List.range count).filterMap fun i =>
    ((order.zip outcomes).find? fun w => w.1.2 == i).map (·.2)

/-- Runs a body for all targets on workers, which have their turns in some order. The results are
those of the targets in their own order, or the first error among them. -/
def pooled (run : Sequence → Exec Value) (owner : String) (body : Sequence)
    (targets : List AgentRef) (hint : Value) (order : List (AgentRef × Nat)) :
    Exec (List RemoteResult) := do
  if body.isEmpty || targets.isEmpty then return []
  withHeld (hint :: targets.map .agent) do
    let outcomes ← runForked (runRemote run owner body) (order.map (·.1))
    lift (firstError (inOrder targets.length order outcomes))

theorem inOrder_map {α β : Type} (count : Nat) (order : List (AgentRef × Nat)) (f : α → β)
    (outcomes : List α) :
    inOrder count order (outcomes.map f) = (inOrder count order outcomes).map f := by
  unfold inOrder
  rw [List.map_filterMap]
  refine List.filterMap_congr fun i _ => ?_
  rw [List.zip_map_right, List.find?_map, Option.map_map, Option.map_map]
  rfl

theorem find?_zip_self {order : List (AgentRef × Nat)} (hnodup : (order.map (·.2)).Nodup)
    {w : AgentRef × Nat} (hw : w ∈ order) :
    (order.zip order).find? (fun v => v.1.2 == w.2) = some (w, w) := by
  induction order with
  | nil => cases hw
  | cons v rest ih =>
    rw [List.zip_cons_cons, List.find?_cons]
    rcases List.mem_cons.mp hw with rfl | hw
    · simp
    · rw [List.map_cons, List.nodup_cons] at hnodup
      have hne : (v.2 == w.2) = false :=
        beq_eq_false_iff_ne.mpr fun h => hnodup.1 (h ▸ List.mem_map_of_mem hw)
      simp only [hne, ih hnodup.2 hw]

/-- Every place finds its own worker. -/
theorem inOrder_self {targets : List AgentRef} {order : List (AgentRef × Nat)}
    (hperm : order.Perm targets.zipIdx) :
    inOrder targets.length order order = targets.zipIdx := by
  have hplaces : targets.zipIdx.map (·.2) = List.range targets.length := by
    rw [List.range_eq_range']
    exact List.zipIdx_map_snd 0 targets
  have hnodup : (order.map (·.2)).Nodup := by
    rw [(hperm.map _).nodup_iff, hplaces]
    exact List.nodup_range
  have hfound : ∀ w ∈ targets.zipIdx,
      ((order.zip order).find? fun v => v.1.2 == w.2).map (·.2) = some w :=
    fun w hw => by rw [find?_zip_self hnodup (hperm.mem_iff.mpr hw), Option.map_some]
  unfold inOrder
  rw [← hplaces, List.filterMap_map]
  exact (List.filterMap_congr hfound).trans List.filterMap_some

/-- Every target has an outcome. -/
theorem length_runForked {remote : AgentRef → Exec RemoteResult} {order : List AgentRef}
    {s t : State} {rs : List (Except ExecError RemoteResult)}
    (h : runForked remote order s = .ok rs t) : rs.length = order.length := by
  induction order generalizing s t rs with
  | nil =>
    cases h
    rfl
  | cons a rest ih =>
    unfold runForked at h
    rw [scope_bind_apply] at h
    obtain ⟨r, u, -, h⟩ := bind_eq_ok h
    obtain ⟨rs', v, hrest, h⟩ := bind_eq_ok h
    obtain ⟨w, hforked, -⟩ := bracket_eq_ok hrest
    cases h
    rw [List.length_cons, List.length_cons, ih hforked]

theorem inOrder_zipIdx {targets : List AgentRef} {outcomes : List (Except ExecError RemoteResult)}
    (h : outcomes.length = targets.length) :
    inOrder targets.length targets.zipIdx outcomes = outcomes := by
  have hmap : targets.zipIdx.map (fun w => outcomes.getD w.2 (.ok .failed)) = outcomes := by
    refine List.ext_getElem (by simp [h]) fun i _ hi => ?_
    simp [List.getD_eq_getElem?_getD, List.getElem?_eq_getElem hi]
  calc inOrder targets.length targets.zipIdx outcomes
      = (inOrder targets.length targets.zipIdx targets.zipIdx).map
          (fun w => outcomes.getD w.2 (.ok .failed)) := by rw [← inOrder_map, hmap]
    _ = outcomes := by rw [inOrder_self (.refl _), hmap]

/-- A dispatch that runs in parallel is one whose workers run in the order of the targets. -/
theorem fanOut_eq_pooled {run : Sequence → Exec Value} {owner : String} {body : Sequence}
    {targets : List AgentRef} {hint : Value} (stop : Bool) {s : State}
    (hpar : runsInParallel (parallelThreshold hint s.machine.config) targets.length = true) :
    fanOut run owner body targets hint stop s =
      pooled run owner body targets hint targets.zipIdx s := by
  unfold pooled
  by_cases hne : (body.isEmpty || targets.isEmpty) = true
  · unfold fanOut
    rw [if_pos hne, if_pos hne]
  · rw [fanOut_apply hne, if_neg hne, if_pos hpar, List.zipIdx_map_fst]
    have hcollect : ∀ u,
        (do lift (firstError (← runForked (runRemote run owner body) targets))) u =
          (do lift (firstError (inOrder targets.length targets.zipIdx
            (← runForked (runRemote run owner body) targets)))) u := by
      intro u
      cases h : runForked (runRemote run owner body) targets u with
      | error e t => rw [bind_error h, bind_error h]
      | ok outcomes t =>
        rw [bind_ok h, bind_ok h, inOrder_zipIdx (length_runForked h)]
    exact congrArg (withHeld _ · s) (funext hcollect)

end Exec

/-- The turns that workers take in some order, and the state after them. -/
def poolTurns (run : Sequence → Exec Value) (owner : String) (body : Sequence)
    (targets : List AgentRef) (hint : Value) (order : List (AgentRef × Nat)) (s : State) :
    List Turn × State :=
  if body.isEmpty || targets.isEmpty then ([], s) else
  let (τs, t) := turns (bodyInCopy run owner body) s.scope.inTry (fun _ => false) (order.map (·.1))
    (s.holding (hint :: targets.map .agent))
  (τs, t.release)

/-! ## What the turns tell -/

/-- Turns are taken in the order of the targets. -/
theorem targets_turns (x : AgentRef → Exec Value) (inTry : Bool) (isLast : Turn → Bool)
    (targets : List AgentRef) (s : State) :
    (turns x inTry isLast targets s).1.map Turn.target <+: targets := by
  induction targets generalizing s with
  | nil => exact List.prefix_refl []
  | cons a rest ih =>
    rw [turns_cons]
    dsimp only
    split
    · rw [List.map_singleton, Turn.take_target]
      exact ⟨rest, rfl⟩
    · rw [List.map_cons, Turn.take_target]
      exact (List.prefix_cons_inj a).mpr (ih _)

/-- If no turn is the last one, everyone has one. -/
theorem targets_turns_of_not_last {x : AgentRef → Exec Value} {inTry : Bool}
    {isLast : Turn → Bool} {targets : List AgentRef} {s : State}
    (h : ∀ τ ∈ (turns x inTry isLast targets s).1, isLast τ = false) :
    (turns x inTry isLast targets s).1.map Turn.target = targets := by
  induction targets generalizing s with
  | nil => rfl
  | cons a rest ih =>
    have hgoes := h _ (take_mem_turns x inTry isLast a rest s)
    rw [turns_cons] at h ⊢
    dsimp only at h ⊢
    rw [hgoes, if_neg Bool.false_ne_true] at h ⊢
    rw [List.map_cons, Turn.take_target, ih fun τ hτ => h τ (List.mem_cons_of_mem _ hτ)]

/-- Unless the run is cancelled, only the dead miss their turn. -/
theorem isDead_of_idle {x : AgentRef → Exec Value} {inTry : Bool} {isLast : Turn → Bool}
    {targets : List AgentRef} {s : State} (hs : s.machine.cancelled = false)
    (h : ∀ τ ∈ (turns x inTry isLast targets s).1, τ.after.machine.cancelled = false) :
    ∀ τ ∈ (turns x inTry isLast targets s).1, τ.ending = .idle →
      τ.before.machine.world.isDead τ.target = true := by
  induction targets generalizing s with
  | nil => exact fun _ hτ => nomatch hτ
  | cons a rest ih =>
    have hfirst : (Turn.take x a s).ending = .idle →
        (Turn.take x a s).before.machine.world.isDead (Turn.take x a s).target = true := by
      intro hidle
      rw [Turn.take_before, Turn.take_target]
      unfold Turn.take Turn.ofRun at hidle
      split at hidle
      · simpa [hs] using ‹(s.machine.cancelled || s.machine.world.isDead a) = true›
      · split at hidle <;> cases hidle
    have hgoes := h _ (take_mem_turns x inTry isLast a rest s)
    rw [turns_cons] at h ⊢
    dsimp only at h ⊢
    split at h
    · rw [if_pos ‹_›]
      exact List.forall_mem_singleton.mpr hfirst
    · rw [if_neg ‹_›]
      refine List.forall_mem_cons.mpr ⟨hfirst, ih ?_ fun τ hτ => h τ (List.mem_cons_of_mem _ hτ)⟩
      exact Turn.next_cancelled.trans hgoes

theorem Machine.reports_emit_report (m : Machine) (r : Report) :
    (m.emit (.report r)).reports = m.reports ++ [r] := by
  simp [reports, emit]

theorem Turn.reports_next (inTry : Bool) (τ : Turn) :
    (τ.next inTry).machine.reports =
      τ.after.machine.reports ++ if inTry then [] else τ.failures := by
  obtain ⟨a, s, ending, t⟩ := τ
  cases ending with
  | raised e =>
    cases inTry with
    | true => exact (List.append_nil _).symm
    | false => exact t.machine.reports_emit_report _
  | _ => cases inTry <;> exact (List.append_nil _).symm

/-- Nothing is reported but by the bodies, and outside of `try` about their errors. -/
theorem accounts_turns (x : AgentRef → Exec Value) (inTry : Bool) (isLast : Turn → Bool)
    (targets : List AgentRef) (s : State) :
    Accounts (fun τ => if inTry then [] else τ.failures) s.machine.reports
      (turns x inTry isLast targets s).1 (turns x inTry isLast targets s).2.machine.reports := by
  induction targets generalizing s with
  | nil => rfl
  | cons a rest ih =>
    rw [turns_cons]
    dsimp only
    have hbefore := congrArg (·.machine.reports) (Turn.take_before x a s)
    have hnext := Turn.reports_next inTry (Turn.take x a s)
    by_cases hlast : isLast (Turn.take x a s) = true
    · rw [if_pos hlast]
      exact ⟨hbefore, hnext⟩
    · rw [if_neg hlast]
      refine ⟨hbefore, ?_⟩
      rw [← hnext]
      exact ih ((Turn.next inTry (Turn.take x a s)).holding _)

/-- A dispatch takes no turns, or those of all targets up to a last one. -/
theorem dispatchTurns_cases (run : Sequence → Exec Value) (owner : String) (body : Sequence)
    (targets : List AgentRef) (hint : Value) (stop : Bool) (s : State) :
    (body.isEmpty || targets.isEmpty) = true ∧
        dispatchTurns run owner body targets hint stop s = ([], s) ∨
      ∃ x isLast, (∀ τ, isLast τ = true → Turn.isLast s.scope.inTry τ stop = true) ∧
        let d := turns x s.scope.inTry isLast targets (s.holding (hint :: targets.map .agent))
        dispatchTurns run owner body targets hint stop s = (d.1, d.2.release) := by
  unfold dispatchTurns
  by_cases hempty : (body.isEmpty || targets.isEmpty) = true
  · exact .inl ⟨hempty, if_pos hempty⟩
  · rw [if_neg hempty]
    right
    cases runsInParallel (parallelThreshold hint s.machine.config) targets.length with
    | true =>
      refine ⟨bodyInCopy run owner body, fun _ => false, ?_, rfl⟩
      exact fun _ h => absurd h Bool.false_ne_true
    | false => exact ⟨bodyFor run owner body, (·.isLast s.scope.inTry stop), fun _ h => h, rfl⟩

/-- Workers that run in some order end as their turns do, taken in the order of the targets. -/
theorem pooled_eq_conclude {run : Sequence → Exec Value} (hrun : ∀ body, posture.Safe (run body))
    (owner : String) (body : Sequence) (targets : List AgentRef) (hint : Value)
    (order : List (AgentRef × Nat)) {s : State}
    (hfinished : ∀ τ ∈ (poolTurns run owner body targets hint order s).1, τ.ending ≠ .unfinished) :
    pooled run owner body targets hint order s =
      conclude s.scope.inTry
        (inOrder targets.length order (poolTurns run owner body targets hint order s).1,
          (poolTurns run owner body targets hint order s).2) := by
  unfold poolTurns pooled at *
  by_cases hne : (body.isEmpty || targets.isEmpty) = true
  · rw [if_pos hne, if_pos hne]
    have hnone : inOrder targets.length order ([] : List Turn) = [] := by simp [inOrder]
    dsimp only
    rw [hnone]
    cases s.scope.inTry <;> rfl
  · rw [if_neg hne] at hfinished ⊢
    rw [if_neg hne]
    dsimp only at hfinished ⊢
    have hin : (s.holding (hint :: targets.map .agent)).scope.inTry = s.scope.inTry := rfl
    have hforked := runForked_eq_turns hrun owner body (order.map Prod.fst) hin hfinished
    refine withHeld_eq_conclude (d := (inOrder _ _ _, _)) ((bind_ok hforked).trans ?_)
    rw [inOrder_map]
    exact lift_firstError_outcomes _ _ _

theorem accounts_poolTurns (run : Sequence → Exec Value) (owner : String) (body : Sequence)
    (targets : List AgentRef) (hint : Value) (order : List (AgentRef × Nat)) (s : State) :
    let p := poolTurns run owner body targets hint order s
    Accounts (fun τ => if s.scope.inTry then [] else τ.failures) s.machine.reports p.1
      p.2.machine.reports := by
  unfold poolTurns
  split
  · rfl
  · exact accounts_turns _ _ _ _ (s.holding (hint :: targets.map .agent))

theorem idle_poolTurns (run : Sequence → Exec Value) (owner : String) (body : Sequence)
    (targets : List AgentRef) (hint : Value) (order : List (AgentRef × Nat)) {s : State}
    (hs : s.machine.cancelled = false) :
    let p := poolTurns run owner body targets hint order s
    (∀ τ ∈ p.1, τ.after.machine.cancelled = false) →
      ∀ τ ∈ p.1, τ.ending = .idle → τ.before.machine.world.isDead τ.target = true := by
  unfold poolTurns
  split
  · exact fun _ _ hτ => nomatch hτ
  · exact isDead_of_idle (s := s.holding (hint :: targets.map .agent)) hs

/-- Whichever order the workers run in, each target has the turn of its own worker. -/
theorem targets_inOrder_poolTurns (run : Sequence → Exec Value) (owner : String) {body : Sequence}
    (hbody : body ≠ []) {targets : List AgentRef} (hint : Value) {order : List (AgentRef × Nat)}
    (hperm : order.Perm targets.zipIdx) (s : State) :
    (inOrder targets.length order (poolTurns run owner body targets hint order s).1).map
      Turn.target = targets := by
  rw [← inOrder_map]
  unfold poolTurns
  by_cases hne : (body.isEmpty || targets.isEmpty) = true
  · obtain rfl : targets = [] := by simpa [hbody] using hne
    rfl
  · rw [if_neg hne]
    dsimp only
    rw [targets_turns_of_not_last fun _ _ => rfl, inOrder_map, inOrder_self hperm,
      List.zipIdx_map_fst]

/-- A dispatch of anything to anyone, from a scope that is not interrupted and with bodies that
leave no signal pending. Outside of `try` it ends well: whose body raised an error has failed, and
beside the reports of the bodies there is one for each such target, with its error; and unless
failures stop the dispatch, all targets have their turn, which only the dead miss. Inside of `try`
the dispatch reports nothing and raises the error of the first target whose body raised one, if
there is one. Both hold of workers too, in whatever order they run. -/
theorem dispatch_contains_errors (n : Nat) (owner : String) (body : Sequence)
    (targets : List AgentRef) (hint : Value) (stop : Bool) {s : State}
    (hs : s.scope.flow = .normal) (hc : s.machine.cancelled = false)
    (hquiet : ∀ τ ∈ (dispatchTurns (sequence n) owner body targets hint stop s).1, τ.Quiet) :
    let d := dispatchTurns (sequence n) owner body targets hint stop s
    d.1.map Turn.target <+: targets ∧
    (s.scope.tryDepth = 0 →
      fanOut (sequence n) owner body targets hint stop s = .ok (d.1.map Turn.result) d.2 ∧
      Accounts Turn.failures s.machine.reports d.1 d.2.machine.reports ∧
      (stop = false → body ≠ [] → (∀ τ ∈ d.1, τ.after.machine.cancelled = false) →
        d.1.map Turn.target = targets ∧
        ∀ τ ∈ d.1, τ.ending = .idle → τ.before.machine.world.isDead τ.target = true)) ∧
    (0 < s.scope.tryDepth →
      Accounts (fun _ => []) s.machine.reports d.1 d.2.machine.reports ∧
      fanOut (sequence n) owner body targets hint stop s =
        match d.1.findSome? Turn.error? with
        | some e => .error (.error e) d.2
        | none => .ok (d.1.map Turn.result) d.2) ∧
    (runsInParallel (parallelThreshold hint s.machine.config) targets.length = true →
      fanOut (sequence n) owner body targets hint stop s =
        pooled (sequence n) owner body targets hint targets.zipIdx s) ∧
    ∀ order : List (AgentRef × Nat), order.Perm targets.zipIdx →
      let p := poolTurns (sequence n) owner body targets hint order s
      let τs := inOrder targets.length order p.1
      (∀ τ ∈ p.1, τ.Quiet) →
      (body ≠ [] → τs.map Turn.target = targets) ∧
      ((∀ τ ∈ p.1, τ.after.machine.cancelled = false) →
        ∀ τ ∈ p.1, τ.ending = .idle → τ.before.machine.world.isDead τ.target = true) ∧
      (s.scope.tryDepth = 0 →
        pooled (sequence n) owner body targets hint order s = .ok (τs.map Turn.result) p.2 ∧
        Accounts Turn.failures s.machine.reports p.1 p.2.machine.reports) ∧
      (0 < s.scope.tryDepth →
        Accounts (fun _ => []) s.machine.reports p.1 p.2.machine.reports ∧
        pooled (sequence n) owner body targets hint order s =
          match τs.findSome? Turn.error? with
          | some e => .error (.error e) p.2
          | none => .ok (τs.map Turn.result) p.2) := by
  intro d
  have hend := fanOut_eq_conclude (posture_sequence n) owner body targets hint stop hs hc hquiet
  have hcases := dispatchTurns_cases (sequence n) owner body targets hint stop s
  have hreports : Accounts (fun τ => if s.scope.inTry then [] else τ.failures) s.machine.reports
      d.1 d.2.machine.reports := by
    rcases hcases with ⟨-, hd⟩ | ⟨x, isLast, -, hd⟩
    · simp only [d, hd]
      rfl
    · simp only [d, hd]
      exact accounts_turns x _ isLast targets (s.holding (hint :: targets.map .agent))
  refine ⟨?_, ?_, ?_, fanOut_eq_pooled stop, ?_⟩
  · rcases hcases with ⟨-, hd⟩ | ⟨x, isLast, -, hd⟩
    · simp only [d, hd]
      exact List.nil_prefix
    · simp only [d, hd]
      exact targets_turns x _ isLast targets _
  · intro htry
    have hin : s.scope.inTry = false := by simp [Scope.inTry, htry]
    rw [hin] at hreports hend
    refine ⟨hend, hreports, ?_⟩
    intro hstop hbody hcancelled
    rcases hcases with ⟨hempty, hd⟩ | ⟨x, isLast, hlast, hd⟩
    · have htargets : targets = [] := by simpa [hbody] using hempty
      simp [d, hd, htargets]
    · simp only [d, hd] at hcancelled ⊢
      refine ⟨targets_turns_of_not_last fun τ hτ => ?_, isDead_of_idle hc hcancelled⟩
      cases h : isLast τ with
      | false => rfl
      | true =>
        have hends := hlast τ h
        simp [Turn.isLast, hin, hstop, hcancelled τ hτ] at hends
  · intro htry
    have hin : s.scope.inTry = true := by simp [Scope.inTry, htry]
    rw [hin] at hreports hend
    exact ⟨hreports, hend⟩
  · intro order hperm p τs hpool
    have hend := pooled_eq_conclude (posture_sequence n) owner body targets hint order
      fun τ hτ => (hpool τ hτ).finished
    have hreports := accounts_poolTurns (sequence n) owner body targets hint order s
    refine ⟨fun hbody => targets_inOrder_poolTurns _ owner hbody hint hperm s,
      idle_poolTurns (sequence n) owner body targets hint order hc, fun htry => ?_, fun htry => ?_⟩
    · have hin : s.scope.inTry = false := by simp [Scope.inTry, htry]
      rw [hin] at hreports hend
      exact ⟨hend, hreports⟩
    · have hin : s.scope.inTry = true := by simp [Scope.inTry, htry]
      rw [hin] at hreports hend
      exact ⟨hreports, hend⟩

/-- A warning and an error, for a sheep, a dead sheep and the root: one after another outside of
`try`, and by workers inside of it. -/
theorem dispatch_contains_errors_sheep :
    let w : World := { World.start ⟨"world", none, ["sheep"], false, [], []⟩ with
      agents := ⟨#[⟨"world", "world", none, .empty, false, false⟩,
        ⟨"sheep0", "sheep", none, .empty, false, false⟩,
        ⟨"sheep1", "sheep", none, .empty, true, false⟩]⟩ }
    let s : State := ⟨.start ⟨0, "world"⟩ "main", .start .standard w .empty⟩
    let inTry : State := { s with scope := { s.scope with tryDepth := 1 } }
    let body : Sequence := [.warn (.str "steep"), .raise (.str "lost")]
    let targets : List AgentRef := [⟨1, "sheep0"⟩, ⟨2, "sheep1"⟩, ⟨0, "world"⟩]
    let told (t : State) := t.machine.reports.map fun r => (r.message, r.agent)
    (∃ rs t, fanOut (sequence 2) "ask" body targets .nil false s = .ok rs t ∧
      rs.map (·.passed) = [false, false, false] ∧
      told t = [("steep", some "sheep0"), ("lost", some "sheep0"), ("steep", some "world"),
        ("lost", some "world")]) ∧
    ∃ e t, fanOut (sequence 2) "ask" body targets (.int 1) false inTry = .error (.error e) t ∧
      e.message = "lost" ∧ told t = [("steep", some "sheep0"), ("steep", some "world")] := by
  intro w s inTry body targets told
  obtain ⟨-, hout, -⟩ := dispatch_contains_errors 2 "ask" body targets .nil false (s := s) rfl rfl
    (by decide +kernel)
  obtain ⟨-, -, hin, -⟩ := dispatch_contains_errors 2 "ask" body targets (.int 1) false (s := inTry)
    rfl rfl (by decide +kernel)
  have hraised : ((dispatchTurns (sequence 2) "ask" body targets (.int 1) false inTry).1.findSome?
      Turn.error?).map (·.message) = some "lost" := by decide +kernel
  obtain ⟨e, he, hmessage⟩ := Option.map_eq_some_iff.mp hraised
  have hunwinds := (hin Nat.one_pos).2
  rw [he] at hunwinds
  exact ⟨⟨_, _, (hout rfl).1, by decide +kernel, by decide +kernel⟩,
    ⟨e, _, hunwinds, hmessage, by decide +kernel⟩⟩

end Habitat
