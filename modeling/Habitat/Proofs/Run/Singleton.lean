import Habitat.Proofs.Run.Containment
import Habitat.Proofs.Run.Indifference

/-!
# Asking one agent and asking a list of it

`ask a` runs its body for the agent at once; `ask [a]` is a dispatch with one target. What the
dispatch holds meanwhile makes no difference (`runRemote_holding`), so both do the same, up to the
end: the dispatch takes a pending `break` for its own, and the single agent leaves it pending.

The two are compared from the state in which the list has been made and is held, as it is while the
dispatch runs: containers are numbered in the order in which they are made, and the list is one.

* `State.EndsAs`: what the two have in common.
* `fanOut_single`: a dispatch with one target is the run for this target, and the end of a `break`.
* `ask_single_iff`: the two end alike, and the pending signal is the same exactly if the single run
  brings about no `break`.
-/
namespace Habitat

/-- The state without a pending signal of a kind. -/
def State.clear (s : State) (owned : Flow) : State :=
  { s with scope := { s.scope with flow := s.scope.flow.clear owned } }

/-- The same state, but for the pending signal, the counts of frames, the trace and what is held
outside the scope. -/
structure State.EndsAs (s t : State) : Prop where
  scope : s.scope = { t.scope with flow := s.scope.flow, stats := s.scope.stats }
  machine : s.machine = { t.machine with events := s.machine.events, held := s.machine.held }
  reports : s.machine.reports = t.machine.reports

theorem State.EndsAs.refl (s : State) : s.EndsAs s := ⟨rfl, rfl, rfl⟩

/-- Who was pushed is popped again. -/
theorem State.EndsAs.popAgent {s t : State} {a : AgentRef}
    (h : State.EndsAs ⟨s.scope.pushAgent a, s.machine⟩ t) :
    s.EndsAs ⟨t.scope.popAgent, t.machine⟩ :=
  ⟨congrArg (fun scope : Scope => { scope with agents := scope.agents.tail }) h.scope, h.machine,
    h.reports⟩

/-- What is held outside the scope does not count. -/
theorem State.EndsAs.rehold {s t : State} (h : s.EndsAs t) (held : List (List Value)) :
    (s.rehold held).EndsAs t :=
  ⟨h.scope, congrArg (fun m : Machine => { m with held := held }) h.machine, h.reports⟩

theorem State.rehold_self {s : State} {held : List (List Value)} (h : s.machine.held = held) :
    s.rehold held = s := by
  rw [← h]
  rfl

namespace Exec

/-- The fault that a step ends with. -/
def fault? {α : Type} (x : Exec α) (s : State) : Option Fault :=
  match x s with
  | .ok .. => none
  | .error e _ => some e

theorem fault?_ok {α : Type} {x : Exec α} {s t : State} {a : α} (h : x s = .ok a t) :
    fault? x s = none := by
  simp only [fault?, h]

theorem fault?_error {α : Type} {x : Exec α} {s t : State} {e : Fault} (h : x s = .error e t) :
    fault? x s = some e := by
  simp only [fault?, h]

variable {run : Sequence → Exec Value} {body : Sequence}

/-- While an agent executes, to hold it once more makes no difference. -/
theorem withAgent_holding {α : Type} {x : Exec α} (hx : Indifferent x) (a : AgentRef)
    {vs : List Value} (hvs : ∀ v ∈ vs, v = .nil ∨ v = .agent a) (s : State) :
    withAgent a x (s.holding vs) = reheld (vs :: s.machine.held) (withAgent a x s) := by
  have hextra (as : List AgentRef) (h : ∃ b ∈ as, a.id = b.id) (held : List (List Value)) :
      HeldAlike as held (vs :: held) :=
    .extra as held fun v hv => (hvs v hv).imp_right fun h' => ⟨a, h', h⟩
  by_cases ha : s.scope.isNewAgent a = true
  · rw [withAgent_new ha]
    refine (withAgent_new (s := s.holding vs) ha).trans (bracket_reheld ?_ fun _ => rfl)
    exact (hx { s with scope := s.scope.pushAgent a }).same (vs :: s.machine.held)
      (hextra _ ⟨a, List.mem_cons_self, rfl⟩ _)
  · have hmem : ∃ b ∈ s.scope.agents, a.id = b.id := by
      unfold Scope.isNewAgent at ha
      split at ha
      case h_1 b rest hagents =>
        have hid : b.id = a.id := by simpa using ha
        exact ⟨b, hagents ▸ List.mem_cons_self, hid.symm⟩
      case h_2 => exact absurd rfl ha
    rw [withAgent_same ha]
    exact (withAgent_same (s := s.holding vs) ha).trans ((hx s).same _ (hextra _ hmem _))

theorem withHeld_eq_reheld {α : Type} {x : Exec α} {vs : List Value} {s : State}
    {r : EStateM.Result Fault State α} (h : x (s.holding vs) = reheld (vs :: s.machine.held) r) :
    withHeld vs x s = reheld s.machine.held r := by
  unfold State.holding at h
  unfold withHeld bracket
  rw [h]
  cases r <;> rfl

/-- Whether nothing runs on behalf of an agent: a signal is pending, the run was cancelled, or the
agent is dead. -/
def idles (a : AgentRef) (s : State) : Bool :=
  s.scope.flow.isInterrupting || s.machine.cancelled || s.machine.world.isDead a

theorem runRemote_apply (owner : String) (a : AgentRef) (s : State) :
    runRemote run owner body a s =
      if idles a s then .ok .failed s
      else withAgent a (contained (withFrame owner s.scope.agent (run body))) s := by
  unfold runRemote idles
  rw [bind_ok (rfl : interrupted s = .ok _ s), machine_bind_apply]
  split <;> rfl

/-- What runs on behalf of an agent does not depend on whether the agent is held besides. -/
theorem runRemote_holding (hrun : Indifferent (run body)) (owner : String) (a : AgentRef)
    {vs : List Value} (hvs : ∀ v ∈ vs, v = .nil ∨ v = .agent a) (s : State) :
    runRemote run owner body a (s.holding vs) =
      reheld (vs :: s.machine.held) (runRemote run owner body a s) := by
  rw [runRemote_apply, runRemote_apply]
  have hidles : idles a (s.holding vs) = idles a s := rfl
  rw [hidles]
  split
  · rfl
  · exact withAgent_holding (indifferent_contained (hrun.withFrame owner s.scope.agent)) a hvs s

/-- One turn, which ends with the end of a pending `break`. -/
theorem runEach_single (remote : AgentRef → Exec RemoteResult) (stop : Bool) (a : AgentRef)
    (s : State) :
    runEach remote stop [a] s =
      if s.scope.flow.isInterrupting || s.machine.cancelled then .ok [] s
      else match remote a s with
        | .ok r t => .ok [r] (t.clear .leave)
        | .error e t => .error e t := by
  unfold runEach
  rw [bind_ok (rfl : interrupted s = .ok _ s)]
  split
  · rfl
  · cases h : remote a s with
    | ok r t =>
      rw [bind_ok h, bind_ok (rfl : takeFlow .leave t = .ok t.scope.flow (t.clear .leave))]
      split <;> rfl
    | error e t => rw [bind_error h]

/-- A dispatch with one target is the run for this target, and the end of a pending `break`. -/
theorem fanOut_single (hrun : Indifferent (run body)) (hbody : body ≠ []) (owner : String)
    (a : AgentRef) (stop : Bool) (s : State) :
    fanOut run owner body [a] .nil stop s =
      if s.scope.flow.isInterrupting || s.machine.cancelled then .ok [] s
      else match runRemote run owner body a s with
        | .ok r t => .ok [r] (t.clear .leave)
        | .error e t => .error e t := by
  have hne : ¬(body.isEmpty || [a].isEmpty) = true := by simpa using hbody
  -- The dispatch holds the missing hint and the target, which executes anyway.
  have hturn := runEach_single (runRemote run owner body) stop a (s.holding [.nil, .agent a])
  rw [runRemote_holding hrun owner a (by simp) s] at hturn
  rw [fanOut_apply hne]
  by_cases hi : (s.scope.flow.isInterrupting || s.machine.cancelled) = true
  · rw [if_pos hi]
    exact withHeld_eq_reheld (r := .ok [] s) (hturn.trans (if_pos hi))
  · rw [if_neg hi]
    replace hturn := hturn.trans (if_neg hi)
    cases h : runRemote run owner body a s with
    | ok r t =>
      obtain ⟨-, ht, -⟩ := (indifferent_runRemote hrun owner a s).ok h
      rw [h] at hturn
      refine (withHeld_eq_reheld (r := .ok [r] (t.clear .leave)) hturn).trans ?_
      rw [reheld, State.rehold_self (s := t.clear .leave) ht]
    | error e t =>
      obtain ⟨-, ht, -⟩ := (indifferent_runRemote hrun owner a s).error h
      rw [h] at hturn
      refine (withHeld_eq_reheld (r := .error e t) hturn).trans ?_
      rw [reheld, State.rehold_self ht]

/-- A frame that is pushed and popped is counted, and may be told by a trace. -/
theorem endsAs_frame (owner : String) (caller : Option AgentRef) {s : State}
    (hframes : s.scope.frames ≠ []) :
    s.EndsAs ⟨(s.scope.push owner caller).pop, (pushFrame owner caller s).machine⟩ := by
  obtain ⟨f, rest, hf⟩ := List.exists_cons_of_ne_nil hframes
  have hscope : (s.scope.push owner caller).pop =
      { s.scope with stats := (s.scope.push owner caller).pop.stats } := by
    simp only [Scope.pop, Scope.push, hf]
  have hmachine : (pushFrame owner caller s).machine =
      { s.machine with events := (pushFrame owner caller s).machine.events } := by
    unfold pushFrame
    dsimp only
    split <;> rfl
  have hreports : (pushFrame owner caller s).machine.reports = s.machine.reports := by
    unfold pushFrame
    dsimp only
    split
    · simp [Machine.reports, Machine.emit]
    · rfl
  refine ⟨?_, ?_, hreports.symm⟩
  · rw [hscope]
  · rw [hmachine]

/-- Running nothing on behalf of an agent changes nothing but that. -/
theorem runRemote_nil (hnil : run [] = pure .nil) (owner : String) (a : AgentRef) {s : State}
    (hframes : s.scope.frames ≠ []) :
    ∃ r t, runRemote run owner [] a s = .ok r t ∧ s.EndsAs t ∧ t.scope.flow = s.scope.flow := by
  rw [runRemote_apply]
  split
  case isTrue => exact ⟨_, s, rfl, .refl s, rfl⟩
  case isFalse hidle =>
    have hflow : s.scope.flow = .normal := by
      by_contra h
      exact hidle (by simp [idles, Flow.isInterrupting, h])
    have hbody (u : State) : contained (withFrame owner s.scope.agent (run [])) u =
        .ok ⟨.nil, true⟩ ⟨(u.scope.push owner s.scope.agent).pop,
          (pushFrame owner s.scope.agent u).machine⟩ := by
      rw [hnil]
      rfl
    by_cases ha : s.scope.isNewAgent a = true
    · let u : State := ⟨s.scope.pushAgent a, s.machine⟩
      refine ⟨_, _, (withAgent_new ha).trans (bracket_ok (hbody u)), ?_, ?_⟩
      · exact .popAgent (endsAs_frame owner _ (s := u) hframes)
      · dsimp only [Scope.popAgent]
        rw [Scope.flow_pop]
        exact (congrArg (Flow.clear · .die) hflow).trans hflow.symm
    · refine ⟨_, _, (withAgent_same ha).trans (hbody s), endsAs_frame owner _ hframes, ?_⟩
      exact Scope.flow_pop _

/-- A dispatch with one target ends as the run for this target does, and with its pending signal,
unless it has taken a `break`. -/
theorem fanOut_endsAs (hrun : Indifferent (run body)) (hnil : run [] = pure .nil) (owner : String)
    (a : AgentRef) (stop : Bool) {s : State} (hframes : s.scope.frames ≠ []) :
    let dispatch := fanOut run owner body [a] .nil stop
    let remote := runRemote run owner body a
    fault? dispatch s = fault? remote s ∧ (after dispatch s).EndsAs (after remote s) ∧
      ((after dispatch s).scope.flow = (after remote s).scope.flow ↔
        (fault? remote s = none → (after remote s).scope.flow = .leave →
          s.scope.flow = .leave)) := by
  intro dispatch remote
  by_cases hbody : body = []
  · -- The dispatch does not start at all, and the run for the target runs nothing.
    subst hbody
    have hdispatch : dispatch s = .ok [] s := rfl
    obtain ⟨r, t, hremote, hends, hflow⟩ := runRemote_nil hnil owner a hframes
    rw [fault?_ok hdispatch, fault?_ok hremote, after_ok hdispatch, after_ok hremote]
    exact ⟨rfl, hends, by simp [hflow]⟩
  have hdispatch : dispatch s =
      if s.scope.flow.isInterrupting || s.machine.cancelled then .ok [] s
      else match remote s with
        | .ok r t => .ok [r] (t.clear .leave)
        | .error e t => .error e t := fanOut_single hrun hbody owner a stop s
  by_cases hi : (s.scope.flow.isInterrupting || s.machine.cancelled) = true
  · rw [if_pos hi] at hdispatch
    have hremote : remote s = .ok .failed s :=
      (runRemote_apply owner a s).trans (if_pos (by rw [idles, hi, Bool.true_or]))
    rw [fault?_ok hdispatch, fault?_ok hremote, after_ok hdispatch, after_ok hremote]
    exact ⟨rfl, .refl s, by simp⟩
  · rw [if_neg hi] at hdispatch
    have hflow : s.scope.flow ≠ .leave := by
      intro h
      rw [h] at hi
      exact hi rfl
    cases h : remote s with
    | ok r t =>
      rw [h] at hdispatch
      rw [fault?_ok hdispatch, fault?_ok h, after_ok hdispatch, after_ok h]
      refine ⟨rfl, ⟨rfl, rfl, rfl⟩, ?_⟩
      have hclear : t.scope.flow.clear .leave = t.scope.flow ↔ t.scope.flow ≠ .leave := by
        cases t.scope.flow <;> decide
      refine hclear.trans ⟨fun hne _ h => absurd h hne, fun hne h => hflow (hne rfl h)⟩
    | error e t =>
      rw [h] at hdispatch
      rw [fault?_error hdispatch, fault?_error h, after_error hdispatch, after_error h]
      exact ⟨rfl, .refl t, by simp⟩

/-! ## Asking -/

theorem after_congr {α : Type} {x y : Exec α} {s t : State} (h : x s = y t) :
    after x s = after y t := by
  simp only [after, h]

theorem fault?_congr {α : Type} {x y : Exec α} {s t : State} (h : x s = y t) :
    fault? x s = fault? y t := by
  simp only [fault?, h]

theorem fault?_bind_pure {α β : Type} (x : Exec α) (g : α → β) (s : State) :
    fault? (x >>= fun a => pure (g a)) s = fault? x s := by
  cases h : x s with
  | ok a t =>
    have hend : (x >>= fun a => pure (g a)) s = .ok (g a) t := bind_ok h
    rw [fault?_ok hend, fault?_ok h]
  | error e t => rw [fault?_error (bind_error h), fault?_error h]

theorem fault?_bracket {α : Type} (enter leave : State → State) (x : Exec α) (s : State) :
    fault? (bracket enter leave x) s = fault? x (enter s) := by
  cases h : x (enter s) with
  | ok a t => rw [fault?_ok h, fault?_ok (bracket_ok h)]
  | error e t => rw [fault?_error h, fault?_error (bracket_error h)]

theorem runAsk_agent {one : Expr} {parallel : Option Expr} {s t : State} {a : AgentRef}
    (h : eval one s = .ok (.agent a) t) :
    runAsk run one parallel body s = (runRemote run "ask" body a >>= fun r => pure r.value) t := by
  unfold runAsk
  rw [bind_ok h]
  rfl

theorem runAsk_container {list : Expr} {s t : State} {v : Value}
    (h : eval list s = .ok v t) (hv : v.isContainer = true) :
    runAsk run list none body s =
      (withHeld [v] (fanOut run "ask" body (t.machine.store.agents v) .nil false) >>=
        fun _ => pure .nil) t := by
  unfold runAsk
  rw [bind_ok h]
  cases v with
  | list r | map r | matrix r | graph r => rfl
  | _ => cases hv

/-- Asking a list of one agent ends as asking the agent does, from the state in which the list has
been made and is held: with the same fault or none, and with the same world, containers, frames,
executing agents and reports. The pending signal is the same exactly if the single agent does not
leave a `break` pending that was not there before. -/
theorem ask_single_iff (n m : Nat) (body : Sequence) {list one : Expr} {s t : State} {v : Value}
    {a : AgentRef} (hframes : s.scope.frames ≠ []) (hlist : eval list s = .ok v t)
    (hv : v.isContainer = true) (ha : t.machine.store.agents v = [a])
    (hone : eval one (t.holding [v]) = .ok (.agent a) (t.holding [v])) :
    let many := statement n (sequence (m + 1)) (.ask list none body)
    let single := statement n (sequence (m + 1)) (.ask one none body)
    fault? many s = fault? single (t.holding [v]) ∧
      (after many s).EndsAs (after single (t.holding [v])) ∧
      ((after many s).scope.flow = (after single (t.holding [v])).scope.flow ↔
        (fault? single (t.holding [v]) = none →
          (after single (t.holding [v])).scope.flow = .leave → s.scope.flow = .leave)) := by
  intro many single
  let dispatch := fanOut (sequence (m + 1)) "ask" body [a] .nil false
  let remote := runRemote (sequence (m + 1)) "ask" body a
  have hmany : many s = (withHeld [v] dispatch >>= fun _ => pure .nil) t :=
    (runAsk_container hlist hv).trans (by rw [ha])
  have hsingle : single (t.holding [v]) = (remote >>= fun r => pure r.value) (t.holding [v]) :=
    runAsk_agent hone
  have hscope := (eval_keeps hlist).1
  obtain ⟨hfault, hends, hflow⟩ := fanOut_endsAs (indifferent_sequence (m + 1) body) rfl "ask" a
    false (s := t.holding [v]) (hscope ▸ hframes)
  let last := after dispatch (t.holding [v])
  have hafter : after many s = last.rehold last.machine.held.tail := by
    rw [after_congr hmany, after_bind_pure]
    exact after_bracket _ _ dispatch t
  have hafter' : after single (t.holding [v]) = after remote (t.holding [v]) := by
    rw [after_congr hsingle, after_bind_pure]
  have hfault' : fault? many s = fault? dispatch (t.holding [v]) := by
    rw [fault?_congr hmany, fault?_bind_pure]
    exact fault?_bracket _ _ dispatch t
  have hfault'' : fault? single (t.holding [v]) = fault? remote (t.holding [v]) := by
    rw [fault?_congr hsingle, fault?_bind_pure]
  rw [hafter, hafter', hfault', hfault'', ← hscope]
  exact ⟨hfault, hends.rehold _, hflow⟩

/-- The root of a world with a sheep, which a variable holds. -/
def sheepAtHand : State :=
  let w : World := { World.start ⟨"world", none, ["sheep"], false, [], []⟩ with
    agents := ⟨#[⟨"world", "world", none, .empty, false, false⟩,
      ⟨"sheep0", "sheep", none, .empty, false, false⟩]⟩ }
  ⟨(Scope.start ⟨0, "world"⟩ "main").declare "a" (.agent ⟨1, "sheep0"⟩),
    .start .standard w .empty⟩

/-- A `return` stays pending either way, and a `break` only where the sheep is asked alone. -/
theorem ask_single_iff_sheep :
    let sheep : Expr := .list [.var "a" .any] .any
    let t := after (eval sheep) sheepAtHand
    let many body := after (statement 1 (sequence 2) (.ask sheep none body)) sheepAtHand
    let single body := after (statement 1 (sequence 2) (.ask (.var "a" .any) none body))
      (t.holding [.list 0])
    ((many [.yield none]).EndsAs (single [.yield none]) ∧
      (many [.yield none]).scope.flow = (single [.yield none]).scope.flow) ∧
    (many [.leave]).EndsAs (single [.leave]) ∧
      (many [.leave]).scope.flow ≠ (single [.leave]).scope.flow := by
  intro sheep t many single
  have hlist : eval sheep sheepAtHand = .ok (.list 0) t := rfl
  have hone : eval (.var "a" .any) (t.holding [.list 0]) = .ok (.agent ⟨1, "sheep0"⟩) _ := rfl
  have hframes : sheepAtHand.scope.frames ≠ [] := List.cons_ne_nil _ _
  obtain ⟨-, hyield, hyieldFlow⟩ := ask_single_iff 1 1 [.yield none] hframes hlist rfl rfl hone
  obtain ⟨-, hleave, hleaveFlow⟩ := ask_single_iff 1 1 [.leave] hframes hlist rfl rfl hone
  exact ⟨⟨hyield, hyieldFlow.mpr (by decide +kernel)⟩,
    hleave, hleaveFlow.not.mpr (by decide +kernel)⟩

end Exec
end Habitat
