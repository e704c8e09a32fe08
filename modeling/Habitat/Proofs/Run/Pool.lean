import Habitat.Proofs.Run.Independence
import Habitat.Proofs.Run.Rescue
import Mathlib.Data.List.Basic

/-!
# Dispatch on the pool

A dispatch to many targets may run on workers. Each of them runs the body for one target in a copy
of the caller's scope; when a worker runs is up to the pool, so any order of the targets has to be
reckoned with. For bodies that are local to their targets it makes no difference: the pool gives the
results, the agents and the reports of a dispatch that runs one after another, but for the numbers
of new containers. It does make one where a failure stops the turns that are taken one after
another: workers know nothing of each other.

* `fanOut_of_local`, `pooled_of_local`: what both end with, if the bodies are local.
* `pool_refines_sequence`: the two agree.
-/
namespace Habitat

open Exec Discipline

theorem Exec.firstError_map_ok (rs : List RemoteResult) : firstError (rs.map .ok) = .ok rs := by
  induction rs with
  | nil => rfl
  | cons r rest ih =>
    rw [List.map_cons, firstError, ih]
    rfl

/-! ## Both ways -/

section
variable {run : Sequence → Exec Value} {owner : String} {body : Sequence}

/-- A worker takes the turn in a copy of the scope, and only the machine is left of it. -/
theorem Turn.take_bodyInCopy (a : AgentRef) (u : State) :
    take (bodyInCopy run owner body) a u =
      let τ := take (bodyFor run owner body) a (u.copyFor a)
      ⟨a, u, τ.ending, ⟨u.scope, τ.after.release.machine⟩⟩ := by
  unfold take
  split
  · rw [if_pos ‹_›]
    rfl
  · rw [if_neg ‹_›, bodyInCopy]
    cases h : bodyFor run owner body a (u.copyFor a) with
    | ok v t =>
      rw [inCopy_ok h]
      rfl
    | error e t =>
      rw [inCopy_error h]
      cases e <;> rfl

variable {targets : List AgentRef} {s : State} {E : Estates targets s} {a : AgentRef}

/-- To a target its worker's copy of the scope is as good as the scope. -/
theorem Estates.Alike.copyFor {u : State} (h : E.Alike a u) (hs : s.scope.flow = .normal) :
    E.Alike a (u.copyFor a) :=
  ⟨⟨h.scope.frames, h.scope.agents, hs.symm, h.scope.tryDepth⟩, h.outline, h.extent, h.seen,
    h.stays⟩

theorem Local.follows_copy (h : Local E (bodyFor run owner body) a)
    (hs : s.scope.flow = .normal) :
    Follows E (bodyFor run owner body) (bodyInCopy run owner body) a := by
  intro u hu
  have hconfined := h.confined _ (hu.copyFor hs)
  have hrepeats := h.repeated _ (hu.copyFor hs)
  have hbefore := Turn.take_before (bodyFor run owner body) a (u.copyFor a)
  have htarget := Turn.take_target (bodyFor run owner body) a (u.copyFor a)
  rw [Turn.take_bodyInCopy]
  generalize Turn.take (bodyFor run owner body) a (u.copyFor a) = τ at *
  obtain ⟨target, before, ending, v⟩ := τ
  obtain rfl : u.copyFor a = before := hbefore.symm
  obtain rfl : a = target := htarget.symm
  exact ⟨⟨.refl u.scope, hconfined.outline, hconfined.extent, hconfined.kept, hconfined.stays⟩,
    ⟨hrepeats.ending, hrepeats.extent, hrepeats.written, hrepeats.reports⟩⟩

/-- Nothing keeps the next target from its turn, unless a failure does. -/
theorem Local.isLast {x : AgentRef → Exec Value} (h : Local E x a) {u : State} (hu : E.Alike a u)
    (hc : s.machine.cancelled = false) {stop : Bool}
    (hstop : stop = false ∨ (Turn.take x a s).result.passed = true) :
    (Turn.take x a u).isLast false stop = false := by
  have hcancelled : (Turn.take x a u).after.machine.cancelled = false := by
    have houtline := (h.confined u hu).outline
    rw [Turn.take_before, hu.outline] at houtline
    have hcancelled := congrArg Machine.cancelled houtline
    exact hcancelled.trans hc
  have hpassed := congrArg RemoteResult.passed (Turn.result_renumber (h.repeated u hu).ending)
  rw [Turn.isLast, hcancelled, hpassed]
  rcases hstop with rfl | hpass
  · rfl
  · simp [RemoteResult.renumber, hpass]

/-- Outside of `try` every turn gives a result. -/
theorem Turn.map_outcome (τs : List Turn) :
    τs.map (·.outcome false) = (τs.map Turn.result).map .ok := by
  rw [List.map_map]
  refine List.map_congr_left fun τ _ => ?_
  obtain ⟨a, s, ending, t⟩ := τ
  cases ending <;> rfl

/-- What a dispatch gives back for a target, if the targets have their turns in some order. -/
def resultIn (x : AgentRef → Exec Value) (s : State) (order : List AgentRef) (a : AgentRef) :
    RemoteResult := (Turn.take x a s).result.renumber (placement x s order a)

theorem perm_map_fst {order : List (AgentRef × Nat)} (hperm : order.Perm targets.zipIdx) :
    (order.map Prod.fst).Perm targets := by
  have hfst := hperm.map Prod.fst
  rwa [List.zipIdx_map_fst] at hfst

section
variable (hrun : ∀ body, posture.Safe (run body)) (hne : ¬(body.isEmpty || targets.isEmpty) = true)
  (hs : s.scope.flow = .normal) (htry : s.scope.tryDepth = 0)
  (hnodup : (targets.map (·.id)).Nodup) (hlocal : ∀ a ∈ targets, Local E (bodyFor run owner body) a)
include hrun hne hs htry hnodup hlocal

/-- One after another. -/
theorem fanOut_of_local {hint : Value} {stop : Bool} (hc : s.machine.cancelled = false)
    (hseq : runsInParallel (parallelThreshold hint s.machine.config) targets.length = false)
    (hstop : stop = false ∨
      ∀ a ∈ targets.dropLast, (Turn.take (bodyFor run owner body) a s).result.passed = true) :
    ∃ t, fanOut run owner body targets hint stop s =
        .ok (targets.map (resultIn (bodyFor run owner body) s targets)) t ∧
      Progress E (bodyFor run owner body) targets targets t := by
  have hin : s.scope.inTry = false := by simp [Scope.inTry, htry]
  have hgoes : ∀ a ∈ targets.dropLast, ∀ u, E.Alike a u →
      (Turn.take (bodyFor run owner body) a u).isLast false stop = false := fun a ha u hu =>
    (hlocal a (List.dropLast_subset _ ha)).isLast hu hc (hstop.imp_right (· a ha))
  obtain ⟨hend, hquiet, hresults⟩ :=
    ((Progress.start E (bodyFor run owner body) targets).holding (hint :: targets.map .agent)).turns
      (·.isLast false stop) rfl (fun _ h => h) hnodup hs hlocal
      (fun a ha => (hlocal a ha).follows) hgoes
  have heach := runEach_eq_conclude hrun owner body stop targets
    (s := s.holding (hint :: targets.map .agent)) hs hc hin hquiet
  refine ⟨_, ?_, hend.release⟩
  rw [fanOut_apply hne, hseq, if_neg Bool.false_ne_true]
  exact (bracket_ok heach).trans (congrArg (EStateM.Result.ok · _) hresults)

/-- On workers that run in some order. -/
theorem pooled_of_local (hint : Value) {order : List (AgentRef × Nat)}
    (hperm : order.Perm targets.zipIdx) :
    ∃ t, pooled run owner body targets hint order s =
        .ok (targets.map (resultIn (bodyFor run owner body) s (order.map Prod.fst))) t ∧
      Progress E (bodyFor run owner body) (order.map Prod.fst) (order.map Prod.fst) t := by
  have hin : s.scope.inTry = false := by simp [Scope.inTry, htry]
  have hperm' := perm_map_fst hperm
  have hnodup' : ((order.map Prod.fst).map (·.id)).Nodup := (hperm'.map _).nodup_iff.mpr hnodup
  have hsub : ∀ a ∈ order.map Prod.fst, a ∈ targets := fun a => hperm'.mem_iff.mp
  obtain ⟨hend, hquiet, hresults⟩ :=
    ((Progress.start E (bodyFor run owner body) (order.map Prod.fst)).holding
      (hint :: targets.map .agent)).turns
      (fun _ => false) rfl hsub hnodup' hs (fun a ha => hlocal a (hsub a ha))
      (fun a ha => (hlocal a (hsub a ha)).follows_copy hs) (fun _ _ _ _ => rfl)
  have hforked := runForked_eq_turns hrun owner body (order.map Prod.fst)
    (s := s.holding (hint :: targets.map .agent)) hin fun τ hτ => (hquiet τ hτ).finished
  dsimp only at hforked
  rw [Turn.map_outcome, hresults, List.map_map, List.map_map] at hforked
  refine ⟨_, ?_, hend.release⟩
  unfold pooled
  rw [if_neg hne]
  refine bracket_ok ((bind_ok hforked).trans ?_)
  rw [inOrder_map, inOrder_self hperm, ← List.map_map, List.zipIdx_map_fst, ← List.map_map,
    firstError_map_ok]
  rfl

end

/-- The result for a target in one order becomes that in another. -/
theorem resultIn_reorder {x : AgentRef → Exec Value} {order order' : List AgentRef}
    (hnodup : (order.map (·.id)).Nodup) (ha : a ∈ order) (hlocal : Local E x a) :
    (resultIn x s order a).renumber (reorder x s order order') = resultIn x s order' a := by
  have hresult := hlocal.result
  have hnumbers := reorder_placement (x := x) (s := s) order' hnodup ha
  unfold resultIn Turn.result RemoteResult.renumber
  cases h : (Turn.take x a s).ending with
  | returned v =>
    rw [h] at hresult
    simp only [Value.renumber_renumber, Value.renumber_congr hnumbers hresult]
  | _ => rfl

end

/-! ## A flock that packs -/

/-- The agents own themselves. -/
def Estates.selves (targets : List AgentRef) (s : State) : Estates targets s where
  owns a p := p = .agent a.id
  stays _ := False
  self _ _ := rfl
  old := by
    rintro a - p rfl
    exact fun h => h
  apart := by
    rintro a - b - hne p rfl h
    exact hne (Place.agent.inj h)

/-- A target may read and write what is its own. -/
theorem Estates.permits_selves (targets : List AgentRef) (s : State) {a : AgentRef} {c : Cell}
    (h : c.place = .agent a.id) :
    (selves targets s).Permits a (.read c) ∧ (selves targets s).Permits a (.write c) := by
  refine ⟨.inr (.inl fun b _ hne hb => ?_), .inr ⟨h, fun hc => hc⟩⟩
  exact hne (Place.agent.inj (hb.symm.trans h))

/-- Puts a list of the agent into its bag. -/
def packing : Sequence := [.assign none "bag" (.list [.selfAgent] .agent)]

/-- Three sheep: one with a bag, a dead one, and one without a bag. -/
def flock : State :=
  ⟨.start ⟨0, "world"⟩ "main", .start .standard
    { World.start ⟨"world", none, ["sheep"], false, [], []⟩ with
      agents := ⟨#[⟨"world", "world", none, .empty, false, false⟩,
        ⟨"sheep0", "sheep", none, ⟨[("bag", .nil)]⟩, false, false⟩,
        ⟨"sheep1", "sheep", none, .empty, true, false⟩,
        ⟨"sheep2", "sheep", none, .empty, false, false⟩]⟩ } .empty⟩

def sheep : List AgentRef := [⟨1, "sheep0"⟩, ⟨2, "sheep1"⟩, ⟨3, "sheep2"⟩]

theorem closed_flock : flock.Closed :=
  ⟨Machine.closed_of_objects (by decide +kernel), by decide⟩

theorem secluded_packing : ∀ a ∈ sheep,
    Secluded (Estates.selves sheep flock) 1 "ask" packing a := by
  have hlog : ∀ a ∈ sheep, ∀ c ∈ turnLog (sequenceLog 1 packing) "ask" a flock,
      c = .read (.attr a.id "bag") ∨ c = .write (.attr a.id "bag") := by decide +kernel
  have hquiet : ∀ a ∈ sheep, (Turn.take (bodyFor (sequence 1) "ask" packing) a flock).Quiet := by
    decide +kernel
  have hframes : ∀ a ∈ sheep,
      (Turn.take (bodyFor (sequence 1) "ask" packing) a flock).after.scope.frames =
        flock.scope.frames := by
    unfold sheep
    simp only [List.forall_mem_cons]
    exact ⟨rfl, rfl, rfl, nofun⟩
  intro a ha
  refine ⟨fun c hc => ?_, (hquiet a ha).finished, hframes a ha, (hquiet a ha).flow⟩
  obtain ⟨hread, hwrite⟩ :=
    Estates.permits_selves sheep flock (a := a) (c := .attr a.id "bag") rfl
  rcases hlog a ha c hc with rfl | rfl
  · exact hread
  · exact hwrite

/-! ## The pool and the sequence -/

/-- A dispatch to distinct targets, from a scope that is not interrupted and outside of `try`, of a
body whose run for each of the living targets keeps to what belongs to the target. On workers, in
whatever order they run, it ends with the results, the agents, the containers and the reports with
which it ends one after another, but for the numbers of new containers and the order of the reports;
and neither changes the caller's frames, agents or signal. If failures stop the turns that are taken
one after another, every turn but the last has to pass. -/
theorem pool_refines_sequence (n : Nat) (owner : String) (body : Sequence)
    {targets : List AgentRef} {order : List (AgentRef × Nat)} (hint sequential : Value)
    (stop : Bool) {s : State}
    (hs : s.scope.flow = .normal) (hc : s.machine.cancelled = false) (htry : s.scope.tryDepth = 0)
    (hclosed : s.Closed) (hnodup : (targets.map (·.id)).Nodup) (E : Estates targets s)
    (hbody : ∀ a ∈ targets, s.machine.world.isDead a = false → Secluded E n owner body a)
    (hperm : order.Perm targets.zipIdx)
    (hseq : runsInParallel (parallelThreshold sequential s.machine.config) targets.length = false)
    (hstop : stop = false ∨ ∀ a ∈ targets.dropLast,
      (Turn.take (bodyFor (sequence n) owner body) a s).result.passed = true) :
    (runsInParallel (parallelThreshold hint s.machine.config) targets.length = true →
      fanOut (sequence n) owner body targets hint stop s =
        pooled (sequence n) owner body targets hint targets.zipIdx s) ∧
    ∃ rs t t' ρ, fanOut (sequence n) owner body targets sequential stop s = .ok rs t ∧
      pooled (sequence n) owner body targets hint order s = .ok (rs.map (·.renumber ρ)) t' ∧
      (body ≠ [] → rs.length = targets.length) ∧
      (∀ k i, i < s.machine.extent k → ρ k i = i) ∧
      t.machine.Renumbered ρ t'.machine ∧
      t'.machine.reports.Perm t.machine.reports ∧
      s.scope.Alike t.scope ∧ s.scope.Alike t'.scope := by
  refine ⟨fanOut_eq_pooled stop, ?_⟩
  by_cases hne : (body.isEmpty || targets.isEmpty) = true
  · have hfan : fanOut (sequence n) owner body targets sequential stop s = .ok [] s := by
      rw [fanOut, if_pos hne]
      rfl
    have hpool : pooled (sequence n) owner body targets hint order s = .ok [] s := by
      rw [pooled, if_pos hne]
      rfl
    have hlength : body ≠ [] → 0 = targets.length := fun hbody => by
      have htargets : targets = [] := by simpa [hbody] using hne
      rw [htargets, List.length_nil]
    exact ⟨[], s, s, fun _ i => i, hfan, hpool, hlength, fun _ _ _ => rfl,
      .refl hclosed.machine, .refl _, .refl s.scope, .refl s.scope⟩
  · have hall : ∀ a ∈ targets, Local E (bodyFor (sequence n) owner body) a := fun a ha => by
      cases hdead : s.machine.world.isDead a with
      | true => exact local_of_idle ha (by rw [hdead, Bool.or_true]) hclosed.machine
      | false => exact local_of_secluded (hbody a ha hdead) ha hclosed hs
    obtain ⟨t, hfan, hend⟩ :=
      fanOut_of_local (posture_sequence n) hne hs htry hnodup hall hc hseq hstop
    obtain ⟨t', hpool, hend'⟩ :=
      pooled_of_local (posture_sequence n) hne hs htry hnodup hall hint hperm
    have hperm' := perm_map_fst hperm
    refine ⟨_, t, t', reorder (bodyFor (sequence n) owner body) s targets (order.map Prod.fst),
      hfan, hpool.trans ?_, fun _ => List.length_map .., fun _ _ => reorder_of_lt,
      hend.renumbered hend' hnodup hperm'.symm hclosed.machine hall, ?_, hend.scope, hend'.scope⟩
    · rw [List.map_map]
      refine congrArg (EStateM.Result.ok · t') (List.map_congr_left fun a ha => ?_)
      exact (resultIn_reorder hnodup ha (hall a ha)).symm
    · rw [hend.reports, hend'.reports]
      exact (hperm'.flatMap_right _).append_left _

/-- One after another, and by workers in the opposite order: two lists are made, the second of them
in a turn that fails. -/
theorem pool_refines_sequence_flock :
    ∃ rs t t' ρ, fanOut (sequence 1) "ask" packing sheep .nil false flock = .ok rs t ∧
      pooled (sequence 1) "ask" packing sheep (.int 1) sheep.zipIdx.reverse flock =
        .ok (rs.map (·.renumber ρ)) t' ∧
      t.machine.Renumbered ρ t'.machine ∧ t'.machine.reports.Perm t.machine.reports ∧
      rs.map (·.passed) = [true, false, false] ∧ t.machine.extent .list = 2 ∧
      t.machine.reports.map (·.agent) = [some "sheep2"] := by
  obtain ⟨-, rs, t, t', ρ, hfan, hpool, -, -, hrenumbered, hreports, -⟩ :=
    pool_refines_sequence 1 "ask" packing (.int 1) .nil false (s := flock) rfl rfl rfl
      closed_flock (by decide) (.selves sheep flock) (fun a ha _ => secluded_packing a ha)
      (List.reverse_perm sheep.zipIdx) rfl (.inl rfl)
  have hpassed : (value? (fanOut (sequence 1) "ask" packing sheep .nil false) flock).map
      (·.map (·.passed)) = some [true, false, false] := by decide +kernel
  have hlists : (after (fanOut (sequence 1) "ask" packing sheep .nil false) flock).machine.extent
      .list = 2 := by decide +kernel
  have hagents : (after (fanOut (sequence 1) "ask" packing sheep .nil false)
      flock).machine.reports.map (·.agent) = [some "sheep2"] := by decide +kernel
  rw [value?_ok hfan] at hpassed
  rw [after_ok hfan] at hlists hagents
  exact ⟨rs, t, t', ρ, hfan, hpool, hrenumbered, hreports, Option.some.inj hpassed, hlists, hagents⟩

/-- Where failures stop the turns that are taken one after another, workers go on: the last sheep
has a result from its worker, and none after the dead sheep before it. -/
theorem pool_ignores_failures :
    flock.scope.flow = .normal ∧ flock.machine.cancelled = false ∧ flock.scope.tryDepth = 0 ∧
      flock.Closed ∧ (sheep.map (·.id)).Nodup ∧
      (∀ a ∈ sheep, flock.machine.world.isDead a = false →
        Secluded (Estates.selves sheep flock) 1 "ask" packing a) ∧
      ∃ rs t rs' t', fanOut (sequence 1) "ask" packing sheep .nil true flock = .ok rs t ∧
        fanOut (sequence 1) "ask" packing sheep (.int 1) true flock = .ok rs' t' ∧
        rs.length = 2 ∧ rs'.length = 3 := by
  have hseq : (value? (fanOut (sequence 1) "ask" packing sheep .nil true) flock).map
      List.length = some 2 := by decide +kernel
  have hpar : (value? (fanOut (sequence 1) "ask" packing sheep (.int 1) true) flock).map
      List.length = some 3 := by decide +kernel
  obtain ⟨rs, hrs, hlength⟩ := Option.map_eq_some_iff.mp hseq
  obtain ⟨rs', hrs', hlength'⟩ := Option.map_eq_some_iff.mp hpar
  obtain ⟨t, hfan⟩ := eq_ok_of_value? hrs
  obtain ⟨t', hfan'⟩ := eq_ok_of_value? hrs'
  exact ⟨rfl, rfl, rfl, closed_flock, by decide, fun a ha _ => secluded_packing a ha, rs, t, rs',
    t', hfan, hfan', hlength, hlength'⟩

end Habitat
