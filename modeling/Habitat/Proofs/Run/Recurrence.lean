import Habitat.Proofs.Run.Relocation
import Habitat.Proofs.Run.Repetition

/-!
# Sequences are replayed

One lemma for each statement, and by induction on the fuel one for every sequence: as long as the
run accesses nothing but what the target is permitted, the replay does the same.

A run that moves agents, creates them or asks to stop is not replayed: that is `Access.shared`,
which no target is permitted.

* `Replay.mimics_fanOut`: bodies for other agents.
* `Replay.mimics_statement`, `Replay.mimics_sequence`: statements and sequences.
-/
namespace Habitat

open Exec

variable {targets : List AgentRef} {s : State}

namespace Replay
variable {K : Replay targets s} {vs : List Value} {l : Log} {b : Bool} {t t' : State}

/-! ## Dispatch -/

theorem Tracks.failed (ht : K.Tracks b t t') :
    K.Agrees b t.machine.extent (.ok RemoteResult.failed t) (.ok RemoteResult.failed t') :=
  ht.ok RemoteResult.failed (List.forall_mem_singleton.mpr trivial) rfl

theorem mimics_contained {x : Exec Value} (hx : K.Mimics vs l x x) :
    K.Mimics vs l (contained x) (contained x) := by
  refine hx.attempt.andThen fun r => ?_
  cases r with
  | ok v => exact mimics_pure (RemoteResult.mk v true) (by simp)
  | error e =>
    intro b t t' ht hvs hP
    have htry : t'.scope.inTry = t.scope.inTry :=
      congrArg (fun n => decide (0 < n)) ht.scope.tryDepth
    refine (congrArg₂ (K.Agrees b t.machine.extent) (scope_bind_apply _ t)
      (scope_bind_apply _ t')).mpr ?_
    rw [htry]
    cases t.scope.inTry with
    | true => exact ht.error _
    | false =>
      exact ((mimics_report .error e.message).andThen fun _ _ _ _ ht _ _ => ht.failed) b t t' ht hvs
        hP

section
variable {log : Log} {run : Sequence → Exec Value} {body : Sequence}
  (hrun : K.Mimics [] log (run body) (run body))
include hrun

theorem mimics_turn (owner : String) (a : AgentRef) :
    K.Mimics vs (turnLog log owner a)
      (scope >>= fun s => withAgent a (contained (withFrame owner s.agent (run body))))
      (scope >>= fun s => withAgent a (contained (withFrame owner s.agent (run body)))) := by
  intro b t t' ht hvs hP
  rw [scope_bind_apply, scope_bind_apply, ht.scope.agent]
  exact (mimics_contained (hrun.widen.withFrame owner t.scope.agent)).withAgent a b t t' ht hvs hP

theorem mimics_runRemote (owner : String) (a : AgentRef) :
    K.Mimics vs (remoteLog log owner a) (runRemote run owner body a)
      (runRemote run owner body a) := by
  intro b t t' ht hvs hP
  have hrun' (t : State) : runRemote run owner body a t =
      if t.scope.flow.isInterrupting || t.machine.cancelled || t.machine.world.isDead a then
        .ok .failed t
      else (scope >>= fun s => withAgent a (contained (withFrame owner s.agent (run body)))) t := by
    change (if _ then _ else _ : Exec RemoteResult) t = _
    split <;> rfl
  rw [hrun', hrun', ht.scope.flow, ht.machine.cancelled]
  unfold remoteLog at hP
  cases hi : t.scope.flow.isInterrupting || t.machine.cancelled with
  | true => exact ht.failed
  | false =>
    rw [hi, if_neg Bool.false_ne_true, List.forall_mem_cons] at hP
    rw [Bool.false_or, Bool.false_or, ht.machine.world.dead a hP.1]
    cases hdead : t.machine.world.isDead a with
    | true => exact ht.failed
    | false =>
      rw [hdead, if_neg Bool.false_ne_true] at hP
      exact mimics_turn hrun owner a b t t' ht hvs hP.2

omit hrun in
theorem mimics_runEach {log : AgentRef → Log} {remote : AgentRef → Exec RemoteResult}
    (h : ∀ a, K.Mimics [] (log a) (remote a) (remote a)) (stop : Bool) (as : List AgentRef) :
    K.Mimics vs (eachLog log remote stop as) (runEach remote stop as) (runEach remote stop as) := by
  induction as generalizing vs with
  | nil => exact mimics_pure ([] : List RemoteResult) (by simp)
  | cons a rest ih =>
    refine (mimics_interrupted).after fun i =>
      .ite (fun _ => mimics_pure ([] : List RemoteResult) (by simp)) fun _ => ?_
    refine (h a).widen.bind fun r => (mimics_takeFlow .leave).after fun f => ?_
    refine .ite (fun _ => mimics_pure [r] (by simp)) fun _ => ?_
    exact (ih.withHeld _ _).andThen fun rs => mimics_pure (r :: rs) (by simp)

omit hrun in
theorem mimics_runForked {log : AgentRef → Log} {remote : AgentRef → Exec RemoteResult}
    (h : ∀ a, K.Mimics [] (log a) (remote a) (remote a)) (as : List AgentRef) :
    K.Mimics vs (forksLog log remote as) (runForked remote as) (runForked remote as) := by
  induction as generalizing vs with
  | nil => exact mimics_pure ([] : List (Except ExecError RemoteResult)) (by simp)
  | cons a rest ih =>
    intro b t t' ht hvs hP
    refine Mimics.bind ((h a).widen.forked _ _) (fun r => ?_) b t t' ht hvs hP
    exact (ih.withHeld _ _).andThen fun rs => mimics_pure (r :: rs) (by simp)

omit hrun in
/-- The first error stays the first one. -/
theorem firstError_renumber (ρ : Renumbering) (rs : List (Except ExecError RemoteResult)) :
    firstError (Carries.renumber ρ rs) = Carries.renumber ρ (firstError rs) := by
  induction rs with
  | nil => rfl
  | cons r rest ih =>
    cases r with
    | error e => rfl
    | ok r =>
      refine (congrArg (Except.map (Carries.renumber ρ r :: ·)) ih).trans ?_
      rw [firstError]
      cases firstError rest <;> rfl

omit hrun in
theorem values_firstError (rs : List (Except ExecError RemoteResult)) :
    Carries.values (firstError rs) ⊆ Carries.values rs := by
  induction rs with
  | nil => exact List.Subset.refl _
  | cons r rest ih =>
    cases r with
    | error e => exact List.nil_subset _
    | ok r =>
      rw [firstError]
      cases hrest : firstError rest with
      | error e => exact List.nil_subset _
      | ok rs =>
        rw [hrest] at ih
        exact List.cons_subset_cons _ ih

omit hrun in
theorem parallelThreshold_renumber (ρ : Renumbering) (hint : Value) (config : Config) :
    parallelThreshold (hint.renumber ρ) config = parallelThreshold hint config := by
  cases hint <;> rfl

theorem mimics_fanOut (owner : String) (as : List AgentRef) (hint : Value) (stop : Bool) :
    K.Mimics vs (dispatchLog log run owner body as hint stop) (fanOut run owner body as hint stop)
      (fanOut run owner body as (hint.renumber K.numbers) stop) := by
  have hremote (a : AgentRef) : K.Mimics [] (remoteLog log owner a) (runRemote run owner body a)
      (runRemote run owner body a) := mimics_runRemote hrun owner a
  refine .ite (fun _ => mimics_pure ([] : List RemoteResult) (by simp)) fun _ => .withHeld ?_ _ _
  intro b t t' ht hvs hP
  rw [machine_bind_apply, machine_bind_apply, ht.machine.config, parallelThreshold_renumber]
  dsimp only at hP
  split at hP
  case isTrue hparallel =>
    rw [if_pos hparallel]
    refine Mimics.andThen (mimics_runForked hremote as) (fun rs => ?_) b t t' ht hvs hP
    rw [firstError_renumber]
    exact mimics_lift _ fun v hv => List.mem_append_left _ (values_firstError rs hv)
  case isFalse hsequential =>
    rw [if_neg hsequential]
    exact mimics_runEach hremote stop as b t t' ht hvs hP

end

/-! ## Ask and create -/

/-- Runs a body for all agents that a value stands for. -/
def askAll (run : Sequence → Exec Value) (v : Value) (parallel : Option Expr) (body : Sequence)
    (as : List AgentRef) : Exec Value := do
  let hint ← evalOrNil parallel
  let _ ← withHeld [v] (fanOut run "ask" body as hint false)
  return .nil

/-- Runs a body for the agents in a value, which is a container or an error. -/
def askEach (run : Sequence → Exec Value) (v : Value) (parallel : Option Expr) (body : Sequence) :
    Exec Value := do
  let s ← get
  if v.isContainer then askAll run v parallel body (s.machine.store.agents v)
  else fail (.notAnAgent "ask" (← text v))

section
variable {log : Sequence → Log} {run : Sequence → Exec Value}
  (hrun : ∀ body, K.Mimics [] (log body) (run body) (run body))
include hrun

theorem mimics_askAll (v : Value) (parallel : Option Expr) (body : Sequence) (as : List AgentRef) :
    K.Mimics vs (askAllLog log run v parallel body as) (askAll run v parallel body as)
      (askAll run (v.renumber K.numbers) parallel body as) := by
  refine (mimics_evalOrNil parallel).bind fun hint => ?_
  refine ((mimics_fanOut (hrun body) "ask" as hint false).withHeld _ _).andThen fun _ => ?_
  exact mimics_flat rfl

theorem mimics_askEach {v : Value} (parallel : Option Expr) (body : Sequence)
    (hv : v ∈ vs) :
    K.Mimics vs
      (if v.isContainer then
        fun s => v.look ++ askAllLog log run v parallel body (s.machine.store.agents v) s
      else textLog v)
      (askEach run v parallel body) (askEach run (v.renumber K.numbers) parallel body) := by
  intro b t t' ht hvs hP
  unfold askEach
  rw [get_bind_apply, get_bind_apply, Value.isContainer_renumber]
  split at hP
  case isTrue hcontainer =>
    rw [List.forall_mem_append] at hP
    rw [if_pos hcontainer, if_pos hcontainer, ht.machine.store.agents hP.1]
    exact mimics_askAll hrun v parallel body _ b t t' ht hvs hP.2
  case isFalse hother =>
    rw [if_neg hother, if_neg hother]
    exact (mimics_text hv).andThen (fun x => mimics_fail _) b t t' ht hvs hP

theorem mimics_runAsk (target : Expr) (parallel : Option Expr) (body : Sequence) :
    K.Mimics vs (askLog log run target parallel body) (runAsk run target parallel body)
      (runAsk run target parallel body) := by
  refine (mimics_eval target).bind fun v => ?_
  cases v with
  | agent a =>
    exact (mimics_runRemote (hrun body) "ask" a).andThen fun r => mimics_pure r.value (by simp)
  | species name =>
    intro b t t' ht hvs hP
    rw [List.forall_mem_append] at hP
    have hreached : t'.machine.world.reachable (holds t') t'.scope.agent name =
        t.machine.world.reachable (holds t) t.scope.agent name := by
      rw [ht.scope.agent]
      exact ht.machine.world.reachable hP.1 _
    have hsame := congrArg (askAll run (.species name) parallel body · t') hreached
    have hask := mimics_askAll hrun (.species name) parallel body _ b t t' ht hvs hP.2
    exact (congrArg (K.Agrees b t.machine.extent _) hsame).mpr hask
  | nil => exact fun _ _ _ ht _ _ => ht.error _
  | _ => exact mimics_askEach hrun parallel body List.mem_cons_self

omit hrun in
/-- The number comes first, and if none are asked for nothing else happens. -/
theorem createAgents_eq_bind (f : CreateFacets) :
    ∃ create : Option Int → Exec (Option AgentRef × List AgentRef),
      createAgents f = askedNumber f >>= create ∧
      ∀ count, (f.source.isNone && count.all (· ≤ 0)) = true → create count = pure (none, []) := by
  unfold createAgents
  extract_lets create
  refine ⟨create, ?_, fun count h => if_pos h⟩
  unfold askedNumber
  cases f.number <;> simp

omit hrun in
theorem mimics_askedNumber (f : CreateFacets) :
    K.Mimics vs (optionLog f.number) (askedNumber f) (askedNumber f) := by
  unfold askedNumber
  cases f.number with
  | some e =>
    refine (mimics_eval e).andThen fun v => ?_
    simp only [Carries.renumber, Value.asInt_renumber]
    exact mimics_plain _
  | none => exact mimics_plain _

omit hrun in
theorem mimics_createAgents (f : CreateFacets) :
    K.Mimics vs (birthLog f) (createAgents f) (createAgents f) := by
  obtain ⟨create, hcreate, hnone⟩ := createAgents_eq_bind f
  rw [hcreate]
  refine (mimics_askedNumber f).bind fun count => ?_
  intro b t t' ht hvs hP
  split at hP
  case isTrue hcount =>
    have hcreated := hnone count hcount
    simp only [Carries.renumber, hcreated]
    exact ht.ok (none, []) (List.forall_mem_nil _) rfl
  case isFalse => exact absurd (hP _ List.mem_cons_self) id

theorem mimics_runCreate (f : CreateFacets) (body : Sequence) :
    K.Mimics vs (createLog log run f body) (runCreate run f body) (runCreate run f body) := by
  refine (mimics_createAgents f).bind fun r => ?_
  obtain ⟨host, as⟩ := r
  have hend {l : Log} {ws : List Value} : K.Mimics ws l
      (do let created ← agentList as; store f.returns created; return created)
      (do let created ← agentList as; store f.returns created; return created) := by
    refine Mimics.andThen ?_ fun created =>
      (mimics_store f.returns (by simp)).andThen fun _ => mimics_pure created (by simp)
    exact mimics_agentList as
  cases host with
  | none => exact hend
  | some h =>
    refine Mimics.andThen (.withHeld ?_ _ _) fun _ => hend
    refine (mimics_evalOrNil f.parallel).bind fun hint => ?_
    exact (mimics_fanOut (hrun body) "create" as hint false).andThen fun _ => mimics_plain ()

end

/-! ## Moves -/

/-- Only an agent that is stuck can be moved: it stays where it is. -/
theorem mimics_moveAgent (a : AgentRef) (p : Population) :
    K.Mimics vs (moveLog a) (moveAgent a p) (moveAgent a p) := by
  intro b t t' ht hvs hP
  unfold moveLog at hP
  split at hP
  case isTrue hstuck =>
    have hstuck' := hstuck
    rw [← ht.machine.policy] at hstuck'
    rw [moveAgent_stuck hstuck, moveAgent_stuck hstuck']
    exact ht.ok (Except.error _) (List.forall_mem_nil _) rfl
  case isFalse => exact absurd (hP _ List.mem_cons_self) id

theorem mimics_moveAll {log : AgentRef → Log} {destination : AgentRef → Exec (Option Population)}
    (h : ∀ a, K.Mimics [] (log a) (destination a) (destination a)) (as : List AgentRef) :
    K.Mimics vs (movesLog log destination as) (moveAll destination as)
      (moveAll destination as) := by
  induction as generalizing vs with
  | nil => exact mimics_plain _
  | cons a rest ih =>
    refine (h a).widen.bind fun p => ?_
    cases p with
    | none => exact ih.andThen fun r => mimics_plain _
    | some p =>
      refine (mimics_moveAgent a p).bind fun r => ?_
      cases r <;> exact ih.andThen fun r => mimics_plain _

theorem mimics_reportRejected (verb : String) (rejected : List AgentRef) (reason : String) :
    K.Mimics vs l (reportRejected verb rejected reason) (reportRejected verb rejected reason) := by
  unfold reportRejected
  split
  · exact mimics_plain ()
  intro b t t' ht hvs hP
  rw [scope_bind_apply, scope_bind_apply, ht.scope.agent]
  exact mimics_report _ _ b t t' ht hvs hP

theorem mimics_requirePopulation (host : AgentRef) (species : String) :
    K.Mimics vs l (requirePopulation host species) (requirePopulation host species) := by
  intro b t t' ht hvs hP
  unfold requirePopulation
  rw [machine_bind_apply, machine_bind_apply, ht.machine.world.population?]
  cases t.machine.world.population? host species with
  | some p => exact ht.ok p (List.forall_mem_nil _) rfl
  | none => exact ht.error _

theorem mimics_singleAgent (statement : String) {v : Value} (hv : v ∈ vs) :
    K.Mimics vs (singleLog v) (singleAgent statement v)
      (singleAgent statement (v.renumber K.numbers)) := by
  cases v with
  | agent a => exact mimics_plain a
  | nil => exact mimics_fail _
  | _ => exact (mimics_text hv).andThen fun t => mimics_fail _

theorem mimics_planCapture (target : Expr) (species : Option String) :
    K.Mimics vs (planCaptureLog target) (planCapture target species)
      (planCapture target species) := by
  refine (mimics_currentAgent "capture").after fun m => (mimics_eval target).bind fun v => ?_
  intro b t t' ht hvs hP
  have hagents := ht.machine.store.agents hP
  rw [machine_bind_apply, machine_bind_apply]
  simp only [Carries.renumber, hagents]
  cases species with
  | none => exact ht.ok _ (List.forall_mem_nil _) rfl
  | some name =>
    have hfixed := mimics_requirePopulation (K := K) (l := .silent) m name b t t' ht hvs
      (List.forall_mem_nil _)
    exact hfixed.bind fun p u u' _ _ _ hu => hu.ok _ (List.forall_mem_nil _) rfl

/-- Nobody has died whose loss the macro-agent could notice. -/
theorem mimics_captureInto (m : AgentRef) (fixed : Option Population) (a : AgentRef) :
    K.Mimics vs (captureIntoLog m a) (captureInto m fixed a) (captureInto m fixed a) := by
  intro b t t' ht hvs hP
  rw [captureIntoLog, List.forall_mem_append] at hP
  obtain ⟨hforget', hforget⟩ := ht.machine.world.forget hP.1 (holds t) (holds t')
  rw [captureInto_eq, captureInto_eq, hforget, hforget']
  refine ht.ok _ (List.forall_mem_nil _) ?_
  rw [ht.machine.world.canCapture hP.2 (holds t'), ht.machine.world.population?,
    ht.machine.world.speciesOf]
  rfl

theorem mimics_planRelease (target : Expr) (species : Option String) (host : Option Expr) :
    K.Mimics vs (planReleaseLog target host) (planRelease target species host)
      (planRelease target species host) := by
  refine (mimics_currentAgent "release").after fun x => (mimics_eval target).bind fun v => ?_
  have hcandidates (host : Option AgentRef) {ws : List Value} : K.Mimics ws
      (fun s => v.look ++ (s.machine.store.agents v).flatMap s.machine.world.hostReads)
      (do
        let s ← get
        let candidates := (s.machine.store.agents v).filter fun a =>
          isHostedBy (holds s) s.machine.world a x
        return Relocation.mk "release" "because no destination population can welcome them" host
          (releaseTo x host species) candidates)
      (do
        let s ← get
        let candidates := (s.machine.store.agents (v.renumber K.numbers)).filter fun a =>
          isHostedBy (holds s) s.machine.world a x
        return Relocation.mk "release" "because no destination population can welcome them" host
          (releaseTo x host species) candidates) := by
    intro b t t' ht hvs hP
    rw [List.forall_mem_append] at hP
    rw [get_bind_apply, get_bind_apply, ht.machine.store.agents hP.1]
    have hhosted : (t.machine.store.agents v).filter
          (fun a => isHostedBy (holds t') t'.machine.world a x) =
        (t.machine.store.agents v).filter fun a => isHostedBy (holds t) t.machine.world a x :=
      List.filter_congr fun a ha => ht.machine.world.isHostedBy
        (fun c hc => hP.2 c (List.mem_flatMap.mpr ⟨a, ha, hc⟩)) _ _ x
    rw [hhosted]
    exact ht.ok _ (List.forall_mem_nil _) rfl
  cases host with
  | none => exact hcandidates none
  | some e =>
    refine (mimics_eval e).bind fun h => (mimics_singleAgent "release" (by simp)).bind fun a => ?_
    exact hcandidates (some a)

theorem mimics_releaseTo (x : AgentRef) (host : Option AgentRef) (species : Option String)
    (a : AgentRef) :
    K.Mimics vs (releaseToLog x host species a) (releaseTo x host species a)
      (releaseTo x host species a) := by
  intro b t t' ht hvs hP
  cases host with
  | some h =>
    obtain ⟨hforget', hforget⟩ := ht.machine.world.forget hP (holds t) (holds t')
    rw [releaseTo_some_eq, releaseTo_some_eq, hforget, hforget']
    refine ht.ok _ (List.forall_mem_nil _) ?_
    rw [ht.machine.world.population?, ht.machine.world.speciesOf]
    rfl
  | none =>
    rw [releaseToLog, List.forall_mem_append] at hP
    obtain ⟨hhost', hhost⟩ := ht.machine.world.host? hP.1 (holds t) (holds t')
    rw [releaseTo_none_eq, releaseTo_none_eq, hhost', hhost, ht.machine.world.speciesOf]
    rw [hhost] at hP
    have hfound (h : AgentRef) (hknown : h ∈ t.machine.world.knownHost? x) :
        t'.machine.world.populationFor? (holds t') h (species.getD (t.machine.world.speciesOf a)) =
          t.machine.world.populationFor? (holds t) h
            (species.getD (t.machine.world.speciesOf a)) :=
      ht.machine.world.populationFor? (fun c hc => hP.2 c
        (List.mem_flatMap.mpr ⟨h, Option.mem_toList.mpr hknown, hc⟩)) (holds t) (holds t')
    exact ht.ok _ (List.forall_mem_nil _) (Option.bind_congr hfound)

theorem mimics_planMigrate (source target : String) :
    K.Mimics vs (planMigrateLog source target) (planMigrate source target)
      (planMigrate source target) := by
  refine (mimics_currentAgent "migrate").after fun x => ?_
  refine (mimics_requirePopulation x source).after fun _ => ?_
  refine (mimics_requirePopulation x target).after fun p => ?_
  intro b t t' ht hvs hP
  have hmembers := ht.machine.world.members hP
  rw [machine_bind_apply, machine_bind_apply]
  simp only [Carries.renumber, hmembers]
  exact ht.ok _ (List.forall_mem_nil _) rfl

section
variable {log : Sequence → Log} {run : Sequence → Exec Value}
  (hrun : ∀ body, K.Mimics [] (log body) (run body) (run body))
include hrun

theorem mimics_relocate {destinationLog : AgentRef → Log} {r : Relocation}
    (hd : ∀ a, K.Mimics [] (destinationLog a) (r.destination a) (r.destination a))
    (returns : Option String) (body : Sequence) :
    K.Mimics vs (relocateLog log run destinationLog r body) (relocate run r returns body)
      (relocate run r returns body) := by
  refine .withHeld ((mimics_moveAll hd r.candidates).bind fun m => ?_) _ _
  refine (mimics_reportRejected r.verb m.2 r.reason).after fun _ => ?_
  refine (mimics_fanOut (hrun body) r.verb m.1 .nil true).andThen fun _ => ?_
  refine (mimics_agentList m.1).andThen fun result => ?_
  exact (mimics_store returns (by simp)).andThen fun _ => mimics_pure result (by simp)

/-- A statement that works out a relocation and then carries it out. -/
theorem mimics_relocation {planLog : Log} {plan : Exec Relocation}
    {destinationLog : Relocation → AgentRef → AgentRef → Log}
    (hplan : K.Mimics vs planLog plan plan)
    (hd : ∀ t r u, plan t = .ok r u → ∃ x, t.scope.agent = some x ∧
      ∀ a, K.Mimics [] (destinationLog r x a) (r.destination a) (r.destination a))
    (returns : Option String) (body : Sequence) :
    K.Mimics vs (relocationLog log run planLog plan destinationLog body)
      (plan >>= fun r => relocate run r returns body)
      (plan >>= fun r => relocate run r returns body) := by
  intro b t t' ht hvs hP
  rw [relocationLog, Log.bind, List.forall_mem_append] at hP
  refine (hplan b t t' ht hvs hP.1).bind fun r u u' hu _ hle hu' => ?_
  obtain ⟨x, hx, hdest⟩ := hd t r u hu
  have hrest := hP.2
  rw [Log.after, hu, hx] at hrest
  simp only [Option.toList_some, List.flatMap_singleton] at hrest
  exact mimics_relocate hrun hdest returns body b u u' hu' (fun v hv => (hvs v hv).mono hle) hrest

end

/-! ## Actions -/

theorem mimics_asForeign {x y : Exec Value} (hxy : K.Mimics vs l x y) :
    K.Mimics vs l (asForeign x) (asForeign y) := by
  intro b t t' ht hvs hP
  have hboth := hxy b t t' ht hvs hP
  unfold asForeign
  generalize x t = r at hboth
  generalize y t' = r' at hboth
  cases hboth with
  | ok within grown tracks => exact .ok within grown tracks
  | @error e _ _ grown tracks => cases e <;> exact .error grown tracks

theorem mimics_runNative (handler : Native) {args : BoundArguments}
    (hargs : Carries.values args ⊆ vs) :
    K.Mimics vs (nativeLog handler) (runNative handler args)
      (runNative handler (Carries.renumber K.numbers args)) := by
  cases handler with
  | echo =>
    intro b t t' ht hvs _
    have hpairs := ht.newList .any (args.map fun a => .pair (.str a.1) a.2) fun v hv => by
      obtain ⟨a, ha, rfl⟩ := List.mem_map.mp hv
      exact ⟨trivial, hvs a.2 (hargs (List.mem_map_of_mem ha))⟩
    have hsame : (args.map fun a => Value.pair (.str a.1) a.2).map (·.renumber K.numbers) =
        (Carries.renumber K.numbers args).map fun a => Value.pair (.str a.1) a.2 := by
      simp [Carries.renumber, Value.renumber]
    rw [hsame] at hpairs
    exact hpairs
  | whoami =>
    intro b t t' ht hvs hP
    unfold runNative
    dsimp only
    rw [scope_bind_apply, scope_bind_apply, ht.scope.agent, ht.scope.myself]
    refine mimics_flat ?_ b t t' ht hvs hP
    cases t.scope.agent <;> cases t.scope.myself <;> rfl
  | finish =>
    refine (mimics_setFlow .yield).andThen fun _ => ?_
    intro b t t' ht hvs hP
    rw [scope_bind_apply, scope_bind_apply, ht.scope.depth]
    exact mimics_flat rfl b t t' ht hvs hP
  | dispose => exact (mimics_setFlow .dispose).andThen fun _ => mimics_flat rfl
  | cancel => exact fun b t t' ht hvs hP => absurd (hP _ List.mem_cons_self) id
  | fail message => exact mimics_fail _
  | refuse =>
    have hlength : (Carries.renumber K.numbers args).length = args.length := List.length_map _
    unfold runNative
    rw [hlength]
    exact mimics_fail _

section
variable {log : Sequence → Log} {run : Sequence → Exec Value}
  (hrun : ∀ body, K.Mimics [] (log body) (run body) (run body))
include hrun

theorem mimics_invoke (action : Action) {args : BoundArguments} (caller : Option AgentRef)
    (hargs : Carries.values args ⊆ vs) :
    K.Mimics vs (invokeLog log action args caller) (invokeWith runNative run action args caller)
      (invokeWith runNative run action (Carries.renumber K.numbers args) caller) := by
  refine .withHeld (.withFrame ((mimics_declareAll hargs).after fun _ => ?_) _ caller) _ _
  refine Mimics.andThen (.attempt ?_) fun r =>
    (mimics_takeFlow .yield).andThen fun _ => mimics_lift r (by simp)
  cases action.body with
  | statements body => exact (hrun body).widen
  | native handler =>
    refine mimics_asForeign ?_
    exact (mimics_runNative handler hargs).mono (by simp)

omit hrun in
theorem mimics_callee (target : Option Expr) :
    K.Mimics vs (calleeLog target) (callee target) (callee target) := by
  cases target with
  | some e =>
    refine (mimics_eval e).bind fun v => (mimics_singleAgent "do" (by simp)).andThen fun a => ?_
    intro b t t' ht _ _
    rw [scope_bind_apply, scope_bind_apply, ht.scope.agent]
    exact ht.ok (a, t.scope.agent) (List.forall_mem_nil _) rfl
  | none =>
    refine (mimics_currentAgent "do").andThen fun a => ?_
    intro b t t' ht _ _
    rw [scope_bind_apply, scope_bind_apply, ht.scope.myself]
    exact ht.ok (a, t.scope.myself) (List.forall_mem_nil _) rfl

theorem mimics_runCall (c : ActionCall) :
    K.Mimics vs (callLog log c) (runCall runNative run c) (runCall runNative run c) := by
  refine (mimics_callee c.target).bind fun r => ?_
  obtain ⟨a, caller⟩ := r
  intro b t t' ht hvs hP
  rw [List.forall_mem_cons] at hP
  have hdead := ht.machine.world.dead a hP.1
  simp only [Carries.renumber]
  rw [machine_bind_apply, machine_bind_apply]
  simp only [hdead, ht.machine.world.speciesOf, ht.machine.world.findAction?]
  have hrest := hP.2
  cases hlives : t.machine.world.isDead a with
  | true => exact ht.ok Value.nil (List.forall_mem_singleton.mpr trivial) rfl
  | false =>
  simp only [hlives, Bool.false_eq_true, if_false] at hrest ⊢
  cases haction : t.machine.world.findAction? (c.species.getD (t.machine.world.speciesOf a))
    c.action with
  | none => exact ht.error _
  | some action =>
    rw [haction] at hrest
    refine Mimics.bind (mimics_bind c.args action.formals) (fun args => ?_) b t t' ht hvs hrest
    refine ((mimics_invoke hrun action caller (by simp)).withAgent a).andThen fun v => ?_
    exact (mimics_store c.returns (by simp)).andThen fun _ => mimics_pure v (by simp)

end

/-! ## Statements -/

theorem mimics_assignName (name : String) {v : Value} (hv : v ∈ vs) :
    K.Mimics vs (assignNameLog name v) (assignName name v)
      (assignName name (v.renumber K.numbers)) := by
  intro b t t' ht hvs hP
  unfold assignName
  rw [scope_bind_apply, scope_bind_apply]
  unfold assignNameLog at hP
  rcases ht.scope.setVar name (hvs v hv) with ⟨hset, hset'⟩ | ⟨σ, σ', hset, hset', hσ⟩
  · rw [hset, hset']
    rw [hset] at hP
    have hagent := mimics_currentAgent (K := K) (l := .silent) "set" b t t' ht hvs
      (List.forall_mem_nil _)
    refine hagent.bind fun a u u' hu _ _ hu' => ?_
    obtain ⟨ha, rfl⟩ := currentAgent_eq_ok hu
    simp only [ha, Option.toList_some, List.flatMap_singleton, Option.isSome_none,
      Bool.false_eq_true, if_false] at hP
    simp only [Carries.renumber]
    rw [machine_bind_apply, machine_bind_apply, hu'.machine.attribute? (hP _ List.mem_cons_self),
      Option.isSome_map]
    cases hattr : (u.machine.world.attribute? a name).isSome with
    | true =>
      rw [hattr] at hP
      have hmachine := hu'.machine.setAttribute (hP _ (List.mem_cons_of_mem _ List.mem_cons_self))
        (hvs v hv)
      exact .unit (fun _ => Nat.le_refl _) ⟨hu'.scope, hmachine⟩
    | false => exact hu'.error _
  · rw [hset, hset']
    exact .unit (fun _ => Nat.le_refl _) ⟨hσ, ht.machine⟩

theorem mimics_assignTo {target : Value} (name : String) {v : Value}
    (htarget : target ∈ vs) (hv : v ∈ vs) :
    K.Mimics vs (assignToLog target name v) (assignTo target name v)
      (assignTo (target.renumber K.numbers) name (v.renumber K.numbers)) := by
  cases target with
  | agent a =>
    intro b t t' ht hvs hP
    exact .unit (fun _ => Nat.le_refl _)
      ⟨ht.scope, ht.machine.setAttribute (hP _ List.mem_cons_self) (hvs v hv)⟩
  | map r =>
    refine .flat (v := .str name) rfl ?_
    exact mimics_change (by simp [htarget]) (by simp [Edit.values, hv])
  | nil => exact mimics_fail _
  | _ => exact (mimics_text htarget).andThen fun x => mimics_fail _

theorem mimics_kill (a : AgentRef) :
    K.Mimics vs (fun _ => [.write (.life a.id)])
      (modifyMachine fun m => { m with world := m.world.kill a })
      (modifyMachine fun m => { m with world := m.world.kill a }) := fun _ _ _ ht _ hP =>
  .unit (fun _ => Nat.le_refl _)
    ⟨ht.scope, ht.machine.kill (hP _ List.mem_cons_self)⟩

theorem mimics_traceStatement (st : Statement) :
    K.Mimics vs l (traceStatement st) (traceStatement st) := by
  intro b t t' ht hvs hP
  unfold traceStatement
  rw [machine_bind_apply, machine_bind_apply, ht.machine.config]
  split
  · rw [scope_bind_apply, scope_bind_apply]
    exact mimics_emit (by simp) (by simp) b t t' ht hvs hP
  · exact mimics_plain () b t t' ht hvs hP

theorem mimics_steps {log : Statement → Log} {step : Statement → Exec Value}
    (h : ∀ st, K.Mimics [] (log st) (step st) (step st)) (body : Sequence) {last : Value}
    (hlast : last ∈ vs) :
    K.Mimics vs (stepsLog log step body last) (steps step body last)
      (steps step body (last.renumber K.numbers)) := by
  induction body generalizing vs last with
  | nil => exact mimics_pure last (by simp [hlast])
  | cons st rest ih =>
    refine mimics_interrupted.after fun i =>
      .ite (fun _ => mimics_pure last (by simp [hlast])) fun _ => ?_
    refine (mimics_traceStatement st).after fun _ => ((h st).widen.withHeld _ _).bind fun v => ?_
    exact (mimics_recordValue (by simp)).after fun _ => ih (by simp)

section
variable {log : Sequence → Log} {run : Sequence → Exec Value}
  (hrun : ∀ body, K.Mimics [] (log body) (run body) (run body))
include hrun

theorem mimics_runAttempt (body : Sequence) (rescue : Option Sequence) :
    K.Mimics vs (attemptLog log run body rescue) (runAttempt run body rescue)
      (runAttempt run body rescue) := by
  intro b t t' ht hvs hP
  -- Within the statement a last value is known, so that it can be the result.
  refine ((recordValue_tracks (v := .nil) trivial ht).bind fun _ u u' hu _ hle hu' => ?_).weaken
  rw [attemptLog, Log.after, hu] at hP
  dsimp only at hP
  rw [Log.bind, List.forall_mem_append] at hP
  have htry := ((hrun body).withFrame "try" none).withTry.attempt true u u' hu'
    (List.forall_mem_nil _) hP.1
  refine htry.bind fun r w w' hw hwithin _ hw' => ?_
  have hrest := hP.2
  rw [Log.after, hw] at hrest
  cases r with
  | ok v => exact hw'.ok v hwithin rfl
  | error e =>
    have hcaught : K.Mimics [] .silent (modifyScope fun s => { s with currentError := some e })
        (modifyScope fun s => { s with currentError := some e }) :=
      mimics_modifyScope fun _ _ _ _ h _ =>
        ⟨h.frames, h.agents, h.flow, h.tryDepth, h.within, h.last⟩
    cases rescue with
    | none =>
      have hset := hcaught true w w' hw' (List.forall_mem_nil _) (List.forall_mem_nil _)
      refine hset.bind fun _ x x' _ _ _ hx' => ?_
      dsimp only
      rw [scope_bind_apply, scope_bind_apply, (hx'.scope.last rfl).1]
      exact hx'.ok x.scope.lastValue (List.forall_mem_singleton.mpr (hx'.scope.last rfl).2) rfl
    | some rescue =>
      refine (hcaught.after fun _ => .withFrame ?_ "catch" none) true w w' hw'
        (List.forall_mem_nil _) hrest
      refine .flat (v := .str e.message) rfl ((mimics_declare "error" (by simp)).after fun _ => ?_)
      exact (hrun rescue).widen

/-- One layer of statements. -/
theorem mimics_statement (fuel : Nat) (st : Statement) :
    K.Mimics vs (statementLog log run fuel st) (statement fuel run st) (statement fuel run st) := by
  cases st with
  | declare name value =>
    exact (mimics_evalOrNil value).andThen fun v =>
      (mimics_declare name (by simp)).andThen fun _ => mimics_pure v (by simp)
  | assign target name value =>
    refine (mimics_eval value).bind fun v => ?_
    cases target with
    | none => exact (mimics_assignName name (by simp)).andThen fun _ => mimics_pure v (by simp)
    | some e =>
      refine (mimics_eval e).bind fun target => ?_
      exact (mimics_assignTo name (by simp) (by simp)).andThen fun _ => mimics_pure v (by simp)
  | branch condition yes no =>
    refine (mimics_eval condition).bind fun v => ?_
    simp only [Carries.renumber, Value.truthy_renumber]
    generalize (if v.truthy then some yes else no) = chosen
    cases chosen with
    | some body => exact (hrun body).widen.withFrame "if" none
    | none => exact mimics_flat rfl
  | block body => exact (hrun body).widen.withFrame "block" none
  | loop var kind body => exact mimics_runLoop (hrun body) fuel var kind
  | ask target parallel body => exact mimics_runAsk hrun target parallel body
  | create f body => exact mimics_runCreate hrun f body
  | capture target species returns body =>
    refine mimics_relocation hrun (mimics_planCapture target species) ?_ returns body
    intro t r u hr
    obtain ⟨m, fixed, hm, -, -, hdest, -⟩ := planCapture_eq_ok hr
    exact ⟨m, hm, fun a => hdest ▸ mimics_captureInto m fixed a⟩
  | release target species host returns body =>
    refine mimics_relocation hrun (mimics_planRelease target species host) ?_ returns body
    intro t r u hr
    obtain ⟨x, hx, -, hdest, -, -⟩ := planRelease_eq_ok hr
    exact ⟨x, hx, fun a => by rw [hdest]; exact mimics_releaseTo x r.into species a⟩
  | migrate source target returns body =>
    refine mimics_relocation hrun (mimics_planMigrate source target) ?_ returns body
    intro t r u hr
    obtain ⟨x, p, hx, -, -, hdest, -⟩ := planMigrate_eq_ok hr
    exact ⟨x, hx, fun a => by rw [hdest]; exact mimics_plain _⟩
  | call c => exact mimics_runCall hrun c
  | edit kind f warnings => exact mimics_runEdit kind f
  | attempt body rescue => exact mimics_runAttempt hrun body rescue
  | leave => exact (mimics_setFlow .leave).andThen fun _ => mimics_flat rfl
  | skip => exact (mimics_setFlow .skip).andThen fun _ => mimics_flat rfl
  | yield value =>
    refine (mimics_evalOrNil value).andThen fun v => ?_
    exact (mimics_setFlow .yield).andThen fun _ => mimics_pure v (by simp)
  | die =>
    intro b t t' ht hvs hP
    have hdie := mimics_currentAgent (K := K) (l := .silent) "die" b t t' ht hvs
      (List.forall_mem_nil _)
    refine hdie.bind fun a u u' hu _ _ hu' => ?_
    obtain ⟨ha, rfl⟩ := currentAgent_eq_ok hu
    simp only [statementLog, ha, Option.toList_some, List.map_singleton] at hP
    refine Mimics.andThen (mimics_kill a) (fun _ => ?_) b u u' hu' hvs hP
    exact (mimics_setFlow .die).andThen fun _ => mimics_flat rfl
  | write message =>
    refine (mimics_eval message).bind fun v => (mimics_text (by simp)).andThen fun x => ?_
    intro b t t' ht hvs hP
    rw [scope_bind_apply, scope_bind_apply, ht.scope.agent]
    exact ((mimics_emit (by simp) (by simp)).andThen fun _ => mimics_pure v (by simp)) b t t' ht
      hvs hP
  | warn message =>
    refine (mimics_eval message).bind fun v => (mimics_text (by simp)).andThen fun x => ?_
    exact (mimics_warn x).andThen fun _ => mimics_pure v (by simp)
  | raise message =>
    exact (mimics_eval message).bind fun v =>
      (mimics_text (by simp)).andThen fun x => mimics_fail _

end

/-- As long as a sequence accesses nothing but what the target is permitted, the replay does the
same. -/
theorem mimics_sequence (n : Nat) (body : Sequence) :
    K.Mimics vs (sequenceLog n body) (sequence n body) (sequence n body) := by
  induction n generalizing vs body with
  | zero => exact mimics_outOfFuel
  | succ n ih =>
    refine .flat (v := .nil) rfl ?_
    exact mimics_steps (mimics_statement (fun body => ih body) n) body (by simp)

end Replay
end Habitat
