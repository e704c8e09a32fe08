import Habitat.Proofs.Run.Recurrence

/-!
# Independent turns

The targets of a dispatch own objects: themselves, and containers or other agents. If the run of the
body for each target, taken alone from the state before the dispatch, accesses nothing that another
target may change, and changes nothing but what the target owns (`Secluded`), then the turn of the
target does the same whoever had a turn before; only its new containers have other numbers.

* `Local`: from whatever state looks to the target as before, the turn writes nothing but what the
  target owns and does what it does from the state before. `local_of_secluded` derives it from one
  run, by replaying that run.
* `Progress`: the state after some targets had their turns. It is kept by one more turn
  (`Progress.step`), and so by all of them (`Progress.turns`).
* `Progress.renumbered`: two orders of the turns differ in the numbers of new containers.
-/
namespace Habitat

open Exec Discipline

variable {targets : List AgentRef} {s : State}

/-! ## What a turn does -/

namespace Ending

def renumber (ρ : Renumbering) : Ending → Ending
  | .returned v => .returned (v.renumber ρ)
  | e => e

/-- The result refers to no containers but the first `n`. -/
def Within (n : Store.Kind → Nat) : Ending → Prop
  | .returned v => v.Within n
  | _ => True

end Ending

namespace Turn

/-- How many containers of a kind the turn made. -/
def width (τ : Turn) (k : Store.Kind) : Nat :=
  τ.after.machine.extent k - τ.before.machine.extent k

/-- The turn writes nothing but what its target owns, and new containers. -/
structure Confined (E : Estates targets s) (τ : Turn) : Prop where
  scope : τ.before.scope.Alike τ.after.scope
  outline : τ.after.machine.outline = τ.before.machine.outline
  extent : ∀ k, τ.before.machine.extent k ≤ τ.after.machine.extent k
  kept : ∀ p, ¬p.IsNew τ.before.machine.extent → ¬E.owns τ.target p →
    τ.after.machine.objectAt p = τ.before.machine.objectAt p
  stays : ∀ c, E.stays c → ¬c.place.IsNew s.machine.extent →
    c.Same τ.before.machine τ.after.machine

/-- The turn does what another one does that began with other containers. -/
structure Repeats (E : Estates targets s) (σ τ : Turn) : Prop where
  ending : τ.ending =
    σ.ending.renumber (.shift σ.before.machine.extent τ.before.machine.extent)
  extent : ∀ k, τ.after.machine.extent k = τ.before.machine.extent k + σ.width k
  written : ∀ p, E.owns σ.target p ∨ p.IsNew σ.before.machine.extent →
    τ.after.machine.objectAt
        (p.renumber (.shift σ.before.machine.extent τ.before.machine.extent)) =
      (σ.after.machine.objectAt p).renumber
        (.shift σ.before.machine.extent τ.before.machine.extent)
  reports : ∃ new, σ.after.machine.reports = σ.before.machine.reports ++ new ∧
    τ.after.machine.reports = τ.before.machine.reports ++ new

end Turn

/-- The turn of a target comes to an end and leaves no dangling references. Whatever the others
have done to what belongs to them, it does the same, and writes nothing but what the target owns
and new containers. -/
structure Local (E : Estates targets s) (x : AgentRef → Exec Value) (a : AgentRef) : Prop where
  finished : (Turn.take x a s).ending ≠ .unfinished
  result : (Turn.take x a s).ending.Within (Turn.take x a s).after.machine.extent
  closed : (Turn.take x a s).after.machine.Closed
  confined : ∀ u, E.Alike a u → (Turn.take x a u).Confined E
  repeated : ∀ u, E.Alike a u → (Turn.take x a s).Repeats E (Turn.take x a u)

/-- The target sees by itself that it has no turn. -/
theorem Estates.Alike.isIdle {E : Estates targets s} {a : AgentRef} {u : State} (h : E.Alike a u)
    (ha : a ∈ targets) : (u.machine.cancelled || u.machine.world.isDead a) =
      (s.machine.cancelled || s.machine.world.isDead a) := by
  have hcancelled := congrArg Machine.cancelled h.outline
  rw [h.isDead ha]
  exact congrArg (· || _) hcancelled

/-- Those who miss their turn do so whatever the others have done. -/
theorem local_of_idle {E : Estates targets s} {x : AgentRef → Exec Value} {a : AgentRef}
    (ha : a ∈ targets) (hidle : (s.machine.cancelled || s.machine.world.isDead a) = true)
    (hclosed : s.machine.Closed) : Local E x a := by
  have htake : ∀ u, E.Alike a u → Turn.take x a u = ⟨a, u, .idle, u⟩ := fun u hu =>
    if_pos ((hu.isIdle ha).trans hidle)
  have hbase := htake s (.refl E a)
  refine ⟨?_, ?_, ?_, fun u hu => ?_, fun u hu => ?_⟩
  · rw [hbase]
    nofun
  · rw [hbase]
    trivial
  · rw [hbase]
    exact hclosed
  · rw [htake u hu]
    exact ⟨.refl u.scope, rfl, fun _ => Nat.le_refl _, fun _ _ _ => rfl,
      fun _ _ _ => Cell.same_of_objectAt rfl⟩
  · have hstart := Replay.TracksMachine.start (K := ⟨E, a, ha, u, hclosed, hu⟩)
    rw [hbase, htake u hu]
    exact ⟨rfl, fun k => (by simp [Turn.width]), hstart.mine, [], by simp⟩

/-! ## Runs that keep to themselves -/

/-- Every reference finds its container, also those in variables. -/
structure State.Closed (s : State) : Prop where
  machine : s.machine.Closed
  frames : ∀ f ∈ s.scope.frames, ∀ v ∈ f.vars, v.2.Within s.machine.extent

/-- The run of a body for a target, from the state before the dispatch. It comes to an end and
accesses only what the target is permitted. The variables of the caller are as before it, and no
signal is left pending. -/
structure Secluded (E : Estates targets s) (n : Nat) (owner : String) (body : Sequence)
    (a : AgentRef) : Prop where
  permitted : ∀ c ∈ turnLog (sequenceLog n body) owner a s, E.Permits a c
  finished : (Turn.take (bodyFor (sequence n) owner body) a s).ending ≠ .unfinished
  frames : (Turn.take (bodyFor (sequence n) owner body) a s).after.scope.frames = s.scope.frames
  flow : (Turn.take (bodyFor (sequence n) owner body) a s).after.scope.flow = .normal

theorem Frame.renumber_of_fixed {n : Store.Kind → Nat} {ρ : Renumbering}
    (hρ : ∀ k i, i < n k → ρ k i = i) {f : Frame} (hf : ∀ v ∈ f.vars, v.2.Within n) :
    f.renumber ρ = f := by
  have hvars : f.vars.map (fun v => (v.1, v.2.renumber ρ)) = f.vars :=
    (List.map_congr_left fun v hv => by
      rw [Value.renumber_congr hρ (hf v hv), Value.renumber_id]).trans (List.map_id' f.vars)
  rw [renumber, hvars]

namespace Replay
variable {K : Replay targets s} {b : Bool} {t t' : State}

theorem renumber_frames (hclosed : s.Closed) :
    s.scope.frames.map (·.renumber K.numbers) = s.scope.frames := by
  refine (List.map_congr_left fun f hf => ?_).trans (List.map_id _)
  exact Frame.renumber_of_fixed (fun _ _ => numbers_of_lt) (hclosed.frames f hf)

/-- Both begin alike. -/
theorem Tracks.start (hclosed : s.Closed) : K.Tracks false s K.other where
  scope := ⟨K.alike.scope.frames.trans (renumber_frames hclosed).symm, K.alike.scope.agents,
    K.alike.scope.flow, K.alike.scope.tryDepth, hclosed.frames, nofun⟩
  machine := .start

theorem mimics_bodyFor (n : Nat) (owner : String) (body : Sequence) (a : AgentRef) :
    K.Mimics [] (turnLog (sequenceLog n body) owner a) (bodyFor (sequence n) owner body a)
      (bodyFor (sequence n) owner body a) := by
  intro b t t' ht hvs hP
  unfold bodyFor
  rw [scope_bind_apply, scope_bind_apply, ht.scope.agent]
  exact ((mimics_sequence n body).withFrame owner t.scope.agent).withAgent a b t t' ht hvs hP

/-- Two turns whose runs agree. -/
theorem Agrees.ofRun {n : Store.Kind → Nat} {r r' : EStateM.Result Fault State Value}
    (h : K.Agrees b n r r') (a : AgentRef) (u u' : State) :
    K.Tracks b (Turn.ofRun a u r).after (Turn.ofRun a u' r').after ∧
      (Turn.ofRun a u' r').ending = (Turn.ofRun a u r).ending.renumber K.numbers ∧
      (Turn.ofRun a u r).ending.Within (Turn.ofRun a u r).after.machine.extent := by
  cases h with
  | ok within grown tracks => exact ⟨tracks, rfl, within _ List.mem_cons_self⟩
  | @error e _ _ grown tracks => cases e <;> exact ⟨tracks, rfl, trivial⟩

theorem Tracks.confined (h : K.Tracks b t t') (hclosed : s.Closed) (hscope : s.scope.Alike t.scope)
    (ending : Ending) : (⟨K.target, K.other, ending, t'⟩ : Turn).Confined K.estates where
  scope := by
    refine K.alike.scope.symm.trans (hscope.trans ⟨?_, h.scope.agents, h.scope.flow,
      h.scope.tryDepth⟩)
    rw [h.scope.frames, hscope.frames, renumber_frames hclosed]
  outline := h.machine.outline'.trans K.alike.outline.symm
  extent k := by
    obtain ⟨j, hj⟩ := Nat.exists_eq_add_of_le (h.machine.extent k)
    rw [h.machine.extent' k, hj, numbers, Renumbering.shift_add]
    exact Nat.le_add_right _ j
  kept := h.machine.kept'
  stays c hc hold := (K.alike.stays c hc hold).symm.trans (h.machine.stays c hc hold).2

theorem Tracks.repeats (h : K.Tracks b t t') (ending : Ending) :
    (⟨K.target, s, ending, t⟩ : Turn).Repeats K.estates
      ⟨K.target, K.other, ending.renumber K.numbers, t'⟩ where
  ending := rfl
  extent k := by
    obtain ⟨j, hj⟩ := Nat.exists_eq_add_of_le (h.machine.extent k)
    simp only [Turn.width, h.machine.extent' k, hj, numbers, Renumbering.shift_add,
      Nat.add_sub_cancel_left]
  written := h.machine.mine
  reports := h.machine.reports

end Replay

/-- What a run does that keeps to itself, it does whatever the others have done. -/
theorem local_of_secluded {E : Estates targets s} {n : Nat} {owner : String} {body : Sequence}
    {a : AgentRef} (h : Secluded E n owner body a) (ha : a ∈ targets) (hclosed : s.Closed)
    (hs : s.scope.flow = .normal) : Local E (bodyFor (sequence n) owner body) a := by
  by_cases hidle : (s.machine.cancelled || s.machine.world.isDead a) = true
  · exact local_of_idle ha hidle hclosed.machine
  let x := bodyFor (sequence n) owner body
  have hruns : ∀ u, E.Alike a u → Turn.take x a u = Turn.ofRun a u (x a u) := fun u hu =>
    if_neg (by rwa [hu.isIdle ha])
  have hbase := hruns s (.refl E a)
  have htracks : ∀ u (hu : E.Alike a u),
      let K : Replay targets s := ⟨E, a, ha, u, hclosed.machine, hu⟩
      K.Tracks false (Turn.take x a s).after (Turn.take x a u).after ∧
        (Turn.take x a u).ending = (Turn.take x a s).ending.renumber K.numbers ∧
        (Turn.take x a s).ending.Within (Turn.take x a s).after.machine.extent := fun u hu => by
    rw [hbase, hruns u hu]
    exact (Replay.mimics_bodyFor n owner body a false s u (.start hclosed) nofun
      h.permitted).ofRun a s u
  have hposture := Turn.posture_take (posture_bodyFor (posture_sequence n) owner body a) s
  have hscope : s.scope.Alike (Turn.take x a s).after.scope :=
    ⟨h.frames, hposture.1, h.flow.trans hs.symm, hposture.2⟩
  have hturn : ∀ u, Turn.take x a u = ⟨a, u, (Turn.take x a u).ending, (Turn.take x a u).after⟩ :=
    fun u => by
      obtain hbefore := Turn.take_before x a u
      obtain htarget := Turn.take_target x a u
      generalize Turn.take x a u = τ at *
      subst hbefore htarget
      rfl
  obtain ⟨hself, -, hresult⟩ := htracks s (.refl E a)
  refine ⟨h.finished, hresult, Machine.closed_of_objectAt hself.machine.closed, fun u hu => ?_,
    fun u hu => ?_⟩
  · rw [hturn u]
    exact (htracks u hu).1.confined hclosed hscope _
  · obtain ⟨hu', hending, -⟩ := htracks u hu
    rw [hturn s, hturn u, hending]
    exact hu'.repeats _

/-! ## Progress -/

def Exec.RemoteResult.renumber (ρ : Renumbering) (r : RemoteResult) : RemoteResult :=
  ⟨r.value.renumber ρ, r.passed⟩

namespace Turn

theorem result_renumber {σ τ : Turn} {ρ : Renumbering} (h : τ.ending = σ.ending.renumber ρ) :
    τ.result = σ.result.renumber ρ := by
  unfold result
  rw [h]
  cases σ.ending <;> rfl

theorem error?_renumber {σ τ : Turn} {ρ : Renumbering} (h : τ.ending = σ.ending.renumber ρ) :
    τ.error? = σ.error? := by
  unfold error?
  rw [h]
  cases σ.ending <;> rfl

variable {inTry : Bool} {τ : Turn}

theorem next_objectAt (p : Place) :
    (τ.next inTry).machine.objectAt p = τ.after.machine.objectAt p := by
  unfold next
  split
  · split <;> rfl
  · rfl

theorem next_extent : (τ.next inTry).machine.extent = τ.after.machine.extent := by
  unfold next
  split
  · split <;> rfl
  · rfl

theorem next_outline : (τ.next inTry).machine.outline = τ.after.machine.outline := by
  unfold next
  split
  · split <;> rfl
  · rfl

end Turn

/-- The first containers that a target makes get these numbers, if the targets have their turns in
this order. -/
def blockStart (x : AgentRef → Exec Value) (s : State) (order : List AgentRef) (a : AgentRef)
    (k : Store.Kind) : Nat :=
  s.machine.extent k + offset (fun b => (Turn.take x b s).width k) order a.id

/-- Where the containers are that a target would have made if it had the first turn. -/
def placement (x : AgentRef → Exec Value) (s : State) (order : List AgentRef) (a : AgentRef) :
    Renumbering := .shift s.machine.extent (blockStart x s order a)

theorem renumber_placement {x : AgentRef → Exec Value} {order : List AgentRef} {a : AgentRef}
    {p : Place} (hp : ¬p.IsNew s.machine.extent) : p.renumber (placement x s order a) = p :=
  Place.renumber_of_fixed (fun _ _ h => Renumbering.shift_of_lt h) hp

/-- What is reported in the turn of a target. -/
def toldBy (x : AgentRef → Exec Value) (s : State) (a : AgentRef) : List Report :=
  let τ := Turn.take x a s
  τ.after.machine.reports.drop s.machine.reports.length ++ τ.failures

/-- The state after some targets had their turns, in an order of all of them. -/
structure Progress (E : Estates targets s) (x : AgentRef → Exec Value)
    (order finished : List AgentRef) (u : State) : Prop where
  scope : s.scope.Alike u.scope
  outline : u.machine.outline = s.machine.outline
  extent : ∀ k, u.machine.extent k =
    s.machine.extent k + total (fun b => (Turn.take x b s).width k) finished
  kept : ∀ p, ¬p.IsNew s.machine.extent → (∀ b ∈ finished, ¬E.owns b p) →
    u.machine.objectAt p = s.machine.objectAt p
  stays : ∀ c, E.stays c → ¬c.place.IsNew s.machine.extent → c.Same s.machine u.machine
  written : ∀ b ∈ finished, ∀ p, E.owns b p ∨ p.IsNew s.machine.extent →
    ¬p.IsNew (Turn.take x b s).after.machine.extent →
    u.machine.objectAt (p.renumber (placement x s order b)) =
      ((Turn.take x b s).after.machine.objectAt p).renumber (placement x s order b)
  placed : ∀ b ∈ finished, ∀ k i, i < (Turn.take x b s).after.machine.extent k →
    placement x s order b k i < u.machine.extent k
  reports : u.machine.reports = s.machine.reports ++ finished.flatMap (toldBy x s)

/-- A turn of `x'` does what the one of `x` does. -/
def Follows (E : Estates targets s) (x x' : AgentRef → Exec Value) (a : AgentRef) : Prop :=
  ∀ u, E.Alike a u → (Turn.take x' a u).Confined E ∧ (Turn.take x a s).Repeats E (Turn.take x' a u)

/-- The turn is reported in the same way. -/
theorem Turn.Repeats.failures {E : Estates targets s} {σ τ : Turn} (h : σ.Repeats E τ)
    (htarget : τ.target = σ.target) (hscope : σ.after.scope.Alike τ.after.scope) :
    τ.failures = σ.failures := by
  unfold Turn.failures
  rw [Turn.error?_renumber h.ending, htarget,
    funext (Scope.failure_congr hscope.agents σ.target)]

theorem Local.follows {E : Estates targets s} {x : AgentRef → Exec Value} {a : AgentRef}
    (h : Local E x a) : Follows E x x a := fun u hu => ⟨h.confined u hu, h.repeated u hu⟩

namespace Progress
variable {E : Estates targets s} {x x' : AgentRef → Exec Value}
  {order finished rest : List AgentRef} {a b : AgentRef} {u : State}

/-- Nobody has two turns. -/
theorem id_ne (horder : order = finished ++ a :: rest) (hnodup : (order.map (·.id)).Nodup) :
    ∀ b ∈ finished, b.id ≠ a.id := by
  intro b hb
  rw [horder, List.map_append, List.nodup_append] at hnodup
  exact hnodup.2.2 _ (List.mem_map_of_mem hb) _ (by simp)

/-- To a target whose turn comes everything looks as before the dispatch. -/
theorem alike (h : Progress E x order finished u) (horder : order = finished ++ a :: rest)
    (hsub : ∀ b ∈ order, b ∈ targets) (hnodup : (order.map (·.id)).Nodup) : E.Alike a u where
  scope := h.scope
  outline := h.outline
  extent k := by
    rw [h.extent k]
    exact Nat.le_add_right _ _
  seen p hp hothers := h.kept p hp fun b hb =>
    hothers b (hsub b (by simp [horder, hb])) (id_ne horder hnodup b hb)
  stays := h.stays

/-- A target whose turn comes finds its block at the end. -/
theorem placement_eq (h : Progress E x order finished u) (horder : order = finished ++ a :: rest)
    (hnodup : (order.map (·.id)).Nodup) :
    placement x s order a = .shift s.machine.extent u.machine.extent := by
  have hnew : a.id ∉ finished.map (·.id) := fun hmem => by
    obtain ⟨b, hb, hid⟩ := List.mem_map.mp hmem
    exact id_ne horder hnodup b hb hid
  have hstart : blockStart x s order a = u.machine.extent := by
    funext k
    rw [blockStart, h.extent k, horder, offset_append_cons hnew]
  rw [placement, hstart]

/-- What a finished target has written is of no concern to another one. -/
theorem not_owns_written (hb : b ∈ targets) (ha : a ∈ targets) (hne : b.id ≠ a.id) {p : Place}
    (hp : E.owns b p ∨ p.IsNew s.machine.extent) :
    ¬E.owns a (p.renumber (placement x s order b)) := by
  intro howns
  by_cases hold : p.IsNew s.machine.extent
  · -- New containers stay new, and nobody owns those.
    cases p with
    | agent id => exact hold
    | container k i =>
      refine E.old a ha _ howns ?_
      obtain ⟨j, rfl⟩ := Nat.exists_eq_add_of_le hold
      rw [Place.renumber, placement, Renumbering.shift_add]
      simp only [Place.IsNew, blockStart]
      omega
  · rw [renumber_placement hold] at howns
    exact E.apart b hb a ha hne p (hp.resolve_right hold) howns

/-- One more turn. -/
theorem step (h : Progress E x order finished u) (horder : order = finished ++ a :: rest)
    (hsub : ∀ b ∈ order, b ∈ targets) (hnodup : (order.map (·.id)).Nodup) (hlocal : Local E x a)
    (hfollows : Follows E x x' a) :
    Progress E x order (finished ++ [a]) ((Turn.take x' a u).next false) := by
  have ha : a ∈ targets := hsub a (by simp [horder])
  have hfinished : ∀ b ∈ finished, b ∈ targets := fun b hb => hsub b (by simp [horder, hb])
  have halike := h.alike horder hsub hnodup
  have hplace := h.placement_eq horder hnodup
  obtain ⟨hconfined, hrepeats⟩ := hfollows u halike
  have hold : ∀ p : Place, ¬p.IsNew s.machine.extent → ¬p.IsNew u.machine.extent :=
    fun p => Place.not_isNew_mono halike.extent
  have hbase := Turn.take_before x a s
  have hself := Turn.take_target x a s
  have hfirst := (hlocal.confined s (.refl E a)).scope
  have hbefore := Turn.take_before x' a u
  have htarget := Turn.take_target x' a u
  generalize Turn.take x' a u = τ at *
  obtain ⟨target, before, ending, v⟩ := τ
  obtain rfl : u = before := hbefore.symm
  obtain rfl : a = target := htarget.symm
  refine ⟨?_, ?_, fun k => ?_, fun p hp hothers => ?_, fun c hc hp => ?_, fun b hb p hp hmade => ?_,
    fun b hb k i hi => ?_, ?_⟩
  · rw [Turn.next_scope]
    exact h.scope.trans hconfined.scope
  · rw [Turn.next_outline, hconfined.outline, h.outline]
  · rw [Turn.next_extent, hrepeats.extent k, h.extent k, total_append_singleton,
      Nat.add_assoc]
  · rw [Turn.next_objectAt, hconfined.kept p (hold p hp) (hothers a (by simp))]
    exact h.kept p hp fun b hb => hothers b (by simp [hb])
  · exact ((h.stays c hc hp).trans (hconfined.stays c hc hp)).trans
      (Cell.same_of_objectAt (Turn.next_objectAt c.place))
  · rw [Turn.next_objectAt]
    rcases List.mem_append.mp hb with hb | hb
    · have hplaced : ¬(p.renumber (placement x s order b)).IsNew u.machine.extent := by
        cases p with
        | agent id => exact hmade
        | container k i => exact Nat.not_le.mpr (h.placed b hb k i (Nat.not_le.mp hmade))
      rw [hconfined.kept _ hplaced
        (not_owns_written (hfinished b hb) ha (id_ne horder hnodup b hb) hp)]
      exact h.written b hb p hp hmade
    · obtain rfl := List.mem_singleton.mp hb
      have hwritten := hrepeats.written p (by rwa [hself, hbase])
      rwa [hbase, ← hplace] at hwritten
  · rw [Turn.next_extent]
    rcases List.mem_append.mp hb with hb | hb
    · exact Nat.lt_of_lt_of_le (h.placed b hb k i hi) (hconfined.extent k)
    · obtain rfl := List.mem_singleton.mp hb
      have hwidth := hrepeats.extent k
      have hle := halike.extent k
      simp only [Turn.width, hbase] at hwidth
      rw [hplace, hwidth]
      unfold Renumbering.shift
      split <;> omega
  · obtain ⟨new, hσ, hτ⟩ := hrepeats.reports
    rw [hbase] at hσ hfirst
    have hscope := hfirst.symm.trans (h.scope.trans hconfined.scope)
    have htold : toldBy x s a = new ++ Turn.failures ⟨a, u, ending, v⟩ := by
      rw [hrepeats.failures hself.symm hscope, toldBy, hσ, List.drop_left]
    rw [Turn.reports_next, hτ, h.reports, List.flatMap_append, List.flatMap_singleton, htold]
    simp

theorem start (E : Estates targets s) (x : AgentRef → Exec Value) (order : List AgentRef) :
    Progress E x order [] s where
  scope := .refl s.scope
  outline := rfl
  extent _ := rfl
  kept _ _ _ := rfl
  stays _ _ _ := Cell.same_of_objectAt rfl
  written _ hb := nomatch hb
  placed _ hb := nomatch hb
  reports := (List.append_nil _).symm

/-- What is held does not matter. -/
theorem holding (h : Progress E x order finished u) (vs : List Value) :
    Progress E x order finished (u.holding vs) :=
  ⟨h.scope, h.outline, h.extent, h.kept, h.stays, h.written, h.placed, h.reports⟩

theorem release (h : Progress E x order finished u) : Progress E x order finished u.release :=
  ⟨h.scope, h.outline, h.extent, h.kept, h.stays, h.written, h.placed, h.reports⟩

/-- All turns that are left. It does not matter whether the last one ends the dispatch. -/
theorem turns (isLast : Turn → Bool) (h : Progress E x order finished u)
    (horder : order = finished ++ rest) (hsub : ∀ b ∈ order, b ∈ targets)
    (hnodup : (order.map (·.id)).Nodup) (hs : s.scope.flow = .normal)
    (hlocal : ∀ a ∈ rest, Local E x a) (hfollows : ∀ a ∈ rest, Follows E x x' a)
    (hgoes : ∀ a ∈ rest.dropLast, ∀ u, E.Alike a u → isLast (Turn.take x' a u) = false) :
    let d := Habitat.turns x' false isLast rest u
    Progress E x order order d.2 ∧ (∀ τ ∈ d.1, τ.Quiet) ∧
      d.1.map Turn.result = rest.map fun a =>
        (Turn.take x a s).result.renumber (placement x s order a) := by
  induction rest generalizing finished u with
  | nil =>
    obtain rfl : order = finished := by simpa using horder
    exact ⟨h, (fun _ hτ => nomatch hτ), rfl⟩
  | cons a rest ih =>
    have halike := h.alike horder hsub hnodup
    have hstep := h.step horder hsub hnodup (hlocal a (by simp)) (hfollows a (by simp))
    obtain ⟨hconfined, hrepeats⟩ := hfollows a (by simp) u halike
    have hfinished := (hlocal a (by simp)).finished
    have hbase := Turn.take_before x a s
    have hbefore := Turn.take_before x' a u
    have hquiet : (Turn.take x' a u).Quiet := by
      refine ⟨?_, by rw [hconfined.scope.flow, hbefore, h.scope.flow, hs]⟩
      rw [hrepeats.ending]
      cases hσ : (Turn.take x a s).ending with
      | unfinished => exact absurd hσ hfinished
      | _ => nofun
    have hresult : (Turn.take x' a u).result =
        (Turn.take x a s).result.renumber (placement x s order a) := by
      rw [Turn.result_renumber hrepeats.ending, hbase, hbefore, h.placement_eq horder hnodup]
    rw [turns_cons]
    dsimp only
    split
    case isTrue hlast =>
      -- Only the last target can end the dispatch.
      obtain rfl : rest = [] := by
        cases rest with
        | nil => rfl
        | cons b rest =>
          have hmem : a ∈ (a :: b :: rest).dropLast := List.mem_cons_self
          rw [hgoes a hmem u halike] at hlast
          cases hlast
      obtain rfl := horder
      exact ⟨hstep, List.forall_mem_singleton.mpr hquiet, congrArg (fun r => [r]) hresult⟩
    case isFalse =>
      obtain ⟨hend, hquiets, hresults⟩ := ih (hstep.holding _) (by simp [horder])
        (fun b hb => hlocal b (by simp [hb])) (fun b hb => hfollows b (by simp [hb]))
        fun b hb => hgoes b (by
          cases rest with
          | nil => cases hb
          | cons c rest => exact List.mem_cons_of_mem a hb)
      refine ⟨hend.release, List.forall_mem_cons.mpr ⟨hquiet, hquiets⟩, ?_⟩
      rw [List.map_cons, List.map_cons, hresults, hresult]

end Progress

/-! ## Two orders -/

/-- Numbers in one order of the targets become those in another. -/
def reorder (x : AgentRef → Exec Value) (s : State) (order order' : List AgentRef) : Renumbering :=
  .rearrange s.machine.extent (fun b k => (Turn.take x b s).width k) order order'

section
variable {E : Estates targets s} {x : AgentRef → Exec Value} {order order' : List AgentRef}
  {a b : AgentRef} {u u' : State}

theorem reorder_of_lt {k : Store.Kind} {i : Nat} (h : i < s.machine.extent k) :
    reorder x s order order' k i = i := Renumbering.rearrange_of_lt h

/-- Everything that the turn of a target leaves behind goes from its one place to its other. -/
theorem reorder_placement (order' : List AgentRef) (hnodup : (order.map (·.id)).Nodup)
    (hb : b ∈ order) (k : Store.Kind) (i : Nat)
    (hi : i < (Turn.take x b s).after.machine.extent k) :
    reorder x s order order' k (placement x s order b k i) = placement x s order' b k i := by
  by_cases hold : i < s.machine.extent k
  · rw [placement, placement, Renumbering.shift_of_lt hold, Renumbering.shift_of_lt hold,
      reorder_of_lt hold]
  · obtain ⟨j, rfl⟩ := Nat.exists_eq_add_of_le (Nat.not_lt.mp hold)
    have hj : j < (Turn.take x b s).width k := by
      rw [Turn.width, Turn.take_before]
      omega
    rw [placement, placement, Renumbering.shift_add, Renumbering.shift_add]
    exact Renumbering.rearrange_block hnodup hb hj

/-- What a target has written, in one order and in the other. -/
theorem Progress.written_reorder (h : Progress E x order order u)
    (h' : Progress E x order' order' u') (hnodup : (order.map (·.id)).Nodup)
    (hperm : order.Perm order') (hb : b ∈ order) (hlocal : Local E x b) {p : Place}
    (hp : E.owns b p ∨ p.IsNew s.machine.extent)
    (hmade : ¬p.IsNew (Turn.take x b s).after.machine.extent) :
    u'.machine.objectAt ((p.renumber (placement x s order b)).renumber (reorder x s order order')) =
      (u.machine.objectAt (p.renumber (placement x s order b))).renumber
        (reorder x s order order') := by
  have hnumbers := reorder_placement (x := x) (s := s) order' hnodup hb
  have hplace : (p.renumber (placement x s order b)).renumber (reorder x s order order') =
      p.renumber (placement x s order' b) := by
    cases p with
    | agent id => rfl
    | container k i => exact congrArg (Place.container k) (hnumbers k i (Nat.not_le.mp hmade))
  rw [hplace, h.written b hb p hp hmade, h'.written b (hperm.mem_iff.mp hb) p hp hmade,
    Object.renumber_renumber, Object.renumber_congr hnumbers (hlocal.closed.objectAt p)]

/-- Every object has its counterpart in the other order. -/
theorem Progress.objectAt_reorder (h : Progress E x order order u)
    (h' : Progress E x order' order' u') (hnodup : (order.map (·.id)).Nodup)
    (hperm : order.Perm order') (hclosed : s.machine.Closed) (hlocal : ∀ a ∈ order, Local E x a)
    {p : Place} (hp : ¬p.IsNew u.machine.extent) :
    u'.machine.objectAt (p.renumber (reorder x s order order')) =
      (u.machine.objectAt p).renumber (reorder x s order order') := by
  by_cases hnew : p.IsNew s.machine.extent
  · -- A new container is in the block of a target.
    cases p with
    | agent id => exact hnew.elim
    | container k i =>
      have hi := Nat.not_le.mp hp
      rw [h.extent k] at hi
      rcases Renumbering.block_cases hnodup hi with hold | ⟨b, hb, j, hj, rfl⟩
      · exact absurd hold (Nat.not_lt.mpr hnew)
      · have hmade : s.machine.extent k + j < (Turn.take x b s).after.machine.extent k := by
          rw [Turn.width, Turn.take_before] at hj
          omega
        have hwritten := h.written_reorder h' hnodup hperm hb (hlocal b hb)
          (p := .container k (s.machine.extent k + j)) (.inr (Nat.le_add_right _ j))
          (Nat.not_le.mpr hmade)
        rwa [Place.renumber, placement, Renumbering.shift_add] at hwritten
  · rw [Place.renumber_of_fixed (fun _ _ => reorder_of_lt) hnew]
    by_cases howned : ∃ b ∈ order, E.owns b p
    · obtain ⟨b, hb, howns⟩ := howned
      have hgrown := ((hlocal b hb).confined s (.refl E b)).extent
      rw [Turn.take_before] at hgrown
      have hwritten := h.written_reorder h' hnodup hperm hb (hlocal b hb) (.inl howns)
        (Place.not_isNew_mono hgrown hnew)
      rwa [renumber_placement hnew, Place.renumber_of_fixed (fun _ _ => reorder_of_lt) hnew]
        at hwritten
    · have hfree : ∀ b ∈ order, ¬E.owns b p := fun b hb howns => howned ⟨b, hb, howns⟩
      rw [h.kept p hnew hfree, h'.kept p hnew fun b hb => hfree b (hperm.mem_iff.mpr hb),
        Object.renumber_of_fixed (fun _ _ => reorder_of_lt) (hclosed.objectAt p)]

/-- After all turns, in one order and in another. -/
theorem Progress.renumbered (h : Progress E x order order u) (h' : Progress E x order' order' u')
    (hnodup : (order.map (·.id)).Nodup) (hperm : order.Perm order') (hclosed : s.machine.Closed)
    (hlocal : ∀ a ∈ order, Local E x a) :
    u.machine.Renumbered (reorder x s order order') u'.machine := by
  have hwithin : ∀ k i, i < u.machine.extent k →
      reorder x s order order' k i < u'.machine.extent k := fun k i hi => by
    rw [h'.extent k]
    rw [h.extent k] at hi
    exact Renumbering.rearrange_within hnodup hperm hi
  have houtline := h'.outline.trans h.outline.symm
  refine ⟨Machine.setting_of_outline houtline, ?_, hwithin, fun k i j hi hj heq => ?_,
    fun p hp => ?_⟩
  · funext k
    rw [h.extent k, h'.extent k, total_perm hperm]
  · rw [h.extent k] at hi hj
    exact Renumbering.rearrange_injective hnodup hperm hi hj heq
  · refine Machine.object?_eq_map (h.objectAt_reorder h' hnodup hperm hclosed hlocal hp) ?_
    rw [Machine.isSome_object?, Machine.isSome_object?]
    cases p with
    | agent id => exact Machine.size_of_outline houtline ▸ Iff.rfl
    | container k i =>
      have hi := Nat.not_le.mp hp
      exact iff_of_true (hwithin k i hi) hi

end

end Habitat
