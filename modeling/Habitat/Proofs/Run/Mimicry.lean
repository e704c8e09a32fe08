import Habitat.Proofs.Run.Replay

/-!
# Steps are replayed

As long as the run accesses nothing but what the target is permitted, the replay does the same. The
lemmas about `Replay.Mimics` are for the combinators from which steps are made, and for the smallest
steps: signals and variables, reports, changes of containers and casts.

* `Replay.Mimics.bind`, `Replay.Mimics.withFrame`, `Replay.Mimics.withAgent`: combinators.
* `Replay.mimics_change`: one change of a container.
* `Replay.Tracks.cast`: a cast to a type.
-/
namespace Habitat

open Exec

variable {targets : List AgentRef} {s : State}

namespace Replay
variable {K : Replay targets s}

/-! ## Combinators -/

section
variable {α β : Type} [Carries α] [Carries β] {b : Bool} {n n' : Store.Kind → Nat}
  {vs : List Value} {l l' : Log} {x y x' y' : Exec α} {t t' : State}

/-- A step without a result keeps the correspondence. -/
theorem Agrees.unit {u u' : State} (hn : ∀ k, n k ≤ u.machine.extent k) (h : K.Tracks b u u') :
    K.Agrees b n (.ok () u) (.ok () u') := .ok (a := ()) (List.forall_mem_nil _) hn h

theorem Agrees.mono {r r' : EStateM.Result Fault State α} (h : K.Agrees b n' r r')
    (hn : ∀ k, n k ≤ n' k) : K.Agrees b n r r' := by
  cases h with
  | ok within grown tracks => exact .ok within (fun k => Nat.le_trans (hn k) (grown k)) tracks
  | error grown tracks => exact .error (fun k => Nat.le_trans (hn k) (grown k)) tracks

theorem Agrees.weaken {r r' : EStateM.Result Fault State α} (h : K.Agrees true n r r') :
    K.Agrees b n r r' := by
  cases h with
  | ok within grown tracks => exact .ok within grown ⟨tracks.scope.weaken b, tracks.machine⟩
  | error grown tracks => exact .error grown ⟨tracks.scope.weaken b, tracks.machine⟩

theorem Agrees.bind {f g : α → Exec β} (h : K.Agrees b n (x t) (y t'))
    (hf : ∀ a u u', x t = .ok a u → (∀ v ∈ Carries.values a, v.Within u.machine.extent) →
      (∀ k, n k ≤ u.machine.extent k) → K.Tracks b u u' →
      K.Agrees b u.machine.extent (f a u) (g (Carries.renumber K.numbers a) u')) :
    K.Agrees b n ((x >>= f) t) ((y >>= g) t') := by
  generalize hx : x t = r at h
  generalize hy : y t' = r' at h
  cases h with
  | ok within grown tracks =>
    rw [bind_ok hx, bind_ok hy]
    exact (hf _ _ _ hx within grown tracks).mono grown
  | error grown tracks =>
    rw [bind_error hx, bind_error hy]
    exact .error grown tracks

namespace Mimics

theorem mono {ws : List Value} (h : K.Mimics ws l x y) (hsub : ws ⊆ vs) : K.Mimics vs l x y :=
  fun b t t' ht hvs hP => h b t t' ht (fun v hv => hvs v (hsub hv)) hP

/-- A step that uses no values does not mind them. -/
theorem widen (h : K.Mimics [] l x y) : K.Mimics vs l x y := h.mono (List.nil_subset vs)

/-- Values that refer to no container can always be used. -/
theorem flat {v : Value} (hv : v.isFlat = true) (h : K.Mimics (v :: vs) l x y) :
    K.Mimics vs l x y := fun b t t' ht hvs hP =>
  h b t t' ht (List.forall_mem_cons.mpr ⟨Value.within_of_isFlat hv _, hvs⟩) hP

theorem bind {k : α → Log} {f g : α → Exec β} (hx : K.Mimics vs l x y)
    (hf : ∀ a, K.Mimics (Carries.values a ++ vs) (k a) (f a) (g (Carries.renumber K.numbers a))) :
    K.Mimics vs (l.bind x k) (x >>= f) (y >>= g) := by
  intro b t t' ht hvs hP
  rw [Log.bind, List.forall_mem_append] at hP
  refine (hx b t t' ht hvs hP.1).bind fun a u u' hu ha hle hu' => hf a b u u' hu' ?_ ?_
  · exact List.forall_mem_append.mpr ⟨ha, fun v hv => (hvs v hv).mono hle⟩
  · have hrest := hP.2
    rwa [Log.after, hu] at hrest

/-- What comes first accesses nothing. -/
theorem after {k : α → Log} {f g : α → Exec β} (hx : K.Mimics vs .silent x y)
    (hf : ∀ a, K.Mimics (Carries.values a ++ vs) (k a) (f a) (g (Carries.renumber K.numbers a))) :
    K.Mimics vs (.after x k) (x >>= f) (y >>= g) := hx.bind hf

/-- What comes last accesses nothing. -/
theorem andThen {f g : α → Exec β} (hx : K.Mimics vs l x y)
    (hf : ∀ a, K.Mimics (Carries.values a ++ vs) .silent (f a) (g (Carries.renumber K.numbers a))) :
    K.Mimics vs l (x >>= f) (y >>= g) := by
  intro b t t' ht hvs hP
  refine (hx b t t' ht hvs hP).bind fun a u u' hu ha hle hu' =>
    hf a b u u' hu' ?_ (List.forall_mem_nil _)
  exact List.forall_mem_append.mpr ⟨ha, fun v hv => (hvs v hv).mono hle⟩

theorem ite {c : Prop} [Decidable c] (h : c → K.Mimics vs l x y) (h' : ¬c → K.Mimics vs l' x' y') :
    K.Mimics vs (if c then l else l') (if c then x else x') (if c then y else y') := by
  split
  · exact h ‹_›
  · exact h' ‹_›

theorem attempt (h : K.Mimics vs l x y) : K.Mimics vs l (attempt x) (attempt y) := by
  intro b t t' ht hvs hP
  have hxy := h b t t' ht hvs hP
  generalize hx : x t = r at hxy
  generalize hy : y t' = r' at hxy
  cases hxy with
  | ok within grown tracks =>
    rw [attempt_ok hx, attempt_ok hy]
    exact .ok (a := Except.ok _) within grown tracks
  | @error e u u' grown tracks =>
    cases e with
    | error e =>
      rw [attempt_error hx, attempt_error hy]
      exact .ok (a := Except.error e) (List.forall_mem_nil _) grown tracks
    | outOfFuel =>
      rw [attempt_outOfFuel hx, attempt_outOfFuel hy]
      exact .error grown tracks

/-- A step between two changes of the state that make no containers. -/
theorem bracket {enter enter' leave leave' : State → State}
    (henter : K.Tracks b (enter t) (enter' t'))
    (hextent : (enter t).machine.extent = t.machine.extent)
    (hleave : ∀ u u', K.Tracks b u u' → (∀ k, t.machine.extent k ≤ u.machine.extent k) →
      K.Tracks b (leave u) (leave' u') ∧ (leave u).machine.extent = u.machine.extent)
    (h : K.Mimics vs l x y) (hvs : ∀ v ∈ vs, v.Within t.machine.extent)
    (hP : ∀ c ∈ l (enter t), K.Permits c) :
    K.Agrees b t.machine.extent (bracket enter leave x t) (Exec.bracket enter' leave' y t') := by
  have hxy := h b _ _ henter (by rwa [hextent]) hP
  rw [hextent] at hxy
  generalize hx : x (enter t) = r at hxy
  generalize hy : y (enter' t') = r' at hxy
  cases hxy with
  | ok within grown tracks =>
    obtain ⟨htracks, hsame⟩ := hleave _ _ tracks grown
    rw [bracket_ok hx, bracket_ok hy]
    exact .ok (by rwa [hsame]) (by rwa [hsame]) htracks
  | error grown tracks =>
    obtain ⟨htracks, hsame⟩ := hleave _ _ tracks grown
    rw [bracket_error hx, bracket_error hy]
    exact .error (by rwa [hsame]) htracks

theorem withHeld (h : K.Mimics vs l x y) (held held' : List Value) :
    K.Mimics vs (heldLog held l) (withHeld held x) (withHeld held' y) := by
  intro b t t' ht hvs hP
  exact bracket ⟨ht.scope, ht.machine.aside rfl rfl⟩ rfl
    (fun u u' hu _ => ⟨⟨hu.scope, hu.machine.aside rfl rfl⟩, rfl⟩) h hvs hP

theorem withFrame (h : K.Mimics vs l x y) (owner : String) (caller : Option AgentRef) :
    K.Mimics vs (frameLog owner caller l) (withFrame owner caller x)
      (withFrame owner caller y) := by
  intro b t t' ht hvs hP
  have hreports (m : Machine) (name : String) (depth : Nat) :
      (m.emit (.push name owner depth)).reports = m.reports := by
    simp [Machine.reports, Machine.emit]
  have hsame : (pushFrame owner caller t).machine.extent = t.machine.extent := by
    unfold pushFrame
    dsimp only
    split <;> rfl
  have hmachine : K.TracksMachine (pushFrame owner caller t).machine
      (pushFrame owner caller t').machine := by
    unfold pushFrame
    dsimp only
    split <;> split
    · exact ht.machine.aside (hreports _ _ _) (hreports _ _ _)
    · exact ht.machine.aside (hreports _ _ _) rfl
    · exact ht.machine.aside rfl (hreports _ _ _)
    · exact ht.machine
  have hscope := ht.scope.push owner caller
  rw [← hsame] at hscope
  exact bracket ⟨hscope, hmachine⟩ hsame (fun u u' hu _ => ⟨⟨hu.scope.pop, hu.machine⟩, rfl⟩) h
    hvs hP

theorem withTry (h : K.Mimics vs l x y) : K.Mimics vs (tryLog l) (withTry x) (withTry y) := by
  intro b t t' ht hvs hP
  have hscope (depth : Nat → Nat) {n : Store.Kind → Nat} {σ σ' : Scope}
      (hσ : K.TracksScope b n σ σ') : K.TracksScope b n { σ with tryDepth := depth σ.tryDepth }
        { σ' with tryDepth := depth σ'.tryDepth } :=
    ⟨hσ.frames, hσ.agents, hσ.flow, congrArg depth hσ.tryDepth, hσ.within, hσ.last⟩
  exact bracket ⟨hscope (· + 1) ht.scope, ht.machine⟩ rfl
    (fun u u' hu _ => ⟨⟨hscope (· - 1) hu.scope, hu.machine⟩, rfl⟩) h hvs hP

theorem withAgent (h : K.Mimics vs l x y) (a : AgentRef) :
    K.Mimics vs (agentLog a l) (withAgent a x) (withAgent a y) := by
  intro b t t' ht hvs hP
  unfold agentLog at hP
  by_cases ha : t.scope.isNewAgent a = true
  · have ha' := (ht.scope.isNewAgent a).trans ha
    rw [if_pos ha] at hP
    have hpush : K.TracksScope b t.machine.extent (t.scope.pushAgent a) (t'.scope.pushAgent a) :=
      ⟨ht.scope.frames, congrArg (a :: ·) ht.scope.agents, ht.scope.flow, ht.scope.tryDepth,
        ht.scope.within, ht.scope.last⟩
    have hpop {n : Store.Kind → Nat} {σ σ' : Scope} (hσ : K.TracksScope b n σ σ') :
        K.TracksScope b n σ.popAgent σ'.popAgent :=
      ⟨hσ.frames, congrArg List.tail hσ.agents, congrArg (Flow.clear · .die) hσ.flow, hσ.tryDepth,
        hσ.within, hσ.last⟩
    rw [withAgent_new ha, withAgent_new ha']
    exact bracket ⟨hpush, ht.machine⟩ rfl
      (fun u u' hu _ => ⟨⟨hpop hu.scope, hu.machine⟩, rfl⟩) h hvs hP
  · have ha' : ¬t'.scope.isNewAgent a = true := by rwa [ht.scope.isNewAgent a]
    rw [if_neg ha] at hP
    rw [withAgent_same ha, withAgent_same ha']
    exact h b t t' ht hvs hP

/-- In copies of the scope. Whether a statement has completed before does not matter there. -/
theorem forked (h : K.Mimics vs l x y) (name name' : String) :
    K.Mimics vs (forkedLog name l) (forked name x) (Exec.forked name' y) := by
  intro b t t' ht hvs hP
  have hcopy := (h.withHeld t.scope.holdings t'.scope.holdings).attempt true
    ⟨t.scope.fork name, t.machine⟩ ⟨t'.scope.fork name', t'.machine⟩
    ⟨ht.scope.fork name name', ht.machine⟩ hvs hP
  unfold Exec.forked
  generalize Exec.attempt (Exec.withHeld t.scope.holdings x) ⟨t.scope.fork name, t.machine⟩ = r at *
  generalize Exec.attempt (Exec.withHeld t'.scope.holdings y) ⟨t'.scope.fork name', t'.machine⟩ = r'
    at *
  cases hcopy with
  | ok within grown tracks => exact .ok within grown ⟨ht.scope.mono grown, tracks.machine⟩
  | error grown tracks => exact .error grown ⟨ht.scope.mono grown, tracks.machine⟩

end Mimics

/-! ## Primitive steps -/

theorem mimics_pure (a : α) (ha : Carries.values a ⊆ vs) :
    K.Mimics vs l (pure a) (pure (Carries.renumber K.numbers a)) := fun _ _ _ ht hvs _ =>
  .ok (fun v hv => hvs v (ha hv)) (fun _ => Nat.le_refl _) ht

theorem mimics_plain {α : Type} (a : α) : @Mimics _ _ K α .plain vs l (pure a) (pure a) :=
  @mimics_pure _ _ K α .plain vs l a (List.nil_subset _)

theorem mimics_fail (e : ExecError) : K.Mimics vs l (fail e : Exec α) (fail e) :=
  fun _ _ _ ht _ _ => .error (fun _ => Nat.le_refl _) ht

theorem mimics_outOfFuel : K.Mimics vs l (throw .outOfFuel : Exec α) (throw .outOfFuel) :=
  fun _ _ _ ht _ _ => .error (fun _ => Nat.le_refl _) ht

theorem mimics_lift (r : Except ExecError α) (hr : Carries.values r ⊆ vs) :
    K.Mimics vs l (lift r) (lift (Carries.renumber K.numbers r)) := by
  cases r with
  | ok a => exact mimics_pure a hr
  | error e => exact mimics_fail e

theorem mimics_modifyScope {f f' : Scope → Scope}
    (h : ∀ b n σ σ', K.TracksScope b n σ σ' → (∀ v ∈ vs, v.Within n) →
      K.TracksScope b n (f σ) (f' σ')) : K.Mimics vs l (modifyScope f) (modifyScope f') :=
  fun b t t' ht hvs _ =>
    .unit (fun _ => Nat.le_refl _) ⟨h b _ t.scope t'.scope ht.scope hvs, ht.machine⟩

end

/-! ## Settings -/

section
variable {m m' : Machine} (h : K.TracksMachine m m')
include h

theorem TracksMachine.cancelled : m'.cancelled = m.cancelled := by
  have hcancelled := congrArg Machine.cancelled (h.outline'.trans h.outline.symm)
  exact hcancelled

theorem TracksMachine.config : m'.config = m.config := by
  have hconfig := congrArg Machine.config (h.outline'.trans h.outline.symm)
  exact hconfig

theorem TracksMachine.policy : m'.policy = m.policy := by
  have hpolicy := congrArg Machine.policy (h.outline'.trans h.outline.symm)
  exact hpolicy

end

section
variable {α β : Type} [Carries α] [Carries β] {b : Bool} {vs : List Value} {l : Log} {t t' : State}

theorem Tracks.ok (ht : K.Tracks b t t') (a : α) {a' : α}
    (ha : ∀ v ∈ Carries.values a, v.Within t.machine.extent)
    (ha' : a' = Carries.renumber K.numbers a) :
    K.Agrees b t.machine.extent (.ok a t) (.ok a' t') := by
  rw [ha']
  exact .ok ha (fun _ => Nat.le_refl _) ht

theorem Tracks.error (ht : K.Tracks b t t') (e : Fault) :
    K.Agrees (α := α) b t.machine.extent (.error e t) (.error e t') :=
  .error (fun _ => Nat.le_refl _) ht

/-! ## Signals and variables -/

theorem mimics_interrupted : K.Mimics vs l interrupted interrupted := by
  intro b t t' ht _ _
  have hsame : (t'.scope.flow.isInterrupting || t'.machine.cancelled) =
      (t.scope.flow.isInterrupting || t.machine.cancelled) := by
    rw [ht.scope.flow, ht.machine.cancelled]
  exact ht.ok (t.scope.flow.isInterrupting || t.machine.cancelled) (List.forall_mem_nil _) hsame

theorem mimics_currentAgent (statement : String) :
    K.Mimics vs l (currentAgent statement) (currentAgent statement) := by
  intro b t t' ht _ _
  unfold currentAgent
  rw [scope_bind_apply, scope_bind_apply, ht.scope.agent]
  cases t.scope.agent with
  | some a => exact ht.ok a (List.forall_mem_nil _) rfl
  | none => exact ht.error _

theorem mimics_setFlow (f : Flow) : K.Mimics vs l (setFlow f) (setFlow f) :=
  mimics_modifyScope fun _ _ _ _ h _ =>
    ⟨h.frames, h.agents, rfl, h.tryDepth, h.within, h.last⟩

theorem mimics_takeFlow (owned : Flow) : K.Mimics vs l (takeFlow owned) (takeFlow owned) := by
  intro b t t' ht hvs hP
  unfold takeFlow
  rw [scope_bind_apply, scope_bind_apply, ht.scope.flow]
  refine Agrees.bind (mimics_modifyScope (fun _ _ _ _ h _ => ?_) b t t' ht hvs hP)
    fun _ u u' _ _ _ hu => hu.ok t.scope.flow (List.forall_mem_nil _) rfl
  exact ⟨h.frames, h.agents, congrArg (Flow.clear · owned) h.flow, h.tryDepth, h.within, h.last⟩

theorem mimics_declare (name : String) {v : Value} (hv : v ∈ vs) :
    K.Mimics vs l (declare name v) (declare name (v.renumber K.numbers)) :=
  mimics_modifyScope fun _ _ _ _ h hvs => h.declare name (hvs v hv)

theorem mimics_store (name : Option String) {v : Value} (hv : v ∈ vs) :
    K.Mimics vs l (Exec.store name v) (Exec.store name (v.renumber K.numbers)) := by
  cases name with
  | some n => exact mimics_declare n hv
  | none => exact mimics_plain ()

theorem mimics_declareAll {fields : List (String × Value)}
    (hfields : fields.map (·.2) ⊆ vs) :
    K.Mimics vs l (modifyScope (·.declareAll fields))
      (modifyScope (·.declareAll (Carries.renumber K.numbers fields))) := by
  refine mimics_modifyScope fun b n σ σ' h hvs => ?_
  induction fields generalizing σ σ' with
  | nil => exact h
  | cons f rest ih =>
    rw [List.map_cons, List.cons_subset] at hfields
    exact ih hfields.2 _ _ (h.declare f.1 (hvs _ hfields.1))

/-- After that the last value is known. -/
theorem recordValue_tracks {v : Value} (hv : v.Within t.machine.extent) (ht : K.Tracks b t t') :
    K.Agrees true t.machine.extent (recordValue v t) (recordValue (v.renumber K.numbers) t') :=
  .unit (fun _ => Nat.le_refl _) ⟨⟨ht.scope.frames, ht.scope.agents, ht.scope.flow,
    ht.scope.tryDepth, ht.scope.within, fun _ => ⟨rfl, hv⟩⟩, ht.machine⟩

theorem mimics_recordValue {v : Value} (hv : v ∈ vs) :
    K.Mimics vs l (recordValue v) (recordValue (v.renumber K.numbers)) :=
  mimics_modifyScope fun _ _ _ _ h hvs =>
    ⟨h.frames, h.agents, h.flow, h.tryDepth, h.within, fun _ => ⟨rfl, hvs v hv⟩⟩

/-! ## Reports -/

theorem mimics_report (severity : Severity) (message : String) :
    K.Mimics vs l (report severity message) (report severity message) := by
  intro b t t' ht _ _
  unfold report
  rw [scope_bind_apply, scope_bind_apply, ht.scope.agent]
  exact .unit (fun _ => Nat.le_refl _) ⟨ht.scope, ht.machine.report _⟩

theorem mimics_warn (message : String) : K.Mimics vs l (warn message) (warn message) := by
  intro b t t' ht hvs hP
  unfold warn
  rw [machine_bind_apply, machine_bind_apply, ht.machine.config]
  exact mimics_report _ message b t t' ht hvs hP

/-- An event that is no report. -/
theorem mimics_emit {e e' : Event} (he : ∀ r, e ≠ .report r) (he' : ∀ r, e' ≠ .report r) :
    K.Mimics vs l (modifyMachine (·.emit e)) (modifyMachine (·.emit e')) := by
  intro b t t' ht _ _
  have hreports {e : Event} (he : ∀ r, e ≠ .report r) (m : Machine) :
      (m.emit e).reports = m.reports := by
    cases e with
    | report r => exact absurd rfl (he r)
    | _ => simp [Machine.reports, Machine.emit]
  exact .unit (fun _ => Nat.le_refl _)
    ⟨ht.scope, ht.machine.aside (hreports he _) (hreports he' _)⟩

/-! ## Containers -/

theorem mimics_text {v : Value} (_hv : v ∈ vs) :
    K.Mimics vs (textLog v) (text v) (text (v.renumber K.numbers)) := by
  intro b t t' ht _ hP
  exact ht.ok (t.machine.store.text v) (List.forall_mem_nil _) (ht.machine.store.text hP)

/-- A new container with the same contents. -/
theorem Tracks.make (ht : K.Tracks b t t') {k : Store.Kind} {o o' : Object}
    {made made' : Value × Store} (hmade : t.machine.store.Makes k o made)
    (hmade' : t'.machine.store.Makes k o' made') (ho : o.Within t.machine.extent)
    (ho' : o' = o.renumber K.numbers) :
    K.Agrees b t.machine.extent (.ok made.1 ⟨t.scope, { t.machine with store := made.2 }⟩)
      (.ok made'.1 ⟨t'.scope, { t'.machine with store := made'.2 }⟩) := by
  subst ho'
  have hvalue : made'.1 = made.1.renumber K.numbers := by
    rw [hmade.value, hmade'.value, Value.renumber_ofRef]
    exact congrArg (fun i => Value.ofRef (k, i)) (ht.machine.extent' k)
  have hwithin : made.1.Within made.2.extent := by
    rw [hmade.value, Value.within_iff, Value.refs_ofRef]
    refine List.forall_mem_singleton.mpr ?_
    rw [hmade.extent, if_pos rfl]
    exact Nat.lt_succ_self _
  rw [hvalue]
  exact .ok (List.forall_mem_singleton.mpr hwithin) hmade.extent_le
    ⟨ht.scope.mono hmade.extent_le, ht.machine.make hmade hmade' ho⟩

theorem Tracks.newList (ht : K.Tracks b t t') (content : BaseType) (items : List Value)
    (hitems : ∀ v ∈ items, v.Within t.machine.extent) :
    K.Agrees b t.machine.extent (allocate (·.newList content items) t)
      (allocate (·.newList content (items.map (·.renumber K.numbers))) t') := by
  refine ht.make (Store.makes_addList _ ⟨content, items.toArray⟩)
    (Store.makes_addList _ ⟨content, (items.map (·.renumber K.numbers)).toArray⟩) ?_ ?_
  · simpa [Object.Within, Object.values] using hitems
  · simp [Object.renumber, Object.mapValues]

theorem mimics_newList (content : BaseType) {items : List Value} (hitems : items ⊆ vs) :
    K.Mimics vs l (allocate (·.newList content items))
      (allocate (·.newList content (items.map (·.renumber K.numbers)))) :=
  fun _ _ _ ht hvs _ => ht.newList content items fun v hv => hvs v (hitems hv)

theorem mimics_agentList (as : List AgentRef) : K.Mimics vs l (agentList as) (agentList as) := by
  have hagents : (as.map Value.agent).map (·.renumber K.numbers) = as.map .agent := by
    rw [List.map_map]
    rfl
  intro b t t' ht _ _
  have hlist := ht.newList .agent (as.map .agent) fun v hv => by
    obtain ⟨a, -, rfl⟩ := List.mem_map.mp hv
    trivial
  rwa [hagents] at hlist

theorem Tracks.change (ht : K.Tracks b t t') {mutation : Mutation}
    (hP : ∀ c ∈ changeLog mutation t, K.Permits c)
    (htarget : mutation.target.Within t.machine.extent)
    (hvalues : ∀ v ∈ mutation.values t.machine.store, v.Within t.machine.extent) :
    K.Tracks b ⟨t.scope, { t.machine with store := t.machine.store.mutate mutation }⟩
      ⟨t'.scope, { t'.machine with
        store := t'.machine.store.mutate (mutation.renumber K.numbers) }⟩ :=
  ⟨ht.scope.mono fun k => Nat.le_of_eq (t.machine.store.extent_mutate mutation k).symm,
    ht.machine.mutate hP htarget hvalues⟩

/-- The same request has the same answer. -/
theorem TracksMachine.answer {m m' : Machine} (h : K.TracksMachine m m') {container : Value}
    {request : Edit} {σ : Scope}
    (hP : ∀ c ∈ changeLog (.request container request) ⟨σ, m⟩, K.Permits c)
    (hcontainer : container.Within m.extent) :
    (m'.store.edit (container.renumber K.numbers) (request.renumber K.numbers)).1 =
      (m.store.edit container request).1 := by
  rw [changeLog, List.forall_mem_append] at hP
  cases hr : container.container? with
  | none =>
    have hnone (s : Store) (request : Edit) {v : Value} (hv : v.container? = none) :
        (s.edit v request).1 = .ok .done := by
      cases v with
      | list | map | matrix | graph => cases hv
      | _ => rfl
    have hr' := Store.container?_renumber (ρ := K.numbers) container
    rw [hr] at hr'
    rw [hnone _ _ hr, hnone _ _ hr']
  | some r =>
    have hlt := hcontainer.lt hr
    refine (h.store.edit hP.2 hr hlt ?_).1
    have hlt' := numbers_mono (K := K) (k := r.1) hlt
    rwa [← h.extent' r.1] at hlt'

/-- The same request. -/
theorem mimics_change {container : Value} {request : Edit} (hcontainer : container ∈ vs)
    (hvalues : request.values ⊆ vs) :
    K.Mimics vs (changeLog (.request container request)) (change container request)
      (change (container.renumber K.numbers) (request.renumber K.numbers)) := by
  intro b t t' ht hvs hP
  have htracks := ht.change hP (hvs _ hcontainer) fun v hv => hvs v (hvalues hv)
  have hextent := fun k => Nat.le_of_eq
    (t.machine.store.extent_mutate (.request container request) k).symm
  have hrun : onStore (·.edit container request) t = .ok (t.machine.store.edit container request).1
      ⟨t.scope, { t.machine with store := t.machine.store.mutate (.request container request) }⟩ :=
    rfl
  have hreplay : onStore (·.edit (container.renumber K.numbers) (request.renumber K.numbers)) t' =
      .ok (t.machine.store.edit container request).1 ⟨t'.scope, { t'.machine with
        store := t'.machine.store.mutate ((Mutation.request container request).renumber
          K.numbers) }⟩ := by
    rw [← ht.machine.answer hP (hvs _ hcontainer)]
    rfl
  unfold change
  rw [bind_ok hrun, bind_ok hreplay]
  cases (t.machine.store.edit container request).1 with
  | ok reply => exact .unit hextent htracks
  | error e => exact .error hextent htracks

/-! ## Casts -/

theorem TracksMachine.within_elements {m m' : Machine} (h : K.TracksMachine m m') {v : Value}
    (hv : v.Within m.extent) : ∀ u ∈ m.store.elements v, u.Within m.extent := by
  cases v with
  | nil => exact fun _ hu => absurd hu List.not_mem_nil
  | pair a b =>
    exact List.forall_mem_cons.mpr ⟨hv.1, List.forall_mem_singleton.mpr hv.2⟩
  | point x y => exact List.forall_mem_cons.mpr ⟨trivial, List.forall_mem_singleton.mpr trivial⟩
  | list i => exact h.closed (.container .list i)
  | map i =>
    intro u hu
    obtain ⟨e, he, rfl⟩ := List.mem_map.mp hu
    exact h.closed (.container .map i) _ (List.mem_flatMap.mpr ⟨e, he, by simp⟩)
  | matrix i => exact h.closed (.container .matrix i)
  | graph i =>
    intro u hu
    obtain ⟨e, he, rfl⟩ := List.mem_map.mp hu
    have hin {x : Value} (hx : x ∈ [e.source, e.target]) : x.Within m.extent :=
      h.closed (.container .graph i) _
        (List.mem_append_right _ (List.mem_flatMap.mpr ⟨e, he, hx⟩))
    exact ⟨hin (by simp), hin (by simp)⟩
  | _ => exact List.forall_mem_singleton.mpr hv

/-- A cast comes to the value itself, to one that refers to no container, to a pair of elements, or
to a new list. -/
theorem within_cast {c : Store} {made : Value × Store} {speciesOf : AgentRef → String}
    {target : BaseType} {v : Value} (hv : v.Within c.extent)
    (helements : ∀ u ∈ c.elements v, u.Within c.extent)
    (h : c.cast speciesOf target v = some made) : made.1.Within made.2.extent := by
  have hmap {o : Option Value} (ho : ∀ w ∈ o, w.Within c.extent)
      (hmade : o.map (·, c) = some made) : made.1.Within made.2.extent := by
    obtain ⟨w, hw, rfl⟩ := Option.map_eq_some_iff.mp hmade
    exact ho _ hw
  unfold Store.cast at h
  split at h
  · cases h
    exact hv
  cases target with
  | int =>
    refine hmap (fun w hw => Value.within_of_isFlat ?_ _) h
    cases v <;> simp only [Store.castInt, Option.mem_def, Option.some.injEq, Option.map_eq_some_iff,
      reduceCtorEq] at hw
    case str => obtain ⟨n, -, rfl⟩ := hw; rfl
    all_goals rw [← hw]; rfl
  | float =>
    refine hmap (fun w hw => Value.within_of_isFlat ?_ _) h
    cases v <;> simp only [Store.castFloat, Option.mem_def, Option.some.injEq,
      Option.map_eq_some_iff, reduceCtorEq] at hw
    case str => obtain ⟨x, -, rfl⟩ := hw; rfl
    all_goals rw [← hw]; rfl
  | species =>
    refine hmap (fun w hw => Value.within_of_isFlat ?_ _) h
    cases v <;> simp only [Store.castSpecies, Option.mem_def, Option.some.injEq,
      reduceCtorEq] at hw
    all_goals rw [← hw]; rfl
  | bool | string =>
    cases h
    trivial
  | point =>
    refine hmap (fun w hw => Value.within_of_isFlat ?_ _) h
    unfold Store.castPoint at hw
    split at hw
    · rw [← Option.some.inj hw]
      rfl
    split at hw
    · split at hw
      · simp only [Option.mem_def, Option.bind_eq_bind, Option.bind_eq_some_iff] at hw
        obtain ⟨x, -, y, -, hw⟩ := hw
        rw [← Option.some.inj hw]
        rfl
      · cases hw
    · cases hw
  | pair =>
    refine hmap (fun w hw => ?_) h
    unfold Store.castPair at hw
    split at hw
    · split at hw
      case h_1 k x hkx =>
        rw [hkx, List.forall_mem_cons, List.forall_mem_singleton] at helements
        rw [← Option.some.inj hw]
        exact helements
      case h_2 => cases hw
    · cases hw
  | list =>
    cases h
    exact Nat.lt_of_lt_of_eq (Nat.lt_succ_self _) (Heap.size_push _ _).symm
  | _ => cases h

/-- The same cast. -/
theorem Tracks.cast (ht : K.Tracks b t t') {target : BaseType} {v : Value}
    (hv : v.Within t.machine.extent) (hP : ∀ c ∈ castLog target v t, K.Permits c) :
    Store.cast t.machine.world.speciesOf t.machine.store target v = none ∧
        Store.cast t'.machine.world.speciesOf t'.machine.store target (v.renumber K.numbers) =
          none ∨
      ∃ made made' : Value × Store,
        Store.cast t.machine.world.speciesOf t.machine.store target v = some made ∧
        Store.cast t'.machine.world.speciesOf t'.machine.store target (v.renumber K.numbers) =
          some made' ∧
        made'.1 = made.1.renumber K.numbers ∧
        K.Agrees b t.machine.extent (.ok made.1 ⟨t.scope, { t.machine with store := made.2 }⟩)
          (.ok made'.1 ⟨t'.scope, { t'.machine with store := made'.2 }⟩) := by
  have hspecies : t'.machine.world.speciesOf = t.machine.world.speciesOf :=
    funext ht.machine.world.speciesOf
  have helements := ht.machine.within_elements hv
  rw [hspecies]
  rcases ht.machine.store.cast t.machine.world.speciesOf hP with ⟨w, hw, hw'⟩ | ⟨hlist, hlist'⟩
  · cases w with
    | none => exact .inl ⟨hw, hw'⟩
    | some w =>
      refine .inr ⟨_, _, hw, hw', rfl, ht.ok w (List.forall_mem_singleton.mpr ?_) rfl⟩
      exact within_cast hv helements hw
  · exact .inr ⟨_, _, hlist, hlist', congrArg Value.list (ht.machine.extent' .list),
      ht.newList .any _ helements⟩

end
end Replay
end Habitat
