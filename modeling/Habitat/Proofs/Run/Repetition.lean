import Habitat.Proofs.Run.Computing

/-!
# Edits and loops are replayed

An edit casts its values, changes a container and gives it back. A loop runs its body for values or
numbers that it has worked out. As long as the run accesses nothing but what the target is
permitted, the replay does the same.

* `Replay.mimics_bind`: arguments of actions.
* `Replay.mimics_runEdit`: edits.
* `Replay.mimics_runLoop`: loops, over bodies that are replayed.
-/
namespace Habitat

open Exec

variable {targets : List AgentRef} {s : State}

namespace Replay
variable {K : Replay targets s} {vs : List Value} {l : Log}

/-! ## Arguments -/

theorem mimics_evaluate (args : Arguments) :
    K.Mimics vs (argumentsLog args) args.evaluate args.evaluate := by
  induction args generalizing vs with
  | nil => exact mimics_pure ([] : BoundArguments) (by simp)
  | cons a rest ih =>
    exact (mimics_eval a.2).bind fun v =>
      ih.andThen fun fields => mimics_pure ((a.1, v) :: fields) (by simp)

theorem mimics_castArgument (type : BaseType) {v : Value} (hv : v ∈ vs) :
    K.Mimics vs (castArgumentLog type v) (Arguments.castArgument type v)
      (Arguments.castArgument type (v.renumber K.numbers)) := by
  unfold Arguments.castArgument castArgumentLog
  rw [Value.isNil_renumber]
  refine .ite (fun _ => mimics_pure v (by simp [hv])) fun _ => ?_
  intro b t t' ht hvs hP
  rw [get_bind_apply, get_bind_apply]
  rcases ht.cast (hvs v hv) hP with ⟨hnone, hnone'⟩ | ⟨made, made', hsome, hsome', -, hagrees⟩
  · rw [hnone, hnone']
    exact mimics_pure v (by simp [hv]) b t t' ht hvs hP
  · rw [hsome, hsome']
    exact hagrees

theorem mimics_bindFormals (args : Arguments) (formals : List Formal) :
    K.Mimics vs (formalsLog args formals) (args.bindFormals formals)
      (args.bindFormals formals) := by
  induction formals generalizing vs with
  | nil => exact mimics_pure ([] : BoundArguments) (by simp)
  | cons f rest ih =>
    refine (mimics_evalOrNil _).bind fun v => (mimics_castArgument _ (by simp)).bind fun w => ?_
    exact ih.andThen fun fields => mimics_pure ((f.name, w) :: fields) (by simp)

theorem mimics_bind (args : Arguments) (formals : List Formal) :
    K.Mimics vs (bindLog args formals) (args.bind formals) (args.bind formals) := by
  refine (mimics_bindFormals args formals).bind fun bound =>
    (mimics_evaluate _).andThen fun others => ?_
  have happend : Carries.renumber K.numbers bound ++ Carries.renumber K.numbers others =
      Carries.renumber K.numbers (bound ++ others) := List.map_append.symm
  rw [happend]
  exact mimics_pure (bound ++ others) (by simp)

/-! ## Changes of containers -/

theorem mimics_coerce (what : String) (target : BaseType) {v : Value} (hv : v ∈ vs) :
    K.Mimics vs (coerceLog target v) (coerce what target v)
      (coerce what target (v.renumber K.numbers)) := by
  unfold coerce coerceLog
  rw [Value.isNil_renumber, Value.type_renumber]
  refine .ite (fun _ => mimics_pure v (by simp [hv])) fun _ => ?_
  intro b t t' ht hvs hP
  rw [Log.ofStore, List.forall_mem_append] at hP
  rw [get_bind_apply, get_bind_apply, ht.machine.store.text hP.1]
  have hwarn {u u' : State} (hu : K.Tracks b u u') {w : Value} (hw : w.Within u.machine.extent)
      (message : String) : K.Agrees b u.machine.extent ((do warn message; return w) u)
        ((do warn message; return w.renumber K.numbers) u') := by
    have hboth : K.Mimics [w] .silent (do warn message; return w)
        (do warn message; return w.renumber K.numbers) :=
      (mimics_warn message).andThen fun _ => mimics_pure w (by simp)
    exact hboth b u u' hu (List.forall_mem_singleton.mpr hw) (List.forall_mem_nil _)
  rcases ht.cast (hvs v hv) hP.2 with
    ⟨hnone, hnone'⟩ | ⟨⟨w, c⟩, ⟨w', c'⟩, hsome, hsome', -, hagrees⟩
  · rw [hnone, hnone']
    exact hwarn ht (hvs v hv) _
  · rw [hsome, hsome']
    cases hagrees with
    | ok within grown tracks =>
      refine Agrees.mono ?_ grown
      have hw := within w List.mem_cons_self
      by_cases hwidened : v.type = .int ∧ target = .float
      · simp only [if_pos hwidened]
        exact tracks.ok w (List.forall_mem_singleton.mpr hw) rfl
      · simp only [if_neg hwidened]
        exact hwarn tracks hw _

theorem mimics_castIndex (all : Bool) (container : Value) {index : Value}
    (hindex : index ∈ vs) :
    K.Mimics vs (indexLog all container index) (castIndex all container index)
      (castIndex all (container.renumber K.numbers) (index.renumber K.numbers)) := by
  have hlist {i : Value} (hi : i ∈ vs) : K.Mimics vs
      (if all && i.isContainer then .silent else coerceLog .int i)
      (if all && i.isContainer then pure i else coerce "index" .int i)
      (if all && (i.renumber K.numbers).isContainer then pure (i.renumber K.numbers)
        else coerce "index" .int (i.renumber K.numbers)) := by
    rw [Value.isContainer_renumber]
    exact .ite (fun _ => mimics_pure i (by simp [hi])) fun _ => mimics_coerce "index" .int hi
  have hkey (c : Value) : K.Mimics vs
      (fun s => c.look ++ coerceLog (s.machine.store.keyType c) index s)
      (machine >>= fun m => coerce "index" (m.store.keyType c) index)
      (machine >>= fun m => coerce "index" (m.store.keyType (c.renumber K.numbers))
        (index.renumber K.numbers)) := by
    intro b t t' ht hvs hP
    rw [List.forall_mem_append] at hP
    rw [machine_bind_apply, machine_bind_apply, ht.machine.store.keyType hP.1]
    exact mimics_coerce "index" _ hindex b t t' ht hvs hP.2
  unfold castIndex indexLog
  cases container with
  | matrix r | graph r => exact mimics_pure index (by simp [hindex])
  | list r =>
    cases index with
    | pair a b => exact mimics_pure (Value.pair a b) (by simp [hindex])
    | _ => exact hlist hindex
  | _ => exact hkey _

theorem mimics_castItem (container : Value) {item : Value} (hitem : item ∈ vs) :
    K.Mimics vs (itemLog container item) (castItem container item)
      (castItem (container.renumber K.numbers) (item.renumber K.numbers)) := by
  have hcontent (c : Value) : K.Mimics vs
      (fun s => c.look ++ coerceLog (s.machine.store.contentType c) item s)
      (machine >>= fun m => coerce "value" (m.store.contentType c) item)
      (machine >>= fun m => coerce "value" (m.store.contentType (c.renumber K.numbers))
        (item.renumber K.numbers)) := by
    intro b t t' ht hvs hP
    rw [List.forall_mem_append] at hP
    rw [machine_bind_apply, machine_bind_apply, ht.machine.store.contentType hP.1]
    exact mimics_coerce "value" _ hitem b t t' ht hvs hP.2
  unfold castItem itemLog
  cases container with
  | graph r => exact mimics_pure item (by simp [hitem])
  | _ => exact hcontent _

theorem mimics_castItems (container : Value) {items : List Value}
    (hitems : items ⊆ vs) :
    K.Mimics vs (itemsLog container items) (castItems container items)
      (castItems (container.renumber K.numbers) (items.map (·.renumber K.numbers))) := by
  induction items generalizing vs with
  | nil => exact mimics_pure ([] : List Value) (by simp)
  | cons v rest ih =>
    rw [List.cons_subset] at hitems
    exact (mimics_castItem container hitems.1).bind fun w =>
      (ih (by simp [hitems])).andThen fun ws => mimics_pure (w :: ws) (by simp)

/-- A container stands for its elements, which the replay finds too. -/
theorem Tracks.elements {b : Bool} {t t' : State} (ht : K.Tracks b t t') {v : Value}
    (hvs : ∀ u ∈ vs, u.Within t.machine.extent) (hv : v ∈ vs)
    (hlook : ∀ c ∈ v.look, K.Permits c) :
    t'.machine.store.elements (v.renumber K.numbers) =
        (t.machine.store.elements v).map (·.renumber K.numbers) ∧
      ∀ u ∈ t.machine.store.elements v ++ vs, u.Within t.machine.extent :=
  ⟨ht.machine.store.elements hlook,
    List.forall_mem_append.mpr ⟨ht.machine.within_elements (hvs v hv), hvs⟩⟩

theorem mimics_payload (kind : EditKind) (all : Bool) (container : Value) {item : Option Value}
    (hitem : item.toList ⊆ vs) :
    K.Mimics vs (payloadLog kind all container item) (payload kind all container item)
      (payload kind all (container.renumber K.numbers) (item.map (·.renumber K.numbers))) := by
  cases item with
  | none => exact mimics_pure Payload.missing (by simp)
  | some v =>
    have hv : v ∈ vs := hitem List.mem_cons_self
    simp only [Option.map_some, payload, payloadLog, Value.isContainer_renumber]
    refine .ite (fun _ => ?_) fun _ => ?_
    · intro b t t' ht hvs hP
      rw [List.forall_mem_append] at hP
      obtain ⟨helements, hwithin⟩ := ht.elements hvs hv hP.1
      rw [machine_bind_apply, machine_bind_apply, helements]
      exact (mimics_castItems container (by simp)).andThen
        (fun ws => mimics_pure (Payload.many ws) (by simp)) b t t' ht hwithin hP.2
    · exact (mimics_castItem container hv).andThen fun w => mimics_pure (Payload.one w) (by simp)

theorem mimics_applyAdd {container : Value} {item : Payload} {index : Option Value}
    (hcontainer : container ∈ vs) (hitem : Carries.values item ⊆ vs)
    (hindex : index.toList ⊆ vs) :
    K.Mimics vs (addLog container item index) (applyAdd container item index)
      (applyAdd (container.renumber K.numbers) (Carries.renumber K.numbers item)
        (index.map (·.renumber K.numbers))) := by
  cases item with
  | missing => cases index <;> exact mimics_plain ()
  | one v =>
    have hv : v ∈ vs := hitem List.mem_cons_self
    cases index with
    | none => exact mimics_change hcontainer (by simp [Edit.values, hv])
    | some i =>
      have hi : i ∈ vs := hindex List.mem_cons_self
      exact mimics_change hcontainer (by simp [Edit.values, hi, hv])
  | many ws =>
    cases index with
    | none => exact mimics_change hcontainer hitem
    | some i =>
      have hi : i ∈ vs := hindex List.mem_cons_self
      exact mimics_change hcontainer (List.cons_subset.mpr ⟨hi, hitem⟩)

theorem mimics_applyRemove (all : Bool) {container : Value} {item : Payload} {index : Option Value}
    (hcontainer : container ∈ vs) (hitem : Carries.values item ⊆ vs)
    (hindex : index.toList ⊆ vs) :
    K.Mimics vs (removeLog all container item index) (applyRemove all container item index)
      (applyRemove all (container.renumber K.numbers) (Carries.renumber K.numbers item)
        (index.map (·.renumber K.numbers))) := by
  cases index with
  | some i =>
    have hi : i ∈ vs := hindex List.mem_cons_self
    simp only [Option.map_some, applyRemove, removeLog, Value.isContainer_renumber]
    refine .ite (fun _ => ?_) fun _ => mimics_change hcontainer (List.nil_subset _)
    intro b t t' ht hvs hP
    rw [List.forall_mem_append] at hP
    obtain ⟨helements, hwithin⟩ := ht.elements hvs hi hP.1
    rw [machine_bind_apply, machine_bind_apply, helements]
    exact mimics_change (by simp [hcontainer]) (List.nil_subset _) b t t' ht hwithin hP.2
  | none =>
    cases item with
    | missing =>
      exact .ite (fun _ => mimics_change hcontainer (List.nil_subset _)) fun _ => mimics_plain ()
    | one v => cases all <;> exact mimics_change hcontainer (List.nil_subset _)
    | many ws => exact mimics_change hcontainer (List.nil_subset _)

theorem mimics_replaceRange {r : Nat} (start stop : Int64) {v : Value}
    (hlist : Value.list r ∈ vs) (hv : v ∈ vs) :
    K.Mimics vs (changeLog (.range r start stop v)) (replaceRange r start stop v)
      (replaceRange (K.numbers .list r) start stop (v.renumber K.numbers)) := by
  intro b t t' ht hvs hP
  have hvalues : ∀ u ∈ (Mutation.range r start stop v).values t.machine.store,
      u.Within t.machine.extent := by
    cases v with
    | list i => exact ht.machine.closed (.container .list i)
    | _ => exact List.forall_mem_singleton.mpr (hvs _ hv)
  have htracks := ht.change hP (hvs _ hlist) hvalues
  have hextent := t.machine.store.extent_mutate (.range r start stop v)
  have hrange := ht.machine.store.replaceRange (List.forall_mem_append.mp hP).2
  unfold replaceRange
  rw [machine_bind_apply, machine_bind_apply, hrange]
  simp only [Store.mutate, Mutation.renumber, hrange] at htracks hextent
  cases hreplace : (t.machine.store.lists.get r).replaceRange t.machine.store start stop v with
  | ok c =>
    rw [hreplace] at htracks hextent
    exact .unit (fun k => Nat.le_of_eq (hextent k).symm) htracks
  | error e => exact ht.error _

/-- A pair of numbers asks for the same part of a list. -/
theorem rangeOf?_renumber (ρ : Renumbering) (container index : Value) :
    rangeOf? (container.renumber ρ) (index.renumber ρ) =
      (rangeOf? container index).map fun r => (ρ .list r.1, r.2) := by
  cases container with
  | list r =>
    cases index with
    | pair a b =>
      simp only [Value.renumber, rangeOf?, Value.asInt_renumber]
      cases a.asInt <;> cases b.asInt <;> rfl
    | _ => rfl
  | _ => rfl

theorem container_of_rangeOf? {container index : Value} {r : Nat × Int64 × Int64}
    (h : rangeOf? container index = some r) : container = .list r.1 := by
  cases container with
  | list i =>
    cases index with
    | pair a b =>
      simp only [rangeOf?, Option.bind_eq_bind, Option.bind_eq_some_iff] at h
      obtain ⟨_, -, _, -, h⟩ := h
      rw [← Option.some.inj h]
    | _ => cases h
  | _ => cases h

theorem mimics_putValue (all : Bool) {container v : Value} {index : Option Value}
    (hcontainer : container ∈ vs) (hv : v ∈ vs)
    (hindex : index.toList ⊆ vs) :
    K.Mimics vs (putValueLog all container index v)
      (if all then change container (.fill v) else
        match rangeOf? container (index.getD .nil) with
        | some (r, start, stop) => replaceRange r start stop v
        | none => change container (.put (index.getD .nil) v))
      (if all then change (container.renumber K.numbers) (.fill (v.renumber K.numbers)) else
        match rangeOf? (container.renumber K.numbers)
          ((index.map (·.renumber K.numbers)).getD .nil) with
        | some (r, start, stop) => replaceRange r start stop (v.renumber K.numbers)
        | none => change (container.renumber K.numbers)
          (.put ((index.map (·.renumber K.numbers)).getD .nil) (v.renumber K.numbers))) := by
  rw [Value.getD_renumber, rangeOf?_renumber]
  refine .ite (fun _ => mimics_change hcontainer (by simp [Edit.values, hv])) fun _ => ?_
  cases hr : rangeOf? container (index.getD .nil) with
  | some r =>
    have hlist := container_of_rangeOf? hr
    exact mimics_replaceRange _ _ (hlist ▸ hcontainer) hv
  | none =>
    refine .flat (v := .nil) rfl ?_
    exact mimics_change (by simp [hcontainer]) (by cases index <;> simp_all [Edit.values])

theorem mimics_applyPut (all : Bool) {container : Value} {item : Payload} {index : Option Value}
    (hcontainer : container ∈ vs) (hitem : Carries.values item ⊆ vs)
    (hindex : index.toList ⊆ vs) :
    K.Mimics vs (putLog all container item index) (applyPut all container item index)
      (applyPut all (container.renumber K.numbers) (Carries.renumber K.numbers item)
        (index.map (·.renumber K.numbers))) := by
  cases item with
  | missing =>
    refine .flat (v := .nil) rfl ?_
    exact mimics_putValue all (by simp [hcontainer]) (by simp) (by simp [hindex])
  | one v => exact mimics_putValue all hcontainer (by simpa using hitem) hindex
  | many ws =>
    have hws : ws ⊆ vs := hitem
    unfold applyPut putLog
    refine (mimics_newList .any hws).after fun v => ?_
    exact mimics_putValue all (by simp [hcontainer]) (by simp) (by simp [hindex])

theorem mimics_addVertex {r : Nat} {v : Value} (hgraph : Value.graph r ∈ vs)
    (hv : v ∈ vs) :
    K.Mimics vs (changeLog (.vertex r v))
      (do
        let c := (← machine).store
        changeGraph r ((c.graphs.get r).addVertex c.eq v)
        return true)
      (do
        let c := (← machine).store
        changeGraph (K.numbers .graph r)
          ((c.graphs.get (K.numbers .graph r)).addVertex c.eq (v.renumber K.numbers))
        return true) := by
  intro b t t' ht hvs hP
  have htracks := ht.change hP (hvs _ hgraph) (List.forall_mem_singleton.mpr (hvs _ hv))
  have hextent := t.machine.store.extent_mutate (.vertex r v)
  exact .ok (a := true) (List.forall_mem_nil _) (fun k => Nat.le_of_eq (hextent k).symm) htracks

theorem mimics_addToGraph (kind : EditKind) (f : EditFacets) {container : Value}
    {item : Option Value} (hcontainer : container ∈ vs)
    (hitem : item.toList ⊆ vs) :
    K.Mimics vs (graphLog kind f container item) (addToGraph kind f container item)
      (addToGraph kind f (container.renumber K.numbers) (item.map (·.renumber K.numbers))) := by
  unfold addToGraph graphLog
  cases kind with
  | add =>
    cases item with
    | some v =>
      have hv : v ∈ vs := hitem List.mem_cons_self
      cases hrole : f.role with
      | node =>
        cases container with
        | graph r => exact mimics_addVertex hcontainer hv
        | _ => exact mimics_plain false
      | edge =>
        cases container with
        | graph r =>
          refine (mimics_evalOrNil f.weight).bind fun w => ?_
          exact (mimics_change (by simp [hcontainer]) (by simp [Edit.values, hv])).andThen fun _ =>
            mimics_plain true
        | _ => exact mimics_plain false
      | value => cases container <;> exact mimics_plain false
    | none => cases f.role <;> cases container <;> exact mimics_plain false
  | _ => exact mimics_plain false

/-- What an edit does once the container and the index are known. -/
def applyEdit (kind : EditKind) (f : EditFacets) (container : Value) (index : Option Value) :
    Exec Value := do
  let item ← evalOption f.item
  if ← addToGraph kind f container item then return container
  let item ← payload kind f.all container item
  match kind with
  | .add => applyAdd container item index
  | .remove => applyRemove f.all container item index
  | .put => applyPut f.all container item index
  return container

theorem mimics_applyEdit (kind : EditKind) (f : EditFacets) {container : Value}
    {index : Option Value} (hcontainer : container ∈ vs)
    (hindex : index.toList ⊆ vs) :
    K.Mimics vs (applyLog kind f container index) (applyEdit kind f container index)
      (applyEdit kind f (container.renumber K.numbers) (index.map (·.renumber K.numbers))) := by
  refine (mimics_evalOption f.item).bind fun item => ?_
  refine (mimics_addToGraph kind f (by simp [hcontainer]) (by simp)).bind fun done =>
    .ite (fun _ => mimics_pure container (by simp [hcontainer])) fun _ => ?_
  refine (mimics_payload kind f.all container (by simp)).bind fun item => ?_
  cases kind with
  | add =>
    exact (mimics_applyAdd (by simp [hcontainer]) (by simp) (by simp [hindex])).andThen fun _ =>
      mimics_pure container (by simp [hcontainer])
  | remove =>
    exact (mimics_applyRemove f.all (by simp [hcontainer]) (by simp) (by simp [hindex])).andThen
      fun _ => mimics_pure container (by simp [hcontainer])
  | put =>
    exact (mimics_applyPut f.all (by simp [hcontainer]) (by simp) (by simp [hindex])).andThen
      fun _ => mimics_pure container (by simp [hcontainer])

theorem mimics_runEdit (kind : EditKind) (f : EditFacets) :
    K.Mimics vs (editLog kind f) (runEdit kind f) (runEdit kind f) := by
  unfold runEdit editLog
  refine (mimics_eval f.container).bind fun container => ?_
  simp only [Carries.renumber, Value.isContainer_renumber, Value.type_renumber]
  refine .ite (fun _ _ _ _ ht _ _ => ht.error _) fun _ => ?_
  cases f.index with
  | none => exact mimics_applyEdit kind f (by simp) (by simp)
  | some e =>
    refine (mimics_eval e).bind fun i =>
      (mimics_castIndex f.all container (by simp)).bind fun index => ?_
    exact mimics_applyEdit kind f (by simp) (by simp)

/-! ## Loops -/

section
variable {α : Type} {log : α → Log} {visit : α → Exec (Value × Bool)}

theorem mimics_repeatTimes {log : Log} {visit : Exec (Value × Bool)}
    (hvisit : K.Mimics [] log visit visit) (n : Nat) {last : Value}
    (hlast : last ∈ vs) :
    K.Mimics vs (timesLog log visit n last) (repeatTimes visit n last)
      (repeatTimes visit n (last.renumber K.numbers)) := by
  induction n generalizing vs last with
  | zero => exact mimics_pure last (by simp [hlast])
  | succ n ih =>
    refine (hvisit.widen.withHeld _ _).bind fun r => ?_
    exact .ite (fun _ => ih (by simp)) fun _ => mimics_pure r.1 (by simp)

theorem mimics_repeatWhile {log conditionLog : Log} {visit : Exec (Value × Bool)}
    {condition : Exec Bool} (hcondition : K.Mimics [] conditionLog condition condition)
    (hvisit : K.Mimics [] log visit visit) (n : Nat) {last : Value}
    (hlast : last ∈ vs) :
    K.Mimics vs (whileLog conditionLog condition log visit n last)
      (repeatWhile condition visit n last)
      (repeatWhile condition visit n (last.renumber K.numbers)) := by
  induction n generalizing vs last with
  | zero => exact mimics_outOfFuel
  | succ n ih =>
    refine hcondition.widen.bind fun c => .ite (fun _ => ?_) fun _ =>
      mimics_pure last (by simp [hlast])
    refine (hvisit.widen.withHeld _ _).bind fun r => ?_
    exact .ite (fun _ => ih (by simp)) fun _ => mimics_pure r.1 (by simp)

theorem mimics_repeatOver {log : Value → Log} {visit : Value → Exec (Value × Bool)}
    (hvisit : ∀ v, K.Mimics [v] (log v) (visit v) (visit (v.renumber K.numbers)))
    {items : List Value} {last : Value} (hitems : items ⊆ vs)
    (hlast : last ∈ vs) :
    K.Mimics vs (overLog log visit items last) (repeatOver visit items last)
      (repeatOver visit (items.map (·.renumber K.numbers)) (last.renumber K.numbers)) := by
  induction items generalizing vs last with
  | nil => exact mimics_pure last (by simp [hlast])
  | cons v rest ih =>
    rw [List.cons_subset] at hitems
    refine (((hvisit v).mono (by simp [hitems])).withHeld _ _).bind fun r => ?_
    exact .ite (fun _ => ih (by simp [hitems]) (by simp)) fun _ => mimics_pure r.1 (by simp)

theorem mimics_repeatFrom (hvisit : ∀ x, K.Mimics [] (log x) (visit x) (visit x))
    (inRange : α → Bool) (next : α → Option α) (n : Nat) (x : α) {last : Value}
    (hlast : last ∈ vs) :
    K.Mimics vs (fromLog inRange next log visit n x last) (repeatFrom inRange next visit n x last)
      (repeatFrom inRange next visit n x (last.renumber K.numbers)) := by
  induction n generalizing vs x last with
  | zero => exact mimics_outOfFuel
  | succ n ih =>
    refine .ite (fun _ => ?_) fun _ => mimics_pure last (by simp [hlast])
    refine ((hvisit x).widen.withHeld _ _).bind fun r =>
      .ite (fun _ => ?_) fun _ => mimics_pure r.1 (by simp)
    cases next x with
    | some y => exact ih y (by simp)
    | none => exact mimics_pure r.1 (by simp)

end

theorem mimics_resolve {α : Type} {read : Value → Option α}
    (hread : ∀ v, read (v.renumber K.numbers) = read v) (b : Bound α) :
    K.Mimics vs (boundLog b) (resolve read b) (resolve read b) := by
  cases b with
  | constant a => exact mimics_plain a
  | dynamic e =>
    refine (mimics_eval e).andThen fun v => ?_
    simp only [Carries.renumber, hread, Value.type_renumber]
    cases read v with
    | some a => exact mimics_plain a
    | none => exact mimics_fail _

theorem mimics_resolveRange {α : Type} {read : Value → Option α}
    (hread : ∀ v, read (v.renumber K.numbers) = read v) (r : Range (Bound α)) :
    K.Mimics vs (rangeLog read r) (resolveRange read r) (resolveRange read r) := by
  refine (mimics_resolve hread r.start).bind fun start => ?_
  refine (mimics_resolve hread r.stop).bind fun stop => ?_
  cases r.step with
  | some b => exact (mimics_resolve hread b).andThen fun step => mimics_plain _
  | none => exact mimics_plain _

theorem mimics_number {v : Value} (hv : v ∈ vs) :
    K.Mimics vs (numberLog v) (number v) (number (v.renumber K.numbers)) := by
  unfold number numberLog
  rw [Value.asFloat_renumber]
  cases v.asFloat with
  | some x => exact mimics_plain x
  | none => exact (mimics_text hv).andThen fun t => mimics_fail _

theorem mimics_stepNumber {step : Option Value} (hstep : step.toList ⊆ vs) :
    K.Mimics vs (stepLog step) (stepNumber step)
      (stepNumber (step.map (·.renumber K.numbers))) := by
  cases step with
  | some v =>
    exact (mimics_number (hstep List.mem_cons_self)).andThen fun x => mimics_plain (some x)
  | none => exact mimics_plain none

section
variable {log : Value → Log} {visit : Value → Exec (Value × Bool)}
  (hvisit : ∀ v, K.Mimics [v] (log v) (visit v) (visit (v.renumber K.numbers)))
include hvisit

theorem mimics_countInts (r : Range Int64) :
    K.Mimics vs (countIntsLog log visit r) (countInts visit r) (countInts visit r) := by
  have hint (x : Int64) : K.Mimics [] (log (.int x)) (visit (.int x)) (visit (.int x)) :=
    .flat rfl (hvisit (.int x))
  refine .ite (fun _ => mimics_fail _) fun _ => ?_
  refine .ite (fun _ => (hint _).widen.andThen fun r => mimics_pure r.1 (by simp)) fun _ => ?_
  refine .ite (fun _ => mimics_flat rfl) fun _ => .flat (v := .nil) rfl ?_
  exact mimics_repeatFrom hint _ _ _ r.start (by simp)

theorem mimics_countFloats (fuel : Nat) (r : Range Float) :
    K.Mimics vs (countFloatsLog log visit fuel r) (countFloats fuel visit r)
      (countFloats fuel visit r) := by
  have hfloat (x : Float) : K.Mimics [] (log (.float x)) (visit (.float x)) (visit (.float x)) :=
    .flat rfl (hvisit (.float x))
  refine .ite (fun _ => mimics_fail _) fun _ => ?_
  refine .ite (fun _ => (hfloat _).widen.andThen fun r => mimics_pure r.1 (by simp)) fun _ => ?_
  refine .ite (fun _ => mimics_flat rfl) fun _ => .flat (v := .nil) rfl ?_
  exact mimics_repeatFrom hfloat _ _ fuel r.start (by simp)

theorem mimics_countAny (fuel : Nat) {start stop : Value} {step : Option Value}
    (hstart : start ∈ vs) (hstop : stop ∈ vs)
    (hstep : step.toList ⊆ vs) :
    K.Mimics vs (countAnyLog log visit fuel ⟨start, stop, step⟩)
      (countAny fuel visit ⟨start, stop, step⟩)
      (countAny fuel visit ⟨start.renumber K.numbers, stop.renumber K.numbers,
        step.map (·.renumber K.numbers)⟩) := by
  have hbound (v : Value) : intBound? (v.renumber K.numbers) = intBound? v := by cases v <;> rfl
  have hrange : intRange? ⟨start.renumber K.numbers, stop.renumber K.numbers,
      step.map (·.renumber K.numbers)⟩ = intRange? ⟨start, stop, step⟩ := by
    simp only [intRange?, hbound]
    cases step <;> simp only [Option.map_some, Option.map_none, hbound]
  unfold countAnyLog
  cases hr : intRange? ⟨start, stop, step⟩ with
  | some r =>
    unfold countAny
    rw [hrange, hr]
    exact mimics_countInts hvisit r
  | none =>
    have hrun {r : Range Value} (hr : intRange? r = none) : countAny fuel visit r = (do
        let step ← stepNumber r.step
        let start ← number r.start
        let stop ← number r.stop
        countFloats fuel visit ⟨start, stop, step⟩) := by
      unfold countAny
      rw [hr]
      cases r.step <;> simp [stepNumber]
    rw [hrun hr, hrun (hrange.trans hr)]
    refine (mimics_stepNumber hstep).bind fun step =>
      (mimics_number (by simp [hstart])).bind fun start => ?_
    exact (mimics_number (by simp [hstop])).bind fun stop =>
      mimics_countFloats hvisit fuel ⟨start, stop, step⟩

theorem mimics_runKind (fuel : Nat) (kind : LoopKind) :
    K.Mimics vs (kindLog log visit fuel kind) (runKind fuel visit kind)
      (runKind fuel visit kind) := by
  have hbound (v : Value) : intBound? (v.renumber K.numbers) = intBound? v := by cases v <;> rfl
  have hnil : K.Mimics [] (log .nil) (visit .nil) (visit .nil) := .flat rfl (hvisit .nil)
  cases kind with
  | times count =>
    refine (mimics_resolve hbound count).bind fun n => .flat (v := .nil) rfl ?_
    exact mimics_repeatTimes hnil _ (by simp)
  | loopWhile condition =>
    have hcondition : K.Mimics [] (exprLog condition) (do return (← eval condition).truthy)
        (do return (← eval condition).truthy) :=
      (mimics_eval condition).andThen fun v => by
        simp only [Carries.renumber, Value.truthy_renumber]
        exact mimics_plain v.truthy
    refine .flat (v := .nil) rfl ?_
    exact mimics_repeatWhile hcondition hnil fuel (by simp)
  | each source =>
    refine (mimics_eval source).bind fun v => ?_
    simp only [Carries.renumber, Carries.values_value]
    intro b t t' ht hvs hP
    rw [List.forall_mem_append] at hP
    obtain ⟨helements, hwithin⟩ := ht.elements hvs List.mem_cons_self hP.1
    rw [machine_bind_apply, machine_bind_apply, helements]
    have hloop : K.Mimics (t.machine.store.elements v ++ (v :: vs))
        (heldLog [v] (overLog log visit (t.machine.store.elements v) .nil)) _ _ :=
      .withHeld (.flat (v := .nil) rfl (mimics_repeatOver hvisit (by simp) (by simp))) [v]
        [v.renumber K.numbers]
    exact hloop b t t' ht hwithin hP.2
  | intRange r =>
    exact (mimics_resolveRange hbound r).bind fun r => mimics_countInts hvisit r
  | floatRange r =>
    have hfloat (v : Value) : (v.renumber K.numbers).asFloat = v.asFloat := by simp
    exact (mimics_resolveRange hfloat r).bind fun r => mimics_countFloats hvisit fuel r
  | anyRange r =>
    refine (mimics_eval r.start).bind fun start => (mimics_eval r.stop).bind fun stop => ?_
    exact (mimics_evalOption r.step).bind fun step =>
      mimics_countAny hvisit fuel (by simp) (by simp) (by simp)

end

section
variable {log : Log} {run : Sequence → Exec Value} {body : Sequence}
  (hrun : K.Mimics [] log (run body) (run body))
include hrun

theorem mimics_iterate (var : Option String) {v : Value} (hv : v ∈ vs) :
    K.Mimics vs (iterateLog log var v) (iterate run var body v)
      (iterate run var body (v.renumber K.numbers)) := by
  refine .withFrame ((mimics_store var hv).after fun _ => hrun.widen.andThen fun last => ?_)
    "loop" none
  refine (mimics_takeFlow .skip).andThen fun f => ?_
  intro b t t' ht hvs _
  rw [machine_bind_apply, machine_bind_apply, ht.machine.cancelled]
  exact ht.ok (last, !f.terminatesLoop && !t.machine.cancelled)
    (List.forall_mem_singleton.mpr (hvs last (by simp))) rfl

theorem mimics_runLoop (fuel : Nat) (var : Option String) (kind : LoopKind) :
    K.Mimics vs (loopLog log fuel run var kind body) (runLoop fuel run var kind body)
      (runLoop fuel run var kind body) := by
  have hvisit (v : Value) : K.Mimics [v] (iterateLog log var v) (iterate run var body v)
      (iterate run var body (v.renumber K.numbers)) := mimics_iterate hrun var (by simp)
  refine (mimics_runKind hvisit fuel kind).attempt.andThen fun r => ?_
  exact (mimics_takeFlow .leave).andThen fun _ => mimics_lift r (by simp)

end

end Replay
end Habitat
