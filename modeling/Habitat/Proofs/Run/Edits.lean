import Habitat.Run.Edit
import Habitat.Proofs.Container.Failure
import Habitat.Proofs.Run.Discipline

/-!
# Statements that fail to change a container

Up to the change itself, a statement that changes a container only makes new ones (`Exec.Grows`).
So if it fails, all containers are as they were, but for a graph that stopped halfway through a
request for several edges (`Store.Spares`).

* `careful_runEdit`: from the value of the container on.
* `failed_edits`: requests and statements that fail.
-/
namespace Habitat

/-- After a failure all containers are as they were, but that the container `c` may be a graph that
stopped halfway. -/
def Store.Spares (s : Store) (c : Value) (e : Fault) (t : Store) : Prop :=
  s.Extends t ∨ ∃ u request err, s.Extends u ∧ u.Halfway c request err t ∧
    e = .error (.container err)

theorem Store.Spares.of_extends {s t u : Store} {c : Value} {e : Fault} (h : t.Spares c e u)
    (hst : s.Extends t) : s.Spares c e u := by
  rcases h with htu | ⟨v, request, err, htv, hhalf, he⟩
  · exact .inl (hst.trans htu)
  · exact .inr ⟨v, request, err, hst.trans htv, hhalf, he⟩

namespace Exec

variable {α β : Type}

/-! ## Steps that make new containers at most -/

/-- On every way out, all containers are as they were. -/
def Grows (x : Exec α) : Prop := ∀ s : State, s.machine.store.Extends (after x s).machine.store

theorem Grows.of_same {x : Exec α} (h : ∀ s, (after x s).machine.store = s.machine.store) :
    Grows x := by
  intro s
  rw [h s]
  exact .refl _

theorem grows_pure (a : α) : Grows (pure a : Exec α) := .of_same fun _ => rfl

theorem grows_fail (e : ExecError) : Grows (fail e : Exec α) := .of_same fun _ => rfl

theorem Grows.bind {x : Exec α} {f : α → Exec β} (hx : Grows x) (hf : ∀ a, Grows (f a)) :
    Grows (x >>= f) := by
  intro s
  have h := hx s
  cases hxs : x s with
  | ok a t =>
    rw [after_ok hxs] at h
    unfold after
    rw [bind_ok hxs]
    exact h.trans (hf a t)
  | error e t =>
    rw [after_error hxs] at h
    rwa [after_error (bind_error hxs)]

theorem Grows.ite {c : Prop} [Decidable c] {x y : Exec α} (hx : Grows x) (hy : Grows y) :
    Grows (if c then x else y) := by
  split
  · exact hx
  · exact hy

theorem grows_machine : Grows machine := .of_same fun _ => rfl

theorem grows_allocate {make : Store → Value × Store} (h : ∀ s : Store, s.Extends (make s).2) :
    Grows (allocate make) := fun s => h s.machine.store

theorem grows_compute {f : Env → Eval α} (hf : ∀ env, (f env).Tame) : Grows (compute f) := by
  intro s
  have h := hf (env s.scope { s.machine with store := .empty }) s.machine.store
  unfold after compute
  dsimp only
  generalize f (env s.scope { s.machine with store := .empty }) s.machine.store = r at h
  cases h with
  | ok hgrown => exact hgrown
  | error hgrown _ => exact hgrown

theorem grows_eval (e : Expr) : Grows (eval e) :=
  grows_compute fun env => (e.eval_tame env).releasing

theorem grows_evalOption (e : Option Expr) : Grows (evalOption e) := by
  cases e with
  | none => exact grows_pure none
  | some e => exact (grows_eval e).bind fun v => grows_pure (some v)

theorem grows_evalOrNil (e : Option Expr) : Grows (evalOrNil e) :=
  (grows_evalOption e).bind fun v => grows_pure (v.getD .nil)

theorem grows_coerce (what : String) (target : BaseType) (v : Value) :
    Grows (coerce what target v) := by
  unfold coerce
  refine .ite (grows_pure v) fun s => ?_
  -- The store is replaced by one that was made of it, which says nothing of other states.
  unfold after
  rw [get_bind_apply]
  cases hcast : Store.cast s.machine.world.speciesOf s.machine.store target v with
  | none => exact .refl _
  | some r =>
    obtain ⟨w, store⟩ := r
    by_cases hexact : v.type = .int ∧ target = .float
    · simp only [hexact, and_self, if_true]
      exact Store.cast_extends hcast
    · simp only [hexact, if_false]
      exact Store.cast_extends hcast

theorem grows_castIndex (all : Bool) (container index : Value) :
    Grows (castIndex all container index) := by
  unfold castIndex
  split
  · exact grows_pure _
  · exact grows_pure _
  · exact grows_pure _
  · exact .ite (grows_pure _) (grows_coerce _ _ _)
  · exact grows_machine.bind fun m => grows_coerce _ _ _

theorem grows_castItem (container item : Value) : Grows (castItem container item) := by
  unfold castItem
  split
  · exact grows_pure item
  · exact grows_machine.bind fun m => grows_coerce _ _ item

theorem grows_castItems (container : Value) (vs : List Value) :
    Grows (castItems container vs) := by
  induction vs with
  | nil => exact grows_pure []
  | cons v rest ih =>
    exact (grows_castItem container v).bind fun w => ih.bind fun ws => grows_pure (w :: ws)

theorem grows_payload (kind : EditKind) (all : Bool) (container : Value) (item : Option Value) :
    Grows (payload kind all container item) := by
  cases item with
  | none => exact grows_pure Payload.missing
  | some v =>
    refine .ite (grows_machine.bind fun m => ?_) ?_
    · exact (grows_castItems container _).bind fun vs => grows_pure (Payload.many vs)
    · exact (grows_castItem container v).bind fun w => grows_pure (Payload.one w)

/-! ## Steps that change one container -/

/-- If the step fails, it has spared the container. -/
def Careful (c : Value) (x : Exec α) : Prop :=
  ∀ s e t, x s = .error e t → s.machine.store.Spares c e t.machine.store

variable {c : Value}

theorem Careful.of_ok {x : Exec α} (h : ∀ s, ∃ a t, x s = .ok a t) : Careful c x := by
  intro s e t he
  obtain ⟨a, u, hx⟩ := h s
  rw [hx] at he
  cases he

theorem Grows.careful {x : Exec α} (hx : Grows x) : Careful c x := by
  intro s e t he
  have h := hx s
  rw [after_error he] at h
  exact .inl h

theorem Careful.bind {x : Exec α} {f : α → Exec β} (hx : Grows x) (hf : ∀ a, Careful c (f a)) :
    Careful c (x >>= f) := by
  intro s e u he
  have h := hx s
  cases hxs : x s with
  | ok a t =>
    rw [after_ok hxs] at h
    rw [bind_ok hxs] at he
    exact (hf a t e u he).of_extends h
  | error e' t =>
    rw [bind_error hxs] at he
    cases he
    exact hx.careful s e u hxs

/-- What comes after a careful step cannot fail. -/
theorem Careful.then_pure {x : Exec α} (hx : Careful c x) (b : β) :
    Careful c (x >>= fun _ => pure b) := by
  intro s e t he
  cases hxs : x s with
  | ok a u =>
    rw [bind_ok hxs] at he
    cases he
  | error e' u =>
    rw [bind_error hxs] at he
    cases he
    exact hx s e t hxs

theorem careful_change (request : Edit) : Careful c (change c request) := by
  intro s e t he
  rcases hedit : s.machine.store.edit c request with ⟨reply, store⟩
  have hstore : onStore (·.edit c request) s =
      .ok reply { s with machine := { s.machine with store := store } } := by
    simp only [onStore, hedit]
  unfold change at he
  rw [bind_ok hstore] at he
  cases reply with
  | ok _ => cases he
  | error err =>
    cases he
    rcases Store.edit_error hedit with heq | hhalf
    · exact .inl (heq ▸ .refl _)
    · exact .inr ⟨s.machine.store, request, err, .refl _, hhalf, rfl⟩

theorem careful_applyAdd (item : Payload) (index : Option Value) :
    Careful c (applyAdd c item index) := by
  unfold applyAdd
  split
  · exact careful_change _
  · exact careful_change _
  · exact careful_change _
  · exact (grows_pure ()).careful

theorem careful_applyRemove (all : Bool) (item : Payload) (index : Option Value) :
    Careful c (applyRemove all c item index) := by
  unfold applyRemove
  cases index with
  | some i =>
    dsimp only
    split
    · exact .bind grows_machine fun m => careful_change _
    · exact careful_change _
  | none =>
    cases item with
    | many vs => exact careful_change _
    | one v => exact careful_change _
    | missing =>
      dsimp only
      split
      · exact careful_change _
      · exact (grows_pure ()).careful

/-- A part of a list that cannot be replaced stays. -/
theorem replaceRange_eq_error {r : Nat} {start stop : Int64} {v : Value} {s t : State} {e : Fault}
    (h : replaceRange r start stop v s = .error e t) : t = s := by
  unfold replaceRange at h
  rw [machine_bind_apply] at h
  cases hr : (s.machine.store.lists.get r).replaceRange s.machine.store start stop v with
  | ok l =>
    rw [hr] at h
    cases h
  | error err =>
    rw [hr] at h
    cases h
    rfl

theorem careful_applyPut (all : Bool) (item : Payload) (index : Option Value) :
    Careful c (applyPut all c item index) := by
  unfold applyPut
  extract_lets i jp
  have hjp : ∀ v, Careful c (jp v) := by
    intro v
    dsimp only [jp]
    split
    · exact careful_change _
    · split
      · intro s e t he
        rw [replaceRange_eq_error he]
        exact .inl (.refl _)
      · exact careful_change _
  cases item with
  | one v => exact .bind (grows_pure v) hjp
  | many vs => exact .bind (grows_allocate fun s => s.extends_addList _) hjp
  | missing => exact .bind (grows_pure _) hjp

/-- The step does nothing where it answers no. -/
def Declines (x : Exec Bool) : Prop := ∀ s t, x s = .ok false t → t = s

theorem declines_addToGraph (kind : EditKind) (f : EditFacets) (item : Option Value) :
    Declines (addToGraph kind f c item) := by
  unfold addToGraph
  split
  · intro s t h
    cases h
  · intro s t h
    obtain ⟨w, u, _, h⟩ := bind_eq_ok h
    obtain ⟨_, _, _, h⟩ := bind_eq_ok h
    cases h
  · intro s t h
    cases h
    rfl

/-- Two careful steps, the second of which runs where the first one has done nothing. -/
theorem Careful.or_else {x : Exec Bool} {y : Exec α} (hx : Careful c x) (hd : Declines x)
    (hy : Careful c y) (a : α) : Careful c (x >>= fun b => if b = true then pure a else y) := by
  intro s e t he
  cases hxs : x s with
  | ok b u =>
    rw [bind_ok hxs] at he
    cases b with
    | true => cases he
    | false =>
      rw [hd s u hxs] at he
      exact hy s e t he
  | error e' u =>
    rw [bind_error hxs] at he
    cases he
    exact hx s e t hxs

theorem careful_addToGraph (kind : EditKind) (f : EditFacets) (item : Option Value) :
    Careful c (addToGraph kind f c item) := by
  unfold addToGraph
  split
  · exact .of_ok fun s => ⟨_, _, rfl⟩
  · exact .bind (grows_evalOrNil _) fun w => (careful_change _).then_pure true
  · exact (grows_pure false).careful

/-- A statement spares its container from where the container is computed on. -/
theorem careful_runEdit (kind : EditKind) (f : EditFacets) :
    ∃ rest : Value → Exec Value, runEdit kind f = eval f.container >>= rest ∧
      ∀ c, Careful c (rest c) := by
  refine ⟨_, rfl, fun container => ?_⟩
  extract_lets done edit start
  have hedit : ∀ index, Careful container (edit index) := by
    intro index
    refine .bind (grows_evalOption _) fun item => ?_
    refine (careful_addToGraph kind f item).or_else (declines_addToGraph kind f item) ?_ container
    refine .bind (grows_payload kind f.all container item) fun item => ?_
    cases kind with
    | add => exact (careful_applyAdd item index).then_pure container
    | remove => exact (careful_applyRemove f.all item index).then_pure container
    | put => exact (careful_applyPut f.all item index).then_pure container
  have hstart : Careful container (start ()) := by
    dsimp only [start]
    cases f.index with
    | none => exact .bind (grows_pure none) hedit
    | some e =>
      refine .bind (grows_eval e) fun i => .bind (grows_castIndex f.all container i) fun j => ?_
      exact .bind (grows_pure (some j)) hedit
  split
  · exact .bind (grows_fail _) fun _ => hstart
  · exact hstart

end Exec

open Exec

/-- A failed request changes the containers exactly if it is one for several edges of a graph, some
of which the graph puts or removes before the first one that it refuses. A part of a list that
cannot be replaced stays, and a statement that fails leaves all containers as they were once it has
computed its own, unless that is a graph which stopped so. -/
theorem failed_edits (s t : Store) (target : Value) (request : Edit) (e : ContainerError) :
    (s.edit target request = (.error e, t) ∧ t ≠ s ↔ s.Halfway target request e t ∧ t ≠ s) ∧
      (∀ (r : Nat) (start stop : Int64) (v : Value) (s t : State) (e : Fault),
        replaceRange r start stop v s = .error e t → t = s) ∧
      ∀ (kind : EditKind) (f : EditFacets) (s t : State) (e : Fault),
        runEdit kind f s = .error e t →
          (eval f.container s = .error e t ∧ s.machine.store.Extends t.machine.store) ∨
            ∃ c u, eval f.container s = .ok c u ∧
              s.machine.store.Extends u.machine.store ∧
              u.machine.store.Spares c e t.machine.store := by
  refine ⟨and_congr_left fun hne => ⟨fun h => ?_, Store.edit_halfway⟩,
    fun r start stop v s t e => replaceRange_eq_error, fun kind f s t e h => ?_⟩
  · exact (Store.edit_error h).resolve_left hne
  · obtain ⟨rest, hrun, hrest⟩ := careful_runEdit kind f
    have hgrows := grows_eval f.container s
    rw [hrun] at h
    cases heval : eval f.container s with
    | error e' u =>
      rw [bind_error heval] at h
      cases h
      rw [after_error heval] at hgrows
      exact .inl ⟨rfl, hgrows⟩
    | ok c u =>
      rw [bind_ok heval] at h
      rw [after_ok heval] at hgrows
      exact .inr ⟨c, u, rfl, hgrows, hrest c u e t h⟩

/-- A graph without edges in the variable `lanes`, and an empty list. -/
def crossing : State :=
  let s := State.fresh ⟨"field", none, [], false, [], []⟩
  { s with
    scope := s.scope.declare "lanes" (.graph 0)
    machine := { s.machine with
      store := { Store.empty with lists := ⟨#[⟨.any, #[]⟩]⟩, graphs := ⟨#[⟨[], []⟩]⟩ } } }

/-- The edge from `a` to `b`, first with the weight 2 and then with a text for a weight. -/
def twoLanes : Edit := .addAll (some (.pair (.str "a") (.str "b"))) [.int 2, .str "x"]

/-- The statement that asks for the same. -/
def addLanes : EditFacets :=
  ⟨.var "lanes" .any, some (.list [.int 2, .str "x"] .any), some (.pair (.str "a") (.str "b")),
    true, .value, none⟩

theorem failed_edits_crossing :
    (∃ e t, t ≠ crossing.machine.store ∧
      crossing.machine.store.edit (.graph 0) twoLanes = (.error e, t) ∧
      crossing.machine.store.Halfway (.graph 0) twoLanes e t) ∧
    (∃ e t, replaceRange 0 0 1 .nil crossing = .error e t ∧ t = crossing) ∧
    ∃ e t, runEdit .add addLanes crossing = .error e t ∧
      (t.machine.store.graphs.get 0).edges.length = 1 ∧
      ∃ c u, eval addLanes.container crossing = .ok c u ∧
        u.machine.store.Spares c e t.machine.store := by
  have hedit : crossing.machine.store.edit (.graph 0) twoLanes =
      (.error (.invalidValue "x" .graph),
        (crossing.machine.store.edit (.graph 0) twoLanes).2) := Prod.ext rfl rfl
  have hne : (crossing.machine.store.edit (.graph 0) twoLanes).2 ≠ crossing.machine.store :=
    fun h => absurd (congrArg (fun s => (s.graphs.get 0).edges.length) h) (by decide +kernel)
  obtain ⟨hrequest, hrange, hstatement⟩ := failed_edits crossing.machine.store _ (.graph 0)
    twoLanes (.invalidValue "x" .graph)
  refine ⟨⟨_, _, hne, hedit, (hrequest.mp ⟨hedit, hne⟩).1⟩, ?_, ?_⟩
  · have hreplace : replaceRange 0 0 1 .nil crossing =
        .error (.error (.container (.indexOutOfBounds 1 0))) crossing := rfl
    exact ⟨_, _, hreplace, hrange _ _ _ _ _ _ _ hreplace⟩
  · have hedges : ((after (runEdit .add addLanes) crossing).machine.store.graphs.get 0).edges.length
        = 1 := by decide +kernel
    have hfails : fails (runEdit .add addLanes crossing) = true := by decide +kernel
    cases hrun : runEdit .add addLanes crossing with
    | ok v t =>
      rw [hrun] at hfails
      cases hfails
    | error e t =>
      rw [after_error hrun] at hedges
      have heval : eval addLanes.container crossing = .ok (.graph 0) crossing := rfl
      rcases hstatement _ _ _ _ _ hrun with ⟨hno, _⟩ | ⟨c, u, hc, _, hspares⟩
      · rw [heval] at hno
        cases hno
      · exact ⟨e, t, rfl, hedges, c, u, hc, hspares⟩

end Habitat
