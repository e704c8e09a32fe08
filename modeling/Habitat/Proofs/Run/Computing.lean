import Habitat.Proofs.Run.Mimicry

/-!
# Expressions are replayed

An expression reads variables, attributes and containers, and makes new containers. What it reads
is in its log, so it has the same value in the replay, but for the numbers of new containers.

* `Replay.mimics_raw`: expressions with all containers that are made on the way.
* `Replay.mimics_eval`: expressions as statements compute them.
-/
namespace Habitat

open Exec

theorem Value.getD_renumber {ρ : Renumbering} (o : Option Value) :
    (o.map (·.renumber ρ)).getD .nil = (o.getD .nil).renumber ρ := by cases o <;> rfl

theorem Value.within_getD {n : Store.Kind → Nat} {o : Option Value}
    (ho : ∀ v, o = some v → v.Within n) : (o.getD .nil).Within n := by
  cases o with
  | some v => exact ho v rfl
  | none => trivial

/-! ## Operators -/

namespace Operators
variable {ρ : Renumbering}

theorem unary_renumber (op : UnaryOp) (v : Value) : unary op (v.renumber ρ) = unary op v := by
  cases op <;> cases v <;> rfl

theorem isFlat_unary {op : UnaryOp} {v w : Value} (h : unary op v = .ok w) : w.isFlat = true := by
  cases op <;> cases v <;> cases h <;> rfl

theorem order_renumber (a b : Value) : order (a.renumber ρ) (b.renumber ρ) = order a b := by
  have hnumbers {a : Value} (ha : ∀ x, a ≠ .str x) (b : Value) :
      order a b = a.asFloat.bind fun x => b.asFloat.bind fun y => compareFloats x y := by
    cases a with
    | str x => exact absurd rfl (ha x)
    | _ => rfl
  cases a with
  | str x => cases b <;> rfl
  | _ => rw [hnumbers (by simp [Value.renumber]), hnumbers (by simp), Value.asFloat_renumber,
      Value.asFloat_renumber]

theorem compare_renumber (op : BinaryOp) (a b : Value) :
    compare op (a.renumber ρ) (b.renumber ρ) = compare op a b := by
  rw [compare, compare, order_renumber, Value.type_renumber, Value.type_renumber]

theorem isFlat_compare {op : BinaryOp} {a b w : Value} (h : compare op a b = .ok w) :
    w.isFlat = true := by
  unfold compare at h
  split at h <;> cases h
  rfl

theorem numeric_renumber (op : BinaryOp) (a b : Value) :
    numeric op (a.renumber ρ) (b.renumber ρ) = numeric op a b := by
  have hdivides (v : Value) : dividesByZero op (v.renumber ρ) = dividesByZero op v := by
    unfold dividesByZero
    rw [Value.asFloat_renumber]
  unfold numeric
  rw [hdivides]
  cases a <;> cases b <;> rfl

theorem isFlat_numeric {op : BinaryOp} {a b w : Value} (h : numeric op a b = .ok w) :
    w.isFlat = true := by
  unfold numeric at h
  split at h
  · cases h
  split at h
  · cases h
    unfold intResult
    split <;> rfl
  · split at h <;> cases h
    rfl

end Operators

/-- What a value adds to a list: the items of another list, or itself. -/
def Store.summand (c : Store) : Value → List Value
  | .list q => (c.lists.get q).items.toList
  | v => [v]

/-! ## Computations -/

/-- What expressions see of a state. -/
def State.sight (t : State) : Env := Exec.env t.scope { t.machine with store := .empty }

namespace Exec
variable {α β : Type}

theorem compute_ok {f : Env → Eval α} {t : State} {a : α} {c : Store}
    (h : f t.sight t.machine.store = .ok a c) :
    compute f t = .ok a ⟨t.scope, { t.machine with store := c }⟩ := by
  unfold compute
  unfold State.sight at h
  simp only [h]

theorem compute_error {f : Env → Eval α} {t : State} {e : ExecError} {c : Store}
    (h : f t.sight t.machine.store = .error e c) :
    compute f t = .error (.error e) ⟨t.scope, { t.machine with store := c }⟩ := by
  unfold compute
  unfold State.sight at h
  simp only [h]

@[simp] theorem compute_pure (a : α) : compute (fun _ => (pure a : Eval α)) = pure a := rfl

@[simp] theorem compute_bind (x : Env → Eval α) (f : Env → α → Eval β) :
    compute (fun env => x env >>= f env) = compute x >>= fun a => compute fun env => f env a := by
  funext t
  cases hx : x t.sight t.machine.store with
  | ok a c =>
    rw [bind_ok (compute_ok hx)]
    cases hf : f t.sight a c with
    | ok b d =>
      rw [compute_ok (a := b) (c := d) (by simp only [bind, EStateM.bind, hx, hf])]
      exact (compute_ok (t := ⟨t.scope, { t.machine with store := c }⟩) hf).symm
    | error e d =>
      rw [compute_error (e := e) (c := d) (by simp only [bind, EStateM.bind, hx, hf])]
      exact (compute_error (t := ⟨t.scope, { t.machine with store := c }⟩) hf).symm
  | error e c =>
    rw [bind_error (compute_error hx)]
    exact compute_error (by simp only [bind, EStateM.bind, hx])

theorem compute_ite (c : Prop) [Decidable c] (x y : Env → Eval α) :
    compute (fun env => if c then x env else y env) = if c then compute x else compute y := by
  split <;> rfl

end Exec

variable {targets : List AgentRef} {s : State}

namespace Replay
variable {K : Replay targets s} {α : Type} [Carries α] {b : Bool} {vs : List Value} {l : Log}
  {t t' : State}

/-- The same answer, without new containers. -/
theorem Tracks.answer (ht : K.Tracks b t t') {f g : Env → Eval α} (r : Except ExecError α)
    (hf : f t.sight t.machine.store = Eval.lift r t.machine.store)
    (hg : g t'.sight t'.machine.store =
      Eval.lift (Carries.renumber K.numbers r) t'.machine.store)
    (hr : ∀ v ∈ Carries.values r, v.Within t.machine.extent) :
    K.Agrees b t.machine.extent (compute f t) (compute g t') := by
  cases r with
  | ok a =>
    rw [compute_ok hf, compute_ok hg]
    exact ht.ok a hr rfl
  | error e =>
    rw [compute_error hf, compute_error hg]
    exact ht.error _

/-- An answer that refers to no container. -/
theorem mimics_answer {f g : Env → Eval Value} (r : Except ExecError Value)
    (hf : ∀ env c, f env c = Eval.lift r c) (hg : ∀ env c, g env c = Eval.lift r c)
    (hr : ∀ v, r = .ok v → v.isFlat = true) : K.Mimics vs l (compute f) (compute g) := by
  intro b t t' ht _ _
  refine ht.answer r (hf _ _) ?_ ?_
  · rw [hg]
    cases r with
    | ok v =>
      exact congrArg (fun v => Eval.lift (.ok v) _) (Value.renumber_of_isFlat (hr v rfl) _).symm
    | error e => rfl
  · cases r with
    | ok v => exact List.forall_mem_singleton.mpr (Value.within_of_isFlat (hr v rfl) _)
    | error e => exact List.forall_mem_nil _

/-! ## Variables, attributes and elements -/

section
variable {m m' : Machine} (h : K.TracksMachine m m')
include h

theorem TracksMachine.within_attribute {a : AgentRef} {name : String} {v : Value}
    (hv : m.world.attribute? a name = some v) : v.Within m.extent :=
  h.closed (.agent a.id) v (List.mem_map_of_mem (Record.mem_of_lookup hv))

theorem TracksMachine.within_at? {target index v : Value} (hv : m.store.at? target index = some v) :
    v.Within m.extent := by
  cases target with
  | list i =>
    simp only [Store.at?, Option.bind_eq_bind, Option.bind_eq_some_iff] at hv
    obtain ⟨j, -, hj⟩ := hv
    exact h.closed (.container .list i) v (Array.mem_toList_iff.mpr (Array.mem_of_getElem? hj))
  | map i =>
    obtain ⟨e, he, rfl⟩ := Option.map_eq_some_iff.mp hv
    exact h.closed (.container .map i) _
      (List.mem_flatMap.mpr ⟨e, List.mem_of_find?_eq_some he, by simp⟩)
  | matrix i =>
    simp only [Store.at?, Option.bind_eq_bind, Option.bind_eq_some_iff] at hv
    obtain ⟨cell, -, hcell⟩ := hv
    unfold MatrixCell.get? at hcell
    split at hcell
    · exact h.closed (.container .matrix i) v
        (Array.mem_toList_iff.mpr (Array.mem_of_getElem? hcell))
    · cases hcell
  | graph i =>
    cases index with
    | pair a b =>
      obtain ⟨w, -, rfl⟩ := Option.map_eq_some_iff.mp hv
      trivial
    | _ => cases hv
  | _ => cases hv

end

/-- The same value, or the same error without one. -/
theorem Tracks.orFail (ht : K.Tracks b t t') {f g : Env → Eval Value} (o : Option Value)
    (e : ExecError) (hf : f t.sight t.machine.store = Expr.orFail o e t.machine.store)
    (hg : g t'.sight t'.machine.store =
      Expr.orFail (o.map (·.renumber K.numbers)) e t'.machine.store)
    (ho : ∀ v, o = some v → v.Within t.machine.extent) :
    K.Agrees b t.machine.extent (compute f t) (compute g t') := by
  cases o with
  | some v => exact ht.answer (.ok v) hf hg (List.forall_mem_singleton.mpr (ho v rfl))
  | none => exact ht.answer (.error e) hf hg (List.forall_mem_nil _)

theorem mimics_lookup (name : String) (e : ExecError) :
    K.Mimics vs (lookupLog name) (compute fun env => Expr.orFail (Expr.lookup? env name) e)
      (compute fun env => Expr.orFail (Expr.lookup? env name) e) := by
  intro b t t' ht _ hP
  have hvar := ht.scope.getVar name
  have hagent := ht.scope.agent
  unfold lookupLog at hP
  cases hv : t.scope.getVar name with
  | some v =>
    rw [hv] at hvar
    refine ht.orFail (some v) e ?_ ?_ fun _ hw => Option.some.inj hw ▸ ht.scope.within_getVar hv
    · simp only [Expr.lookup?, State.sight, env, hv]
    · simp only [Expr.lookup?, State.sight, env, hvar, Option.map_some]
  | none =>
    rw [hv] at hvar
    rw [hv] at hP
    refine ht.orFail (t.scope.agent.bind (t.machine.world.attribute? · name)) e ?_ ?_ fun v hw => ?_
    · simp only [Expr.lookup?, State.sight, env, hv]
    · simp only [Expr.lookup?, State.sight, env, hvar, Option.map_none, hagent]
      cases ha : t.scope.agent with
      | none => rfl
      | some a =>
        rw [ha] at hP
        simp only [Option.bind_some, ht.machine.attribute? (hP _ List.mem_cons_self)]
    · obtain ⟨a, -, ha⟩ := Option.bind_eq_some_iff.mp hw
      exact ht.machine.within_attribute ha

/-- The same element, or `nil` where there is none. -/
theorem Tracks.element (ht : K.Tracks b t t') {f g : Env → Eval Value} (target index : Value)
    (hP : ∀ c ∈ t.machine.store.atReads target index, K.Permits c)
    (hf : f t.sight t.machine.store =
      .ok ((t.machine.store.at? target index).getD .nil) t.machine.store)
    (hg : g t'.sight t'.machine.store =
      .ok ((t'.machine.store.at? (target.renumber K.numbers) (index.renumber K.numbers)).getD .nil)
        t'.machine.store) :
    K.Agrees b t.machine.extent (compute f t) (compute g t') := by
  refine ht.answer (.ok ((t.machine.store.at? target index).getD .nil)) hf ?_ ?_
  · rw [hg, ht.machine.store.at? hP, Value.getD_renumber]
    rfl
  · exact List.forall_mem_singleton.mpr (Value.within_getD fun _ => ht.machine.within_at?)

theorem mimics_attrOf (name : String) (v : Value) :
    K.Mimics vs (attrLog name v) (compute fun env => Expr.attrOf env name v)
      (compute fun env => Expr.attrOf env name (v.renumber K.numbers)) := by
  intro b t t' ht _ hP
  cases v with
  | agent a =>
    refine ht.orFail (t.machine.world.attribute? a name) _ rfl ?_ fun _ =>
      ht.machine.within_attribute
    rw [← ht.machine.attribute? (hP _ List.mem_cons_self)]
    rfl
  | map r =>
    exact ht.element (.map r) (.str name) hP rfl rfl
  | nil =>
    exact ht.answer (.error (.nilAgent ("access to " ++ name))) rfl rfl (List.forall_mem_nil _)
  | _ =>
    refine ht.answer (.error (.notAnAgent ("access to " ++ name) (t.machine.store.text _))) rfl ?_
      (List.forall_mem_nil _)
    rw [← ht.machine.store.text hP]
    rfl

theorem mimics_pointOf (x y : Value) :
    K.Mimics vs (pointLog x y) (compute fun _ => Expr.pointOf x y)
      (compute fun _ => Expr.pointOf (x.renumber K.numbers) (y.renumber K.numbers)) := by
  intro b t t' ht _ hP
  have hpoint {x y : Value} {p q : Float} (c : Store) (hx : x.asFloat = some p)
      (hy : y.asFloat = some q) : Expr.pointOf x y c = Eval.lift (.ok (.point p q)) c := by
    unfold Expr.pointOf
    rw [hx, hy]
    rfl
  have hother {x y : Value} (c : Store) (hxy : ¬(x.asFloat.isSome && y.asFloat.isSome) = true) :
      Expr.pointOf x y c = Eval.lift (.error (.invalidOperation "point"
        ("\x7b" ++ c.text x ++ ", " ++ c.text y ++ "\x7d"))) c := by
    unfold Expr.pointOf
    cases hx : x.asFloat <;> cases hy : y.asFloat <;> first | rfl | simp [hx, hy] at hxy
  unfold pointLog at hP
  split at hP
  case isTrue hboth =>
    obtain ⟨⟨p, hp⟩, q, hq⟩ := by simpa [Option.isSome_iff_exists] using hboth
    refine ht.answer _ (hpoint _ hp hq) (hpoint _ ?_ ?_) (List.forall_mem_singleton.mpr trivial)
    · rw [Value.asFloat_renumber, hp]
    · rw [Value.asFloat_renumber, hq]
  case isFalse hboth =>
    rw [Log.ofStore, List.forall_mem_append] at hP
    refine ht.answer _ (hother _ hboth) ((hother _ ?_).trans ?_) (List.forall_mem_nil _)
    · rwa [Value.asFloat_renumber, Value.asFloat_renumber]
    · rw [ht.machine.store.text hP.1, ht.machine.store.text hP.2]
      rfl

/-! ## Operators -/

/-- A new container with the same contents. -/
theorem Tracks.allocate (ht : K.Tracks b t t') {f g : Env → Eval Value} {k : Store.Kind}
    {o o' : Object} {made made' : Value × Store}
    (hf : f t.sight t.machine.store = .ok made.1 made.2)
    (hg : g t'.sight t'.machine.store = .ok made'.1 made'.2)
    (hmade : t.machine.store.Makes k o made) (hmade' : t'.machine.store.Makes k o' made')
    (ho : o.Within t.machine.extent) (ho' : o' = o.renumber K.numbers) :
    K.Agrees b t.machine.extent (compute f t) (compute g t') := by
  rw [compute_ok hf, compute_ok hg]
  exact ht.make hmade hmade' ho ho'

/-- A list, and what is added to it. -/
theorem mimics_extended (r : Nat) {w : Value} (hw : w ∈ vs) :
    K.Mimics vs (operatorLog .add (.list r) w)
      (compute fun _ => Operators.arithmetic .add (.list r) w)
      (compute fun _ => Operators.arithmetic .add (.list (K.numbers .list r))
        (w.renumber K.numbers)) := by
  intro b t t' ht hvs hP
  have hlist := ht.machine.store.list (i := r) fun c hc => hP c (List.mem_append_left _ hc)
  have hsummand : t'.machine.store.summand (w.renumber K.numbers) =
      (t.machine.store.summand w).map (·.renumber K.numbers) := by
    cases w with
    | list q =>
      have hother := ht.machine.store.list (i := q) fun c hc => hP c (List.mem_append_right _ hc)
      simp only [Store.summand, Value.renumber, hother, ListCell.renumber, Array.toList_map]
    | _ => rfl
  refine ht.allocate ?_ ?_
    (Store.makes_addList _ ⟨.any, (t.machine.store.lists.get r).items ++
      (t.machine.store.summand w).toArray⟩)
    (Store.makes_addList _ ⟨.any, (t'.machine.store.lists.get (K.numbers .list r)).items ++
      (t'.machine.store.summand (w.renumber K.numbers)).toArray⟩) (fun u hu => ?_) ?_
  · cases w <;> rfl
  · cases w <;> rfl
  · have hu : u ∈ (t.machine.store.lists.get r).items.toList ++ t.machine.store.summand w := by
      simpa [Object.values] using hu
    rcases List.mem_append.mp hu with hu | hu
    · exact ht.machine.closed (.container .list r) u hu
    · cases w with
      | list q => exact ht.machine.closed (.container .list q) u hu
      | _ => exact List.mem_singleton.mp hu ▸ hvs _ hw
  · rw [hlist, hsummand]
    simp [ListCell.renumber, Object.renumber, Object.mapValues]

theorem mimics_arithmetic (op : BinaryOp) {v w : Value} (hw : w ∈ vs) :
    K.Mimics vs (operatorLog op v w) (compute fun _ => Operators.arithmetic op v w)
      (compute fun _ =>
        Operators.arithmetic op (v.renumber K.numbers) (w.renumber K.numbers)) := by
  have hnumeric (l : Log) (hrun : ∀ c, Operators.arithmetic op v w c =
        Eval.lift (Operators.numeric op v w) c)
      (hreplay : ∀ c, Operators.arithmetic op (v.renumber K.numbers) (w.renumber K.numbers) c =
        Eval.lift (Operators.numeric op (v.renumber K.numbers) (w.renumber K.numbers)) c) :
      K.Mimics vs l (compute fun _ => Operators.arithmetic op v w)
        (compute fun _ =>
          Operators.arithmetic op (v.renumber K.numbers) (w.renumber K.numbers)) :=
    mimics_answer _ (fun _ => hrun)
      (fun _ c => (hreplay c).trans (congrArg (Eval.lift · c) (Operators.numeric_renumber op v w)))
      fun _ => Operators.isFlat_numeric
  cases op with
  | add =>
    cases v with
    | str x =>
      intro b t t' ht _ hP
      refine ht.answer (.ok (.str (x ++ t.machine.store.text w))) rfl ?_
        (List.forall_mem_singleton.mpr trivial)
      rw [← ht.machine.store.text hP]
      rfl
    | list r => exact mimics_extended r hw
    | point x y =>
      cases w with
      | point x' y' =>
        exact mimics_answer (.ok (.point (x + x') (y + y'))) (fun _ _ => rfl) (fun _ _ => rfl)
          (by rintro _ ⟨⟩; rfl)
      | _ => exact hnumeric _ (fun _ => rfl) fun _ => rfl
    | _ => exact hnumeric _ (fun _ => rfl) fun _ => rfl
  | sub =>
    cases v with
    | point x y =>
      cases w with
      | point x' y' =>
        exact mimics_answer (.ok (.point (x - x') (y - y'))) (fun _ _ => rfl) (fun _ _ => rfl)
          (by rintro _ ⟨⟩; rfl)
      | _ => exact hnumeric _ (fun _ => rfl) fun _ => rfl
    | _ => exact hnumeric _ (fun _ => rfl) fun _ => rfl
  | _ => exact hnumeric _ (fun _ => rfl) fun _ => rfl

theorem mimics_operator (op : BinaryOp) {v w : Value} (hw : w ∈ vs) :
    K.Mimics vs (operatorLog op v w) (compute fun _ => Operators.binary op v w)
      (compute fun _ => Operators.binary op (v.renumber K.numbers) (w.renumber K.numbers)) := by
  cases op with
  | eq =>
    intro b t t' ht _ hP
    refine ht.answer (.ok (.bool (t.machine.store.eq v w))) rfl ?_
      (List.forall_mem_singleton.mpr trivial)
    rw [← ht.machine.store.eq hP]
    rfl
  | ne =>
    intro b t t' ht _ hP
    refine ht.answer (.ok (.bool (!t.machine.store.eq v w))) rfl ?_
      (List.forall_mem_singleton.mpr trivial)
    rw [← ht.machine.store.eq hP]
    rfl
  | lt | le | gt | ge =>
    refine mimics_answer (Operators.compare _ v w) (fun _ _ => rfl) (fun _ _ => ?_)
      fun _ => Operators.isFlat_compare
    exact congrArg (Eval.lift · _) (Operators.compare_renumber _ v w)
  | and =>
    refine mimics_answer (.ok (.bool (v.truthy && w.truthy))) (fun _ _ => rfl) (fun _ _ => ?_) ?_
    · rw [Operators.binary, Value.truthy_renumber, Value.truthy_renumber]
      rfl
    · rintro _ ⟨⟩
      rfl
  | or =>
    refine mimics_answer (.ok (.bool (v.truthy || w.truthy))) (fun _ _ => rfl) (fun _ _ => ?_) ?_
    · rw [Operators.binary, Value.truthy_renumber, Value.truthy_renumber]
      rfl
    · rintro _ ⟨⟩
      rfl
  | _ => exact mimics_arithmetic _ (by simp_all)

theorem mimics_sum (items : List Value) (acc : Value) (hitems : items ⊆ vs)
    (hacc : [acc] ⊆ vs) :
    K.Mimics vs (sumLog items acc) (compute fun _ => Operators.sum items acc)
      (compute fun _ =>
        Operators.sum (items.map (·.renumber K.numbers)) (acc.renumber K.numbers)) := by
  induction items generalizing acc vs with
  | nil => exact mimics_pure acc hacc
  | cons v rest ih =>
    rw [List.cons_subset] at hitems
    simp only [List.map_cons, Operators.sum, compute_bind]
    exact (mimics_operator .add hitems.1).bind fun a => ih a (by simp [hitems]) (by simp)

theorem mimics_call (function : Builtin) (args : List Value) (hargs : args ⊆ vs) :
    K.Mimics vs (builtinLog function args)
      (compute fun env => Operators.call env.dead function args)
      (compute fun env =>
        Operators.call env.dead function (args.map (·.renumber K.numbers))) := by
  have hwrong (l : Log) (e : ExecError) {f g : Env → Eval Value}
      (hf : ∀ env c, f env c = .error e c) (hg : ∀ env c, g env c = .error e c) :
      K.Mimics vs l (compute f) (compute g) := mimics_answer (.error e) hf hg fun _ h => by cases h
  cases function with
  | length =>
    rcases args with _ | ⟨v, _ | ⟨w, rest⟩⟩
    · exact hwrong _ _ (fun _ _ => rfl) fun _ _ => rfl
    · intro b t t' ht _ hP
      cases v with
      | str x =>
        exact ht.answer (.ok (.int (Int64.ofNat x.length))) rfl rfl
          (List.forall_mem_singleton.mpr trivial)
      | _ =>
        refine ht.answer (.ok (.int (Int64.ofNat (t.machine.store.length _)))) rfl ?_
          (List.forall_mem_singleton.mpr trivial)
        rw [← ht.machine.store.length hP]
        rfl
    · exact hwrong _ _ (fun _ _ => by cases v <;> rfl) fun _ _ => by cases v <;> rfl
  | contains =>
    rcases args with _ | ⟨v, _ | ⟨w, _ | ⟨u, rest⟩⟩⟩
    · exact hwrong _ _ (fun _ _ => rfl) fun _ _ => rfl
    · exact hwrong _ _ (fun _ _ => rfl) fun _ _ => rfl
    · intro b t t' ht _ hP
      rw [builtinLog, Log.ofStore, List.forall_mem_append] at hP
      have hany := any_renumber (f := Value.renumber K.numbers)
        (q := (t'.machine.store.eq · (w.renumber K.numbers)))
        (fun _ => ht.machine.store.eq) hP.2
      rw [← ht.machine.store.elements hP.1] at hany
      refine ht.answer (.ok (.bool ((t.machine.store.elements v).any (t.machine.store.eq · w)))) rfl
        ?_ (List.forall_mem_singleton.mpr trivial)
      rw [← hany]
      rfl
    · exact hwrong _ _ (fun _ _ => rfl) fun _ _ => rfl
  | «at» =>
    rcases args with _ | ⟨v, _ | ⟨w, _ | ⟨u, rest⟩⟩⟩
    · exact hwrong _ _ (fun _ _ => rfl) fun _ _ => rfl
    · exact hwrong _ _ (fun _ _ => rfl) fun _ _ => rfl
    · intro b t t' ht _ hP
      simp only [builtinLog] at hP
      cases hv : v.isContainer with
      | true =>
        rw [hv, if_pos rfl] at hP
        refine ht.element v w hP (if_pos hv) (if_pos ?_)
        rw [Value.isContainer_renumber, hv]
      | false =>
        refine ht.answer (.error (.invalidOperation "at" (v.type.name ++ " is not a container")))
          (if_neg (by simp [hv])) ((if_neg (by simp [hv])).trans ?_) (List.forall_mem_nil _)
        rw [Value.type_renumber]
        rfl
    · exact hwrong _ _ (fun _ _ => rfl) fun _ _ => rfl
  | dead =>
    rcases args with _ | ⟨v, _ | ⟨w, rest⟩⟩
    · exact hwrong _ _ (fun _ _ => rfl) fun _ _ => rfl
    · cases v with
      | nil =>
        exact mimics_answer (.ok (.bool true)) (fun _ _ => rfl) (fun _ _ => rfl)
          (by rintro _ ⟨⟩; rfl)
      | agent a =>
        intro b t t' ht _ hP
        refine ht.answer (.ok (.bool (t.machine.world.isDead a))) rfl ?_
          (List.forall_mem_singleton.mpr trivial)
        rw [← ht.machine.world.dead a (hP _ List.mem_cons_self)]
        rfl
      | _ => exact hwrong _ _ (fun _ _ => rfl) fun _ _ => rfl
    · exact hwrong _ _ (fun _ _ => by cases v <;> rfl) fun _ _ => by cases v <;> rfl
  | sum =>
    rcases args with _ | ⟨v, _ | ⟨w, rest⟩⟩
    · exact hwrong _ _ (fun _ _ => rfl) fun _ _ => rfl
    · intro b t t' ht hvs hP
      rw [builtinLog, List.forall_mem_append] at hP
      have helements := ht.machine.store.elements hP.1
      have hvalues : ∀ u ∈ .int 0 :: t.machine.store.elements v, u.Within t.machine.extent :=
        List.forall_mem_cons.mpr ⟨trivial, ht.machine.within_elements (hvs v (by simp_all))⟩
      have hsum := mimics_sum (t.machine.store.elements v) (.int 0) (by simp) (by simp) b t t' ht
        hvalues hP.2
      rw [← helements] at hsum
      exact hsum
    · exact hwrong _ _ (fun _ _ => rfl) fun _ _ => rfl

theorem mimics_castTo (target : BaseType) {v : Value} (hv : v ∈ vs) :
    K.Mimics vs (castLog target v) (compute fun env => Expr.castTo env target v)
      (compute fun env => Expr.castTo env target (v.renumber K.numbers)) := by
  intro b t t' ht hvs hP
  have hmade {t : State} {v w : Value} {c : Store}
      (h : Store.cast t.sight.speciesOf t.machine.store target v = some (w, c)) :
      Expr.castTo t.sight target v t.machine.store = .ok w c := by
    unfold Expr.castTo
    rw [h]
  have hrefused {t : State} {v : Value}
      (h : Store.cast t.sight.speciesOf t.machine.store target v = none) :
      Expr.castTo t.sight target v t.machine.store = Eval.lift (.error (.invalidOperation "cast"
        ("cannot cast " ++ v.type.name ++ " to " ++ target.name))) t.machine.store := by
    unfold Expr.castTo
    rw [h]
    rfl
  rcases ht.cast (hvs v hv) hP with ⟨hnone, hnone'⟩ | ⟨made, made', hsome, hsome', -, hagrees⟩
  · refine ht.answer (.error _) (hrefused hnone) ((hrefused hnone').trans ?_)
      (List.forall_mem_nil _)
    rw [Value.type_renumber]
    rfl
  · rw [compute_ok (hmade hsome), compute_ok (hmade hsome')]
    exact hagrees

/-! ## Expressions -/

/-- An agent of the scope, or `nil` where there is none. -/
theorem mimics_agentOf {f : Env → Option AgentRef}
    (hf : ∀ b t t', K.Tracks b t t' → f t'.sight = f t.sight) :
    K.Mimics vs l (compute fun env => pure (((f env).map Value.agent).getD .nil))
      (compute fun env => pure (((f env).map Value.agent).getD .nil)) := by
  intro b t t' ht _ _
  have hflat : (((f t.sight).map Value.agent).getD .nil).isFlat = true := by
    cases f t.sight <;> rfl
  refine ht.answer (.ok (((f t.sight).map Value.agent).getD .nil)) rfl ?_
    (List.forall_mem_singleton.mpr (Value.within_of_isFlat hflat _))
  rw [hf b t t' ht]
  exact congrArg (fun v => Eval.lift (.ok v) _) (Value.renumber_of_isFlat hflat _).symm

/-- A value that refers to no container. -/
theorem mimics_flat {v : Value} (hv : v.isFlat = true) : K.Mimics vs l (pure v) (pure v) :=
  fun _ _ _ ht _ _ => ht.ok v (List.forall_mem_singleton.mpr (Value.within_of_isFlat hv _))
    (Value.renumber_of_isFlat hv _).symm

theorem mimics_truth (v : Value) : K.Mimics vs l (pure (Value.bool v.truthy))
    (pure (Value.bool (v.renumber K.numbers).truthy)) := by
  rw [Value.truthy_renumber]
  exact mimics_flat rfl

theorem mimics_pair {v w : Value} (hv : v ∈ vs) (hw : w ∈ vs) :
    K.Mimics vs l (pure (Value.pair v w))
      (pure (Value.pair (v.renumber K.numbers) (w.renumber K.numbers))) := fun _ _ _ ht hvs _ =>
  ht.ok (Value.pair v w) (List.forall_mem_singleton.mpr ⟨hvs v hv, hvs w hw⟩) rfl

theorem mimics_newMap {es : List (Value × Value)} (hes : Carries.values es ⊆ vs) :
    K.Mimics vs (.ofStore fun c => MapCell.entryReads c .any .any es)
      (compute fun _ => Eval.allocate (·.newMapOf es))
      (compute fun _ => Eval.allocate (·.newMapOf (Carries.renumber K.numbers es))) := by
  intro b t t' ht hvs hP
  refine ht.allocate rfl rfl (Store.makes_newMap _ _) (Store.makes_newMap _ _) ?_ ?_
  · refine Store.forall_map_iff.mpr (MapCell.forall_ofEntries fun e he => ?_)
    have hin {v : Value} (hv : v ∈ [e.1, e.2]) : v.Within t.machine.extent :=
      hvs v (hes (List.mem_flatMap.mpr ⟨e, he, hv⟩))
    exact ⟨hin (by simp), hin (by simp)⟩
  · exact congrArg Object.map (MapCell.ofEntries_renumber ht.machine.store hP)

theorem mimics_newMatrix (cols rows : Value) {fill : Value} (hfill : fill ∈ vs) :
    K.Mimics vs l
      (compute fun _ =>
        Eval.allocate (·.newMatrix (.filled (Expr.extent cols) (Expr.extent rows) fill)))
      (compute fun _ => Eval.allocate (·.newMatrix (.filled (Expr.extent (cols.renumber K.numbers))
        (Expr.extent (rows.renumber K.numbers)) (fill.renumber K.numbers)))) := by
  intro b t t' ht hvs _
  refine ht.allocate rfl rfl (Store.makes_newMatrix _ _) (Store.makes_newMatrix _ _) ?_ ?_
  · intro u hu
    have hu : u ∈ List.replicate (Expr.extent cols * Expr.extent rows) fill := by
      simpa [Object.values, MatrixCell.filled] using hu
    exact List.eq_of_mem_replicate hu ▸ hvs fill hfill
  · simp [Object.renumber, Object.mapValues, MatrixCell.filled, Expr.extent]

theorem mimics_newGraph : K.Mimics vs l (compute fun _ => Eval.allocate (·.newGraph ⟨[], []⟩))
    (compute fun _ => Eval.allocate (·.newGraph ⟨[], []⟩)) := by
  intro b t t' ht _ _
  exact ht.allocate rfl rfl (Store.makes_newGraph _ _) (Store.makes_newGraph _ _)
    (fun _ hu => absurd hu List.not_mem_nil) rfl

/-- The same agents are reached. -/
theorem mimics_population (name : String) :
    K.Mimics vs (reachableLog name)
      (compute fun env => Eval.allocate fun c =>
        c.newList .agent ((env.population c name).map .agent))
      (compute fun env => Eval.allocate fun c =>
        c.newList .agent ((env.population c name).map .agent)) := by
  intro b t t' ht hvs hP
  have hreached : t'.machine.world.reachable (holds t') t'.scope.agent name =
      t.machine.world.reachable (holds t) t.scope.agent name := by
    rw [ht.scope.agent]
    exact ht.machine.world.reachable hP _
  have hreplay : ∀ as, as = t'.machine.world.reachable (holds t') t'.scope.agent name →
      compute (fun env => Eval.allocate fun c =>
        c.newList .agent ((env.population c name).map .agent)) t' = agentList as t' := by
    rintro _ rfl
    rfl
  rw [hreplay _ hreached.symm]
  exact mimics_agentList _ b t t' ht hvs hP

mutual

/-- The same value, with all containers that are made on the way. -/
theorem mimics_raw : (e : Expr) → K.Mimics [] (exprLog e) (raw e) (raw e)
  | .nil | .bool _ | .int _ | .float _ | .str _ | .species _ => by
    simp only [raw, Expr.eval]
    exact mimics_answer (.ok _) (fun _ _ => rfl) (fun _ _ => rfl) (by rintro _ ⟨⟩; rfl)
  | .selfAgent => by
    simp only [raw, Expr.eval]
    exact mimics_agentOf fun _ _ _ ht => ht.scope.agent
  | .myself => by
    simp only [raw, Expr.eval]
    exact mimics_agentOf fun _ _ _ ht => ht.scope.myself
  | .var name _ => by
    simp only [raw, Expr.eval]
    exact mimics_lookup name _
  | .attr target name => by
    simp only [raw, Expr.eval, compute_bind]
    exact (mimics_raw target).bind fun v => mimics_attrOf name v
  | .unary op e => by
    simp only [raw, Expr.eval, compute_bind]
    refine (mimics_raw e).andThen fun v => mimics_answer (Operators.unary op v) (fun _ _ => rfl) ?_
      fun _ => Operators.isFlat_unary
    exact fun _ c => congrArg (Eval.lift · c) (Operators.unary_renumber op v)
  | .binary op l r => by
    have hl := mimics_raw l
    have hr := mimics_raw r
    cases op
    case and =>
      simp only [raw, Expr.eval, compute_bind, compute_pure, compute_ite]
      refine hl.bind fun a => ?_
      simp only [Carries.renumber, Value.truthy_renumber]
      cases a.truthy with
      | true => exact hr.widen.andThen fun b => mimics_truth b
      | false => exact mimics_flat rfl
    case or =>
      simp only [raw, Expr.eval, compute_bind, compute_pure, compute_ite]
      refine hl.bind fun a => ?_
      simp only [Carries.renumber, Value.truthy_renumber]
      cases a.truthy with
      | true => exact mimics_flat rfl
      | false => exact hr.widen.andThen fun b => mimics_truth b
    all_goals
      simp only [raw, Expr.eval, compute_bind]
      exact hl.bind fun a => hr.widen.bind fun b => mimics_operator _ (by simp)
  | .list items content => by
    simp only [raw, Expr.eval, compute_bind]
    exact (mimics_rawAll items).andThen fun vs => mimics_newList content (by simp)
  | .map entries => by
    simp only [raw, Expr.eval, compute_bind]
    exact (mimics_rawEntries entries).bind fun es => mimics_newMap (by simp)
  | .pair k v => by
    simp only [raw, Expr.eval, compute_bind, compute_pure]
    exact (mimics_raw k).bind fun a =>
      (mimics_raw v).widen.andThen fun b => mimics_pair (by simp) (by simp)
  | .point x y => by
    simp only [raw, Expr.eval, compute_bind]
    exact (mimics_raw x).bind fun a => (mimics_raw y).widen.bind fun b => mimics_pointOf a b
  | .matrix cols rows fill => by
    simp only [raw, Expr.eval, compute_bind]
    exact (mimics_raw cols).bind fun c => (mimics_raw rows).widen.bind fun r =>
      (mimics_raw fill).widen.andThen fun v => mimics_newMatrix c r (by simp)
  | .graph => by
    simp only [raw, Expr.eval]
    exact mimics_newGraph
  | .population name => by
    simp only [raw, Expr.eval]
    exact mimics_population name
  | .cast target e => by
    simp only [raw, Expr.eval, compute_bind]
    exact (mimics_raw e).bind fun v => mimics_castTo target (by simp)
  | .call function args => by
    simp only [raw, Expr.eval, compute_bind]
    exact (mimics_rawAll args).bind fun vs => mimics_call function vs (by simp)
  | .embedded inner _ _ _ => by
    simp only [raw, Expr.eval]
    exact mimics_raw inner

theorem mimics_rawAll : (es : List Expr) → K.Mimics [] (exprsLog es) (rawAll es) (rawAll es)
  | [] => mimics_pure [] (by simp)
  | e :: rest => by
    simp only [rawAll, Expr.evalAll, compute_bind, compute_pure]
    exact (mimics_raw e).bind fun v => (mimics_rawAll rest).widen.andThen fun vs =>
      mimics_pure (v :: vs) (by simp)

theorem mimics_rawEntries :
    (es : List (Expr × Expr)) → K.Mimics [] (entriesLog es) (rawEntries es) (rawEntries es)
  | [] => mimics_pure [] (by simp)
  | (k, v) :: rest => by
    simp only [rawEntries, Expr.evalEntries, compute_bind, compute_pure]
    exact (mimics_raw k).bind fun a => (mimics_raw v).widen.bind fun b =>
      (mimics_rawEntries rest).widen.andThen fun es => mimics_pure ((a, b) :: es) (by simp)

end

/-- The same value. New containers are dropped in both where it refers to none. -/
theorem mimics_eval (e : Expr) : K.Mimics vs (exprLog e) (eval e) (eval e) := by
  have hok {t u : State} {v : Value} (h : raw e t = .ok v u) :
      eval e t = .ok v (if v.isFlat then t else u) := by
    have htame := e.eval_tame t.sight t.machine.store
    cases he : e.eval t.sight t.machine.store with
    | error f c =>
      rw [raw, compute_error he] at h
      cases h
    | ok w c =>
      rw [raw, compute_ok he] at h
      cases h
      rw [he] at htame
      cases htame with
      | ok hgrown =>
        have heval : (e.eval t.sight).releasing t.machine.store =
            .ok v (if v.isFlat then t.machine.store else c) := by
          simp only [Eval.releasing, he, hgrown.shrink_eq]
        rw [eval, compute_ok heval]
        split <;> rfl
  have herror {t u : State} {f : Fault} (h : raw e t = .error f u) : eval e t = .error f t := by
    have htame := e.eval_tame t.sight t.machine.store
    cases he : e.eval t.sight t.machine.store with
    | ok v c =>
      rw [raw, compute_ok he] at h
      cases h
    | error g c =>
      rw [raw, compute_error he] at h
      cases h
      rw [he] at htame
      cases htame with
      | error hgrown =>
        have heval : (e.eval t.sight).releasing t.machine.store = .error g t.machine.store := by
          simp only [Eval.releasing, he, hgrown.shrink_eq]
        rw [eval, compute_error heval]
  intro b t t' ht _ hP
  have hraw := mimics_raw e b t t' ht (List.forall_mem_nil _) hP
  generalize hr : raw e t = r at hraw
  generalize hr' : raw e t' = r' at hraw
  cases hraw with
  | @ok v u u' within grown tracks =>
    have hsame : (v.renumber K.numbers).isFlat = v.isFlat := Value.isFlat_renumber ..
    rw [hok hr, hok hr']
    simp only [Carries.renumber, hsame]
    cases hflat : v.isFlat with
    | true =>
      exact ht.ok v (List.forall_mem_singleton.mpr (Value.within_of_isFlat hflat _)) rfl
    | false => exact .ok within grown tracks
  | error =>
    rw [herror hr, herror hr']
    exact ht.error _

theorem mimics_evalOption (e : Option Expr) :
    K.Mimics vs (optionLog e) (evalOption e) (evalOption e) := by
  cases e with
  | some e => exact (mimics_eval e).andThen fun v => mimics_pure (some v) (by simp)
  | none => exact mimics_pure (none : Option Value) (by simp)

theorem mimics_evalOrNil (e : Option Expr) :
    K.Mimics vs (optionLog e) (evalOrNil e) (evalOrNil e) := by
  refine (mimics_evalOption e).andThen fun v => ?_
  cases v with
  | some v => exact mimics_pure v (by simp)
  | none => exact mimics_flat rfl

end Replay
end Habitat
