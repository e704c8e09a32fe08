import Habitat.Expr.Eval
import Habitat.Proofs.Store.Reach

/-!
# How expressions end

An expression makes new containers and leaves those there are as they were, also when it fails.
Without an executing agent it gives `nil` for it, or does not find a variable; it never asks for
an agent. Both are said of one result (`Eval.Sane`), so that one walk over expressions shows them:
`eval_tame`.
-/
namespace Habitat

/-- The computation never fails for want of an executing agent. -/
def Eval.Plain {α : Type} (x : Eval α) : Prop :=
  ∀ s e t, x s = .error e t → ∀ statement, e ≠ .noAgent statement

namespace Eval

variable {α β : Type}

/-- A result from the containers `s`: all of them are still there, and no executing agent was
asked for. -/
inductive Sane (s : Store) : EStateM.Result ExecError Store α → Prop
  | ok {a : α} {t : Store} (grown : s.Extends t) : Sane s (.ok a t)
  | error {e : ExecError} {t : Store} (grown : s.Extends t)
      (plain : ∀ statement, e ≠ .noAgent statement) : Sane s (.error e t)

/-- The computation has sane results only. -/
def Tame (x : Eval α) : Prop := ∀ s, Sane s (x s)

theorem Sane.of_extends {s t : Store} {r : EStateM.Result ExecError Store α} (h : Sane t r)
    (hst : s.Extends t) : Sane s r := by
  cases h with
  | ok hgrown => exact .ok (hst.trans hgrown)
  | error hgrown hplain => exact .error (hst.trans hgrown) hplain

theorem Tame.plain {x : Eval α} (hx : Tame x) : Plain x := by
  intro s e t he
  have h := hx s
  rw [he] at h
  cases h with
  | error _ plain => exact plain

theorem tame_pure (a : α) : Tame (pure a : Eval α) := fun s => .ok (.refl s)

theorem tame_allocate {make : Store → Value × Store} (h : ∀ s : Store, s.Extends (make s).2) :
    Tame (allocate make) := fun s => .ok (h s)

theorem Tame.bind {x : Eval α} {f : α → Eval β} (hx : Tame x) (hf : ∀ a, Tame (f a)) :
    Tame (x >>= f) := by
  intro s
  change Sane s (EStateM.bind x f s)
  unfold EStateM.bind
  have h := hx s
  generalize x s = r at h
  cases h with
  | ok hgrown => exact (hf _ _).of_extends hgrown
  | error hgrown hplain => exact .error hgrown hplain

theorem Tame.releasing {x : Eval Value} (hx : Tame x) : Tame x.releasing := by
  intro s
  unfold Eval.releasing
  dsimp only
  have h := hx s
  generalize x s = r at h
  cases h with
  | ok hgrown =>
    dsimp only
    split
    · exact .ok hgrown.shrink
    · exact .ok hgrown
  | error hgrown hplain => exact .error hgrown.shrink hplain

theorem tame_lift {r : Except ExecError α}
    (h : ∀ e, r = .error e → ∀ statement, e ≠ .noAgent statement) : Tame (lift r) := by
  intro s
  cases r with
  | ok a => exact .ok (.refl s)
  | error e => exact .error (.refl s) (h e rfl)

end Eval

namespace Operators

open Eval

theorem unary_error {op : UnaryOp} {v : Value} {e : ExecError} (h : unary op v = .error e) :
    ∀ statement, e ≠ .noAgent statement := by
  unfold unary invalid at h
  split at h <;> cases h
  simp

theorem compare_error {op : BinaryOp} {a b : Value} {e : ExecError}
    (h : compare op a b = .error e) : ∀ statement, e ≠ .noAgent statement := by
  unfold compare invalid at h
  split at h <;> cases h
  simp

theorem numeric_error {op : BinaryOp} {a b : Value} {e : ExecError}
    (h : numeric op a b = .error e) : ∀ statement, e ≠ .noAgent statement := by
  unfold numeric invalid at h
  split at h
  · cases h; simp
  · split at h
    · cases h
    · split at h <;> cases h
      simp

theorem arithmetic_tame (op : BinaryOp) (a b : Value) : Tame (arithmetic op a b) := by
  intro s
  unfold arithmetic
  split
  case h_1 | h_3 | h_4 => exact .ok (.refl s)
  case h_2 => exact .ok (s.extends_addList _)
  case h_5 => exact tame_lift (fun _ h => numeric_error h) s

theorem binary_tame (op : BinaryOp) (a b : Value) : Tame (binary op a b) := by
  intro s
  unfold binary
  cases op
  case eq | ne | and | or => exact .ok (.refl s)
  case lt | le | gt | ge => exact tame_lift (fun _ h => compare_error h) s
  case add | sub | mul | div | mod => exact arithmetic_tame _ a b s

theorem sum_tame (vs : List Value) (acc : Value) : Tame (sum vs acc) := by
  induction vs generalizing acc with
  | nil => exact tame_pure acc
  | cons v rest ih => exact (binary_tame .add acc v).bind ih

theorem call_tame (dead : AgentRef → Bool) (f : Builtin) (args : List Value) :
    Tame (call dead f args) := by
  intro s
  unfold call
  split
  case h_8 c => exact sum_tame (s.elements c) (.int 0) s
  case h_4 =>
    split
    · exact .ok (.refl s)
    · exact .error (.refl s) (by simp)
  all_goals first | exact .ok (.refl s) | exact .error (.refl s) (by simp)

end Operators

namespace Store

/-- A cast makes at most a new list. -/
theorem cast_extends {speciesOf : AgentRef → String} {s t : Store} {target : BaseType}
    {v w : Value} (h : cast speciesOf s target v = some (w, t)) : s.Extends t := by
  have hsame : ∀ o : Option Value, o.map (·, s) = some (w, t) → s.Extends t := by
    intro o ho
    obtain ⟨_, _, hpair⟩ := Option.map_eq_some_iff.mp ho
    cases hpair
    exact .refl s
  unfold cast at h
  split at h
  · cases h; exact .refl s
  · split at h
    case h_7 => cases h; exact s.extends_addList _
    case h_3 | h_4 => cases h; exact .refl s
    case h_9 => cases h
    all_goals exact hsame _ h

end Store

namespace Expr

open Eval

theorem orFail_tame {v : Option Value} {e : ExecError}
    (h : ∀ statement, e ≠ .noAgent statement) : Tame (orFail v e) := by
  cases v with
  | some v => exact tame_pure v
  | none => exact fun s => .error (.refl s) h

theorem attrOf_tame (env : Env) (name : String) (v : Value) : Tame (attrOf env name v) := by
  intro s
  unfold attrOf
  split
  · exact orFail_tame (by simp) s
  · exact .ok (.refl s)
  · exact .error (.refl s) (by simp)
  · exact .error (.refl s) (by simp)

theorem pointOf_tame (x y : Value) : Tame (pointOf x y) := by
  intro s
  unfold pointOf
  split
  · exact .ok (.refl s)
  · exact .error (.refl s) (by simp)

theorem castTo_tame (env : Env) (target : BaseType) (v : Value) :
    Tame (castTo env target v) := by
  intro s
  unfold castTo
  cases h : Store.cast env.speciesOf s target v with
  | some r => exact .ok (Store.cast_extends h)
  | none => exact .error (.refl s) (by simp)

mutual

theorem eval_tame (env : Env) : ∀ e : Expr, Tame (e.eval env)
  | .nil | .bool _ | .int _ | .float _ | .str _ | .species _ | .selfAgent | .myself => by
    rw [eval]; exact tame_pure _
  | .var _ _ => by rw [eval]; exact orFail_tame (by simp)
  | .attr target name => by
    rw [eval]; exact (eval_tame env target).bind (attrOf_tame env name)
  | .unary op e => by
    rw [eval]
    exact (eval_tame env e).bind fun v => tame_lift fun _ h => Operators.unary_error h
  | .binary op l r => by
    have hl := eval_tame env l
    have hr := eval_tame env r
    cases op
    case and | or =>
      rw [eval]
      refine hl.bind fun a => ?_
      split
      · exact tame_pure _
      · exact hr.bind fun b => tame_pure _
    all_goals
      rw [eval]
      · exact hl.bind fun a => hr.bind fun b => Operators.binary_tame _ a b
      all_goals simp
  | .list items content => by
    rw [eval]
    exact (evalAll_tame env items).bind fun vs => tame_allocate fun s => s.extends_addList _
  | .map entries => by
    rw [eval]
    exact (evalEntries_tame env entries).bind fun es => tame_allocate fun s => s.extends_newMap _
  | .pair k v => by
    rw [eval]
    exact (eval_tame env k).bind fun _ => (eval_tame env v).bind fun _ => tame_pure _
  | .point x y => by
    rw [eval]
    exact (eval_tame env x).bind fun a => (eval_tame env y).bind fun b => pointOf_tame a b
  | .matrix cols rows fill => by
    rw [eval]
    exact (eval_tame env cols).bind fun _ => (eval_tame env rows).bind fun _ =>
      (eval_tame env fill).bind fun _ => tame_allocate fun s => s.extends_newMatrix _
  | .graph => by rw [eval]; exact tame_allocate fun s => s.extends_newGraph _
  | .population name => by rw [eval]; exact tame_allocate fun s => s.extends_addList _
  | .cast target e => by
    rw [eval]; exact (eval_tame env e).bind (castTo_tame env target)
  | .call function args => by
    rw [eval]; exact (evalAll_tame env args).bind (Operators.call_tame env.dead function)
  | .embedded inner _ _ _ => by rw [eval]; exact eval_tame env inner

theorem evalAll_tame (env : Env) : ∀ es : List Expr, Tame (evalAll env es)
  | [] => by rw [evalAll]; exact tame_pure _
  | e :: rest => by
    rw [evalAll]
    exact (eval_tame env e).bind fun _ => (evalAll_tame env rest).bind fun _ => tame_pure _

theorem evalEntries_tame (env : Env) :
    ∀ es : List (Expr × Expr), Tame (evalEntries env es)
  | [] => by rw [evalEntries]; exact tame_pure _
  | (k, v) :: rest => by
    rw [evalEntries]
    exact (eval_tame env k).bind fun _ => (eval_tame env v).bind fun _ =>
      (evalEntries_tame env rest).bind fun _ => tame_pure _

end
end Expr
end Habitat
