import Habitat.Expr.Eval
import Habitat.Expr.Fold
import Habitat.Run.Exec
import Habitat.Proofs.Store.Twin

/-!
# Folding is sound

A constant expression is computed once, in a store of its own, and its literal stands for it from
then on. Where it would have been computed instead, it gives the same value: the lists it makes on
the way have other numbers there, and a scalar does not refer to them.

The two computations differ in one place. Folding computes both operands of `and` and `or`, and
running the expression may skip the second one; so lists are made that have no counterpart.

* `binary_twin`, `cast_twin`, `constValue_twin`: the same steps in two stores.
* `eval_of_constValue`, `eval_of_constScalar`, `eval_folded`: what a literal stands for.
-/
namespace Habitat

open Store

variable {L : Nat → Nat → Prop} {c s c' t : Store} {v w : Value}

/-- In `c` and in `s` two computations make lists and end with twins. -/
structure Mirror (L : Nat → Nat → Prop) (c s : Store) (v : Value) (c' : Store) (w : Value)
    (t : Store) : Prop where
  left : c.MoreLists c'
  right : s.MoreLists t
  pairs : ∃ L', Enlarged s L L' ∧ Paired L' c' t ∧ Value.Twin L' v w

theorem Mirror.same (h : Paired L c s) (hv : Value.Twin L v w) : Mirror L c s v c w s :=
  ⟨.refl c, .refl s, L, .refl s L, h, hv⟩

theorem Mirror.addList (h : Paired L c s) {l l' : ListCell} (hcontent : l.content = l'.content)
    (hitems : List.Forall₂ (Value.Twin L) l.items.toList l'.items.toList) :
    Mirror L c s (c.addList l).1 (c.addList l).2 (s.addList l').1 (s.addList l').2 :=
  ⟨.addList c l, .addList s l', _, enlarged_withPair s L _, paired_addList h hcontent hitems,
    .list (.inr ⟨rfl, rfl⟩)⟩

theorem Value.twin_of_isNumeric (h : v.type.isNumeric = true) : Value.Twin L v v := by
  cases v with
  | int n => exact .int n
  | float x => exact .float x
  | _ => cases h

/-! ## Operators -/

namespace Operators

variable {a b a' b' : Value}

theorem unary_twin {op : UnaryOp} (h : Value.Twin L v w) {u : Value} (hu : unary op v = .ok u) :
    ∃ u', unary op w = .ok u' ∧ Value.Twin L u u' := by
  cases op with
  | not =>
    cases hu
    exact ⟨_, rfl, by rw [h.truthy_eq]; exact .bool _⟩
  | neg =>
    cases h with
    | int n => cases hu; exact ⟨_, rfl, .int _⟩
    | float x => cases hu; exact ⟨_, rfl, .float _⟩
    | point x y => cases hu; exact ⟨_, rfl, .point _ _⟩
    | _ => cases hu

theorem compare_twin (op : BinaryOp) (ha : Value.Twin L a a') (hb : Value.Twin L b b') :
    compare op a' b' = compare op a b := by
  have horder : order a' b' = order a b := by cases ha <;> cases hb <;> rfl
  rw [compare, compare, horder, ha.type_eq, hb.type_eq]

theorem numeric_twin (op : BinaryOp) (ha : Value.Twin L a a') (hb : Value.Twin L b b') :
    numeric op a' b' = numeric op a b := by
  cases ha <;> cases hb <;> rfl

/-- Arithmetic on numbers gives numbers. -/
theorem isNumeric_of_numeric {op : BinaryOp} (h : numeric op a b = .ok v) :
    v.type.isNumeric = true := by
  unfold numeric invalid at h
  split at h
  · cases h
  · split at h
    · cases h
      cases op <;> rfl
    · split at h <;> cases h
      rfl

theorem lift_numeric_twin (op : BinaryOp) (h : Paired L c s) (ha : Value.Twin L a a')
    (hb : Value.Twin L b b') (hv : Eval.lift (numeric op a b) c = .ok v c') :
    ∃ w t, Eval.lift (numeric op a' b') s = .ok w t ∧ Mirror L c s v c' w t := by
  rw [numeric_twin op ha hb]
  cases hnum : numeric op a b with
  | error e => rw [hnum] at hv; cases hv
  | ok u =>
    rw [hnum] at hv
    cases hv
    exact ⟨v, s, rfl, .same h (Value.twin_of_isNumeric (isNumeric_of_numeric hnum))⟩

/-- What a sum of lists adds to the first one. -/
theorem added_twin (h : Paired L c s) (hb : Value.Twin L b b') :
    List.Forall₂ (Value.Twin L)
      (match b with
        | .list q => (c.lists.get q).items
        | v => #[v]).toList
      (match b' with
        | .list q => (s.lists.get q).items
        | v => #[v]).toList := by
  cases hb with
  | list hl => exact elements_twin h (.list hl)
  | pair hk hx => exact .cons (.pair hk hx) .nil
  | _ => exact .cons (by constructor) .nil

theorem arithmetic_twin (op : BinaryOp) (h : Paired L c s) (ha : Value.Twin L a a')
    (hb : Value.Twin L b b') (hv : arithmetic op a b c = .ok v c') :
    ∃ w t, arithmetic op a' b' s = .ok w t ∧ Mirror L c s v c' w t := by
  have hnumeric : Eval.lift (numeric op a b) c = .ok v c' → _ := lift_numeric_twin op h ha hb
  cases op
  case add =>
    cases ha with
    | str text =>
      cases hv
      exact ⟨_, s, rfl, .same h (by rw [text_twin h hb]; exact .str _)⟩
    | list hl =>
      cases hv
      refine ⟨_, _, rfl, .addList h rfl ?_⟩
      simp only [Array.toList_append]
      exact List.rel_append (elements_twin h (.list hl)) (added_twin h hb)
    | point x y =>
      cases hb with
      | point x' y' => cases hv; exact ⟨_, s, rfl, .same h (.point _ _)⟩
      | _ => exact hnumeric hv
    | _ => exact hnumeric hv
  case sub =>
    cases ha with
    | point x y =>
      cases hb with
      | point x' y' => cases hv; exact ⟨_, s, rfl, .same h (.point _ _)⟩
      | _ => exact hnumeric hv
    | _ => exact hnumeric hv
  all_goals exact hnumeric hv

theorem lift_compare_twin (op : BinaryOp) (h : Paired L c s) (ha : Value.Twin L a a')
    (hb : Value.Twin L b b') (hv : Eval.lift (compare op a b) c = .ok v c') :
    ∃ w t, Eval.lift (compare op a' b') s = .ok w t ∧ Mirror L c s v c' w t := by
  rw [compare_twin op ha hb]
  cases hcmp : compare op a b with
  | error e => rw [hcmp] at hv; cases hv
  | ok u =>
    rw [hcmp] at hv
    cases hv
    unfold compare invalid at hcmp
    split at hcmp
    · cases hcmp
      exact ⟨_, s, rfl, .same h (.bool _)⟩
    · cases hcmp

theorem binary_twin (op : BinaryOp) (h : Paired L c s) (ha : Value.Twin L a a')
    (hb : Value.Twin L b b') (hv : binary op a b c = .ok v c') :
    ∃ w t, binary op a' b' s = .ok w t ∧ Mirror L c s v c' w t := by
  have hbool : ∀ x, Mirror L c s (.bool x) c (.bool x) s := fun x => .same h (.bool x)
  have hcompare : Eval.lift (compare op a b) c = .ok v c' → _ := lift_compare_twin op h ha hb
  have harithmetic : arithmetic op a b c = .ok v c' → _ := arithmetic_twin op h ha hb
  cases op
  case eq | ne =>
    cases hv
    exact ⟨_, s, rfl, by rw [eq_twin h ha hb]; exact hbool _⟩
  case and | or =>
    cases hv
    exact ⟨_, s, rfl, by rw [ha.truthy_eq, hb.truthy_eq]; exact hbool _⟩
  case lt | le | gt | ge => exact hcompare hv
  case add | sub | mul | div | mod => exact harithmetic hv

end Operators

/-! ## Casts -/

namespace Store

theorem type_of_castInt (h : castInt v = some w) : w.type = .int := by
  cases v with
  | str t =>
    obtain ⟨n, -, rfl⟩ := Option.map_eq_some_iff.mp h
    rfl
  | nil | float | bool => cases h; rfl
  | _ => cases h

theorem type_of_castFloat (h : castFloat v = some w) : w.type = .float := by
  cases v with
  | str t =>
    obtain ⟨x, -, rfl⟩ := Option.map_eq_some_iff.mp h
    rfl
  | nil | int | bool => cases h; rfl
  | _ => cases h

theorem castPoint_twin (h : Paired L c s) (hv : Value.Twin L v w) :
    castPoint s w = castPoint c v := by
  have helements := elements_twin h hv
  unfold castPoint
  rw [hv.asFloat_eq, hv.isContainer_eq]
  generalize c.elements v = xs at helements ⊢
  generalize s.elements w = ys at helements ⊢
  cases helements with
  | nil => rfl
  | cons hx hrest =>
    cases hrest with
    | nil => rfl
    | cons hy hrest =>
      cases hrest with
      | nil => simp only [hx.asFloat_eq, hy.asFloat_eq]
      | cons => rfl

theorem exists_of_castPoint (h : castPoint c v = some w) : ∃ x y, w = .point x y := by
  unfold castPoint at h
  split at h
  · cases h
    exact ⟨_, _, rfl⟩
  · split at h
    case isFalse => cases h
    case isTrue =>
      split at h
      · obtain ⟨x, -, h⟩ := Option.bind_eq_some_iff.mp h
        obtain ⟨y, -, h⟩ := Option.bind_eq_some_iff.mp h
        cases h
        exact ⟨x, y, rfl⟩
      · cases h

theorem castPair_twin (h : Paired L c s) (hv : Value.Twin L v w) {u : Value}
    (hu : castPair c v = some u) : ∃ u', castPair s w = some u' ∧ Value.Twin L u u' := by
  have helements := elements_twin h hv
  unfold castPair at hu ⊢
  rw [hv.isContainer_eq]
  split at hu
  case isFalse => cases hu
  case isTrue hcontainer =>
    rw [if_pos hcontainer]
    split at hu
    case h_2 => cases hu
    case h_1 k x heq =>
      cases hu
      rw [heq] at helements
      generalize s.elements w = ys at helements ⊢
      cases helements with
      | cons hk hrest =>
        cases hrest with
        | cons hx hrest =>
          cases hrest
          exact ⟨_, rfl, .pair hk hx⟩

/-- A cast that looks at the value alone. -/
theorem map_same {o : Option Value} (h : Paired L c s)
    (ho : ∀ u, o = some u → Value.Twin L u u) (hv : o.map (·, c) = some (v, c')) :
    ∃ w t, o.map (·, s) = some (w, t) ∧ Mirror L c s v c' w t := by
  cases o with
  | none => cases hv
  | some u =>
    cases hv
    exact ⟨v, s, rfl, .same h (ho v rfl)⟩

theorem cast_twin (target : BaseType) {f g : AgentRef → String} (h : Paired L c s)
    (hv : Value.Twin L v w) {u : Value} (hu : Store.cast f c target v = some (u, c')) :
    ∃ u' t, Store.cast g s target w = some (u', t) ∧ Mirror L c s u c' u' t := by
  unfold Store.cast at hu ⊢
  rw [hv.type_eq]
  split at hu
  case isTrue hsame =>
    rw [if_pos hsame]
    cases hu
    exact ⟨w, s, rfl, .same h hv⟩
  case isFalse hother =>
    rw [if_neg hother]
    cases target
    case int =>
      have hcast : castInt w = castInt v := by cases hv <;> rfl
      dsimp only at hu ⊢
      rw [hcast]
      refine map_same h (fun x hx => Value.twin_of_isNumeric ?_) hu
      rw [type_of_castInt hx]
      rfl
    case float =>
      have hcast : castFloat w = castFloat v := by cases hv <;> rfl
      dsimp only at hu ⊢
      rw [hcast]
      refine map_same h (fun x hx => Value.twin_of_isNumeric ?_) hu
      rw [type_of_castFloat hx]
      rfl
    case bool =>
      cases hu
      exact ⟨_, s, rfl, .same h (by rw [hv.truthy_eq]; exact .bool _)⟩
    case string =>
      cases hu
      exact ⟨_, s, rfl, .same h (by rw [text_twin h hv]; exact .str _)⟩
    case point =>
      dsimp only at hu ⊢
      rw [castPoint_twin h hv]
      refine map_same h (fun p hp => ?_) hu
      obtain ⟨x, y, rfl⟩ := exists_of_castPoint hp
      exact .point x y
    case pair =>
      obtain ⟨p, hp, hpu⟩ := Option.map_eq_some_iff.mp hu
      cases hpu
      obtain ⟨p', hp', htwin⟩ := castPair_twin h hv hp
      exact ⟨p', s, by rw [hp']; rfl, .same h htwin⟩
    case list =>
      cases hu
      refine ⟨_, _, rfl, .addList h rfl ?_⟩
      exact elements_twin h hv
    case species =>
      have hcast : castSpecies g w = castSpecies f v := by cases hv <;> rfl
      dsimp only at hu ⊢
      rw [hcast]
      refine map_same h (fun x hx => ?_) hu
      cases hv with
      | str name => cases hx; exact .species name
      | _ => cases hx
    all_goals cases hu

end Store

/-! ## Constant expressions -/

theorem Mirror.after {L' : Nat → Nat → Prop} {c₁ s₁ : Store} (hc : c.MoreLists c₁)
    (hs : s.MoreLists s₁) (hL : Enlarged s L L') (h : Mirror L' c₁ s₁ v c' w t) :
    Mirror L c s v c' w t := by
  obtain ⟨hc', hs', L'', hL', hp, hv⟩ := h
  exact ⟨hc.trans hc', hs.trans hs', L'', hL.trans hs hL', hp, hv⟩

theorem Eval.bind_ok {α β : Type} {x : Eval α} {f : α → Eval β} {a : α} (h : x s = .ok a t) :
    (x >>= f) s = f a t := by
  simp only [Bind.bind, EStateM.bind, h]

theorem Eval.run?_eq_some {x : Eval Value} : x.run? s = some (v, t) ↔ x s = .ok v t := by
  unfold run?
  split
  case h_1 a u h => rw [h]; simp
  case h_2 e u h => rw [h]; simp

namespace Expr

/-- What is computed of an expression at once, it gives wherever it is computed. -/
theorem constValue_twin (env : Env) (e : Expr) {L : Nat → Nat → Prop} {c s c' : Store} {v : Value}
    (h : Paired L c s) (hv : e.constValue c = some (v, c')) :
    ∃ w t, e.eval env s = .ok w t ∧ Mirror L c s v c' w t := by
  cases e with
  | nil => cases hv; exact ⟨_, s, by rw [eval]; rfl, .same h .nil⟩
  | bool b => cases hv; exact ⟨_, s, by rw [eval]; rfl, .same h (.bool b)⟩
  | int n => cases hv; exact ⟨_, s, by rw [eval]; rfl, .same h (.int n)⟩
  | float x => cases hv; exact ⟨_, s, by rw [eval]; rfl, .same h (.float x)⟩
  | str x => cases hv; exact ⟨_, s, by rw [eval]; rfl, .same h (.str x)⟩
  | species name => cases hv; exact ⟨_, s, by rw [eval]; rfl, .same h (.species name)⟩
  | unary op e =>
    simp only [constValue, Option.bind_eq_bind, Option.bind_eq_some_iff, Prod.exists] at hv
    obtain ⟨a, c₁, ha, b, hb, hv⟩ := hv
    obtain ⟨rfl, rfl⟩ := Prod.mk.inj (Option.some.inj hv)
    obtain ⟨a', s₁, he, hc, hs, L', hL, hp, htwin⟩ := constValue_twin env e h ha
    have hunary : Operators.unary op a = .ok b := by
      cases hu : Operators.unary op a with
      | error e => rw [hu] at hb; cases hb
      | ok u => rw [hu] at hb; cases hb; rfl
    obtain ⟨b', hb', htwin'⟩ := Operators.unary_twin htwin hunary
    refine ⟨b', s₁, ?_, .after hc hs hL (.same hp htwin')⟩
    rw [eval, Eval.bind_ok he, hb']
    rfl
  | binary op l r =>
    simp only [constValue, Option.bind_eq_bind, Option.bind_eq_some_iff, Prod.exists] at hv
    obtain ⟨a, c₁, ha, b, c₂, hb, hv⟩ := hv
    rw [Eval.run?_eq_some] at hv
    obtain ⟨a', s₁, hl, hc₁, hs₁, L₁, hL₁, hp₁, htwin⟩ := constValue_twin env l h ha
    obtain ⟨b', s₂, hr, hc₂, hs₂, L₂, hL₂, hp₂, htwin'⟩ := constValue_twin env r hp₁ hb
    -- the second operand of `and` and `or` may have been computed for nothing
    have hskip : ∀ x, Mirror L c s (.bool x) c₂ (.bool x) s₁ := fun x =>
      ⟨hc₁.trans hc₂, hs₁, L₁, hL₁, hp₁.more hc₂, .bool x⟩
    have hboth : ∀ {u u' : Value} {d t : Store}, Mirror L₂ c₂ s₂ u d u' t → Mirror L c s u d u' t :=
      .after (hc₁.trans hc₂) (hs₁.trans hs₂) (hL₁.trans hs₁ hL₂)
    cases op
    case and =>
      cases hv
      rw [eval, Eval.bind_ok hl, htwin.truthy_eq]
      cases a.truthy with
      | false => exact ⟨_, s₁, rfl, hskip false⟩
      | true =>
        refine ⟨_, s₂, Eval.bind_ok hr, hboth (.same hp₂ ?_)⟩
        rw [htwin'.truthy_eq]
        exact .bool _
    case or =>
      cases hv
      rw [eval, Eval.bind_ok hl, htwin.truthy_eq]
      cases a.truthy with
      | true => exact ⟨_, s₁, rfl, hskip true⟩
      | false =>
        refine ⟨_, s₂, Eval.bind_ok hr, hboth (.same hp₂ ?_)⟩
        rw [htwin'.truthy_eq]
        exact .bool _
    all_goals
      obtain ⟨u, t, hu, hmirror⟩ := Operators.binary_twin _ hp₂ (htwin.mono hL₂.old) htwin' hv
      refine ⟨u, t, ?_, hboth hmirror⟩
      rw [eval, Eval.bind_ok hl, Eval.bind_ok hr, hu]
      all_goals simp
  | pair k x =>
    simp only [constValue, Option.bind_eq_bind, Option.bind_eq_some_iff, Prod.exists] at hv
    obtain ⟨a, c₁, ha, b, c₂, hb, hv⟩ := hv
    cases hv
    obtain ⟨a', s₁, hl, hc₁, hs₁, L₁, hL₁, hp₁, htwin⟩ := constValue_twin env k h ha
    obtain ⟨b', s₂, hr, hc₂, hs₂, L₂, hL₂, hp₂, htwin'⟩ := constValue_twin env x hp₁ hb
    refine ⟨.pair a' b', s₂, ?_, ?_⟩
    · rw [eval, Eval.bind_ok hl, Eval.bind_ok hr]
      rfl
    · refine Mirror.after (hc₁.trans hc₂) (hs₁.trans hs₂) (hL₁.trans hs₁ hL₂) ?_
      exact .same hp₂ (.pair (htwin.mono hL₂.old) htwin')
  | point x y =>
    simp only [constValue, Option.bind_eq_bind, Option.bind_eq_some_iff, Prod.exists] at hv
    obtain ⟨a, c₁, ha, x', hx', b, c₂, hb, y', hy', hv⟩ := hv
    cases hv
    obtain ⟨a', s₁, hl, hc₁, hs₁, L₁, hL₁, hp₁, htwin⟩ := constValue_twin env x h ha
    obtain ⟨b', s₂, hr, hc₂, hs₂, L₂, hL₂, hp₂, htwin'⟩ := constValue_twin env y hp₁ hb
    refine ⟨.point x' y', s₂, ?_, ?_⟩
    · rw [eval, Eval.bind_ok hl, Eval.bind_ok hr, pointOf, htwin.asFloat_eq, htwin'.asFloat_eq, hx',
        hy']
    · refine Mirror.after (hc₁.trans hc₂) (hs₁.trans hs₂) (hL₁.trans hs₁ hL₂) ?_
      exact .same hp₂ (.point x' y')
  | cast target e =>
    simp only [constValue, Option.bind_eq_bind, Option.bind_eq_some_iff, Prod.exists] at hv
    obtain ⟨a, c₁, ha, hv⟩ := hv
    obtain ⟨a', s₁, he, hc, hs, L', hL, hp, htwin⟩ := constValue_twin env e h ha
    obtain ⟨u, t, hu, hmirror⟩ := Store.cast_twin (g := env.speciesOf) target hp htwin hv
    refine ⟨u, t, ?_, .after hc hs hL hmirror⟩
    rw [eval, Eval.bind_ok he, castTo, hu]
  | _ => cases hv

end Expr

/-- Without pairs there is nothing that could differ. -/
theorem Store.paired_none (c s : Store) : Paired (fun _ _ => False) c s :=
  ⟨nofun, nofun, nofun, nofun⟩

namespace Exec

/-- A constant expression is computed alike in every state, and only makes lists. Those that its
value does not need are dropped again. -/
theorem eval_of_constValue {e : Expr} {c c' : Store} {v : Value}
    (h : e.constValue c = some (v, c')) (s : State) :
    ∃ w t, eval e s = .ok w ⟨s.scope, { s.machine with store := t }⟩ ∧
      Mirror (fun _ _ => False) c s.machine.store v c' w t ∧
      (v.isFlat = true → t = s.machine.store) := by
  have henv := e.constValue_twin (env s.scope { s.machine with store := .empty })
    (Store.paired_none c s.machine.store) h
  obtain ⟨w, t, heval, hmirror⟩ := henv
  obtain ⟨L, -, -, htwin⟩ := hmirror.pairs
  cases hflat : v.isFlat with
  | false =>
    have hflat' : w.isFlat = false := by rw [htwin.isFlat_eq, hflat]
    refine ⟨w, t, ?_, hmirror, nofun⟩
    simp only [eval, compute, Eval.releasing, heval, hflat', Bool.false_eq_true, if_false]
  | true =>
    obtain rfl := htwin.eq_of_isFlat hflat
    refine ⟨w, s.machine.store, ?_, ?_, fun _ => rfl⟩
    · simp only [eval, compute, Eval.releasing, heval, hflat, if_true, hmirror.right.shrink_eq]
    · exact ⟨hmirror.left, .refl _, _, .refl _ _, Store.paired_none _ _, htwin.of_isFlat hflat⟩

/-- A constant expression whose value refers to no list: it has that value everywhere, and nothing
else happens. -/
theorem eval_of_constScalar {e : Expr} {v : Value} (h : e.constScalar = some v)
    (hflat : v.isFlat = true) (s : State) : eval e s = .ok v s := by
  obtain ⟨⟨u, c⟩, hconst, rfl⟩ := Option.map_eq_some_iff.mp h
  obtain ⟨w, t, heval, ⟨-, -, L, -, -, htwin⟩, hstore⟩ := eval_of_constValue hconst s
  rw [heval, htwin.eq_of_isFlat hflat, hstore hflat]

/-- The literal of a scalar is the scalar. -/
theorem isFlat_of_literal? {v : Value} {e : Expr} (h : Expr.literal? v = some e) :
    v.isFlat = true := by
  cases v with
  | nil | bool | int | float | str => rfl
  | _ => cases h

theorem constScalar_of_literal? {v : Value} {e : Expr} (h : Expr.literal? v = some e) :
    e.constScalar = some v := by
  cases v with
  | nil | bool | int | float | str => cases h; rfl
  | _ => cases h

/-- An expression and what it is folded to are computed alike. -/
theorem eval_folded (e : Expr) (s : State) : eval e.folded s = eval e s := by
  unfold Expr.folded
  cases hfold : e.constScalar.bind Expr.literal? with
  | none => rfl
  | some lit =>
    obtain ⟨v, hv, hlit⟩ := Option.bind_eq_some_iff.mp hfold
    have hflat := isFlat_of_literal? hlit
    rw [Option.getD_some, eval_of_constScalar hv hflat,
      eval_of_constScalar (constScalar_of_literal? hlit) hflat]

end Exec
end Habitat
