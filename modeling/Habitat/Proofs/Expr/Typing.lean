import Habitat.Proofs.Expr.Folding

/-!
# Static types

The syntax of an expression tells the type of its value for some expressions. Where it does, it is
right, as long as variables hold values of the types that they declare. A variable may hold `nil`
instead, and so may `self` and `myself`; whatever is computed from values is never `nil` in place
of another type.

* `Operators.type_of_arithmetic`, `Store.type_of_cast`, `Operators.type_of_call`: the tables of
  types and what is computed.
* `Expr.Typed`, `Expr.Honest`: what the static type of an expression relies on, with `nil` in
  variables and without.
* `Expr.type_or_nil_of_eval`: a static type is the type of the value, unless a name stands for
  `nil`.
* `Expr.type_of_eval`: a numeric static type is the type of the value.
-/
namespace Habitat

theorem Eval.bind_eq_ok {α β : Type} {x : Eval α} {f : α → Eval β} {s u : Store} {b : β}
    (h : (x >>= f) s = .ok b u) : ∃ a t, x s = .ok a t ∧ f a t = .ok b u := by
  cases hx : x s with
  | ok a t => exact ⟨a, t, rfl, by rwa [Eval.bind_ok hx] at h⟩
  | error e t =>
    simp only [Bind.bind, EStateM.bind, hx] at h
    cases h

theorem Eval.lift_eq_ok {r : Except ExecError Value} {s t : Store} {v : Value}
    (h : Eval.lift r s = .ok v t) : r = .ok v := by
  cases r with
  | ok u => cases h; rfl
  | error e => cases h

/-- The value is of a type, or there is none. -/
def Value.Suits (v : Value) (type : BaseType) : Prop := v = .nil ∨ v.type = type

namespace Operators

variable {op : BinaryOp} {a b v : Value} {s t : Store}

/-! ## Operators -/

/-- Only numbers and points have a negative, of their own type. -/
theorem type_of_neg (h : unary .neg a = .ok v) : v.type = a.type ∧ a ≠ .nil := by
  cases a with
  | int | float | point => cases h; exact ⟨rfl, nofun⟩
  | _ => cases h

/-- Arithmetic on numbers is about numbers only. -/
theorem isNumeric_operands (h : numeric op a b = .ok v) :
    a.type.isNumeric = true ∧ b.type.isNumeric = true := by
  have hfloat : ∀ {u : Value} {x : Float}, u.asFloat = some x → u.type.isNumeric = true := by
    intro u x hu
    cases u with
    | int | float => rfl
    | _ => cases hu
  unfold numeric invalid at h
  split at h
  · cases h
  · split at h
    · exact ⟨rfl, rfl⟩
    · split at h
      case h_1 x y hx hy => exact ⟨hfloat hx, hfloat hy⟩
      case h_2 => cases h

/-- Arithmetic is a sum of strings or lists, a sum or difference of points, or one of numbers. -/
theorem arithmetic_cases (h : arithmetic op a b s = .ok v t) :
    op = .add ∧ (a.type = .string ∨ a.type = .list) ∧ v.type = a.type ∨
      (op = .add ∨ op = .sub) ∧ a.type = .point ∧ b.type = .point ∧ v.type = .point ∨
      numeric op a b = .ok v := by
  unfold arithmetic at h
  split at h
  case h_1 => cases h; exact .inl ⟨rfl, .inl rfl, rfl⟩
  case h_2 => cases h; exact .inl ⟨rfl, .inr rfl, rfl⟩
  case h_3 => cases h; exact .inr (.inl ⟨.inl rfl, rfl, rfl, rfl⟩)
  case h_4 => cases h; exact .inr (.inl ⟨.inr rfl, rfl, rfl, rfl⟩)
  case h_5 => exact .inr (.inr (Eval.lift_eq_ok h))

theorem type_of_numeric_ints (hop : op ≠ .div) (ha : a.type = .int) (hb : b.type = .int)
    (h : numeric op a b = .ok v) : v.type = .int := by
  cases a with
  | int n =>
    cases b with
    | int m =>
      unfold numeric invalid at h
      split at h
      · cases h
      · cases h
        cases op with
        | div => exact absurd rfl hop
        | _ => rfl
    | _ => cases hb
  | _ => cases ha

theorem type_of_numeric_float (hf : op = .div ∨ a.type = .float ∨ b.type = .float)
    (h : numeric op a b = .ok v) : v.type = .float := by
  unfold numeric invalid at h
  split at h
  · cases h
  · split at h
    · rcases hf with rfl | hf | hf
      · cases h; rfl
      · cases hf
      · cases hf
    · split at h <;> cases h
      rfl

/-- On numbers the result is an integer if both operands are, and else a float. -/
theorem type_of_numeric (hop : op ≠ .div) (h : numeric op a b = .ok v) :
    v.type = Expr.arithmeticType op a.type b.type := by
  obtain ⟨ha, hb⟩ := isNumeric_operands h
  cases a with
  | int n =>
    cases b with
    | int m =>
      rw [type_of_numeric_ints hop rfl rfl h]
      cases op with
      | div => exact absurd rfl hop
      | _ => rfl
    | float y =>
      rw [type_of_numeric_float (.inr (.inr rfl)) h]
      cases op <;> rfl
    | _ => cases hb
  | float x =>
    rw [type_of_numeric_float (.inr (.inl rfl)) h]
    cases b with
    | int | float => cases op <;> rfl
    | _ => cases hb
  | _ => cases ha

/-- Of what is computed from an unknown operand, only a quotient is known. -/
theorem arithmeticType_any_left (hop : op ≠ .div) (r : BaseType) :
    Expr.arithmeticType op .any r = .any := by
  cases op with
  | div => exact absurd rfl hop
  | _ => rfl

theorem arithmeticType_any_right (hop : op ≠ .div) {l : BaseType}
    (hl : l.isNumeric = true ∨ l = .point) : Expr.arithmeticType op l .any = .any := by
  cases op with
  | div => exact absurd rfl hop
  | _ =>
    rcases hl with hl | rfl
    · cases l with
      | int | float => rfl
      | _ => cases hl
    · rfl

/-- What is said of the type of a value that is there: nothing, or what it is. -/
theorem any_or_eq_type {u : Value} {type : BaseType} (hu : type ≠ .any → u.Suits type)
    (hnil : u ≠ .nil) : type = .any ∨ type = u.type := by
  by_cases htype : type = .any
  · exact .inl htype
  · exact .inr ((hu htype).resolve_left hnil).symm

/-- The table of types is right about arithmetic. -/
theorem type_of_arithmetic {l r : BaseType} (htype : Expr.arithmeticType op l r ≠ .any)
    (ha : l ≠ .any → a.Suits l) (hb : r ≠ .any → b.Suits r)
    (h : arithmetic op a b s = .ok v t) : v.type = Expr.arithmeticType op l r := by
  rcases arithmetic_cases h with ⟨rfl, hsum, hv⟩ | ⟨hop, hpa, hpb, hv⟩ | hnum
  · have hnil : a ≠ .nil := by
      rintro rfl
      rcases hsum with h | h <;> cases h
    rcases any_or_eq_type ha hnil with rfl | rfl
    · exact absurd rfl htype
    · rw [hv]
      rcases hsum with h | h <;> rw [h] <;> rfl
  · have hdiv : op ≠ .div := by rcases hop with rfl | rfl <;> exact nofun
    have hl := any_or_eq_type ha (by rintro rfl; cases hpa)
    have hr := any_or_eq_type hb (by rintro rfl; cases hpb)
    rw [hpa] at hl
    rw [hpb] at hr
    rcases hl with rfl | rfl
    · exact absurd (arithmeticType_any_left hdiv r) htype
    · rcases hr with rfl | rfl
      · exact absurd (arithmeticType_any_right hdiv (.inr rfl)) htype
      · rcases hop with rfl | rfl <;> exact hv
  · by_cases hop : op = .div
    · subst hop
      exact type_of_numeric_float (.inl rfl) hnum
    · obtain ⟨hna, hnb⟩ := isNumeric_operands hnum
      rcases any_or_eq_type ha (by rintro rfl; cases hna) with rfl | rfl
      · exact absurd (arithmeticType_any_left hop r) htype
      · rcases any_or_eq_type hb (by rintro rfl; cases hnb) with rfl | rfl
        · exact absurd (arithmeticType_any_right hop (.inl hna)) htype
        · exact type_of_numeric hop hnum

/-- Comparisons give booleans. -/
theorem type_of_comparison (hop : op.isComparison = true) (h : binary op a b s = .ok v t) :
    v.type = .bool := by
  have hcompare : ∀ {op' : BinaryOp}, Eval.lift (compare op' a b) s = .ok v t → v.type = .bool := by
    intro op' hlift
    have hok := Eval.lift_eq_ok hlift
    unfold compare invalid at hok
    split at hok <;> cases hok
    rfl
  cases op with
  | eq | ne | and | or => cases h; rfl
  | lt | le | gt | ge => exact hcompare h
  | add | sub | mul | div | mod => cases hop

/-- What is known of the result of a built-in function is right. -/
theorem type_of_call {dead : AgentRef → Bool} {f : Builtin} {args : List Value} {es : List Expr}
    (htype : (Expr.call f es).staticType.base ≠ .any) (h : call dead f args s = .ok v t) :
    v.type = (Expr.call f es).staticType.base := by
  unfold call at h
  split at h
  case h_1 | h_2 | h_3 | h_5 | h_6 => cases h; rfl
  case h_4 | h_8 => exact absurd rfl htype
  case h_7 | h_9 => cases h

end Operators

namespace Store

variable {s t : Store} {v w : Value}

theorem type_of_castPair (h : castPair s v = some w) : w.type = .pair := by
  unfold castPair at h
  split at h
  case isFalse => cases h
  case isTrue =>
    split at h <;> cases h
    rfl

theorem type_of_castSpecies {f : AgentRef → String} (h : castSpecies f v = some w) :
    w.type = .species := by
  cases v with
  | str | agent => cases h; rfl
  | _ => cases h

/-- A cast that succeeds gives a value of the type. -/
theorem type_of_cast {f : AgentRef → String} {target : BaseType}
    (htarget : target ≠ .any) (h : Store.cast f s target v = some (w, t)) : w.type = target := by
  unfold Store.cast at h
  split at h
  case isTrue hsame =>
    cases h
    exact hsame.resolve_left htarget
  case isFalse =>
    cases target with
    | any => exact absurd rfl htarget
    | int =>
      obtain ⟨u, hu, heq⟩ := Option.map_eq_some_iff.mp h
      cases heq
      exact type_of_castInt hu
    | float =>
      obtain ⟨u, hu, heq⟩ := Option.map_eq_some_iff.mp h
      cases heq
      exact type_of_castFloat hu
    | bool | string | list => cases h; rfl
    | point =>
      obtain ⟨u, hu, heq⟩ := Option.map_eq_some_iff.mp h
      cases heq
      obtain ⟨x, y, rfl⟩ := exists_of_castPoint hu
      rfl
    | pair =>
      obtain ⟨u, hu, heq⟩ := Option.map_eq_some_iff.mp h
      cases heq
      exact type_of_castPair hu
    | species =>
      obtain ⟨u, hu, heq⟩ := Option.map_eq_some_iff.mp h
      cases heq
      exact type_of_castSpecies hu
    | _ => cases h

end Store

namespace Expr

/-! ## Expressions -/

/-- What the static type of an expression relies on: a variable that declares a type holds `nil` or
a value of it, and no part speaks for itself. -/
def Typed (vars : String → Option Value) : Expr → Prop
  | .var name type => type.base ≠ .any → ∀ v, vars name = some v → v.Suits type.base
  | .unary _ operand => operand.Typed vars
  | .binary _ left right => left.Typed vars ∧ right.Typed vars
  | .embedded .. => False
  | _ => True

/-- What the static type of a number relies on: variables that declare a type hold values of
it, and no part speaks for itself. -/
def Honest (vars : String → Option Value) : Expr → Prop
  | .var name type => type.base ≠ .any → ∀ v, vars name = some v → v.type = type.base
  | .unary _ operand => operand.Honest vars
  | .binary _ left right => left.Honest vars ∧ right.Honest vars
  | .embedded .. => False
  | _ => True

theorem Honest.typed {vars : String → Option Value} {e : Expr} (h : e.Honest vars) :
    e.Typed vars := by
  cases e with
  | var name type => exact fun htype v hv => .inr (h htype v hv)
  | unary op operand => exact Honest.typed (e := operand) h
  | binary op left right => exact ⟨Honest.typed h.1, Honest.typed h.2⟩
  | embedded => exact h
  | _ => trivial

theorem eval_arithmetic (env : Env) {op : BinaryOp} (hop : op.isComparison = false)
    (left right : Expr) :
    eval env (.binary op left right) = (do
      let a ← eval env left
      let b ← eval env right
      Operators.arithmetic op a b) := by
  cases op with
  | add | sub | mul | div | mod =>
    rw [eval]
    · rfl
    all_goals simp
  | _ => cases hop

/-- Whether the expression is a name, which may stand for `nil`. -/
def isName : Expr → Bool
  | .var .. | .selfAgent | .myself => true
  | _ => false

theorem type_of_eval_comparison {env : Env} {op : BinaryOp} (hop : op.isComparison = true)
    {left right : Expr} {s t : Store} {v : Value}
    (hv : eval env (.binary op left right) s = .ok v t) : v.type = .bool := by
  have hboth : ∀ {a : Value} {op' : BinaryOp} {s' : Store}, op'.isComparison = true →
      (eval env right >>= fun b => Operators.binary op' a b) s' = .ok v t → v.type = .bool := by
    intro a op' s' hop' h
    obtain ⟨b, t₂, -, h⟩ := Eval.bind_eq_ok h
    exact Operators.type_of_comparison hop' h
  have hlazy : ∀ {s' : Store}, (do return .bool (← eval env right).truthy : Eval Value) s' = .ok v t →
      v.type = .bool := by
    intro s' h
    obtain ⟨b, t₂, -, h⟩ := Eval.bind_eq_ok h
    cases h
    rfl
  cases op
  case and | or =>
    rw [eval] at hv
    obtain ⟨a, t₁, -, hv⟩ := Eval.bind_eq_ok hv
    split at hv
    · cases hv
      rfl
    · exact hlazy hv
  case add | sub | mul | div | mod => cases hop
  all_goals
    rw [eval] at hv
    · obtain ⟨a, t₁, -, hv⟩ := Eval.bind_eq_ok hv
      exact hboth rfl hv
    all_goals simp

/-- Where the syntax tells the type of a value, it is right. Only a name may stand for `nil`
instead. -/
theorem type_or_nil_of_eval (env : Env) (e : Expr) (h : e.Typed (lookup? env))
    (htype : e.staticType.base ≠ .any) {s t : Store} {v : Value} (hv : e.eval env s = .ok v t) :
    v.type = e.staticType.base ∨ v = .nil ∧ e.isName = true := by
  cases e with
  | nil | bool | int | float | str | species =>
    rw [eval] at hv
    cases hv
    exact .inl rfl
  | selfAgent =>
    rw [eval] at hv
    cases hv
    cases env.agent with
    | none => exact .inr ⟨rfl, rfl⟩
    | some a => exact .inl rfl
  | myself =>
    rw [eval] at hv
    cases hv
    cases env.myself with
    | none => exact .inr ⟨rfl, rfl⟩
    | some a => exact .inl rfl
  | var name type =>
    rw [eval] at hv
    cases hvar : lookup? env name with
    | none => rw [hvar] at hv; cases hv
    | some u =>
      rw [hvar] at hv
      cases hv
      rcases h htype v hvar with rfl | hv
      · exact .inr ⟨rfl, rfl⟩
      · exact .inl hv
  | attr => exact absurd rfl htype
  | unary op operand =>
    rw [eval] at hv
    obtain ⟨a, t₁, ha, hv⟩ := Eval.bind_eq_ok hv
    have hv := Eval.lift_eq_ok hv
    cases op with
    | not => cases hv; exact .inl rfl
    | neg =>
      obtain ⟨hsame, hnil⟩ := Operators.type_of_neg hv
      rcases type_or_nil_of_eval env operand h htype ha with ha | ha
      · exact .inl (hsame.trans ha)
      · exact absurd ha.1 hnil
  | binary op left right =>
    cases hop : op.isComparison with
    | true =>
      rw [staticType, hop, if_pos rfl]
      exact .inl (type_of_eval_comparison hop hv)
    | false =>
      rw [staticType, hop, if_neg Bool.false_ne_true] at htype ⊢
      rw [eval_arithmetic env hop] at hv
      obtain ⟨a, t₁, ha, hv⟩ := Eval.bind_eq_ok hv
      obtain ⟨b, t₂, hb, hv⟩ := Eval.bind_eq_ok hv
      refine .inl (Operators.type_of_arithmetic htype (fun hl => ?_) (fun hr => ?_) hv)
      · exact (type_or_nil_of_eval env left h.1 hl ha).symm.imp_left And.left
      · exact (type_or_nil_of_eval env right h.2 hr hb).symm.imp_left And.left
  | list items content =>
    rw [eval] at hv
    obtain ⟨vs, t₁, -, hv⟩ := Eval.bind_eq_ok hv
    cases hv
    exact .inl rfl
  | map entries =>
    rw [eval] at hv
    obtain ⟨es, t₁, -, hv⟩ := Eval.bind_eq_ok hv
    cases hv
    exact .inl rfl
  | pair k x =>
    rw [eval] at hv
    obtain ⟨a, t₁, -, hv⟩ := Eval.bind_eq_ok hv
    obtain ⟨b, t₂, -, hv⟩ := Eval.bind_eq_ok hv
    cases hv
    exact .inl rfl
  | point x y =>
    rw [eval] at hv
    obtain ⟨a, t₁, -, hv⟩ := Eval.bind_eq_ok hv
    obtain ⟨b, t₂, -, hv⟩ := Eval.bind_eq_ok hv
    unfold pointOf at hv
    split at hv <;> cases hv
    exact .inl rfl
  | matrix cols rows fill =>
    rw [eval] at hv
    obtain ⟨a, t₁, -, hv⟩ := Eval.bind_eq_ok hv
    obtain ⟨b, t₂, -, hv⟩ := Eval.bind_eq_ok hv
    obtain ⟨c, t₃, -, hv⟩ := Eval.bind_eq_ok hv
    cases hv
    exact .inl rfl
  | graph =>
    rw [eval] at hv
    cases hv
    exact .inl rfl
  | population name =>
    rw [eval] at hv
    cases hv
    exact .inl rfl
  | cast target operand =>
    rw [eval] at hv
    obtain ⟨a, t₁, -, hv⟩ := Eval.bind_eq_ok hv
    unfold castTo at hv
    split at hv
    · cases hv
      exact .inl (Store.type_of_cast htype ‹_›)
    · cases hv
  | call function args =>
    rw [eval] at hv
    obtain ⟨vs, t₁, -, hv⟩ := Eval.bind_eq_ok hv
    exact .inl (Operators.type_of_call htype hv)
  | embedded => exact h.elim

/-- Where the syntax says that a value is an integer or a float, it is. -/
theorem type_of_eval (env : Env) (e : Expr) (h : e.Honest (lookup? env))
    (hnum : e.staticType.base.isNumeric = true) {s t : Store} {v : Value}
    (hv : e.eval env s = .ok v t) : v.type = e.staticType.base := by
  have htype : e.staticType.base ≠ .any := by
    intro hany
    rw [hany] at hnum
    cases hnum
  rcases type_or_nil_of_eval env e h.typed htype hv with hv' | ⟨rfl, hname⟩
  · exact hv'
  · cases e with
    | var name type =>
      rw [eval] at hv
      cases hvar : lookup? env name with
      | none => rw [hvar] at hv; cases hv
      | some u =>
        rw [hvar] at hv
        cases hv
        exact h htype .nil hvar
    | selfAgent | myself => cases hnum
    | _ => cases hname

end Expr
end Habitat
