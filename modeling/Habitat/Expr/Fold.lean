import Habitat.Expr.Operators
import Habitat.Store.Cast

/-!
# Constant expressions

`Expr.constValue` computes an expression without variables, agents and containers on its own; what
it cannot compute it leaves open. `Expr.folded` replaces an expression by a literal of its value.
-/
namespace Habitat.Expr

/-- The value of a constant expression. Casts and sums may make new lists. -/
def constValue : Expr → Store → Option (Value × Store)
  | .nil, s => some (.nil, s)
  | .bool b, s => some (.bool b, s)
  | .int n, s => some (.int n, s)
  | .float x, s => some (.float x, s)
  | .str t, s => some (.str t, s)
  | .species n, s => some (.species n, s)
  | .unary op e, s => do
    let (v, s) ← e.constValue s
    return (← (Operators.unary op v).toOption, s)
  | .binary op l r, s => do
    let (a, s) ← l.constValue s
    let (b, s) ← r.constValue s
    (Operators.binary op a b).run? s
  | .pair k v, s => do
    let (k, s) ← k.constValue s
    let (v, s) ← v.constValue s
    return (.pair k v, s)
  | .point x y, s => do
    let (a, s) ← x.constValue s
    let x ← a.asFloat
    let (b, s) ← y.constValue s
    return (.point x (← b.asFloat), s)
  | .cast target e, s => do
    let (v, s) ← e.constValue s
    Store.cast (fun _ => "") s target v
  | _, _ => none

/-- Whether the expression always has the same value. -/
def isConst : Expr → Bool
  | .embedded _ _ _ constant => constant
  | e => (e.constValue .empty).isSome

/-- The literal of a scalar. -/
def literal? : Value → Option Expr
  | .nil => some .nil
  | .bool b => some (.bool b)
  | .int n => some (.int n)
  | .float x => some (.float x)
  | .str s => some (.str s)
  | _ => none

/-- The constant value of an expression, where it is a scalar. -/
def constScalar (e : Expr) : Option Value := (e.constValue .empty).map (·.1)

/-- The expression, or the literal of its value. -/
def folded (e : Expr) : Expr := (e.constScalar.bind literal?).getD e

end Habitat.Expr
