import Habitat.Expr.Codec
import Habitat.Proofs.Json.Schema

/-!
# Expressions survive their description

What is written for an expression without embedded parts and with finite floats is read as that
expression, wherever it stands: `Expr.ofJson?_toJson`. It is never written as `null`, so an optional
expression is not taken for an absent one.
-/
namespace Habitat

open Json

@[simp] theorem BaseType.ofJson?_toJson (place : Place) (t : BaseType) :
    BaseType.ofJson? place t.toJson = some t :=
  choice?_tag (by decide) (by cases t <;> decide) place

@[simp] theorem StaticType.ofJson?_toJson (place : Place) (t : StaticType) :
    StaticType.ofJson? place t.toJson = some t := by
  simp [StaticType.ofJson?, StaticType.toJson]

@[simp] theorem UnaryOp.choice?_tag (place : Place) (op : UnaryOp) :
    choice? place UnaryOp.table (.str op.tag) = some op :=
  Json.choice?_tag (by decide) (by cases op <;> decide) place

@[simp] theorem BinaryOp.choice?_tag (place : Place) (op : BinaryOp) :
    choice? place BinaryOp.table (.str op.tag) = some op :=
  Json.choice?_tag (by decide) (by cases op <;> decide) place

@[simp] theorem Builtin.choice?_name (place : Place) (f : Builtin) :
    choice? place Builtin.table (.str f.name) = some f :=
  Json.choice?_tag (by decide) (by cases f <;> decide) place

namespace Expr

mutual

/-- Whether a description can stand for the expression: it has no embedded part, and its floats are
finite. -/
def writable : Expr → Bool
  | .float x => x.isFinite
  | .attr target _ => target.writable
  | .unary _ operand => operand.writable
  | .binary _ left right => left.writable && right.writable
  | .list items _ => writableAll items
  | .map entries => writableEntries entries
  | .pair key value => key.writable && value.writable
  | .point x y => x.writable && y.writable
  | .matrix cols rows fill => cols.writable && rows.writable && fill.writable
  | .cast _ operand => operand.writable
  | .call _ args => writableAll args
  | .embedded .. => false
  | _ => true

def writableAll : List Expr → Bool
  | [] => true
  | e :: rest => e.writable && writableAll rest

def writableEntries : List (Expr × Expr) → Bool
  | [] => true
  | (k, v) :: rest => k.writable && v.writable && writableEntries rest

end

/-- The fields inside a variant are less deep than the variant. -/
theorem depth_tagged {name : String} {fields : List (String × Json)} {n : Nat}
    (h : (tagged name (.obj fields)).depth ≤ n) : ∃ m, n = m + 1 ∧ depthFields fields ≤ m := by
  simp only [tagged, depth, depthFields] at h
  exact ⟨n - 1, by omega, by omega⟩

theorem ofJsonAt?_obj (place : Place) (n : Nat) (name : String) (j : Json) :
    ofJsonAt? place (n + 1) (.obj [(name, j)]) =
      ofVariant? place (ofJsonAt? place n) name (some j) := rfl

theorem ofJsonAt?_str (place : Place) (n : Nat) (name : String) :
    ofJsonAt? place (n + 1) (.str name) =
      ofVariant? place (ofJsonAt? place n) name none := rfl

mutual

theorem ofJsonAt?_toJson (place : Place) : ∀ {e : Expr} {n : Nat}, e.writable = true →
    e.toJson.depth ≤ n → ofJsonAt? place (n + 1) e.toJson = some e
  | .nil, _, _, _ | .selfAgent, _, _, _ | .myself, _, _, _ | .graph, _, _, _ => by
    rw [toJson, ofJsonAt?_str]
    delta ofVariant?
    simp [isUnit]
  | .bool _, _, _, _ | .int _, _, _, _ | .str _, _, _, _ | .species _, _, _, _
  | .population _, _, _, _ | .var _ _, _, _, _ => by
    rw [toJson, tagged, ofJsonAt?_obj]
    delta ofVariant?
    simp
  | .float x, _, h, _ => by
    have hx : Json.ofFloat x = .float x := if_pos h
    rw [toJson, tagged, hx, ofJsonAt?_obj]
    delta ofVariant?
    simp [float?]
  | .attr target name, _, h, hn => by
    rw [toJson] at hn ⊢
    obtain ⟨n, rfl, hfields⟩ := depth_tagged hn
    simp only [depthFields, depth] at hfields
    have ht : ofJsonAt? place (n + 1) target.toJson = some target :=
      ofJsonAt?_toJson place h (by omega)
    rw [tagged, ofJsonAt?_obj]
    delta ofVariant?
    simp [ht]
  | .unary op operand, _, h, hn => by
    rw [toJson] at hn ⊢
    obtain ⟨n, rfl, hfields⟩ := depth_tagged hn
    simp only [depthFields, depth] at hfields
    have ho : ofJsonAt? place (n + 1) operand.toJson = some operand :=
      ofJsonAt?_toJson place h (by omega)
    rw [tagged, ofJsonAt?_obj]
    delta ofVariant?
    simp [ho]
  | .binary op left right, _, h, hn => by
    rw [writable, Bool.and_eq_true] at h
    rw [toJson] at hn ⊢
    obtain ⟨n, rfl, hfields⟩ := depth_tagged hn
    simp only [depthFields, depth] at hfields
    have hl : ofJsonAt? place (n + 1) left.toJson = some left :=
      ofJsonAt?_toJson place h.1 (by omega)
    have hr : ofJsonAt? place (n + 1) right.toJson = some right :=
      ofJsonAt?_toJson place h.2 (by omega)
    rw [tagged, ofJsonAt?_obj]
    delta ofVariant?
    simp [hl, hr]
  | .list items content, _, h, hn => by
    rw [toJson] at hn ⊢
    obtain ⟨n, rfl, hfields⟩ := depth_tagged hn
    simp only [depthFields, depth] at hfields
    have hi : each? (ofJsonAt? place (n + 1)) (toJsons items) = some items :=
      each?_toJsons place h (by omega)
    rw [tagged, ofJsonAt?_obj]
    delta ofVariant?
    simp [list?, hi]
  | .map entries, _, h, hn => by
    rw [toJson] at hn ⊢
    obtain ⟨n, rfl, hfields⟩ := depth_tagged hn
    simp only [depthFields, depth] at hfields
    have he : each? (pair? (ofJsonAt? place (n + 1)) (ofJsonAt? place (n + 1)))
        (toJsonEntries entries) = some entries := each?_toJsonEntries place h (by omega)
    rw [tagged, ofJsonAt?_obj]
    delta ofVariant?
    simp [list?, he]
  | .pair key value, _, h, hn => by
    rw [writable, Bool.and_eq_true] at h
    rw [toJson] at hn ⊢
    obtain ⟨n, rfl, hfields⟩ := depth_tagged hn
    simp only [depthFields] at hfields
    have hk : ofJsonAt? place (n + 1) key.toJson = some key :=
      ofJsonAt?_toJson place h.1 (by omega)
    have hv : ofJsonAt? place (n + 1) value.toJson = some value :=
      ofJsonAt?_toJson place h.2 (by omega)
    rw [tagged, ofJsonAt?_obj]
    delta ofVariant?
    simp [hk, hv]
  | .point x y, _, h, hn => by
    rw [writable, Bool.and_eq_true] at h
    rw [toJson] at hn ⊢
    obtain ⟨n, rfl, hfields⟩ := depth_tagged hn
    simp only [depthFields] at hfields
    have hx : ofJsonAt? place (n + 1) x.toJson = some x := ofJsonAt?_toJson place h.1 (by omega)
    have hy : ofJsonAt? place (n + 1) y.toJson = some y := ofJsonAt?_toJson place h.2 (by omega)
    rw [tagged, ofJsonAt?_obj]
    delta ofVariant?
    simp [hx, hy]
  | .matrix cols rows fill, _, h, hn => by
    rw [writable, Bool.and_eq_true, Bool.and_eq_true] at h
    rw [toJson] at hn ⊢
    obtain ⟨n, rfl, hfields⟩ := depth_tagged hn
    simp only [depthFields] at hfields
    have hc : ofJsonAt? place (n + 1) cols.toJson = some cols :=
      ofJsonAt?_toJson place h.1.1 (by omega)
    have hr : ofJsonAt? place (n + 1) rows.toJson = some rows :=
      ofJsonAt?_toJson place h.1.2 (by omega)
    have hf : ofJsonAt? place (n + 1) fill.toJson = some fill :=
      ofJsonAt?_toJson place h.2 (by omega)
    rw [tagged, ofJsonAt?_obj]
    delta ofVariant?
    simp [hc, hr, hf]
  | .cast target operand, _, h, hn => by
    rw [toJson] at hn ⊢
    obtain ⟨n, rfl, hfields⟩ := depth_tagged hn
    simp only [depthFields] at hfields
    have ho : ofJsonAt? place (n + 1) operand.toJson = some operand :=
      ofJsonAt?_toJson place h (by omega)
    rw [tagged, ofJsonAt?_obj]
    delta ofVariant?
    simp [ho]
  | .call function args, _, h, hn => by
    rw [toJson] at hn ⊢
    obtain ⟨n, rfl, hfields⟩ := depth_tagged hn
    simp only [depthFields, depth] at hfields
    have ha : each? (ofJsonAt? place (n + 1)) (toJsons args) = some args :=
      each?_toJsons place h (by omega)
    rw [tagged, ofJsonAt?_obj]
    delta ofVariant?
    simp [list?, ha]
  | .embedded .., _, h, _ => by rw [writable] at h; cases h

theorem each?_toJsons (place : Place) : ∀ {es : List Expr} {n : Nat}, writableAll es = true →
    depthItems (toJsons es) ≤ n → each? (ofJsonAt? place (n + 1)) (toJsons es) = some es
  | [], _, _, _ => rfl
  | e :: rest, n, h, hn => by
    rw [writableAll, Bool.and_eq_true] at h
    simp only [toJsons, depthItems] at hn
    have he : ofJsonAt? place (n + 1) e.toJson = some e := ofJsonAt?_toJson place h.1 (by omega)
    have hrest : each? (ofJsonAt? place (n + 1)) (toJsons rest) = some rest :=
      each?_toJsons place h.2 (by omega)
    rw [toJsons, each?, he, hrest]

theorem each?_toJsonEntries (place : Place) : ∀ {es : List (Expr × Expr)} {n : Nat},
    writableEntries es = true → depthItems (toJsonEntries es) ≤ n →
    each? (pair? (ofJsonAt? place (n + 1)) (ofJsonAt? place (n + 1))) (toJsonEntries es) = some es
  | [], _, _, _ => rfl
  | (k, v) :: rest, n, h, hn => by
    rw [writableEntries, Bool.and_eq_true, Bool.and_eq_true] at h
    simp only [toJsonEntries, depthItems, depth] at hn
    have hk : ofJsonAt? place (n + 1) k.toJson = some k := ofJsonAt?_toJson place h.1.1 (by omega)
    have hv : ofJsonAt? place (n + 1) v.toJson = some v := ofJsonAt?_toJson place h.1.2 (by omega)
    have hrest : each? (pair? (ofJsonAt? place (n + 1)) (ofJsonAt? place (n + 1)))
        (toJsonEntries rest) = some rest := each?_toJsonEntries place h.2 (by omega)
    rw [toJsonEntries, each?, pair?, hk, hv, hrest]

end

/-- An expression that a description can stand for is read from what is written for it. -/
theorem ofJson?_toJson (place : Place) {e : Expr} (h : e.writable = true) :
    ofJson? place e.toJson = some e :=
  ofJsonAt?_toJson place h (Nat.le_refl _)

theorem toJson_ne_null {e : Expr} (h : e.writable = true) : e.toJson ≠ .null := by
  cases e with
  | embedded inner literal type constant => cases h
  | _ => simp [toJson, tagged]

/-- The description of an expression that may be absent. -/
theorem optional_toJson (place : Place) {o : Option Expr} (h : o.all writable = true) :
    optional (ofJson? place) (some (ofOption toJson o)) = some o :=
  optional_ofOption fun e he => by
    rw [he, Option.all_some] at h
    exact ⟨toJson_ne_null h, ofJson?_toJson place h⟩

mutual

/-- Nothing that is written is beyond reading. -/
@[simp] theorem readable_toJson : ∀ e : Expr, e.toJson.readable = true
  | .nil | .selfAgent | .myself | .graph | .bool _ | .int _ | .str _ | .species _ | .population _
  | .var _ _ | .embedded _ _ _ _ => by
    simp [toJson, tagged, StaticType.toJson, BaseType.toJson, readable, readableFields]
  | .float x => by
    simp only [toJson, tagged, ofFloat, readable, readableFields]
    split <;> simp [readable]
  | .attr target _ => by
    simp [toJson, tagged, readable, readableFields, readable_toJson target]
  | .unary _ operand => by
    simp [toJson, tagged, readable, readableFields, readable_toJson operand]
  | .binary _ left right => by
    simp [toJson, tagged, readable, readableFields, readable_toJson left, readable_toJson right]
  | .list items _ => by
    simp [toJson, tagged, BaseType.toJson, readable, readableFields, readable_toJsons items]
  | .map entries => by
    simp [toJson, tagged, readable, readableFields, readable_toJsonEntries entries]
  | .pair key value => by
    simp [toJson, tagged, readable, readableFields, readable_toJson key, readable_toJson value]
  | .point x y => by
    simp [toJson, tagged, readable, readableFields, readable_toJson x, readable_toJson y]
  | .matrix cols rows fill => by
    simp [toJson, tagged, readable, readableFields, readable_toJson cols, readable_toJson rows,
      readable_toJson fill]
  | .cast _ operand => by
    simp [toJson, tagged, BaseType.toJson, readable, readableFields, readable_toJson operand]
  | .call _ args => by
    simp [toJson, tagged, readable, readableFields, readable_toJsons args]

theorem readable_toJsons : ∀ es : List Expr, readableItems (toJsons es) = true
  | [] => rfl
  | e :: rest => by simp [toJsons, readableItems, readable_toJson e, readable_toJsons rest]

theorem readable_toJsonEntries : ∀ es : List (Expr × Expr),
    readableItems (toJsonEntries es) = true
  | [] => rfl
  | (k, v) :: rest => by
    simp [toJsonEntries, readableItems, readable, readable_toJson k, readable_toJson v,
      readable_toJsonEntries rest]

end
end Expr
end Habitat
