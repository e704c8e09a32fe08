import Habitat.Json.Schema

/-!
# Reading what was written

A record is written with all of its fields in order, each name once, so that reading it finds every
field (`record?_obj`). A name out of a table of different names is found again (`choice?_tag`), and
so is a part that may be absent, provided that no part is written as `null` (`optional_ofOption`).

A document that has no name twice in one object, and no node without a value, is read as it is
(`object?_eq_some`).
-/
namespace Habitat.Json

/-! ## Names -/

theorem lookup_of_mem {α : Type} {fields : List (String × α)} (h : (fields.map (·.1)).Nodup)
    {f : String × α} (hf : f ∈ fields) : fields.lookup f.1 = some f.2 := by
  induction fields with
  | nil => cases hf
  | cons g rest ih =>
    obtain ⟨hg, hrest⟩ := List.nodup_cons.mp h
    rcases List.mem_cons.mp hf with rfl | hf
    · exact List.lookup_cons_self
    · have hne : f.1 ≠ g.1 := fun heq => hg (List.mem_map.mpr ⟨f, hf, heq⟩)
      rw [List.lookup_cons, beq_eq_false_iff_ne.mpr hne]
      exact ih hrest hf

theorem repeated_eq_false {fields : List (String × Json)} (h : (fields.map (·.1)).Nodup)
    (name : String) : repeated name fields = false := by
  have hcount : (fields.filter fun f => f.1 == name).length = (fields.map (·.1)).count name := by
    rw [List.count, List.countP_map, List.countP_eq_length_filter]
    rfl
  rw [repeated, hcount]
  simpa using List.nodup_iff_count.mp h name

/-- A record that is written with all of its fields, in order, is read with all of them. -/
@[simp] theorem record?_obj {names : List String} {fields : List (String × Json)}
    (h : names = fields.map (·.1)) (hn : names.Nodup) :
    record? names (.obj fields) = some (fields.map fun f => some f.2) := by
  subst h
  have hany : (fields.map (·.1)).any (repeated · fields) = false := by
    simp [repeated_eq_false hn]
  rw [record?, hany]
  simp only [Bool.false_eq_true, if_false, List.map_map, Option.some.injEq]
  exact List.map_congr_left fun f hf => lookup_of_mem hn hf

/-- One of several things with different names is found by its name. -/
theorem choice?_tag {α : Type} {tag : α → String} {all : List α} (hn : (all.map tag).Nodup)
    {a : α} (ha : a ∈ all) (place : Place) :
    choice? place (all.map fun a => (tag a, a)) (.str (tag a)) = some a := by
  have hkeys : ((all.map fun a => (tag a, a)).map (·.1)).Nodup := by
    rwa [List.map_map]
  exact lookup_of_mem hkeys (List.mem_map_of_mem ha)

/-! ## Parts -/

@[simp] theorem required_some {α : Type} (read : Json → Option α) (j : Json) :
    required read (some j) = read j := rfl

@[simp] theorem defaulted_some {α : Type} (value : α) (read : Json → Option α) (j : Json) :
    defaulted value read (some j) = read j := rfl

@[simp] theorem str?_str (s : String) : str? (.str s) = some s := rfl

@[simp] theorem bool?_bool (b : Bool) : bool? (.bool b) = some b := rfl

@[simp] theorem int64?_int (n : Int64) : int64? (.int n.toInt) = some n := by
  have hrange : -(Decimal.signedEnd : Int) ≤ n.toInt ∧ n.toInt < Decimal.signedEnd := by
    have hle := n.le_toInt
    have hlt := n.toInt_lt
    simp only [Decimal.signedEnd]
    omega
  rw [int64?, Decimal.toInt64?, if_pos hrange, Int64.ofInt_toInt]

/-- A part that may be absent; only its absence is written as `null`. -/
theorem optional_ofOption {α : Type} {read : Json → Option α} {write : α → Json} {o : Option α}
    (h : ∀ a ∈ o, write a ≠ .null ∧ read (write a) = some a) :
    optional read (some (ofOption write o)) = some o := by
  cases o with
  | none => rfl
  | some a =>
    obtain ⟨hnull, hread⟩ := h a rfl
    simp only [ofOption]
    cases hj : write a with
    | null => exact absurd hj hnull
    | _ => rw [optional, ← hj, hread]; rfl; simp

@[simp] theorem optional_text (o : Option String) :
    optional str? (some (ofOption .str o)) = some o :=
  optional_ofOption fun _ _ => ⟨nofun, rfl⟩

theorem each?_map {α : Type} {read : Json → Option α} {write : α → Json} {as : List α}
    (h : ∀ a ∈ as, read (write a) = some a) : each? read (as.map write) = some as := by
  induction as with
  | nil => rfl
  | cons a rest ih =>
    have hrest := ih fun b hb => h b (List.mem_cons_of_mem a hb)
    rw [List.map_cons, each?, h a List.mem_cons_self, hrest]

/-! ## Documents -/

theorem depthItems_lt (name : String) {items : List Json} {fields : List (String × Json)}
    (h : (name, .arr items) ∈ fields) : depthItems items < depthFields fields := by
  induction fields with
  | nil => cases h
  | cons f rest ih =>
    rw [depthFields]
    rcases List.mem_cons.mp h with rfl | hrest
    · rw [depth]; omega
    · have hlt := ih hrest; omega

mutual

/-- Every node stands for a value, and no object has a name twice. -/
def wellFormed : Json → Bool
  | .unreadable => false
  | .arr items => wellFormedItems items
  | .obj fields => decide (fields.map (·.1)).Nodup && wellFormedFields fields
  | _ => true

def wellFormedItems : List Json → Bool
  | [] => true
  | j :: rest => j.wellFormed && wellFormedItems rest

def wellFormedFields : List (String × Json) → Bool
  | [] => true
  | (_, j) :: rest => j.wellFormed && wellFormedFields rest

end

/-- A field of a new name comes last. -/
theorem putField_of_not_mem {name : String} {value : Json} {fields : List (String × Json)}
    (h : name ∉ fields.map (·.1)) : putField name value fields = fields ++ [(name, value)] := by
  induction fields with
  | nil => rfl
  | cons f rest ih =>
    rw [List.map_cons, List.mem_cons, not_or] at h
    rw [putField, if_neg (Ne.symm h.1), ih h.2, List.cons_append]

mutual

theorem settle_of_wellFormed : ∀ {j : Json}, j.wellFormed = true → j.settle = j
  | .null, _ | .bool _, _ | .int _, _ | .float _, _ | .str _, _ | .unreadable, _ => by simp [settle]
  | .arr items, h => by rw [settle, settleItems_of_wellFormed h]
  | .obj fields, h => by
    rw [wellFormed, Bool.and_eq_true, decide_eq_true_eq] at h
    rw [settle, settleFields_of_wellFormed h.2 h.1 fun _ _ => List.not_mem_nil, List.nil_append]

theorem settleItems_of_wellFormed : ∀ {items : List Json}, wellFormedItems items = true →
    settleItems items = items
  | [], _ => by rw [settleItems]
  | j :: rest, h => by
    rw [wellFormedItems, Bool.and_eq_true] at h
    rw [settleItems, settle_of_wellFormed h.1, settleItems_of_wellFormed h.2]

theorem settleFields_of_wellFormed : ∀ {fields done : List (String × Json)},
    wellFormedFields fields = true → (fields.map (·.1)).Nodup →
    (∀ name ∈ fields.map (·.1), name ∉ done.map (·.1)) → settleFields fields done = done ++ fields
  | [], done, _, _, _ => by rw [settleFields, List.append_nil]
  | (k, j) :: rest, done, h, hn, hdone => by
    rw [wellFormedFields, Bool.and_eq_true] at h
    obtain ⟨hk, hrest⟩ := List.nodup_cons.mp hn
    have hput : putField k j done = done ++ [(k, j)] :=
      putField_of_not_mem (hdone k List.mem_cons_self)
    rw [settleFields, settle_of_wellFormed h.1, hput, settleFields_of_wellFormed h.2 hrest,
      List.append_assoc]
    · rfl
    · intro name hname
      rw [List.map_append, List.mem_append, not_or]
      refine ⟨hdone name (List.mem_cons_of_mem _ hname), ?_⟩
      intro heq
      rw [List.mem_singleton.mp heq] at hname
      exact hk hname

end

mutual

theorem readable_of_wellFormed : ∀ {j : Json}, j.wellFormed = true → j.readable = true
  | .null, _ | .bool _, _ | .int _, _ | .float _, _ | .str _, _ => by simp [readable]
  | .arr items, h => by rw [readable, readableItems_of_wellFormed h]
  | .obj fields, h => by
    rw [wellFormed, Bool.and_eq_true] at h
    rw [readable, readableFields_of_wellFormed h.2]

theorem readableItems_of_wellFormed : ∀ {items : List Json}, wellFormedItems items = true →
    readableItems items = true
  | [], _ => by rw [readableItems]
  | j :: rest, h => by
    rw [wellFormedItems, Bool.and_eq_true] at h
    rw [readableItems, readable_of_wellFormed h.1, readableItems_of_wellFormed h.2, Bool.true_and]

theorem readableFields_of_wellFormed : ∀ {fields : List (String × Json)},
    wellFormedFields fields = true → readableFields fields = true
  | [], _ => by rw [readableFields]
  | (_, j) :: rest, h => by
    rw [wellFormedFields, Bool.and_eq_true] at h
    rw [readableFields, readable_of_wellFormed h.1, readableFields_of_wellFormed h.2, Bool.true_and]

end

/-- A well-formed object is read as it is. -/
theorem object?_eq_some {fields : List (String × Json)} (h : (Json.obj fields).wellFormed = true) :
    object? (.obj fields) = some fields := by
  rw [wellFormed, Bool.and_eq_true, decide_eq_true_eq] at h
  rw [object?, readableFields_of_wellFormed h.2, if_pos rfl,
    settleFields_of_wellFormed h.2 h.1 fun _ _ => List.not_mem_nil, List.nil_append]

end Habitat.Json
