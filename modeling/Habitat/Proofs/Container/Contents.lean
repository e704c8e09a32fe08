import Habitat.Proofs.Container.Failure

/-!
# What containers come to hold

A container holds what was put into it: after a request, its values are values that it had before,
values of the request, or the two sides of a pair in the request. So a property that passes from
pairs to their sides, and that holds for the values of a container and for those of a request,
holds for the values that the container has afterwards: `ListCell.edit_forall`,
`MatrixCell.edit_forall`, `MapCell.edit_forall` and `GraphCell.edit_forall`.
-/
namespace Habitat

/-- The values that a request brings in. -/
def Edit.values : Edit → List Value
  | .add v | .fill v => [v]
  | .insert i v | .put i v => [i, v]
  | .addAll none vs => vs
  | .addAll (some i) vs => i :: vs
  | _ => []

/-- A property that passes from pairs to their sides. -/
def Value.Splits (P : Value → Prop) : Prop := ∀ a b, P (.pair a b) → P a ∧ P b

variable {P : Value → Prop} {s : Store}

theorem mem_of_mem_extract {xs : Array Value} {i j : Nat} {u : Value} (h : u ∈ xs.extract i j) :
    u ∈ xs := by
  rw [← Array.mem_toList_iff, Array.toList_extract] at h
  exact Array.mem_toList_iff.mp (List.mem_of_mem_drop (List.mem_of_mem_take h))

theorem mem_append_list {xs : Array Value} {vs : List Value} {u : Value} (h : u ∈ xs ++ vs) :
    u ∈ xs ∨ u ∈ vs := by
  rwa [← Array.mem_toList_iff, Array.toList_appendList, List.mem_append, Array.mem_toList_iff] at h

/-- A request that is carried out at a position. -/
theorem exists_of_map_eq_ok {α β : Type} {r : Except ContainerError α} {f : α → β} {b : β}
    (h : r.map f = .ok b) : ∃ a, f a = b := by
  cases r with
  | error e => cases h
  | ok a => exact ⟨a, Except.ok.inj h⟩

/-! ## Lists and matrices -/

namespace ListCell
variable {l : ListCell}

theorem forall_push (hl : ∀ u ∈ l.items, P u) {v : Value} (hv : P v) :
    ∀ u ∈ (l.push v).items, P u := by
  intro u hu
  rcases Array.mem_push.mp hu with hu | rfl
  · exact hl u hu
  · exact hv

theorem forall_insertAt (hl : ∀ u ∈ l.items, P u) (p : Nat) {vs : List Value}
    (hvs : ∀ v ∈ vs, P v) : ∀ u ∈ (l.insertAt p vs).items, P u := by
  intro u hu
  rcases Array.mem_append.mp hu with hu | hu
  · rcases mem_append_list hu with hu | hu
    · exact hl u (mem_of_mem_extract hu)
    · exact hvs u hu
  · exact hl u (mem_of_mem_extract hu)

theorem mem_of_mem_eraseAll {ps : List Nat} {u : Value} (hu : u ∈ (l.eraseAll ps).items) :
    u ∈ l.items := by
  induction ps generalizing l with
  | nil => exact hu
  | cons p ps ih =>
    have hmem : u ∈ l.items.eraseIdxIfInBounds p :=
      ih (l := { l with items := l.items.eraseIdxIfInBounds p }) hu
    rw [← Array.mem_toList_iff, Array.toList_eraseIdxIfInBounds] at hmem
    exact Array.mem_toList_iff.mp (List.mem_of_mem_eraseIdx hmem)

theorem mem_of_mem_without {v u : Value} (hu : u ∈ (l.without s v).items) : u ∈ l.items :=
  (Array.mem_filter.mp hu).1

theorem mem_of_mem_withoutAll {vs : List Value} {u : Value}
    (hu : u ∈ (vs.foldl (fun l v => l.without s v) l).items) : u ∈ l.items := by
  induction vs generalizing l with
  | nil => exact hu
  | cons v vs ih => exact mem_of_mem_without (ih hu)

/-- A list holds what it held before, and values of the request. -/
theorem edit_forall {request : Edit} {c : Change ListCell} (h : l.edit s request = .ok c)
    (hl : ∀ u ∈ l.items, P u) (hvalues : ∀ v ∈ request.values, P v) :
    ∀ u ∈ (c.apply l).items, P u := by
  cases request with
  | add v =>
    cases h
    exact forall_push hl (hvalues v List.mem_cons_self)
  | insert i v =>
    obtain ⟨p, rfl⟩ := exists_of_map_eq_ok h
    exact forall_insertAt hl p fun u hu => hvalues u (List.mem_cons_of_mem i hu)
  | addAll i vs =>
    cases i with
    | none =>
      cases h
      intro u hu
      rcases mem_append_list hu with hu | hu
      · exact hl u hu
      · exact hvalues u hu
    | some i =>
      obtain ⟨p, rfl⟩ := exists_of_map_eq_ok h
      exact forall_insertAt hl p fun u hu => hvalues u (List.mem_cons_of_mem i hu)
  | put i v =>
    obtain ⟨p, rfl⟩ := exists_of_map_eq_ok h
    intro u hu
    rcases Array.mem_or_eq_of_mem_setIfInBounds hu with hu | rfl
    · exact hl u hu
    · exact hvalues u (List.mem_cons_of_mem i List.mem_cons_self)
  | fill v =>
    cases h
    intro u hu
    obtain ⟨-, -, rfl⟩ := Array.mem_map.mp hu
    exact hvalues v List.mem_cons_self
  | remove v =>
    unfold edit at h
    dsimp only at h
    split at h <;> cases h
    · exact fun u hu => hl u (mem_of_mem_eraseAll hu)
    · exact hl
  | removeEvery v =>
    cases h
    exact fun u hu => hl u (mem_of_mem_without hu)
  | removeAll vs =>
    cases h
    exact fun u hu => hl u (mem_of_mem_withoutAll hu)
  | removeAt i | removeAllAt is =>
    obtain ⟨p, rfl⟩ := exists_of_map_eq_ok h
    exact fun u hu => hl u (mem_of_mem_eraseAll hu)
  | clear =>
    cases h
    exact fun u hu => absurd hu (Array.not_mem_empty u)

end ListCell

namespace MatrixCell
variable {m : MatrixCell}

/-- A matrix holds what it held before, and the value of the request. -/
theorem edit_forall {request : Edit} {c : Change MatrixCell} (h : m.edit s request = .ok c)
    (hm : ∀ u ∈ m.cells, P u) (hvalues : ∀ v ∈ request.values, P v) :
    ∀ u ∈ (c.apply m).cells, P u := by
  unfold edit at h
  split at h
  case h_1 i v =>
    obtain ⟨p, rfl⟩ := exists_of_map_eq_ok h
    intro u hu
    rcases Array.mem_or_eq_of_mem_setIfInBounds hu with hu | rfl
    · exact hm u hu
    · exact hvalues u (List.mem_cons_of_mem i List.mem_cons_self)
  case h_2 v =>
    cases h
    intro u hu
    obtain ⟨-, -, rfl⟩ := Array.mem_map.mp hu
    exact hvalues v List.mem_cons_self
  case h_6 => cases h
  all_goals
    cases h
    exact hm

end MatrixCell

/-! ## Maps -/

namespace MapCell
variable {m : MapCell}

/-- All keys and values of a map have a property. -/
def Forall (P : Value → Prop) (m : MapCell) : Prop := ∀ e ∈ m.entries, P e.1 ∧ P e.2

theorem Forall.put (hm : m.Forall P) {eq : Value → Value → Bool} {k v : Value} (hk : P k)
    (hv : P v) : (m.put eq k v).Forall P := by
  obtain ⟨key, content, es⟩ := m
  unfold Forall MapCell.put at *
  dsimp only at hm ⊢
  induction es with
  | nil => simpa [putEntry] using ⟨hk, hv⟩
  | cons e rest ih =>
    obtain ⟨he, hrest⟩ := List.forall_mem_cons.mp hm
    unfold putEntry
    split
    · exact List.forall_mem_cons.mpr ⟨⟨he.1, hv⟩, hrest⟩
    · exact List.forall_mem_cons.mpr ⟨he, ih hrest⟩

theorem Forall.add (hP : Value.Splits P) (hm : m.Forall P) {eq : Value → Value → Bool} {v : Value}
    (hv : P v) : (m.add eq v).Forall P := by
  cases v with
  | pair a b => exact hm.put (hP a b hv).1 (hP a b hv).2
  | _ => exact hm.put hv hv

theorem Forall.foldl {α : Type} {f : MapCell → α → MapCell} {vs : List α} (hm : m.Forall P)
    (hf : ∀ m : MapCell, m.Forall P → ∀ v ∈ vs, (f m v).Forall P) : (vs.foldl f m).Forall P := by
  induction vs generalizing m with
  | nil => exact hm
  | cons v vs ih =>
    exact ih (hf m hm v List.mem_cons_self) fun m hm v hv => hf m hm v (List.mem_cons_of_mem _ hv)

theorem forall_ofEntries {eq : Value → Value → Bool} {key content : BaseType}
    {es : List (Value × Value)} (h : ∀ e ∈ es, P e.1 ∧ P e.2) :
    (ofEntries eq key content es).Forall P := by
  have hempty : Forall P ⟨key, content, []⟩ := fun _ he => absurd he List.not_mem_nil
  exact hempty.foldl fun _ hm e he => hm.put (h e he).1 (h e he).2

theorem Forall.sublist (hm : m.Forall P) {es : List (Value × Value)} (h : es.Sublist m.entries) :
    ({ m with entries := es } : MapCell).Forall P := fun e he => hm e (h.subset he)

/-- A map holds what it held before, values of the request and sides of pairs among these. -/
theorem edit_forall (hP : Value.Splits P) (request : Edit) (hm : m.Forall P)
    (hvalues : ∀ v ∈ request.values, P v) : (Editing.after (edit s request) m).Forall P := by
  cases request with
  | add v => exact hm.add hP (hvalues v List.mem_cons_self)
  | insert k v | put k v =>
    exact hm.put (hvalues k List.mem_cons_self)
      (hvalues v (List.mem_cons_of_mem k List.mem_cons_self))
  | addAll k vs =>
    cases k with
    | none => exact hm.foldl fun m hm v hv => hm.add hP (hvalues v hv)
    | some k =>
      exact hm.foldl fun m hm v hv =>
        hm.put (hvalues k List.mem_cons_self) (hvalues v (List.mem_cons_of_mem k hv))
  | fill v =>
    intro e he
    obtain ⟨e', he', rfl⟩ := List.mem_map.mp he
    exact ⟨(hm e' he').1, hvalues v List.mem_cons_self⟩
  | remove v =>
    cases hr : removeFirst s.eq v m.entries with
    | none =>
      have hsame : Editing.after (edit s (.remove v)) m = m := by
        simp only [Editing.after, Editing.on, edit, Editing.get_bind_apply, hr]
        rfl
      rwa [hsame]
    | some rest =>
      have hrest : Editing.after (edit s (.remove v)) m = { m with entries := rest } := by
        simp only [Editing.after, Editing.on, edit, Editing.get_bind_apply, hr]
        rfl
      rw [hrest]
      exact hm.sublist (sublist_removeFirst hr)
  | removeEvery v => exact hm.sublist (List.filter_sublist)
  | removeAll vs => exact hm.foldl fun m hm v _ => hm.sublist (List.filter_sublist)
  | removeAt k => exact hm.sublist (List.filter_sublist)
  | removeAllAt ks => exact hm.foldl fun m hm k _ => hm.sublist (List.filter_sublist)
  | clear => exact hm.sublist (List.nil_sublist _)

end MapCell

/-! ## Graphs -/

namespace GraphCell
variable {g : GraphCell}

/-- All vertices and ends of edges of a graph have a property. -/
structure Forall (P : Value → Prop) (g : GraphCell) : Prop where
  vertices : ∀ v ∈ g.vertices, P v
  edges : ∀ e ∈ g.edges, P e.source ∧ P e.target

theorem Forall.addVertex (hg : g.Forall P) {c : Value → Value → Bool} {v : Value} (hv : P v) :
    (g.addVertex c v).Forall P := by
  unfold GraphCell.addVertex
  split
  · exact hg
  · exact ⟨List.forall_mem_append.mpr ⟨hg.vertices, by simpa using hv⟩, hg.edges⟩

theorem forall_putEdge {eq : Value → Value → Bool} {a b : Value} {w : Float} {es : List Edge}
    (hes : ∀ e ∈ es, P e.source ∧ P e.target) (ha : P a) (hb : P b) :
    ∀ e ∈ putEdge eq a b w es, P e.source ∧ P e.target := by
  induction es with
  | nil => simpa [putEdge] using ⟨ha, hb⟩
  | cons e rest ih =>
    obtain ⟨he, hrest⟩ := List.forall_mem_cons.mp hes
    unfold putEdge
    split
    · exact List.forall_mem_cons.mpr ⟨he, hrest⟩
    · exact List.forall_mem_cons.mpr ⟨he, ih hrest⟩

theorem Forall.addEdge (hg : g.Forall P) {c : Value → Value → Bool} {a b : Value} {w : Float}
    (ha : P a) (hb : P b) : (g.addEdge c a b w).Forall P := by
  have hends := (hg.addVertex (c := c) ha).addVertex (c := c) hb
  exact ⟨hends.vertices, forall_putEdge hends.edges ha hb⟩

theorem Forall.add (hP : Value.Splits P) (hg : g.Forall P) {eq : Value → Value → Bool} {v : Value}
    (hv : P v) : (g.add eq v).Forall P := by
  cases v with
  | pair a b => exact hg.addEdge (hP a b hv).1 (hP a b hv).2
  | _ => exact hg.addVertex hv

theorem Forall.sublist (hg : g.Forall P) {vs : List Value} {es : List Edge}
    (hvs : vs.Sublist g.vertices) (hes : es.Sublist g.edges) : (⟨vs, es⟩ : GraphCell).Forall P :=
  ⟨fun v hv => hg.vertices v (hvs.subset hv), fun e he => hg.edges e (hes.subset he)⟩

theorem Forall.remove (hg : g.Forall P) (eq : Value → Value → Bool) (v : Value) :
    (g.remove eq v).1.Forall P := by
  cases v with
  | pair a b => exact hg.sublist (List.Sublist.refl _) (List.filter_sublist)
  | _ => exact hg.sublist (List.filter_sublist) (List.filter_sublist)

theorem Forall.foldl {f : GraphCell → Value → GraphCell} {vs : List Value} (hg : g.Forall P)
    (hf : ∀ g : GraphCell, g.Forall P → ∀ v ∈ vs, (f g v).Forall P) :
    (vs.foldl f g).Forall P := by
  induction vs generalizing g with
  | nil => exact hg
  | cons v vs ih =>
    exact ih (hf g hg v List.mem_cons_self) fun g hg v hv => hf g hg v (List.mem_cons_of_mem _ hv)

theorem Forall.putAt (hP : Value.Splits P) (hg : g.Forall P) {index : Value} (hindex : P index)
    (v : Value) : (Editing.after (putAt s index v) g).Forall P := by
  unfold Editing.after Editing.on GraphCell.putAt
  rw [Editing.get_bind_apply]
  cases index with
  | pair a b =>
    cases weightOf s v with
    | ok w => exact hg.addEdge (hP a b hindex).1 (hP a b hindex).2
    | error e => exact hg
  | _ => cases weightOf s v <;> exact hg

theorem Forall.removeAt (hg : g.Forall P) (index : Value) :
    (Editing.after (removeAt s index) g).Forall P := by
  unfold Editing.after Editing.on GraphCell.removeAt
  rw [Editing.get_bind_apply]
  cases endpoints s index with
  | ok ends => exact hg.remove s.eq index
  | error e => exact hg

/-- A graph holds what it held before, values of the request and sides of pairs among these. -/
theorem edit_forall (hP : Value.Splits P) (request : Edit) (hg : g.Forall P)
    (hvalues : ∀ v ∈ request.values, P v) : (Editing.after (edit s request) g).Forall P := by
  cases request with
  | add v => exact hg.add hP (hvalues v List.mem_cons_self)
  | insert index v | put index v =>
    have hput := hg.putAt (s := s) hP (hvalues index List.mem_cons_self) v
    rwa [← Editing.after_then_done] at hput
  | addAll index vs =>
    cases index with
    | none => exact hg.foldl fun g hg v hv => hg.add hP (hvalues v hv)
    | some index =>
      have hindex := hvalues index List.mem_cons_self
      have heach : Forall P ((editEach (putAt s index) vs).after g) :=
        Editing.after_editEach (fun v _ _ hg => hg.putAt hP hindex v) hg
      rwa [← Editing.after_then_done] at heach
  | fill v =>
    cases hw : weightOf s v with
    | error e =>
      have hsame : Editing.after (edit s (.fill v)) g = g := by
        simp only [Editing.after, Editing.on, edit, Editing.get_bind_apply, hw]
        rfl
      rwa [hsame]
    | ok w =>
      have hfill : Editing.after (edit s (.fill v)) g = g.fill w := by
        simp only [Editing.after, Editing.on, edit, Editing.get_bind_apply, hw]
        rfl
      rw [hfill]
      refine ⟨hg.vertices, fun e he => ?_⟩
      obtain ⟨e', he', rfl⟩ := List.mem_map.mp he
      exact hg.edges e' he'
  | remove v | removeEvery v => exact hg.remove s.eq v
  | removeAll vs => exact hg.foldl fun g hg v _ => hg.remove s.eq v
  | removeAt index =>
    have hremove := hg.removeAt (s := s) index
    rwa [← Editing.after_then_done] at hremove
  | removeAllAt indexes =>
    have heach : Forall P ((editEach (removeAt s) indexes).after g) :=
      Editing.after_editEach (fun v _ _ hg => hg.removeAt v) hg
    rwa [← Editing.after_then_done] at heach
  | clear => exact hg.sublist (List.nil_sublist _) (List.nil_sublist _)

end GraphCell
end Habitat
