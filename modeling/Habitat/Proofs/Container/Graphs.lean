import Mathlib.Data.List.Find
import Habitat.Proofs.Container.ReadBack
import Habitat.Proofs.Store.Keys

/-!
# Graphs stay well formed

A graph keeps its vertices and its edges apart, and every operation has to keep them together. Each
operation is made of a few steps (`GraphCell.perform_keeps`), and each of these keeps the vertices
different, the edges different, and both ends of every edge among the vertices
(`GraphCell.WellFormed`). So does every run of operations, whether they succeed, fail, or stop
halfway (`GraphCell.stays_wellFormed`).

Pairs stand for edges when they are added or removed, but nothing keeps a pair from being a vertex:
it becomes one as the end of an edge, or by way of `Op.vertex`.
-/
namespace Habitat

/-- An edge as the pair of its ends. -/
def Edge.link (e : Edge) : Value := .pair e.source e.target

/-- The ends of the edge that an index names. -/
def Value.ends : Value → List Value
  | .pair a b => [a, b]
  | _ => []

/-- The vertices that a value brings along when it is added to a graph. -/
def Value.vertices : Value → List Value
  | .pair a b => [a, b]
  | v => [v]

/-- The vertices that a request may add to a graph. -/
def Edit.vertices : Edit → List Value
  | .add v => v.vertices
  | .insert i _ | .put i _ | .addAll (some i) _ => i.ends
  | .addAll none vs => vs.flatMap Value.vertices
  | _ => []

namespace GraphCell

/-- What can be asked of a graph. -/
inductive Op where
  | edit (request : Edit)
  /-- Add a vertex, which may be a pair. -/
  | vertex (v : Value)
  /-- Add an edge with a weight. -/
  | edge (a b : Value) (w : Float)

/-- The vertices that an operation may add. -/
def Op.brings : Op → List Value
  | .edit request => request.vertices
  | .vertex v => [v]
  | .edge a b _ => [a, b]

/-- What an operation leaves of a graph, whether it succeeds or fails. -/
def Op.perform (s : Store) (g : GraphCell) : Op → GraphCell
  | .edit request => (GraphCell.edit s request).after g
  | .vertex v => g.addVertex s.eq v
  | .edge a b w => g.addEdge s.eq a b w

/-- What is left of a graph after a run of operations, each with the store that it finds. -/
def run (g : GraphCell) (ops : List (Store × Op)) : GraphCell :=
  ops.foldl (fun g step => step.2.perform step.1 g) g

/-- The edges as pairs of their ends. -/
def links (g : GraphCell) : List Value := g.edges.map Edge.link

/-- The vertices are different, no two edges have the same ends in the same order, and the ends of
every edge are vertices. -/
structure WellFormed (eq : Value → Value → Bool) (g : GraphCell) : Prop where
  vertices : Distinct eq g.vertices
  edges : Distinct eq g.links
  ends : ∀ e ∈ g.edges,
    g.vertices.any (eq · e.source) = true ∧ g.vertices.any (eq · e.target) = true

/-- All vertices are values that are found again. -/
structure Keyed (g : GraphCell) : Prop where
  vertices : ∀ v ∈ g.vertices, v.isKey = true
  edges : ∀ e ∈ g.edges, e.source.isKey = true ∧ e.target.isKey = true

/-! ## What an operation is made of -/

section
variable {s : Store} {P : GraphCell → Prop} {g : GraphCell}

theorem after_putAt {index value : Value}
    (hedge : ∀ g w, ∀ a ∈ index.ends, ∀ b ∈ index.ends, P g → P (g.addEdge s.eq a b w))
    (hg : P g) : P ((putAt s index value).after g) := by
  unfold Editing.after Editing.on putAt
  rw [Editing.get_bind_apply]
  cases index with
  | pair a b =>
    cases weightOf s value with
    | error e => exact hg
    | ok w => exact hedge g w a List.mem_cons_self b (by simp [Value.ends]) hg
  | _ => exact hg

theorem after_removeAt {index : Value} (hremove : ∀ g v, P g → P (g.remove s.eq v).1)
    (hg : P g) : P ((removeAt s index).after g) := by
  unfold Editing.after Editing.on removeAt
  rw [Editing.get_bind_apply]
  cases index with
  | pair a b => exact hremove g _ hg
  | _ => exact hg

theorem foldl_keeps {α : Type} {f : GraphCell → α → GraphCell} {as : List α}
    (h : ∀ g, ∀ a ∈ as, P g → P (f g a)) (hg : P g) : P (as.foldl f g) := by
  induction as generalizing g with
  | nil => exact hg
  | cons a as ih =>
    exact ih (fun g b hb => h g b (List.mem_cons_of_mem a hb)) (h g a List.mem_cons_self hg)

/-- What the steps keep that operations are made of is kept by every operation. -/
theorem perform_keeps {op : Op}
    (hvertex : ∀ g, ∀ v ∈ op.brings, P g → P (g.addVertex s.eq v))
    (hedge : ∀ g w, ∀ a ∈ op.brings, ∀ b ∈ op.brings, P g → P (g.addEdge s.eq a b w))
    (hremove : ∀ g v, P g → P (g.remove s.eq v).1) (hfill : ∀ g w, P g → P (g.fill w))
    (hempty : P ⟨[], []⟩) (hg : P g) : P (op.perform s g) := by
  have hadd {g : GraphCell} {v : Value} (hv : v.vertices ⊆ op.brings) (hg : P g) :
      P (g.add s.eq v) := by
    cases v with
    | pair a b =>
      have hb : b ∈ op.brings := hv (List.mem_cons_of_mem a List.mem_cons_self)
      exact hedge g _ a (hv List.mem_cons_self) b hb hg
    | _ => exact hvertex g _ (hv List.mem_cons_self) hg
  cases op with
  | vertex v => exact hvertex g v List.mem_cons_self hg
  | edge a b w => exact hedge g w a List.mem_cons_self b (by simp [Op.brings]) hg
  | edit request =>
    unfold Op.perform
    cases request with
    | add v => exact hadd (List.Subset.refl _) hg
    | insert index v | put index v =>
      have hput : P ((putAt s index v).after g) := after_putAt hedge hg
      rwa [← Editing.after_then_done] at hput
    | addAll index vs =>
      cases index with
      | none =>
        refine foldl_keeps (fun g v hv => hadd fun x hx => ?_) hg
        exact List.mem_flatMap.mpr ⟨v, hv, hx⟩
      | some index =>
        have heach : P ((editEach (putAt s index) vs).after g) :=
          Editing.after_editEach (fun v _ g hg => after_putAt hedge hg) hg
        rwa [← Editing.after_then_done] at heach
    | fill v =>
      show P ((editWhole ((weightOf s v).map g.fill)).after g)
      cases weightOf s v with
      | error e => exact hg
      | ok w => exact hfill g w hg
    | remove v | removeEvery v => exact hremove g v hg
    | removeAll vs => exact foldl_keeps (fun g v _ => hremove g v) hg
    | removeAt index =>
      have hdone : P ((removeAt s index).after g) := after_removeAt hremove hg
      rwa [← Editing.after_then_done] at hdone
    | removeAllAt indexes =>
      have heach : P ((editEach (removeAt s) indexes).after g) :=
        Editing.after_editEach (fun v _ g hg => after_removeAt hremove hg) hg
      rwa [← Editing.after_then_done] at heach
    | clear => exact hempty

end

/-! ## What the steps keep -/

section
variable {s t : Store} {g : GraphCell} {a b v : Value} {w : Float} {es : List Edge}

theorem joins_eq (s : Store) (a b : Value) (e : Edge) :
    joins s.eq a b e = s.eq e.link (.pair a b) := by
  unfold Store.eq
  cases s.size <;> rfl

theorem mem_addVertex {x : Value} (h : x ∈ (g.addVertex s.eq v).vertices) :
    x ∈ g.vertices ∨ x = v := by
  unfold addVertex at h
  split at h
  · exact .inl h
  · exact (List.mem_append.mp h).imp_right List.mem_singleton.mp

theorem vertices_subset_addVertex : g.vertices ⊆ (g.addVertex s.eq v).vertices := by
  unfold addVertex
  split
  · exact List.Subset.refl _
  · exact List.subset_append_left _ _

/-- A vertex that is added is there. -/
theorem any_addVertex (hv : v.isKey = true) :
    (g.addVertex s.eq v).vertices.any (s.eq · v) = true := by
  unfold addVertex
  split
  · assumption
  · rw [List.any_append, List.any_cons, Store.eq_self_of_isKey s hv, Bool.true_or, Bool.or_true]

theorem mem_putEdge_iff {e : Edge} (h : e ∈ putEdge s.eq a b w es) :
    (∃ f ∈ es, e.source = f.source ∧ e.target = f.target) ∨ e.source = a ∧ e.target = b := by
  induction es with
  | nil =>
    cases List.mem_singleton.mp h
    exact .inr ⟨rfl, rfl⟩
  | cons f rest ih =>
    unfold putEdge at h
    split at h
    · rcases List.mem_cons.mp h with rfl | h
      · exact .inl ⟨f, List.mem_cons_self, rfl, rfl⟩
      · exact .inl ⟨e, List.mem_cons_of_mem f h, rfl, rfl⟩
    · rcases List.mem_cons.mp h with rfl | h
      · exact .inl ⟨e, List.mem_cons_self, rfl, rfl⟩
      · rcases ih h with ⟨f', hf', hends⟩ | hends
        · exact .inl ⟨f', List.mem_cons_of_mem f hf', hends⟩
        · exact .inr hends

/-- An edge that is new goes to the end, and no other edge changes its ends. -/
theorem links_putEdge :
    (putEdge s.eq a b w es).map Edge.link =
      if (es.map Edge.link).any (s.eq · (.pair a b)) then es.map Edge.link
      else es.map Edge.link ++ [.pair a b] := by
  induction es with
  | nil => rfl
  | cons e rest ih =>
    rw [putEdge, joins_eq, List.map_cons, List.any_cons]
    cases s.eq e.link (.pair a b) with
    | true => rfl
    | false =>
      rw [if_neg Bool.false_ne_true, List.map_cons, ih, Bool.false_or]
      split <;> rfl

namespace Keyed

theorem link (h : g.Keyed) : ∀ l ∈ g.links, l.isKey = true := by
  intro l hl
  obtain ⟨e, he, rfl⟩ := List.mem_map.mp hl
  exact (Bool.and_eq_true _ _).mpr (h.edges e he)

theorem addVertex (h : g.Keyed) (hv : v.isKey = true) : (g.addVertex s.eq v).Keyed :=
  ⟨fun x hx => (mem_addVertex hx).elim (h.vertices x) fun hx => hx ▸ hv,
    by rw [edges_addVertex]; exact h.edges⟩

theorem addEdge (h : g.Keyed) (ha : a.isKey = true) (hb : b.isKey = true) :
    (g.addEdge s.eq a b w).Keyed := by
  refine ⟨((h.addVertex ha).addVertex hb).vertices, fun e he => ?_⟩
  rw [edges_addEdge] at he
  rcases mem_putEdge_iff he with ⟨f, hf, hsource, htarget⟩ | ⟨hsource, htarget⟩
  · rw [hsource, htarget]
    exact h.edges f hf
  · rw [hsource, htarget]
    exact ⟨ha, hb⟩

theorem remove (h : g.Keyed) (v : Value) : (g.remove s.eq v).1.Keyed := by
  cases v with
  | pair a b => exact ⟨h.vertices, fun e he => h.edges e (List.mem_of_mem_filter he)⟩
  | _ =>
    exact ⟨fun x hx => h.vertices x (List.mem_of_mem_filter hx),
      fun e he => h.edges e (List.mem_of_mem_filter he)⟩

theorem fill (h : g.Keyed) (w : Float) : (g.fill w).Keyed := by
  refine ⟨h.vertices, fun e he => ?_⟩
  obtain ⟨f, hf, rfl⟩ := List.mem_map.mp he
  exact h.edges f hf

theorem empty : Keyed ⟨[], []⟩ := ⟨nofun, nofun⟩

end Keyed

theorem any_of_subset {vs ws : List Value} (hsub : vs ⊆ ws) {p : Value → Bool}
    (h : vs.any p = true) : ws.any p = true := by
  obtain ⟨x, hx, hp⟩ := List.any_eq_true.mp h
  exact List.any_eq_true.mpr ⟨x, hsub hx, hp⟩

namespace WellFormed

theorem congr (h : WellFormed s.eq g) (hkeys : g.Keyed) : WellFormed t.eq g where
  vertices := h.vertices.imp_of_mem fun hx _ hne =>
    (Store.eq_of_isKey t s (hkeys.vertices _ hx) _).trans hne
  edges := h.edges.imp_of_mem fun hl _ hne =>
    (Store.eq_of_isKey t s (hkeys.link _ hl) _).trans hne
  ends e he := by
    have hany (v : Value) : g.vertices.any (t.eq · v) = g.vertices.any (s.eq · v) := by
      rw [← List.isSome_find?, ← List.isSome_find?,
        List.find?_congr fun x hx => Store.eq_of_isKey t s (hkeys.vertices x hx) v]
    rw [hany, hany]
    exact h.ends e he

theorem addVertex (h : WellFormed s.eq g) (v : Value) : WellFormed s.eq (g.addVertex s.eq v) where
  vertices := by
    unfold GraphCell.addVertex
    split
    case isTrue => exact h.vertices
    case isFalse hnew => exact h.vertices.concat (Bool.not_eq_true _ ▸ hnew)
  edges := by
    rw [links, edges_addVertex]
    exact h.edges
  ends e he := by
    rw [edges_addVertex] at he
    exact (h.ends e he).imp (any_of_subset vertices_subset_addVertex)
      (any_of_subset vertices_subset_addVertex)

theorem addEdge (h : WellFormed s.eq g) (ha : a.isKey = true) (hb : b.isKey = true) (w : Float) :
    WellFormed s.eq (g.addEdge s.eq a b w) where
  vertices := ((h.addVertex a).addVertex b).vertices
  edges := by
    rw [links, edges_addEdge, links_putEdge]
    split
    case isTrue => exact h.edges
    case isFalse hnew => exact h.edges.concat (Bool.not_eq_true _ ▸ hnew)
  ends e he := by
    rw [edges_addEdge] at he
    rcases mem_putEdge_iff he with ⟨f, hf, hsource, htarget⟩ | ⟨hsource, htarget⟩
    · rw [hsource, htarget]
      refine ((h.addVertex a).addVertex b).ends f ?_
      rwa [edges_addVertex, edges_addVertex]
    · rw [hsource, htarget]
      exact ⟨any_of_subset vertices_subset_addVertex (any_addVertex ha), any_addVertex hb⟩

/-- A vertex takes its edges with it, and the other edges keep their ends. -/
theorem remove (h : WellFormed s.eq g) (hkeys : g.Keyed) (v : Value) :
    WellFormed s.eq (g.remove s.eq v).1 := by
  have hsub (p : Edge → Bool) : ((g.edges.filter p).map Edge.link).Sublist g.links :=
    List.filter_sublist.map _
  have hend {x : Value} (hx : g.vertices.any (s.eq · x) = true) (hne : s.eq x v = false)
      (hkey : x.isKey = true) : (g.vertices.filter fun y => !s.eq y v).any (s.eq · x) = true := by
    obtain ⟨y, hy, hyx⟩ := List.any_eq_true.mp hx
    refine List.any_eq_true.mpr ⟨y, List.mem_filter.mpr ⟨hy, ?_⟩, hyx⟩
    rw [Store.eq_congr_of_isKey (hkeys.vertices y hy) hkey hyx, hne, Bool.not_false]
  cases v with
  | pair a b =>
    exact ⟨h.vertices, h.edges.sublist (hsub _), fun e he => h.ends e (List.mem_of_mem_filter he)⟩
  | _ =>
    refine ⟨h.vertices.sublist List.filter_sublist, h.edges.sublist (hsub _), fun e he => ?_⟩
    obtain ⟨hmem, hne⟩ := List.mem_filter.mp he
    simp only [Bool.and_eq_true, Bool.not_eq_true'] at hne
    exact ⟨hend (h.ends e hmem).1 hne.1 (hkeys.edges e hmem).1,
      hend (h.ends e hmem).2 hne.2 (hkeys.edges e hmem).2⟩

theorem fill (h : WellFormed s.eq g) (w : Float) : WellFormed s.eq (g.fill w) where
  vertices := h.vertices
  edges := by
    have hlinks : (g.fill w).links = g.links := by
      rw [links, GraphCell.fill, List.map_map]
      rfl
    rw [hlinks]
    exact h.edges
  ends e he := by
    obtain ⟨f, hf, rfl⟩ := List.mem_map.mp he
    exact h.ends f hf

theorem empty : WellFormed s.eq ⟨[], []⟩ := ⟨.nil, .nil, nofun⟩

end WellFormed

/-- An operation keeps a graph well formed, whatever becomes of it. -/
theorem perform_wellFormed (hkeys : g.Keyed) (h : WellFormed s.eq g) {op : Op}
    (hbrings : ∀ v ∈ op.brings, v.isKey = true) :
    (op.perform s g).Keyed ∧ WellFormed s.eq (op.perform s g) := by
  refine perform_keeps (P := fun g => g.Keyed ∧ WellFormed s.eq g) ?vertex ?edge ?remove ?fill
    ?empty ⟨hkeys, h⟩
  case vertex => exact fun g v hv ⟨hkeys, h⟩ => ⟨hkeys.addVertex (hbrings v hv), h.addVertex v⟩
  case edge =>
    intro g w a ha b hb ⟨hkeys, h⟩
    exact ⟨hkeys.addEdge (hbrings a ha) (hbrings b hb), h.addEdge (hbrings a ha) (hbrings b hb) w⟩
  case remove => exact fun g v ⟨hkeys, h⟩ => ⟨hkeys.remove v, h.remove hkeys v⟩
  case fill => exact fun g w ⟨hkeys, h⟩ => ⟨hkeys.fill w, h.fill w⟩
  case empty => exact ⟨.empty, .empty⟩

theorem run_wellFormed (hkeys : g.Keyed) (h : ∀ s : Store, WellFormed s.eq g)
    {ops : List (Store × Op)} (hbrings : ∀ step ∈ ops, ∀ v ∈ step.2.brings, v.isKey = true) :
    (g.run ops).Keyed ∧ ∀ s : Store, WellFormed s.eq (g.run ops) := by
  induction ops generalizing g with
  | nil => exact ⟨hkeys, h⟩
  | cons step rest ih =>
    obtain ⟨hstep, hrest⟩ := List.forall_mem_cons.mp hbrings
    obtain ⟨hkeys', h'⟩ := perform_wellFormed hkeys (h step.1) hstep
    exact ih hkeys' (fun s => h'.congr hkeys') hrest

/-! ## Weights -/

theorem joins_congr (hkeys : g.Keyed) {e : Edge} (he : e ∈ g.edges) (a b : Value) :
    joins s.eq a b e = joins t.eq a b e := by
  rw [joins, joins, Store.eq_of_isKey s t (hkeys.edges e he).1,
    Store.eq_of_isKey s t (hkeys.edges e he).2]

/-- The weight of an edge does not depend on the store. -/
theorem weight?_congr (hkeys : g.Keyed) (a b : Value) :
    g.weight? s.eq a b = g.weight? t.eq a b := by
  unfold weight?
  rw [List.find?_congr fun e he => joins_congr hkeys he a b]

theorem find?_putEdge_of_ne {a' b' : Value} (hne : joins t.eq a' b' ⟨a, b, w⟩ = false)
    (hes : ∀ e ∈ es, joins s.eq a b e = true → joins t.eq a' b' e = false) :
    ((putEdge s.eq a b w es).find? (joins t.eq a' b')).map (·.weight) =
      (es.find? (joins t.eq a' b')).map (·.weight) := by
  induction es with
  | nil => simp [putEdge, hne]
  | cons e rest ih =>
    have hrest := ih fun f hf => hes f (List.mem_cons_of_mem e hf)
    by_cases hek : joins s.eq a b e = true
    · have hold := hes e List.mem_cons_self hek
      have hnew : joins t.eq a' b' { e with weight := w } = false := hold
      simp [putEdge, hek, hold, hnew]
    · cases hek' : joins t.eq a' b' e <;> simp [putEdge, hek, hek', hrest]

/-- An edge that is added has its weight, and every other edge the weight that it had. -/
theorem weight?_addEdge (hkeys : g.Keyed) (ha : a.isKey = true) (hb : b.isKey = true) (w : Float) :
    (g.addEdge s.eq a b w).weight? t.eq a b = some w ∧
      ∀ a' b', (t.eq a a' && t.eq b b') = false →
        (g.addEdge s.eq a b w).weight? t.eq a' b' = g.weight? t.eq a' b' := by
  simp only [weight?, edges_addEdge]
  constructor
  · refine find?_putEdge (fun e he => joins_congr hkeys he a b) ?_
    rw [joins, Store.eq_self_of_isKey t ha, Store.eq_self_of_isKey t hb, Bool.and_self]
  · intro a' b' hne
    refine find?_putEdge_of_ne hne fun e he hjoins => ?_
    rw [joins_congr hkeys he] at hjoins
    obtain ⟨hsource, htarget⟩ := (Bool.and_eq_true _ _).mp hjoins
    rw [joins, Store.eq_congr_of_isKey (hkeys.edges e he).1 ha hsource,
      Store.eq_congr_of_isKey (hkeys.edges e he).2 hb htarget, hne]

/-- Nothing but the vertex and its edges is removed, and the other edges keep their weights. -/
theorem remove_vertex (hkeys : g.Keyed) (hpair : ∀ a b, v ≠ .pair a b) :
    (∀ x, x ∈ (g.remove s.eq v).1.vertices ↔ x ∈ g.vertices ∧ t.eq x v = false) ∧
    (∀ e, e ∈ (g.remove s.eq v).1.edges ↔
      e ∈ g.edges ∧ t.eq e.source v = false ∧ t.eq e.target v = false) ∧
    ∀ a b, a.isKey = true → b.isKey = true →
      (g.remove s.eq v).1.weight? t.eq a b =
        if t.eq a v || t.eq b v then none else g.weight? t.eq a b := by
  have hremove : (g.remove s.eq v).1 =
      ⟨g.vertices.filter fun x => !s.eq x v,
        g.edges.filter fun e => !s.eq e.source v && !s.eq e.target v⟩ := by
    cases v with
    | pair a b => exact absurd rfl (hpair a b)
    | _ => rfl
  have htouch {e : Edge} (he : e ∈ g.edges) :
      (!s.eq e.source v && !s.eq e.target v) = !(t.eq e.source v || t.eq e.target v) := by
    rw [Store.eq_of_isKey s t (hkeys.edges e he).1, Store.eq_of_isKey s t (hkeys.edges e he).2,
      Bool.not_or]
  rw [hremove]
  refine ⟨fun x => ?_, fun e => ?_, fun a b ha hb => ?_⟩
  · rw [List.mem_filter]
    refine and_congr_right fun hx => ?_
    rw [Store.eq_of_isKey s t (hkeys.vertices x hx), Bool.not_eq_true']
  · rw [List.mem_filter]
    refine and_congr_right fun he => ?_
    rw [htouch he, Bool.not_eq_true', Bool.or_eq_false_iff]
  · rw [weight?, List.find?_filter, weight?]
    have hjoined {e : Edge} (he : e ∈ g.edges) (hjoins : joins t.eq a b e = true) :
        (!s.eq e.source v && !s.eq e.target v) = !(t.eq a v || t.eq b v) := by
      obtain ⟨hsource, htarget⟩ := (Bool.and_eq_true _ _).mp hjoins
      rw [htouch he, Store.eq_congr_of_isKey (hkeys.edges e he).1 ha hsource,
        Store.eq_congr_of_isKey (hkeys.edges e he).2 hb htarget]
    cases hv : t.eq a v || t.eq b v with
    | true =>
      rw [if_pos rfl, List.find?_eq_none.mpr, Option.map_none]
      intro e he
      rw [decide_eq_true_eq]
      rintro ⟨hkept, hjoins⟩
      rw [hjoined he hjoins, hv] at hkept
      cases hkept
    | false =>
      rw [if_neg Bool.false_ne_true]
      congr 1
      refine List.find?_congr fun e he => ?_
      cases hjoins : joins t.eq a b e with
      | false => simp
      | true => simp [hjoined he hjoins, hv]

/-- Whatever is asked of a graph that was empty, it is well formed. If a value that is no pair is
removed from it, this vertex and its edges are gone and nothing else; and an edge that is added has
its weight, while all others keep theirs. -/
theorem stays_wellFormed {ops : List (Store × Op)}
    (hbrings : ∀ step ∈ ops, ∀ v ∈ step.2.brings, v.isKey = true) (s t u : Store) :
    let g := run ⟨[], []⟩ ops
    WellFormed t.eq g ∧
    (∀ v, (∀ a b, v ≠ .pair a b) →
      ∃ g' found, edit s (.remove v) g = .ok (.found found) g' ∧
        (∀ x, x ∈ g'.vertices ↔ x ∈ g.vertices ∧ t.eq x v = false) ∧
        (∀ e, e ∈ g'.edges ↔ e ∈ g.edges ∧ t.eq e.source v = false ∧ t.eq e.target v = false) ∧
        ∀ a b, a.isKey = true → b.isKey = true →
          g'.weight? t.eq a b = if t.eq a v || t.eq b v then none else g.weight? u.eq a b) ∧
    ∀ a b w, a.isKey = true → b.isKey = true →
      (g.addEdge s.eq a b w).weight? t.eq a b = some w ∧
      ∀ a' b', (t.eq a a' && t.eq b b') = false →
        (g.addEdge s.eq a b w).weight? t.eq a' b' = g.weight? u.eq a' b' := by
  intro g
  obtain ⟨hkeys, hformed⟩ : g.Keyed ∧ ∀ s : Store, WellFormed s.eq g :=
    run_wellFormed .empty (fun _ => .empty) hbrings
  refine ⟨hformed t, fun v hpair => ?_, fun a b w ha hb => ?_⟩
  · obtain ⟨hvertices, hedges, hweights⟩ := remove_vertex (s := s) (t := t) hkeys hpair
    refine ⟨(g.remove s.eq v).1, (g.remove s.eq v).2, rfl, hvertices, hedges, fun a b ha hb => ?_⟩
    rw [hweights a b ha hb, weight?_congr hkeys]
  · obtain ⟨hown, hother⟩ := weight?_addEdge (s := s) (t := t) hkeys ha hb w
    refine ⟨hown, fun a' b' hne => ?_⟩
    rw [hother a' b' hne, weight?_congr hkeys]

end

/-- A place that is named by two others. -/
def junction : Value := .pair (.int 1) (.int 2)

/-- Roads between two places and their junction. A road without ends and a weight that is none are
refused, and one of the places is removed in the end. -/
def roads : List (Store × Op) :=
  [(.empty, .edge (.int 1) (.int 2) 1.5), (.empty, .edit (.add (.pair (.int 2) (.int 1)))),
    (.empty, .vertex junction), (.empty, .edit (.insert (.int 1) (.int 2))),
    (.empty, .edit (.addAll (some (.pair (.int 2) junction)) [.int 3, .bool true])),
    (.empty, .edit (.remove (.int 1)))]

theorem stays_wellFormed_roads :
    (∀ step ∈ roads, ∀ v ∈ step.2.brings, v.isKey = true) ∧
    WellFormed Store.empty.eq (run ⟨[], []⟩ roads) ∧
    (run ⟨[], []⟩ roads).links = [.pair (.int 2) junction] := by
  have hbrings : ∀ step ∈ roads, ∀ v ∈ step.2.brings, v.isKey = true := by decide
  exact ⟨hbrings, (stays_wellFormed hbrings .empty .empty .empty).1, rfl⟩

end GraphCell
end Habitat
