import Habitat.Store.OfJson
import Habitat.Proofs.Json.Schema
import Habitat.Proofs.Store.Depth

/-!
# Values and their documents

A document whose integers fit into 64 bits, whose floats are finite and whose objects have no name
twice is exact (`Json.Exact`). A value made of scalars, lists, and maps with distinct texts as keys
is plain (`Store.Plain`). Each exact document is the document of the plain value that is made from
it, and each plain value looks like the one made from its document, the declared types of its
containers aside (`documents_round_trip`).

The trees of the two values need not be equal, as a document does not say what types a container
declares; `Tree.untyped` forgets them.
-/
namespace Habitat

/-- A document that says all there is to know about a value. -/
inductive Json.Exact : Json → Prop
  | null : Exact .null
  | bool (b : Bool) : Exact (.bool b)
  | int {n : Int} (lower : -2 ^ 63 ≤ n) (upper : n < 2 ^ 63) : Exact (.int n)
  | float {x : Float} (finite : x.isFinite = true) : Exact (.float x)
  | str (s : String) : Exact (.str s)
  | arr {items : List Json} (items_exact : ∀ j ∈ items, Exact j) : Exact (.arr items)
  | obj {fields : List (String × Json)} (distinct : (fields.map (·.1)).Nodup)
      (fields_exact : ∀ f ∈ fields, Exact f.2) : Exact (.obj fields)

namespace Store

/-- A map's entries whose keys are texts. -/
def textEntries (fields : List (String × Value)) : List (Value × Value) :=
  fields.map fun f => (.str f.1, f.2)

/-- A value made of `nil`, booleans, integers, finite floats and texts, by lists and by maps with
distinct texts as keys. -/
inductive Plain (s : Store) : Value → Prop
  | nil : Plain s .nil
  | bool (b : Bool) : Plain s (.bool b)
  | int (n : Int64) : Plain s (.int n)
  | float {x : Float} (finite : x.isFinite = true) : Plain s (.float x)
  | str (t : String) : Plain s (.str t)
  | list {i : Nat} (exists_list : i < s.lists.size)
      (items_plain : ∀ v ∈ (s.lists.get i).items.toList, Plain s v) : Plain s (.list i)
  | map {i : Nat} (exists_map : i < s.maps.size) {fields : List (String × Value)}
      (entries_eq : (s.maps.get i).entries = textEntries fields)
      (distinct : (fields.map (·.1)).Nodup)
      (values_plain : ∀ f ∈ fields, Plain s f.2) : Plain s (.map i)

/-- The value is plain, and this is its document. -/
structure Shows (s : Store) (v : Value) (j : Json) : Prop where
  plain : s.Plain v
  json : s.json v = j

/-! ## The documents of lists and maps -/

theorem Plain.ends {s : Store} {v : Value} (h : s.Plain v) : s.Ends v := by
  induction h with
  | list hi _ ih =>
    refine ⟨hi, fun r hr u hu => ?_⟩
    cases List.mem_singleton.mp hr
    exact ih u hu
  | map hi hentries _ _ ih =>
    refine ⟨hi, fun r hr u hu => ?_⟩
    cases List.mem_singleton.mp hr
    obtain ⟨e, he, hu⟩ := List.mem_flatMap.mp hu
    rw [hentries] at he
    obtain ⟨f, hf, rfl⟩ := List.mem_map.mp he
    rcases List.mem_pair.mp hu with rfl | rfl
    · exact ⟨trivial, fun _ hr => absurd hr List.not_mem_nil⟩
    · exact ih f hf
  | _ => exact ⟨trivial, fun _ hr => absurd hr List.not_mem_nil⟩

end Store

namespace Tree

theorem jsons_eq_map (ts : List Tree) : jsons ts = ts.map json := by
  induction ts with
  | nil => rfl
  | cons t rest ih => rw [jsons, ih, List.map_cons]

/-- Fields of distinct new names come after those already there, in the order of the entries. -/
theorem entryJsons_str (fields : List (String × Tree)) (done : List (String × Json))
    (h : (done.map (·.1) ++ fields.map (·.1)).Nodup) :
    entryJsons (fields.map fun f => (.str f.1, f.2)) done =
      done ++ fields.map fun f => (f.1, f.2.json) := by
  induction fields generalizing done with
  | nil => rw [List.map_nil, entryJsons, List.map_nil, List.append_nil]
  | cons f rest ih =>
    have hnew : f.1 ∉ done.map (·.1) := fun hmem =>
      (List.nodup_append.mp h).2.2 _ hmem _ List.mem_cons_self rfl
    rw [List.map_cons, entryJsons, text, Json.putField_of_not_mem hnew, ih _ (by simpa using h),
      List.map_cons, List.append_assoc, List.singleton_append]

end Tree

namespace Store

variable {s t : Store} {v : Value}

theorem json_of_refs (h : v.refs = []) : s.json v = (s.treeAt 0 v).json :=
  congrArg Tree.json (tree_of_refs h)

theorem json_float {x : Float} (hx : x.isFinite = true) : s.json (.float x) = .float x :=
  (json_of_refs rfl).trans (if_pos hx)

theorem json_list {i : Nat} (h : s.Ends (.list i)) :
    s.json (.list i) = .arr ((s.lists.get i).items.toList.map s.json) := by
  rw [json, tree_list h, Tree.json, Tree.jsons_eq_map, List.map_map]
  rfl

theorem json_map {i : Nat} (h : s.Ends (.map i)) {fields : List (String × Value)}
    (hentries : (s.maps.get i).entries = textEntries fields)
    (hdistinct : (fields.map (·.1)).Nodup) :
    s.json (.map i) = .obj (fields.map fun f => (f.1, s.json f.2)) := by
  have htrees : (s.maps.get i).entries.map (fun e => (s.tree e.1, s.tree e.2)) =
      (fields.map fun f => (f.1, s.tree f.2)).map fun f => (.str f.1, f.2) := by
    rw [hentries, textEntries, List.map_map, List.map_map]
    refine List.map_congr_left fun f _ => ?_
    rw [Function.comp, Function.comp, tree_of_refs rfl]
    rfl
  have hnames : ((fields.map fun f => (f.1, s.tree f.2)).map (·.1)).Nodup := by
    rw [List.map_map]
    exact hdistinct
  rw [json, tree_map h, htrees, Tree.json, Tree.entryJsons_str _ [] hnames, List.nil_append,
    List.map_map]
  rfl

/-- A plain value stays plain when the store grows. -/
theorem Plain.mono (h : s.Plain v) (hst : s.Extends t) : t.Plain v := by
  induction h with
  | @list i hi _ ih =>
    have hcell := Object.list.inj (hst.cell_eq (.list, i) hi)
    exact .list (Nat.lt_of_lt_of_le hi (hst.extent_le .list)) (by rw [hcell]; exact ih)
  | @map i hi _ hentries hdistinct _ ih =>
    have hcell := Object.map.inj (hst.cell_eq (.map, i) hi)
    exact .map (Nat.lt_of_lt_of_le hi (hst.extent_le .map)) (by rw [hcell, hentries]) hdistinct ih
  | float hx => exact .float hx
  | _ => constructor

theorem Plain.json_eq (h : s.Plain v) (hst : s.Extends t) : t.json v = s.json v :=
  congrArg Tree.json (h.ends.tree_eq hst)

theorem Shows.mono {j : Json} (h : s.Shows v j) (hst : s.Extends t) : t.Shows v j :=
  ⟨h.plain.mono hst, by rw [h.plain.json_eq hst, h.json]⟩

/-! ## Values from documents -/

/-- Equality of texts does not look into the store. -/
theorem eq_str (s : Store) (a b : String) : s.eq (.str a) (.str b) = (a == b) := by
  unfold eq
  cases s.size <;> rfl

end Store

namespace MapCell

variable {eq : Value → Value → Bool}

/-- An entry of a new key comes last. -/
theorem putEntry_of_ne {k v : Value} {entries : List (Value × Value)}
    (h : ∀ e ∈ entries, eq e.1 k = false) : putEntry eq k v entries = entries ++ [(k, v)] := by
  induction entries with
  | nil => rfl
  | cons e rest ih =>
    obtain ⟨he, hrest⟩ := List.forall_mem_cons.mp h
    rw [putEntry, he, if_neg Bool.false_ne_true, ih hrest, List.cons_append]

/-- Entries of distinct keys are all kept, in their order. -/
theorem ofEntries_of_distinct (key content : BaseType) {entries : List (Value × Value)}
    (h : entries.Pairwise fun e f => eq e.1 f.1 = false) :
    ofEntries eq key content entries = ⟨key, content, entries⟩ := by
  suffices hdone : ∀ done : List (Value × Value),
      (done ++ entries).Pairwise (fun e f => eq e.1 f.1 = false) →
        entries.foldl (fun (m : MapCell) e => m.put eq e.1 e.2) ⟨key, content, done⟩ =
          ⟨key, content, done ++ entries⟩ from hdone [] h
  clear h
  induction entries with
  | nil => intro done _; rw [List.foldl_nil, List.append_nil]
  | cons e rest ih =>
    intro done hd
    have hnew : ∀ d ∈ done, eq d.1 e.1 = false := fun d hmem =>
      (List.pairwise_append.mp hd).2.2 d hmem e List.mem_cons_self
    rw [List.append_cons] at hd ⊢
    rw [List.foldl_cons, put, putEntry_of_ne hnew, ih _ hd]

end MapCell

namespace Store

variable {s t : Store} {v : Value}

/-- Making the value of a document makes new containers only, and the document shows the value. -/
structure Reads (s : Store) (made : Value × Store) (j : Json) : Prop where
  grows : s.Extends made.2
  shows : made.2.Shows made.1 j

theorem reads_scalar {j : Json} (h : s.Shows v j) : s.Reads (v, s) j := ⟨.refl s, h⟩

theorem ofItems_shows {items : List Json} (h : ∀ j ∈ items, ∀ s : Store, s.Reads (s.ofJson j) j)
    (s : Store) :
    s.Extends (s.ofItems items).2 ∧
      (∀ v ∈ (s.ofItems items).1, (s.ofItems items).2.Plain v) ∧
      (s.ofItems items).1.map (s.ofItems items).2.json = items := by
  induction items generalizing s with
  | nil => exact ⟨.refl s, fun v hv => absurd hv List.not_mem_nil, rfl⟩
  | cons j rest ih =>
    obtain ⟨hfirst, hj⟩ := h j List.mem_cons_self s
    obtain ⟨hgrows, hplain, hjson⟩ :=
      ih (fun k hk => h k (List.mem_cons_of_mem j hk)) (s.ofJson j).2
    have hlater := hj.mono hgrows
    exact ⟨hfirst.trans hgrows, List.forall_mem_cons.mpr ⟨hlater.plain, hplain⟩,
      congrArg₂ List.cons hlater.json hjson⟩

theorem ofFields_shows {fields : List (String × Json)}
    (h : ∀ f ∈ fields, ∀ s : Store, s.Reads (s.ofJson f.2) f.2) (s : Store) :
    s.Extends (s.ofFields fields).2 ∧
      ∃ made : List (String × Value), (s.ofFields fields).1 = textEntries made ∧
        (∀ f ∈ made, (s.ofFields fields).2.Plain f.2) ∧
        made.map (fun f => (f.1, (s.ofFields fields).2.json f.2)) = fields := by
  induction fields generalizing s with
  | nil => exact ⟨.refl s, [], rfl, fun f hf => absurd hf List.not_mem_nil, rfl⟩
  | cons f rest ih =>
    obtain ⟨hfirst, hf⟩ := h f List.mem_cons_self s
    obtain ⟨hgrows, made, hmade, hplain, hjson⟩ :=
      ih (fun g hg => h g (List.mem_cons_of_mem f hg)) (s.ofJson f.2).2
    have hlater := hf.mono hgrows
    refine ⟨hfirst.trans hgrows, (f.1, (s.ofJson f.2).1) :: made, ?_,
      List.forall_mem_cons.mpr ⟨hlater.plain, hplain⟩, ?_⟩
    · exact congrArg (List.cons _) hmade
    · exact congrArg₂ List.cons (Prod.ext rfl hlater.json) hjson

/-- A new list shows the documents of its items. -/
theorem shows_newList {vs : List Value} (hplain : ∀ v ∈ vs, s.Plain v) :
    (s.newList .any vs).2.Shows (s.newList .any vs).1 (.arr (vs.map s.json)) := by
  have hgrows : s.Extends (s.newList .any vs).2 := s.extends_addList _
  have hitems : ((s.newList .any vs).2.lists.get s.lists.size).items.toList = vs :=
    congrArg (·.items.toList) (Heap.get_push_size s.lists _)
  have hlist : (s.newList .any vs).2.Plain (.list s.lists.size) := by
    refine .list (by simp [newList, addList]) fun v hv => ?_
    rw [hitems] at hv
    exact (hplain v hv).mono hgrows
  refine ⟨hlist, (json_list hlist.ends).trans ?_⟩
  rw [hitems]
  exact congrArg Json.arr (List.map_congr_left fun v hv => (hplain v hv).json_eq hgrows)

/-- A new map of distinct texts shows the documents of its values. -/
theorem shows_newMapOf {fields : List (String × Value)} (hdistinct : (fields.map (·.1)).Nodup)
    (hplain : ∀ f ∈ fields, s.Plain f.2) :
    (s.newMapOf (textEntries fields)).2.Shows (s.newMapOf (textEntries fields)).1
      (.obj (fields.map fun f => (f.1, s.json f.2))) := by
  have hgrows : s.Extends (s.newMapOf (textEntries fields)).2 := s.extends_newMap _
  have hkeys : (textEntries fields).Pairwise fun e f => s.eq e.1 f.1 = false := by
    refine List.pairwise_map.mpr ((List.pairwise_map.mp hdistinct).imp fun hne => ?_)
    rw [eq_str, beq_eq_false_iff_ne]
    exact hne
  have hentries : ((s.newMapOf (textEntries fields)).2.maps.get s.maps.size).entries =
      textEntries fields := by
    rw [newMapOf, MapCell.ofEntries_of_distinct _ _ hkeys]
    exact congrArg (·.entries) (Heap.get_push_size s.maps _)
  have hmap : (s.newMapOf (textEntries fields)).2.Plain (.map s.maps.size) :=
    .map (by simp [newMapOf, newMap]) hentries hdistinct fun f hf => (hplain f hf).mono hgrows
  refine ⟨hmap, (json_map hmap.ends hentries hdistinct).trans (congrArg Json.obj ?_)⟩
  exact List.map_congr_left fun f hf => Prod.ext rfl ((hplain f hf).json_eq hgrows)

theorem numberOf_of_fits {n : Int} (lower : -2 ^ 63 ≤ n) (upper : n < 2 ^ 63) :
    numberOf n = .int (Int64.ofInt n) := by
  rw [numberOf, Decimal.toInt64?, if_pos ⟨lower, upper⟩]

/-- The value of an exact document has that document. -/
theorem reads_ofJson {j : Json} (hj : j.Exact) : ∀ s : Store, s.Reads (s.ofJson j) j := by
  induction hj with
  | null => exact fun s => reads_scalar ⟨.nil, json_of_refs rfl⟩
  | bool b => exact fun s => reads_scalar ⟨.bool b, json_of_refs rfl⟩
  | @int n lower upper =>
    intro s
    rw [ofJson, numberOf_of_fits lower upper]
    refine reads_scalar ⟨.int _, (json_of_refs rfl).trans ?_⟩
    exact congrArg Json.int (Int64.toInt_ofInt_of_le lower upper)
  | float hx => exact fun s => reads_scalar ⟨.float hx, json_float hx⟩
  | str t => exact fun s => reads_scalar ⟨.str t, json_of_refs rfl⟩
  | @arr items _ ih =>
    intro s
    obtain ⟨hgrows, hplain, hjson⟩ := ofItems_shows ih s
    refine ⟨hgrows.trans (extends_addList _ _), ?_⟩
    have hshows := shows_newList hplain
    rwa [hjson] at hshows
  | @obj fields distinct _ ih =>
    intro s
    obtain ⟨hgrows, made, hmade, hplain, hjson⟩ := ofFields_shows ih s
    -- The names stay as they are, so no entry replaces another one.
    have hnames : made.map (·.1) = fields.map (·.1) := by
      conv_rhs => rw [← hjson, List.map_map]
      rfl
    have hshows := shows_newMapOf (hnames ▸ distinct) hplain
    rw [← hmade, hjson] at hshows
    exact ⟨hgrows.trans (extends_newMap _ _), hshows⟩

end Store

/-! ## Values through their documents -/

mutual

/-- What the value of a document looks like. -/
def Json.tree : Json → Tree
  | .null | .unreadable => .nil
  | .bool b => .bool b
  | .int n => .int (Int64.ofInt n)
  | .float x => .float x
  | .str s => .str s
  | .arr items => .list .any (itemTrees items)
  | .obj fields => .map .any .any (fieldTrees fields)

def Json.itemTrees : List Json → List Tree
  | [] => []
  | j :: rest => j.tree :: itemTrees rest

def Json.fieldTrees : List (String × Json) → List (Tree × Tree)
  | [] => []
  | (k, j) :: rest => (.str k, j.tree) :: fieldTrees rest

end

theorem Json.itemTrees_eq_map (items : List Json) : itemTrees items = items.map tree := by
  induction items with
  | nil => rfl
  | cons j rest ih => rw [itemTrees, ih, List.map_cons]

theorem Json.fieldTrees_eq_map (fields : List (String × Json)) :
    fieldTrees fields = fields.map fun f => (.str f.1, f.2.tree) := by
  induction fields with
  | nil => rfl
  | cons f rest ih => rw [fieldTrees, ih, List.map_cons]

namespace Tree

mutual

/-- The tree without the declared types of containers. -/
def untyped : Tree → Tree
  | .pair k v => .pair k.untyped v.untyped
  | .list _ items => .list .any (untypedItems items)
  | .map _ _ entries => .map .any .any (untypedEntries entries)
  | .matrix cols rows _ lines => .matrix cols rows .any (untypedLines lines)
  | .graph vertices edges => .graph (untypedItems vertices) (untypedEdges edges)
  | t => t

def untypedItems : List Tree → List Tree
  | [] => []
  | t :: rest => t.untyped :: untypedItems rest

def untypedEntries : List (Tree × Tree) → List (Tree × Tree)
  | [] => []
  | (k, v) :: rest => (k.untyped, v.untyped) :: untypedEntries rest

def untypedLines : List (List Tree) → List (List Tree)
  | [] => []
  | line :: rest => untypedItems line :: untypedLines rest

def untypedEdges : List (Tree × Tree × Float) → List (Tree × Tree × Float)
  | [] => []
  | (a, b, w) :: rest => (a.untyped, b.untyped, w) :: untypedEdges rest

end

theorem untypedItems_eq_map (items : List Tree) : untypedItems items = items.map untyped := by
  induction items with
  | nil => rfl
  | cons t rest ih => rw [untypedItems, ih, List.map_cons]

theorem untypedEntries_eq_map (entries : List (Tree × Tree)) :
    untypedEntries entries = entries.map fun e => (e.1.untyped, e.2.untyped) := by
  induction entries with
  | nil => rfl
  | cons e rest ih => rw [untypedEntries, ih, List.map_cons]

end Tree

namespace Store

variable {s t : Store} {v : Value}

/-- The document of a plain value is exact. -/
theorem Plain.exact (h : s.Plain v) : (s.json v).Exact := by
  induction h with
  | nil => rw [json_of_refs rfl]; exact .null
  | bool b => rw [json_of_refs rfl]; exact .bool b
  | int n => rw [json_of_refs rfl]; exact .int n.le_toInt n.toInt_lt
  | float hx => rw [json_float hx]; exact .float hx
  | str a => rw [json_of_refs rfl]; exact .str a
  | list hi hplain ih =>
    rw [json_list (Plain.list hi hplain).ends]
    exact .arr (List.forall_mem_map.mpr ih)
  | map hi hentries hdistinct hplain ih =>
    rw [json_map (Plain.map hi hentries hdistinct hplain).ends hentries hdistinct]
    exact .obj (by rwa [List.map_map]) (List.forall_mem_map.mpr ih)

/-- The document of a plain value tells what the value looks like, but for declared types. -/
theorem Plain.tree_json (h : s.Plain v) : (s.json v).tree = (s.tree v).untyped := by
  induction h with
  | nil => rw [json_of_refs rfl, tree_of_refs rfl]; rfl
  | bool b => rw [json_of_refs rfl, tree_of_refs rfl]; rfl
  | int n =>
    rw [json_of_refs rfl, tree_of_refs rfl]
    exact congrArg Tree.int n.ofInt_toInt
  | float hx => rw [json_float hx, tree_of_refs rfl]; rfl
  | str a => rw [json_of_refs rfl, tree_of_refs rfl]; rfl
  | list hi hplain ih =>
    have hends := (Plain.list hi hplain).ends
    rw [json_list hends, tree_list hends, Json.tree, Tree.untyped, Json.itemTrees_eq_map,
      Tree.untypedItems_eq_map, List.map_map, List.map_map]
    exact congrArg _ (List.map_congr_left ih)
  | map hi hentries hdistinct hplain ih =>
    have hends := (Plain.map hi hentries hdistinct hplain).ends
    rw [json_map hends hentries hdistinct, tree_map hends, hentries, Json.tree, Tree.untyped,
      Json.fieldTrees_eq_map, Tree.untypedEntries_eq_map, textEntries, List.map_map, List.map_map,
      List.map_map]
    refine congrArg _ (List.map_congr_left fun f hf => Prod.ext ?_ (ih f hf))
    exact (congrArg Tree.untyped (tree_of_refs (v := .str f.1) rfl)).symm

/-- Exact documents are the documents of their values, with every field in its place. Plain values
look like the values of their documents, which are plain again, but for the declared types of
containers. -/
theorem documents_round_trip :
    (∀ (s : Store) (j : Json), j.Exact → (s.ofJson j).2.json (s.ofJson j).1 = j) ∧
      ∀ (s t : Store) (v : Value), s.Plain v →
        (t.ofJson (s.json v)).2.Plain (t.ofJson (s.json v)).1 ∧
          ((t.ofJson (s.json v)).2.tree (t.ofJson (s.json v)).1).untyped = (s.tree v).untyped := by
  refine ⟨fun s j hj => (reads_ofJson hj s).shows.json, fun s t v hv => ?_⟩
  obtain ⟨hplain, hjson⟩ := (reads_ofJson hv.exact t).shows
  refine ⟨hplain, ?_⟩
  rw [← hplain.tree_json, hjson, hv.tree_json]

/-- A note on a flock, with the least integer and a float that is a whole number. -/
def flockNote : Json :=
  .obj [("weights", .arr [.float 41.0, .int (-2 ^ 63), .null]),
    ("dog", .obj [("name", .str "Rex"), ("awake", .bool true)])]

/-- One list of integers, and a map that holds it twice. -/
def flocks : Store :=
  { empty with
    lists := ⟨#[⟨.int, #[.int 3, .int (-4)]⟩]⟩
    maps := ⟨#[⟨.string, .list, [(.str "hill", .list 0), (.str "barn", .list 0)]⟩]⟩ }

theorem documents_round_trip_flocks :
    (flockNote.Exact ∧
      (empty.ofJson flockNote).2.json (empty.ofJson flockNote).1 = flockNote) ∧
      flocks.Plain (.map 0) ∧
        ((empty.ofJson (flocks.json (.map 0))).2.tree
          (empty.ofJson (flocks.json (.map 0))).1).untyped = (flocks.tree (.map 0)).untyped := by
  have hweights : (Json.arr [.float 41.0, .int (-2 ^ 63), .null]).Exact := by
    refine .arr ?_
    simp only [List.forall_mem_cons]
    exact ⟨.float (by decide +kernel), .int (by decide) (by decide), .null, List.forall_mem_nil _⟩
  have hdog : (Json.obj [("name", .str "Rex"), ("awake", .bool true)]).Exact := by
    refine .obj (by decide) ?_
    simp only [List.forall_mem_cons]
    exact ⟨.str _, .bool _, List.forall_mem_nil _⟩
  have hnote : flockNote.Exact := by
    refine .obj (by decide) ?_
    simp only [List.forall_mem_cons]
    exact ⟨hweights, hdog, List.forall_mem_nil _⟩
  have hlist : flocks.Plain (.list 0) := by
    refine .list (by decide) (List.forall_mem_cons.mpr ⟨.int 3, ?_⟩)
    exact List.forall_mem_cons.mpr ⟨.int (-4), List.forall_mem_nil _⟩
  have hentries : (flocks.maps.get 0).entries =
      textEntries [("hill", .list 0), ("barn", .list 0)] := rfl
  have hmap : flocks.Plain (.map 0) := by
    refine .map (by decide) hentries (by decide) ?_
    simp only [List.forall_mem_cons]
    exact ⟨hlist, hlist, List.forall_mem_nil _⟩
  exact ⟨⟨hnote, documents_round_trip.1 empty flockNote hnote⟩, hmap,
    (documents_round_trip.2 flocks empty _ hmap).2⟩

end Store
end Habitat
