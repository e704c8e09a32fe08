import Habitat.Description.Encode
import Habitat.Proofs.Expr.Codec

/-!
# Drafts survive their description

A draft in which a description can stand for every expression, and whose attributes are well-formed
documents, is read from what is written for it: expressions, statements, the facets of loops,
creations, calls and edits alone, species and models (`descriptions_round_trip`).

All facets are written, in the order in which they are read, so each reader meets exactly its own
record. A statement inside another one is read in a place of its own, and its keyword stands among
the facets; the induction over a draft therefore speaks of both places.
-/
namespace Habitat

open Json

/-! ## What a description can stand for -/

def writableArguments (args : Arguments) : Bool := args.all (·.2.writable)

def Formal.writable (f : Formal) : Bool := f.fallback.all Expr.writable

def EditFacets.writable (f : EditFacets) : Bool :=
  f.container.writable && f.item.all Expr.writable && f.index.all Expr.writable &&
    f.weight.all Expr.writable

def CallFacets.writable (f : CallFacets) : Bool :=
  writableArguments f.args && f.target.all Expr.writable

def LoopFacets.writable (f : LoopFacets) : Bool :=
  f.times.all Expr.writable && f.each.all Expr.writable && f.condition.all Expr.writable &&
    f.start.all Expr.writable && f.stop.all Expr.writable && f.step.all Expr.writable

def CreateFacets.writable (f : CreateFacets) : Bool :=
  f.species.all Expr.writable && f.number.all Expr.writable && f.source.all Expr.writable &&
    writableArguments f.init && f.parallel.all Expr.writable

namespace Draft

mutual

def writable : Draft → Bool
  | .declare _ value => value.all Expr.writable
  | .assign target _ value => target.all Expr.writable && value.writable
  | .branch condition yes no => condition.writable && writableAll yes && writableOption no
  | .block body => writableAll body
  | .loop f body => f.writable && writableAll body
  | .ask target parallel body =>
    target.writable && parallel.all Expr.writable && writableAll body
  | .create f body => f.writable && writableAll body
  | .capture target _ _ body => target.writable && writableAll body
  | .release target _ host _ body =>
    target.writable && host.all Expr.writable && writableAll body
  | .migrate _ _ _ body => writableAll body
  | .call f => f.writable
  | .invoke f => f.writable
  | .edit _ f => f.writable
  | .attempt body rescue => writableAll body && writableOption rescue
  | .yield value => value.all Expr.writable
  | .write message => message.writable
  | .warn message => message.writable
  | .raise message => message.writable
  | .leave | .skip | .die => true

def writableAll : List Draft → Bool
  | [] => true
  | d :: rest => d.writable && writableAll rest

def writableOption : Option (List Draft) → Bool
  | none => true
  | some body => writableAll body

end
end Draft

def ActionDraft.writable (a : ActionDraft) : Bool :=
  a.formals.all Formal.writable && Draft.writableAll a.body

def SpeciesDraft.writable (s : SpeciesDraft) : Bool :=
  (Json.obj s.attributes).wellFormed && s.actions.all ActionDraft.writable &&
    Draft.writableAll s.reflex

def ModelDraft.writable (m : ModelDraft) : Bool :=
  m.root.writable && m.species.all SpeciesDraft.writable && Draft.writableAll m.init

/-! ## Facets -/

@[simp] theorem ItemRole.choice?_tag (place : Place) (r : ItemRole) :
    choice? place ItemRole.table (.str r.tag) = some r :=
  Json.choice?_tag (by decide) (by cases r <;> decide) place

@[simp] theorem Draft.optional_textOption (o : Option String) :
    optional str? (some (Draft.textOption o)) = some o := optional_text o

theorem Draft.optional_exprOption (place : Place) {o : Option Expr}
    (h : o.all Expr.writable = true) :
    optional (Expr.ofJson? place) (some (Draft.exprOption o)) = some o :=
  Expr.optional_toJson place h

theorem argumentsOfJson?_toJson (place : Place) {args : Arguments}
    (h : writableArguments args = true) :
    argumentsOfJson? place (argumentsToJson args) = some args := by
  rw [writableArguments, List.all_eq_true] at h
  refine each?_map fun a ha => ?_
  rw [pair?, str?_str, Expr.ofJson?_toJson place (h a ha)]

theorem Formal.ofJson?_toJson (place : Place) {f : Formal} (h : f.writable = true) :
    Formal.ofJson? place f.toJson = some f := by
  simp [Formal.ofJson?, Formal.toJson, Expr.optional_toJson place h]

theorem EditFacets.ofJson?_obj (place : Place) {f : EditFacets} (h : f.writable = true) :
    EditFacets.ofJson? place (.obj (Draft.editFacets f)) = some f := by
  simp only [EditFacets.writable, Bool.and_eq_true] at h
  obtain ⟨⟨⟨hcontainer, hitem⟩, hindex⟩, hweight⟩ := h
  simp [EditFacets.ofJson?, Draft.editFacets, Expr.ofJson?_toJson place hcontainer,
    Draft.optional_exprOption place hitem, Draft.optional_exprOption place hindex,
    Draft.optional_exprOption place hweight]

theorem CallFacets.ofJson?_obj (place : Place) {f : CallFacets} (h : f.writable = true) :
    CallFacets.ofJson? place (.obj (Draft.callFacets f)) = some f := by
  simp only [CallFacets.writable, Bool.and_eq_true] at h
  simp [CallFacets.ofJson?, Draft.callFacets, argumentsOfJson?_toJson place h.1,
    Draft.optional_exprOption place h.2]

/-- A loop is read, if its body is. -/
theorem LoopFacets.ofJson?_obj (place : Place) {f : LoopFacets} (h : f.writable = true)
    {body? : Json → Option (List Draft)} {written : List Json} {body : List Draft}
    (hbody : body? (.arr written) = some body) :
    LoopFacets.ofJson? place body? (.obj (Draft.loopFacets f written)) = some (f, body) := by
  simp only [LoopFacets.writable, Bool.and_eq_true] at h
  obtain ⟨⟨⟨⟨⟨htimes, heach⟩, hcondition⟩, hstart⟩, hstop⟩, hstep⟩ := h
  simp [LoopFacets.ofJson?, Draft.loopFacets, hbody, Draft.optional_exprOption place htimes,
    Draft.optional_exprOption place heach, Draft.optional_exprOption place hcondition,
    Draft.optional_exprOption place hstart, Draft.optional_exprOption place hstop,
    Draft.optional_exprOption place hstep]

/-- A creation is read, if its body is. -/
theorem CreateFacets.ofJson?_obj (place : Place) {f : CreateFacets} (h : f.writable = true)
    {body? : Json → Option (List Draft)} {written : List Json} {body : List Draft}
    (hbody : body? (.arr written) = some body) :
    CreateFacets.ofJson? place body? (.obj (Draft.createFacets f written)) = some (f, body) := by
  simp only [CreateFacets.writable, Bool.and_eq_true] at h
  obtain ⟨⟨⟨⟨hspecies, hnumber⟩, hsource⟩, hinit⟩, hparallel⟩ := h
  simp [CreateFacets.ofJson?, Draft.createFacets, hbody, argumentsOfJson?_toJson place hinit,
    Draft.optional_exprOption place hspecies, Draft.optional_exprOption place hnumber,
    Draft.optional_exprOption place hsource, Draft.optional_exprOption place hparallel]

/-! ## Statements -/

namespace Draft

@[simp] theorem readable_exprOption (o : Option Expr) : (exprOption o).readable = true := by
  cases o with
  | none => simp [exprOption, ofOption, readable]
  | some e => exact e.readable_toJson

@[simp] theorem readable_textOption (o : Option String) : (textOption o).readable = true := by
  cases o <;> simp [textOption, ofOption, readable]

@[simp] theorem readable_arguments (args : Arguments) : (argumentsToJson args).readable = true := by
  rw [argumentsToJson, readable]
  induction args with
  | nil => rfl
  | cons a rest ih =>
    simp only [List.map_cons, readableItems, readable, Expr.readable_toJson, ih, Bool.and_true]

mutual

@[simp] theorem readable_toJson : ∀ d : Draft, d.toJson.readable = true
  | .declare .. | .assign .. | .leave | .skip | .yield _ | .die | .write _ | .warn _
  | .raise _ => by simp [toJson, kind, readable, readableFields]
  | .branch _ yes no => by
    simp [toJson, kind, readable, readableFields, readable_toJsons yes, readable_toJsonOption no]
  | .block body | .ask _ _ body | .capture _ _ _ body | .release _ _ _ _ body
  | .migrate _ _ _ body => by simp [toJson, kind, readable, readableFields, readable_toJsons body]
  | .loop f body => by
    simp [toJson, kind, readable, readableFields, loopFacets, readable_toJsons body]
  | .create f body => by
    simp [toJson, kind, readable, readableFields, createFacets, readable_toJsons body]
  | .call f | .invoke f => by simp [toJson, kind, readable, readableFields, callFacets]
  | .edit _ f => by simp [toJson, kind, readable, readableFields, editFacets]
  | .attempt body rescue => by
    simp [toJson, kind, readable, readableFields, readable_toJsons body,
      readable_toJsonOption rescue]

@[simp] theorem readable_toJsons : ∀ ds : List Draft, readableItems (toJsons ds) = true
  | [] => rfl
  | d :: rest => by simp [toJsons, readableItems, readable_toJson d, readable_toJsons rest]

@[simp] theorem readable_toJsonOption : ∀ o : Option (List Draft), (toJsonOption o).readable = true
  | none => by simp [toJsonOption, readable]
  | some body => by simp [toJsonOption, readable, readable_toJsons body]

end

/-- The keyword of a written statement, and its facets alone. -/
theorem split?_kind {place : Place} {keyword : String} {facets : List (String × Json)}
    (hn : "kind" ∉ facets.map (·.1)) (hr : (kind keyword facets).readable = true) :
    split? place (kind keyword facets) = some (keyword, .obj facets) := by
  have hother : ∀ f ∈ facets, (f.1 != "kind") = true := by
    intro f hf
    have hne : f.1 ≠ "kind" := fun heq => hn (List.mem_map.mpr ⟨f, hf, heq⟩)
    simpa using hne
  have hnone : facets.filter (fun f => f.1 == "kind") = [] := by
    rw [List.filter_eq_nil_iff]
    intro f hf
    simpa using hother f hf
  have hrest : (("kind", Json.str keyword) :: facets).filter (fun f => f.1 != "kind") = facets := by
    rw [List.filter_cons_of_neg (by simp), List.filter_eq_self]
    exact hother
  have hreadable : readableFields facets = true := by
    simpa [kind, readable, readableFields] using hr
  rw [kind, split?, repeated, List.filter_cons_of_pos (by simp), hnone]
  simp only [List.length_singleton, Nat.lt_irrefl, decide_false, Bool.false_eq_true, if_false,
    List.lookup_cons_self, hrest, hreadable, if_true]
  rfl

/-- A statement is read by its keyword from its facets. -/
theorem ofJsonAt?_kind {n : Nat} {place : Place} {keyword : String} {facets : List (String × Json)}
    (hn : "kind" ∉ facets.map (·.1)) (hr : (kind keyword facets).readable = true) :
    ofJsonAt? (n + 1) place (kind keyword facets) =
      ofFacets? (list? (ofJsonAt? n .nested)) keyword (.obj facets) := by
  rw [ofJsonAt?, split?_kind hn hr]

/-- The facets of a statement are less deep than the statement. -/
theorem depth_kind {keyword : String} {facets : List (String × Json)} {n : Nat}
    (h : (kind keyword facets).depth ≤ n) : ∃ m, n = m + 1 ∧ depthFields facets ≤ m := by
  simp only [kind, depth, depthFields] at h
  exact ⟨n - 1, by omega, by omega⟩

mutual

theorem ofJsonAt?_toJson : ∀ {d : Draft} {n : Nat} {place : Place}, d.writable = true →
    d.toJson.depth ≤ n → ofJsonAt? (n + 1) place d.toJson = some d
  | .leave, _, _, _, _ | .skip, _, _, _, _ | .die, _, _, _, _ => by
    rw [toJson, ofJsonAt?_kind (by simp) (by simp [kind, readable, readableFields])]
    delta ofFacets?
    simp [bare?]
  | .declare name value, _, _, h, _ => by
    rw [toJson, ofJsonAt?_kind (by simp) (by simp [kind, readable, readableFields])]
    delta ofFacets?
    simp [optional_exprOption .nested h]
  | .yield value, _, _, h, _ => by
    rw [toJson, ofJsonAt?_kind (by simp) (by simp [kind, readable, readableFields])]
    delta ofFacets?
    simp [optional_exprOption .nested h]
  | .assign target name value, _, _, h, _ => by
    rw [writable, Bool.and_eq_true] at h
    rw [toJson, ofJsonAt?_kind (by simp) (by simp [kind, readable, readableFields])]
    delta ofFacets?
    simp [optional_exprOption .nested h.1, Expr.ofJson?_toJson .nested h.2]
  | .write message, _, _, h, _ | .warn message, _, _, h, _ | .raise message, _, _, h, _ => by
    rw [writable] at h
    rw [toJson, ofJsonAt?_kind (by simp) (by simp [kind, readable, readableFields])]
    delta ofFacets?
    simp [Expr.ofJson?_toJson .nested h]
  | .call f, _, _, h, _ | .invoke f, _, _, h, _ => by
    rw [writable] at h
    rw [toJson, ofJsonAt?_kind (by simp [callFacets])
      (by simp [kind, callFacets, readable, readableFields])]
    delta ofFacets?
    simp [CallFacets.ofJson?_obj .nested h]
  | .edit k f, _, _, h, _ => by
    rw [writable] at h
    rw [toJson, ofJsonAt?_kind (by simp [editFacets])
      (by simp [kind, editFacets, readable, readableFields])]
    delta ofFacets?
    cases k <;> simp [EditKind.keyword, EditFacets.ofJson?_obj .nested h]
  | .branch condition yes no, _, _, h, hn => by
    rw [writable, Bool.and_eq_true, Bool.and_eq_true] at h
    rw [toJson] at hn
    obtain ⟨n, rfl, hfacets⟩ := depth_kind hn
    simp only [depthFields, depth] at hfacets
    rw [toJson, ofJsonAt?_kind (by simp) (by simp [kind, readable, readableFields])]
    delta ofFacets?
    simp [Expr.ofJson?_toJson .nested h.1.1, list?_toJsons h.1.2 (n := n) (by omega),
      optional_list?_toJsonOption h.2 (n := n) (by omega)]
  | .block body, _, _, h, hn => by
    rw [writable] at h
    rw [toJson] at hn
    obtain ⟨n, rfl, hfacets⟩ := depth_kind hn
    simp only [depthFields, depth] at hfacets
    rw [toJson, ofJsonAt?_kind (by simp) (by simp [kind, readable, readableFields])]
    delta ofFacets?
    simp [list?_toJsons (n := n) h (by omega)]
  | .loop f body, _, _, h, hn => by
    rw [writable, Bool.and_eq_true] at h
    rw [toJson] at hn
    obtain ⟨n, rfl, hfacets⟩ := depth_kind hn
    have hdepth : depthItems (toJsons body) < depthFields (loopFacets f (toJsons body)) :=
      depthItems_lt "body" (by simp [loopFacets])
    have hbody := list?_toJsons h.2 (n := n) (by omega)
    rw [toJson, ofJsonAt?_kind (by simp [loopFacets])
      (by simp [kind, loopFacets, readable, readableFields])]
    delta ofFacets?
    simp [LoopFacets.ofJson?_obj .nested h.1 hbody]
  | .ask target parallel body, _, _, h, hn => by
    rw [writable, Bool.and_eq_true, Bool.and_eq_true] at h
    rw [toJson] at hn
    obtain ⟨n, rfl, hfacets⟩ := depth_kind hn
    simp only [depthFields, depth] at hfacets
    rw [toJson, ofJsonAt?_kind (by simp) (by simp [kind, readable, readableFields])]
    delta ofFacets?
    simp [Expr.ofJson?_toJson .nested h.1.1, optional_exprOption .nested h.1.2,
      list?_toJsons h.2 (n := n) (by omega)]
  | .create f body, _, _, h, hn => by
    rw [writable, Bool.and_eq_true] at h
    rw [toJson] at hn
    obtain ⟨n, rfl, hfacets⟩ := depth_kind hn
    have hdepth : depthItems (toJsons body) < depthFields (createFacets f (toJsons body)) :=
      depthItems_lt "body" (by simp [createFacets])
    have hbody := list?_toJsons h.2 (n := n) (by omega)
    rw [toJson, ofJsonAt?_kind (by simp [createFacets])
      (by simp [kind, createFacets, readable, readableFields])]
    delta ofFacets?
    simp [CreateFacets.ofJson?_obj .nested h.1 hbody]
  | .capture target species returns body, _, _, h, hn => by
    rw [writable, Bool.and_eq_true] at h
    rw [toJson] at hn
    obtain ⟨n, rfl, hfacets⟩ := depth_kind hn
    simp only [depthFields, depth] at hfacets
    rw [toJson, ofJsonAt?_kind (by simp) (by simp [kind, readable, readableFields])]
    delta ofFacets?
    simp [Expr.ofJson?_toJson .nested h.1, list?_toJsons h.2 (n := n) (by omega)]
  | .release target species host returns body, _, _, h, hn => by
    rw [writable, Bool.and_eq_true, Bool.and_eq_true] at h
    rw [toJson] at hn
    obtain ⟨n, rfl, hfacets⟩ := depth_kind hn
    simp only [depthFields, depth] at hfacets
    rw [toJson, ofJsonAt?_kind (by simp) (by simp [kind, readable, readableFields])]
    delta ofFacets?
    simp [Expr.ofJson?_toJson .nested h.1.1, optional_exprOption .nested h.1.2,
      list?_toJsons h.2 (n := n) (by omega)]
  | .migrate source target returns body, _, _, h, hn => by
    rw [writable] at h
    rw [toJson] at hn
    obtain ⟨n, rfl, hfacets⟩ := depth_kind hn
    simp only [depthFields, depth] at hfacets
    rw [toJson, ofJsonAt?_kind (by simp) (by simp [kind, readable, readableFields])]
    delta ofFacets?
    simp [list?_toJsons (n := n) h (by omega)]
  | .attempt body rescue, _, _, h, hn => by
    rw [writable, Bool.and_eq_true] at h
    rw [toJson] at hn
    obtain ⟨n, rfl, hfacets⟩ := depth_kind hn
    simp only [depthFields, depth] at hfacets
    rw [toJson, ofJsonAt?_kind (by simp) (by simp [kind, readable, readableFields])]
    delta ofFacets?
    simp [list?_toJsons h.1 (n := n) (by omega),
      optional_list?_toJsonOption h.2 (n := n) (by omega)]

theorem list?_toJsons : ∀ {ds : List Draft} {n : Nat}, writableAll ds = true →
    depthItems (toJsons ds) ≤ n → list? (ofJsonAt? (n + 1) .nested) (.arr (toJsons ds)) = some ds
  | [], _, _, _ => rfl
  | d :: rest, n, h, hn => by
    rw [writableAll, Bool.and_eq_true] at h
    simp only [toJsons, depthItems] at hn
    have hd : ofJsonAt? (n + 1) .nested d.toJson = some d := ofJsonAt?_toJson h.1 (by omega)
    have hrest := list?_toJsons h.2 (n := n) (by omega)
    rw [list?] at hrest
    rw [toJsons, list?, each?, hd, hrest]

theorem optional_list?_toJsonOption : ∀ {o : Option (List Draft)} {n : Nat},
    writableOption o = true → (toJsonOption o).depth ≤ n + 1 →
    optional (list? (ofJsonAt? (n + 1) .nested)) (some (toJsonOption o)) = some o
  | none, _, _, _ => rfl
  | some body, n, h, hn => by
    rw [writableOption] at h
    simp only [toJsonOption, depth] at hn
    have hbody := list?_toJsons (n := n) h (by omega)
    rw [toJsonOption, Json.optional, hbody]
    · rfl
    · simp

end

/-- A statement that a description can stand for is read from what is written for it. -/
theorem ofJson?_toJson {d : Draft} (h : d.writable = true) : ofJson? d.toJson = some d :=
  ofJsonAt?_toJson h (Nat.le_refl _)

theorem sequenceOfJson?_toJsons {ds : List Draft} (h : writableAll ds = true) :
    sequenceOfJson? (.arr (toJsons ds)) = some ds := by
  rw [sequenceOfJson?, list?]
  induction ds with
  | nil => rfl
  | cons d rest ih =>
    rw [writableAll, Bool.and_eq_true] at h
    rw [toJsons, each?, ofJson?_toJson h.1, ih h.2]

end Draft

/-! ## Species and models -/

theorem ActionDraft.ofJson?_toJson {a : ActionDraft} (h : a.writable = true) :
    ActionDraft.ofJson? a.toJson = some a := by
  simp only [ActionDraft.writable, Bool.and_eq_true, List.all_eq_true] at h
  have hformals : each? (Formal.ofJson? .outer) (a.formals.map Formal.toJson) = some a.formals :=
    each?_map fun f hf => Formal.ofJson?_toJson .outer (h.1 f hf)
  simp [ActionDraft.ofJson?, ActionDraft.toJson, list?, hformals,
    Draft.sequenceOfJson?_toJsons h.2]

theorem SpeciesDraft.ofJson?_toJson {s : SpeciesDraft} (h : s.writable = true) :
    SpeciesDraft.ofJson? s.toJson = some s := by
  simp only [SpeciesDraft.writable, Bool.and_eq_true, List.all_eq_true] at h
  obtain ⟨⟨hattributes, hactions⟩, hreflex⟩ := h
  have hmicro : each? str? (s.micro.map .str) = some s.micro := each?_map fun name _ => rfl
  have hactions : each? ActionDraft.ofJson? (s.actions.map ActionDraft.toJson) = some s.actions :=
    each?_map fun a ha => ActionDraft.ofJson?_toJson (hactions a ha)
  simp [SpeciesDraft.ofJson?, SpeciesDraft.toJson, list?, hmicro, object?_eq_some hattributes,
    hactions, Draft.sequenceOfJson?_toJsons hreflex]

theorem ModelDraft.ofJson?_toJson {m : ModelDraft} (h : m.writable = true) :
    ModelDraft.ofJson? m.toJson = some m := by
  simp only [ModelDraft.writable, Bool.and_eq_true, List.all_eq_true] at h
  obtain ⟨⟨hroot, hspecies⟩, hinit⟩ := h
  have hspecies : each? SpeciesDraft.ofJson? (m.species.map SpeciesDraft.toJson) = some m.species :=
    each?_map fun s hs => SpeciesDraft.ofJson?_toJson (hspecies s hs)
  simp [ModelDraft.ofJson?, ModelDraft.toJson, list?, SpeciesDraft.ofJson?_toJson hroot, hspecies,
    Draft.sequenceOfJson?_toJsons hinit]

/-- Every description is read from what is written for it: expressions in either place,
statements, the facets of loops and creations with their bodies, those of calls and edits, species
and models. -/
theorem descriptions_round_trip :
    (∀ (place : Place) (e : Expr), e.writable = true →
      Expr.ofJson? place e.toJson = some e) ∧
    (∀ d : Draft, d.writable = true → Draft.ofJson? d.toJson = some d) ∧
    (∀ (place : Place) (f : LoopFacets) (body : List Draft), f.writable = true →
      Draft.writableAll body = true →
      LoopFacets.ofJson? place Draft.sequenceOfJson?
        (.obj (Draft.loopFacets f (Draft.toJsons body))) = some (f, body)) ∧
    (∀ (place : Place) (f : CreateFacets) (body : List Draft), f.writable = true →
      Draft.writableAll body = true →
      CreateFacets.ofJson? place Draft.sequenceOfJson?
        (.obj (Draft.createFacets f (Draft.toJsons body))) = some (f, body)) ∧
    (∀ (place : Place) (f : CallFacets), f.writable = true →
      CallFacets.ofJson? place (.obj (Draft.callFacets f)) = some f) ∧
    (∀ (place : Place) (f : EditFacets), f.writable = true →
      EditFacets.ofJson? place (.obj (Draft.editFacets f)) = some f) ∧
    (∀ s : SpeciesDraft, s.writable = true → SpeciesDraft.ofJson? s.toJson = some s) ∧
    (∀ m : ModelDraft, m.writable = true → ModelDraft.ofJson? m.toJson = some m) := by
  refine ⟨fun place _ h => Expr.ofJson?_toJson place h, fun _ h => Draft.ofJson?_toJson h,
    fun place _ _ h hbody => ?_, fun place _ _ h hbody => ?_,
    fun place _ h => CallFacets.ofJson?_obj place h,
    fun place _ h => EditFacets.ofJson?_obj place h,
    fun _ h => SpeciesDraft.ofJson?_toJson h, fun _ h => ModelDraft.ofJson?_toJson h⟩
  · exact LoopFacets.ofJson?_obj place h (Draft.sequenceOfJson?_toJsons hbody)
  · exact CreateFacets.ofJson?_obj place h (Draft.sequenceOfJson?_toJsons hbody)

/-- A model with a loop without a variable inside a branch, an edit that gives `nil` as an item, and
attributes of the root. -/
def meadowDraft : ModelDraft where
  name := "meadow"
  root := ⟨"world", none, ["sheep"], false, [("tick", .int 0), ("seen", .arr [.null])], [], []⟩
  species := [⟨"sheep", some "animal", [], false, [], [⟨"graze", [⟨"n", .of .int, some (.int 1)⟩],
    [.branch (.binary .lt (.var "n" (.of .int)) (.unary .neg (.int 3)))
      [.loop ⟨none, some (.var "n" .any), none, none, none, none, none⟩
        [.edit .add ⟨.attr .selfAgent "seen", some .nil, none, true, .node, none⟩]]
      (some [.die])]⟩], []⟩]
  init := [.create ⟨some (.species "sheep"), none, none, [("at", .point (.int 0) (.int 1))], none,
    some "born"⟩ [.call ⟨"graze", [("n", .list [.nil] .int)], none, none⟩]]

theorem descriptions_round_trip_meadow : meadowDraft.writable = true ∧
    ModelDraft.ofJson? meadowDraft.toJson = some meadowDraft := by
  have hwritable : meadowDraft.writable = true := by decide
  exact ⟨hwritable, descriptions_round_trip.2.2.2.2.2.2.2 meadowDraft hwritable⟩

end Habitat
