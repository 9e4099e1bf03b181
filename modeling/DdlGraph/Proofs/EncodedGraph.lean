import DdlGraph.Exchange
import DdlGraph.Proofs.ColumnMap
import DdlGraph.Proofs.SpelledJson

/-!
# Graphs that come back from their JSON text

What a graph is encoded as has a text, and is decoded as the graph (`Json.StandsFor`). Both are
shown together: first for the forms that fields have, required, with a default or absent, then for
each type from its fields. A record leaves out the fields without a value, and is read by the names
of all (`members?_fields`), so a field that is left out has to be one whose default is its value.

* `Column.standsFor`, `Table.standsFor`, `Edge.standsFor`: a type from its fields;
* `Graph.standsFor`: graphs whose coordinates are read back from their digits;
* `Exchange.decode_toJson`: both texts of a graph are decoded as the graph.
-/

namespace DdlGraph

namespace Json

variable {α : Type}

/-! ## Fields -/

/-- A record of fields, of which those without a value are left out. -/
def fields (fs : List (String × Option Json)) : Json :=
  record (fs.flatMap fun f => presentMember f.1 f.2)

theorem presentMember_some (key : String) (j : Json) : presentMember key (some j) = [(key, j)] :=
  rfl

theorem mem_presentMember {f : String × Option Json} {m : String × Json} :
    m ∈ presentMember f.1 f.2 ↔ f = (m.1, some m.2) := by
  obtain ⟨key, value⟩ := f
  cases value with
  | none => exact ⟨nofun, fun h => nomatch (Prod.mk.inj h).2⟩
  | some j =>
    rw [presentMember_some, List.mem_singleton]
    constructor
    · rintro rfl
      rfl
    · intro h
      obtain ⟨hkey, hvalue⟩ := Prod.mk.inj h
      exact Prod.ext hkey.symm (Option.some.inj hvalue).symm

section
variable {fs : List (String × Option Json)} (hn : (fs.map (·.1)).Nodup)
include hn

theorem nodup_presentMembers :
    ((fs.flatMap fun f => presentMember f.1 f.2).map (·.1)).Nodup := by
  refine hn.sublist ?_
  clear hn
  induction fs with
  | nil => exact .slnil
  | cons f fs ih =>
    obtain ⟨key, value⟩ := f
    cases value with
    | none => exact ih.cons _
    | some j => exact ih.cons_cons _

/-- A field is found by its name, with its value if it has one. -/
theorem find?_presentMembers {f : String × Option Json} (hf : f ∈ fs) :
    (((fs.flatMap fun f => presentMember f.1 f.2).find? fun m => m.1 == f.1).map (·.2)) = f.2 := by
  obtain ⟨key, value⟩ := f
  cases value with
  | none =>
    have hnone : ((fs.flatMap fun f => presentMember f.1 f.2).find? fun m => m.1 == key) = none := by
      refine List.find?_eq_none.2 fun m hm hkey => ?_
      obtain ⟨g, hg, hmg⟩ := List.mem_flatMap.1 hm
      obtain rfl := mem_presentMember.1 hmg
      have heq := List.inj_on_of_nodup_map hn hg hf (eq_of_beq hkey)
      exact nomatch (Prod.mk.inj heq).2
    exact congrArg (Option.map (·.2)) hnone
  | some j =>
    have hmem : (key, j) ∈ fs.flatMap fun f => presentMember f.1 f.2 :=
      List.mem_flatMap.2 ⟨_, hf, mem_presentMember.2 rfl⟩
    rw [find?_of_nodup (nodup_presentMembers hn) hmem (beq_self_eq_true key)
      fun m _ hm => eq_of_beq hm]
    rfl

/-- **The fields of a record** are found by their names. -/
theorem members?_fields : members? (fs.map (·.1)) (fields fs) = some (fs.map (·.2)) := by
  have hall : ((fs.flatMap fun f => presentMember f.1 f.2).map
      fun m => (some m.1, m.2)).all (·.1.isSome) = true := by
    rw [List.all_map]
    exact List.all_eq_true.2 fun _ _ => rfl
  have honce : noRepeats (fs.map (·.1)) ((fs.flatMap fun f => presentMember f.1 f.2).map
      fun m => (some m.1, m.2)) = true := by
    refine List.all_eq_true.2 fun name _ => decide_eq_true ?_
    have hcount := List.nodup_iff_count_le_one.1 (nodup_presentMembers hn) name
    rw [List.filter_map, List.length_map, ← List.countP_eq_length_filter]
    rw [List.count, List.countP_map] at hcount
    exact hcount
  unfold fields record members?
  dsimp only
  rw [hall, honce, Bool.and_self, if_pos rfl, List.map_map]
  refine congrArg some (List.map_congr_left fun f hf => ?_)
  rw [Function.comp_apply, List.find?_map, Option.map_map]
  exact find?_presentMembers hn hf

end

theorem valid_fields {fs : List (String × Option Json)} (h : ∀ f ∈ fs, ∀ j ∈ f.2, Valid j) :
    Valid (fields fs) := by
  refine .record fun m hm => ?_
  obtain ⟨f, hf, hmf⟩ := List.mem_flatMap.1 hm
  obtain rfl := mem_presentMember.1 hmf
  exact h _ hf _ rfl

/-! ## Values and what they stand for -/

/-- **A value stands for `a`**: it has a text, and is decoded as `a`. -/
structure StandsFor (decode : Json → Option α) (j : Json) (a : α) : Prop where
  valid : Valid j
  decodes : decode j = some a

/-- The same for the value of a field, which may be left out. -/
structure FieldStandsFor (decode : Option Json → Option α) (value : Option Json) (a : α) : Prop where
  valid : ∀ j ∈ value, Valid j
  decodes : decode value = some a

theorem standsFor_text (s : String) : StandsFor string? (text s) s :=
  ⟨.text s, rfl⟩

theorem standsFor_bool (b : Bool) : StandsFor bool? (.bool b) b :=
  ⟨.bool b, rfl⟩

theorem standsFor_ofList {decode : Json → Option α} {encode : α → Json} {as : List α}
    (h : ∀ a ∈ as, StandsFor decode (encode a) a) :
    StandsFor (list? decode) (.ofList encode as) as := by
  constructor
  · refine .array fun j hj => ?_
    obtain ⟨a, ha, rfl⟩ := List.mem_map.1 hj
    exact (h a ha).valid
  · change (as.map encode).mapM decode = some as
    induction as with
    | nil => rfl
    | cons a as ih =>
      obtain ⟨ha, has⟩ := List.forall_mem_cons.1 h
      rw [List.map_cons, List.mapM_cons, ha.decodes, ih has]
      rfl

section
variable {decode : Json → Option α} {j : Json} {a : α}

theorem StandsFor.required (h : StandsFor decode j a) :
    FieldStandsFor (required decode) (some j) a :=
  ⟨fun _ hj => Option.some.inj hj ▸ h.valid, h.decodes⟩

theorem StandsFor.withDefault (h : StandsFor decode j a) (default : α) :
    FieldStandsFor (withDefault default decode) (some j) a :=
  ⟨fun _ hj => Option.some.inj hj ▸ h.valid, h.decodes⟩

/-- A field that may be absent, whose value is never `null`. -/
theorem fieldStandsFor_optional {encode : α → Json} {o : Option α}
    (h : ∀ a ∈ o, StandsFor decode (encode a) a) (hnull : ∀ a, encode a ≠ .null) :
    FieldStandsFor (optional decode) (o.map encode) o := by
  cases o with
  | none => exact ⟨nofun, rfl⟩
  | some a =>
    obtain ⟨hvalid, hdecodes⟩ := h a rfl
    refine ⟨fun _ hj => Option.some.inj hj ▸ hvalid, ?_⟩
    have hsome : optional decode (some (encode a)) = (decode (encode a)).map some := by
      cases heq : encode a with
      | null => exact absurd heq (hnull a)
      | _ => rfl
    rw [Option.map_some, hsome, hdecodes]
    rfl

end

/-- **A record stands for `a`**, if its fields have texts and are decoded as `a`. -/
theorem standsFor_fields {decode : Json → Option α} {a : α} (names : List String)
    (fs : List (String × Option Json)) (hnames : names = fs.map (·.1)) (hn : names.Nodup)
    (hv : ∀ f ∈ fs, ∀ j ∈ f.2, Valid j)
    (hd : ∀ j : Json, j.members? names = some (fs.map (·.2)) → decode j = some a) :
    StandsFor decode (fields fs) a := by
  subst hnames
  exact ⟨valid_fields hv, hd _ (members?_fields hn)⟩

end Json

open Json

/-! ## Types -/

/-- The coordinates are read back from their digits. -/
def Position.Rereads (p : Position) : Prop :=
  double? p.x.toJson = some p.x ∧ double? p.y.toJson = some p.y

instance (p : Position) : Decidable p.Rereads :=
  inferInstanceAs (Decidable (_ ∧ _))

theorem Binary64.standsFor {x : Binary64} (h : double? x.toJson = some x) :
    StandsFor double? x.toJson x := by
  refine ⟨.number ?_, h⟩
  obtain ⟨d, hd, -⟩ := Option.bind_eq_some_iff.1 h
  rw [hd]
  rfl

theorem Position.standsFor {p : Position} (h : p.Rereads) : StandsFor ofJson? p.toJson p := by
  have hx := (Binary64.standsFor h.1).required
  have hy := (Binary64.standsFor h.2).required
  refine standsFor_fields ["x", "y"]
    [("x", some p.x.toJson), ("y", some p.y.toJson)] rfl (by decide) ?_ fun j hj => ?_
  · simp only [List.forall_mem_cons]
    exact ⟨hx.valid, hy.valid, nofun⟩
  · unfold ofJson?
    rw [hj]
    simp [hx.decodes, hy.decodes]

theorem TableColor.standsFor (c : TableColor) : StandsFor ofJson? c.toJson c := by
  refine standsFor_fields ["light", "dark", "border"]
    [("light", some (text c.light)), ("dark", some (text c.dark)),
      ("border", some (text c.border))] rfl (by decide) ?_ fun j hj => ?_
  · simp only [List.forall_mem_cons]
    exact ⟨(standsFor_text _).required.valid, (standsFor_text _).required.valid,
      (standsFor_text _).required.valid, nofun⟩
  · unfold ofJson?
    rw [hj]
    rfl

theorem ForeignKey.standsFor (k : ForeignKey) : StandsFor ofJson? k.toJson k := by
  have htext : ∀ s, FieldStandsFor (Json.required string?) (some (text s)) s :=
    fun s => (standsFor_text s).required
  have haction : ∀ o : Option String, FieldStandsFor (Json.optional string?) (o.map text) o :=
    fun o => fieldStandsFor_optional (fun s _ => standsFor_text s) nofun
  have hresolved := (standsFor_bool k.resolved).withDefault true
  have hfields : k.toJson = fields [("table", some (text k.table)),
      ("column", some (text k.column)), ("onDelete", k.onDelete.map text),
      ("onUpdate", k.onUpdate.map text), ("resolved", some (.bool k.resolved))] := by
    simp only [ForeignKey.toJson, fields, List.flatMap_cons, presentMember_some]
    simp
  rw [hfields]
  refine standsFor_fields ["table", "column", "onDelete", "onUpdate", "resolved"] _
    rfl (by decide) ?_ fun j hj => ?_
  · simp only [List.forall_mem_cons]
    exact ⟨(htext _).valid, (htext _).valid, (haction _).valid, (haction _).valid,
      hresolved.valid, nofun⟩
  · unfold ofJson?
    rw [hj]
    simp [(htext _).decodes, (haction _).decodes, hresolved.decodes]

theorem Constraint.standsFor (k : Constraint) : StandsFor ofJson? (text k.word) k :=
  ⟨.text _, by cases k <;> rfl⟩

theorem Column.standsFor (c : Column) : StandsFor ofJson? c.toJson c := by
  have htext : ∀ s, FieldStandsFor (Json.required string?) (some (text s)) s :=
    fun s => (standsFor_text s).required
  have hparams : FieldStandsFor (Json.withDefault [] (list? string?))
      (if c.params.isEmpty then none else some (.ofList text c.params)) c.params := by
    split
    · rename_i hempty
      rw [List.isEmpty_iff.1 hempty]
      exact ⟨nofun, rfl⟩
    · exact (standsFor_ofList fun s _ => standsFor_text s).withDefault []
  have hconstraints :=
    (standsFor_ofList fun k (_ : k ∈ c.constraints) => k.standsFor).withDefault []
  have hdefault : FieldStandsFor (Json.optional string?) (c.defaultValue.map text) c.defaultValue :=
    fieldStandsFor_optional (fun s _ => standsFor_text s) nofun
  have hkey : FieldStandsFor (Json.optional ForeignKey.ofJson?)
      (c.foreignKey.map ForeignKey.toJson) c.foreignKey :=
    fieldStandsFor_optional (fun k _ => k.standsFor) nofun
  have hincrement := (standsFor_bool c.autoIncrement).withDefault false
  have hfields : c.toJson = fields [("title", some (text c.title)),
      ("dataType", some (text c.dataType)),
      ("params", if c.params.isEmpty then none else some (.ofList text c.params)),
      ("constraints", some (.ofList (fun k => text k.word) c.constraints)),
      ("default", c.defaultValue.map text), ("foreignKey", c.foreignKey.map ForeignKey.toJson),
      ("autoIncrement", some (.bool c.autoIncrement))] := by
    simp only [Column.toJson, fields, List.flatMap_cons, presentMember_some]
    simp
  rw [hfields]
  generalize (if c.params.isEmpty then none else some (Json.ofList text c.params)) = params
    at hparams ⊢
  refine standsFor_fields ["title", "dataType", "params", "constraints", "default",
    "foreignKey", "autoIncrement"] _ rfl (by decide) ?_ fun j hj => ?_
  · simp only [List.forall_mem_cons]
    exact ⟨(htext _).valid, (htext _).valid, hparams.valid, hconstraints.valid, hdefault.valid,
      hkey.valid, hincrement.valid, nofun⟩
  · unfold ofJson?
    rw [hj]
    simp [(htext _).decodes, hparams.decodes, hconstraints.decodes, hdefault.decodes,
      hkey.decodes, hincrement.decodes]

theorem Table.standsFor {t : Table} (h : t.position.Rereads) : StandsFor ofJson? t.toJson t := by
  have htext : ∀ s, FieldStandsFor (Json.required string?) (some (text s)) s :=
    fun s => (standsFor_text s).required
  have hcolumns := (standsFor_ofList fun c (_ : c ∈ t.columns) => c.standsFor).required
  have hposition := (Position.standsFor h).withDefault .origin
  have hcolor : FieldStandsFor (Json.optional TableColor.ofJson?) (t.color.map TableColor.toJson)
      t.color :=
    fieldStandsFor_optional (fun c _ => c.standsFor) nofun
  have hfields : t.toJson = fields [("id", some (text t.id)), ("name", some (text t.name)),
      ("columns", some (.ofList Column.toJson t.columns)),
      ("position", some t.position.toJson), ("color", t.color.map TableColor.toJson)] := by
    simp only [Table.toJson, fields, List.flatMap_cons, presentMember_some]
    simp
  rw [hfields]
  refine standsFor_fields ["id", "name", "columns", "position", "color"] _
    rfl (by decide) ?_ fun j hj => ?_
  · simp only [List.forall_mem_cons]
    exact ⟨(htext _).valid, (htext _).valid, hcolumns.valid, hposition.valid, hcolor.valid, nofun⟩
  · unfold ofJson?
    rw [hj]
    simp [(htext _).decodes, hcolumns.decodes, hposition.decodes, hcolor.decodes]

theorem Enumeration.standsFor {e : Enumeration} (h : e.position.Rereads) :
    StandsFor ofJson? e.toJson e := by
  have htext : ∀ s, FieldStandsFor (Json.required string?) (some (text s)) s :=
    fun s => (standsFor_text s).required
  have hvalues := (standsFor_ofList fun s (_ : s ∈ e.values) => standsFor_text s).required
  have hposition := (Position.standsFor h).withDefault .origin
  refine standsFor_fields ["id", "name", "values", "position"]
    [("id", some (text e.id)), ("name", some (text e.name)),
      ("values", some (.ofList text e.values)), ("position", some e.position.toJson)]
    rfl (by decide) ?_ fun j hj => ?_
  · simp only [List.forall_mem_cons]
    exact ⟨(htext _).valid, (htext _).valid, hvalues.valid, hposition.valid, nofun⟩
  · unfold ofJson?
    rw [hj]
    simp [(htext _).decodes, hvalues.decodes, hposition.decodes]

theorem Cardinality.standsFor (c : Cardinality) : StandsFor ofJson? (text c.word) c :=
  ⟨.text _, by cases c <;> rfl⟩

theorem Stroke.standsFor (s : Stroke) : StandsFor (word? words) (text s.word) s :=
  ⟨.text _, by cases s <;> rfl⟩

theorem EdgeStyle.standsFor (s : EdgeStyle) : StandsFor ofJson? s.toJson s := by
  have hlabel : FieldStandsFor (Json.optional string?) (s.label.map text) s.label :=
    fieldStandsFor_optional (fun s _ => standsFor_text s) nofun
  have hstroke := s.stroke.standsFor.withDefault .solid
  have hanimated := (standsFor_bool s.animated).withDefault false
  have hfields : s.toJson = fields [("label", s.label.map text),
      ("stroke", some (text s.stroke.word)), ("animated", some (.bool s.animated))] := by
    simp only [EdgeStyle.toJson, fields, List.flatMap_cons, presentMember_some]
    simp
  rw [hfields]
  refine standsFor_fields ["label", "stroke", "animated"] _ rfl (by decide) ?_
    fun j hj => ?_
  · simp only [List.forall_mem_cons]
    exact ⟨hlabel.valid, hstroke.valid, hanimated.valid, nofun⟩
  · unfold ofJson?
    rw [hj]
    simp [hlabel.decodes, hstroke.decodes, hanimated.decodes]

theorem Edge.standsFor (e : Edge) : StandsFor ofJson? e.toJson e := by
  have htext : ∀ s, FieldStandsFor (Json.required string?) (some (text s)) s :=
    fun s => (standsFor_text s).required
  have hcardinality := e.cardinality.standsFor.required
  have hlink := (standsFor_bool e.enumLink).withDefault false
  have hstyle := e.style.standsFor.withDefault {}
  refine standsFor_fields ["id", "source", "sourceHandle", "target", "targetHandle",
      "cardinality", "enumLink", "style"]
    [("id", some (text e.id)), ("source", some (text e.source)),
      ("sourceHandle", some (text e.sourceHandle)), ("target", some (text e.target)),
      ("targetHandle", some (text e.targetHandle)),
      ("cardinality", some (text e.cardinality.word)), ("enumLink", some (.bool e.enumLink)),
      ("style", some e.style.toJson)] rfl (by decide) ?_ fun j hj => ?_
  · simp only [List.forall_mem_cons]
    exact ⟨(htext _).valid, (htext _).valid, (htext _).valid, (htext _).valid, (htext _).valid,
      hcardinality.valid, hlink.valid, hstyle.valid, nofun⟩
  · unfold ofJson?
    rw [hj]
    simp [(htext _).decodes, hcardinality.decodes, hlink.decodes, hstyle.decodes]

/-! ## Graphs -/

/-- All coordinates are read back from their digits. -/
def Graph.Rereads (g : Graph) : Prop :=
  (∀ t ∈ g.tables, t.position.Rereads) ∧ ∀ e ∈ g.enums, e.position.Rereads

instance (g : Graph) : Decidable g.Rereads :=
  inferInstanceAs (Decidable (_ ∧ _))

theorem Graph.standsFor {g : Graph} (h : g.Rereads) : StandsFor ofJson? g.toJson g := by
  have htables := (standsFor_ofList fun t ht => Table.standsFor (h.1 t ht)).required
  have henums := (standsFor_ofList fun e he => Enumeration.standsFor (h.2 e he)).withDefault []
  have hedges := (standsFor_ofList fun e (_ : e ∈ g.edges) => e.standsFor).withDefault []
  refine standsFor_fields ["tables", "enums", "relationships"]
    [("tables", some (.ofList Table.toJson g.tables)),
      ("enums", some (.ofList Enumeration.toJson g.enums)),
      ("relationships", some (.ofList Edge.toJson g.edges))] rfl (by decide) ?_ fun j hj => ?_
  · simp only [List.forall_mem_cons]
    exact ⟨htables.valid, henums.valid, hedges.valid, nofun⟩
  · unfold ofJson?
    rw [hj]
    simp [htables.decodes, henums.decodes, hedges.decodes]

/-- The graph of an outcome. -/
def Recovery.Outcome.graphOfJson? (j : Json) : Option Graph := do
  let [graph, _] ← j.members? ["graph", "warnings"] | none
  required Graph.ofJson? graph

theorem Recovery.Outcome.standsFor {o : Outcome} (h : o.graph.Rereads) :
    StandsFor graphOfJson? o.toJson o.graph := by
  have hgraph := (Graph.standsFor h).required
  have hwarnings := (standsFor_ofList fun s (_ : s ∈ o.warnings) => standsFor_text s).required
  refine standsFor_fields ["graph", "warnings"]
    [("graph", some o.graph.toJson), ("warnings", some (.ofList text o.warnings))]
    rfl (by decide) ?_ fun j hj => ?_
  · simp only [List.forall_mem_cons]
    exact ⟨hgraph.valid, hwarnings.valid, nofun⟩
  · unfold graphOfJson?
    rw [hj]
    exact hgraph.decodes

/-- What stands for `a` is decoded as `a` from both its texts. -/
theorem Exchange.decode_of_standsFor {α : Type} {decode : Json → Option α} {j : Json} {a : α}
    (h : StandsFor decode j a) :
    Exchange.decode decode j.compact = .ok a ∧ Exchange.decode decode j.pretty = .ok a := by
  unfold Exchange.decode
  rw [read?_compact h.valid, read?_pretty h.valid, Option.bind_some, h.decodes]
  exact ⟨rfl, rfl⟩

/-- **A graph comes back from its JSON text**, on one line or indented, if its coordinates are read
back from their digits: with all strings, lists and optional fields as they were. So does the graph
of an outcome, whatever its warnings. -/
theorem Exchange.decode_toJson {g : Graph} (h : g.Rereads) :
    decode Graph.ofJson? g.toJson.compact = .ok g ∧
      decode Graph.ofJson? g.toJson.pretty = .ok g ∧
        ∀ warnings, decode Recovery.Outcome.graphOfJson?
          (Recovery.Outcome.toJson ⟨g, warnings⟩).compact = .ok g := by
  obtain ⟨hcompact, hpretty⟩ := decode_of_standsFor (Graph.standsFor h)
  refine ⟨hcompact, hpretty, fun warnings => ?_⟩
  exact (decode_of_standsFor (Recovery.Outcome.standsFor (o := ⟨g, warnings⟩) h)).1

/-- Names with quotes, line breaks and controls, fields that are left out and fields that are not. -/
theorem Exchange.decode_toJson_orders :
    let g : Graph :=
      { tables :=
          [{ id := "table-1", name := "say \"orders\"", position := Layout.tableSlot 7
             color := some ⟨"#fff", "#000", "#888"⟩
             columns :=
              [{ title := "total\tsum", dataType := "DECIMAL", params := ["10", "2"]
                 constraints := [.notNull, .notNull], defaultValue := some "a\\b\n\x01" },
               { title := "user_id", dataType := "INT"
                 foreignKey := some ⟨"users", "id", none, some "CASCADE", false⟩ }] },
           { id := "table-1", name := "ünïcode 😀" }]
        enums := [{ id := "enum-1", name := "state", values := ["on", "on", ""] }]
        edges :=
          [{ id := "edge-1", source := "enum-1", sourceHandle := "state", target := "table-1"
             targetHandle := "state", cardinality := .oneToMany, enumLink := true
             style := { label := some "/", stroke := .dashed } }] }
    decode Graph.ofJson? g.toJson.compact = .ok g ∧
      decode Graph.ofJson? g.toJson.pretty = .ok g ∧
        ∀ warnings, decode Recovery.Outcome.graphOfJson?
          (Recovery.Outcome.toJson ⟨g, warnings⟩).compact = .ok g :=
  decode_toJson (by decide +kernel)

end DdlGraph
