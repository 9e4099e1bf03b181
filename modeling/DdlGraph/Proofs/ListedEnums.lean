import DdlGraph.Proofs.RoundTrip

/-!
# Enumerations that a text does not declare

In a dialect that does not declare enumerations, a column lists the values of its own. The phase of
tables then makes the enumerations: each column with listed values gets one with just these values,
which stays, whatever columns follow.

* `chooseType_listed`: the type that is chosen for listed values;
* `foldl_addColumn_listed`, `addTable_listed`, `foldl_addTable_listed`: columns and tables come back
  one after the other, with types chosen on the way (`TablesStep`).
-/

namespace DdlGraph

open Sql Ddl

namespace Recovery.Draft

/-! ## Enumerations for listed values -/

/-- **Usable enumerations**: they are well-formed, and each has a name that a type can hold. -/
structure Usable (enums : List Enumeration) : Prop where
  ok : EnumsOk enums
  named : ∀ e ∈ enums, e.name ≠ ""

/-- The type is that of an enumeration with these values. -/
def TypedBy (enums : List Enumeration) (values : List String) (dataType : String) : Prop :=
  ∃ e ∈ enums, dataType = e.columnType ∧ e.values = values

theorem Usable.enumByName? {enums : List Enumeration} (h : Usable enums) {e : Enumeration}
    (he : e ∈ enums) : enumByName? enums e.name = some e :=
  find?_of_nodup h.ok.names he (sameAscii_iff.2 rfl) fun _ _ hs => sameAscii_iff.1 hs

theorem mem_of_foldl_lesserName {enums : List Enumeration} {best : Option Enumeration}
    {e : Enumeration} (h : enums.foldl Prior.lesserName best = some e) :
    best = some e ∨ e ∈ enums := by
  induction enums generalizing best with
  | nil => exact .inl h
  | cons x enums ih =>
    rcases ih h with hx | hm
    · unfold Prior.lesserName at hx
      split at hx
      · split at hx
        · exact .inr (Option.some.inj hx ▸ .head _)
        · exact .inl hx
      · exact .inr (Option.some.inj hx ▸ .head _)
    · exact .inr (.tail _ hm)

theorem columnEnumName_ne_empty (d : Draft) (table column : String) :
    d.columnEnumName table column ≠ "" := by
  have hbase : table ++ "_" ++ column ≠ "" := by
    simp
  unfold columnEnumName freeName
  split
  · intro h
    simp at h
  · exact hbase

theorem inlineEnum_name_ne {prior : Prior} {values : List String}
    (hp : ∀ e, prior.enumWithValues? values = some e → e.name ≠ "") {d : Draft}
    (hd : ∀ e ∈ d.enums, e.name ≠ "") (table column : String) :
    (d.inlineEnum prior table column values).1.name ≠ "" := by
  have hadd : ∀ name, (d.addEnum prior name values).1.name = name :=
    fun _ => foldl_pushValue_name _ _
  unfold inlineEnum
  split
  · rename_i e he
    exact hd e (List.mem_of_find?_eq_some he)
  · split
    · rename_i e he
      rw [hadd]
      exact hp e (Option.filter_eq_some_iff.1 he).1
    · rw [hadd]
      exact columnEnumName_ne_empty d table column

/-- **The enumeration for listed values** has just these, and stands among usable ones. -/
theorem inlineEnum_listed {g : Graph} (hg : g.Canonical) {d : Draft} (hd : Usable d.enums)
    (table column : String) {values : List String} (hv : values.Nodup) :
    (d.inlineEnum (Prior.ofGraph g) table column values).1 ∈
        (d.inlineEnum (Prior.ofGraph g) table column values).2.enums ∧
      (d.inlineEnum (Prior.ofGraph g) table column values).1.values = values ∧
        Usable (d.inlineEnum (Prior.ofGraph g) table column values).2.enums := by
  have hstep := inlineEnum_step (Prior.ofGraph g) d table column values
  have hprior : ∀ e, (Prior.ofGraph g).enumWithValues? values = some e → e.name ≠ "" := by
    intro e he
    rw [Prior.enumWithValues?_ofGraph hg.enumNames] at he
    rcases mem_of_foldl_lesserName he with hnone | hm
    · cases hnone
    · exact hg.enumNamed e (List.mem_filter.1 hm).1
  have hname := inlineEnum_name_ne hprior hd.named table column
  rcases inlineEnum_cases (Prior.ofGraph g) d table column values with
    ⟨e, hfind, he⟩ | ⟨-, name, -, he⟩
  · have hsame : e.values = values := by
      simpa using List.find?_some hfind
    rw [he]
    exact ⟨List.mem_of_find?_eq_some hfind, hsame, hd⟩
  · rw [he] at hstep hname ⊢
    refine ⟨List.mem_append_right _ (.head _), addEnum_values hv, hstep.ok hd.ok, fun e hm => ?_⟩
    rcases List.mem_append.1 hm with hm | hm
    · exact hd.named e hm
    · exact List.mem_singleton.1 hm ▸ hname

/-! ## Types of columns -/

/-- **Listed column**: what its type is read as lists the values of its enumeration, and no type
that it names is serial. -/
structure ListsValues (g : Graph) (c : Column) (x : ColumnDef) : Prop where
  listed : ∀ e ∈ g.enums, c.dataType = e.columnType → x.inlineValues = some e.values
  values : ∀ values ∈ x.inlineValues, values.Nodup
  plain : (BaseType.normalize x.typeName).serial = false

/-- The type that is chosen for a column. -/
structure ChosenFor (g : Graph) (enums : List Enumeration) (c : Column) (choice : TypeChoice) :
    Prop where
  typed : ∀ e ∈ g.enums, c.dataType = e.columnType → TypedBy enums e.values choice.dataType
  serial : choice.serial = false

theorem ChosenFor.mono {g : Graph} {enums enums' : List Enumeration} {c : Column}
    {choice : TypeChoice} (h : ChosenFor g enums c choice) (hs : enums ⊆ enums') :
    ChosenFor g enums' c choice where
  typed e he hc := by
    obtain ⟨e', he', htype, hvalues⟩ := h.typed e he hc
    exact ⟨e', hs he', htype, hvalues⟩
  serial := h.serial

/-- **The type of a listed column** is that of an enumeration with its values. -/
theorem chooseType_listed {g : Graph} (hg : g.Canonical) {c : Column} {x : ColumnDef}
    (hx : ListsValues g c x) {d : Draft} (hd : Usable d.enums) (table : String) :
    ChosenFor g (d.chooseType (Prior.ofGraph g) table x).2.enums c
        (d.chooseType (Prior.ofGraph g) table x).1 ∧
      Usable (d.chooseType (Prior.ofGraph g) table x).2.enums := by
  unfold chooseType
  cases hvalues : x.inlineValues with
  | some values =>
    obtain ⟨hm, hsame, husable⟩ := inlineEnum_listed hg hd table x.name (hx.values values hvalues)
    refine ⟨⟨fun e he hc => ?_, rfl⟩, husable⟩
    have hlisted := hx.listed e he hc
    rw [hvalues] at hlisted
    exact ⟨_, hm, rfl, hsame.trans (Option.some.inj hlisted)⟩
  | none =>
    have hnone : ∀ e ∈ g.enums, c.dataType ≠ e.columnType := by
      intro e he hc
      have hlisted := hx.listed e he hc
      rw [hvalues] at hlisted
      cases hlisted
    dsimp only
    split
    · exact ⟨⟨fun e he hc => absurd hc (hnone e he), rfl⟩, hd⟩
    · exact ⟨⟨fun e he hc => absurd hc (hnone e he), hx.plain⟩, hd⟩

/-! ## Columns -/

/-- The foreign key that stands with a column itself. -/
def columnKey (s : Settings) (c : Column) : Option ForeignKey :=
  if s.dialect = .mysql then none else ownKey s c

/-- **Listed reading**: it says of each column what its type says, and lists the values of its
enumeration. -/
structure Listing (s : Settings) (g : Graph) (typed : Column → Bool → ColumnDef) : Prop where
  name : ∀ c keyHere, (typed c keyHere).name = c.title
  fits : ∀ t ∈ g.tables, ∀ c ∈ t.columns, ∀ keyHere,
    TypeSays (typeClause s g c keyHere) c (typed c keyHere)
  lists : ∀ t ∈ g.tables, ∀ c ∈ t.columns, ∀ keyHere, ListsValues g c (typed c keyHere)

/-- **Columns that were added** to a table, with the types that were chosen for them. -/
structure ColumnsStep (s : Settings) (g : Graph) (typed : Column → Bool → ColumnDef) (t : Table)
    (cs : List Column) (choice : Column → TypeChoice) (r r' : Table × Draft) : Prop where
  table : r'.1 = { r.1 with
    columns := r.1.columns ++ cs.map fun c => columnOf (choice c) (readColumn s g typed t c) }
  enums : r.2.enums ⊆ r'.2.enums
  pending : r'.2.pending = r.2.pending ++ cs.filterMap fun c => (columnKey s c).map (pendingOf t c)
  chosen : ∀ c ∈ cs, ChosenFor g r'.2.enums c (choice c)
  usable : Usable r'.2.enums

section
variable {s : Settings} {g : Graph} {typed : Column → Bool → ColumnDef} {t : Table}

theorem ColumnsStep.nil (choice : Column → TypeChoice) {r : Table × Draft} (h : Usable r.2.enums) :
    ColumnsStep s g typed t [] choice r r where
  table := by
    rw [List.map_nil, List.append_nil]
  enums := List.Subset.refl _
  pending := (List.append_nil _).symm
  chosen := nofun
  usable := h

theorem ColumnsStep.cons {c : Column} {cs : List Column} (hc : c ∉ cs)
    {choice : TypeChoice} {choices : Column → TypeChoice} {r r' r'' : Table × Draft}
    (h : ColumnsStep s g typed t [c] (fun _ => choice) r r')
    (h' : ColumnsStep s g typed t cs choices r' r'') :
    ColumnsStep s g typed t (c :: cs) (Function.update choices c choice) r r'' := by
  have hself : Function.update choices c choice c = choice := Function.update_self ..
  have hother : ∀ x ∈ cs, Function.update choices c choice x = choices x :=
    fun x hx => Function.update_of_ne (show x ≠ c from fun he => hc (he ▸ hx)) ..
  constructor
  · have hmap : ((c :: cs).map fun x => columnOf (Function.update choices c choice x)
        (readColumn s g typed t x)) = columnOf choice (readColumn s g typed t c) ::
          cs.map fun x => columnOf (choices x) (readColumn s g typed t x) := by
      rw [List.map_cons, hself]
      exact congrArg _ (List.map_congr_left fun x hx => by rw [hother x hx])
    rw [hmap, h'.table, h.table]
    simp only [List.append_assoc]
    rfl
  · exact fun e he => h'.enums (h.enums he)
  · rw [h'.pending, h.pending, List.append_assoc, ← List.filterMap_append]
    rfl
  · intro x hx
    rcases List.mem_cons.1 hx with rfl | hx
    · rw [hself]
      exact (h.chosen x (.head _)).mono h'.enums
    · rw [hother x hx]
      exact h'.chosen x hx
  · exact h'.usable

end

section
variable {s : Settings} {g : Graph} (hg : g.Canonical) {typed : Column → Bool → ColumnDef}
  (hl : Listing s g typed) {t : Table} (ht : t ∈ g.tables)
include hg hl ht

/-- **One column** stands behind those before it, with the type that is chosen for it. -/
theorem addColumn_listed {c : Column} (hc : c ∈ t.columns) {r : Table × Draft} (hid : r.1.id = t.id)
    (hnew : Text.lower c.title ∉ r.1.columns.map fun c => Text.lower c.title)
    (hd : Usable r.2.enums) :
    ∃ choice, ColumnsStep s g typed t [c] (fun _ => choice) r
      (addColumn (Prior.ofGraph g) r (readColumn s g typed t c)) := by
  obtain ⟨b, d⟩ := r
  have hname : (readColumn s g typed t c).name = c.title := hl.name c _
  have htyped := hl.lists t ht c hc (c.isPrimary && !promotesKey t (insideKeys s (keysOf g) t))
  have hvalues : ListsValues g c (readColumn s g typed t c) :=
    ⟨htyped.listed, htyped.values, htyped.plain⟩
  have hkey : (readColumn s g typed t c).reference.map
      (fun ref => (⟨b.id, (readColumn s g typed t c).name, ref, ref.columns.headD "id"⟩ :
        PendingKey)) = (columnKey s c).map (pendingOf t c) := by
    rw [reference_readColumn hg ht hc (hl.fits t ht c hc), hname, hid]
    unfold clauseKey columnKey
    split
    · rfl
    · rw [Option.map_map, Option.map_map]
      rfl
  obtain ⟨htable, henums, hpending⟩ :=
    addColumn_fresh (Prior.ofGraph g) d (c := readColumn s g typed t c) (hname ▸ hnew)
  obtain ⟨hchosen, husable⟩ := chooseType_listed hg hvalues hd b.name
  have hgrows := (chooseType_step (Prior.ofGraph g) d b.name (readColumn s g typed t c)).enums
  refine ⟨_, htable, ?_, ?_, ?_, ?_⟩
  · rw [henums]
    exact hgrows.subset
  · have hone : [c].filterMap (fun c => (columnKey s c).map (pendingOf t c)) =
        ((columnKey s c).map (pendingOf t c)).toList := by
      rw [List.filterMap_cons]
      cases (columnKey s c).map (pendingOf t c) <;> rfl
    rw [hpending, hkey, hone]
  · intro x hx
    obtain rfl := List.mem_singleton.1 hx
    rw [henums]
    exact hchosen
  · rw [henums]
    exact husable

/-- **The columns of a table** stand one after the other. -/
theorem foldl_addColumn_listed {cs : List Column} (hcs : cs ⊆ t.columns) {r : Table × Draft}
    (hid : r.1.id = t.id)
    (hn : ((r.1.columns.map fun c => Text.lower c.title) ++
      cs.map fun c => Text.lower c.title).Nodup) (hd : Usable r.2.enums) :
    ∃ choice, ColumnsStep s g typed t cs choice r
      ((cs.map (readColumn s g typed t)).foldl (addColumn (Prior.ofGraph g)) r) := by
  induction cs generalizing r with
  | nil => exact ⟨fun _ => ⟨"", [], false⟩, .nil _ hd⟩
  | cons c cs ih =>
    have hnew : Text.lower c.title ∉ r.1.columns.map fun c => Text.lower c.title :=
      fun hm => (List.nodup_append.1 hn).2.2 _ hm _ (.head _) rfl
    have hrest : c ∉ cs := by
      have hkeys := (List.nodup_append.1 hn).2.1
      exact fun hm => (List.nodup_cons.1 hkeys).1 (List.mem_map_of_mem hm)
    obtain ⟨choice, hstep⟩ := addColumn_listed hg hl ht (hcs (.head _)) hid hnew hd
    have hname : (readColumn s g typed t c).name = c.title := hl.name c _
    have htitle : (columnOf choice (readColumn s g typed t c)).title = c.title := hname
    have hid' : (addColumn (Prior.ofGraph g) r (readColumn s g typed t c)).1.id = t.id := by
      rw [hstep.table]
      exact hid
    have hn' : (((addColumn (Prior.ofGraph g) r (readColumn s g typed t c)).1.columns.map
        fun c => Text.lower c.title) ++ cs.map fun c => Text.lower c.title).Nodup := by
      rw [hstep.table]
      simp only [List.map_append, List.map_cons, List.map_nil, htitle, List.append_assoc]
      exact hn
    obtain ⟨choices, hsteps⟩ := ih (fun x hx => hcs (.tail _ hx)) hid' hn' hstep.usable
    exact ⟨_, hstep.cons hrest hsteps⟩

end

/-! ## Tables -/

/-- What waits for the target of a key that a table states. -/
def pendingKeyOf (t : Table) (key : KeySpec) : PendingKey :=
  ⟨t.id, key.sourceColumn, key.reference, key.targetColumn⟩

/-- **Keys of a table** that it states itself all wait, one after the other. -/
theorem foldl_queueKey_own {t : Table} (hn : (t.columns.map (·.title)).Nodup)
    {f : Column → Column} (hf : KeepsTitles f) {keys : List KeySpec}
    (hkeys : ∀ key ∈ keys, ∃ c ∈ t.columns, key.sourceColumn = c.title) {d : Draft}
    (hd : tableById? d.tables t.id = some (t.mapColumns f)) :
    (keys.map KeySpec.keyDef).foldl (queueKey t.id t.name) d =
      { d with pending := d.pending ++ keys.map (pendingKeyOf t) } := by
  induction keys generalizing d with
  | nil => simp only [List.map_nil, List.foldl_nil, List.append_nil]
  | cons key keys ih =>
    obtain ⟨c, hc, htitle⟩ := hkeys key (.head _)
    have hfound : t.column? c.title = some c :=
      find?_of_nodup hn hc (beq_self_eq_true _) fun _ _ h => eq_of_beq h
    have hcolumn : (tableById? d.tables t.id).bind (·.findColumn? key.sourceColumn) =
        some (f c) := by
      rw [hd, htitle]
      unfold Table.findColumn?
      rw [Option.bind_some, Table.column?_mapColumns hf, hfound]
      rfl
    have hstep : queueKey t.id t.name d key.keyDef =
        { d with pending := d.pending ++ [pendingKeyOf t key] } := by
      rw [queueKey_column hcolumn rfl rfl, hf c, ← htitle]
      rfl
    have hrest := ih (fun key hm => hkeys key (.tail _ hm))
      (d := { d with pending := d.pending ++ [pendingKeyOf t key] }) hd
    rw [List.map_cons, List.foldl_cons, hstep, hrest]
    dsimp only
    rw [List.append_assoc]
    rfl

/-- The keys inside of a table are those of its columns. -/
theorem mem_insideKeys {g : Graph} (hg : g.Canonical) (s : Settings) {t : Table}
    (ht : t ∈ g.tables) (key : KeySpec) : key ∈ insideKeys s (keysOf g) t ↔
      inlinesKeys s = true ∧ ∃ c ∈ t.columns, ∃ k, c.foreignKey = some k ∧
        key = .ofForeignKey t c k := by
  unfold insideKeys
  split
  · rename_i hi
    rw [and_iff_right hi, List.mem_filter, hg.mem_keysOf]
    constructor
    · rintro ⟨⟨u, hu, c, hc, k, hk, rfl⟩, hname⟩
      obtain rfl := hg.table_ext hu ht (congrArg Text.lower (eq_of_beq hname))
      exact ⟨c, hc, k, hk, rfl⟩
    · rintro ⟨c, hc, k, hk, rfl⟩
      exact ⟨⟨t, ht, c, hc, k, hk, rfl⟩, beq_self_eq_true _⟩
  · rename_i hi
    exact ⟨fun h => absurd h List.not_mem_nil, fun h => absurd h.1 hi⟩

/-- The foreign keys that stand inside of a table, with its columns or behind them. -/
def tablePending (s : Settings) (g : Graph) (t : Table) : List PendingKey :=
  (t.columns.filterMap fun c => (columnKey s c).map (pendingOf t c)) ++
    if s.dialect = .mysql then (insideKeys s (keysOf g) t).map (pendingKeyOf t) else []

/-- **Foreign keys inside of tables** are those of the columns, if they stand there at all. -/
theorem mem_tablePending {g : Graph} (hg : g.Canonical) (s : Settings) (p : PendingKey) :
    p ∈ g.tables.flatMap (tablePending s g) ↔ inlinesKeys s = true ∧ IsPending g p := by
  by_cases hs : s.dialect = .mysql
  · have hcolumns : ∀ t : Table,
        (t.columns.filterMap fun c => (columnKey s c).map (pendingOf t c)) = [] := by
      intro t
      refine List.filterMap_eq_nil_iff.2 fun c _ => ?_
      unfold columnKey
      rw [if_pos hs]
      rfl
    unfold tablePending
    simp only [hcolumns, if_pos hs, List.nil_append, List.mem_flatMap, List.mem_map]
    constructor
    · rintro ⟨t, ht, key, hkey, rfl⟩
      obtain ⟨hi, c, hc, k, hk, rfl⟩ := (mem_insideKeys hg s ht key).1 hkey
      exact ⟨hi, t, ht, c, hc, k, hk, rfl⟩
    · rintro ⟨hi, t, ht, c, hc, k, hk, rfl⟩
      exact ⟨t, ht, _, (mem_insideKeys hg s ht _).2 ⟨hi, c, hc, k, hk, rfl⟩, rfl⟩
  · have hown : g.tables.flatMap (tablePending s g) = ownKeysOf s g.tables := by
      unfold tablePending columnKey ownKeysOf
      simp only [if_neg hs, List.append_nil]
    rw [hown, mem_ownKeysOf]

/-- **Tables that were added** behind others, as a reading has their columns. -/
structure TablesStep (s : Settings) (g : Graph) (r : Reading) (ts : List Table) (d d' : Draft) :
    Prop where
  tables : d'.tables = d.tables ++ ts.map fun t => t.mapColumns (keyedColumn s g r t)
  tableIds : d'.tableIds = d.tableIds ++ ts.map fun t => (Text.lower t.name, t.id)
  enums : d.enums ⊆ d'.enums
  pending : d'.pending = d.pending ++ ts.flatMap (tablePending s g)
  chosen : ∀ t ∈ ts, ∀ c ∈ t.columns, ChosenFor g d'.enums c (r.choice t c)
  usable : Usable d'.enums

theorem TablesStep.nil {s : Settings} {g : Graph} (r : Reading) {d : Draft} (h : Usable d.enums) :
    TablesStep s g r [] d d where
  tables := (List.append_nil _).symm
  tableIds := (List.append_nil _).symm
  enums := List.Subset.refl _
  pending := (List.append_nil _).symm
  chosen := nofun
  usable := h

theorem keyedColumn_congr {s : Settings} {g : Graph} {r : Reading}
    {choice : Table → Column → TypeChoice} {t : Table} (h : choice t = r.choice t) :
    keyedColumn s g { r with choice } t = keyedColumn s g r t := by
  unfold keyedColumn builtColumn
  dsimp only
  rw [h]

theorem TablesStep.cons {s : Settings} {g : Graph} {t : Table} {ts : List Table} (ht : t ∉ ts)
    {typed : Column → Bool → ColumnDef} {choice : Column → TypeChoice}
    {choices : Table → Column → TypeChoice} {name : ∀ c keyHere, (typed c keyHere).name = c.title}
    {d d' d'' : Draft} (h : TablesStep s g ⟨typed, fun _ => choice, name⟩ [t] d d')
    (h' : TablesStep s g ⟨typed, choices, name⟩ ts d' d'') :
    TablesStep s g ⟨typed, Function.update choices t choice, name⟩ (t :: ts) d d'' := by
  let r : Reading := ⟨typed, Function.update choices t choice, name⟩
  have hself : r.choice t = choice := Function.update_self ..
  have hother : ∀ x ∈ ts, r.choice x = choices x :=
    fun x hx => Function.update_of_ne (show x ≠ t from fun he => ht (he ▸ hx)) ..
  have hfirst : keyedColumn s g r t = keyedColumn s g ⟨typed, fun _ => choice, name⟩ t :=
    @keyedColumn_congr s g ⟨typed, fun _ => choice, name⟩ r.choice t hself
  have hrest : ∀ x ∈ ts, keyedColumn s g r x = keyedColumn s g ⟨typed, choices, name⟩ x :=
    fun x hx => @keyedColumn_congr s g ⟨typed, choices, name⟩ r.choice x (hother x hx)
  constructor
  · have hmap : ((t :: ts).map fun x => x.mapColumns (keyedColumn s g r x)) =
        t.mapColumns (keyedColumn s g ⟨typed, fun _ => choice, name⟩ t) ::
          ts.map fun x => x.mapColumns (keyedColumn s g ⟨typed, choices, name⟩ x) := by
      rw [List.map_cons, hfirst]
      exact congrArg _ (List.map_congr_left fun x hx => by rw [hrest x hx])
    rw [hmap, h'.tables, h.tables, List.append_assoc]
    rfl
  · rw [h'.tableIds, h.tableIds, List.append_assoc]
    rfl
  · exact fun e he => h'.enums (h.enums he)
  · rw [h'.pending, h.pending, List.append_assoc, ← List.flatMap_append]
    rfl
  · intro x hx c hc
    rcases List.mem_cons.1 hx with rfl | hx
    · rw [hself]
      exact (h.chosen x (.head _) c hc).mono h'.enums
    · rw [hother x hx]
      exact h'.chosen x hx c hc
  · exact h'.usable

section
variable {s : Settings} {g : Graph} (hg : g.Canonical) {typed : Column → Bool → ColumnDef}
  (hl : Listing s g typed)
include hg hl

/-- **One table** stands behind those before it. -/
theorem addTable_listed {t : Table} (ht : t ∈ g.tables) {d : Draft} (hd : Usable d.enums)
    (hnew : d.tableId? t.name = none) (hid : ∀ x ∈ d.tables, x.id ≠ t.id) :
    ∃ choice, TablesStep s g ⟨typed, fun _ => choice, hl.name⟩ [t] d
      (addTable (Prior.ofGraph g) d (readTable s g typed t)) := by
  let prior := Prior.ofGraph g
  have hplace : placeTable prior d.pool t.name d.tables.length =
      (⟨t.id, t.position, t.color⟩, d.pool) := by
    unfold placeTable
    rw [hg.prior_table? ht]
  have hcolumns : columnsOf prior d (readTable s g typed t) =
      (t.columns.map (readColumn s g typed t)).foldl (addColumn prior)
        ({ t with columns := [] }, d) := by
    have hname : (readTable s g typed t).name = t.name := rfl
    unfold columnsOf
    rw [hname, hplace]
    rfl
  have hkept := foldl_addColumn_step prior (t.columns.map (readColumn s g typed t))
    { t with columns := [] } d
  obtain ⟨choice, hstep⟩ := foldl_addColumn_listed hg hl ht (List.Subset.refl t.columns)
    (r := ({ t with columns := [] }, d)) rfl (hg.titles t ht) hd
  rw [← hcolumns] at hkept hstep
  let r : Reading := ⟨typed, fun _ => choice, hl.name⟩
  have hbuilt : (columnsOf prior d (readTable s g typed t)).1 =
      t.mapColumns (builtColumn s g r t) := hstep.table
  have hkeyed : applyConstraints (readTable s g typed t) (t.mapColumns (builtColumn s g r t)) =
      t.mapColumns (keyedColumn s g r t) := applyConstraints_canonical hg r ht
  have hfound : tableById? (d.tables ++ [t.mapColumns (keyedColumn s g r t)]) t.id =
      some (t.mapColumns (keyedColumn s g r t)) := by
    have hnone : d.tables.find? (·.id == t.id) = none :=
      List.find?_eq_none.2 fun x hx => by simpa using hid x hx
    have hself : ((t.mapColumns (keyedColumn s g r t)).id == t.id) = true := beq_self_eq_true _
    unfold tableById?
    rw [List.find?_append, hnone, Option.none_or]
    exact List.find?_cons_of_pos hself
  have hadd := @addTable_eq prior d (readTable s g typed t) hnew
  generalize columnsOf prior d (readTable s g typed t) = built at *
  obtain ⟨b, d'⟩ := built
  dsimp only at *
  have happend : appendTable (readTable s g typed t) t.id (b, d') =
      { d' with
        tableIds := d.tableIds ++ [(Text.lower t.name, t.id)]
        tables := d.tables ++ [t.mapColumns (keyedColumn s g r t)] } := by
    unfold appendTable
    dsimp only
    rw [hbuilt, hkeyed, hkept.tables, hkept.tableIds]
    rfl
  have hname : (readTable s g typed t).name = t.name := rfl
  rw [hname, hplace] at hadd
  dsimp only at hadd
  rw [happend] at hadd
  have hkeys : (readTable s g typed t).foreignKeys.foldl (queueKey t.id t.name)
      { d' with
        tableIds := d.tableIds ++ [(Text.lower t.name, t.id)]
        tables := d.tables ++ [t.mapColumns (keyedColumn s g r t)] } =
      { d' with
        tableIds := d.tableIds ++ [(Text.lower t.name, t.id)]
        tables := d.tables ++ [t.mapColumns (keyedColumn s g r t)]
        pending := d.pending ++ tablePending s g t } := by
    have hinside : ∀ key ∈ insideKeys s (keysOf g) t, ∃ c ∈ t.columns, key.sourceColumn = c.title := by
      intro key hkey
      obtain ⟨-, c, hc, k, -, rfl⟩ := (mem_insideKeys hg s ht key).1 hkey
      exact ⟨c, hc, rfl⟩
    have hown := foldl_queueKey_own (hg.distinct.titles t ht) (keepsTitles_keyedColumn s g r t)
      hinside (d := { d' with
        tableIds := d.tableIds ++ [(Text.lower t.name, t.id)]
        tables := d.tables ++ [t.mapColumns (keyedColumn s g r t)] }) hfound
    unfold readTable tableDef tablePending
    dsimp only
    split
    · rw [hown, hstep.pending, List.append_assoc]
    · rw [List.foldl_nil, hstep.pending, List.append_nil]
  rw [hkeys] at hadd
  rw [hadd]
  refine ⟨choice, rfl, rfl, hstep.enums, ?_, ?_, hstep.usable⟩
  · dsimp only
    rw [List.flatMap_singleton]
  · intro x hx c hc
    obtain rfl := List.mem_singleton.1 hx
    exact hstep.chosen c hc

/-- **All tables** stand one after the other. -/
theorem foldl_addTable_listed {done ts : List Table} (h : done ++ ts = g.tables)
    {definitions : List TableDef}
    (hdefs : definitions.map (TableDef.reline fun _ => 0) = ts.map (readTable s g typed)) {d : Draft}
    (hd : Usable d.enums) (hids : d.tableIds = done.map fun t => (Text.lower t.name, t.id))
    (htables : d.tables.map (·.id) = done.map (·.id)) :
    ∃ choice, TablesStep s g ⟨typed, choice, hl.name⟩ ts d
      (definitions.foldl (addTable (Prior.ofGraph g)) d) := by
  induction ts generalizing done definitions d with
  | nil =>
    obtain rfl := List.map_eq_nil_iff.1 hdefs
    exact ⟨fun _ _ => ⟨"", [], false⟩, .nil _ hd⟩
  | cons t ts ih =>
    obtain ⟨definition, definitions, rfl, hdef, hdefs⟩ := List.map_eq_cons_iff.1 hdefs
    have ht : t ∈ g.tables := h ▸ List.mem_append_right _ (.head _)
    have hfresh := not_mem_before (h ▸ hg.tableNames)
    have hnew : d.tableId? t.name = none := by
      unfold tableId?
      rw [hids]
      refine List.lookup_eq_none_iff.2 fun x hx => bne_iff_ne.2 fun he => hfresh ?_
      obtain ⟨t', ht', rfl⟩ := List.mem_map.1 hx
      exact List.mem_map.2 ⟨t', ht', he.symm⟩
    have hid : ∀ x ∈ d.tables, x.id ≠ t.id := by
      intro x hx he
      refine not_mem_before (f := fun t : Table => t.id) (h ▸ hg.tableIds) ?_
      rw [← htables, ← he]
      exact List.mem_map_of_mem hx
    have hrest : t ∉ ts := by
      have hids' : ((done ++ t :: ts).map fun t : Table => t.id).Nodup := h ▸ hg.tableIds
      exact (List.nodup_cons.1 (List.nodup_append.1 (List.Nodup.of_map _ hids')).2.1).1
    have hname : definition.name = t.name := congrArg TableDef.name hdef
    obtain ⟨choice, hstep⟩ := addTable_listed hg hl ht hd hnew hid
    rw [← hdef, addTable_reline _ (hname ▸ hnew)] at hstep
    rw [List.append_cons] at h
    obtain ⟨choices, hsteps⟩ := ih h hdefs hstep.usable (by
      rw [hstep.tableIds, hids, List.map_append]) (by
      rw [hstep.tables, List.map_append, htables, List.map_append]
      rfl)
    exact ⟨Function.update choices t choice, hstep.cons hrest hsteps⟩

end

end Recovery.Draft

end DdlGraph
