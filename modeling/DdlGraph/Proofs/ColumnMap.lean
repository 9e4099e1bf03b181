import DdlGraph.Proofs.TablePhases

/-!
# Tables over those of a graph

The tables of a draft, while they are built again from a text, as those of the graph with other
columns in the same places (`Rebuilt`). An update of one column is then an update of the function
that gives the columns.

* `updateFirst_map`: an update of the one element of a key;
* `Rebuilt.tableById?_eq`, `Rebuilt.tableId?_eq`: what is found in such a draft;
* `Rebuilt.touch`: an update of one column.
-/

namespace DdlGraph

/-! ## Look-ups -/

section
variable {α β : Type}

/-- The element of a key is found by it. -/
theorem find?_of_nodup {l : List α} {f : α → β} (hn : (l.map f).Nodup) {a : α} (ha : a ∈ l)
    {p : α → Bool} (hp : p a = true) (hf : ∀ x ∈ l, p x = true → f x = f a) :
    l.find? p = some a := by
  cases h : l.find? p with
  | none => exact absurd hp (List.find?_eq_none.1 h a ha)
  | some x =>
    have hx := List.mem_of_find?_eq_some h
    rw [List.inj_on_of_nodup_map hn hx ha (hf x hx (List.find?_some h))]

theorem lookup_of_nodup {entries : List (String × α)} (hn : (entries.map (·.1)).Nodup)
    {key : String} {a : α} (h : (key, a) ∈ entries) : entries.lookup key = some a := by
  cases hl : entries.lookup key with
  | none => exact absurd rfl (bne_iff_ne.1 (List.lookup_eq_none_iff.1 hl _ h))
  | some b =>
    have he := List.inj_on_of_nodup_map hn (mem_of_lookup hl) h rfl
    rw [(Prod.mk.inj he).2]

theorem firstOfEach_of_nodup {entries : List (String × α)} (hn : (entries.map (·.1)).Nodup)
    {seen : List String} (hs : ∀ x ∈ entries, x.1 ∉ seen) : firstOfEach seen entries = entries := by
  induction entries generalizing seen with
  | nil => rfl
  | cons x rest ih =>
    obtain ⟨key, a⟩ := x
    obtain ⟨hkey, hrest⟩ := List.nodup_cons.1 hn
    have hnot : ¬ seen.contains key = true := by
      simpa using hs (key, a) (.head _)
    unfold firstOfEach
    rw [if_neg hnot, ih hrest]
    intro y hy hm
    rcases List.mem_cons.1 hm with he | hm
    · exact hkey (List.mem_map.2 ⟨y, hy, he⟩)
    · exact hs y (.tail _ hy) hm

/-- An element of each key of the list is among the first ones. -/
theorem exists_mem_firstOfEach {entries : List (String × α)} {seen : List String}
    {x : String × α} (hx : x ∈ entries) (hs : x.1 ∉ seen) :
    ∃ y ∈ firstOfEach seen entries, y.1 = x.1 := by
  induction entries generalizing seen with
  | nil => cases hx
  | cons e rest ih =>
    obtain ⟨key, a⟩ := e
    unfold firstOfEach
    split
    · rename_i hc
      rcases List.mem_cons.1 hx with rfl | hx
      · exact absurd (by simpa using hc) hs
      · exact ih hx hs
    · by_cases he : x.1 = key
      · exact ⟨(key, a), .head _, he.symm⟩
      · rcases List.mem_cons.1 hx with rfl | hx
        · exact absurd rfl he
        · have hseen : x.1 ∉ key :: seen := by
            rw [List.mem_cons, not_or]
            exact ⟨he, hs⟩
          obtain ⟨y, hy, hyx⟩ := ih hx hseen
          exact ⟨y, .tail _ hy, hyx⟩

end

/-! ## The graph before -/

section
variable {g : Graph}

/-- A table is found by its name in the graph before. -/
theorem Prior.table?_ofGraph (hn : (g.tables.map fun t => Text.lower t.name).Nodup) {t : Table}
    (ht : t ∈ g.tables) : (Prior.ofGraph g).table? t.name = some t := by
  have hkeys : ((g.tables.map fun t => (Text.lower t.name, t)).map (·.1)).Nodup := by
    rw [List.map_map]
    exact hn
  unfold Prior.table? Prior.ofGraph
  rw [firstOfEach_of_nodup hkeys fun _ _ => List.not_mem_nil]
  exact lookup_of_nodup hkeys (List.mem_map.2 ⟨t, ht, rfl⟩)

variable (hn : (g.enums.map fun e => Text.lower e.name).Nodup)
include hn

theorem Prior.enums_ofGraph :
    (Prior.ofGraph g).enums = g.enums.map fun e => (Text.lower e.name, e) := by
  have hkeys : ((g.enums.map fun e => (Text.lower e.name, e)).map (·.1)).Nodup := by
    rw [List.map_map]
    exact hn
  unfold Prior.ofGraph
  exact firstOfEach_of_nodup hkeys fun _ _ => List.not_mem_nil

/-- An enumeration is found by its name in the graph before. -/
theorem Prior.enum?_ofGraph {e : Enumeration} (he : e ∈ g.enums) :
    (Prior.ofGraph g).enum? e.name = some e := by
  unfold Prior.enum?
  rw [Prior.enums_ofGraph hn]
  refine lookup_of_nodup ?_ (List.mem_map.2 ⟨e, he, rfl⟩)
  rw [List.map_map]
  exact hn

/-- An enumeration is looked up by its values among all of the graph before. -/
theorem Prior.enumWithValues?_ofGraph (values : List String) :
    (Prior.ofGraph g).enumWithValues? values =
      (g.enums.filter (·.values = values)).foldl Prior.lesserName none := by
  unfold Prior.enumWithValues?
  rw [Prior.enums_ofGraph hn, List.map_map]
  simp [Function.comp_def]

end

/-! ## Updates of mapped lists -/

section
variable {α β γ : Type} [BEq γ] [LawfulBEq γ]

/-- Only the element of that key is updated, if keys are different. -/
theorem updateFirst_map (key : β → γ) {f : α → β} {as : List α}
    (hn : (as.map fun a => key (f a)).Nodup) (k : γ) (u : β → β) :
    updateFirst (fun b => key b == k) u (as.map f) =
      as.map fun a => if key (f a) == k then u (f a) else f a := by
  induction as with
  | nil => rfl
  | cons a as ih =>
    obtain ⟨hnot, hrest⟩ := List.nodup_cons.1 hn
    rw [List.map_cons, List.map_cons]
    unfold updateFirst
    by_cases hk : key (f a) == k
    · have hmap : (as.map fun a => if key (f a) == k then u (f a) else f a) = as.map f := by
        refine List.map_congr_left fun b hb => if_neg fun hkb => hnot ?_
        have he : key (f b) = key (f a) := (eq_of_beq hkb).trans (eq_of_beq hk).symm
        exact List.mem_map.2 ⟨b, hb, he⟩
      rw [if_pos hk, if_pos hk, hmap]
    · rw [if_neg hk, if_neg hk, ih hrest]

end

/-! ## Columns of a table -/

/-- The table with other columns in the same places. -/
def Table.mapColumns (t : Table) (f : Column → Column) : Table :=
  { t with columns := t.columns.map f }

/-- The column in each place has the title of the one before. -/
def KeepsTitles (f : Column → Column) : Prop :=
  ∀ c, (f c).title = c.title

namespace Table

variable {t : Table} {f : Column → Column}

theorem column?_mapColumns (hf : KeepsTitles f) (title : String) :
    (t.mapColumns f).column? title = (t.column? title).map f := by
  unfold column? mapColumns
  rw [List.find?_map]
  simp only [Function.comp_def, hf _]

theorem findColumn?_mapColumns (hf : KeepsTitles f) (title : String) :
    (t.mapColumns f).findColumn? title = (t.findColumn? title).map f := by
  unfold findColumn?
  rw [column?_mapColumns hf, mapColumns, List.find?_map]
  simp only [Function.comp_def, hf _]
  cases t.column? title <;> rfl

/-- An update of the column of a title. -/
theorem updateColumn_mapColumns (hn : (t.columns.map (·.title)).Nodup) (hf : KeepsTitles f)
    (title : String) (u : Column → Column) : (t.mapColumns f).updateColumn title u =
      t.mapColumns fun c => if c.title == title then u (f c) else f c := by
  have htitles : (t.columns.map fun c => (f c).title).Nodup := by
    simp only [hf _]
    exact hn
  have hupdate := updateFirst_map Column.title htitles title u
  simp only [hf _] at hupdate
  unfold updateColumn mapColumns
  rw [hupdate]

end Table

/-! ## Tables of a graph -/

/-- Ids of tables are different, and so are the titles in each table. -/
structure Graph.Distinct (g : Graph) : Prop where
  ids : (g.tables.map (·.id)).Nodup
  names : (g.tables.map fun t => Text.lower t.name).Nodup
  titles : ∀ t ∈ g.tables, (t.columns.map (·.title)).Nodup

namespace Recovery.Draft

/-- **Rebuilt draft**: its tables are those of the graph with the columns that `F` gives for theirs,
and they are known by their names. -/
structure Rebuilt (g : Graph) (F : Table → Column → Column) (d : Draft) : Prop where
  tables : d.tables = g.tables.map fun t => t.mapColumns (F t)
  tableIds : d.tableIds = g.tables.map fun t => (Text.lower t.name, t.id)
  titles : ∀ t, KeepsTitles (F t)

/-- The columns of `F`, updated at the sites, which are ids of tables with titles. -/
def touched (sites : List (String × String)) (u : Column → Column → Column)
    (F : Table → Column → Column) (t : Table) (c : Column) : Column :=
  if (t.id, c.title) ∈ sites then u c (F t c) else F t c

theorem touched_cons {u : Column → Column → Column} (hu : ∀ c x, u c (u c x) = u c x)
    (site : String × String) (sites : List (String × String)) (F : Table → Column → Column) :
    touched sites u (touched [site] u F) = touched (site :: sites) u F := by
  funext t c
  unfold touched
  by_cases hs : (t.id, c.title) = site
  · rw [if_pos (List.mem_singleton.2 hs), if_pos (List.mem_cons.2 (.inl hs)), hu]
    split <;> rfl
  · have hmem : (t.id, c.title) ∈ site :: sites ↔ (t.id, c.title) ∈ sites := by
      rw [List.mem_cons]
      exact or_iff_right hs
    rw [if_neg (mt List.mem_singleton.1 hs)]
    simp only [hmem]

theorem touched_nil (u : Column → Column → Column) (F : Table → Column → Column) :
    touched [] u F = F := by
  funext t c
  exact if_neg List.not_mem_nil

section
variable {g : Graph} {F : Table → Column → Column} {d : Draft} (h : Rebuilt g F d)
include h

theorem Rebuilt.tableById?_map (id : String) :
    tableById? d.tables id = (tableById? g.tables id).map fun t => t.mapColumns (F t) := by
  unfold tableById?
  rw [h.tables, List.find?_map]
  rfl

/-- A draft with the same tables. -/
theorem Rebuilt.mono {d' : Draft} (ht : d'.tables = d.tables) (hi : d'.tableIds = d.tableIds) :
    Rebuilt g F d' :=
  ⟨ht.trans h.tables, hi.trans h.tableIds, h.titles⟩

variable (hg : g.Distinct) {t : Table} (ht : t ∈ g.tables)
include hg ht

theorem Rebuilt.tableId?_eq {name : String} (hname : Text.lower name = Text.lower t.name) :
    d.tableId? name = some t.id := by
  have hkeys : (d.tableIds.map (·.1)).Nodup := by
    rw [h.tableIds, List.map_map]
    exact hg.names
  have hm : (Text.lower t.name, t.id) ∈ d.tableIds := by
    rw [h.tableIds]
    exact List.mem_map.2 ⟨t, ht, rfl⟩
  unfold tableId?
  rw [hname]
  exact lookup_of_nodup hkeys hm

theorem Rebuilt.tableById?_eq : tableById? d.tables t.id = some (t.mapColumns (F t)) := by
  have hfound : tableById? g.tables t.id = some t :=
    find?_of_nodup hg.ids ht (beq_self_eq_true _) fun _ _ h => eq_of_beq h
  rw [h.tableById?_map, hfound]
  rfl

variable {c : Column} (hc : c ∈ t.columns)
include hc

theorem Rebuilt.column?_eq : (t.mapColumns (F t)).column? c.title = some (F t c) := by
  have hfound : t.column? c.title = some c :=
    find?_of_nodup (hg.titles t ht) hc (beq_self_eq_true _) fun _ _ h => eq_of_beq h
  rw [Table.column?_mapColumns (h.titles t), hfound]
  rfl

theorem Rebuilt.findColumn?_eq : (t.mapColumns (F t)).findColumn? c.title = some (F t c) := by
  unfold Table.findColumn?
  rw [h.column?_eq hg ht hc]
  rfl

/-- **An update of one column**: what replaces the table changes just this column, as `u` does. -/
theorem Rebuilt.touch {u : Column → Column → Column} (hu : ∀ c x, (u c x).title = x.title)
    {f : Table → Table}
    (hf : f (t.mapColumns (F t)) = (t.mapColumns (F t)).updateColumn c.title (u c)) :
    Rebuilt g (touched [(t.id, c.title)] u F) (d.updateTable t.id f) where
  tables := by
    have hids : (g.tables.map fun t => (t.mapColumns (F t)).id).Nodup := hg.ids
    change updateFirst (fun t' => t'.id == t.id) f d.tables = _
    rw [h.tables, updateFirst_map Table.id hids]
    refine List.map_congr_left fun s hs => ?_
    by_cases hid : s.id = t.id
    · obtain rfl := List.inj_on_of_nodup_map hg.ids hs ht hid
      rw [if_pos (show ((s.mapColumns (F s)).id == s.id) = true from beq_self_eq_true s.id), hf,
        Table.updateColumn_mapColumns (hg.titles s hs) (h.titles s)]
      unfold Table.mapColumns touched
      congr 1
      refine List.map_congr_left fun x hx => ?_
      by_cases htitle : x.title = c.title
      · obtain rfl := List.inj_on_of_nodup_map (hg.titles s hs) hx hc htitle
        rw [if_pos (beq_self_eq_true _), if_pos (List.mem_singleton.2 rfl)]
      · rw [if_neg (by simpa using htitle), if_neg (by simpa using htitle)]
    · have hne : ∀ x : Column, (s.id, x.title) ∉ [(t.id, c.title)] := by
        intro x hm
        exact hid (congrArg Prod.fst (List.mem_singleton.1 hm))
      have hother : ¬((s.mapColumns (F s)).id == t.id) = true := mt eq_of_beq hid
      rw [if_neg hother]
      unfold touched
      simp only [hne _, if_false]
  tableIds := h.tableIds
  titles := by
    intro s x
    unfold touched
    split
    · exact (hu _ _).trans (h.titles s x)
    · exact h.titles s x

end

end Recovery.Draft

end DdlGraph
