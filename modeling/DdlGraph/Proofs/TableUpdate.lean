import DdlGraph.Recovery.Outcome

/-!
# Tables after they are built

Once a table has its columns, later phases only add constraints to them and set what they refer
to. What they leave alone is the table's *outline* (`Table.outline`).

* `map_updateFirst`, `mem_updateFirst_of_find?`: what replacing one element of a list keeps and
  gains;
* `outline_constrain`, `outline_applyConstraints`: constraints keep the outline;
* `Table.Ok`: titles differ in more than case, no column holds a constraint twice; kept by every
  update that keeps the outline and the constraints in order.
-/

namespace DdlGraph

/-! ## Replacing one element -/

section
variable {α β : Type} {p : α → Bool} {f : α → α}

theorem map_updateFirst {g : α → β} (h : ∀ a, g (f a) = g a) (as : List α) :
    (updateFirst p f as).map g = as.map g := by
  induction as with
  | nil => rfl
  | cons a as ih =>
    unfold updateFirst
    split
    · rw [List.map_cons, List.map_cons, h]
    · rw [List.map_cons, List.map_cons, ih]

theorem mem_of_mem_updateFirst {as : List α} {b : α} (h : b ∈ updateFirst p f as) :
    b ∈ as ∨ ∃ a ∈ as, b = f a := by
  induction as with
  | nil => cases h
  | cons a as ih =>
    unfold updateFirst at h
    split at h
    · rcases List.mem_cons.1 h with rfl | h
      · exact .inr ⟨a, .head _, rfl⟩
      · exact .inl (.tail _ h)
    · rcases List.mem_cons.1 h with rfl | h
      · exact .inl (.head _)
      · rcases ih h with h | ⟨c, hc, rfl⟩
        · exact .inl (.tail _ h)
        · exact .inr ⟨c, .tail _ hc, rfl⟩

theorem mem_updateFirst_of_mem {as : List α} {a : α} (h : a ∈ as) :
    a ∈ updateFirst p f as ∨ f a ∈ updateFirst p f as := by
  induction as with
  | nil => cases h
  | cons b as ih =>
    unfold updateFirst
    rcases List.mem_cons.1 h with rfl | h
    · split
      · exact .inr (.head _)
      · exact .inl (.head _)
    · split
      · exact .inl (.tail _ h)
      · exact (ih h).imp (.tail _) (.tail _)

theorem mem_updateFirst_of_find? {as : List α} {a : α} (h : as.find? p = some a) :
    f a ∈ updateFirst p f as := by
  induction as with
  | nil => cases h
  | cons b as ih =>
    unfold updateFirst
    rw [List.find?_cons] at h
    cases hb : p b with
    | true =>
      rw [hb] at h
      cases h
      exact .head _
    | false =>
      rw [hb] at h
      exact .tail _ (ih h)

/-- Two lists with the same images have an element for each of the other's. -/
theorem exists_mem_of_map_eq {g : α → β} {as bs : List α} (h : bs.map g = as.map g) {a : α}
    (ha : a ∈ as) : ∃ b ∈ bs, g b = g a := by
  have hm : g a ∈ bs.map g := h ▸ List.mem_map_of_mem ha
  obtain ⟨b, hb, he⟩ := List.mem_map.1 hm
  exact ⟨b, hb, he⟩

end

/-! ## Outlines -/

/-- A column without its constraints and what it refers to. -/
def Column.outline (c : Column) : Column :=
  { c with constraints := [], foreignKey := none }

/-- A table whose columns are outlines. -/
def Table.outline (t : Table) : Table :=
  { t with columns := t.columns.map Column.outline }

theorem Column.outline_addConstraint (c : Column) (k : Constraint) :
    (c.addConstraint k).outline = c.outline := by
  unfold Column.addConstraint
  split <;> rfl

theorem Table.outline_updateColumn {f : Column → Column} (h : ∀ c, (f c).outline = c.outline)
    (t : Table) (title : String) : (t.updateColumn title f).outline = t.outline := by
  simp only [Table.outline, Table.updateColumn, map_updateFirst h]

theorem Table.foldedTitles_eq_outline (t : Table) : t.foldedTitles = t.outline.foldedTitles := by
  simp [Table.foldedTitles, Table.outline, Column.outline, Function.comp_def]

theorem Table.columns_outline_eq {s t : Table} (h : s.outline = t.outline) :
    s.columns.map Column.outline = t.columns.map Column.outline :=
  congrArg Table.columns h

/-! ## Well-formed tables -/

/-- Titles differ in more than case, and no column holds a constraint twice. -/
structure Table.Ok (t : Table) : Prop where
  titles : t.foldedTitles.Nodup
  constraints : ∀ c ∈ t.columns, c.constraints.Nodup

theorem Table.Ok.updateColumn {t : Table} (ht : t.Ok) {f : Column → Column}
    (ho : ∀ c, (f c).outline = c.outline)
    (hf : ∀ c, c.constraints.Nodup → (f c).constraints.Nodup) (title : String) :
    (t.updateColumn title f).Ok := by
  constructor
  · rw [Table.foldedTitles_eq_outline, Table.outline_updateColumn ho,
      ← Table.foldedTitles_eq_outline]
    exact ht.titles
  · intro c hc
    rcases mem_of_mem_updateFirst hc with hc | ⟨b, hb, rfl⟩
    · exact ht.constraints c hc
    · exact hf b (ht.constraints b hb)

namespace Recovery.Draft

open Sql

theorem outline_constrain (k : Constraint) (t : Table) (title : String) :
    (constrain k t title).outline = t.outline := by
  unfold constrain
  split
  · exact Table.outline_updateColumn (fun c => c.outline_addConstraint k) _ _
  · rfl

theorem ok_constrain (k : Constraint) {t : Table} (ht : t.Ok) (title : String) :
    (constrain k t title).Ok := by
  unfold constrain
  split
  · exact ht.updateColumn (fun c => c.outline_addConstraint k)
      (fun c hc => Column.nodup_addConstraint k hc) _
  · exact ht

theorem foldl_constrain (k : Constraint) (titles : List String) {t : Table} (ht : t.Ok) :
    (titles.foldl (constrain k) t).outline = t.outline ∧ (titles.foldl (constrain k) t).Ok := by
  induction titles generalizing t with
  | nil => exact ⟨rfl, ht⟩
  | cons title titles ih =>
    obtain ⟨ho, hk⟩ := ih (ok_constrain k ht title)
    exact ⟨ho.trans (outline_constrain k t title), hk⟩

theorem outline_applyConstraints (definition : TableDef) {t : Table} (ht : t.Ok) :
    (applyConstraints definition t).outline = t.outline ∧ (applyConstraints definition t).Ok := by
  obtain ⟨ho, hk⟩ := foldl_constrain .primary definition.primaryKey ht
  obtain ⟨ho', hk'⟩ := foldl_constrain .unique (singletons definition.unique) hk
  exact ⟨ho'.trans ho, hk'⟩

end Recovery.Draft

end DdlGraph
