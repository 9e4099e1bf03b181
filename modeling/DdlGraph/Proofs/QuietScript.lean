import DdlGraph.Proofs.PutAsideText
import DdlGraph.Proofs.ScriptText
import DdlGraph.Proofs.SettledTables

/-!
# Quiet parts of a script

The enumerations, tables and indexes of a script are put together of calm texts, so nothing that
repairs look for begins in them (`quiet_tableText`), but for the words `CREATE TABLE` in front of
each table: the tables that are found in a script are its tables (`hasTable_tables`).
-/

namespace DdlGraph.Repair

open DdlGraph.Text DdlGraph.Sql DdlGraph.Ddl

/-! ## Parts of a script -/

/-- The items of a table, as they are written. -/
def itemTexts (s : Settings) (g : Graph) (t : Table) : List String :=
  (items s g t (insideKeys s (keysOf g) t)).map (Item.text s (nameWidth s t))

/-- What follows the column list of a table: its indexes. -/
def afterTable (s : Settings) (t : Table) : List Char :=
  ';' :: '\n' :: ((indexedColumns t).flatMap (fun c => (indexText s t c).toList) ++ ['\n'])

theorem toList_tableText (s : Settings) (g : Graph) (t : Table) :
    (tableText s g (keysOf g) t).toList = "CREATE TABLE".toList ++
      (headerOf s t ++ '(' :: (bodyOf (itemTexts s g t) ++ ')' :: afterTable s t)) := by
  have hcreate : "CREATE TABLE IF NOT EXISTS ".toList =
      "CREATE TABLE".toList ++ " IF NOT EXISTS ".toList := rfl
  have hopen : " (\n".toList = [' ', '(', '\n'] := rfl
  have hclose : ");\n".toList = [')', ';', '\n'] := rfl
  have hend : "\n".toList = ['\n'] := rfl
  unfold tableText itemTexts insideKeys headerOf bodyOf afterTable
  simp only [String.toList_append, toList_join_empty, List.flatMap_map, hcreate, hopen, hclose,
    hend, List.append_assoc, List.cons_append, List.nil_append]

section Quiet

variable {s : Settings} {I : String → Prop} {ps : List Pattern} (h : Composes s I (Calm ps))

include h

theorem quiet_statement {xs : List Char} (hx : Calm ps xs) :
    Quiet (Matches ps) (xs ++ [';', '\n']) := by
  have hend := (hx ';' (by decide)).append (h.nil '\n' (by decide))
  rwa [List.nil_append, List.append_assoc] at hend

theorem quiet_enumSection {g : Graph}
    (he : s.dialect = .postgresql → ∀ e ∈ g.enums, ∀ p ∈ enumPieces s e, I p) :
    Quiet (Matches ps) (enumSection s g).toList := by
  unfold enumSection
  split
  · rename_i hd
    rw [String.toList_append, toList_join_empty, List.flatMap_map]
    refine (Quiet.flatMap fun e hm => ?_).append (h.nil '\n' (by decide))
    obtain ⟨xs, htext, hx⟩ := h.enum (he hd.1 e hm)
    rw [htext]
    exact quiet_statement h hx
  · exact .nil

theorem quiet_afterTable {t : Table}
    (hi : ∀ c ∈ indexedColumns t, ∀ p ∈ indexPieces s t c, I p) :
    Quiet (Matches ps) (')' :: afterTable s t) := by
  have hclose : Quiet (Matches ps) ([')'] ++ ([';'] ++ ['\n'])) :=
    (h.nil ')' (by decide)).append ((h.nil ';' (by decide)).append (h.nil '\n' (by decide)))
  have hindexes : Quiet (Matches ps)
      ((indexedColumns t).flatMap fun c => (indexText s t c).toList) := by
    refine Quiet.flatMap fun c hm => ?_
    obtain ⟨xs, htext, hx⟩ := h.index (hi c hm)
    rw [htext]
    exact quiet_statement h hx
  exact hclose.append (hindexes.append (h.nil '\n' (by decide)))

theorem quiet_itemLines {items : List String} (hi : ∀ i ∈ items, Calm ps i.toList) :
    Quiet (Matches ps) (itemLines items).toList := by
  have hblank := h.nil ' ' (by decide)
  have hindent : Quiet (Matches ps) "    ".toList :=
    hblank.append (hblank.append (hblank.append hblank))
  induction items with
  | nil => exact .nil
  | cons item items ih =>
    obtain ⟨hitem, hrest⟩ := List.forall_mem_cons.1 hi
    cases items with
    | nil =>
      rw [toList_itemLines_singleton, itemLine, List.append_assoc]
      exact hindent.append (hitem '\n' (by decide))
    | cons next rest =>
      rw [toList_itemLines_cons, itemLine, List.append_assoc, List.append_assoc]
      have hline := (hitem ',' (by decide)).append ((h.nil '\n' (by decide)).append (ih hrest))
      rw [List.append_assoc] at hline
      exact hindent.append hline

theorem quiet_tableText {g : Graph} {t : Table} (hcreate : Calm ps "CREATE TABLE".toList)
    (hname : I (quote s t.name))
    (hitems : ∀ i ∈ items s g t (insideKeys s (keysOf g) t), ∀ p ∈ itemPieces s i, I p)
    (hi : ∀ c ∈ indexedColumns t, ∀ p ∈ indexPieces s t c, I p) :
    Quiet (Matches ps) (tableText s g (keysOf g) t).toList := by
  have hexists := h.word "IF NOT EXISTS" (by decide)
  have hheader : Calm ps ("CREATE TABLE".toList ++ headerOf s t) :=
    h.blank hcreate (h.blank hexists (h.blank (h.piece hname) h.nil))
  have hlines : Quiet (Matches ps) (itemLines (itemTexts s g t)).toList := by
    refine quiet_itemLines h fun text ht => ?_
    obtain ⟨i, hm, rfl⟩ := List.mem_map.1 ht
    exact h.item (hitems i hm) _
  have hbody := (h.nil '\n' (by decide)).append (hlines.append (quiet_afterTable h hi))
  have hall := (hheader '(' (by decide)).append hbody
  rw [toList_tableText, bodyOf]
  simpa only [List.append_assoc, List.cons_append, List.nil_append] using hall

end Quiet

/-! ## Tables -/

theorem solid_of_ends {ps : List Pattern}
    (h : ∀ parts, List.Forall₂ Pattern.Takes ps parts → OutsideEnds parts.flatten) : Solid ps :=
  solid_of_takes fun parts hp he => by
    obtain ⟨c, v, hv, -⟩ := (h parts hp).head
    rw [he] at hv
    cases hv

/-- The words of a table that begins on a line. -/
theorem matchAt?_createTable (rest : List Char) :
    matchAt? createTablePattern ⟨some '\n', "CREATE TABLE".toList ++ ' ' :: rest, 0⟩ =
      some ["CREATE TABLE".toList] :=
  rfl

section Tables

variable {s : Settings} {g : Graph}

variable (s g) in
/-- The first table behind quiet text. -/
theorem search?_table (t : Table) {before : Option Char} {xs : List Char}
    (hx : Quiet (Matches createTablePattern) xs) (hlast : xs.getLast?.or before = some '\n')
    (ys : List Char) :
    search? createTablePattern [] before 0 (xs ++ ((tableText s g (keysOf g) t).toList ++ ys)) =
      some (xs.reverse, ["CREATE TABLE".toList]) := by
  have hm := matchAt?_createTable ("IF NOT EXISTS ".toList ++ ((quote s t.name).toList ++ [' ']) ++
    '(' :: (bodyOf (itemTexts s g t) ++ ')' :: afterTable s t) ++ ys)
  have htext : (tableText s g (keysOf g) t).toList ++ ys = "CREATE TABLE".toList ++
      ' ' :: ("IF NOT EXISTS ".toList ++ ((quote s t.name).toList ++ [' ']) ++
        '(' :: (bodyOf (itemTexts s g t) ++ ')' :: afterTable s t) ++ ys) := by
    rw [toList_tableText, List.append_assoc]
    rfl
  rw [← htext] at hm
  rw [search?_append_of_passes [] 0 (hx before _), hlast, search?_shift, search?_of_matchAt hm]
  exact congrArg (fun passed => some (passed, _)) (List.append_nil _)

/-- **The tables that are found** in a script are its tables. -/
theorem hasTable_tables {tables : List Table} {before : Option Char} {xs ys : List Char}
    (hx : Quiet (Matches createTablePattern) xs) (hlast : xs.getLast?.or before = some '\n')
    (hy : Quiet (Matches createTablePattern) ys)
    (hafter : ∀ t ∈ tables, Quiet (Matches createTablePattern) (')' :: afterTable s t))
    (hlines : ∀ t ∈ tables, OnLines (itemTexts s g t)) {header body : List Char}
    (h : HasTable before
      (xs ++ (tables.flatMap (fun t => (tableText s g (keysOf g) t).toList) ++ ys)) header body) :
    ∃ t ∈ tables, header = headerOf s t ∧ body = bodyOf (itemTexts s g t) := by
  induction tables generalizing before xs with
  | nil =>
    have hnone : search? createTablePattern [] before 0 (xs ++ ys) = none :=
      search?_eq_none_of_passes (solid_of_ends fun _ => outsideEnds_createTable)
        ((hx.append hy) before [])
    rw [List.flatMap_nil, List.nil_append] at h
    cases h with
    | here words | behind words | skip words =>
      rw [hnone] at words
      cases words
  | cons t tables ih =>
    obtain ⟨hclose, hafter⟩ := List.forall_mem_cons.1 hafter
    obtain ⟨hitems, hlines⟩ := List.forall_mem_cons.1 hlines
    generalize hmore : tables.flatMap (fun t => (tableText s g (keysOf g) t).toList) ++ ys = more
      at ih
    have htext : xs ++
        ((t :: tables).flatMap (fun t => (tableText s g (keysOf g) t).toList) ++ ys) =
          xs ++ ((tableText s g (keysOf g) t).toList ++ more) := by
      rw [List.flatMap_cons, List.append_assoc, hmore]
    rw [htext] at h
    have hs := search?_table s g t hx hlast more
    have ho := splitOpen?_headerOf s t (bodyOf (itemTexts s g t) ++ ')' :: (afterTable s t ++ more))
    have hdrop : (xs ++ ((tableText s g (keysOf g) t).toList ++ more)).drop
        (xs.reverse.length + ["CREATE TABLE".toList].flatten.length) =
          headerOf s t ++ '(' :: (bodyOf (itemTexts s g t) ++ ')' :: (afterTable s t ++ more)) := by
      rw [toList_tableText, List.length_reverse, List.flatten_singleton, List.append_assoc,
        List.drop_length_add_append, List.drop_left]
      simp only [List.append_assoc, List.cons_append]
    rw [← hdrop] at ho
    rcases (hasTable_iff_of_list hs ho).1 h with ⟨rfl, rfl⟩ | hbehind
    · refine ⟨t, .head _, List.reverse_reverse _, ?_⟩
      rw [splitClose_bodyOf hitems, List.reverse_reverse]
    · rw [splitClose_bodyOf hitems, ← List.cons_append] at hbehind
      have hend : (')' :: afterTable s t).getLast?.or none = some '\n' := by
        rw [afterTable, ← List.cons_append, ← List.cons_append, ← List.cons_append,
          List.getLast?_concat, Option.or_none]
      obtain ⟨u, hu, hfound⟩ := ih hclose hend hafter hlines hbehind
      exact ⟨u, .tail _ hu, hfound⟩

end Tables

end DdlGraph.Repair
