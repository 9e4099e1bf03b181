import DdlGraph.Proofs.LetterCase
import DdlGraph.Proofs.StatementText

/-!
# Names of indexes

The name of an index is put together of two slugs, and a slug of the words of a name: its longest
runs of letters and numbers, in small letters (`toList_slug`). Where the words of the table end and
those of the column begin cannot be told from the name, and nothing looks for another one when it
is in use, as is done for the names of constraints. So two indexes of a text have the same name just
if the words of their tables and columns, one after the other, are the same.

* `toList_slug`: a slug by the words of its name;
* `indexName_inj_iff`: when two indexes have the same name;
* `script_eq_written`: a text as the list of what is written in it;
* `nodup_indexNames_iff`: when the names of all indexes of a text differ.
-/

namespace DdlGraph

open Text

/-! ## Words of a name -/

/-- The longest runs of letters and numbers, in small letters. -/
def runsOf (cs : List Char) : List (List Char) :=
  ((cs.splitOnP fun c => !isAlnum c).filter fun run => !run.isEmpty).map (·.flatMap lowerChar)

/-- **The words of a name**; a name without any is `unnamed`. -/
def nameWords (name : String) : List (List Char) :=
  if runsOf name.toList = [] then ["unnamed".toList] else runsOf name.toList

theorem unmade_underscore : Unmade '_' :=
  ⟨by decide, by decide, by decide, by decide +kernel⟩

theorem lowerChar_ne_nil (c : Char) : lowerChar c ≠ [] := by
  unfold lowerChar
  split
  · exact List.cons_ne_nil _ _
  · split <;> exact List.cons_ne_nil _ _

theorem underscore_not_mem_lowerChar {c : Char} (h : isAlnum c = true) : '_' ∉ lowerChar c := by
  refine unmade_underscore.not_mem_lowerChar ?_
  rintro rfl
  exact absurd h (by decide)

/-- A word can stand between underscores. -/
def IsWord (word : List Char) : Prop :=
  word ≠ [] ∧ '_' ∉ word

theorem isWord_flatMap {run : List Char} (hne : run ≠ []) (h : ∀ c ∈ run, isAlnum c = true) :
    IsWord (run.flatMap lowerChar) := by
  constructor
  · obtain ⟨c, rest, rfl⟩ := List.exists_cons_of_ne_nil hne
    rw [List.flatMap_cons]
    exact List.append_ne_nil_of_left_ne_nil (lowerChar_ne_nil c) _
  · intro hm
    obtain ⟨c, hc, hlower⟩ := List.mem_flatMap.1 hm
    exact underscore_not_mem_lowerChar (h c hc) hlower

/-- What stands between separators holds none. -/
theorem not_of_mem_splitOnP {α : Type} {p : α → Bool} {xs piece : List α}
    (h : piece ∈ xs.splitOnP p) : ∀ x ∈ piece, p x = false := by
  induction xs generalizing piece with
  | nil =>
    rw [List.splitOnP_nil, List.mem_singleton] at h
    subst h
    exact nofun
  | cons x xs ih =>
    rw [List.splitOnP_cons_eq_if_modifyHead] at h
    split at h
    · rcases List.mem_cons.1 h with rfl | h
      · exact nofun
      · exact ih h
    · rename_i hx
      obtain ⟨first, rest, hsplit⟩ := List.exists_cons_of_ne_nil (List.splitOnP_ne_nil p xs)
      rw [hsplit] at h ih
      rcases List.mem_cons.1 h with rfl | h
      · intro y hy
        rcases List.mem_cons.1 hy with rfl | hy
        · simpa using hx
        · exact ih (.head _) y hy
      · exact ih (.tail _ h)

theorem isWord_of_mem_runsOf {cs word : List Char} (h : word ∈ runsOf cs) : IsWord word := by
  obtain ⟨run, hrun, rfl⟩ := List.mem_map.1 h
  obtain ⟨hsplit, hne⟩ := List.mem_filter.1 hrun
  refine isWord_flatMap (by simpa using hne) fun c hc => ?_
  simpa using not_of_mem_splitOnP hsplit c hc

theorem isWord_of_mem_nameWords {name : String} {word : List Char} (h : word ∈ nameWords name) :
    IsWord word := by
  unfold nameWords at h
  split at h
  · rw [List.mem_singleton] at h
    subst h
    exact ⟨by decide, by decide⟩
  · exact isWord_of_mem_runsOf h

theorem nameWords_ne_nil (name : String) : nameWords name ≠ [] := by
  unfold nameWords
  split
  · exact List.cons_ne_nil _ _
  · assumption

/-! ## Words with underscores between them -/

/-- Words with underscores between them. -/
def underscored (words : List (List Char)) : List Char :=
  ['_'].intercalate words

theorem underscored_cons (word : List Char) (words : List (List Char)) :
    underscored (word :: words) = word ++ words.flatMap ('_' :: ·) := by
  unfold underscored
  induction words generalizing word with
  | nil => simp
  | cons next words ih =>
    rw [List.intercalate_cons_of_ne_nil (List.cons_ne_nil _ _), ih, List.flatMap_cons]
    simp

theorem underscored_append {words more : List (List Char)} (h : words ≠ []) (h' : more ≠ []) :
    underscored (words ++ more) = underscored words ++ '_' :: underscored more := by
  obtain ⟨word, words, rfl⟩ := List.exists_cons_of_ne_nil h
  obtain ⟨next, more, rfl⟩ := List.exists_cons_of_ne_nil h'
  rw [List.cons_append, underscored_cons, underscored_cons, underscored_cons, List.flatMap_append,
    List.flatMap_cons]
  simp

/-- The words are found again. -/
theorem underscored_inj {words words' : List (List Char)} (hw : ∀ w ∈ words, IsWord w)
    (hw' : ∀ w ∈ words', IsWord w) (hne : words ≠ []) (hne' : words' ≠ [])
    (h : underscored words = underscored words') : words = words' := by
  have hsplit := congrArg (List.splitOn '_') h
  unfold underscored at hsplit
  rwa [List.splitOn_intercalate '_' (fun w hm => (hw w hm).2) hne,
    List.splitOn_intercalate '_' (fun w hm => (hw' w hm).2) hne'] at hsplit

/-! ## Slugs -/

/-- What a slug writes for a text; `gap` says that an underscore stands in front of it. -/
def slugFrom (gap : Bool) : List Char → List Char
  | [] => []
  | c :: cs =>
    if isAlnum c then lowerChar c ++ slugFrom false cs
    else if gap then slugFrom true cs
    else '_' :: slugFrom true cs

theorem slugFrom_cons (gap : Bool) (c : Char) (cs : List Char) :
    slugFrom gap (c :: cs) = if isAlnum c then lowerChar c ++ slugFrom false cs
      else if gap then slugFrom true cs else '_' :: slugFrom true cs :=
  rfl

theorem reverse_foldl_slugStep (out cs : List Char) :
    (cs.foldl slugStep out).reverse =
      out.reverse ++ slugFrom (decide (out.head? = some '_')) cs := by
  induction cs generalizing out with
  | nil => simp [slugFrom]
  | cons c cs ih =>
    rw [List.foldl_cons, ih, slugFrom_cons]
    unfold slugStep
    by_cases hc : isAlnum c = true
    · have hhead : ((lowerChar c).reverse ++ out).head? ≠ some '_' := by
        have hmem := underscore_not_mem_lowerChar hc
        rw [List.head?_append_of_ne_nil _ (by simpa using lowerChar_ne_nil c), List.head?_reverse]
        exact fun hlast => hmem (List.mem_of_getLast? hlast)
      rw [if_pos hc, if_pos hc, decide_eq_false hhead]
      simp
    · rw [if_neg hc, if_neg hc]
      by_cases hgap : out.head? = some '_'
      · rw [if_pos hgap, decide_eq_true hgap]
        simp
      · rw [if_neg hgap, decide_eq_false hgap]
        simp

/-- What may be left behind the last word. -/
def IsTail (rest : List Char) : Prop :=
  rest = [] ∨ rest = ['_']

/-- What a slug writes for a text that is split at everything between its words: behind a word
(`inside`), the rest of that word and then the others, and behind an underscore (`outside`) the
words. -/
structure WritesRuns (cs : List Char) : Prop where
  inside : ∃ run runs rest, cs.splitOnP (fun c => !isAlnum c) = run :: runs ∧ IsTail rest ∧
    slugFrom false cs = run.flatMap lowerChar ++
      (((runs.filter fun r => !r.isEmpty).map (·.flatMap lowerChar)).flatMap ('_' :: ·) ++ rest)
  outside : ∃ rest, IsTail rest ∧ (runsOf cs = [] → rest = []) ∧
    slugFrom true cs = underscored (runsOf cs) ++ rest

theorem writesRuns (cs : List Char) : WritesRuns cs := by
  induction cs with
  | nil => exact ⟨⟨[], [], [], rfl, .inl rfl, rfl⟩, ⟨[], .inl rfl, fun _ => rfl, rfl⟩⟩
  | cons c cs ih =>
    by_cases hc : isAlnum c = true
    · obtain ⟨run, runs, rest, hsplit, hrest, hwrites⟩ := ih.inside
      have hcons : (c :: cs).splitOnP (fun c => !isAlnum c) = (c :: run) :: runs := by
        rw [List.splitOnP_cons_eq_if_modifyHead, hsplit]
        simp [hc]
      have hslug : ∀ gap, slugFrom gap (c :: cs) = (c :: run).flatMap lowerChar ++
          (((runs.filter fun r => !r.isEmpty).map (·.flatMap lowerChar)).flatMap ('_' :: ·) ++
            rest) := by
        intro gap
        rw [slugFrom_cons, if_pos hc, hwrites, List.flatMap_cons, List.append_assoc]
      have hruns : runsOf (c :: cs) = (c :: run).flatMap lowerChar ::
          (runs.filter fun r => !r.isEmpty).map (·.flatMap lowerChar) := by
        unfold runsOf
        rw [hcons]
        rfl
      refine ⟨⟨_, runs, rest, hcons, hrest, hslug false⟩, rest, hrest, fun h => ?_, ?_⟩
      · rw [hruns] at h
        exact absurd h (List.cons_ne_nil _ _)
      · rw [hslug true, hruns, underscored_cons, List.append_assoc]
    · obtain ⟨rest, hrest, hnil, hwrites⟩ := ih.outside
      have hcons : (c :: cs).splitOnP (fun c => !isAlnum c) =
          [] :: cs.splitOnP fun c => !isAlnum c := by
        rw [List.splitOnP_cons_eq_if_modifyHead, if_pos (by simpa using hc)]
      have hruns : runsOf (c :: cs) = runsOf cs := by
        unfold runsOf
        rw [hcons]
        rfl
      constructor
      · have hslug : slugFrom false (c :: cs) = '_' :: (underscored (runsOf cs) ++ rest) := by
          rw [slugFrom_cons, if_neg hc, if_neg Bool.false_ne_true, hwrites]
        have hwords : ((cs.splitOnP fun c => !isAlnum c).filter fun r => !r.isEmpty).map
            (·.flatMap lowerChar) = runsOf cs := rfl
        cases hwritten : runsOf cs with
        | nil =>
          refine ⟨[], _, ['_'], hcons, .inr rfl, ?_⟩
          rw [hslug, hwords, hwritten, hnil hwritten]
          rfl
        | cons word words =>
          refine ⟨[], _, rest, hcons, hrest, ?_⟩
          rw [hslug, hwords, hwritten, underscored_cons, List.flatMap_cons]
          simp
      · refine ⟨rest, hrest, hruns ▸ hnil, ?_⟩
        rw [slugFrom_cons, if_neg hc, if_pos rfl, hwrites, hruns]

theorem IsTail.reverse {rest : List Char} (h : IsTail rest) : IsTail rest.reverse := by
  rcases h with rfl | rfl
  · exact .inl rfl
  · exact .inr rfl

theorem IsTail.dropWhile_append {rest cs : List Char} (h : IsTail rest)
    (hcs : cs.head? ≠ some '_') : (rest ++ cs).dropWhile (· == '_') = cs := by
  have hstop : cs.dropWhile (· == '_') = cs := by
    cases cs with
    | nil => rfl
    | cons c cs =>
      have hc : c ≠ '_' := fun he => hcs (congrArg some he)
      rw [List.dropWhile_cons, if_neg (by simpa using hc)]
  rcases h with rfl | rfl
  · exact hstop
  · exact hstop

theorem IsWord.head? {word : List Char} (h : IsWord word) (rest : List Char) :
    (word ++ rest).head? ≠ some '_' := by
  rw [List.head?_append_of_ne_nil _ h.1]
  exact fun hhead => h.2 (List.mem_of_head? hhead)

/-- Underscores at both ends are no part of the words. -/
theorem trim_underscored {words : List (List Char)} (hw : ∀ w ∈ words, IsWord w)
    (hne : words ≠ []) {front rest : List Char} (hf : IsTail front) (hr : IsTail rest) :
    (((front ++ (underscored words ++ rest)).reverse.dropWhile (· == '_')).reverse).dropWhile
      (· == '_') = underscored words := by
  have hfirst : (underscored words).head? ≠ some '_' := by
    obtain ⟨word, words, rfl⟩ := List.exists_cons_of_ne_nil hne
    rw [underscored_cons]
    exact (hw word (.head _)).head? _
  have hlast : ((underscored words).reverse ++ front.reverse).head? ≠ some '_' := by
    obtain rfl | ⟨init, word, rfl⟩ := List.eq_nil_or_concat words
    · exact absurd rfl hne
    · have hword := hw word (by simp)
      have hreverse : IsWord word.reverse := ⟨by simpa using hword.1, by simpa using hword.2⟩
      have hone : underscored [word] = word := by rw [underscored_cons]; simp
      cases init with
      | nil =>
        rw [List.concat_eq_append, List.nil_append, hone]
        exact hreverse.head? _
      | cons w init =>
        rw [List.concat_eq_append, underscored_append (List.cons_ne_nil _ _)
          (List.cons_ne_nil _ _), hone, List.reverse_append, List.reverse_cons, List.append_assoc,
          List.append_assoc]
        exact hreverse.head? _
  rw [List.reverse_append, List.reverse_append, List.append_assoc,
    hr.reverse.dropWhile_append hlast, List.reverse_append, List.reverse_reverse,
    List.reverse_reverse, hf.dropWhile_append hfirst]

/-- **A slug is made of the words of its name**, with underscores between them. -/
theorem toList_slug (name : String) : (slug name).toList = underscored (nameWords name) := by
  obtain ⟨rest, hrest, hnil, hwrites⟩ := (writesRuns name.toList).outside
  have hfold : (name.toList.foldl slugStep []).reverse = slugFrom false name.toList :=
    reverse_foldl_slugStep [] name.toList
  have hgap : ∃ front, IsTail front ∧
      slugFrom false name.toList = front ++ (underscored (runsOf name.toList) ++ rest) := by
    rw [← hwrites]
    cases name.toList with
    | nil => exact ⟨[], .inl rfl, rfl⟩
    | cons c cs =>
      rw [slugFrom_cons, slugFrom_cons]
      by_cases hc : isAlnum c = true
      · exact ⟨[], .inl rfl, by rw [if_pos hc, if_pos hc, List.nil_append]⟩
      · exact ⟨['_'], .inr rfl, by rw [if_neg hc, if_neg hc]; rfl⟩
  obtain ⟨front, hfront, hslug⟩ := hgap
  have hbackwards : name.toList.foldl slugStep [] =
      (front ++ (underscored (runsOf name.toList) ++ rest)).reverse := by
    rw [← hslug, ← hfold, List.reverse_reverse]
  unfold slug nameWords
  dsimp only
  rw [hbackwards]
  by_cases hruns : runsOf name.toList = []
  · rw [if_pos hruns, hruns, hnil hruns]
    rcases hfront with rfl | rfl <;> rfl
  · rw [if_neg hruns, trim_underscored (fun w => isWord_of_mem_runsOf) hruns hfront hrest]
    have hne : (underscored (runsOf name.toList)).isEmpty = false := by
      obtain ⟨word, words, heq⟩ := List.exists_cons_of_ne_nil hruns
      rw [heq, underscored_cons, List.isEmpty_eq_false_iff]
      have hword : word ∈ runsOf name.toList := by rw [heq]; exact .head _
      exact List.append_ne_nil_of_left_ne_nil (isWord_of_mem_runsOf hword).1 _
    rw [hne, if_neg Bool.false_ne_true, String.toList_ofList]

namespace Ddl

/-! ## Names of indexes -/

theorem toList_indexName (t : Table) (c : Column) : (indexName t c).toList =
    "idx_".toList ++ underscored (nameWords t.name ++ nameWords c.title) := by
  unfold indexName
  rw [underscored_append (nameWords_ne_nil _) (nameWords_ne_nil _), ← toList_slug, ← toList_slug]
  simp

/-- **Two indexes have the same name** just if the words of their tables and columns are the same,
wherever those of the table end. -/
theorem indexName_inj_iff {t t' : Table} {c c' : Column} : indexName t c = indexName t' c' ↔
    nameWords t.name ++ nameWords c.title = nameWords t'.name ++ nameWords c'.title := by
  have hwords : ∀ (t : Table) (c : Column), ∀ w ∈ nameWords t.name ++ nameWords c.title,
      IsWord w := fun t c w hw =>
    (List.mem_append.1 hw).elim isWord_of_mem_nameWords isWord_of_mem_nameWords
  have hne : ∀ (t : Table) (c : Column), nameWords t.name ++ nameWords c.title ≠ [] := fun t c =>
    List.append_ne_nil_of_left_ne_nil (nameWords_ne_nil _) _
  rw [← String.toList_inj, toList_indexName, toList_indexName, List.append_cancel_left_eq]
  exact ⟨underscored_inj (hwords t c) (hwords t' c') (hne t c) (hne t' c'), congrArg underscored⟩

/-! ## What is written in a text -/

/-- A part of the text of a graph: a statement, a blank line or the line before the keys. -/
inductive Written where
  | blank
  | enum (e : Enumeration)
  | table (t : Table)
  | index (t : Table) (c : Column)
  | keyMark
  | key (name : String) (k : KeySpec)

/-- `CREATE TABLE`, without the indexes. -/
def definitionText (s : Settings) (g : Graph) (t : Table) : String :=
  let inside := if inlinesKeys s then (keysOf g).filter (·.sourceTable == t.name) else []
  "CREATE TABLE IF NOT EXISTS " ++ quote s t.name ++ " (\n" ++
    itemLines ((items s g t inside).map (Item.text s (nameWidth s t))) ++ ");\n"

def Written.text (s : Settings) (g : Graph) : Written → String
  | blank => "\n"
  | enum e => enumText s e
  | table t => definitionText s g t
  | index t c => indexText s t c
  | keyMark => keySectionMark ++ "\n"
  | key name k => addKeyText s name k

/-- The column that an index is written for, with its table. -/
def Written.index? : Written → Option (Table × Column)
  | index t c => some (t, c)
  | _ => none

/-- **What is written in the text of a graph**, behind its header. -/
def written (s : Settings) (g : Graph) : List Written :=
  (if s.dialect = .postgresql ∧ !g.enums.isEmpty then g.enums.map .enum ++ [.blank] else []) ++
    (g.tables.flatMap fun t => .table t :: ((indexedColumns t).map (.index t) ++ [.blank])) ++
    (if inlinesKeys s || (keysOf g).isEmpty then []
      else .keyMark :: (constraintNames [] (keysOf g)).map fun nk => .key nk.1 nk.2)

theorem join_append (texts more : List String) :
    Text.join "" (texts ++ more) = Text.join "" texts ++ Text.join "" more := by
  rw [← String.toList_inj, String.toList_append, toList_join_empty, toList_join_empty,
    toList_join_empty, List.flatMap_append]

theorem join_cons (text : String) (texts : List String) :
    Text.join "" (text :: texts) = text ++ Text.join "" texts := by
  rw [← String.toList_inj, String.toList_append, toList_join_empty, toList_join_empty,
    List.flatMap_cons]

theorem tableText_eq_written (s : Settings) (g : Graph) (t : Table) :
    tableText s g (keysOf g) t = Text.join ""
      ((.table t :: ((indexedColumns t).map (.index t) ++ [.blank])).map (Written.text s g)) := by
  have hend : Text.join "" ([Written.blank].map (Written.text s g)) = "\n" :=
    String.intercalate_singleton
  rw [List.map_cons, join_cons, List.map_append, join_append, List.map_map, hend,
    ← String.append_assoc]
  rfl

/-- **A text is what is written in it**, behind its header. -/
theorem script_eq_written (s : Settings) (time : String) (g : Graph) :
    script s time g = header s time ++ Text.join "" ((written s g).map (Written.text s g)) := by
  have henums : enumSection s g = Text.join "" ((if s.dialect = .postgresql ∧ !g.enums.isEmpty then
      g.enums.map .enum ++ [.blank] else []).map (Written.text s g)) := by
    unfold enumSection
    split
    · rw [List.map_append, join_append, List.map_map]
      rfl
    · rfl
  have htables : Text.join "" (g.tables.map (tableText s g (keysOf g))) = Text.join ""
      ((g.tables.flatMap fun t => .table t :: ((indexedColumns t).map (.index t) ++
        [.blank])).map (Written.text s g)) := by
    induction g.tables with
    | nil => rfl
    | cons t ts ih =>
      rw [List.map_cons, join_cons, ih, tableText_eq_written, List.flatMap_cons, List.map_append,
        join_append]
  have hkeys : keySection s (keysOf g) = Text.join ""
      ((if inlinesKeys s || (keysOf g).isEmpty then [] else
        .keyMark :: (constraintNames [] (keysOf g)).map fun nk => .key nk.1 nk.2).map
          (Written.text s g)) := by
    unfold keySection
    split
    · rfl
    · rw [List.map_cons, join_cons, List.map_map]
      rfl
  unfold script written
  dsimp only
  rw [List.map_append, List.map_append, join_append, join_append, ← henums, ← htables, ← hkeys]
  simp only [String.append_assoc]

/-- An index is written for each column that has one, table by table. -/
theorem index?_written (s : Settings) (g : Graph) : (written s g).filterMap Written.index? =
    g.tables.flatMap fun t => (indexedColumns t).map (t, ·) := by
  have htable : ∀ t : Table, (Written.table t :: ((indexedColumns t).map (.index t) ++
      [.blank])).filterMap Written.index? = (indexedColumns t).map (t, ·) := fun t => by
    rw [List.filterMap_cons_none rfl, List.filterMap_append, List.filterMap_map,
      ← List.filterMap_eq_map]
    exact List.append_nil _
  have henums : ∀ w ∈ (if s.dialect = .postgresql ∧ !g.enums.isEmpty then
      g.enums.map Written.enum ++ [.blank] else []), w.index? = none := by
    split
    · intro w hw
      rcases List.mem_append.1 hw with hw | hw
      · obtain ⟨e, -, rfl⟩ := List.mem_map.1 hw
        rfl
      · cases List.mem_singleton.1 hw
        rfl
    · exact nofun
  have hkeys : ∀ w ∈ (if inlinesKeys s || (keysOf g).isEmpty then [] else
      Written.keyMark :: (constraintNames [] (keysOf g)).map fun nk => .key nk.1 nk.2),
        w.index? = none := by
    split
    · exact nofun
    · intro w hw
      rcases List.mem_cons.1 hw with rfl | hw
      · rfl
      · obtain ⟨nk, -, rfl⟩ := List.mem_map.1 hw
        rfl
  unfold written
  rw [List.filterMap_append, List.filterMap_append, List.filterMap_eq_nil_iff.2 henums,
    List.filterMap_eq_nil_iff.2 hkeys, List.filterMap_flatMap, List.nil_append, List.append_nil]
  exact List.flatMap_congr fun t _ => htable t

/-- **When the names of all indexes of a text differ**: just if no two columns that have an index
come to the same words with their tables. An index is written for each column that has one and is
not primary. -/
theorem nodup_indexNames_iff (s : Settings) (time : String) (g : Graph) :
    script s time g = header s time ++ Text.join "" ((written s g).map (Written.text s g)) ∧
      (written s g).filterMap Written.index? =
        g.tables.flatMap (fun t => (indexedColumns t).map (t, ·)) ∧
      ((((written s g).filterMap Written.index?).map fun p => indexName p.1 p.2).Nodup ↔
        (g.tables.flatMap fun t => (indexedColumns t).map (t, ·)).Pairwise fun p q =>
          nameWords p.1.name ++ nameWords p.2.title ≠
            nameWords q.1.name ++ nameWords q.2.title) := by
  refine ⟨script_eq_written s time g, index?_written s g, ?_⟩
  rw [index?_written, List.Nodup, List.pairwise_map]
  exact List.Pairwise.iff fun p q => not_congr indexName_inj_iff

/-- The words of a table may go on in its column: both indexes are called `idx_a_b_c`, and the
second is not made. -/
theorem nodup_indexNames_underscores :
    let g : Graph :=
      { tables :=
          [{ id := "t1", name := "a"
             columns := [{ title := "b_c", dataType := "int", constraints := [.index] }] },
           { id := "t2", name := "a_b"
             columns := [{ title := "c", dataType := "int", constraints := [.index] }] }] }
    script {} "now" g =
        "-- Generated by schemasync\n-- Dialect: postgresql\n-- Generated at: now\n\n" ++
        "CREATE TABLE IF NOT EXISTS \"a\" (\n    \"b_c\" INT\n);\n" ++
        "CREATE INDEX IF NOT EXISTS \"idx_a_b_c\" ON \"a\" (\"b_c\");\n\n" ++
        "CREATE TABLE IF NOT EXISTS \"a_b\" (\n    \"c\" INT\n);\n" ++
        "CREATE INDEX IF NOT EXISTS \"idx_a_b_c\" ON \"a_b\" (\"c\");\n\n" ∧
      ¬ (((written {} g).filterMap Written.index?).map fun p => indexName p.1 p.2).Nodup := by
  intro g
  exact ⟨by decide +kernel, by decide +kernel⟩

end Ddl

end DdlGraph
