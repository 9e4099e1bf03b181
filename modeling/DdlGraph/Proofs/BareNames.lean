import DdlGraph.Proofs.ComposedText
import Mathlib.Data.List.TakeWhile

/-!
# Bare names of one word

Repairs take the bare words at the start of a definition for a name, up to the first word that names
a type. In a column that was written, the words behind the name are its type and its clauses. A
clause begins with a keyword, which ends the search (`EndsName`), so whether a name of several words
is found depends on the type alone (`OneName`).

* `TypeWords.nameUpToType?_append`: what ends a name can be left out;
* `TypeWords.nameUpToType?_plain`: a bare name of one word, and a blank;
* `exists_clauses_text`: a column behind its name is its type and clauses;
* `severalWords?_column`, `severalWords?_key`: no item begins with a name of several bare words.
-/

namespace DdlGraph.Repair

open DdlGraph.Text DdlGraph.Sql DdlGraph.Ddl

/-! ## Words in front of a text -/

/-- A run of a class does not go on in a text that begins with no character of it. -/
theorem takeWhile_append_of_head {p : Char → Bool} {tail : List Char}
    (ht : ∀ c ∈ tail.head?, p c = false) (cs : List Char) :
    (cs ++ tail).takeWhile p = cs.takeWhile p ∧
      (cs ++ tail).dropWhile p = cs.dropWhile p ++ tail := by
  induction cs with
  | nil =>
    cases tail with
    | nil => exact ⟨rfl, rfl⟩
    | cons c tail =>
      have hc : ¬p c = true := Bool.eq_false_iff.1 (ht c rfl)
      exact ⟨List.takeWhile_cons_of_neg hc, List.dropWhile_cons_of_neg hc⟩
  | cons c cs ih =>
    rw [List.cons_append, List.takeWhile_cons, List.takeWhile_cons, List.dropWhile_cons,
      List.dropWhile_cons]
    split
    · exact ⟨congrArg (c :: ·) ih.1, ih.2⟩
    · exact ⟨rfl, rfl⟩

theorem notInline_of_notBlank {c : Char} (h : isBlank c = false) : isInlineBlank c = false := by
  rw [Bool.eq_false_iff]
  intro hi
  have hb := isBlank_of_isInlineBlank hi
  rw [h] at hb
  cases hb

namespace TypeWords

theorem splitWord?_append {cs tail : List Char} (ht : ∀ c ∈ tail.head?, isWord c = false)
    (hne : cs ≠ []) :
    splitWord? (cs ++ tail) = (splitWord? cs).map fun r => (r.1, r.2 ++ tail) := by
  obtain ⟨c, cs, rfl⟩ := List.exists_cons_of_ne_nil hne
  obtain ⟨htake, hdrop⟩ := takeWhile_append_of_head ht cs
  rw [List.cons_append, splitWord?, splitWord?, htake, hdrop]
  split <;> rfl

theorem ne_nil_of_splitWord {cs word rest : List Char} (h : splitWord? cs = some (word, rest)) :
    cs ≠ [] := by
  rintro rfl
  cases h

/-! ## The end of a name -/

variable (types : TypeWords)

/-- The next word is neither a part of a name nor a type. -/
def NoNextWord (cs : List Char) : Prop :=
  ∀ word rest, splitWord? (cs.dropWhile isInlineBlank) = some (word, rest) →
    isPlainIdentifier (.ofList word) = false ∧ types.holds (.ofList word) = false

/-- **What ends a name**: the word before it does not go on, and no other one follows. -/
structure EndsName (cs : List Char) : Prop where
  edge : ∀ c ∈ cs.head?, isWord c = false
  next : types.NoNextWord cs

variable {types}

theorem NoNextWord.nameUpToType? {cs : List Char} (h : types.NoNextWord cs) (count : Nat)
    (name : List Char) : types.nameUpToType? count name cs = none := by
  rw [TypeWords.nameUpToType?]
  split
  · rfl
  · split
    · rfl
    · rename_i word rest hs
      obtain ⟨hplain, hholds⟩ := h word rest hs
      rw [hholds, hplain, if_neg fun hc => Bool.false_ne_true hc.2, if_neg Bool.false_ne_true]

/-- No name begins with a word that is none. -/
theorem nameUpToType?_notPlain {cs : List Char}
    (h : ∀ word rest, splitWord? (cs.dropWhile isInlineBlank) = some (word, rest) →
      isPlainIdentifier (.ofList word) = false) (name : List Char) :
    types.nameUpToType? 0 name cs = none := by
  rw [TypeWords.nameUpToType?, if_neg fun hc => Nat.lt_irrefl 0 hc.1]
  split
  · rfl
  · rename_i word rest hs
    rw [h word rest hs, if_neg fun hc => Nat.lt_irrefl 0 hc.1, if_neg Bool.false_ne_true]

/-- One step of reading a name, in front of what ends it. -/
theorem nameUpToType?_step {rest tail : List Char} (ht : types.EndsName tail)
    (hne : rest.dropWhile isInlineBlank ≠ []) (count : Nat) (name : List Char) :
    types.nameUpToType? count name (rest ++ tail) =
      if 0 < count ∧ (rest.takeWhile isInlineBlank).isEmpty then none
      else match splitWord? (rest.dropWhile isInlineBlank) with
        | none => none
        | some (word, rest') =>
          if 0 < count ∧ types.holds (.ofList word) then
            if 2 ≤ count then some (name, rest ++ tail) else none
          else if isPlainIdentifier (.ofList word) then
            types.nameUpToType? (count + 1) (name ++ rest.takeWhile isInlineBlank ++ word)
              (rest' ++ tail)
          else none := by
  have hdrop : (rest ++ tail).dropWhile isInlineBlank = rest.dropWhile isInlineBlank ++ tail := by
    rw [List.dropWhile_append, if_neg (by rwa [List.isEmpty_iff])]
  have htake : (rest ++ tail).takeWhile isInlineBlank = rest.takeWhile isInlineBlank := by
    rw [List.takeWhile_append, if_neg]
    intro hlen
    have hall := (List.takeWhile_prefix isInlineBlank (l := rest)).eq_of_length hlen
    exact hne (List.dropWhile_eq_nil_iff.2 (List.takeWhile_eq_self_iff.1 hall))
  have hsplit := splitWord?_append ht.edge hne
  rw [nameUpToType?, htake]
  split
  · rfl
  · split
    · rename_i hs
      rw [hdrop, hsplit, Option.map_eq_none_iff] at hs
      rw [hs]
    · rename_i word rest' hs
      rw [hdrop, hsplit] at hs
      obtain ⟨⟨word', rest''⟩, hs', he⟩ := Option.map_eq_some_iff.1 hs
      cases he
      rw [hs']

/-- **No name of several words goes on behind what ends it.** -/
theorem nameUpToType?_append {tail : List Char} (ht : types.EndsName tail) {count : Nat}
    {name rest : List Char} (h : types.nameUpToType? count name rest = none) (name' : List Char) :
    types.nameUpToType? count name' (rest ++ tail) = none := by
  have hblank : ∀ {count name rest}, rest.dropWhile isInlineBlank = [] →
      types.nameUpToType? count name (rest ++ tail) = none := by
    refine fun {count name rest} hne => NoNextWord.nameUpToType? (fun word more hs => ?_) count name
    rw [List.dropWhile_append_of_pos (List.dropWhile_eq_nil_iff.1 hne)] at hs
    exact ht.next word more hs
  fun_induction TypeWords.nameUpToType? types count name rest generalizing name' with
  | case1 count name rest blanks hc =>
    by_cases hne : rest.dropWhile isInlineBlank = []
    · exact hblank hne
    · rw [nameUpToType?_step ht hne, if_pos hc]
  | case2 count name rest blanks hc hs =>
    by_cases hne : rest.dropWhile isInlineBlank = []
    · exact hblank hne
    · rw [nameUpToType?_step ht hne, if_neg hc, hs]
  | case3 => cases h
  | case4 count name rest blanks hc word rest' hs hholds htwo =>
    rw [nameUpToType?_step ht (ne_nil_of_splitWord hs), if_neg hc, hs]
    simp only [if_pos hholds, if_neg htwo]
  | case5 count name rest blanks hc word rest' hs hholds hplain ih =>
    rw [nameUpToType?_step ht (ne_nil_of_splitWord hs), if_neg hc, hs]
    simp only [if_neg hholds, if_pos hplain]
    exact ih h _
  | case6 count name rest blanks hc word rest' hs hholds hplain =>
    rw [nameUpToType?_step ht (ne_nil_of_splitWord hs), if_neg hc, hs]
    simp only [if_neg hholds, if_neg hplain]

/-- Names of several words are not told by the name read so far. -/
theorem nameUpToType?_name {count : Nat} {name rest : List Char}
    (h : types.nameUpToType? count name rest = none) (name' : List Char) :
    types.nameUpToType? count name' rest = none := by
  have hnil : types.EndsName [] := ⟨nofun, nofun⟩
  have happ := nameUpToType?_append hnil h name'
  rwa [List.append_nil] at happ

/-- More blanks stand between two words. -/
theorem nameUpToType?_blanks {count : Nat} {name rest : List Char}
    (h : types.nameUpToType? count name (' ' :: rest) = none) (n : Nat) :
    types.nameUpToType? count name (' ' :: (List.replicate n ' ' ++ rest)) = none := by
  induction n with
  | zero => exact h
  | succ n ih =>
    rw [List.replicate_succ, List.cons_append]
    generalize List.replicate n ' ' ++ rest = rest at ih
    have hdrop : (' ' :: ' ' :: rest).dropWhile isInlineBlank =
        (' ' :: rest).dropWhile isInlineBlank := rfl
    have hblank : ∀ cs : List Char,
        ¬(0 < count ∧ ((' ' :: cs).takeWhile isInlineBlank).isEmpty = true) :=
      fun cs hc => Bool.false_ne_true hc.2
    rw [nameUpToType?, if_neg (hblank _)] at ih ⊢
    rw [hdrop]
    split at ih
    · rfl
    · split at ih
      · rename_i hholds
        rw [if_pos hholds]
        split at ih
        · cases ih
        · rename_i htwo
          rw [if_neg htwo]
      · rename_i hholds
        rw [if_neg hholds]
        split at ih
        · rename_i hplain
          rw [if_pos hplain]
          exact nameUpToType?_name ih _
        · rename_i hplain
          rw [if_neg hplain]

theorem nameUpToType?_noBlank {c : Char} (hc : isInlineBlank c = false) (count : Nat)
    (name rest : List Char) : types.nameUpToType? (count + 1) name (c :: rest) = none := by
  rw [TypeWords.nameUpToType?, List.takeWhile_cons_of_neg (Bool.eq_false_iff.1 hc),
    if_pos ⟨Nat.succ_pos count, rfl⟩]

/-- A bare name, one word, goes no further than to the blank behind it, unless the text there goes
on with it. -/
theorem nameUpToType?_plain {word rest : List Char}
    (hplain : isPlainIdentifier (.ofList word) = true)
    (h : types.nameUpToType? 1 [] (' ' :: rest) = none) :
    types.nameUpToType? 0 [] (word ++ ' ' :: rest) = none := by
  have hblank := notBlank_of_plain hplain
  have hinline : ∀ c ∈ word, isInlineBlank c = false :=
    fun c hc => notInline_of_notBlank (hblank c hc)
  obtain ⟨c, cs, rfl, -⟩ := exists_of_plain hplain
  have hstart : (c :: cs ++ ' ' :: rest).dropWhile isInlineBlank = c :: cs ++ ' ' :: rest :=
    List.dropWhile_cons_of_neg (Bool.eq_false_iff.1 (hinline c (.head _)))
  have hedge : ∀ d ∈ (' ' :: rest).head?, isWord d = false := by
    rintro d ⟨⟩
    decide
  rw [TypeWords.nameUpToType?, if_neg fun hc => Nat.lt_irrefl 0 hc.1]
  split
  · rfl
  · rename_i word' more hs
    rw [hstart, splitWord?_append hedge (List.cons_ne_nil c cs)] at hs
    obtain ⟨⟨word'', tail⟩, hsplit, he⟩ := Option.map_eq_some_iff.1 hs
    cases he
    have happ := splitWord_eq_append hsplit
    rw [if_neg fun hc => Nat.lt_irrefl 0 hc.1]
    split
    · cases tail with
      | nil => exact nameUpToType?_name h _
      | cons d tail =>
        have hd : d ∈ c :: cs := happ ▸ List.mem_append_right _ (.head _)
        exact nameUpToType?_noBlank (hinline d hd) 0 _ _
    · rfl

end TypeWords

/-! ## Clauses -/

/-- The words that clauses begin with, behind the type of a column. -/
def clauseWords : List String :=
  ["DEFAULT", "NOT", "UNIQUE", "PRIMARY", "REFERENCES"]

/-- The text begins with the word of a clause. -/
def StartsClause (cs : List Char) : Prop :=
  ∃ w ∈ clauseWords, ∃ rest, cs = w.toList ++ rest ∧ ∀ c ∈ rest.head?, c = ' '

theorem startsClause_append {w : String} (hw : w ∈ clauseWords) (rest : List Char) :
    StartsClause (w.toList ++ ' ' :: rest) :=
  ⟨w, hw, ' ' :: rest, rfl, by rintro c ⟨⟩; rfl⟩

theorem startsClause_of_mem {s : Settings} {keyHere : Bool} {key : Option KeySpec} {c : Column}
    {m : Clause × (ColumnDef → ColumnDef)} (hm : m ∈ modifyingClauses s keyHere key c) :
    StartsClause (m.1.text s).toList := by
  unfold modifyingClauses at hm
  simp only [List.mem_append, Option.mem_toList, Option.map_eq_some_iff] at hm
  rcases hm with (((⟨v, hv, rfl⟩ | hm) | hm) | hm) | ⟨k, hkey, rfl⟩
  · have htext : (Clause.text s (.default (defaultLiteral s.dialect v))).toList =
        "DEFAULT".toList ++ ' ' :: (defaultLiteral s.dialect v).toList := by
      rw [Clause.text, String.toList_append]
      rfl
    rw [htext]
    exact startsClause_append (by decide) _
  · split at hm
    · obtain rfl := List.mem_singleton.1 hm
      have htext : "NOT NULL".toList = "NOT".toList ++ ' ' :: "NULL".toList := rfl
      exact htext ▸ startsClause_append (by decide) _
    · cases hm
  · split at hm
    · obtain rfl := List.mem_singleton.1 hm
      exact ⟨"UNIQUE", by decide, [], (List.append_nil _).symm, by simp⟩
    · cases hm
  · split at hm
    · obtain rfl := List.mem_singleton.1 hm
      have htext : "PRIMARY KEY".toList = "PRIMARY".toList ++ ' ' :: "KEY".toList := rfl
      exact htext ▸ startsClause_append (by decide) _
    · cases hm
  · have hword : "REFERENCES ".toList = "REFERENCES".toList ++ [' '] := rfl
    unfold Clause.text referencesText
    simp only [String.toList_append, hword, List.append_assoc, List.cons_append, List.nil_append]
    exact startsClause_append (by decide) _

/-- Texts with a blank before each of them. -/
def blanked (texts : List (List Char)) : List Char :=
  texts.flatMap (' ' :: ·)

theorem toList_join_blank (text : String) (texts : List String) :
    (Text.join " " (text :: texts)).toList = text.toList ++ blanked (texts.map String.toList) := by
  unfold Text.join
  rw [String.toList_intercalate]
  induction texts generalizing text with
  | nil => simp [blanked]
  | cons next texts ih =>
    rw [List.map_cons, List.map_cons, List.intercalate_cons_cons, List.append_assoc,
      ← List.map_cons, ih next]
    rfl

/-- The type in the clause for it. -/
def typeText : Clause → String
  | .type text | .countingKey text => text
  | _ => ""

theorem typeClause_cases (s : Settings) (g : Graph) (c : Column) (keyHere : Bool) :
    ∃ text, typeClause s g c keyHere = .type text ∨
      typeClause s g c keyHere = .countingKey text := by
  unfold typeClause
  split
  · exact ⟨_, .inl rfl⟩
  · split
    · dsimp only
      split
      · split
        · exact ⟨_, .inr rfl⟩
        · exact ⟨_, .inl rfl⟩
      · exact ⟨_, .inl rfl⟩
      · exact ⟨_, .inl rfl⟩
    · exact ⟨_, .inl rfl⟩

/-- The type of a column, as it is written. -/
def columnType (s : Settings) (g : Graph) (c : Column) : String :=
  typeText (typeClause s g c false)

theorem typeText_typeClause (s : Settings) (g : Graph) (c : Column) (keyHere : Bool) :
    typeText (typeClause s g c keyHere) = columnType s g c := by
  unfold columnType typeClause
  cases c.enumName? with
  | some name => rfl
  | none =>
    cases countsUp c with
    | false => rfl
    | true => cases s.dialect <;> cases keyHere <;> rfl

theorem exists_typeClause_text (s : Settings) (g : Graph) (c : Column) (keyHere : Bool) :
    ∃ texts, (∀ t ∈ texts, StartsClause t) ∧ ((typeClause s g c keyHere).text s).toList =
      (columnType s g c).toList ++ blanked texts := by
  rw [← typeText_typeClause s g c keyHere]
  obtain ⟨text, h | h⟩ := typeClause_cases s g c keyHere
  · exact ⟨[], nofun, by rw [h]; exact (List.append_nil _).symm⟩
  · refine ⟨["PRIMARY KEY AUTOINCREMENT".toList], fun t ht => ?_, ?_⟩
    · obtain rfl := List.mem_singleton.1 ht
      exact startsClause_append (w := "PRIMARY") (by decide) "KEY AUTOINCREMENT".toList
    · rw [h, Clause.text, String.toList_append]
      rfl

/-- **A column behind its name**: the type, and clauses. -/
theorem exists_clauses_text (s : Settings) (g : Graph) (promoted : Bool) (key : Option KeySpec)
    (c : Column) : ∃ texts, (∀ t ∈ texts, StartsClause t) ∧
      (Text.join " " ((clauses s g promoted key c).map (Clause.text s))).toList =
        (columnType s g c).toList ++ blanked texts := by
  obtain ⟨texts, htexts, htype⟩ := exists_typeClause_text s g c (c.isPrimary && !promoted)
  have hmods : ∀ t ∈ (modifyingClauses s (statesKey s g promoted c) (clauseKey s key) c).map
      (fun m => (m.1.text s).toList), StartsClause t := by
    intro t ht
    obtain ⟨m, hm, rfl⟩ := List.mem_map.1 ht
    exact startsClause_of_mem hm
  refine ⟨texts ++ _, fun t ht => (List.mem_append.1 ht).elim (htexts t) (hmods t), ?_⟩
  rw [clauses_eq, List.map_cons, toList_join_blank, htype, List.map_map, List.map_map, blanked,
    blanked, blanked, List.flatMap_append, List.append_assoc]
  rfl

/-! ## Items -/

/-- The type, behind a bare name, is not read as more words of it in front of another type. -/
def OneName (types : TypeWords) (type : String) : Prop :=
  types.nameUpToType? 1 [] (' ' :: type.toList) = none

instance (types : TypeWords) (type : String) : Decidable (OneName types type) :=
  inferInstanceAs (Decidable (_ = none))

/-- **A keyword**: one word, and no name. -/
structure IsKeyword (w : String) : Prop where
  split : TypeWords.splitWord? w.toList = some (w.toList, [])
  notPlain : isPlainIdentifier w = false
  ne_nil : w.toList ≠ []
  notBlank : ∀ c ∈ w.toList.head?, isInlineBlank c = false

theorem isKeyword_of_mem {w : String} (hw : w ∈ "FOREIGN" :: clauseWords) : IsKeyword w := by
  have hall : ∀ w ∈ "FOREIGN" :: clauseWords,
      TypeWords.splitWord? w.toList = some (w.toList, []) ∧ isPlainIdentifier w = false ∧
        w.toList ≠ [] ∧ w.toList.head?.any isInlineBlank = false := by
    decide +kernel
  obtain ⟨hsplit, hplain, hne, hblank⟩ := hall w hw
  refine ⟨hsplit, hplain, hne, fun c hc => ?_⟩
  rwa [Option.mem_def.1 hc, Option.any_some] at hblank

/-- The end of an item on its line. -/
def lineEnds : List (List Char) :=
  [[], ['\n']]

/-- The line of an item, without what ends it. -/
def itemLine (item : String) : List Char :=
  "    ".toList ++ item.toList

theorem severalWords?_indented {types : TypeWords} {item : List Char}
    (hitem : ∀ c ∈ item.head?, isInlineBlank c = false)
    (h : types.nameUpToType? 0 [] item = none) :
    types.severalWords? ("    ".toList ++ item) = none := by
  have hdrop := (takeWhile_append_of_head hitem "    ".toList).2
  unfold TypeWords.severalWords?
  rw [hdrop]
  exact Option.map_eq_none_iff.2 h

theorem toList_column (s : Settings) (title : String) (clauses : List Clause) (width : Nat) :
    ((Item.column title clauses).text s width).toList = (quote s title).toList ++
      ' ' :: (List.replicate (width - Text.width (quote s title)) ' ' ++
        (Text.join " " (clauses.map (Clause.text s))).toList) := by
  unfold Item.text
  rw [← List.cons_append, ← List.replicate_succ, List.replicate_succ']
  simp

/-- **Clauses end a name**, and so does the end of a line. -/
theorem endsName_blanked {types : TypeWords} (hwords : ∀ w ∈ clauseWords, types.holds w = false)
    {texts : List (List Char)} (ht : ∀ t ∈ texts, StartsClause t)
    {tail : List Char} (htail : tail ∈ lineEnds) : types.EndsName (blanked texts ++ tail) := by
  have hend : ∀ tail ∈ lineEnds, tail.head?.any isWord = false ∧
      TypeWords.splitWord? (tail.dropWhile isInlineBlank) = none := by
    decide
  obtain ⟨hany, hnone⟩ := hend tail htail
  have hedge : ∀ c ∈ tail.head?, isWord c = false := by
    intro c hc
    rwa [Option.mem_def.1 hc, Option.any_some] at hany
  cases texts with
  | nil =>
    refine ⟨hedge, fun word rest hs => ?_⟩
    rw [blanked, List.flatMap_nil, List.nil_append, hnone] at hs
    cases hs
  | cons t texts =>
    obtain ⟨w, hw, more, rfl, hmore⟩ := ht _ (.head _)
    obtain ⟨hsplit, hplain, hne, hstart⟩ := isKeyword_of_mem (.tail _ hw)
    have hhead : ∀ c ∈ (more ++ (blanked texts ++ tail)).head?, isWord c = false := by
      intro c hc
      cases more with
      | cons d more =>
        obtain rfl := Option.some.inj hc
        rw [hmore d rfl]
        decide
      | nil =>
        cases texts with
        | nil => exact hedge c hc
        | cons t texts =>
          obtain rfl := Option.some.inj hc
          decide
    refine ⟨fun c hc => ?_, fun word rest hs => ?_⟩
    · obtain rfl := Option.some.inj hc
      decide
    · have hdrop : (blanked ((w.toList ++ more) :: texts) ++ tail).dropWhile isInlineBlank =
          w.toList ++ (more ++ (blanked texts ++ tail)) := by
        have hblank : blanked ((w.toList ++ more) :: texts) ++ tail =
            [' '] ++ (w.toList ++ (more ++ (blanked texts ++ tail))) := by simp [blanked]
        rw [hblank]
        refine (takeWhile_append_of_head (fun c hc => hstart c ?_) [' ']).2
        rwa [List.head?_append_of_ne_nil _ hne] at hc
      rw [hdrop, TypeWords.splitWord?_append hhead hne, hsplit] at hs
      cases hs
      rw [String.ofList_toList]
      exact ⟨hplain, hwords w hw⟩

/-- **No column has a name of several bare words** in front of its type. -/
theorem severalWords?_column {s : Settings} {types : TypeWords} {g : Graph} {c : Column}
    (hwords : s.caseSensitive = false → ∀ w ∈ clauseWords, types.holds w = false)
    (htype : s.caseSensitive = false → OneName types (columnType s g c)) (promoted : Bool)
    (key : Option KeySpec) (width : Nat) {tail : List Char} (htail : tail ∈ lineEnds) :
    types.severalWords? (itemLine
      ((Item.column c.title (clauses s g promoted key c)).text s width) ++ tail) = none := by
  obtain ⟨texts, htexts, hjoin⟩ := exists_clauses_text s g promoted key c
  generalize hpad : width - Text.width (quote s c.title) = pad
  have hline : itemLine ((Item.column c.title (clauses s g promoted key c)).text s width) ++ tail =
      "    ".toList ++ ((quote s c.title).toList ++ ' ' :: (List.replicate pad ' ' ++
        ((columnType s g c).toList ++ (blanked texts ++ tail)))) := by
    rw [itemLine, toList_column, hjoin, hpad]
    simp only [List.append_assoc, List.cons_append]
  obtain ⟨d, cs, hcons, hd⟩ := exists_quote_cons s c.title
  rw [hline]
  refine severalWords?_indented (fun e he => ?_) ?_
  · rw [hcons] at he
    obtain rfl := Option.some.inj he
    exact notInline_of_notBlank hd
  rcases quote_cases s c.title with ⟨hcase, -, hplain⟩ | hquoted
  · refine TypeWords.nameUpToType?_plain hplain ?_
    have hname := TypeWords.nameUpToType?_append (endsName_blanked (hwords hcase) htexts htail)
      (TypeWords.nameUpToType?_blanks (htype hcase) pad) []
    simpa only [List.append_assoc, List.cons_append] using hname
  · refine TypeWords.nameUpToType?_notPlain (fun word rest hs => ?_) []
    have hquote : isNameStart d = false := by
      rw [hquoted] at hcons
      obtain ⟨rfl, -⟩ := List.cons.inj hcons
      rcases aroundNames_quoteMark s.dialect with h | h <;> rw [h] <;> decide
    rw [hcons, List.cons_append, List.dropWhile_cons_of_neg
      (Bool.eq_false_iff.1 (notInline_of_notBlank hd)), TypeWords.splitWord?, hquote,
      if_neg Bool.false_ne_true] at hs
    cases hs

/-- Keys are no columns. -/
theorem severalWords?_key {types : TypeWords} {item w : String} (hw : IsKeyword w)
    (hitem : ∃ rest, item.toList = w.toList ++ ' ' :: rest) (tail : List Char) :
    types.severalWords? (itemLine item ++ tail) = none := by
  obtain ⟨rest, hitem⟩ := hitem
  obtain ⟨hsplit, hplain, hne, hstart⟩ := hw
  have hedge : ∀ c ∈ (' ' :: (rest ++ tail)).head?, isWord c = false := by
    rintro c ⟨⟩
    decide
  have hhead : ∀ c ∈ (w.toList ++ ' ' :: (rest ++ tail)).head?, isInlineBlank c = false := by
    rwa [List.head?_append_of_ne_nil _ hne]
  rw [itemLine, hitem, List.append_assoc, List.append_assoc, List.cons_append]
  refine severalWords?_indented hhead (TypeWords.nameUpToType?_notPlain (fun word more hs => ?_) [])
  have hdrop : (w.toList ++ ' ' :: (rest ++ tail)).dropWhile isInlineBlank =
      w.toList ++ ' ' :: (rest ++ tail) := (takeWhile_append_of_head hhead []).2
  rw [hdrop, TypeWords.splitWord?_append hedge hne, hsplit] at hs
  cases hs
  rwa [String.ofList_toList]

end DdlGraph.Repair
