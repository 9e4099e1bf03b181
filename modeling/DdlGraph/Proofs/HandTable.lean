import DdlGraph.Proofs.NameWords
import DdlGraph.Proofs.TypeText

/-!
# Tables written by hand

A table as somebody types it who knows little of the syntax: names of several words stand there
without quotes, and any comma between two columns may be missing (`HandTable`). What is asked of the
words (`HandTable.Proper`) is that no word is a keyword, that only the first word of a column may
name a type, and that no column begins like the rest of a type or like another kind of item.

* `isNameWord_of_isKnownType`: the built-in types but one are plain words, in any case;
* `HandTable.worded`: the text is made of words and marks;
* `HandColumn.balanced_code`, `linesOf_lines`, `splitClose_lines`: how its lines are counted.
-/

namespace DdlGraph.Repair

open DdlGraph.Text DdlGraph.Sql

/-! ## The tables -/

/-- A name of words that nobody quoted. -/
structure HandName where
  first : String
  more : List String

/-- The name that is meant. -/
def HandName.title (n : HandName) : String :=
  Text.join " " (n.first :: n.more)

/-- A column on a line of its own. -/
structure HandColumn where
  name : HandName
  type : String
  params : List String
  /-- The blanks behind a comma between parameters. -/
  gap : Nat
  /-- A comma ends the line. -/
  comma : Bool

structure HandTable where
  name : HandName
  columns : List HandColumn

/-- What stands between two parameters. -/
def paramMark (gap : Nat) : List Char :=
  ',' :: List.replicate gap ' '

/-- The parameters of a type, in parentheses if there are some. -/
def paramText (gap : Nat) (params : List String) : List Char :=
  if params.isEmpty then []
  else '(' :: ((paramMark gap).intercalate (params.map String.toList) ++ [')'])

namespace HandColumn

/-- The line of a column up to its comma, with the name as `spell` writes it. -/
def code (spell : String → String) (c : HandColumn) : List Char :=
  "  ".toList ++ ((spell c.name.title).toList ++ ' ' :: (c.type.toList ++ paramText c.gap c.params))

/-- The end of a line. -/
def lineEnd (c : HandColumn) : List Char :=
  if c.comma then [',', '\n'] else ['\n']

def line (spell : String → String) (c : HandColumn) : List Char :=
  c.code spell ++ c.lineEnd

end HandColumn

namespace HandTable

/-- The column list, between the parentheses. -/
def body (spell : String → String) (t : HandTable) : List Char :=
  '\n' :: t.columns.flatMap (HandColumn.line spell)

/-- What stands between `CREATE TABLE` and the column list. -/
def header (spell : String → String) (t : HandTable) : List Char :=
  ' ' :: ((spell t.name.title).toList ++ [' '])

/-- The statement, with the names as `spell` writes them. -/
def statement (spell : String → String) (t : HandTable) : List Char :=
  "CREATE TABLE".toList ++ (t.header spell ++ '(' :: (t.body spell ++ ");".toList))

/-- **The text as it is typed.** -/
def text (t : HandTable) : String :=
  .ofList (t.statement id)

end HandTable

/-! ## What is asked of the words -/

def HandName.Proper (n : HandName) : Prop :=
  ∀ w ∈ n.first :: n.more, IsNameWord w

/-- Words that go on a type, and name none themselves. -/
def typeEndings : List String :=
  ["with", "without", "precision", "varying", "zone"]

/-- Words that begin an item of another kind. -/
def itemWords : List String :=
  ["like", "exclude"]

structure HandColumn.Proper (c : HandColumn) : Prop where
  name : c.name.Proper
  /-- Only the first word may name a type. -/
  more : ∀ w ∈ c.name.more, isKnownType w = false
  first : ∀ w ∈ typeEndings, sameAscii c.name.first w = false
  alone : c.name.more = [] → ∀ w ∈ itemWords, sameAscii c.name.first w = false
  type : isKnownType c.type = true
  unlisted : sameAscii c.type "enum" = false
  params : ∀ p ∈ c.params, IsDigits p

structure HandTable.Proper (t : HandTable) : Prop where
  name : t.name.Proper
  columns : ∀ c ∈ t.columns, c.Proper
  distinct : (t.columns.map fun c => foldAscii c.name.title).Nodup

instance (n : HandName) : Decidable n.Proper :=
  inferInstanceAs (Decidable (∀ w ∈ n.first :: n.more, IsNameWord w))

theorem HandColumn.proper_iff {c : HandColumn} : c.Proper ↔
    c.name.Proper ∧ (∀ w ∈ c.name.more, isKnownType w = false) ∧
      (∀ w ∈ typeEndings, sameAscii c.name.first w = false) ∧
      (c.name.more = [] → ∀ w ∈ itemWords, sameAscii c.name.first w = false) ∧
      isKnownType c.type = true ∧ sameAscii c.type "enum" = false ∧ ∀ p ∈ c.params, IsDigits p :=
  ⟨fun h => ⟨h.name, h.more, h.first, h.alone, h.type, h.unlisted, h.params⟩,
    fun ⟨name, more, first, alone, type, unlisted, params⟩ =>
      { name, more, first, alone, type, unlisted, params }⟩

theorem HandTable.proper_iff {t : HandTable} : t.Proper ↔
    t.name.Proper ∧ (∀ c ∈ t.columns, c.Proper) ∧
      (t.columns.map fun c => foldAscii c.name.title).Nodup :=
  ⟨fun h => ⟨h.name, h.columns, h.distinct⟩,
    fun ⟨name, columns, distinct⟩ => { name, columns, distinct }⟩

instance (c : HandColumn) : Decidable c.Proper :=
  decidable_of_iff' _ HandColumn.proper_iff

instance (t : HandTable) : Decidable t.Proper :=
  decidable_of_iff' _ HandTable.proper_iff

/-! ## Words of types -/

theorem isNamePart_toLower (c : Char) : isNamePart c.toLower = isNamePart c := by
  by_cases hc : c.toNat < 128
  · exact of_ascii (p := fun c => isNamePart c.toLower = isNamePart c) (by decide) hc
  · rw [toLower_of_not_ascii hc]

theorem isNameStart_toLower (c : Char) : isNameStart c.toLower = isNameStart c := by
  by_cases hc : c.toNat < 128
  · exact of_ascii (p := fun c => isNameStart c.toLower = isNameStart c) (by decide) hc
  · rw [toLower_of_not_ascii hc]

theorem map_toLower_of_sameAscii {s t : String} (h : sameAscii s t = true) :
    s.toList.map Char.toLower = t.toList.map Char.toLower := by
  have hlist := congrArg String.toList (eq_of_beq h)
  unfold foldAscii at hlist
  rwa [String.toList_ofList, String.toList_ofList] at hlist

/-- The case of letters does not matter for identifiers. -/
theorem IsWordText.of_sameAscii {s t : String} (h : IsWordText s) (he : sameAscii s t = true) :
    IsWordText t := by
  have hmap := map_toLower_of_sameAscii he
  constructor
  · have hany : ∀ cs : List Char, cs.head?.any isNameStart =
        (cs.map Char.toLower).head?.any isNameStart := by
      intro cs
      cases cs with
      | nil => rfl
      | cons c cs => exact (isNameStart_toLower c).symm
    rw [hany, ← hmap, ← hany]
    exact h.start
  · intro c hc
    have hlower : c.toLower ∈ s.toList.map Char.toLower := hmap ▸ List.mem_map_of_mem hc
    obtain ⟨d, hd, he⟩ := List.mem_map.1 hlower
    rw [← isNamePart_toLower, ← he, isNamePart_toLower]
    exact h.parts d hd

/-- **The built-in types are plain words**, in any case, but for `enum`. -/
theorem isNameWord_of_isKnownType {w : String} (h : isKnownType w = true)
    (hne : sameAscii w "enum" = false) : IsNameWord w := by
  have hall : ∀ t ∈ knownTypes, IsWordText t ∧ (t = "enum" ∨ Keyword.ofWord? t = none) := by
    decide +kernel
  obtain ⟨t, ht, he⟩ := List.any_eq_true.1 h
  obtain ⟨htext, rfl | hnone⟩ := hall t ht
  · have hsame : sameAscii w "enum" = true := beq_iff_eq.2 (eq_of_beq he).symm
    rw [hsame] at hne
    cases hne
  · have hw := htext.of_sameAscii he
    exact ⟨hw, (isPlainIdentifier_iff hw).2 ((ofWord?_of_sameAscii he).symm.trans hnone)⟩

/-- Without enumerations, just the built-in types name types. -/
theorem holds_eq_isKnownType {w : String} (h : IsWordText w) :
    TypeWords.holds ⟨[]⟩ w = isKnownType w := by
  have hsmall : ∀ t ∈ knownTypes, foldAscii t = t := by decide +kernel
  have hlower : lower w = foldAscii w := lower_ascii fun c hc => toNat_of_isNamePart (h.parts c hc)
  unfold TypeWords.holds isKnownType
  dsimp only
  rw [hlower, List.map_nil, List.contains_nil, Bool.or_false, Bool.eq_iff_iff,
    List.contains_iff_mem, List.any_eq_true]
  constructor
  · intro hm
    refine ⟨_, hm, ?_⟩
    unfold sameAscii
    rw [hsmall _ hm]
    exact beq_self_eq_true _
  · rintro ⟨t, ht, he⟩
    rwa [← eq_of_beq he, hsmall t ht]

/-! ## Words and marks -/

/-- Names are written as words, with marks around them or without. -/
def Spells (spell : String → String) : Prop :=
  ∀ {n : HandName}, n.Proper → ∀ {d : Char}, d ∈ wordMarks → ∀ {xs : List Char}, Worded xs →
    Worded ((spell n.title).toList ++ d :: xs)

theorem spells_id : Spells id := by
  rintro ⟨w, ws⟩ h d hd xs hxs
  show Worded ((Text.join " " (w :: ws)).toList ++ d :: xs)
  rw [toList_joined, List.append_assoc]
  unfold HandName.Proper at h
  dsimp only at h
  induction ws generalizing w with
  | nil => exact .word (h w (.head _)).parts (h w (.head _)).unsought hd hxs
  | cons x ws ih =>
    rw [List.map_cons, blanked_cons, List.cons_append, List.append_assoc]
    exact .word (h w (.head _)).parts (h w (.head _)).unsought (by decide)
      (ih x fun y hy => h y (.tail _ hy))

theorem words_title {n : HandName} (h : n.Proper) :
    words n.title.toList = (n.first :: n.more).map String.toList := by
  have hread := words_joined (fun x hx => (h x hx).toIsWordText)
    (show ∀ c ∈ ([] : List Char).head?, isBlank c = true from fun c hc => by cases hc)
  have hnil : words [] = [] := by
    rw [words_eq]
    rfl
  rwa [List.append_nil, hnil, List.append_nil] at hread

theorem spells_quote {s : Settings} (hs : s.caseSensitive = false) : Spells (Ddl.quote s) := by
  rintro n h d hd xs hxs
  by_cases hone : n.more = []
  · have hword := h n.first (.head _)
    have hquote := quote_joined_nil hs hword
    rw [← hone] at hquote
    have hname : (Ddl.quote s n.title).toList = n.first.toList := hquote
    rw [hname]
    exact .word hword.parts hword.unsought hd hxs
  · have hmark : s.dialect.quoteMark ∈ wordMarks := by
      rcases aroundNames_quoteMark s.dialect with he | he <;> rw [he] <;> decide
    have hquote : (Ddl.quote s n.title).toList =
        s.dialect.quoteMark :: (n.title.toList ++ [s.dialect.quoteMark]) := by
      have hname := quote_joined_cons (s := s) h hone (words_title h)
      unfold quotedWords at hname
      rw [words_title h] at hname
      have hjoin : [' '].intercalate ((n.first :: n.more).map String.toList) = n.title.toList := by
        unfold HandName.title Text.join
        rw [String.toList_intercalate]
        rfl
      rw [hjoin] at hname
      exact hname
    rw [hquote, List.cons_append, List.append_assoc]
    exact .mark hmark (spells_id h hmark (.mark hd hxs))

theorem worded_params {gap : Nat} {params : List String} (h : ∀ p ∈ params, IsDigits p)
    {xs : List Char} (hxs : Worded xs) :
    Worded ((paramMark gap).intercalate (params.map String.toList) ++ ')' :: xs) := by
  have hdigits : ∀ {p : String}, IsDigits p → (∀ c ∈ p.toList, isNamePart c = true) ∧
      Unsought p.toList := fun hp =>
    ⟨fun c hc => isNamePart_of_isDigit (hp.digits c hc), unsought_digits hp.digits⟩
  induction params with
  | nil => exact .mark (by decide) hxs
  | cons p params ih =>
    obtain ⟨hp, hparams⟩ := List.forall_mem_cons.1 h
    obtain ⟨hparts, hunsought⟩ := hdigits hp
    cases params with
    | nil =>
      rw [List.map_cons, List.map_nil, List.intercalate_singleton]
      exact .word hparts hunsought (by decide) hxs
    | cons q params =>
      rw [List.map_cons, List.map_cons, List.intercalate_cons_cons, ← List.map_cons,
        List.append_assoc, List.append_assoc, paramMark, List.cons_append]
      refine .word hparts hunsought (by decide) (.marks (fun c hc => ?_) (ih hparams))
      rw [List.eq_of_mem_replicate hc]
      decide

/-- A type with its parameters, in front of a mark. -/
theorem worded_type {c : HandColumn} (h : c.Proper) {d : Char} (hd : d ∈ wordMarks)
    {xs : List Char} (hxs : Worded xs) :
    Worded (c.type.toList ++ (paramText c.gap c.params ++ d :: xs)) := by
  have htype := isNameWord_of_isKnownType h.type h.unlisted
  unfold paramText
  split
  · exact .word htype.parts htype.unsought hd hxs
  · rw [List.cons_append, List.append_assoc]
    exact .word htype.parts htype.unsought (by decide) (worded_params h.params (.mark hd hxs))

section Spells

variable {spell : String → String} (hspell : Spells spell)

include hspell

omit hspell in
theorem eq_blank_of_mem_indent {x : Char} (h : x ∈ "  ".toList) : x = ' ' := by
  have hindent : "  ".toList = List.replicate 2 ' ' := rfl
  exact List.eq_of_mem_replicate (hindent ▸ h)

theorem HandColumn.worded_line {c : HandColumn} (h : c.Proper) : Worded (c.line spell) := by
  have hend : ∃ d xs, c.lineEnd = d :: xs ∧ d ∈ wordMarks ∧ Worded xs := by
    unfold lineEnd
    split
    · exact ⟨_, _, rfl, by decide, .mark (by decide) .nil⟩
    · exact ⟨_, _, rfl, by decide, .nil⟩
  obtain ⟨d, xs, he, hd, hxs⟩ := hend
  unfold line code
  rw [he, List.append_assoc, List.append_assoc, List.cons_append, List.append_assoc]
  exact .marks (fun x hx => eq_blank_of_mem_indent hx ▸ by decide)
    (hspell h.name (by decide) (worded_type h hd hxs))

/-- **The text is made of words and marks**, behind its first two words. -/
theorem HandTable.worded {t : HandTable} (h : t.Proper) :
    ∃ rest, t.statement spell = "CREATE TABLE ".toList ++ rest ∧ Worded rest := by
  refine ⟨(spell t.name.title).toList ++ ' ' :: '(' :: (t.body spell ++ ");".toList), ?_, ?_⟩
  · have hwords : "CREATE TABLE ".toList = "CREATE TABLE".toList ++ [' '] := rfl
    unfold statement header
    rw [hwords]
    simp only [List.append_assoc, List.cons_append, List.nil_append]
  · have hlines : Worded (t.body spell) :=
      .mark (by decide) (.flatMap fun c hc => HandColumn.worded_line hspell (h.columns c hc))
    have hend : Worded ");".toList := .mark (by decide) (.mark (by decide) .nil)
    exact hspell h.name (by decide) (.mark (by decide) (hlines.append hend))

end Spells

/-! ## Characters of a line -/

theorem mem_title {n : HandName} (h : n.Proper) {x : Char} (hx : x ∈ n.title.toList) :
    isNamePart x = true ∨ x = ' ' := by
  unfold HandName.title at hx
  rw [toList_joined, List.mem_append] at hx
  rcases hx with hx | hx
  · exact .inl ((h n.first (.head _)).parts x hx)
  · obtain ⟨text, ht, hx⟩ := List.mem_flatMap.1 hx
    obtain ⟨w, hw, rfl⟩ := List.mem_map.1 ht
    rcases List.mem_cons.1 hx with rfl | hx
    · exact .inr rfl
    · exact .inl ((h w (.tail _ hw)).parts x hx)

/-- Text that leaves parentheses and quotations alone. -/
theorem balanced_skip {depth : Nat} {xs : List Char}
    (h : ∀ x ∈ xs, x ∉ ['(', ')', '\'', '"', '`'] ∧ (x = ',' → depth ≠ 0)) (ys : List Char) :
    balanced depth none (xs ++ ys) = balanced depth none ys := by
  induction xs with
  | nil => rfl
  | cons x xs ih =>
    obtain ⟨⟨hx, hcomma⟩, hxs⟩ := List.forall_mem_cons.1 h
    simp only [List.mem_cons, List.not_mem_nil, or_false, not_or] at hx
    obtain ⟨hopen, hclose, hstring, hname, htick⟩ := hx
    have hquote : quotationAfter none x = none := by
      simp only [quotationAfter, isQuoteMark, beq_eq_false_iff_ne.2 hstring,
        beq_eq_false_iff_ne.2 hname, beq_eq_false_iff_ne.2 htick, Bool.or_false]
      rfl
    have hkeep : (x == ',' && depth == 0) = false := by
      rw [Bool.and_eq_false_iff, beq_eq_false_iff_ne, beq_eq_false_iff_ne]
      exact (em (x = ',')).symm.imp_right hcomma
    rw [List.cons_append, balanced, if_neg (by decide), if_neg hopen, if_neg hclose, hquote, hkeep,
      ih hxs]
    rfl

theorem not_mem_of_isNamePart {x : Char} (h : isNamePart x = true) :
    x ∉ ['(', ')', '\'', '"', '`', ',', '\n'] :=
  of_isNamePart (p := fun x => x ∉ ['(', ')', '\'', '"', '`', ',', '\n']) (by decide) h

theorem mem_params {gap : Nat} {params : List String} (h : ∀ p ∈ params, IsDigits p) {x : Char}
    (hx : x ∈ (paramMark gap).intercalate (params.map String.toList)) :
    isNamePart x = true ∨ x = ' ' ∨ x = ',' := by
  rcases mem_of_mem_intercalate hx with hx | ⟨text, ht, hx⟩
  · rcases List.mem_cons.1 hx with rfl | hx
    · exact .inr (.inr rfl)
    · exact .inr (.inl (List.eq_of_mem_replicate hx))
  · obtain ⟨p, hp, rfl⟩ := List.mem_map.1 ht
    exact .inl (isNamePart_of_isDigit ((h p hp).digits x hx))

section Column

variable {c : HandColumn} (h : c.Proper)

include h

/-- **A column closes what it opens.** -/
theorem HandColumn.balanced_code : balanced 0 none (c.code id) = true := by
  have hfront : ∀ x ∈ "  ".toList ++ (c.name.title.toList ++ ' ' :: c.type.toList),
      x ∉ ['(', ')', '\'', '"', '`'] ∧ (x = ',' → 0 ≠ 0) := by
    have hpart : ∀ x, isNamePart x = true ∨ x = ' ' →
        x ∉ ['(', ')', '\'', '"', '`'] ∧ (x = ',' → 0 ≠ 0) := by
      rintro x (hx | rfl)
      · have hnot := not_mem_of_isNamePart hx
        refine ⟨fun hm => hnot (List.mem_append_left [',', '\n'] hm), ?_⟩
        rintro rfl
        exact absurd hnot (by decide)
      · exact ⟨by decide, by decide⟩
    intro x hx
    refine hpart x ?_
    rcases List.mem_append.1 hx with hx | hx
    · exact .inr (List.eq_of_mem_replicate (n := 2) hx)
    · rcases List.mem_append.1 hx with hx | hx
      · exact mem_title h.name hx
      · rcases List.mem_cons.1 hx with rfl | hx
        · exact .inr rfl
        · exact .inl ((isNameWord_of_isKnownType h.type h.unlisted).parts x hx)
  have hcode : c.code id = "  ".toList ++ (c.name.title.toList ++ ' ' :: c.type.toList) ++
      paramText c.gap c.params := by
    unfold code
    simp only [id_eq, List.append_assoc, List.cons_append]
  have hinside : ∀ x ∈ (paramMark c.gap).intercalate (c.params.map String.toList),
      x ∉ ['(', ')', '\'', '"', '`'] ∧ (x = ',' → 1 ≠ 0) := by
    intro x hx
    refine ⟨?_, fun _ => Nat.one_ne_zero⟩
    rcases mem_params h.params hx with hx | rfl | rfl
    · exact fun hm => not_mem_of_isNamePart hx (List.mem_append_left [',', '\n'] hm)
    · decide
    · decide
  rw [hcode, balanced_skip hfront]
  unfold paramText
  split
  · rfl
  · exact balanced_skip hinside [')']

theorem HandColumn.newline_not_mem_code : '\n' ∉ c.code id := by
  have hpart : ∀ {x}, isNamePart x = true → x ≠ '\n' := by
    rintro x hx rfl
    exact absurd hx (by decide)
  have htitle : '\n' ∉ c.name.title.toList := fun hm =>
    (mem_title h.name hm).elim (fun hx => hpart hx rfl) (by decide)
  have htype : '\n' ∉ c.type.toList := fun hm =>
    hpart ((isNameWord_of_isKnownType h.type h.unlisted).parts _ hm) rfl
  have hparams : '\n' ∉ paramText c.gap c.params := by
    unfold paramText
    split
    · exact List.not_mem_nil
    · rw [List.mem_cons, List.mem_append, not_or, not_or]
      refine ⟨by decide, fun hm => ?_, by decide⟩
      rcases mem_params h.params hm with hx | hx | hx
      · exact hpart hx rfl
      · exact absurd hx (by decide)
      · exact absurd hx (by decide)
  unfold code
  simp only [id_eq, List.mem_append, List.mem_cons, not_or]
  exact ⟨by decide, htitle, by decide, htype, hparams⟩

/-- The code of a line ends in a letter, a digit, an underscore or a parenthesis. -/
theorem HandColumn.exists_last (spell : String → String) :
    ∃ front e, c.code spell = front ++ [e] ∧ (isNamePart e = true ∨ e = ')') := by
  have hname := isNameWord_of_isKnownType h.type h.unlisted
  unfold code paramText
  split
  · rcases List.eq_nil_or_concat c.type.toList with hnil | ⟨front, e, he⟩
    · exact absurd hnil hname.toIsWordText.ne_nil
    · rw [List.concat_eq_append] at he
      refine ⟨"  ".toList ++ ((spell c.name.title).toList ++ ' ' :: front), e, ?_,
        .inl (hname.parts e (he ▸ List.mem_append_right _ (.head _)))⟩
      rw [he]
      simp only [List.append_assoc, List.cons_append, List.append_nil]
  · refine ⟨"  ".toList ++ ((spell c.name.title).toList ++ ' ' :: (c.type.toList ++
      '(' :: (paramMark c.gap).intercalate (c.params.map String.toList))), ')', ?_, .inr rfl⟩
    simp only [List.append_assoc, List.cons_append]

end Column

end DdlGraph.Repair
