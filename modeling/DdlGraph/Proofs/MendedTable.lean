import DdlGraph.Proofs.HandTable
import DdlGraph.Proofs.PatternWays
import DdlGraph.Proofs.QuietScript

/-!
# Repairs of a table written by hand

The normal form of such a table: its name and the names of its columns are written as scripts write
them, and a comma stands behind every column but the last, which keeps what is typed
(`HandTable.mended`). Nothing else in its text is looked for, and nothing is put aside.

* `quiet_statement`, `ofText_statement`: what repairs do not find;
* `repairHeader_header`: the name of the table;
* `startsColumn_line`, `insertCommas_lines`: every line begins a column, so commas are put in;
* `repairBody_body`: the column list;
* `normalize_text`: all repairs.
-/

namespace DdlGraph.Repair

open DdlGraph.Text DdlGraph.Sql

/-! ## What is not found -/

/-- A text without the first character of what is looked for is quiet. -/
theorem quiet_chars_of_not_mem {w : String} {c : Char} {cs : List Char} (hw : w.toList = c :: cs)
    {xs : List Char} (h : c ∉ xs) : Quiet (Lead.chars w).target xs := by
  refine (quiet_char.2 h).imp fun before text ht => ?_
  obtain ⟨rest, rfl⟩ := (leads_chars w before text).1 ht
  rw [hw, List.cons_append]
  exact matches_char.2 rfl

section Quiet

variable {ps : List Pattern} (hps : Solid ps) {cs : List Char} (h : Quiet (Matches ps) cs)

include hps h

theorem segments_of_quiet : segments ps cs = [.gap cs] :=
  segmentsAfter_of_passes hps (h none [])

/-- **Nothing is put aside** from a quiet text. -/
theorem mask_of_quiet (pieces : List (List Char)) : mask ps ⟨cs, pieces⟩ = ⟨cs, pieces⟩ := by
  unfold mask
  dsimp only
  rw [segments_of_quiet hps h, markFrom, markFrom, List.append_nil]
  exact congrArg (Masked.mk cs) (List.append_nil pieces)

/-- **Nothing is replaced** in a quiet text. -/
theorem replace_of_quiet (f : List (List Char) → List Char) : replace ps f cs = cs := by
  unfold replace
  rw [segments_of_quiet hps h]
  exact List.append_nil cs

end Quiet

theorem solid_declaration : Solid TypeWords.declaration := by
  refine solid_of_takes fun parts hp he => ?_
  cases hp with
  | cons hfirst _ =>
    obtain ⟨c, v, rfl, -⟩ := Pattern.head_of_takes_word (s := "CREATE") rfl hfirst
    cases he

/-- A table is no declaration. -/
theorem not_matches_declaration (before : Option Char) (rest : List Char) :
    ¬Matches TypeWords.declaration before ("CREATE TABLE ".toList ++ rest) := by
  rintro ⟨taken, parts, hm⟩
  obtain ⟨ends, he, -⟩ := Option.map_eq_some_iff.1 hm
  have hrun : Pattern.run .wordEdge _ _ = some ends := he
  rw [Pattern.run] at hrun
  split at hrun
  · cases hrun
  · cases hrun

namespace HandTable

variable {spell : String → String} (hspell : Spells spell) {t : HandTable} (h : t.Proper)

include hspell h

theorem not_mem_statement {c : Char} (hc : isNamePart c = false) (hmark : c ∉ wordMarks) :
    c ∉ t.statement spell := by
  obtain ⟨rest, he, hw⟩ := worded hspell h
  have hwords : ("CREATE TABLE ".toList.all fun d => isNamePart d || wordMarks.contains d) =
      true := by
    decide
  have hfront : ∀ d ∈ "CREATE TABLE ".toList, isNamePart d = true ∨ d ∈ wordMarks := by
    intro d hd
    rw [← List.contains_iff_mem, ← Bool.or_eq_true]
    exact List.all_eq_true.1 hwords d hd
  rw [he, List.mem_append, not_or]
  refine ⟨fun hm => ?_, hw.not_mem hc hmark⟩
  rcases hfront c hm with hpart | hm
  · exact Bool.false_ne_true (hc.symm.trans hpart)
  · exact hmark hm

/-- **No key is added** in the statement, and none has a target. -/
theorem quiet_statement {ps : List Pattern} {w : String} (hps : LedBy ps [.word w])
    (hw : w = "ALTER" ∨ w = "REFERENCES") : Quiet (Matches ps) (t.statement spell) := by
  obtain ⟨rest, he, hworded⟩ := worded hspell h
  have hfront : (Lead.word w).passed none "CREATE TABLE ".toList = true := by
    rcases hw with rfl | rfl <;> decide
  have hsought : w ∈ soughtWords := by
    rcases hw with rfl | rfl <;> decide
  rw [he]
  refine hps.quiet fun l hl => List.mem_singleton.1 hl ▸ ?_
  exact (Lead.quiet_of_passed hfront).append (hworded.quiet_lead hsought)

/-- **No comment** is in the statement. -/
theorem quiet_comment : Quiet (Matches commentPattern) (t.statement spell) := by
  have hminus := not_mem_statement hspell h (c := '-') (by decide) (by decide)
  have hslash := not_mem_statement hspell h (c := '/') (by decide) (by decide)
  refine ledBy_comment.quiet fun l hl => ?_
  rcases List.mem_cons.1 hl with rfl | hl
  · exact quiet_chars_of_not_mem (w := "--") rfl hminus
  · exact List.mem_singleton.1 hl ▸ quiet_chars_of_not_mem (w := "/*") rfl hslash

theorem dropRepeatedKeys_statement : dropRepeatedKeys (t.statement spell) = t.statement spell := by
  have hminus := not_mem_statement hspell h (c := '-') (by decide) (by decide)
  have hmark : Ddl.keySectionMark.toList = '-' :: Ddl.keySectionMark.toList.tail := rfl
  have hquiet := quiet_chars_of_not_mem hmark hminus
  unfold dropRepeatedKeys
  rw [splitAtFirst?_eq_none (by decide) (hquiet none [])]

theorem restore_statement (pieces : List (List Char)) :
    restore pieces (t.statement spell) = t.statement spell :=
  restore_of_noNul (not_mem_statement hspell h (by decide) (by decide))

/-- **The statement declares no type.** -/
theorem ofText_statement : TypeWords.ofText (t.statement spell) = ⟨[]⟩ := by
  obtain ⟨rest, he, hworded⟩ := worded hspell h
  have hled : LedBy TypeWords.declaration [.word "CREATE"] := ledBy_word rfl (by decide) _ _
  have hfront : (Lead.word "CREATE").passed (some 'C') "REATE TABLE ".toList = true := by decide
  have hwords : "CREATE TABLE ".toList = 'C' :: "REATE TABLE ".toList := rfl
  have hquiet : Quiet (Matches TypeWords.declaration) (t.statement spell) := by
    rw [he, hwords, List.cons_append]
    refine hled.quiet_cons (fun before more => ?_)
      (fun l hl => List.mem_singleton.1 hl ▸ hfront) (hworded.quiet hled (by decide))
    exact not_matches_declaration before (rest ++ more)
  unfold TypeWords.ofText occurrences
  rw [segments_of_quiet solid_declaration hquiet]
  rfl

end HandTable

/-! ## Names of tables -/

/-- **A name of plain words is not `IF NOT EXISTS`.** -/
theorem start?_ifNotExists_of_unsought {w : List Char} (hne : w ≠ [])
    (hw : ∀ c ∈ w, isNamePart c = true) (hu : Unsought w) (rest : List Char) :
    start? ifNotExists (' ' :: (w ++ ' ' :: rest)) = none := by
  refine Option.eq_none_iff_forall_ne_some.2 fun parts hs => ?_
  obtain ⟨after, hafter⟩ := eq_append_of_matchAt hs
  obtain ⟨_, v, hv, rfl, hrest⟩ := (takes_of_one (takes_of_matchAt hs)).all_cons
  obtain ⟨blanks, _, rfl, hblanks, hrest⟩ := hrest.all_cons
  obtain ⟨u, _, rfl, hword, hrest⟩ := hrest.all_cons
  obtain ⟨_, more, rfl, ⟨_, gap, rfl, ⟨b, rfl, hb⟩, -⟩, -⟩ := hrest.all_cons
  have hletters := Pattern.takes_word (s := "IF") (by decide) hword
  have htext : ' ' :: (w ++ ' ' :: rest) = blanks ++ (u ++ b :: (gap ++ (more ++ after))) := by
    have hcs : ' ' :: (w ++ ' ' :: rest) = parts.flatten ++ after := hafter
    rw [hcs, hv]
    simp only [List.append_assoc, List.cons_append, List.nil_append]
  obtain ⟨c, w, rfl⟩ := List.exists_cons_of_ne_nil hne
  -- one blank stands in front of the word, so the letters are its first ones
  cases blanks with
  | nil =>
    cases hletters with
    | cons hd _ =>
      rw [← (List.cons.inj htext).1] at hd
      exact absurd hd (by decide)
  | cons x blanks =>
    obtain ⟨-, htext⟩ := List.cons.inj htext
    cases blanks with
    | nil =>
      have hword : c :: w ++ ' ' :: rest = u ++ b :: (gap ++ (more ++ after)) := htext
      have hleads := leads_word hletters hb (gap ++ (more ++ after))
      rw [← hword] at hleads
      exact not_leads_of_unsought (by decide) hw hu (by decide) rest hleads
    | cons y blanks =>
      have hc := notBlank_of_isNamePart (hw c (.head _))
      rw [(List.cons.inj htext).1, hblanks y (.tail _ (.head _))] at hc
      cases hc

theorem HandName.exists_first {n : HandName} (h : n.Proper) :
    ∃ c rest, n.title.toList = c :: rest ∧ isNameStart c = true := by
  obtain ⟨c, cs, hw, hc⟩ := (h n.first (.head _)).exists_cons
  refine ⟨c, cs ++ blanked (n.more.map String.toList), ?_, hc⟩
  rw [title, toList_joined, hw]
  rfl

theorem HandName.exists_last {n : HandName} (h : n.Proper) :
    ∃ front e, n.title.toList = front ++ [e] ∧ isNamePart e = true := by
  have hlast : ∀ {w : String}, IsNameWord w → ∃ front e, w.toList = front ++ [e] ∧
      isNamePart e = true := by
    intro w hw
    rcases List.eq_nil_or_concat w.toList with hnil | ⟨front, e, he⟩
    · exact absurd hnil hw.toIsWordText.ne_nil
    · rw [List.concat_eq_append] at he
      exact ⟨front, e, he, hw.parts e (he ▸ List.mem_append_right _ (.head _))⟩
  unfold title
  rw [toList_joined]
  rcases List.eq_nil_or_concat n.more with hnil | ⟨ws, w, hmore⟩
  · obtain ⟨front, e, he, hpart⟩ := hlast (h n.first (.head _))
    rw [hnil, he]
    exact ⟨front, e, List.append_nil _, hpart⟩
  · rw [List.concat_eq_append] at hmore
    have hw : w ∈ n.first :: n.more := .tail _ (hmore ▸ List.mem_append_right _ (.head _))
    obtain ⟨front, e, he, hpart⟩ := hlast (h w hw)
    refine ⟨n.first.toList ++ (blanked (ws.map String.toList) ++ ' ' :: front), e, ?_, hpart⟩
    rw [hmore, List.map_append, blanked, List.flatMap_append, ← blanked]
    simp [he]

/-- **The name of a table is quoted** if it has several words. -/
theorem HandTable.repairHeader_header {s : Settings} (hs : s.caseSensitive = false) {t : HandTable}
    (h : t.name.Proper) :
    repairHeader s.dialect.quoteMark (t.header id) = t.header (Ddl.quote s) := by
  have hblank : isBlank ' ' = true := by decide
  have hfirst := h t.name.first (.head _)
  have hnone : start? ifNotExists (t.header id) = none := by
    have hheader : ∃ rest, t.header id = ' ' :: (t.name.first.toList ++ ' ' :: rest) := by
      unfold header
      rw [id_eq, HandName.title, toList_joined]
      cases t.name.more with
      | nil => exact ⟨[], by simp [blanked]⟩
      | cons w ws =>
        refine ⟨w.toList ++ (blanked (ws.map String.toList) ++ [' ']), ?_⟩
        rw [List.map_cons, blanked_cons]
        simp only [List.append_assoc, List.cons_append]
    obtain ⟨rest, hrest⟩ := hheader
    rw [hrest]
    exact start?_ifNotExists_of_unsought hfirst.toIsWordText.ne_nil hfirst.parts hfirst.unsought rest
  have hwords : words (t.header id) = (t.name.first :: t.name.more).map String.toList := by
    have hnil : words [' '] = [] := by
      rw [words_eq]
      rfl
    have hread := words_joined (fun x hx => (h x hx).toIsWordText)
      (show ∀ c ∈ [' '].head?, isBlank c = true by rintro c ⟨⟩; exact hblank)
    rw [hnil, List.append_nil] at hread
    unfold header
    rw [words_blank hblank]
    exact hread
  have hplain : allPlain (t.header id) = true := allPlain_of_words h hwords
  have hquote : ∀ q : Char, repairHeader q (t.header id) =
      if t.name.more = [] then t.header id
      else ' ' :: (quotedWords q (t.header id) ++ [' ']) := by
    intro q
    obtain ⟨c, cs, hc, hstart⟩ := HandName.exists_first h
    obtain ⟨front, e, he, hpart⟩ := HandName.exists_last h
    have hlead : (t.header id).takeWhile isBlank = [' '] := by
      have hname := notBlank_of_isNamePart (isNamePart_of_isNameStart hstart)
      unfold header
      rw [id_eq, hc, List.takeWhile_cons_of_pos hblank, List.cons_append,
        List.takeWhile_cons_of_neg (Bool.eq_false_iff.1 hname)]
    have htrail : (t.header id).reverse.takeWhile isBlank = [' '] := by
      have hname := notBlank_of_isNamePart hpart
      unfold header
      rw [id_eq, he, List.reverse_cons, List.reverse_append, List.reverse_append]
      simp [hblank, hname]
    have hlength : decide ((t.name.first :: t.name.more).length < 2) =
        decide (t.name.more = []) := by
      cases t.name.more <;> simp
    have hdrop : (t.header id).drop ([] : List (List Char)).flatten.length = t.header id := rfl
    unfold repairHeader
    rw [hnone]
    dsimp only [Option.getD_none]
    rw [hdrop, hwords, hplain, List.length_map, hlength, hlead, htrail, Bool.not_true, Bool.or_false]
    by_cases hone : t.name.more = []
    · rw [decide_eq_true hone, if_pos rfl, if_pos hone]
    · rw [decide_eq_false hone, if_neg Bool.false_ne_true, if_neg hone]
      simp
  rw [hquote]
  by_cases hone : t.name.more = []
  · have hname := quote_joined_nil hs hfirst
    rw [if_pos hone]
    unfold header HandName.title
    rw [hone, id_eq, hname, toList_joined]
    simp [blanked]
  · rw [if_neg hone, ← quote_joined_cons h hone hwords]
    rfl

/-! ## Lines that begin a column -/

theorem sameAscii_comm (s t : String) : sameAscii s t = sameAscii t s :=
  Bool.beq_comm

/-- Texts that are the same up to ASCII case have letters of the same classes. -/
theorem foldChar_of_sameAscii {s t : String} (h : sameAscii s t = true) :
    List.Forall₂ (fun c d => foldChar d = foldChar c) s.toList t.toList := by
  have hchar : ∀ c : Char, foldChar c.toLower = foldChar c := by
    intro c
    by_cases hc : c.toNat < 128
    · exact of_ascii (p := fun c => foldChar c.toLower = foldChar c) (by decide) hc
    · rw [toLower_of_not_ascii hc]
  have hmap := map_toLower_of_sameAscii h
  have hall : List.Forall₂ (fun c d => foldChar d = foldChar c) (s.toList.map Char.toLower)
      (t.toList.map Char.toLower) := hmap ▸ List.forall₂_same.2 fun _ _ => rfl
  rw [List.forall₂_map_left_iff, List.forall₂_map_right_iff] at hall
  exact hall.imp fun c d hd => by rwa [hchar, hchar] at hd

theorem crosses_bareWord {w : String} (h : IsWordText w) (before : Option Char)
    (rest : List Char) : bareWord.Crosses before w.toList rest := by
  obtain ⟨c, cs, hw, hc⟩ := h.exists_cons
  have hstart : isNameStartAnyCase c = true :=
    of_isNamePart (p := fun c => isNameStart c = true → isNameStartAnyCase c = true) (by decide)
      (isNamePart_of_isNameStart hc) hc
  have hparts : ∀ d ∈ cs, isWord d = true := fun d hd =>
    isWord_of_isNamePart (h.parts d (hw ▸ .tail _ hd))
  rw [hw]
  exact (Pattern.crosses_one hstart).seq (Pattern.crosses_span hparts)

theorem crosses_nextBareWord {w : String} (h : IsWordText w) (before : Option Char)
    (rest : List Char) : nextBareWord.Crosses before (' ' :: w.toList) rest :=
  (Pattern.crosses_run1 (w := []) (by decide) nofun).seq (crosses_bareWord h _ _)

/-- **The words of a name** are a way through the pattern for names. -/
theorem crosses_title {n : HandName} (h : n.Proper) (before : Option Char) (rest : List Char) :
    (Pattern.seq bareWord (.few nextBareWord)).Crosses before n.title.toList rest := by
  have hmore : ∀ v ∈ n.more.map (fun w => ' ' :: w.toList), ∀ before rest,
      nextBareWord.Crosses before v rest :=
    List.forall_mem_map.2 fun w hw => crosses_nextBareWord (h w (.tail _ hw)).toIsWordText
  have hflat : (n.more.map fun w => ' ' :: w.toList).flatten =
      blanked (n.more.map String.toList) := by
    unfold blanked
    rw [List.flatMap_map]
    rfl
  unfold HandName.title
  rw [toList_joined, ← hflat]
  exact (crosses_bareWord (h n.first (.head _)).toIsWordText _ _).seq (Pattern.crosses_few
    (List.forall_mem_map.2 fun w _ => List.cons_ne_nil ' ' w.toList) hmore)

/-- What follows the type of a column. -/
def HandColumn.afterType (c : HandColumn) : List Char :=
  paramText c.gap c.params ++ c.lineEnd

theorem HandColumn.line_eq (spell : String → String) (c : HandColumn) :
    c.line spell = "  ".toList ++ ((spell c.name.title).toList ++
      ' ' :: (c.type.toList ++ c.afterType)) := by
  unfold line code afterType
  simp only [List.append_assoc, List.cons_append]

theorem HandColumn.notWord_afterType (c : HandColumn) :
    ∀ d ∈ c.afterType.head?, isWord d = false := by
  unfold afterType paramText lineEnd
  split
  · split
    · rintro d ⟨⟩; decide
    · rintro d ⟨⟩; decide
  · rintro d ⟨⟩
    decide

theorem last_isNamePart {w : String} (h : IsWordText w) (before : Option Char) :
    (w.toList.getLast?.or before).any isWord = true := by
  cases hlast : w.toList.getLast? with
  | none => exact absurd (List.getLast?_eq_none_iff.1 hlast) h.ne_nil
  | some e => exact isWord_of_isNamePart (h.parts e (List.mem_of_getLast? hlast))

section Column

variable {c : HandColumn} (h : c.Proper)

include h

theorem HandColumn.isSome_start? :
    (start? (TypeWords.columnStart ⟨[]⟩) (c.line id)).isSome = true := by
  have htype := (isNameWord_of_isKnownType h.type h.unlisted).toIsWordText
  obtain ⟨t, ht, hsame⟩ := List.any_eq_true.1 h.type
  have hne : t.toList ≠ [] := by
    have hall : ∀ t ∈ knownTypes, t.toList ≠ [] := by decide
    exact hall t ht
  have hedge : ∀ before : Option Char, (c.type.toList.getLast?.or before).any isWord ≠
      c.afterType.head?.any isWord := by
    intro before
    rw [last_isNamePart htype]
    cases hhead : c.afterType.head? with
    | none => decide
    | some d =>
      rw [Option.any_some, c.notWord_afterType d hhead]
      decide
  have htypes : Pattern.word t ∈ (knownTypes ++ []).map Pattern.word :=
    List.mem_map_of_mem (List.mem_append_left _ ht)
  have hblanks : ∀ d ∈ "  ".toList, isInlineBlank d = true :=
    fun d hd => eq_blank_of_mem_indent hd ▸ by decide
  have hname : Pattern.seq bareWord (.few nextBareWord) ∈ [quotedPattern '"' '"',
      quotedPattern '`' '`', quotedPattern '[' ']', .seq bareWord (.few nextBareWord)] := by
    simp
  have hway := Pattern.crosses_start.seq ((Pattern.crosses_span hblanks).seq
    ((Pattern.crosses_first hname (crosses_title h.name _ _)).seq
      ((Pattern.crosses_run1 (f := isInlineBlank) (c := ' ') (w := []) rfl nofun).seq
        ((Pattern.crosses_first htypes (Pattern.crosses_word hne (foldChar_of_sameAscii hsame))).seq
          (Pattern.crosses_wordEdge (hedge _))))))
  have hline : c.line id = ([] ++ ("  ".toList ++ (c.name.title.toList ++ ([' '] ++
      (c.type.toList ++ []))))) ++ c.afterType := by
    rw [c.line_eq]
    simp
  rw [hline]
  exact hway.isSome_start?

/-- **Every line begins a column.** -/
theorem HandColumn.startsColumn_line : TypeWords.startsColumn ⟨[]⟩ (c.line id) = true := by
  have hfirst := h.name c.name.first (.head _)
  have hblank : isBlank ' ' = true := by decide
  have hhead : (words (c.line id)).head? = some c.name.first.toList := by
    have hfront : "  ".toList = [' ', ' '] := rfl
    have hnext : ∀ d ∈ (blanked (c.name.more.map String.toList) ++
        ' ' :: (c.type.toList ++ c.afterType)).head?, isBlank d = true :=
      head?_blanked (p := fun d => isBlank d = true) hblank (by rintro d ⟨⟩; exact hblank)
    rw [c.line_eq, hfront, id_eq, HandName.title, toList_joined, List.append_assoc,
      List.cons_append, List.cons_append, List.nil_append, words_blank hblank, words_blank hblank,
      words_append hfirst.toIsWordText.ne_nil hfirst.toIsWordText.notBlank hnext]
    rfl
  have hgoes : continuesType c.name.first = false := by
    have hmem : ∀ t ∈ typeContinuations, t ∈ typeEndings ∨ isKnownType t = true := by decide
    rw [Bool.eq_false_iff]
    intro hcontinues
    unfold continuesType at hcontinues
    rw [Bool.and_eq_true, Bool.not_eq_true'] at hcontinues
    obtain ⟨t, ht, hsame⟩ := List.any_eq_true.1 hcontinues.1
    rcases hmem t ht with hending | hknown
    · have hnot := h.first t hending
      rw [sameAscii_comm, hsame] at hnot
      cases hnot
    · obtain ⟨u, hu, he⟩ := List.any_eq_true.1 hknown
      have hboth : isKnownType c.name.first = true :=
        List.any_eq_true.2 ⟨u, hu, beq_iff_eq.2 ((eq_of_beq he).trans (eq_of_beq hsame))⟩
      rw [hboth] at hcontinues
      cases hcontinues.2
  unfold TypeWords.startsColumn
  rw [isSome_start? h, hhead]
  dsimp only
  rw [String.ofList_toList, hfirst.plain, hgoes]
  simp

end Column

/-! ## Column lists -/

/-- The columns with a comma behind each but the last. -/
def separated : List HandColumn → List HandColumn
  | [] => []
  | [c] => [c]
  | c :: d :: cs => { c with comma := true } :: separated (d :: cs)

/-- **The table as it is meant**: no comma between two columns is missing. -/
def HandTable.mended (t : HandTable) : HandTable :=
  { t with columns := separated t.columns }

theorem quoteName_lineEnd (types : TypeWords) (quoteMark : Char) :
    quoteName types quoteMark ['\n'] = ['\n'] := by
  unfold quoteName
  rw [severalWords?_lineEnd]

theorem withoutMarks_of_noNul {cs : List Char} (h : '\x00' ∉ cs) : withoutMarks cs = cs := by
  unfold withoutMarks replace segments
  rw [segmentsAfter_noNul h]
  exact List.append_nil cs

section Column

variable {c : HandColumn} (h : c.Proper)

include h

theorem HandColumn.noNul_line : '\x00' ∉ c.line id :=
  (worded_line spells_id h).not_mem (by decide) (by decide)

/-- A line says something. -/
theorem HandColumn.notBlank_line : (withoutMarks (c.line id)).all isBlank = false := by
  obtain ⟨front, e, he, hpart⟩ := exists_last h id
  have hblank : isBlank e = false := by
    rcases hpart with hpart | rfl
    · exact notBlank_of_isNamePart hpart
    · decide
  rw [withoutMarks_of_noNul (noNul_line h), line, he, List.all_eq_false]
  exact ⟨e, List.mem_append_left _ (List.mem_append_right _ (.head _)), by rw [hblank]; decide⟩

/-- **A comma is put in** where none is. -/
theorem HandColumn.insertComma_line :
    insertComma (c.line id) = ({ c with comma := true }).line id := by
  obtain ⟨front, e, he, hpart⟩ := exists_last h id
  have hends : isBlank e = false ∧ e ≠ ',' ∧ e ≠ '(' := by
    rcases hpart with hpart | rfl
    · refine ⟨notBlank_of_isNamePart hpart, ?_, ?_⟩
      · rintro rfl
        cases hpart
      · rintro rfl
        cases hpart
    · exact ⟨by decide, by decide, by decide⟩
  obtain ⟨hblank, hcomma, hparen⟩ := hends
  have hcode : ({ c with comma := true }).code id = c.code id := rfl
  unfold insertComma
  rw [codeOf_of_noNul (noNul_line h)]
  unfold line lineEnd
  rw [hcode, he]
  by_cases hc : c.comma = true
  · have htrim : trimEnd (front ++ [e] ++ [',', '\n']) = front ++ [e, ','] := by
      simp [trimEnd, trimEndWhile, isBlank]
    rw [if_pos hc, htrim]
    simp
  · have htrim : trimEnd (front ++ [e] ++ ['\n']) = front ++ [e] := by
      have hline : isBlank '\n' = true := by decide
      simp [trimEnd, trimEndWhile, hline, hblank]
    rw [if_neg hc, htrim]
    simp [hcomma, hparen]

/-- **The name in a line is quoted** if it has several words. -/
theorem HandColumn.quoteNames_line {s : Settings} (hs : s.caseSensitive = false) :
    quoteNames ⟨[]⟩ s.dialect.quoteMark (c.line id) = c.line (Ddl.quote s) := by
  have htype := (isNameWord_of_isKnownType h.type h.unlisted).toIsWordText
  have hholds : TypeWords.holds ⟨[]⟩ c.type = true := (holds_eq_isKnownType htype).trans h.type
  have hfirst := h.name c.name.first (.head _)
  have hmore : ∀ w ∈ c.name.more, IsNameWord w ∧ TypeWords.holds ⟨[]⟩ w = false := by
    intro w hw
    have hword := h.name w (.tail _ hw)
    exact ⟨hword, (holds_eq_isKnownType hword.toIsWordText).trans (h.more w hw)⟩
  have hquote : ∀ tail : List Char, (∀ d ∈ tail.head?, isWord d = false) →
      quoteName ⟨[]⟩ s.dialect.quoteMark (c.code id ++ tail) = c.code (Ddl.quote s) ++ tail := by
    intro tail htail
    have hrest : ∀ d ∈ (paramText c.gap c.params ++ tail).head?, isWord d = false := by
      unfold paramText
      split
      · exact htail
      · rintro d ⟨⟩
        decide
    have hname := quoteName_joined htype hholds hrest hs hfirst hmore
      (show ∀ d ∈ "  ".toList, isInlineBlank d = true from
        fun d hd => eq_blank_of_mem_indent hd ▸ by decide)
    unfold code HandName.title
    simpa only [id_eq, List.append_assoc, List.cons_append] using hname
  have hend := quoteName_lineEnd ⟨[]⟩ s.dialect.quoteMark
  unfold quoteNames line lineEnd
  by_cases hc : c.comma = true
  · have hparts : splitParts [] 0 none (c.code id ++ [',', '\n']) = [c.code id, ['\n']] :=
      (splitParts_append_of_balanced (balanced_code h) [] _).trans (by simp [splitParts])
    have hcode := hquote [] fun d hd => absurd hd (Option.not_mem_none d)
    rw [List.append_nil, List.append_nil] at hcode
    rw [if_pos hc, hparts, List.map_cons, List.map_cons, List.map_nil, hcode, hend]
    simp
  · have hparts : splitParts [] 0 none (c.code id ++ ['\n']) = [c.code id ++ ['\n']] :=
      (splitParts_append_of_balanced (balanced_code h) [] _).trans (by simp [splitParts])
    rw [if_neg hc, hparts, List.map_cons, List.map_nil,
      hquote ['\n'] (by rintro d ⟨⟩; decide), List.intercalate_singleton]

theorem HandColumn.linesOf_line (rest : List Char) :
    linesOf (c.line id ++ rest) = c.line id :: linesOf rest := by
  have hnot := newline_not_mem_code h
  unfold line lineEnd
  split
  · have hline : '\n' ∉ c.code id ++ [','] := by
      rw [List.mem_append, not_or]
      exact ⟨hnot, by decide⟩
    have hsplit := Repair.linesOf_line hline rest
    simpa only [List.append_assoc, List.cons_append, List.nil_append] using hsplit
  · have hsplit := Repair.linesOf_line hnot rest
    simpa only [List.append_assoc, List.cons_append, List.nil_append] using hsplit

theorem HandColumn.depthAfter_line : depthAfter (0, none) (c.line id) = (0, none) := by
  have hline := depthAfter_of_balanced (balanced_code h) 0
  have hend : depthAfter (0, none) c.lineEnd = (0, none) := by
    unfold lineEnd
    split <;> rfl
  unfold depthAfter at hline hend ⊢
  rw [line, List.foldl_append]
  exact (congrArg (List.foldl _ · c.lineEnd) hline).trans hend

theorem HandColumn.splitClose_line (read rest : List Char) :
    splitClose read 0 none (c.line id ++ rest) =
      splitClose ((c.line id).reverse ++ read) 0 none rest := by
  have hcode := splitClose_append_of_balanced (balanced_code h) read 0 (c.lineEnd ++ rest)
  rw [line, List.append_assoc]
  refine hcode.trans ?_
  unfold lineEnd
  split <;> simp [splitClose, quotationAfter, isQuoteMark]

end Column

section Columns

variable {cs : List HandColumn} (h : ∀ c ∈ cs, c.Proper)

include h

theorem linesOf_columns :
    linesOf (cs.flatMap (HandColumn.line id)) = cs.map (HandColumn.line id) := by
  induction cs with
  | nil => rfl
  | cons c cs ih =>
    obtain ⟨hc, hcs⟩ := List.forall_mem_cons.1 h
    rw [List.flatMap_cons, HandColumn.linesOf_line hc, ih hcs, List.map_cons]

theorem withDepths_columns : withDepths (0, none) (cs.map (HandColumn.line id)) =
    cs.map fun c => (c.line id, 0) := by
  induction cs with
  | nil => rfl
  | cons c cs ih =>
    obtain ⟨hc, hcs⟩ := List.forall_mem_cons.1 h
    rw [List.map_cons, withDepths, HandColumn.depthAfter_line hc, ih hcs, List.map_cons]

/-- **Commas are put in** between all columns. -/
theorem insertCommas_columns : insertCommas ⟨[]⟩ (cs.map fun c => (c.line id, 0)) =
    ((separated cs).map fun c => (c.line id, 0), !cs.isEmpty) := by
  induction cs with
  | nil => rfl
  | cons c cs ih =>
    obtain ⟨hc, hcs⟩ := List.forall_mem_cons.1 h
    have hblank : ¬(withoutMarks (c.line id)).all isBlank = true :=
      Bool.eq_false_iff.1 (HandColumn.notBlank_line hc)
    have hstarts : TypeWords.startsColumn ⟨[]⟩ (withoutMarks (c.line id)) = true := by
      rw [withoutMarks_of_noNul (HandColumn.noNul_line hc)]
      exact HandColumn.startsColumn_line hc
    rw [List.map_cons, insertCommas, ih hcs, if_neg hblank, hstarts]
    cases cs with
    | nil => rfl
    | cons d cs =>
      have hinsert := HandColumn.insertComma_line hc
      simp [separated, hinsert]

theorem splitClose_columns (read rest : List Char) :
    splitClose read 0 none (cs.flatMap (HandColumn.line id) ++ rest) =
      splitClose ((cs.flatMap (HandColumn.line id)).reverse ++ read) 0 none rest := by
  induction cs generalizing read with
  | nil => rfl
  | cons c cs ih =>
    obtain ⟨hc, hcs⟩ := List.forall_mem_cons.1 h
    rw [List.flatMap_cons, List.append_assoc, HandColumn.splitClose_line hc, ih hcs,
      List.reverse_append, List.append_assoc]

theorem proper_separated : ∀ c ∈ separated cs, c.Proper := by
  fun_induction separated cs with
  | case1 => exact h
  | case2 => exact h
  | case3 c d cs ih =>
    obtain ⟨hc, hcs⟩ := List.forall_mem_cons.1 h
    exact List.forall_mem_cons.2 ⟨{ hc with }, ih hcs⟩

end Columns

theorem map_name_separated (cs : List HandColumn) :
    (separated cs).map HandColumn.name = cs.map HandColumn.name := by
  fun_induction separated cs with
  | case1 | case2 => rfl
  | case3 c d cs ih =>
    rw [List.map_cons, ih]
    rfl

namespace HandTable

variable {s : Settings} (hs : s.caseSensitive = false) {t : HandTable} (h : t.Proper)

include h

theorem proper_mended : t.mended.Proper where
  name := h.name
  columns := proper_separated h.columns
  distinct := by
    have hnames := congrArg (List.map fun n : HandName => foldAscii n.title)
      (map_name_separated t.columns)
    rw [List.map_map, List.map_map] at hnames
    exact hnames ▸ h.distinct

include hs

/-- **The column list is repaired.** -/
theorem repairBody_body : repairBody ⟨[]⟩ s.dialect.quoteMark (t.body id) =
    t.mended.body (Ddl.quote s) := by
  have hlines : linesOf (t.body id) = ['\n'] :: t.columns.map (HandColumn.line id) := by
    have hfirst : linesOf (t.body id) =
        ['\n'] :: linesOf (t.columns.flatMap (HandColumn.line id)) :=
      if_pos rfl
    rw [hfirst, linesOf_columns h.columns]
  have hdepths : withDepths (0, none) (linesOf (t.body id)) =
      (['\n'], 0) :: t.columns.map fun c => (c.line id, 0) := by
    rw [hlines, withDepths, ← withDepths_columns h.columns]
    rfl
  have hcommas : (insertCommas ⟨[]⟩ (withDepths (0, none) (linesOf (t.body id)))).1 =
      (['\n'], 0) :: t.mended.columns.map fun c => (c.line id, 0) := by
    have hblank : (withoutMarks ['\n']).all isBlank = true := by decide +kernel
    rw [hdepths, insertCommas, if_pos hblank, insertCommas_columns h.columns]
    rfl
  have hend : quoteLine ⟨[]⟩ s.dialect.quoteMark (['\n'], 0) = ['\n'] := by
    have hparts : splitParts [] 0 none ['\n'] = [['\n']] := rfl
    unfold quoteLine quoteNames
    rw [if_pos rfl, hparts, List.map_cons, List.map_nil, quoteName_lineEnd,
      List.intercalate_singleton]
  rw [repairBody_eq, hcommas, List.flatMap_cons, hend, List.flatMap_map, body]
  refine congrArg (['\n'] ++ ·) (List.flatMap_congr fun c hc => ?_)
  exact (if_pos rfl).trans (HandColumn.quoteNames_line ((proper_mended h).columns c hc) hs)

omit hs in
theorem splitOpen?_header (rest : List Char) :
    splitOpen? [] none (t.header id ++ '(' :: rest) = some ((t.header id).reverse, rest) := by
  have hmarks : ∀ c ∈ t.header id, c ∉ openingMarks := by
    have hblank : ' ' ∉ openingMarks := by decide
    intro c hc
    unfold header at hc
    rcases List.mem_cons.1 hc with rfl | hc
    · exact hblank
    · rcases List.mem_append.1 hc with hc | hc
      · rcases mem_title h.name hc with hpart | rfl
        · exact of_isNamePart (p := fun c => c ∉ openingMarks) (by decide) hpart
        · exact hblank
      · exact List.mem_singleton.1 hc ▸ hblank
  rw [splitOpen?_append_of_not_mem hmarks, List.append_nil]
  rfl

omit hs in
theorem splitClose_body : splitClose [] 0 none (t.body id ++ ");".toList) =
    ((t.body id).reverse, ");".toList) := by
  have hline : splitClose [] 0 none (t.body id ++ ");".toList) =
      splitClose ['\n'] 0 none (t.columns.flatMap (HandColumn.line id) ++ ");".toList) := rfl
  rw [hline, splitClose_columns h.columns, body, List.reverse_cons]
  rfl

/-- **The table is repaired**, and it is the only one. -/
theorem repairTables_statement : repairTables ⟨[]⟩ s.dialect.quoteMark none (t.statement id) =
    t.mended.statement (Ddl.quote s) := by
  have hsearch : search? createTablePattern [] none 0 (t.statement id) =
      some ([], ["CREATE TABLE".toList]) :=
    search?_of_matchAt rfl
  have hdrop : (t.statement id).drop
      (([] : List Char).length + ["CREATE TABLE".toList].flatten.length) =
      t.header id ++ '(' :: (t.body id ++ ");".toList) := by
    have hwords : ([] : List Char).length + ["CREATE TABLE".toList].flatten.length =
        "CREATE TABLE".toList.length := rfl
    rw [hwords]
    exact List.drop_left
  have hopen := splitOpen?_header h (t.body id ++ ");".toList)
  have hafter : repairTables ⟨[]⟩ s.dialect.quoteMark none ");".toList = ");".toList := by
    have hend : Worded ");".toList := .mark (by decide) (.mark (by decide) .nil)
    have hnone : search? createTablePattern [] none 0 ");".toList = none :=
      search?_eq_none_of_passes (solid_of_ends fun _ => outsideEnds_createTable)
        (hend.quiet ledBy_createTable (by decide) none [])
    rw [repairTables]
    split
    · rfl
    · rename_i hs
      rw [hnone] at hs
      cases hs
  rw [repairTables]
  split
  · rename_i hs
    rw [hsearch] at hs
    cases hs
  · rename_i hs
    rw [hsearch] at hs
    cases hs
    rw [if_neg (by decide)]
    split
    · rename_i ho
      rw [hdrop, hopen] at ho
      cases ho
    · rename_i ho
      rw [hdrop, hopen] at ho
      cases ho
      dsimp only
      rw [splitClose_body h, List.reverse_reverse, List.reverse_reverse, repairBody_body hs h,
        repairHeader_header hs h.name, hafter, List.flatten_singleton]
      unfold statement
      rw [List.append_assoc, List.append_assoc]
      rfl

omit hs in
/-- **The normal form of the text**: names of several words are quoted as scripts of the dialect
quote them, and between columns stand commas. -/
theorem normalize_text : normalize t.text = .ofList (t.mended.statement
    (Ddl.quote { caseSensitive := false, dialect := Dialect.detect t.text })) := by
  have htext : t.text.toList = t.statement id := String.toList_ofList
  have haside : mask addedKeyPattern (mask commentPattern ⟨t.statement id, []⟩) =
      ⟨t.statement id, []⟩ := by
    rw [mask_of_quiet solid_comment (quiet_comment spells_id h),
      mask_of_quiet (solid_of_ends fun _ => outsideEnds_addedKey)
        (quiet_statement spells_id h ledBy_addedKey (.inl rfl))]
  have hmended := proper_mended h
  unfold normalize normalizeChars repairBy
  generalize Dialect.detect t.text = dialect
  generalize hs : ({ caseSensitive := false, dialect } : Settings) = s
  have hcase : s.caseSensitive = false := (congrArg Settings.caseSensitive hs).symm
  have hdialect : dialect = s.dialect := congrArg Settings.dialect hs
  have hspell : Spells (Ddl.quote s) := spells_quote hcase
  rw [hdialect, htext]
  dsimp only
  rw [haside, ofText_statement spells_id h, repairTables_statement hcase h,
    replace_of_quiet (solid_of_ends fun _ => outsideEnds_target)
      (quiet_statement hspell hmended ledBy_target (.inr rfl)),
    restore_statement hspell hmended, dropRepeatedKeys_statement hspell hmended]

end HandTable

end DdlGraph.Repair
