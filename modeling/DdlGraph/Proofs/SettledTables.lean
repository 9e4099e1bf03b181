import DdlGraph.Proofs.BareNames

/-!
# Tables that repairs leave alone

A table as it is written has a header with one name (`not_bareHeader_headerOf`) and a column list
with an item on each line (`OnLines`). Repairs read these with counts of their own for parentheses
and quotations, and an item that closes what it opens leaves the counts as they were.

* `splitOpen?_headerOf`, `splitClose_bodyOf`: where a column list begins and ends;
* `not_commaMissing_bodyOf`: no comma is missing;
* `not_bareColumn_bodyOf`, `severalWords?_items`: no name of several bare words is left.
-/

namespace DdlGraph.Repair

open DdlGraph.Text DdlGraph.Sql DdlGraph.Ddl

/-! ## Scanning balanced text -/

theorem splitClose_append_of_balanced {depth : Nat} {open_ : Option Char} {xs : List Char}
    (h : balanced depth open_ xs = true) (read : List Char) (d : Nat) (ys : List Char) :
    splitClose read (d + depth) open_ (xs ++ ys) = splitClose (xs.reverse ++ read) d none ys := by
  induction xs generalizing depth open_ read with
  | nil =>
    rw [balanced, Bool.and_eq_true, beq_iff_eq, Option.isNone_iff_eq_none] at h
    obtain ⟨rfl, rfl⟩ := h
    rfl
  | cons c xs ih =>
    rw [List.reverse_cons, List.append_assoc, List.singleton_append, List.cons_append]
    conv_lhs => unfold splitClose
    rcases balanced_cases h with ⟨hopen, h⟩ | ⟨rfl, rfl, h⟩ | ⟨rfl, rfl, hdepth, h⟩ |
      ⟨rfl, hopen, hclose, -, h⟩
    · rw [if_pos hopen, ih h]
    · exact ih h _
    · obtain ⟨depth, rfl⟩ := Nat.exists_eq_succ_of_ne_zero hdepth
      exact ih h _
    · rw [if_neg (by decide), if_neg hopen, if_neg hclose, ih h]

theorem depthAfter_of_balanced {depth : Nat} {open_ : Option Char} {xs : List Char}
    (h : balanced depth open_ xs = true) (d : Int) :
    depthAfter (d + depth, open_) xs = (d, none) := by
  induction xs generalizing depth open_ with
  | nil =>
    rw [balanced, Bool.and_eq_true, beq_iff_eq, Option.isNone_iff_eq_none] at h
    obtain ⟨rfl, rfl⟩ := h
    exact Prod.ext (Int.add_zero d) rfl
  | cons c xs ih =>
    unfold depthAfter at ih ⊢
    rw [List.foldl_cons]
    dsimp only
    rcases balanced_cases h with ⟨hopen, h⟩ | ⟨rfl, rfl, h⟩ | ⟨rfl, rfl, hdepth, h⟩ |
      ⟨rfl, hopen, hclose, -, h⟩
    · rw [if_pos hopen, ih h]
    · have hnext := ih h
      rw [Int.natCast_add, ← Int.add_assoc] at hnext
      exact hnext
    · obtain ⟨depth, rfl⟩ := Nat.exists_eq_succ_of_ne_zero hdepth
      have hpred : d + ((depth + 1 : Nat) : Int) - 1 = d + (depth : Int) := by omega
      have hnext := ih h
      rw [Nat.succ_sub_one, ← hpred] at hnext
      exact hnext
    · rw [if_neg (by decide), if_neg hopen, if_neg hclose, ih h]

theorem splitParts_append_of_balanced {depth : Nat} {open_ : Option Char} {xs : List Char}
    (h : balanced depth open_ xs = true) (read ys : List Char) :
    splitParts read depth open_ (xs ++ ys) = splitParts (xs.reverse ++ read) 0 none ys := by
  induction xs generalizing depth open_ read with
  | nil =>
    rw [balanced, Bool.and_eq_true, beq_iff_eq, Option.isNone_iff_eq_none] at h
    obtain ⟨rfl, rfl⟩ := h
    rfl
  | cons c xs ih =>
    rw [List.reverse_cons, List.append_assoc, List.singleton_append, List.cons_append]
    rw [splitParts]
    rcases balanced_cases h with ⟨hopen, h⟩ | ⟨rfl, rfl, h⟩ | ⟨rfl, rfl, hdepth, h⟩ |
      ⟨rfl, hopen, hclose, hcomma, h⟩
    · rw [if_pos hopen, ih h]
    · exact ih h _
    · obtain ⟨depth, rfl⟩ := Nat.exists_eq_succ_of_ne_zero hdepth
      have hpred : ((depth + 1 : Nat) : Int) - 1 = depth := by omega
      have hnext := ih h (')' :: read)
      rw [Nat.succ_sub_one, ← hpred] at hnext
      exact hnext
    · have hcount : ¬(c = ',' ∧ (depth : Int) = 0) := fun hc => hcomma hc.1 (by omega)
      rw [if_neg (by decide), if_neg hcount]
      dsimp only
      rw [if_neg hopen, if_neg hclose, ih h]

/-! ## Names -/

/-- What ends the search for a column list, or begins a quotation. -/
def openingMarks : List Char :=
  ['(', ';', '\'', '"', '`']

theorem splitOpen?_append_of_not_mem {w : List Char} (h : ∀ c ∈ w, c ∉ openingMarks)
    (read ys : List Char) :
    splitOpen? read none (w ++ ys) = splitOpen? (w.reverse ++ read) none ys := by
  induction w generalizing read with
  | nil => rfl
  | cons c w ih =>
    obtain ⟨hc, hw⟩ := List.forall_mem_cons.1 h
    simp only [openingMarks, List.mem_cons, List.not_mem_nil, or_false, not_or] at hc
    obtain ⟨hopen, hsemicolon, hstring, hname, htick⟩ := hc
    have hquote : quotationAfter none c = none := by
      simp only [quotationAfter, isQuoteMark, beq_eq_false_iff_ne.2 hstring,
        beq_eq_false_iff_ne.2 hname, beq_eq_false_iff_ne.2 htick, Bool.or_false]
      rfl
    rw [List.cons_append, splitOpen?, if_neg fun he => hopen he.2, if_neg fun he => hsemicolon he.2,
      hquote, ih hw, List.reverse_cons, List.append_assoc]
    rfl

theorem splitOpen?_append_doubled {q : Char} (hq : AroundNames q) (cs read ys : List Char) :
    splitOpen? read (some q) (doubled q cs ++ q :: ys) =
      splitOpen? (q :: (doubled q cs).reverse ++ read) none ys := by
  have hquoted : ∀ (c : Char) (read cs : List Char), splitOpen? read (some q) (c :: cs) =
      splitOpen? (c :: read) (quotationAfter (some q) c) cs := by
    intro c read cs
    rw [splitOpen?, if_neg fun he => Bool.false_ne_true he.1,
      if_neg fun he => Bool.false_ne_true he.1]
  have hclose : quotationAfter (some q) q = none := if_pos rfl
  have hopen : quotationAfter none q = some q := by
    rcases hq with rfl | rfl <;> rfl
  have hnone : ∀ (read cs : List Char), splitOpen? read none (q :: cs) =
      splitOpen? (q :: read) (some q) cs := by
    intro read cs
    rw [splitOpen?, hopen, if_neg, if_neg]
    · rcases hq with rfl | rfl <;> decide
    · rcases hq with rfl | rfl <;> decide
  induction cs generalizing read with
  | nil => exact (hquoted q read ys).trans (by rw [hclose]; rfl)
  | cons c cs ih =>
    rw [doubled_cons]
    by_cases hc : c = q
    · subst hc
      rw [if_pos rfl, List.append_assoc, List.cons_append, List.cons_append, List.nil_append,
        hquoted, hclose, hnone, ih]
      simp
    · have hstay : quotationAfter (some q) c = some q := if_neg hc
      rw [if_neg hc, List.append_assoc, List.cons_append, List.nil_append, hquoted, hstay, ih]
      simp

/-- **The search for a column list passes over a name.** -/
theorem splitOpen?_append_quote (s : Settings) (name : String) (read ys : List Char) :
    splitOpen? read none ((quote s name).toList ++ ys) =
      splitOpen? ((quote s name).toList.reverse ++ read) none ys := by
  rcases quote_cases s name with ⟨-, -, hplain⟩ | hquoted
  · exact splitOpen?_append_of_not_mem (not_mem_of_plain (by decide) (by decide) hplain) read ys
  · have hq := aroundNames_quoteMark s.dialect
    rw [hquoted]
    generalize s.dialect.quoteMark = q at hq
    have hopen : quotationAfter none q = some q := by
      rcases hq with rfl | rfl <;> rfl
    rw [List.cons_append, splitOpen?, hopen, if_neg, if_neg, List.append_assoc,
      List.singleton_append, splitOpen?_append_doubled hq]
    · simp
    · rcases hq with rfl | rfl <;> decide
    · rcases hq with rfl | rfl <;> decide

/-! ## Headers -/

/-- The header of a table, between `CREATE TABLE` and its column list. -/
def headerOf (s : Settings) (t : Table) : List Char :=
  " IF NOT EXISTS ".toList ++ ((quote s t.name).toList ++ [' '])

theorem splitOpen?_headerOf (s : Settings) (t : Table) (rest : List Char) :
    splitOpen? [] none (headerOf s t ++ '(' :: rest) = some ((headerOf s t).reverse, rest) := by
  have hwords : (" IF NOT EXISTS ".toList.all fun c => decide (c ∉ openingMarks)) = true := by
    decide
  have hmarks : ∀ c ∈ " IF NOT EXISTS ".toList, c ∉ openingMarks := fun c hc =>
    of_decide_eq_true (List.all_eq_true.1 hwords c hc)
  unfold headerOf
  rw [List.append_assoc, splitOpen?_append_of_not_mem hmarks, List.append_assoc,
    splitOpen?_append_quote]
  simp [splitOpen?, quotationAfter, isQuoteMark]

theorem start?_ifNotExists (rest : List Char) :
    start? ifNotExists (" IF NOT EXISTS ".toList ++ rest) = some [" IF NOT EXISTS".toList] :=
  rfl

theorem headerName_headerOf (s : Settings) (t : Table) :
    headerName (headerOf s t) = ' ' :: ((quote s t.name).toList ++ [' ']) := by
  have hstart := start?_ifNotExists ((quote s t.name).toList ++ [' '])
  unfold headerName headerOf
  rw [hstart]
  rfl

theorem words_blank_append {name : List Char} (hne : name ≠ [])
    (h : ∀ c ∈ name, isBlank c = false) : words (' ' :: (name ++ [' '])) = [name] := by
  obtain ⟨c, rest, rfl⟩ := List.exists_cons_of_ne_nil hne
  have htrim : trimStart (' ' :: (c :: rest ++ [' '])) = c :: rest ++ [' '] := by
    unfold trimStart
    rw [List.dropWhile_cons, if_pos (by decide), List.cons_append, List.dropWhile_cons,
      h c (.head _), if_neg Bool.false_ne_true]
  have hall : ∀ d ∈ c :: rest, (!isBlank d) = true := by
    intro d hd
    rw [h d hd]
    rfl
  have hnext : nextWord (c :: rest ++ [' ']) = (c :: rest, [' ']) := by
    unfold nextWord
    rw [List.takeWhile_append_of_pos hall, List.dropWhile_append_of_pos hall]
    exact Prod.ext (List.append_nil _) rfl
  have hnil : words [' '] = [] := by
    rw [words]
    rfl
  rw [words]
  split
  · rename_i he
    rw [htrim] at he
    cases he
  · rename_i he
    rw [← he, htrim, hnext, hnil]

/-- **A name that is written is one**: quoted, or of one word. -/
theorem not_bareHeader_headerOf (s : Settings) (t : Table) : ¬BareHeader (headerOf s t) := by
  unfold BareHeader
  rw [headerName_headerOf]
  rintro ⟨hwords, hplain⟩
  rcases quote_cases s t.name with ⟨-, -, hname⟩ | hquoted
  · obtain ⟨c, cs, hcons, -⟩ := exists_of_plain hname
    have hone := words_blank_append (hcons ▸ List.cons_ne_nil c cs) (notBlank_of_plain hname)
    rw [hone, List.length_singleton] at hwords
    omega
  · refine (aroundNames_quoteMark s.dialect).not_mem (inName_of_allPlain hplain) ?_
    rw [hquoted]
    exact .tail _ (.head _)

/-! ## Lines -/

theorem linesOf_line {w : List Char} (hw : '\n' ∉ w) (rest : List Char) :
    linesOf (w ++ '\n' :: rest) = (w ++ ['\n']) :: linesOf rest := by
  have hend : linesOf ('\n' :: rest) = ['\n'] :: linesOf rest := by
    rw [linesOf, if_pos rfl]
  by_cases hne : w = []
  · rw [hne]
    exact hend
  · rw [linesOf_append hw hne, hend]
    rfl

theorem toList_itemLines_cons (item next : String) (rest : List String) :
    (itemLines (item :: next :: rest)).toList =
      (itemLine item ++ [',']) ++ '\n' :: (itemLines (next :: rest)).toList := by
  have hend : ",\n".toList = [',', '\n'] := rfl
  simp only [itemLines, itemLine, String.toList_append, hend, List.append_assoc, List.cons_append,
    List.nil_append]

theorem toList_itemLines_singleton (item : String) :
    (itemLines [item]).toList = itemLine item ++ '\n' :: [] := by
  have hend : "\n".toList = ['\n'] := rfl
  simp only [itemLines, itemLine, String.toList_append, hend]

/-- **Items of a column list**: each stands on a line, and closes what it opens. -/
structure OnLines (items : List String) : Prop where
  oneLine : ∀ i ∈ items, '\n' ∉ i.toList
  noNul : ∀ i ∈ items, '\x00' ∉ i.toList
  balanced : ∀ i ∈ items, balanced 0 none i.toList = true

theorem OnLines.tail {item : String} {items : List String} (h : OnLines (item :: items)) :
    OnLines items where
  oneLine i hi := h.oneLine i (.tail _ hi)
  noNul i hi := h.noNul i (.tail _ hi)
  balanced i hi := h.balanced i (.tail _ hi)

theorem not_mem_itemLine {item : String} {c : Char} (hc : c ≠ ' ') (h : c ∉ item.toList) :
    c ∉ itemLine item := by
  unfold itemLine
  rw [List.mem_append, not_or]
  refine ⟨fun hm => hc ?_, h⟩
  simpa using hm

theorem balanced_itemLine {item : String} (h : balanced 0 none item.toList = true) :
    balanced 0 none (itemLine item) = true := by
  have hindent : balanced 0 none "    ".toList = true := rfl
  unfold itemLine
  rw [← Nat.zero_add 0, balanced_append hindent 0]
  exact h

theorem depthAfter_itemLine {item : String} (h : balanced 0 none item.toList = true)
    (tail : List Char) :
    depthAfter (0, none) (itemLine item ++ tail) = depthAfter (0, none) tail := by
  have hline := depthAfter_of_balanced (balanced_itemLine h) 0
  unfold depthAfter at hline ⊢
  rw [List.foldl_append]
  exact congrArg (List.foldl _ · tail) hline

theorem linesOf_itemLines_cons {item next : String} {rest : List String}
    (h : OnLines (item :: next :: rest)) : linesOf (itemLines (item :: next :: rest)).toList =
      (itemLine item ++ [',', '\n']) :: linesOf (itemLines (next :: rest)).toList := by
  have hline : '\n' ∉ itemLine item ++ [','] := by
    rw [List.mem_append, not_or]
    exact ⟨not_mem_itemLine (by decide) (h.oneLine item (.head _)), by decide⟩
  rw [toList_itemLines_cons, linesOf_line hline, List.append_assoc]
  rfl

theorem linesOf_itemLines_singleton {item : String} (h : OnLines [item]) :
    linesOf (itemLines [item]).toList = [itemLine item ++ ['\n']] := by
  rw [toList_itemLines_singleton,
    linesOf_line (not_mem_itemLine (by decide) (h.oneLine item (.head _)))]
  rfl

/-! ## Commas -/

theorem codeOf_of_noNul {line : List Char} (h : '\x00' ∉ line) : codeOf line = trimEnd line := by
  have hsegments : segments markPattern line = [.gap line] := segmentsAfter_noNul h none
  unfold codeOf
  rw [hsegments]
  by_cases hblank : line.all isBlank = true
  · have hdrop : dropTrailing [.gap line] = [] := by simp [dropTrailing, hblank]
    have hall : line.reverse.dropWhile isBlank = [] := List.dropWhile_eq_nil_iff.2 fun c hc =>
      List.all_eq_true.1 hblank c (List.mem_reverse.1 hc)
    unfold trimEnd trimEndWhile
    rw [hdrop, hall]
    rfl
  · have hkeep : dropTrailing [.gap line] = [.gap line] := by simp [dropTrailing, hblank]
    rw [hkeep]
    exact congrArg trimEnd (List.append_nil line)

/-- No comma is missing behind a line that ends with one. -/
theorem getLast?_codeOf_comma {line : List Char} (h : '\x00' ∉ line) :
    (codeOf (line ++ [',', '\n'])).getLast? = some ',' := by
  have hnul : '\x00' ∉ line ++ [',', '\n'] := by
    rw [List.mem_append, not_or]
    exact ⟨h, by decide⟩
  rw [codeOf_of_noNul hnul]
  unfold trimEnd trimEndWhile
  simp [isBlank]

theorem not_commaMissing_itemLines (types : TypeWords) {items : List String} (h : OnLines items) :
    ¬CommaMissing types (withDepths (0, none) (linesOf (itemLines items).toList)) := by
  induction items with
  | nil =>
    rintro ⟨before, line, depth, between, next, after, he, -⟩
    exact absurd he.symm (List.append_ne_nil_of_right_ne_nil _ (List.cons_ne_nil _ _))
  | cons item items ih =>
    have hnul := not_mem_itemLine (by decide) (h.noNul item (.head _))
    have hdepth := depthAfter_itemLine (h.balanced item (.head _))
    cases items with
    | nil =>
      rw [linesOf_itemLines_singleton h, withDepths, commaMissing_cons]
      rintro (⟨-, hnext, -⟩ | hmissing)
      · cases hnext
      · obtain ⟨before, line, depth, between, next, after, he, -⟩ := hmissing
        exact absurd he.symm (List.append_ne_nil_of_right_ne_nil _ (List.cons_ne_nil _ _))
    | cons next rest =>
      have hline : depthAfter (0, none) (itemLine item ++ [',', '\n']) = (0, none) := hdepth _
      rw [linesOf_itemLines_cons h, withDepths, hline, commaMissing_cons]
      rintro (⟨-, -, c, hc, hcomma, -⟩ | hmissing)
      · rw [getLast?_codeOf_comma hnul] at hc
        exact hcomma (Option.some.inj hc).symm
      · exact ih h.tail hmissing

/-! ## Column lists -/

/-- The column list of a table, between its parentheses. -/
def bodyOf (items : List String) : List Char :=
  '\n' :: (itemLines items).toList

theorem listLines_bodyOf (items : List String) : listLines (bodyOf items) =
    (['\n'], 0) :: withDepths (0, none) (linesOf (itemLines items).toList) := by
  have hline : linesOf (bodyOf items) = ['\n'] :: linesOf (itemLines items).toList := if_pos rfl
  rw [listLines, hline]
  rfl

theorem splitClose_itemLines {items : List String} (h : OnLines items) (read ys : List Char) :
    splitClose read 0 none ((itemLines items).toList ++ ys) =
      splitClose ((itemLines items).toList.reverse ++ read) 0 none ys := by
  induction items generalizing read with
  | nil => rfl
  | cons item items ih =>
    have hline : ∀ (read zs : List Char), splitClose read 0 none (itemLine item ++ zs) =
        splitClose ((itemLine item).reverse ++ read) 0 none zs := fun read zs =>
      splitClose_append_of_balanced (balanced_itemLine (h.balanced item (.head _))) read 0 zs
    cases items with
    | nil =>
      rw [toList_itemLines_singleton, List.append_assoc, hline]
      simp [splitClose, quotationAfter, isQuoteMark]
    | cons next rest =>
      have hcomma : ∀ (read zs : List Char), splitClose read 0 none (',' :: '\n' :: zs) =
          splitClose ('\n' :: ',' :: read) 0 none zs := fun read zs => rfl
      rw [toList_itemLines_cons, List.append_assoc, List.append_assoc, List.cons_append,
        List.nil_append, List.cons_append, hline, hcomma, ih h.tail]
      simp

/-- **The parenthesis that closes a column list** is the one behind it. -/
theorem splitClose_bodyOf {items : List String} (h : OnLines items) (ys : List Char) :
    splitClose [] 0 none (bodyOf items ++ ')' :: ys) = ((bodyOf items).reverse, ')' :: ys) := by
  have hline : splitClose [] 0 none (bodyOf items ++ ')' :: ys) =
      splitClose ['\n'] 0 none ((itemLines items).toList ++ ')' :: ys) := rfl
  rw [hline, splitClose_itemLines h, bodyOf, List.reverse_cons]
  rfl

/-- **No comma is missing** in a column list. -/
theorem not_commaMissing_bodyOf (types : TypeWords) {items : List String} (h : OnLines items) :
    ¬CommaMissing types (listLines (bodyOf items)) := by
  rw [listLines_bodyOf, commaMissing_cons]
  rintro (⟨hsaid, -⟩ | hmissing)
  · have hblank : (withoutMarks ['\n']).all isBlank = true := by decide +kernel
    rw [SaysSomething, hblank] at hsaid
    cases hsaid
  · exact not_commaMissing_itemLines types h hmissing

theorem mem_of_mem_withDepths {line : List Char} {depth : Int} {lines : List (List Char)}
    {state : Int × Option Char} (h : (line, depth) ∈ withDepths state lines) : line ∈ lines := by
  induction lines generalizing state with
  | nil => cases h
  | cons l lines ih =>
    rcases List.mem_cons.1 h with he | h
    · exact (Prod.mk.inj he).1 ▸ .head _
    · exact .tail _ (ih h)

theorem mem_linesOf_itemLines {items : List String} (h : OnLines items) {line : List Char}
    (hl : line ∈ linesOf (itemLines items).toList) :
    ∃ item ∈ items, line = itemLine item ++ [',', '\n'] ∨ line = itemLine item ++ ['\n'] := by
  induction items with
  | nil => cases hl
  | cons item items ih =>
    cases items with
    | nil =>
      rw [linesOf_itemLines_singleton h] at hl
      exact ⟨item, .head _, .inr (List.mem_singleton.1 hl)⟩
    | cons next rest =>
      rw [linesOf_itemLines_cons h] at hl
      rcases List.mem_cons.1 hl with hl | hl
      · exact ⟨item, .head _, .inl hl⟩
      · obtain ⟨i, hi, hline⟩ := ih h.tail hl
        exact ⟨i, .tail _ hi, hline⟩

theorem severalWords?_lineEnd (types : TypeWords) : types.severalWords? ['\n'] = none :=
  Option.map_eq_none_iff.2 (TypeWords.nameUpToType?_notPlain (fun word rest hs => by cases hs) [])

/-- **No name of several bare words** is in a column list, if none begins an item. -/
theorem not_bareColumn_bodyOf {types : TypeWords} {items : List String} (h : OnLines items)
    (hitems : ∀ i ∈ items, ∀ tail ∈ lineEnds, types.severalWords? (itemLine i ++ tail) = none) :
    ¬BareColumn types (listLines (bodyOf items)) := by
  have hnone : ∀ {part : List Char}, types.severalWords? part = none →
      ¬(types.severalWords? part).isSome = true := fun he => by
    rw [he]
    exact Bool.false_ne_true
  rintro ⟨line, part, hline, hpart, hsome⟩
  rw [listLines_bodyOf] at hline
  refine hnone ?_ hsome
  rcases List.mem_cons.1 hline with he | hline
  · obtain ⟨rfl, -⟩ := Prod.mk.inj he
    obtain rfl := List.mem_singleton.1 hpart
    exact severalWords?_lineEnd types
  · obtain ⟨item, hi, rfl | rfl⟩ := mem_linesOf_itemLines h (mem_of_mem_withDepths hline)
    · have hbalanced := balanced_itemLine (h.balanced item hi)
      have hparts : splitParts [] 0 none (itemLine item ++ [',', '\n']) = [itemLine item, ['\n']] :=
        (splitParts_append_of_balanced hbalanced [] _).trans
          (by simp [splitParts])
      rw [hparts] at hpart
      rcases List.mem_cons.1 hpart with rfl | hpart
      · have hend := hitems item hi [] (by decide)
        rwa [List.append_nil] at hend
      · obtain rfl := List.mem_singleton.1 hpart
        exact severalWords?_lineEnd types
    · have hbalanced := balanced_itemLine (h.balanced item hi)
      have hparts : splitParts [] 0 none (itemLine item ++ ['\n']) = [itemLine item ++ ['\n']] :=
        (splitParts_append_of_balanced hbalanced [] _).trans (by simp [splitParts])
      rw [hparts] at hpart
      obtain rfl := List.mem_singleton.1 hpart
      exact hitems item hi ['\n'] (by decide)

/-! ## Tables -/

section Items

variable {s : Settings} {g : Graph} {t : Table} {keys : List KeySpec}

theorem onLines_items {is : List Item} (h : ∀ i ∈ is, ∀ p ∈ itemPieces s i, InertInside p)
    (width : Nat) : OnLines (is.map (Item.text s width)) := by
  have hall : ∀ {P : List Char → Prop}, Composes s InertInside P →
      ∀ text ∈ is.map (Item.text s width), P text.toList := by
    intro P hP text ht
    obtain ⟨i, hi, rfl⟩ := List.mem_map.1 ht
    exact hP.item (h i hi) width
  exact {
    oneLine := hall (composes_not_mem s (.inl rfl) fun h => h.oneLine)
    noNul := hall (composes_not_mem s (.inr (.inl rfl)) fun h => h.noNul)
    balanced := hall (composes_balanced s) }

/-- **No item begins with a name of several bare words.** -/
theorem severalWords?_items {types : TypeWords}
    (hwords : s.caseSensitive = false → ∀ w ∈ clauseWords, types.holds w = false)
    (htypes : s.caseSensitive = false → ∀ c ∈ t.columns, OneName types (columnType s g c))
    (width : Nat) :
    ∀ i ∈ (items s g t keys).map (Item.text s width), ∀ tail ∈ lineEnds,
      types.severalWords? (itemLine i ++ tail) = none := by
  intro text ht tail htail
  obtain ⟨i, hi, rfl⟩ := List.mem_map.1 ht
  unfold items at hi
  simp only [List.mem_append, List.mem_map] at hi
  rcases hi with (⟨c, hc, rfl⟩ | hi) | hi
  · exact severalWords?_column hwords (fun hcase => htypes hcase c hc) _ _ width htail
  · split at hi
    · obtain rfl := List.mem_singleton.1 hi
      have hword : "PRIMARY KEY (".toList = "PRIMARY".toList ++ ' ' :: "KEY (".toList := rfl
      refine severalWords?_key (isKeyword_of_mem (w := "PRIMARY") (by decide)) ?_ tail
      unfold Item.text
      rw [String.toList_append, String.toList_append, hword]
      simp only [List.append_assoc, List.cons_append]
      exact ⟨_, rfl⟩
    · cases hi
  · split at hi
    · obtain ⟨k, -, rfl⟩ := List.mem_map.1 hi
      have hword : "FOREIGN KEY (".toList = "FOREIGN".toList ++ ' ' :: "KEY (".toList := rfl
      refine severalWords?_key (isKeyword_of_mem (w := "FOREIGN") (by decide)) ?_ tail
      unfold Item.text
      rw [String.toList_append, String.toList_append, String.toList_append, hword]
      simp only [List.append_assoc, List.cons_append]
      exact ⟨_, rfl⟩
    · cases hi

end Items

end DdlGraph.Repair
