import DdlGraph.Proofs.RepairSteps

/-!
# Repairs of a whole text

Tables and the targets of foreign keys are found by their words, and these begin and end outside of
marks. So a text is cut into parts with whole marks, and is repaired part by part.

* `repairs_table`: the parts of one table are repaired apart, and the table is left as it is only
  if each of them is;
* `repairs_repairTables`: all tables;
* `repairs_targets`: the targets of foreign keys.
-/

namespace DdlGraph.Repair

open DdlGraph.Text DdlGraph.Sql

variable {q : Char}

/-! ## Headers -/

/-- A header is `IF NOT EXISTS`, if it begins so, and a name. -/
theorem header_eq_append (header : List Char) :
    header = ((start? ifNotExists header).getD []).flatten ++
      header.drop ((start? ifNotExists header).getD []).flatten.length := by
  cases hs : start? ifNotExists header with
  | none => rfl
  | some parts =>
    obtain ⟨name, hname⟩ := eq_append_of_matchAt hs
    have hheader : header = parts.flatten ++ name := hname
    show header = parts.flatten ++ header.drop parts.flatten.length
    rw [hheader, List.drop_left]

/-- Blanks at both ends of a text with a word in it. -/
theorem eq_blanks_append {cs : List Char} (h : words cs ≠ []) :
    ∃ c v, cs = cs.takeWhile isBlank ++ (c :: v ++ (cs.reverse.takeWhile isBlank).reverse) ∧
      isBlank c = false := by
  have hcs : cs.takeWhile isBlank ++ cs.dropWhile isBlank = cs := List.takeWhile_append_dropWhile
  have hhead := List.head?_dropWhile_not isBlank cs
  cases ht : cs.dropWhile isBlank with
  | nil =>
    have htrim : trimStart cs = [] := ht
    rw [words] at h
    split at h
    · exact absurd rfl h
    · rename_i hcons
      rw [htrim] at hcons
      cases hcons
  | cons c t =>
    rw [ht] at hcs hhead
    have hc : isBlank c = false := by simpa using hhead
    have hend : (c :: t).reverse.dropWhile isBlank ≠ [] := by
      intro he
      have hmem : c ∈ (c :: t).reverse.takeWhile isBlank := by
        rw [takeWhile_eq_self he]
        exact List.mem_reverse.2 (.head _)
      rw [List.all_eq_true.1 List.all_takeWhile c hmem] at hc
      cases hc
    have hback : cs.reverse.takeWhile isBlank = (c :: t).reverse.takeWhile isBlank := by
      rw [← hcs, List.reverse_append]
      simpa only [hcs] using (takeWhile_stop hend _).1
    have hsplit : ((c :: t).reverse.dropWhile isBlank).reverse ++
        (cs.reverse.takeWhile isBlank).reverse = c :: t := by
      rw [hback, ← List.reverse_append, List.takeWhile_append_dropWhile, List.reverse_reverse]
    obtain ⟨d, v, hv⟩ := List.exists_cons_of_ne_nil (mt List.reverse_eq_nil_iff.1 hend)
    rw [hv] at hsplit
    obtain rfl := (List.cons.inj hsplit).1
    exact ⟨d, v, by rw [hsplit, hcs], hc⟩

theorem repairs_repairHeader {header : List Char} (h : WholeMarks header) :
    Repairs q header (repairHeader q header) := by
  have hname := header_eq_append header
  generalize hb : ((start? ifNotExists header).getD []).flatten = before at hname
  generalize hdrop : header.drop before.length = name at hname
  unfold repairHeader
  rw [hb]
  dsimp only
  rw [hdrop]
  split
  · exact .same h
  · rename_i hplain
    rw [Bool.or_eq_true, not_or] at hplain
    have hall : allPlain name = true := by simpa using hplain.2
    have hin := inName_of_allPlain hall
    have hquoted : Repairs q name (name.takeWhile isBlank ++ quotedWords q name ++
        (name.reverse.takeWhile isBlank).reverse) := by
      have hwords : words name ≠ [] := by
        intro he
        rw [he] at hplain
        exact absurd hplain.1 (by decide)
      obtain ⟨c, v, heq, hc⟩ := eq_blanks_append hwords
      have hleading : ∀ d ∈ name.takeWhile isBlank, isBlank d = true :=
        List.all_eq_true.1 List.all_takeWhile
      have htrailing : ∀ d ∈ (name.reverse.takeWhile isBlank).reverse, isBlank d = true :=
        fun d hd => List.all_eq_true.1 List.all_takeWhile d (List.mem_reverse.1 hd)
      generalize name.takeWhile isBlank = lead at heq hleading ⊢
      generalize (name.reverse.takeWhile isBlank).reverse = trail at heq htrailing ⊢
      have hsolid : solid (c :: v) = solid name := by
        rw [heq, solid_append, solid_append, solid_of_blank hleading, solid_of_blank htrailing,
          List.append_nil, List.nil_append]
      rw [heq] at hin
      obtain ⟨hlead, hmore⟩ := List.forall_mem_append.1 hin
      have hline : c ≠ '\n' := by
        rintro rfl
        exact absurd hc (by decide)
      have hinside : ∀ d ∈ c :: v, d ∈ name := fun d hd =>
        heq ▸ List.mem_append_right _ (List.mem_append_left _ hd)
      have hrep : Repairs q (lead ++ (c :: v ++ trail)) (lead ++ (quotedWords q name ++ trail)) :=
        .append (.same (wholeMarks_of_noNul (noNul_of_inName hlead)))
          (.append (repairs_name hline hinside (heq ▸ hin) hsolid) (.same (wholeMarks_of_noNul
            (noNul_of_inName (List.forall_mem_append.1 hmore).2))))
      rw [← heq] at hrep
      rwa [List.append_assoc]
    have hbefore : WholeMarks before := (hname ▸ h).of_append_left (noNul_of_inName hin)
    have hrep := Repairs.append (.same hbefore) hquoted
    rw [← hname] at hrep
    simpa only [List.append_assoc] using hrep

/-! ## Tables -/

theorem outside_head {s : String} {c : Char} {cs : List Char} (hs : s.toList = c :: cs)
    (hc : Outside (foldChar c)) {ps : List Pattern} {w : List Char}
    (h : (Pattern.all (.wordEdge :: .word s :: ps)).Takes w) : ∃ d v, w = d :: v ∧ Outside d := by
  obtain ⟨d, v, hw, hd⟩ := Pattern.head_of_takes_word hs h
  exact ⟨d, v, hw, outside_of_foldChar hc hd⟩

theorem outsideEnds_createTable {parts : List (List Char)}
    (h : List.Forall₂ Pattern.Takes createTablePattern parts) : OutsideEnds parts.flatten := by
  have hw := takes_of_one h
  refine ⟨outside_head (s := "CREATE") rfl (by decide) hw, ?_⟩
  have hfront : createTablePattern = [.all ([.wordEdge, .word "CREATE", .gap,
      .optional (.first [.seq (.word "TEMP") .gap, .seq (.word "TEMPORARY") .gap])] ++
      [.word "TABLE", .wordEdge])] := rfl
  rw [hfront] at h
  obtain ⟨v, v', hv, -, hv'⟩ := (takes_of_one h).all_append
  obtain ⟨u, u', rfl, hu, rfl⟩ := hv'
  have hword : "TABLE".toList = "TABL".toList ++ ['E'] := rfl
  obtain ⟨t, d, rfl, hd⟩ := Pattern.last_of_takes_word hword hu
  refine ⟨v ++ t, d, ?_, outside_of_foldChar (c := 'E') (by decide) hd⟩
  rw [hv, List.append_nil, List.append_assoc]

theorem splitClose_snd (read : List Char) (depth : Nat) (open_ : Option Char) (cs : List Char) :
    (splitClose read depth open_ cs).2 = [] ∨
      ∃ rest, (splitClose read depth open_ cs).2 = ')' :: rest := by
  induction cs generalizing read depth open_ with
  | nil => exact .inl rfl
  | cons c cs ih =>
    unfold splitClose
    split
    · exact ih _ _ _
    · split
      · exact ih _ _ _
      · split
        · rename_i hc
          split
          · exact .inr ⟨cs, hc ▸ rfl⟩
          · exact ih _ _ _
        · exact ih _ _ _

theorem wholeMarks_splitClose {body : List Char} (h : WholeMarks body) :
    WholeMarks (splitClose [] 0 none body).1.reverse ∧ WholeMarks (splitClose [] 0 none body).2 := by
  have happ := splitClose_append [] 0 none body
  rw [List.reverse_nil, List.nil_append] at happ
  rw [← happ] at h
  rcases splitClose_snd [] 0 none body with hnil | ⟨rest, hrest⟩
  · rw [hnil, List.append_nil] at h
    rw [hnil]
    exact ⟨h, .nil⟩
  · rw [hrest] at h ⊢
    obtain ⟨hbody, hafter⟩ := h.split (by decide)
    exact ⟨hbody, .char (by decide) hafter⟩

/-- The words `CREATE TABLE` cut a text in three. -/
structure WordsCut (cs passed found rest : List Char) : Prop where
  eq : cs = passed ++ (found ++ rest)
  found_ne_nil : found ≠ []
  whole_passed : WholeMarks passed
  whole_found : WholeMarks found
  whole_rest : WholeMarks rest

theorem wordsCut_of_search {before : Option Char} {cs passed : List Char}
    {parts : List (List Char)} (h : WholeMarks cs)
    (hs : search? createTablePattern [] before 0 cs = some (passed, parts)) :
    WordsCut cs passed.reverse parts.flatten
      (cs.drop (passed.length + parts.flatten.length)) := by
  obtain ⟨rest, hcs⟩ := eq_append_of_search hs
  rw [List.reverse_nil, List.nil_append] at hcs
  have hdrop : cs.drop (passed.length + parts.flatten.length) = rest := by
    rw [hcs, ← List.append_assoc, ← List.length_reverse, ← List.length_append, List.drop_left]
  obtain ⟨⟨c, v, hw, hc⟩, v', d, hw', hd⟩ := outsideEnds_createTable (takes_of_search hs)
  obtain ⟨hpassed, hfound, hrest⟩ := (hcs ▸ h).around hw hw' hc hd
  rw [hdrop]
  exact ⟨hcs, hw ▸ List.cons_ne_nil _ _, hpassed, hfound, hrest⟩

/-- The parentheses around a column list cut what follows these words. -/
structure ListCut (cs header body after : List Char) : Prop where
  eq : cs = header ++ '(' :: (body ++ after)
  whole_header : WholeMarks header
  whole_body : WholeMarks body
  whole_after : WholeMarks after

theorem listCut_of_splitOpen {cs header body : List Char} (h : WholeMarks cs)
    (ho : splitOpen? [] none cs = some (header, body)) :
    ListCut cs header.reverse (splitClose [] 0 none body).1.reverse
      (splitClose [] 0 none body).2 := by
  have hcs := splitOpen_append ho
  rw [List.reverse_nil, List.nil_append] at hcs
  obtain ⟨hheader, hbody⟩ := (hcs ▸ h).split (by decide)
  obtain ⟨hlist, hafter⟩ := wholeMarks_splitClose hbody
  have happ := splitClose_append [] 0 none body
  rw [List.reverse_nil, List.nil_append] at happ
  exact ⟨happ.symm ▸ hcs, hheader, hlist, hafter⟩

variable (types : TypeWords)

/-- **One table**: its header, its column list and what follows are repaired apart. -/
theorem repairs_table (hq : AroundNames q) {cs passed found rest header body after after' : List Char}
    (hwords : WordsCut cs passed found rest) (hlist : ListCut rest header body after)
    (hafter : Repairs q after after') :
    Repairs q cs (passed ++ found ++ repairHeader q header ++
        '(' :: repairBody types q body ++ after') ∧
      (passed ++ found ++ repairHeader q header ++ '(' :: repairBody types q body ++ after' = cs ↔
        (repairHeader q header = header ∧ repairBody types q body = body) ∧ after' = after) := by
  have hcs : passed ++ found ++ header ++ '(' :: body ++ after = cs := by
    rw [hwords.eq, hlist.eq]
    simp only [List.append_assoc, List.cons_append]
  have hhead : Repairs q (passed ++ found ++ header) (passed ++ found ++ repairHeader q header) :=
    .append (.append (.same hwords.whole_passed) (.same hwords.whole_found))
      (repairs_repairHeader hlist.whole_header)
  have hbody : Repairs q ('(' :: body) ('(' :: repairBody types q body) :=
    .append (.same (wholeMarks_of_noNul (show '\x00' ∉ ['('] by decide)))
      (repairs_repairBody types hq hlist.whole_body)
  have hfront := hhead.append hbody
  refine ⟨hcs ▸ hfront.append hafter, fun he => ?_, fun ⟨⟨hh, hb⟩, ha⟩ => by rw [hh, hb, ha, hcs]⟩
  obtain ⟨hkept, ha⟩ := hfront.eq_of_append hq hafter (hcs.trans he.symm)
  obtain ⟨hh, hb⟩ := hhead.eq_of_append hq hbody hkept
  exact ⟨⟨(List.append_cancel_left hh).symm, (List.cons.inj hb).2.symm⟩, ha.symm⟩

theorem repairs_repairTables (hq : AroundNames q) {cs : List Char} (h : WholeMarks cs)
    (before : Option Char) : Repairs q cs (repairTables types q before cs) := by
  fun_induction repairTables types q before cs with
  | case1 | case2 => exact .same h
  | case3 before cs passed parts hs found rest _ _ ih =>
    have hcut := wordsCut_of_search h hs
    have hrep := Repairs.append (.append (.same hcut.whole_passed) (.same hcut.whole_found))
      (ih hcut.whole_rest)
    rw [List.append_assoc, ← hcut.eq] at hrep
    exact hrep
  | case4 before cs passed parts hs found rest _ header body ho r ih =>
    have hcut := wordsCut_of_search h hs
    have hlist := listCut_of_splitOpen hcut.whole_rest ho
    exact (repairs_table types hq hcut hlist (ih hlist.whole_after)).1

/-! ## Targets of foreign keys -/

/-- The three parts of a target: the words before its name, the name, and what follows up to the
parenthesis. -/
theorem exists_of_takes_target {parts : List (List Char)}
    (h : List.Forall₂ Pattern.Takes targetPattern parts) :
    ∃ before name blanks, parts = [before, name, blanks ++ ['(']] ∧
      (∃ c v, before = c :: v ∧ Outside c) ∧ (∃ c v, name = c :: v ∧ c ≠ '\n') ∧
      ∀ c ∈ blanks, isInlineBlank c = true := by
  cases h with
  | cons hbefore h =>
    cases h with
    | cons hname h =>
      cases h with
      | cons hafter h =>
        cases h
        obtain ⟨blanks, v, rfl, hblanks, c, rfl, hc⟩ := hafter
        rw [eq_of_beq hc]
        obtain ⟨_, _, rfl, ⟨_, _, rfl, ⟨d, rfl, hd⟩, -⟩, -⟩ := hname.all_cons
        have hline : d ≠ '\n' := by
          rintro rfl
          exact absurd hd (by decide)
        exact ⟨_, _, blanks, rfl, outside_head (s := "REFERENCES") rfl (by decide) hbefore,
          ⟨d, _, rfl, hline⟩, hblanks⟩

theorem outsideEnds_target {parts : List (List Char)}
    (h : List.Forall₂ Pattern.Takes targetPattern parts) : OutsideEnds parts.flatten := by
  obtain ⟨before, name, blanks, rfl, ⟨c, v, rfl, hc⟩, -, -⟩ := exists_of_takes_target h
  refine ⟨⟨c, v ++ (name ++ (blanks ++ ['('])), ?_, hc⟩, c :: v ++ (name ++ blanks), '(', ?_,
    by decide⟩
  · simp
  · simp

/-- A target whose name the repair quotes. -/
def BareTarget (parts : List (List Char)) : Prop :=
  ∃ before name after, parts = [before, name, after] ∧ allPlain name = true

theorem repairs_quoteTarget (hq : AroundNames q) {parts : List (List Char)}
    (h : List.Forall₂ Pattern.Takes targetPattern parts) (hw : WholeMarks parts.flatten) :
    Repairs q parts.flatten (quoteTarget q parts) ∧
      (quoteTarget q parts = parts.flatten ↔ ¬BareTarget parts) := by
  obtain ⟨before, name, blanks, rfl, -, ⟨d, v, rfl, hd⟩, hblanks⟩ := exists_of_takes_target h
  unfold quoteTarget
  split
  · rename_i before' name' after' he
    cases he
    split
    · rename_i hplain
      have hin := inName_of_allPlain hplain
      have hafter : '\x00' ∉ blanks ++ ['('] := by
        intro hmem
        rcases List.mem_append.1 hmem with hmem | hmem
        · exact absurd (hblanks _ hmem) (by decide)
        · exact absurd (List.mem_singleton.1 hmem) (by decide)
      have hflat : [before, d :: v, blanks ++ ['(']].flatten =
          before ++ (d :: v ++ (blanks ++ ['('])) := by
        simp
      rw [hflat] at hw ⊢
      have hbefore : WholeMarks before := by
        rw [← List.append_assoc] at hw
        exact (hw.of_append_left hafter).of_append_left (noNul_of_inName hin)
      rw [List.append_assoc]
      have hquoted : Repairs q (d :: v) (quotedWords q (d :: v)) :=
        repairs_name hd (fun _ => id) hin rfl
      refine ⟨.append (.same hbefore) (.append hquoted (.same (wholeMarks_of_noNul hafter))), ?_⟩
      refine iff_of_false (fun he => ?_) (not_not_intro ⟨_, _, _, rfl, hplain⟩)
      have hname := List.append_cancel_right (List.append_cancel_left he)
      exact hq.not_mem hin (hname ▸ .head _)
    · rename_i hplain
      refine ⟨.same hw, iff_of_true rfl ?_⟩
      rintro ⟨_, _, _, he, hp⟩
      cases he
      exact hplain hp
  · rename_i hne
    exact absurd rfl (hne _ _ _)

/-- The text that stands for a piece after replacing. -/
def replaced (f : List (List Char) → List Char) : Segment → List Char
  | .gap text => text
  | .found parts => f parts

theorem replace_eq (ps : List Pattern) (f : List (List Char) → List Char) (cs : List Char) :
    replace ps f cs = (segments ps cs).flatMap (replaced f) := by
  unfold replace
  refine List.flatMap_congr fun piece _ => ?_
  cases piece <;> rfl

theorem mem_occurrences {ps : List Pattern} {cs : List Char} {parts : List (List Char)} :
    parts ∈ occurrences ps cs ↔ .found parts ∈ segments ps cs := by
  unfold occurrences
  rw [List.mem_filterMap]
  constructor
  · rintro ⟨piece, hp, he⟩
    cases piece with
    | gap => cases he
    | found => cases he; exact hp
  · exact fun h => ⟨_, h, rfl⟩

/-- **Targets**: each that has several bare words is quoted, and nothing else changes. -/
theorem repairs_targets (hq : AroundNames q) {cs : List Char} (h : WholeMarks cs) :
    Repairs q cs (replace targetPattern (quoteTarget q) cs) ∧
      (replace targetPattern (quoteTarget q) cs = cs ↔
        ∀ parts ∈ occurrences targetPattern cs, ¬BareTarget parts) := by
  have hpieces : ∀ piece ∈ segments targetPattern cs, WholeMarks piece.text := fun piece hp =>
    wholeMarks_of_mem_segmentsAfter (fun parts => outsideEnds_target) h hp
  have hstep : ∀ piece ∈ segments targetPattern cs,
      Repairs q piece.text (replaced (quoteTarget q) piece) := by
    intro piece hp
    cases piece with
    | gap g => exact .same (hpieces _ hp)
    | found parts => exact (repairs_quoteTarget hq (takes_of_mem_segments hp) (hpieces _ hp)).1
  have hall : List.Forall₂ (fun x y => Repairs q x.text (replaced (quoteTarget q) y))
      (segments targetPattern cs) (segments targetPattern cs) :=
    List.forall₂_same.2 hstep
  have htext := flatten_segments targetPattern cs
  have hrep := Repairs.flatMap hall
  rw [replace_eq]
  rw [htext] at hrep
  refine ⟨hrep, fun he => ?_, fun hnone => ?_⟩
  · have hsame := List.forall₂_same.1 (Repairs.eq_of_flatMap hq hall (htext.trans he.symm))
    intro parts hp
    have hfound := mem_occurrences.1 hp
    exact (repairs_quoteTarget hq (takes_of_mem_segments hfound) (hpieces _ hfound)).2.1
      (hsame _ hfound).symm
  · conv_rhs => rw [← htext]
    refine List.flatMap_congr fun piece hp => ?_
    cases piece with
    | gap g => rfl
    | found parts =>
      exact (repairs_quoteTarget hq (takes_of_mem_segments hp) (hpieces _ hp)).2.2
        (hnone parts (mem_occurrences.2 hp))

end DdlGraph.Repair
