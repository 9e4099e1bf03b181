import DdlGraph.Proofs.PutAsideText
import DdlGraph.Proofs.ReadApart
import DdlGraph.Proofs.RepairSteps

/-!
# Foreign keys that are dropped

A statement that adds a constraint and stands before, letter by letter, is cut out of the raw text
behind the line that begins the foreign keys. Where the statements that stand twice begin and end as
statements do (`RepeatedStandApart`), each of them is read for itself, and it says what the first
one says: nothing is taken from the script but foreign keys that stay in it (`Thinned`). A copy in a
comment or in a string counts as a first one as well, and then the only statement is lost.

* `tokensOf_alter`, `tokensOf_lastSemicolon`: the tokens of what is cut out;
* `statements_alter`: it is one statement, which adds a foreign key, or none;
* `thinned_dropRepeated`: what is dropped is read before, one piece after the other;
* `thinned_dropRepeatedKeys`: so the script of the text is thinned, and that is all.
-/

namespace DdlGraph.Sql

open DdlGraph.Text

/-! ## Statements that alter a table -/

/-- In the class of a letter other than `S` and `K` there are its two cases only. -/
theorem ascii_of_foldChar {d : Char} (h : (foldChar d).isAlpha = true) (hs : foldChar d ≠ 'S')
    (hk : foldChar d ≠ 'K') : d.toNat < 128 := by
  rcases toNat_of_foldChar h with hd | hsharp | hkelvin
  · exact hd
  · rw [← Char.ofNat_toNat d, hsharp] at hs
    exact absurd (by decide) hs
  · rw [← Char.ofNat_toNat d, hkelvin] at hk
    exact absurd (by decide +kernel) hk

theorem upperChar_of_foldChar {d : Char} (h : (foldChar d).isAlpha = true) (hs : foldChar d ≠ 'S')
    (hk : foldChar d ≠ 'K') : upperChar d = [foldChar d] ∧ isWordPart d = true := by
  have hd := ascii_of_foldChar h hs hk
  refine ⟨by rw [upperChar, foldChar, if_pos hd, if_pos hd], ?_⟩
  revert h
  exact of_ascii (p := fun d => (foldChar d).isAlpha = true → isWordPart d = true) (by decide) hd

/-- The letters of a word without `S` and `K`, in any case. -/
theorem upper_of_foldChar {cs u : List Char}
    (hcs : (cs.all fun c => c.isAlpha && c != 'S' && c != 'K' && foldChar c == c) = true)
    (hu : List.Forall₂ (fun c d => foldChar d = foldChar c) cs u) :
    u.flatMap upperChar = cs ∧ ∀ d ∈ u, isWordPart d = true := by
  induction hu with
  | nil => exact ⟨rfl, fun d hd => absurd hd List.not_mem_nil⟩
  | @cons c d cs u hd _ ih =>
    obtain ⟨hc, hrest⟩ := Bool.and_eq_true_iff.1 (List.all_cons ▸ hcs)
    simp only [Bool.and_eq_true, bne_iff_ne, beq_iff_eq] at hc
    obtain ⟨⟨⟨hletter, hs⟩, hk⟩, hfold⟩ := hc
    rw [hfold] at hd
    obtain ⟨hupper, hpart⟩ := ih hrest
    obtain ⟨hd', hword⟩ := upperChar_of_foldChar (hd ▸ hletter) (hd ▸ hs) (hd ▸ hk)
    rw [List.flatMap_cons, hd', hd, hupper]
    exact ⟨rfl, List.forall_mem_cons.2 ⟨hword, hpart⟩⟩

/-- **The word that begins a statement**, in any case. -/
theorem tokensOf_alter {b : Bool} {u : List Char}
    (hu : List.Forall₂ (fun c d => foldChar d = foldChar c) ['A', 'L', 'T', 'E', 'R'] u) {e : Char}
    (he : isBlank e = true) (rest : List Char) :
    tokensOf b (u ++ e :: rest) = .keyword .alter :: tokensOf b (e :: rest) := by
  obtain ⟨hupper, hpart⟩ := upper_of_foldChar (by decide) hu
  cases hu with
  | @cons _ d _ u hd _ =>
    have hletter : d = 'A' ∨ d = 'a' := by
      have hclass : foldChar d = 'A' := hd
      have hascii : d.toNat < 128 := by
        apply ascii_of_foldChar <;> rw [hclass] <;> decide
      revert hclass
      exact of_ascii (p := fun d => foldChar d = 'A' → d = 'A' ∨ d = 'a') (by decide) hascii
    have hword (cs : List Char) : lexeme b d cs = wordLexeme d cs := by
      rcases hletter with rfl | rfl <;> rfl
    have hstop : isWordPart e = false := Repair.isWordPart_of_isBlank he
    have htake : (u ++ e :: rest).takeWhile isWordPart = u := by
      rw [List.takeWhile_append_of_pos fun c hc => hpart c (List.mem_cons_of_mem _ hc)]
      simp [hstop]
    have hdrop : (u ++ e :: rest).dropWhile isWordPart = e :: rest := by
      rw [List.dropWhile_append_of_pos fun c hc => hpart c (List.mem_cons_of_mem _ hc)]
      simp [hstop]
    have hnoQuote (more : List Char) : e :: rest ≠ '\'' :: more := by
      rintro heq
      rw [(List.cons.inj heq).1] at he
      exact absurd he (by decide)
    have htoken : Token.ofWord (.ofList (d :: u)) = .keyword .alter := by
      have hcapital : upper (.ofList (d :: u)) = "ALTER" := by
        rw [upper, String.toList_ofList, hupper]
      unfold Token.ofWord Keyword.ofWord?
      rw [hcapital]
      rfl
    rw [List.cons_append, tokensOf_cons, hword,
      wordLexeme_of_no_apostrophe (by rw [hdrop]; exact hnoQuote), htake, hdrop, htoken]
    rfl

theorem ofWord_ne_semicolon (word : String) : Token.ofWord word ≠ .semicolon := by
  unfold Token.ofWord
  split <;> exact nofun

/-- Only a semicolon spells one. -/
theorem semicolon_raw {b : Bool} {c : Char} {cs : List Char}
    (h : (lexeme b c cs).1.token = some .semicolon) : (lexeme b c cs).1.raw = [';'] := by
  cases opens c with
  | skip p hc | quote hc | string hc | number hc | stray hc =>
    rw [hc] at h
    cases h
  | minus hc =>
    rw [hc] at h
    unfold minusLexeme at h
    repeat' split at h
    all_goals cases h
  | slash hc =>
    rw [hc] at h
    unfold slashLexeme at h
    split at h <;> cases h
  | bracket hc =>
    rw [hc] at h
    unfold bracketLexeme at h
    split at h <;> cases h
  | word hc =>
    rw [hc] at h
    unfold wordLexeme at h
    split at h
    · dsimp only at h
      split at h
      · cases h
      · exact absurd (Option.some.inj h) (ofWord_ne_semicolon _)
    · exact absurd (Option.some.inj h) (ofWord_ne_semicolon _)
  | mark t ht hc =>
    rw [hc] at h ⊢
    obtain rfl : t = .semicolon := Option.some.inj h
    have hmark : c = ';' := by
      unfold punctuation? at ht
      split at ht <;> first | rfl | cases ht
    rw [hmark]
    rfl

/-- A text with a semicolon at its end only spells one there, or none. -/
theorem tokensOf_lastSemicolon {b : Bool} {cs : List Char} (h : ';' ∉ cs.dropLast) :
    ∃ body, .semicolon ∉ body ∧ (tokensOf b cs = body ∨ tokensOf b cs = body ++ [.semicolon]) := by
  unfold tokensOf
  fun_induction lexemes b cs with
  | case1 => exact ⟨[], List.not_mem_nil, .inl rfl⟩
  | case2 c cs ih =>
    have hraw := lexeme_raw_rest b c cs
    have hlast (hne : (lexeme b c cs).2 ≠ []) :
        (c :: cs).dropLast = (lexeme b c cs).1.raw ++ (lexeme b c cs).2.dropLast := by
      rw [← hraw, List.dropLast_append_of_ne_nil hne]
    have hrest : ';' ∉ (lexeme b c cs).2.dropLast := by
      by_cases hne : (lexeme b c cs).2 = []
      · simp [hne]
      · rw [hlast hne] at h
        exact fun hmem => h (List.mem_append_right _ hmem)
    obtain ⟨body, hbody, htokens⟩ := ih hrest
    rw [List.filterMap_cons]
    cases ht : (lexeme b c cs).1.token with
    | none => exact ⟨body, hbody, htokens⟩
    | some t =>
      by_cases hsemi : t = .semicolon
      · have hnil : (lexeme b c cs).2 = [] := by
          by_contra hne
          rw [hlast hne, semicolon_raw (hsemi ▸ ht)] at h
          exact h List.mem_cons_self
        refine ⟨[], List.not_mem_nil, .inr ?_⟩
        rw [hnil, lexemes, hsemi]
        rfl
      · refine ⟨t :: body, by simp [Ne.symm hsemi, hbody], ?_⟩
        dsimp only
        exact htokens.imp (congrArg (t :: ·)) (congrArg (t :: ·))

/-- Behind the next semicolon nothing follows. -/
def EndsOnce (ts : Input) : Prop :=
  ∀ us, us <:+ ts → nextToken (skipStatement us) = .endOfText

theorem endsOnce_row {ts : List Token} (h : .semicolon ∉ ts.dropLast) :
    EndsOnce (row (ts ++ [.endOfText])) := by
  intro us hus
  induction ts generalizing us with
  | nil =>
    rcases List.suffix_cons_iff.1 hus with rfl | hus
    · simp [skipStatement, nextToken]
    · rw [List.suffix_nil.1 hus, skipStatement]
      rfl
  | cons t ts ih =>
    have hrest : .semicolon ∉ ts.dropLast := by
      cases ts with
      | nil => exact List.not_mem_nil
      | cons u ts => exact fun hmem => h (List.mem_cons_of_mem _ hmem)
    rw [List.cons_append, row_cons] at hus
    rcases List.suffix_cons_iff.1 hus with rfl | hus
    · by_cases hsemi : t = .semicolon
      · have hnil : ts = [] := by
          cases ts with
          | nil => rfl
          | cons u ts => exact absurd (hsemi ▸ List.mem_cons_self) h
        simp [skipStatement, nextToken, hsemi, hnil, row]
      by_cases hend : t = .endOfText
      · simp [skipStatement, nextToken, hend]
      · simp only [skipStatement, hsemi, hend, if_false]
        exact ih hrest _ (List.suffix_refl _)
    · exact ih hrest us hus

/-- **What alters a table**, of whose tokens `ts` were left: it adds a foreign key or counts for
nothing, and ends with its semicolon, or it is wrong. -/
inductive AltersOnly (ts : Input) : Step (Option Statement) → Prop where
  | nothing (us : Input) (left : us <:+ ts) : AltersOnly ts (.ok none (skipStatement us))
  | key (table : String) (key : KeyDef) (us : Input) (left : us <:+ ts) :
      AltersOnly ts (.ok (some (.alterForeignKey table key)) (skipStatement us))
  | wrong (e : SyntaxError) (us : Input) (left : us <:+ ts) : AltersOnly ts (.fail e us)

theorem AltersOnly.of_suffix {us ts : Input} {s : Step (Option Statement)} (h : AltersOnly us s)
    (hus : us <:+ ts) : AltersOnly ts s := by
  cases h with
  | nothing vs left => exact .nothing vs (left.trans hus)
  | key table key vs left => exact .key table key vs (left.trans hus)
  | wrong e vs left => exact .wrong e vs (left.trans hus)

theorem addedKey_altersOnly (table : String) (ts : Input) : AltersOnly ts (addedKey table ts) := by
  refine AltersOnly.of_suffix ?_ (skipKeyName_suffix ts)
  show AltersOnly (skipKeyName ts) (keyOrNothing table (skipKeyName ts))
  generalize skipKeyName ts = ts
  unfold keyOrNothing
  split
  · rename_i line ts
    have hrest := (foreignKey_suffix ts).trans (List.suffix_cons ⟨.keyword .foreign, line⟩ ts)
    unfold Step.bind
    split
    · rename_i key _
      exact .key table key _ hrest
    · exact .wrong _ _ hrest
  · exact .nothing _ (List.suffix_refl _)

theorem alter_altersOnly (ts : Input) : AltersOnly ts (alter ts) := by
  unfold alter
  split
  · rename_i line ts
    have honly : skipToken (skipIfNotExists ts) (.keyword .only) <:+ ts :=
      (skipToken_suffix _ _).trans (skipIfNotExists_suffix _)
    refine AltersOnly.of_suffix ?_ (List.suffix_cons _ ts)
    dsimp only
    split
    · rename_i h
      have hname := (objectName?_suffix h).trans ((List.tail_suffix _).trans honly)
      exact (addedKey_altersOnly _ _).of_suffix ((List.suffix_cons _ _).trans hname)
    · rename_i h
      exact .nothing _ ((objectName?_suffix h).trans ((List.tail_suffix _).trans honly))
    · exact .nothing _ honly
  · exact .nothing _ (List.suffix_refl _)

/-- Adds a foreign key to a table. -/
def Statement.AddsKey (s : Statement) : Prop :=
  ∃ table key, s = .alterForeignKey table key

theorem ofTokens_of_end {ts : Input} (h : nextToken ts = .endOfText) : Script.ofTokens ts = {} := by
  cases ts with
  | nil => rw [Script.ofTokens]
  | cons p rest =>
    have hp : p.token = .endOfText := h
    simp [Script.ofTokens, hp]

/-- **One statement that alters a table.** -/
theorem addsKey_of_endsOnce {p : Placed} (hp : p.token = .keyword .alter) {ts : Input}
    (h : EndsOnce ts) : ∀ s ∈ (Script.ofTokens (p :: ts)).statements, s.AddsKey := by
  have hfirst : statement p ts = alter ts := by rw [statement, hp]
  rw [Script.ofTokens_cons (by rw [hp]; decide), hfirst]
  have haltered := alter_altersOnly ts
  generalize alter ts = altered at haltered
  cases haltered with
  | nothing us left => simp [Script.after, Step.ok, ofTokens_of_end (h us left)]
  | key table key us left =>
    simp [Script.after, Step.ok, ofTokens_of_end (h us left), Statement.AddsKey]
  | wrong e us left => simp [Script.after, Step.fail, ofTokens_of_end (h us left)]

/-- **A text that begins with `ALTER`** and has a semicolon at its end only is one statement, which
adds a foreign key, or none. -/
theorem statements_alter {b : Bool} {u : List Char}
    (hu : List.Forall₂ (fun c d => foldChar d = foldChar c) ['A', 'L', 'T', 'E', 'R'] u) {e : Char}
    (he : isBlank e = true) {v : List Char} (hv : ';' ∉ (e :: v).dropLast) :
    ∀ s ∈ (scriptOf b (u ++ e :: v)).statements, s.AddsKey := by
  obtain ⟨body, hbody, htokens⟩ := tokensOf_lastSemicolon (b := b) hv
  rw [scriptOf, tokensOf_alter hu he]
  apply addsKey_of_endsOnce rfl
  apply endsOnce_row
  rcases htokens with htokens | htokens
  · rw [htokens]
    exact fun hmem => hbody (List.dropLast_subset _ hmem)
  · rw [htokens, List.dropLast_concat]
    exact hbody

end DdlGraph.Sql

namespace DdlGraph.Repair

open DdlGraph.Text DdlGraph.Sql

/-! ## Lists of statements -/

/-- **Thinned list**: the statements of the first list in their order, without some that add a
foreign key and stand before, in `kept` or among those that stay. -/
inductive Thinned : List Statement → List Statement → List Statement → Prop where
  | nil {kept : List Statement} : Thinned kept [] []
  | keep {kept xs ys : List Statement} {s : Statement} (rest : Thinned (kept ++ [s]) xs ys) :
      Thinned kept (s :: xs) (s :: ys)
  | drop {kept xs ys : List Statement} {s : Statement} (key : s.AddsKey) (before : s ∈ kept)
      (rest : Thinned kept xs ys) : Thinned kept (s :: xs) ys

section
variable {kept xs ys xs' ys' : List Statement}

theorem Thinned.keeps (h : Thinned (kept ++ xs) xs' ys') : Thinned kept (xs ++ xs') (xs ++ ys') := by
  induction xs generalizing kept with
  | nil => rwa [List.append_nil] at h
  | cons s xs ih =>
    apply Thinned.keep
    apply ih
    rwa [List.append_assoc, List.singleton_append]

theorem Thinned.drops (hxs : ∀ s ∈ xs, s.AddsKey ∧ s ∈ kept) (h : Thinned kept xs' ys') :
    Thinned kept (xs ++ xs') ys' := by
  induction xs with
  | nil => exact h
  | cons s xs ih =>
    obtain ⟨hkey, hkept⟩ := hxs s List.mem_cons_self
    exact .drop hkey hkept (ih fun t ht => hxs t (List.mem_cons_of_mem _ ht))

theorem Thinned.refl (kept xs : List Statement) : Thinned kept xs xs := by
  have hnil : Thinned (kept ++ xs) [] [] := .nil
  simpa using hnil.keeps

end

/-! ## Statements that stand twice -/

theorem trimEnd_blanks {cs blanks : List Char} (h : ∀ c ∈ blanks, isBlank c = true) :
    trimEnd (cs ++ blanks) = trimEnd cs := by
  unfold trimEnd trimEndWhile
  rw [List.reverse_append, List.dropWhile_append_of_pos fun c hc => h c (List.mem_reverse.1 hc)]

theorem trimEnd_semicolon (cs : List Char) : trimEnd (cs ++ [';']) = cs ++ [';'] := by
  have hmark : isBlank ';' = false := by decide
  simp [trimEnd, trimEndWhile, hmark]

/-- A statement is what is found, without blanks at its end. -/
theorem exists_blanks_of_takes_alter {parts : List (List Char)}
    (h : List.Forall₂ Pattern.Takes alterPattern parts) :
    (∃ blanks, (∀ c ∈ blanks, isBlank c = true) ∧ parts.flatten = trimEnd parts.flatten ++ blanks) ∧
      ∀ b, ∀ s ∈ (scriptOf b (trimEnd parts.flatten)).statements, s.AddsKey := by
  obtain ⟨alter, e, v, blanks, end_, hflat, halter, he, hv, hblanks, hend⟩ := word_of_takes_alter h
  have hline : ∀ c ∈ blanks ++ end_, isBlank c = true := by
    intro c hc
    rcases List.mem_append.1 hc with hc | hc
    · exact isBlank_of_isInlineBlank (hblanks c hc)
    · rcases hend with rfl | rfl
      · rw [List.mem_singleton.1 hc]
        decide
      · cases hc
  have hcut : parts.flatten = alter ++ e :: v ++ [';'] ++ (blanks ++ end_) := by
    rw [hflat]
    simp only [List.append_assoc, List.cons_append, List.nil_append]
  have htrim : trimEnd parts.flatten = alter ++ e :: (v ++ [';']) := by
    rw [hcut, trimEnd_blanks hline, trimEnd_semicolon]
    simp only [List.append_assoc, List.cons_append]
  rw [htrim]
  refine ⟨⟨_, hline, by rw [hcut]; simp only [List.append_assoc, List.cons_append]⟩, fun b => ?_⟩
  apply statements_alter (Pattern.takes_word (by decide) halter) he
  rw [← List.cons_append, List.dropLast_concat]
  exact fun hm => hv (List.mem_append_right _ hm)

/-- **Statements that stand twice stand apart**: where a statement that adds a constraint is one of
the `others` or comes again, the text `before` it is read apart, and so is the text with it. -/
def StandApart (b : Bool) (others : List (List Char)) (before : List Char) : List Segment → Prop
  | [] => True
  | .gap text :: cut => StandApart b others (before ++ text) cut
  | .found parts :: cut =>
    (addsConstraint (trimEnd parts.flatten) →
      trimEnd parts.flatten ∈ others ∨ trimEnd parts.flatten ∈ addedConstraints cut →
      ReadApart b before ∧ ReadApart b (before ++ trimEnd parts.flatten)) ∧
    StandApart b (trimEnd parts.flatten :: others) (before ++ parts.flatten) cut

/-- **Behind a statement that stands apart** a text is read as if it began there. -/
theorem readApart_statement {b : Bool} {front pre text : List Char} (hfront : ReadApart b front)
    {blanks : List Char} (hblanks : ∀ c ∈ blanks, isBlank c = true)
    (hpre : ReadApart b (front ++ pre)) (htext : ReadApart b (front ++ pre ++ text)) :
    ReadApart b (front ++ (pre ++ (text ++ blanks))) ∧
      ∀ more, (scriptOf b (pre ++ ((text ++ blanks) ++ more))).statements =
        (scriptOf b pre).statements ++ ((scriptOf b text).statements ++
          (scriptOf b more).statements) := by
  have hblank : ReadApart b blanks := readApart_of_closed (closed_blanks hblanks b)
  have hpre' : ReadApart b pre := hfront.of_append hpre
  have htext' : ReadApart b text := hpre.of_append htext
  constructor
  · rw [← List.append_assoc, ← List.append_assoc]
    exact htext.append hblank
  · intro more
    have hnone : scriptOf b (blanks ++ more) = scriptOf b more :=
      scriptOf_of_tokens (closed_blanks hblanks b more)
    rw [hpre', List.append_assoc, htext', hnone]
    rfl

/-- **What is dropped is read before**: `front` is what stands before the last place where reading
began anew, `pre` what stands behind it. -/
theorem thinned_dropRepeated {b : Bool} {cut : List Segment} {others seen : List (List Char)}
    {front pre : List Char} {kept : List Statement}
    (htakes : ∀ parts, .found parts ∈ cut → List.Forall₂ Pattern.Takes alterPattern parts)
    (hfront : ReadApart b front) (h : StandApart b others (front ++ pre) cut)
    (hothers : ∀ t ∈ seen, t ∈ others)
    (hseen : ∀ t ∈ seen, t ∈ addedConstraints cut → ∀ s ∈ (scriptOf b t).statements, s ∈ kept) :
    Thinned kept (scriptOf b (pre ++ cut.flatMap Segment.text)).statements
      (scriptOf b (pre ++ dropRepeated seen cut)).statements := by
  induction cut generalizing others seen front pre kept with
  | nil => exact .refl _ _
  | cons piece cut ih =>
    have hrest : ∀ parts, .found parts ∈ cut → List.Forall₂ Pattern.Takes alterPattern parts :=
      fun parts hp => htakes parts (List.mem_cons_of_mem _ hp)
    rw [List.flatMap_cons]
    cases piece with
    | gap text =>
      rw [dropRepeated, ← List.append_assoc, ← List.append_assoc]
      apply ih hrest hfront _ hothers hseen
      rw [← List.append_assoc]
      exact h
    | found parts =>
      obtain ⟨⟨blanks, hblanks, hflat⟩, hkeys⟩ :=
        exists_blanks_of_takes_alter (htakes parts List.mem_cons_self)
      obtain ⟨happart, hcut⟩ := h
      have hfound := dropRepeated_found seen parts cut
      rw [addedConstraints_found] at hseen
      generalize trimEnd parts.flatten = statement at hflat hkeys happart hcut hfound hseen
      have htext : (Segment.found parts).text = parts.flatten := rfl
      -- What stays without standing twice is a part of the text before the next statement.
      have stays {seen' : List (List Char)}
          (hothers' : ∀ t ∈ seen', t ∈ statement :: others)
          (hseen' : ∀ t ∈ seen', t ∈ addedConstraints cut →
            ∀ s ∈ (scriptOf b t).statements, s ∈ kept) :
          Thinned kept (scriptOf b (pre ++ (parts.flatten ++ cut.flatMap Segment.text))).statements
            (scriptOf b (pre ++ (parts.flatten ++ dropRepeated seen' cut))).statements := by
        rw [← List.append_assoc, ← List.append_assoc]
        apply ih hrest hfront _ hothers' hseen'
        rw [← List.append_assoc]
        exact hcut
      -- Behind a statement that stands apart reading begins anew.
      have next {seen' : List (List Char)} {kept' : List Statement}
          (hfront' : ReadApart b (front ++ (pre ++ (statement ++ blanks))))
          (hothers' : ∀ t ∈ seen', t ∈ statement :: others)
          (hseen' : ∀ t ∈ seen', t ∈ addedConstraints cut →
            ∀ s ∈ (scriptOf b t).statements, s ∈ kept') :
          Thinned kept' (scriptOf b (cut.flatMap Segment.text)).statements
            (scriptOf b (dropRepeated seen' cut)).statements := by
        have hcut' : StandApart b (statement :: others)
            (front ++ (pre ++ (statement ++ blanks)) ++ []) cut := by
          rw [List.append_nil, ← List.append_assoc, ← hflat]
          exact hcut
        exact ih hrest hfront' hcut' hothers' hseen'
      rw [htext]
      rcases hfound with ⟨ha, he⟩ | ⟨ha, hs, he⟩ | ⟨ha, hs, he⟩
      · rw [ha, if_neg Bool.false_ne_true] at hseen
        rw [he]
        exact stays (fun t ht => List.mem_cons_of_mem _ (hothers t ht)) hseen
      · obtain ⟨hpre, hwith⟩ := happart ha (.inl (hothers _ hs))
        obtain ⟨hfront', hsplit⟩ := readApart_statement hfront hblanks hpre hwith
        have hbefore := hfront.of_append hpre (cut.flatMap Segment.text)
        rw [ha, if_pos rfl] at hseen
        rw [he, hflat, hsplit, hfront.of_append hpre]
        apply Thinned.keeps
        refine Thinned.drops (fun s hmem => ⟨hkeys b s hmem, ?_⟩) (next hfront' ?_ ?_)
        · exact List.mem_append_left _ (hseen _ hs List.mem_cons_self s hmem)
        · exact fun t ht => List.mem_cons_of_mem _ (hothers t ht)
        · intro t ht hlater s hmem
          exact List.mem_append_left _ (hseen t ht (List.mem_cons_of_mem _ hlater) s hmem)
      · rw [ha, if_pos rfl] at hseen
        by_cases hlater : statement ∈ addedConstraints cut
        · obtain ⟨hpre, hwith⟩ := happart ha (.inr hlater)
          obtain ⟨hfront', hsplit⟩ := readApart_statement hfront hblanks hpre hwith
          rw [he, hflat, hsplit, hsplit]
          apply Thinned.keeps
          apply Thinned.keeps
          apply next hfront'
          · intro t ht
            rcases List.mem_cons.1 ht with rfl | ht
            · exact List.mem_cons_self
            · exact List.mem_cons_of_mem _ (hothers t ht)
          · intro t ht hmore s hmem
            rcases List.mem_cons.1 ht with rfl | ht
            · exact List.mem_append_right _ hmem
            · have hkept := hseen t ht (List.mem_cons_of_mem _ hmore) s hmem
              exact List.mem_append_left _ (List.mem_append_left _ hkept)
        · rw [he]
          apply stays
          · intro t ht
            rcases List.mem_cons.1 ht with rfl | ht
            · exact List.mem_cons_self
            · exact List.mem_cons_of_mem _ (hothers t ht)
          · intro t ht hmore s hmem
            rcases List.mem_cons.1 ht with rfl | ht
            · exact absurd hmore hlater
            · exact hseen t ht (List.mem_cons_of_mem _ hmore) s hmem

/-! ## The whole text -/

/-- **Statements that stand twice** behind the line that begins the foreign keys stand apart. -/
def RepeatedStandApart (b : Bool) (cs : List Char) : Prop :=
  ∀ head tail, splitAtFirst? Ddl.keySectionMark.toList cs = some (head, tail) →
    StandApart b [] head (segments alterPattern tail)

/-- A statement that comes twice, with nothing between. -/
theorem repeatedStandApart_twice {b : Bool} {cs head tail mark statement : List Char}
    (hs : splitAtFirst? Ddl.keySectionMark.toList cs = some (head, tail))
    (hcut : segments alterPattern tail =
      [.gap mark, .found [statement], .gap [], .found [statement], .gap []])
    (hfirst : endsApart b (head ++ mark) = true ∧
      endsApart b (head ++ mark ++ trimEnd statement) = true)
    (hnext : endsApart b (head ++ mark ++ statement) = true ∧
      endsApart b (head ++ mark ++ statement ++ trimEnd statement) = true) :
    RepeatedStandApart b cs := by
  intro head' tail' hs'
  obtain ⟨rfl, rfl⟩ := Prod.mk.inj (Option.some.inj (hs.symm.trans hs'))
  rw [hcut]
  simp only [StandApart, List.flatten_singleton, List.append_nil, and_true]
  exact ⟨fun _ _ => ⟨readApart_of_endsApart hfirst.1, readApart_of_endsApart hfirst.2⟩,
    fun _ _ => ⟨readApart_of_endsApart hnext.1, readApart_of_endsApart hnext.2⟩⟩

theorem thinned_scriptOf {b : Bool} {cs : List Char} (h : RepeatedStandApart b cs) :
    Thinned [] (scriptOf b cs).statements (scriptOf b (dropRepeatedKeys cs)).statements := by
  unfold dropRepeatedKeys
  split
  · rename_i head tail hs
    have htakes (parts : List (List Char)) (hp : .found parts ∈ segments alterPattern tail) :
        List.Forall₂ Pattern.Takes alterPattern parts := takes_of_mem_segments hp
    have hthin : Thinned [] _ _ := thinned_dropRepeated htakes .nil (h head tail hs)
      (fun t ht => absurd ht List.not_mem_nil) (fun t ht => absurd ht List.not_mem_nil)
    rw [flatten_segments, splitAtFirst?_eq_append hs] at hthin
    exact hthin
  · exact .refl _ _

/-- **Dropping what stands twice keeps the statements**, in their order and but for their lines, and
takes only foreign keys that were added before, if the statements that stand twice stand apart. What
a backslash means must not change with what is dropped. -/
theorem thinned_dropRepeatedKeys {text : String}
    (hdialect : '\\' ∈ text.toList →
      (Dialect.detect (.ofList (dropRepeatedKeys text.toList))).escapesBackslash =
        (Dialect.detect text).escapesBackslash)
    (h : RepeatedStandApart (Dialect.detect text).escapesBackslash text.toList) :
    Thinned [] ((Script.ofText text).reline fun _ => 0).statements
      ((Script.ofText (.ofList (dropRepeatedKeys text.toList))).reline fun _ => 0).statements := by
  have hthin := thinned_scriptOf h
  rw [scriptOf_ofText, scriptOf_ofText, String.toList_ofList]
  by_cases hslash : '\\' ∈ text.toList
  · rw [hdialect hslash]
    exact hthin
  · have hdropped : '\\' ∉ dropRepeatedKeys text.toList :=
      fun hmem => hslash ((dropRepeatedKeys_sublist _).subset hmem)
    rw [scriptOf_noBackslash _ (Dialect.detect text).escapesBackslash hdropped]
    exact hthin

/-- A foreign key that is added twice, each time on a line of its own. -/
def keyTwice : String :=
  "-- Foreign Key Constraints\n" ++
  "ALTER TABLE a ADD CONSTRAINT f FOREIGN KEY (x) REFERENCES b;\n" ++
  "ALTER TABLE a ADD CONSTRAINT f FOREIGN KEY (x) REFERENCES b;\n"

theorem thinned_dropRepeatedKeys_twice :
    RepeatedStandApart (Dialect.detect keyTwice).escapesBackslash keyTwice.toList ∧
      Thinned [] ((Script.ofText keyTwice).reline fun _ => 0).statements
        ((Script.ofText (.ofList (dropRepeatedKeys keyTwice.toList))).reline
          fun _ => 0).statements := by
  obtain ⟨mark, statement, hmark, hstatement, hflag, hsplit, hcut, hslash, hfirst, hnext⟩ :
      ∃ mark statement, "-- Foreign Key Constraints\n".toList = mark ∧
        "ALTER TABLE a ADD CONSTRAINT f FOREIGN KEY (x) REFERENCES b;\n".toList = statement ∧
        (Dialect.ofChars (mark ++ (statement ++ statement))).escapesBackslash = false ∧
        splitAtFirst? Ddl.keySectionMark.toList (mark ++ (statement ++ statement)) =
          some ([], mark ++ (statement ++ statement)) ∧
        segments alterPattern (mark ++ (statement ++ statement)) =
          [.gap mark, .found [statement], .gap [], .found [statement], .gap []] ∧
        '\\' ∉ mark ++ (statement ++ statement) ∧
        (endsApart false mark = true ∧ endsApart false (mark ++ trimEnd statement) = true) ∧
        endsApart false (mark ++ statement) = true ∧
        endsApart false (mark ++ statement ++ trimEnd statement) = true :=
    ⟨_, _, String.toList_ofList, String.toList_ofList, by decide +kernel⟩
  have hchars : keyTwice.toList = mark ++ (statement ++ statement) := by
    rw [← hmark, ← hstatement, ← List.append_assoc, ← String.toList_append, ← String.toList_append]
    rfl
  have hapart : RepeatedStandApart (Dialect.detect keyTwice).escapesBackslash keyTwice.toList := by
    rw [Dialect.detect, hchars, hflag]
    exact repeatedStandApart_twice hsplit hcut hfirst hnext
  exact ⟨hapart, thinned_dropRepeatedKeys (fun h => absurd h (hchars ▸ hslash)) hapart⟩

/-- A copy of the statement in a comment counts as the first one, and the statement is lost. -/
def keyInComment : String :=
  "-- Foreign Key Constraints\n" ++
  "-- ALTER TABLE a ADD CONSTRAINT f FOREIGN KEY (x) REFERENCES b;\n" ++
  "ALTER TABLE a ADD CONSTRAINT f FOREIGN KEY (x) REFERENCES b;"

theorem thinned_dropRepeatedKeys_comment :
    ¬ Thinned [] ((Script.ofText keyInComment).reline fun _ => 0).statements
      ((Script.ofText (.ofList (dropRepeatedKeys keyInComment.toList))).reline
        fun _ => 0).statements := by
  obtain ⟨mark, comment, statement, hmark, hcomment, hstatement, hbefore, hafter⟩ :
      ∃ mark comment statement, "-- Foreign Key Constraints\n" = .ofList mark ∧
        "-- ALTER TABLE a ADD CONSTRAINT f FOREIGN KEY (x) REFERENCES b;\n" = .ofList comment ∧
        "ALTER TABLE a ADD CONSTRAINT f FOREIGN KEY (x) REFERENCES b;" = .ofList statement ∧
        ((Script.ofChars (mark ++ comment ++ statement)).reline fun _ => 0).statements =
          [.alterForeignKey "a" ⟨["x"], ⟨"b", ["id"], none, none⟩⟩] ∧
        ((Script.ofChars (dropRepeatedKeys (mark ++ comment ++ statement))).reline
          fun _ => 0).statements = [] :=
    ⟨_, _, _, rfl, rfl, rfl, by decide +kernel⟩
  have hchars : keyInComment = .ofList (mark ++ comment ++ statement) := by
    rw [String.ofList_append, String.ofList_append, ← hmark, ← hcomment, ← hstatement]
    rfl
  rw [hchars, String.toList_ofList, Script.ofText_ofList, Script.ofText_ofList, hbefore, hafter]
  intro h
  cases h with
  | drop key before rest => exact List.not_mem_nil before

end DdlGraph.Repair
