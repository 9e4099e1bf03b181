import DdlGraph.Proofs.SettledTables

/-!
# Words of names that nobody quoted

A name that is written by hand is made of plain words of ASCII characters (`IsNameWord`), with
blanks between them. No such word is a keyword, so nothing that repairs look for begins in a text
that is made of them and of marks (`Worded`).

* `isPlainIdentifier_iff`: an ASCII identifier is plain exactly if it is no keyword;
* `Worded.quiet`: a text of words and marks is quiet for all that repairs look for by its letters;
* `words_joined`: the words of a name are read back from it;
* `TypeWords.nameUpToType?_blanked`: a name of bare words goes up to the word that names a type.
-/

namespace DdlGraph.Text

theorem upper_foldAscii (s : String) : upper (foldAscii s) = upper s := by
  have hchar : ∀ c : Char, upperChar c.toLower = upperChar c := by
    intro c
    by_cases hc : c.toNat < 128
    · exact of_ascii (p := fun c => upperChar c.toLower = upperChar c) (by decide) hc
    · rw [toLower_of_not_ascii hc]
  unfold upper foldAscii
  rw [String.toList_ofList, List.flatMap_map]
  exact congrArg String.ofList (List.flatMap_congr fun c _ => hchar c)

theorem upper_of_sameAscii {s t : String} (h : sameAscii s t = true) : upper s = upper t := by
  rw [← upper_foldAscii s, ← upper_foldAscii t, eq_of_beq h]

/-- Letters of one case class are the same up to case, among the ASCII characters. -/
theorem sameAscii_of_foldChar {w : String} {u : List Char} (hw : ∀ c ∈ w.toList, c.toNat < 128)
    (hu : ∀ d ∈ u, d.toNat < 128)
    (h : List.Forall₂ (fun c d => foldChar d = foldChar c) w.toList u) :
    sameAscii (.ofList u) w = true := by
  have hchar : ∀ {c d : Char}, c.toNat < 128 → d.toNat < 128 → foldChar d = foldChar c →
      d.toLower = c.toLower := by
    intro c d hc hd he
    have hlower : ∀ {c : Char}, c.toNat < 128 → (foldChar c).toLower = c.toLower := fun hc =>
      of_ascii (p := fun c => (foldChar c).toLower = c.toLower) (by decide) hc
    rw [← hlower hc, ← hlower hd, he]
  have hmap : u.map Char.toLower = w.toList.map Char.toLower := by
    generalize w.toList = cs at hw h
    induction h with
    | nil => rfl
    | cons he _ ih =>
      obtain ⟨hc, hcs⟩ := List.forall_mem_cons.1 hw
      obtain ⟨hd, hds⟩ := List.forall_mem_cons.1 hu
      rw [List.map_cons, List.map_cons, hchar hc hd he, ih hds hcs]
  unfold sameAscii foldAscii
  rw [String.toList_ofList, hmap]
  exact beq_self_eq_true _

end DdlGraph.Text

namespace DdlGraph.Sql

open DdlGraph.Text

theorem ofWord?_of_sameAscii {s t : String} (h : sameAscii s t = true) :
    Keyword.ofWord? s = Keyword.ofWord? t := by
  unfold Keyword.ofWord?
  rw [upper_of_sameAscii h]

end DdlGraph.Sql

namespace DdlGraph.Repair

open DdlGraph.Text DdlGraph.Sql

/-! ## Characters of names -/

/-- A letter of ASCII, a digit or an underscore. -/
def isNamePart (c : Char) : Bool :=
  c.isAlphanum || c == '_'

/-- A property of the characters of names, checked one by one. -/
theorem of_isNamePart {p : Char → Prop}
    (h : ∀ n < 128, isNamePart (Char.ofNat n) = true → p (Char.ofNat n)) {c : Char}
    (hc : isNamePart c = true) : p c := by
  have hascii : c.toNat < 128 := by
    simp only [isNamePart, Char.isAlphanum, Bool.or_eq_true] at hc
    rcases hc with (halpha | hdigit) | hbar
    · exact toNat_lt_of_isAlpha halpha
    · simp only [Char.isDigit, Bool.and_eq_true, decide_eq_true_eq, UInt32.le_iff_toNat_le] at hdigit
      exact Nat.lt_of_le_of_lt hdigit.2 (by decide)
    · exact eq_of_beq hbar ▸ by decide
  exact of_ascii (p := fun c => isNamePart c = true → p c) h hascii hc

theorem isNamePart_of_isDigit {c : Char} (h : c.isDigit = true) : isNamePart c = true := by
  unfold isNamePart Char.isAlphanum
  rw [h, Bool.or_true, Bool.true_or]

theorem isNamePart_of_isNameStart {c : Char} (h : isNameStart c = true) : isNamePart c = true := by
  unfold isNameStart at h
  unfold isNamePart Char.isAlphanum
  rw [Bool.or_right_comm, h, Bool.true_or]

theorem toNat_of_isNamePart {c : Char} (h : isNamePart c = true) : c.toNat < 128 :=
  of_isNamePart (p := fun c => c.toNat < 128) (by decide) h

theorem isWord_of_isNamePart {c : Char} (h : isNamePart c = true) : isWord c = true :=
  of_isNamePart (p := fun c => isWord c = true) (by decide) h

theorem isWordPart_of_isNamePart {c : Char} (h : isNamePart c = true) : isWordPart c = true :=
  of_isNamePart (p := fun c => isWordPart c = true) (by decide) h

theorem notBlank_of_isNamePart {c : Char} (h : isNamePart c = true) : isBlank c = false :=
  of_isNamePart (p := fun c => isBlank c = false) (by decide) h

/-- A letter or an underscore begins a word. -/
theorem lexeme_of_isNameStart {c : Char} (h : isNameStart c = true) (b : Bool) (cs : List Char) :
    lexeme b c cs = wordLexeme c cs := by
  have hall := of_isNamePart (p := fun c => isNameStart c = true → (!isBlank c &&
    !(['-', '#', '/', '"', '`', '[', '\''].contains c) && (punctuation? c).isNone && !c.isDigit &&
    isWordStart c) = true) (by decide) (isNamePart_of_isNameStart h) h
  simp only [Bool.and_eq_true, Bool.not_eq_true', Option.isNone_iff_eq_none,
    List.contains_eq_mem, decide_eq_false_iff_not, List.mem_cons, List.not_mem_nil, or_false,
    not_or] at hall
  obtain ⟨⟨⟨⟨hblank, hminus, hhash, hslash, hquote, htick, hbracket, hstring⟩, hnone⟩, hdigit⟩,
    hword⟩ := hall
  unfold lexeme
  simp only [hblank, hminus, hhash, hslash, hnone, hquote, htick,
    hbracket, hstring, hdigit, hword, Bool.false_eq_true, if_false, if_true, or_self]

/-! ## Words -/

/-- **ASCII identifier.** -/
structure IsWordText (w : String) : Prop where
  start : w.toList.head?.any isNameStart = true
  parts : ∀ c ∈ w.toList, isNamePart c = true

/-- **Word of a name**: an ASCII identifier that stands for itself without quotes. -/
structure IsNameWord (w : String) : Prop extends IsWordText w where
  plain : isPlainIdentifier w = true

instance (w : String) : Decidable (IsWordText w) :=
  decidable_of_iff (w.toList.head?.any isNameStart = true ∧ w.toList.all isNamePart = true)
    ⟨fun h => ⟨h.1, List.all_eq_true.1 h.2⟩, fun h => ⟨h.start, List.all_eq_true.2 h.parts⟩⟩

instance (w : String) : Decidable (IsNameWord w) :=
  decidable_of_iff (IsWordText w ∧ isPlainIdentifier w = true)
    ⟨fun h => ⟨h.1, h.2⟩, fun h => ⟨h.toIsWordText, h.plain⟩⟩

section IsWordText

variable {w : String} (h : IsWordText w)

include h

theorem IsWordText.exists_cons : ∃ c cs, w.toList = c :: cs ∧ isNameStart c = true := by
  have hstart := h.start
  cases hw : w.toList with
  | nil =>
    rw [hw] at hstart
    cases hstart
  | cons c cs =>
    rw [hw] at hstart
    exact ⟨c, cs, rfl, hstart⟩

theorem IsWordText.ne_nil : w.toList ≠ [] := by
  obtain ⟨c, cs, hw, -⟩ := h.exists_cons
  exact hw ▸ List.cons_ne_nil c cs

theorem IsWordText.notBlank : ∀ c ∈ w.toList, isBlank c = false :=
  fun c hc => notBlank_of_isNamePart (h.parts c hc)

/-- **An ASCII identifier is plain exactly if it is no keyword.** -/
theorem isPlainIdentifier_iff : isPlainIdentifier w = true ↔ Keyword.ofWord? w = none := by
  obtain ⟨c, cs, hw, hc⟩ := h.exists_cons
  have hcs : ∀ d ∈ cs, isWordPart d = true := fun d hd =>
    isWordPart_of_isNamePart (h.parts d (hw ▸ List.mem_cons_of_mem c hd))
  have hdrop : cs.dropWhile isWordPart = [] := List.dropWhile_eq_nil_iff.2 hcs
  have hlexeme : lexeme false c cs = spelled (.ofWord w) w.toList [] := by
    have hword : String.ofList (c :: cs) = w := by rw [← hw, String.ofList_toList]
    rw [lexeme_of_isNameStart hc, wordLexeme_of_no_apostrophe (by simp [hdrop]), hdrop,
      List.takeWhile_eq_self_iff.2 hcs, hword, hw]
  have htokens : (tokens false w).map (·.token) = [Token.ofWord w, .endOfText] := by
    rw [tokens_map_token, hw, tokensOf_cons, hlexeme]
    exact congrArg (Token.ofWord w :: ·) (congrArg (· ++ _) (tokensOf_nil false))
  unfold isPlainIdentifier
  rw [htokens, decide_eq_true_iff, List.cons.injEq, and_iff_left rfl]
  unfold Token.ofWord
  cases Keyword.ofWord? w <;> simp

end IsWordText

/-! ## Texts of words and marks -/

/-- Words that nothing that repairs look for begins with. -/
def soughtWords : List String :=
  ["CREATE", "ALTER", "REFERENCES", "IF"]

/-- **The characters do not spell a word that is looked for.** -/
def Unsought (w : List Char) : Prop :=
  ∀ s ∈ soughtWords, ¬List.Forall₂ (fun c d => foldChar d = foldChar c) s.toList w

theorem unsought_of_ofWord? {w : String} (h : ∀ c ∈ w.toList, isNamePart c = true)
    (hw : Keyword.ofWord? w = none) : Unsought w.toList := by
  have hsought : ∀ s ∈ soughtWords, (Keyword.ofWord? s).isSome = true ∧
      s.toList.all (fun c => decide (c.toNat < 128)) = true := by
    decide
  intro s hs hspells
  obtain ⟨hkeyword, hascii⟩ := hsought s hs
  have hsame := sameAscii_of_foldChar
    (fun c hc => of_decide_eq_true (List.all_eq_true.1 hascii c hc))
    (fun c hc => toNat_of_isNamePart (h c hc)) hspells
  rw [String.ofList_toList] at hsame
  rw [← ofWord?_of_sameAscii hsame, hw] at hkeyword
  cases hkeyword

theorem IsNameWord.unsought {w : String} (h : IsNameWord w) : Unsought w.toList :=
  unsought_of_ofWord? h.parts ((isPlainIdentifier_iff h.toIsWordText).1 h.plain)

/-- Digits spell nothing. -/
theorem unsought_digits {w : List Char} (h : ∀ c ∈ w, c.isDigit = true) : Unsought w := by
  have hsought : ∀ s ∈ soughtWords, s.toList.head?.any (fun c => (foldChar c).isAlpha) = true := by
    decide
  intro s hs hspells
  have hhead := hsought s hs
  generalize s.toList = letters at hhead hspells
  cases hspells with
  | nil => cases hhead
  | @cons c d _ _ hd _ =>
    have hdigit := h d (.head _)
    have hone : (foldChar d).isAlpha = true := hd ▸ hhead
    have hnone : d.isDigit = true → (foldChar d).isAlpha = false :=
      of_isNamePart (p := fun d => d.isDigit = true → (foldChar d).isAlpha = false) (by decide)
        (isNamePart_of_isDigit hdigit)
    rw [hnone hdigit] at hone
    cases hone

/-- Letters and a blank that a text begins with are a word of it, if the text begins with a word. -/
theorem forall₂_of_leads {cs w : List Char} {d : Char} {rest : List Char}
    (hcs : ∀ c ∈ cs, (foldChar c).isAlpha = true) (hw : ∀ c ∈ w, isNamePart c = true)
    (hd : isWord d = false)
    (h : leads (cs.map (fun c d => foldChar d == foldChar c) ++ [isBlank]) (w ++ d :: rest) = true) :
    List.Forall₂ (fun c d => foldChar d = foldChar c) cs w := by
  induction cs generalizing w with
  | nil =>
    cases w with
    | nil => exact .nil
    | cons x w =>
      rw [List.map_nil, List.nil_append, List.cons_append, leads, Bool.and_eq_true,
        notBlank_of_isNamePart (hw x (.head _))] at h
      cases h.1
  | cons c cs ih =>
    obtain ⟨hc, hcs⟩ := List.forall_mem_cons.1 hcs
    cases w with
    | nil =>
      rw [List.map_cons, List.cons_append, List.nil_append, leads, Bool.and_eq_true, beq_iff_eq] at h
      have hword := isWord_of_foldChar (h.1 ▸ hc)
      rw [hd] at hword
      cases hword
    | cons x w =>
      rw [List.map_cons, List.cons_append, List.cons_append, leads, Bool.and_eq_true,
        beq_iff_eq] at h
      exact .cons h.1 (ih hcs (List.forall_mem_cons.1 hw).2 h.2)

theorem not_leads_of_unsought {s : String} (hs : s ∈ soughtWords) {w : List Char} {d : Char}
    (hw : ∀ c ∈ w, isNamePart c = true) (hu : Unsought w) (hd : isWord d = false)
    (rest : List Char) : ¬leads (Lead.word s).classes (w ++ d :: rest) = true := by
  have hletters : ∀ s ∈ soughtWords, s.toList.all (fun c => (foldChar c).isAlpha) = true := by
    decide
  exact fun h => hu s hs (forall₂_of_leads (List.all_eq_true.1 (hletters s hs)) hw hd h)

/-- **A word and what ends it** are quiet for the words that are looked for. -/
theorem quiet_unsought {s : String} (hs : s ∈ soughtWords) {w : List Char} {d : Char}
    (hw : ∀ c ∈ w, isNamePart c = true) (hu : Unsought w) (hd : isWord d = false) :
    Quiet (Lead.word s).target (w ++ [d]) := by
  -- behind a character of a word nothing begins
  have hinside : ∀ {c : Char} {w : List Char} (rest : List Char), isWord c = true →
      (∀ c ∈ w, isNamePart c = true) →
        Passes (Lead.word s).target (some c) (w ++ [d]) rest := by
    intro c w rest hc hw
    have hstopped : ∀ cs, ¬(Lead.word s).target (some c) cs := fun cs hm =>
      Bool.false_ne_true (hm.1.symm.trans hc)
    induction w generalizing c with
    | nil => exact ⟨hstopped _, trivial⟩
    | cons e w ih =>
      obtain ⟨he, hw⟩ := List.forall_mem_cons.1 hw
      have hword := isWord_of_isNamePart he
      exact ⟨hstopped _, ih hword hw fun cs hm => Bool.false_ne_true (hm.1.symm.trans hword)⟩
  intro before rest
  have hfirst := not_leads_of_unsought hs hw hu hd rest
  cases w with
  | nil => exact ⟨fun hm => hfirst hm.2, trivial⟩
  | cons c w =>
    obtain ⟨hc, hw⟩ := List.forall_mem_cons.1 hw
    refine ⟨fun hm => hfirst ?_, hinside rest (isWord_of_isNamePart hc) hw⟩
    have hleads : leads (Lead.word s).classes (c :: w ++ [d] ++ rest) = true := hm.2
    rwa [List.append_assoc] at hleads

/-- The marks between words. -/
def wordMarks : List Char :=
  [' ', '\n', '(', ')', ',', ';', '"', '`']

theorem notWord_of_mem_wordMarks {d : Char} (h : d ∈ wordMarks) : isWord d = false := by
  have hall : (wordMarks.all fun d => !isWord d) = true := by decide
  simpa using List.all_eq_true.1 hall d h

/-- **Text of words and marks.** -/
inductive Worded : List Char → Prop
  | nil : Worded []
  | word {w xs : List Char} {d : Char} (parts : ∀ c ∈ w, isNamePart c = true)
      (unsought : Unsought w) (ends : d ∈ wordMarks) (rest : Worded xs) : Worded (w ++ d :: xs)

namespace Worded

theorem mark {d : Char} (hd : d ∈ wordMarks) {xs : List Char} (h : Worded xs) :
    Worded (d :: xs) :=
  .word (fun _ hc => absurd hc List.not_mem_nil)
    (unsought_digits fun _ hc => absurd hc List.not_mem_nil) hd h

theorem marks {ds : List Char} (hd : ∀ d ∈ ds, d ∈ wordMarks) {xs : List Char} (h : Worded xs) :
    Worded (ds ++ xs) := by
  induction ds with
  | nil => exact h
  | cons d ds ih =>
    obtain ⟨hd, hds⟩ := List.forall_mem_cons.1 hd
    exact .mark hd (ih hds)

theorem append {xs ys : List Char} (h : Worded xs) (h' : Worded ys) : Worded (xs ++ ys) := by
  induction h with
  | nil => exact h'
  | word hparts hunsought hd _ ih =>
    rw [List.append_assoc, List.cons_append]
    exact .word hparts hunsought hd ih

theorem flatMap {α : Type} {f : α → List Char} {l : List α} (h : ∀ x ∈ l, Worded (f x)) :
    Worded (l.flatMap f) := by
  induction l with
  | nil => exact .nil
  | cons x l ih =>
    obtain ⟨hx, hl⟩ := List.forall_mem_cons.1 h
    exact hx.append (ih hl)

/-- **Nothing that is looked for by its letters begins in it.** -/
theorem quiet_lead {s : String} (hs : s ∈ soughtWords) {xs : List Char} (h : Worded xs) :
    Quiet (Lead.word s).target xs := by
  induction h with
  | nil => exact .nil
  | @word w xs d hparts hunsought hd _ ih =>
    have happ := (quiet_unsought hs hparts hunsought (notWord_of_mem_wordMarks hd)).append ih
    rwa [List.append_assoc] at happ

theorem quiet {ps : List Pattern} {s : String} (hps : LedBy ps [.word s]) (hs : s ∈ soughtWords)
    {xs : List Char} (h : Worded xs) : Quiet (Matches ps) xs :=
  hps.quiet fun _ hl => List.mem_singleton.1 hl ▸ h.quiet_lead hs

theorem mem {xs : List Char} (h : Worded xs) {c : Char} (hc : c ∈ xs) :
    isNamePart c = true ∨ c ∈ wordMarks := by
  induction h with
  | nil => cases hc
  | word hparts _ hd _ ih =>
    rcases List.mem_append.1 hc with hc | hc
    · exact .inl (hparts c hc)
    · rcases List.mem_cons.1 hc with rfl | hc
      · exact .inr hd
      · exact ih hc

theorem not_mem {xs : List Char} (h : Worded xs) {c : Char} (hc : isNamePart c = false)
    (hmark : c ∉ wordMarks) : c ∉ xs := by
  intro hm
  rcases h.mem hm with hpart | hm
  · exact Bool.false_ne_true (hc.symm.trans hpart)
  · exact hmark hm

end Worded

/-! ## Words of a name -/

theorem words_eq (cs : List Char) : words cs = match trimStart cs with
    | [] => []
    | c :: rest => (nextWord (c :: rest)).1 :: words (nextWord (c :: rest)).2 := by
  rw [words]
  split <;> rename_i h <;> rw [h]

theorem words_blank {c : Char} (hc : isBlank c = true) (cs : List Char) :
    words (c :: cs) = words cs := by
  have htrim : trimStart (c :: cs) = trimStart cs := List.dropWhile_cons_of_pos hc
  rw [words_eq, htrim, ← words_eq]

theorem words_append {w more : List Char} (hne : w ≠ []) (hw : ∀ c ∈ w, isBlank c = false)
    (hmore : ∀ c ∈ more.head?, isBlank c = true) : words (w ++ more) = w :: words more := by
  obtain ⟨c, w, rfl⟩ := List.exists_cons_of_ne_nil hne
  have htrim : trimStart (c :: w ++ more) = c :: (w ++ more) :=
    List.dropWhile_cons_of_neg (Bool.eq_false_iff.1 (hw c (.head _)))
  have hends : ∀ d ∈ more.head?, (!isBlank d) = false := fun d hd => by rw [hmore d hd]; rfl
  have hinside : ∀ d ∈ c :: w, (!isBlank d) = true := fun d hd => by rw [hw d hd]; rfl
  have hnext : nextWord (c :: (w ++ more)) = (c :: w, more) := by
    obtain ⟨htake, hdrop⟩ := takeWhile_append_of_head hends (c :: w)
    rw [List.takeWhile_eq_self_iff.2 hinside] at htake
    rw [List.dropWhile_eq_nil_iff.2 hinside] at hdrop
    exact Prod.ext htake hdrop
  rw [words_eq, htrim]
  dsimp only
  rw [hnext]

section Words

variable {w : String} {ws : List String}

/-- The words of a name with one blank between them. -/
theorem toList_joined (w : String) (ws : List String) :
    (Text.join " " (w :: ws)).toList = w.toList ++ blanked (ws.map String.toList) :=
  toList_join_blank w ws

theorem blanked_cons (w : List Char) (ws : List (List Char)) :
    blanked (w :: ws) = ' ' :: (w ++ blanked ws) :=
  List.flatMap_cons

theorem head?_blanked {ws : List (List Char)} {tail : List Char} {p : Char → Prop} (hp : p ' ')
    (ht : ∀ c ∈ tail.head?, p c) : ∀ c ∈ (blanked ws ++ tail).head?, p c := by
  cases ws with
  | nil => exact ht
  | cons w ws =>
    rw [blanked_cons, List.cons_append]
    rintro c ⟨⟩
    exact hp

/-- **The words of a name are read back from it**, with blanks at its end. -/
theorem words_joined (h : ∀ x ∈ w :: ws, IsWordText x) {tail : List Char}
    (ht : ∀ c ∈ tail.head?, isBlank c = true) :
    words ((Text.join " " (w :: ws)).toList ++ tail) = (w :: ws).map String.toList ++ words tail := by
  rw [toList_joined, List.append_assoc]
  induction ws generalizing w with
  | nil => exact words_append (h w (.head _)).ne_nil (h w (.head _)).notBlank ht
  | cons x ws ih =>
    have hhere := h w (.head _)
    have hblank : isBlank ' ' = true := by decide
    rw [words_append hhere.ne_nil hhere.notBlank (head?_blanked hblank ht), List.map_cons,
      blanked_cons, List.cons_append, words_blank hblank, List.append_assoc,
      ih fun y hy => h y (.tail _ hy)]
    rfl

theorem allPlain_of_words {name : List Char} (h : ∀ x ∈ ws, IsNameWord x)
    (hwords : words name = ws.map String.toList) : allPlain name = true := by
  unfold allPlain
  rw [hwords, List.all_map, List.all_eq_true]
  intro x hx
  rw [Function.comp_apply, String.ofList_toList]
  exact (h x hx).plain

/-- A name of several words is not plain. -/
theorem notPlain_joined (hne : ws ≠ []) : isPlainIdentifier (Text.join " " (w :: ws)) = false := by
  have hblank : ' ' ∈ (Text.join " " (w :: ws)).toList := by
    obtain ⟨x, ws, rfl⟩ := List.exists_cons_of_ne_nil hne
    rw [toList_joined, List.map_cons, blanked_cons]
    exact List.mem_append_right _ (.head _)
  rw [Bool.eq_false_iff]
  intro hp
  rw [← String.ofList_toList (s := Text.join " " (w :: ws))] at hp
  have hnone := notBlank_of_plain hp ' ' hblank
  cases hnone

/-- A name of one word is written as it is. -/
theorem quote_joined_nil {s : Settings} (hs : s.caseSensitive = false) (h : IsNameWord w) :
    (Ddl.quote s (Text.join " " [w])).toList = w.toList := by
  have hjoin : Text.join " " [w] = w := String.toList_inj.1 (by rw [toList_joined]; simp [blanked])
  unfold Ddl.quote
  rw [hjoin, hs, h.plain]
  rfl

/-- A name of several words is written between quote marks. -/
theorem quote_joined_cons {s : Settings} (h : ∀ x ∈ w :: ws, IsNameWord x) (hne : ws ≠ [])
    {name : List Char} (hwords : words name = (w :: ws).map String.toList) :
    (Ddl.quote s (Text.join " " (w :: ws))).toList = quotedWords s.dialect.quoteMark name := by
  have hjoin : (Text.join " " (w :: ws)).toList =
      [' '].intercalate ((w :: ws).map String.toList) := by
    unfold Text.join
    rw [String.toList_intercalate]
    rfl
  have hmark : s.dialect.quoteMark ∉ (Text.join " " (w :: ws)).toList := by
    refine (aroundNames_quoteMark s.dialect).not_mem fun c hc => ?_
    rw [hjoin] at hc
    rcases mem_of_mem_intercalate hc with hc | ⟨x, hx, hc⟩
    · exact List.mem_singleton.1 hc ▸ inName_of_isBlank (by decide)
    · obtain ⟨y, hy, rfl⟩ := List.mem_map.1 hx
      exact inName_of_plain (by rw [String.ofList_toList]; exact (h y hy).plain) c hc
  unfold Ddl.quote quotedWords
  rw [notPlain_joined hne, Bool.and_false, if_neg Bool.false_ne_true, hwords, ← hjoin]
  unfold Ddl.quotedName
  dsimp only
  rw [doubled_of_not_mem hmark, String.toList_ofList]

end Words

/-! ## Names up to a type -/

theorem notInline_of_isNamePart {c : Char} (h : isNamePart c = true) : isInlineBlank c = false :=
  notInline_of_notBlank (notBlank_of_isNamePart h)

/-- An identifier at the start of a text is its first word. -/
theorem splitWord?_of_isWordText {w : String} (h : IsWordText w) {rest : List Char}
    (hrest : ∀ c ∈ rest.head?, isWord c = false) :
    TypeWords.splitWord? (w.toList ++ rest) = some (w.toList, rest) := by
  have hword : ∀ c ∈ w.toList, isWord c = true := fun c hc => isWord_of_isNamePart (h.parts c hc)
  obtain ⟨c, cs, hw, hc⟩ := h.exists_cons
  have hcs : ∀ d ∈ cs, isWord d = true := fun d hd => hword d (hw ▸ .tail _ hd)
  rw [hw, TypeWords.splitWord?_append hrest (List.cons_ne_nil c cs), TypeWords.splitWord?,
    if_pos hc, List.takeWhile_eq_self_iff.2 hcs, List.dropWhile_eq_nil_iff.2 hcs]
  rfl

/-- One blank in front of an identifier. -/
theorem inline_isWordText {w : String} (h : IsWordText w) (rest : List Char) :
    (' ' :: (w.toList ++ rest)).takeWhile isInlineBlank = [' '] ∧
      (' ' :: (w.toList ++ rest)).dropWhile isInlineBlank = w.toList ++ rest := by
  obtain ⟨c, cs, hw, -⟩ := h.exists_cons
  have hhead : ∀ d ∈ (w.toList ++ rest).head?, isInlineBlank d = false := by
    rw [hw]
    rintro d ⟨⟩
    exact notInline_of_isNamePart (h.parts c (hw ▸ .head _))
  exact takeWhile_append_of_head hhead [' ']

section UpToType

variable {types : TypeWords} {type : String} (htype : IsWordText type)
  (hholds : types.holds type = true) {rest : List Char}
  (hrest : ∀ c ∈ rest.head?, isWord c = false)

include htype hholds hrest

/-- **A name goes on up to the first word that names a type**, and counts if it has two words or
more by then. -/
theorem TypeWords.nameUpToType?_blanked {ws : List String}
    (h : ∀ x ∈ ws, IsNameWord x ∧ types.holds x = false) {count : Nat} (hcount : 0 < count)
    (name : List Char) :
    types.nameUpToType? count name
        (blanked (ws.map String.toList) ++ ' ' :: (type.toList ++ rest)) =
      if 2 ≤ count + ws.length then
        some (name ++ blanked (ws.map String.toList), ' ' :: (type.toList ++ rest))
      else none := by
  induction ws generalizing count name with
  | nil =>
    obtain ⟨htake, hdrop⟩ := inline_isWordText htype rest
    rw [List.map_nil, blanked, List.flatMap_nil, List.nil_append, List.append_nil,
      TypeWords.nameUpToType?, htake, if_neg fun hc => Bool.false_ne_true hc.2]
    split
    · rename_i hs
      rw [hdrop, splitWord?_of_isWordText htype hrest] at hs
      cases hs
    · rename_i hs
      rw [hdrop, splitWord?_of_isWordText htype hrest] at hs
      cases hs
      rw [String.ofList_toList, if_pos ⟨hcount, hholds⟩]
      rfl
  | cons x ws ih =>
    obtain ⟨⟨hx, hnot⟩, hws⟩ := List.forall_mem_cons.1 h
    have hnext : ∀ c ∈ (blanked (ws.map String.toList) ++
        ' ' :: (type.toList ++ rest)).head?, isWord c = false :=
      head?_blanked (p := fun c => isWord c = false) (by decide) (by rintro c ⟨⟩; decide)
    generalize hmore : blanked (ws.map String.toList) ++ ' ' :: (type.toList ++ rest) = more
      at hnext ih
    obtain ⟨htake, hdrop⟩ := inline_isWordText hx.toIsWordText more
    rw [List.map_cons, blanked_cons, List.cons_append, List.append_assoc, hmore,
      TypeWords.nameUpToType?, htake, if_neg fun hc => Bool.false_ne_true hc.2]
    split
    · rename_i hs
      rw [hdrop, splitWord?_of_isWordText hx.toIsWordText hnext] at hs
      cases hs
    · rename_i hs
      rw [hdrop, splitWord?_of_isWordText hx.toIsWordText hnext] at hs
      cases hs
      have hlength : count + 1 + ws.length = count + (x :: ws).length := by
        rw [List.length_cons]
        omega
      rw [String.ofList_toList, hnot, if_neg fun hc => Bool.false_ne_true hc.2, hx.plain, if_pos rfl,
        ih hws (Nat.succ_pos count), hlength, List.append_assoc, List.append_assoc]
      rfl

/-- **A name of several bare words is found** at the start of a definition. -/
theorem severalWords?_joined {w : String} {ws : List String} (hw : IsNameWord w)
    (h : ∀ x ∈ ws, IsNameWord x ∧ types.holds x = false) {blanks : List Char}
    (hblanks : ∀ c ∈ blanks, isInlineBlank c = true) :
    types.severalWords? (blanks ++ ((Text.join " " (w :: ws)).toList ++
        ' ' :: (type.toList ++ rest))) =
      if ws = [] then none
      else some (blanks, (Text.join " " (w :: ws)).toList, ' ' :: (type.toList ++ rest)) := by
  rw [toList_joined, List.append_assoc]
  have hnext : ∀ c ∈ (blanked (ws.map String.toList) ++
      ' ' :: (type.toList ++ rest)).head?, isWord c = false :=
    head?_blanked (p := fun c => isWord c = false) (by decide) (by rintro c ⟨⟩; decide)
  have hname := TypeWords.nameUpToType?_blanked htype hholds hrest h Nat.zero_lt_one w.toList
  generalize hmore : blanked (ws.map String.toList) ++ ' ' :: (type.toList ++ rest) = more
    at hnext hname
  have hhead : ∀ c ∈ (w.toList ++ more).head?, isInlineBlank c = false := by
    obtain ⟨c, cs, hcons, -⟩ := hw.toIsWordText.exists_cons
    rw [hcons]
    rintro d ⟨⟩
    exact notInline_of_isNamePart (hw.parts c (hcons ▸ .head _))
  obtain ⟨htake, hdrop⟩ := takeWhile_append_of_head hhead blanks
  obtain ⟨hnone, hself⟩ := takeWhile_append_of_head hhead []
  rw [List.takeWhile_eq_self_iff.2 hblanks] at htake
  rw [List.dropWhile_eq_nil_iff.2 hblanks] at hdrop
  have hfirst : types.nameUpToType? 0 [] (w.toList ++ more) =
      types.nameUpToType? 1 w.toList more := by
    rw [TypeWords.nameUpToType?, if_neg fun hc => Nat.lt_irrefl 0 hc.1]
    rw [List.nil_append] at hnone hself
    split
    · rename_i hs
      rw [hself, List.dropWhile_nil, List.nil_append,
        splitWord?_of_isWordText hw.toIsWordText hnext] at hs
      cases hs
    · rename_i hs
      rw [hself, List.dropWhile_nil, List.nil_append,
        splitWord?_of_isWordText hw.toIsWordText hnext] at hs
      cases hs
      rw [String.ofList_toList, if_neg fun hc => Nat.lt_irrefl 0 hc.1, hw.plain, if_pos rfl, hnone]
      rfl
  unfold TypeWords.severalWords?
  rw [htake, hdrop, List.nil_append, hfirst, hname]
  cases ws with
  | nil => rfl
  | cons x ws =>
    rw [if_pos (by rw [List.length_cons]; omega), if_neg (List.cons_ne_nil x ws)]
    rfl

/-- **The name of a definition is quoted** if it has several words. -/
theorem quoteName_joined {s : Settings} (hs : s.caseSensitive = false) {w : String}
    {ws : List String} (hw : IsNameWord w) (h : ∀ x ∈ ws, IsNameWord x ∧ types.holds x = false)
    {blanks : List Char} (hblanks : ∀ c ∈ blanks, isInlineBlank c = true) :
    quoteName types s.dialect.quoteMark (blanks ++ ((Text.join " " (w :: ws)).toList ++
        ' ' :: (type.toList ++ rest))) =
      blanks ++ ((Ddl.quote s (Text.join " " (w :: ws))).toList ++
        ' ' :: (type.toList ++ rest)) := by
  have hwords : ∀ x ∈ w :: ws, IsNameWord x :=
    List.forall_mem_cons.2 ⟨hw, fun x hx => (h x hx).1⟩
  unfold quoteName
  rw [severalWords?_joined htype hholds hrest hw h hblanks]
  by_cases hne : ws = []
  · subst hne
    rw [if_pos rfl, quote_joined_nil hs hw, toList_joined]
    simp [blanked]
  · have hread := words_joined (fun x hx => (hwords x hx).toIsWordText)
      (show ∀ c ∈ ([] : List Char).head?, isBlank c = true from fun c hc => by cases hc)
    have hnil : words [] = [] := by
      rw [words_eq]
      rfl
    rw [List.append_nil, hnil, List.append_nil] at hread
    rw [if_neg hne, quote_joined_cons hwords hne hread]
    simp

end UpToType

end DdlGraph.Repair
