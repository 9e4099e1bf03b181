import DdlGraph.Json.Reader

/-!
# Texts of JSON values

A text *spells* a value if it has the value's signs in their order, with blanks between them where
they are allowed (`Spells`). The reader gives back every value from each of its texts, and the text
on one line and the indented one are two of them. Values whose numbers are numbers and whose strings
are texts (`Valid`) have such texts.

* `isNumberPart_of_ofLiteral?`: what a number is written with;
* `readString?_quotedChars`: a string is read back through its escapes;
* `readValue?_spells`: the reader on a text of a value, whatever follows;
* `read?_compact`, `read?_pretty`: both texts that are written give back the value.
-/

namespace DdlGraph

/-! ## Numbers -/

/-- What is left of a text after signs that numbers are written with. -/
def NumberPartsTo (cs rest : List Char) : Prop :=
  ∃ front, cs = front ++ rest ∧ ∀ c ∈ front, Json.isNumberPart c = true

namespace NumberPartsTo

variable {cs ds es : List Char}

theorem refl (cs : List Char) : NumberPartsTo cs cs :=
  ⟨[], rfl, fun _ h => nomatch h⟩

theorem trans (h : NumberPartsTo cs ds) (h' : NumberPartsTo ds es) : NumberPartsTo cs es := by
  obtain ⟨front, rfl, hfront⟩ := h
  obtain ⟨front', rfl, hfront'⟩ := h'
  refine ⟨front ++ front', (List.append_assoc _ _ _).symm, fun c hc => ?_⟩
  exact (List.mem_append.1 hc).elim (hfront c) (hfront' c)

theorem cons {c : Char} (hc : Json.isNumberPart c = true) (h : NumberPartsTo cs ds) :
    NumberPartsTo (c :: cs) ds :=
  trans ⟨[c], rfl, fun _ hd => List.mem_singleton.1 hd ▸ hc⟩ h

theorem digits (cs : List Char) : NumberPartsTo cs (cs.dropWhile Char.isDigit) := by
  refine ⟨cs.takeWhile Char.isDigit, List.takeWhile_append_dropWhile.symm, fun c hc => ?_⟩
  have hdigit : c.isDigit = true := List.all_eq_true.1 List.all_takeWhile c hc
  unfold Json.isNumberPart
  rw [hdigit]
  rfl

end NumberPartsTo

theorem wholeDigits?_parts {cs ds : List Char} {r : List Nat} (h : wholeDigits? cs = some (r, ds)) :
    NumberPartsTo cs ds := by
  have hrest : ds = cs.dropWhile Char.isDigit := by
    unfold wholeDigits? at h
    split at h <;> simp_all
  exact hrest ▸ .digits cs

theorem fractionDigits?_parts {cs ds : List Char} {r : List Nat}
    (h : fractionDigits? cs = some (r, ds)) : NumberPartsTo cs ds := by
  unfold fractionDigits? at h
  split at h
  · rename_i cs
    have hrest : ds = cs.dropWhile Char.isDigit := by
      split at h <;> simp_all
    exact hrest ▸ (NumberPartsTo.digits cs).cons (by decide)
  · obtain ⟨-, rfl⟩ := Prod.mk.inj (Option.some.inj h)
    exact .refl _

theorem exponentDigits?_parts {cs ds : List Char} {r : Option (Bool × List Nat)}
    (h : exponentDigits? cs = some (r, ds)) : NumberPartsTo cs ds := by
  unfold exponentDigits? at h
  dsimp only at h
  split at h
  · rename_i c cs
    split at h
    · rename_i he
      have hc : Json.isNumberPart c = true := by
        rcases he with rfl | rfl <;> decide
      -- The digits follow the sign, if there is one.
      split at h <;> split at h <;> cases h
      · exact ((NumberPartsTo.digits _).cons (by decide)).cons hc
      · exact ((NumberPartsTo.digits _).cons (by decide)).cons hc
      · exact (NumberPartsTo.digits _).cons hc
    · obtain ⟨-, rfl⟩ := Prod.mk.inj (Option.some.inj h)
      exact .refl _
  · obtain ⟨-, rfl⟩ := Prod.mk.inj (Option.some.inj h)
    exact .refl _

theorem Decimal.read?_parts {cs ds : List Char} {d : Decimal} (h : Decimal.read? cs = some (d, ds)) :
    NumberPartsTo cs ds := by
  unfold Decimal.read? at h
  simp only [Option.bind_eq_bind, Option.bind_eq_some_iff] at h
  obtain ⟨⟨whole, as⟩, hwhole, ⟨fraction, bs⟩, hfraction, ⟨exponent, es⟩, hexponent, h⟩ := h
  obtain ⟨-, rfl⟩ := Prod.mk.inj (Option.some.inj h)
  have hrest := (wholeDigits?_parts hwhole).trans
    ((fractionDigits?_parts hfraction).trans (exponentDigits?_parts hexponent))
  split at hrest
  · exact hrest.cons (by decide)
  · exact hrest

/-- **A number** is written with parts of numbers only. -/
theorem isNumberPart_of_ofLiteral? {literal : String} (h : (Decimal.ofLiteral? literal).isSome) :
    literal.toList ≠ [] ∧ ∀ c ∈ literal.toList, Json.isNumberPart c = true := by
  unfold Decimal.ofLiteral? at h
  split at h
  · rename_i d hread
    obtain ⟨front, hfront, hparts⟩ := Decimal.read?_parts hread
    rw [List.append_nil] at hfront
    refine ⟨fun hnil => ?_, hfront ▸ hparts⟩
    rw [hnil] at hread
    have hempty : Decimal.read? [] = none := by decide
    exact absurd (hread.symm.trans hempty) nofun
  · cases h

namespace Json

/-! ## Strings -/

theorem hexUnit?_control : ∀ n < 32,
    hexUnit? '0' '0' (hexDigit (n / 16)) (hexDigit (n % 16)) = some n := by
  decide

/-- A character is escaped by a letter, by its number, or not at all. -/
theorem escapedChar_cases (c : Char) :
    (∃ e, escape? e = some c.toNat ∧ escapedChar c = ['\\', e]) ∨
      (c.toNat < 32 ∧ escapedChar c =
        ['\\', 'u', '0', '0', hexDigit (c.toNat / 16), hexDigit (c.toNat % 16)]) ∨
      (c ≠ '"' ∧ c ≠ '\\' ∧ ¬c.toNat < 32 ∧ escapedChar c = [c]) := by
  have hletter : ∀ {e : Char} {n : Nat}, c.toNat = n → escape? e = some n →
      ∃ e', escape? e' = some c.toNat ∧ ['\\', e] = ['\\', e'] :=
    fun hn he => ⟨_, hn ▸ he, rfl⟩
  unfold escapedChar
  split
  · rename_i h
    exact .inl (hletter (congrArg Char.toNat h) rfl)
  split
  · rename_i h
    exact .inl (hletter (congrArg Char.toNat h) rfl)
  split
  · rename_i h
    exact .inl (hletter h rfl)
  split
  · rename_i h
    exact .inl (hletter h rfl)
  split
  · rename_i h
    exact .inl (hletter (congrArg Char.toNat h) rfl)
  split
  · rename_i h
    exact .inl (hletter (congrArg Char.toNat h) rfl)
  split
  · rename_i h
    exact .inl (hletter (congrArg Char.toNat h) rfl)
  split
  · rename_i h
    exact .inr (.inl ⟨h, rfl⟩)
  · rename_i hq hb _ _ _ _ _ h
    exact .inr (.inr ⟨hq, hb, h, rfl⟩)

/-- An escaped character is read as the character. -/
theorem stringUnits?_escapedChar (c : Char) (cs : List Char) :
    stringUnits? (escapedChar c ++ cs) =
      (stringUnits? cs).map fun r => (c.toNat :: r.1, r.2) := by
  rcases escapedChar_cases c with ⟨e, he, heq⟩ | ⟨hn, heq⟩ | ⟨hq, hb, hn, heq⟩
  · have hu : e ≠ 'u' := by
      rintro rfl
      exact nomatch he
    rw [heq, List.cons_append, List.singleton_append,
      stringUnits?.eq_4 e cs fun _ _ _ _ _ h _ => hu h, he]
    cases stringUnits? cs <;> rfl
  · rw [heq]
    simp only [List.cons_append, List.nil_append]
    rw [stringUnits?, hexUnit?_control c.toNat hn]
    cases stringUnits? cs <;> rfl
  · rw [heq, List.singleton_append, stringUnits?.eq_5 c cs hq (fun _ _ _ _ _ h _ => hb h)
      (fun _ _ h _ => hb h), if_neg (not_or.2 ⟨hb, hn⟩)]
    cases stringUnits? cs <;> rfl

/-- **A string is read back** through its escapes. -/
theorem readString?_quotedChars (s : String) (rest : List Char) :
    readString? ((s.toList.flatMap escapedChar ++ ['"']) ++ rest) = some (some s, rest) := by
  have hunits : ∀ cs : List Char, stringUnits? (cs.flatMap escapedChar ++ '"' :: rest) =
      some (cs.map Char.toNat, rest) := by
    intro cs
    induction cs with
    | nil => rfl
    | cons c cs ih =>
      rw [List.flatMap_cons, List.append_assoc, stringUnits?_escapedChar, ih]
      rfl
  unfold readString?
  rw [List.append_assoc, List.singleton_append, hunits, Option.map_some, joinUnits_chars,
    Option.map_some, String.ofList_toList]

/-! ## Blanks -/

def Blank (cs : List Char) : Prop :=
  ∀ c ∈ cs, isSpace c = true

theorem skipSpace_append {b : List Char} (hb : Blank b) (cs : List Char) :
    skipSpace (b ++ cs) = skipSpace cs :=
  List.dropWhile_append_of_pos hb

theorem skipSpace_cons {c : Char} (hc : isSpace c = false) (cs : List Char) :
    skipSpace (c :: cs) = c :: cs :=
  List.dropWhile_cons_of_neg (by rw [hc]; decide)

/-! ## Texts of values -/

mutual

/-- **A text of a value**, from its first sign to its last, with blanks wherever they may stand. -/
inductive Spells : Json → List Char → Prop
  | null : Spells .null "null".toList
  | isTrue : Spells (.bool true) "true".toList
  | isFalse : Spells (.bool false) "false".toList
  | number {literal : String} (h : (Decimal.ofLiteral? literal).isSome) :
    Spells (.number literal) literal.toList
  | text (s : String) : Spells (text s) (quotedChars s)
  | noItems {b : List Char} (hb : Blank b) : Spells (.array []) ('[' :: (b ++ [']']))
  | array {items : List Json} {cs : List Char} (h : SpellsItems items cs) :
    Spells (.array items) ('[' :: cs)
  | noMembers {b : List Char} (hb : Blank b) : Spells (.object []) ('\x7b' :: (b ++ ['\x7d']))
  | object {members : List (Option String × Json)} {cs : List Char}
    (h : SpellsMembers members cs) : Spells (.object members) ('\x7b' :: cs)

/-- A text of items, with the bracket that closes them. -/
inductive SpellsItems : List Json → List Char → Prop
  | last {j : Json} {a b cs : List Char} (ha : Blank a) (hb : Blank b) (h : Spells j cs) :
    SpellsItems [j] (a ++ (cs ++ (b ++ [']'])))
  | more {j : Json} {items : List Json} {a b cs ds : List Char} (ha : Blank a) (hb : Blank b)
    (h : Spells j cs) (hs : SpellsItems items ds) :
    SpellsItems (j :: items) (a ++ (cs ++ (b ++ ',' :: ds)))

/-- A text of members, with the brace that closes them. -/
inductive SpellsMembers : List (Option String × Json) → List Char → Prop
  | last {key : String} {j : Json} {a b c d cs : List Char} (ha : Blank a) (hb : Blank b)
    (hc : Blank c) (hd : Blank d) (h : Spells j cs) :
    SpellsMembers [(some key, j)]
      (a ++ (quotedChars key ++ (b ++ ':' :: (c ++ (cs ++ (d ++ ['\x7d']))))))
  | more {key : String} {j : Json} {members : List (Option String × Json)}
    {a b c d cs ds : List Char} (ha : Blank a) (hb : Blank b) (hc : Blank c) (hd : Blank d)
    (h : Spells j cs) (hs : SpellsMembers members ds) :
    SpellsMembers ((some key, j) :: members)
      (a ++ (quotedChars key ++ (b ++ ':' :: (c ++ (cs ++ (d ++ ',' :: ds))))))

end

theorem number_head {literal : String} (h : (Decimal.ofLiteral? literal).isSome) :
    ∃ c tail, literal.toList = c :: tail ∧ isNumberPart c = true := by
  obtain ⟨hne, hparts⟩ := isNumberPart_of_ofLiteral? h
  obtain ⟨c, tail, heq⟩ := List.exists_cons_of_ne_nil hne
  exact ⟨c, tail, heq, hparts c (heq ▸ .head _)⟩

theorem isSpace_of_isNumberPart {c : Char} (h : isNumberPart c = true) : isSpace c = false := by
  refine Bool.eq_false_iff.2 fun hs => ?_
  unfold isSpace at hs
  simp only [Bool.or_eq_true, beq_iff_eq] at hs
  rcases hs with ((rfl | rfl) | rfl) | rfl <;> exact absurd h (by decide)

theorem Spells.length_pos {j : Json} {cs : List Char} (h : Spells j cs) : 0 < cs.length := by
  cases h with
  | number h =>
    obtain ⟨hne, -⟩ := isNumberPart_of_ofLiteral? h
    exact List.length_pos_iff.2 hne
  | _ => exact Nat.succ_pos _

/-- A number does not go on here. -/
def EndsNumber (rest : List Char) : Prop :=
  ∀ c ∈ rest.head?, isNumberPart c = false

theorem endsNumber_cons {c : Char} (hc : isNumberPart c = false) (rest : List Char) :
    EndsNumber (c :: rest) :=
  fun _ hd => Option.some.inj hd ▸ hc

theorem Blank.endsNumber {b cs : List Char} (hb : Blank b) (h : EndsNumber cs) :
    EndsNumber (b ++ cs) := by
  cases b with
  | nil => exact h
  | cons c b =>
    refine endsNumber_cons (Bool.eq_false_iff.2 fun hc => ?_) _
    exact Bool.eq_false_iff.1 (isSpace_of_isNumberPart hc) (hb c (.head _))

/-! ## Reading them -/

/-- The reader passes over blanks before a value. -/
theorem readValue?_blank {b : List Char} (hb : Blank b) (fuel : Nat) (cs : List Char) :
    readValue? fuel (b ++ cs) = readValue? fuel cs := by
  cases fuel with
  | zero => rw [readValue?, readValue?]
  | succ fuel => rw [readValue?, readValue?, skipSpace_append hb]

theorem skipSpace_skipSpace (cs : List Char) : skipSpace (skipSpace cs) = skipSpace cs := by
  have hblank : Blank (cs.takeWhile isSpace) := List.all_eq_true.1 List.all_takeWhile
  rw [← skipSpace_append hblank (skipSpace cs)]
  exact congrArg skipSpace List.takeWhile_append_dropWhile

theorem readValue?_skipSpace (fuel : Nat) (cs : List Char) :
    readValue? fuel (skipSpace cs) = readValue? fuel cs := by
  cases fuel with
  | zero => rw [readValue?, readValue?]
  | succ fuel => rw [readValue?, readValue?, skipSpace_skipSpace]

theorem readWord?_append (word : String) (j : Json) (rest : List Char) :
    readWord? word j (word.toList ++ rest) = some (j, rest) := by
  unfold readWord?
  rw [if_pos (List.isPrefixOf_iff_prefix.2 (List.prefix_append _ _)), ← String.length_toList,
    List.drop_left]

theorem readValue?_quote (fuel : Nat) (cs : List Char) :
    readValue? (fuel + 1) ('"' :: cs) = (readString? cs).map fun r => (.string r.1, r.2) :=
  rfl

theorem readValue?_bracket (fuel : Nat) (cs : List Char) :
    readValue? (fuel + 1) ('[' :: cs) = match skipSpace cs with
      | ']' :: cs => some (.array [], cs)
      | cs => (readItems? fuel cs).map fun r => (.array r.1, r.2) :=
  rfl

theorem readValue?_brace (fuel : Nat) (cs : List Char) :
    readValue? (fuel + 1) ('\x7b' :: cs) = match skipSpace cs with
      | '\x7d' :: cs => some (.object [], cs)
      | cs => (readMembers? fuel cs).map fun r => (.object r.1, r.2) :=
  rfl

theorem readValue?_noItems {b : List Char} (hb : Blank b) (fuel : Nat) (rest : List Char) :
    readValue? (fuel + 1) ('[' :: (b ++ ']' :: rest)) = some (.array [], rest) := by
  rw [readValue?_bracket, skipSpace_append hb]
  rfl

theorem readValue?_noMembers {b : List Char} (hb : Blank b) (fuel : Nat) (rest : List Char) :
    readValue? (fuel + 1) ('\x7b' :: (b ++ '\x7d' :: rest)) = some (.object [], rest) := by
  rw [readValue?_brace, skipSpace_append hb]
  rfl

/-- Items after a bracket, which do not start with one that closes them. -/
theorem readValue?_items {fuel : Nat} {cs rest : List Char} {items : List Json}
    (h : readItems? fuel cs = some (items, rest)) :
    readValue? (fuel + 1) ('[' :: cs) = some (.array items, rest) := by
  have hskip : readItems? fuel (skipSpace cs) = some (items, rest) := by
    rw [← h]
    cases fuel with
    | zero => rw [readItems?, readItems?]
    | succ fuel => rw [readItems?, readItems?, readValue?_skipSpace]
  have hclose : ∀ cs, readItems? fuel (']' :: cs) = none := by
    intro cs
    match fuel with
    | 0 => rfl
    | 1 => rfl
    | fuel + 2 => rfl
  rw [readValue?_bracket]
  split
  · rename_i heq
    rw [heq, hclose] at hskip
    cases hskip
  · rw [hskip]
    rfl

/-- Members after a brace, which do not start with one that closes them. -/
theorem readValue?_members {fuel : Nat} {cs rest : List Char}
    {members : List (Option String × Json)} (h : readMembers? fuel cs = some (members, rest)) :
    readValue? (fuel + 1) ('\x7b' :: cs) = some (.object members, rest) := by
  have hskip : readMembers? fuel (skipSpace cs) = some (members, rest) := by
    rw [← h]
    cases fuel with
    | zero => rw [readMembers?, readMembers?]
    | succ fuel => rw [readMembers?, readMembers?, skipSpace_skipSpace]
  have hclose : ∀ cs, readMembers? fuel ('\x7d' :: cs) = none := by
    intro cs
    match fuel with
    | 0 => rfl
    | fuel + 1 => rfl
  rw [readValue?_brace]
  split
  · rename_i heq
    rw [heq, hclose] at hskip
    cases hskip
  · rw [hskip]
    rfl

theorem readValue?_number {literal : String} (h : (Decimal.ofLiteral? literal).isSome)
    (fuel : Nat) {rest : List Char} (hrest : EndsNumber rest) :
    readValue? (fuel + 1) (literal.toList ++ rest) = some (.number literal, rest) := by
  obtain ⟨-, hparts⟩ := isNumberPart_of_ofLiteral? h
  obtain ⟨c, tail, heq, hc⟩ := number_head h
  have hstop : rest.takeWhile isNumberPart = [] ∧ rest.dropWhile isNumberPart = rest := by
    cases rest with
    | nil => exact ⟨rfl, rfl⟩
    | cons d rest =>
      have hd : ¬isNumberPart d = true := by rw [hrest d rfl]; decide
      exact ⟨List.takeWhile_cons_of_neg hd, List.dropWhile_cons_of_neg hd⟩
  have htake : (literal.toList ++ rest).takeWhile isNumberPart = literal.toList := by
    rw [List.takeWhile_append_of_pos hparts, hstop.1, List.append_nil]
  have hdrop : (literal.toList ++ rest).dropWhile isNumberPart = rest := by
    rw [List.dropWhile_append_of_pos hparts, hstop.2]
  have hhead : ∀ {d : Char} {ds : List Char}, literal.toList ++ rest = d :: ds →
      isNumberPart d = true := by
    intro d ds h
    rw [heq] at h
    exact (List.cons.inj h).1 ▸ hc
  have hskip : skipSpace (literal.toList ++ rest) = literal.toList ++ rest := by
    rw [heq]
    exact skipSpace_cons (isSpace_of_isNumberPart hc) _
  rw [readValue?, hskip]
  split
  · exact absurd (hhead ‹_›) (by decide)
  · exact absurd (hhead ‹_›) (by decide)
  · exact absurd (hhead ‹_›) (by decide)
  · exact absurd (hhead ‹_›) (by decide)
  · exact absurd (hhead ‹_›) (by decide)
  · exact absurd (hhead ‹_›) (by decide)
  · rw [htake, hdrop, String.ofList_toList, if_pos h]

/-- One member, with what follows its value. -/
theorem readMembers?_member {fuel : Nat} {key : String} {j : Json} {a b c cs rest : List Char}
    (ha : Blank a) (hb : Blank b) (hc : Blank c) (h : readValue? fuel (cs ++ rest) = some (j, rest)) :
    readMembers? (fuel + 1) (a ++ (quotedChars key ++ (b ++ ':' :: (c ++ (cs ++ rest))))) =
      match skipSpace rest with
        | ',' :: cs => (readMembers? fuel cs).bind fun r => some ((some key, j) :: r.1, r.2)
        | '\x7d' :: cs => some ([(some key, j)], cs)
        | _ => none := by
  have hkey : quotedChars key ++ (b ++ ':' :: (c ++ (cs ++ rest))) =
      '"' :: ((key.toList.flatMap escapedChar ++ ['"']) ++ (b ++ ':' :: (c ++ (cs ++ rest)))) := rfl
  rw [readMembers?, hkey, skipSpace_append ha, skipSpace_cons rfl]
  simp only [readString?_quotedChars, Option.bind_eq_bind, Option.bind_some]
  rw [skipSpace_append hb, skipSpace_cons rfl]
  simp only [readValue?_blank hc, h, Option.bind_some]
  rfl

/-! ## The reader on texts -/

mutual

/-- **The reader on a text of a value.** -/
theorem readValue?_spells {j : Json} {cs : List Char} (h : Spells j cs) {fuel : Nat}
    (hf : 2 * cs.length ≤ fuel) {rest : List Char} (hrest : EndsNumber rest) :
    readValue? fuel (cs ++ rest) = some (j, rest) := by
  have hpos := h.length_pos
  obtain ⟨fuel, rfl⟩ : ∃ n, fuel = n + 1 := ⟨fuel - 1, by omega⟩
  match h with
  | .null => exact readWord?_append "ull" .null rest
  | .isTrue => exact readWord?_append "rue" (.bool true) rest
  | .isFalse => exact readWord?_append "alse" (.bool false) rest
  | .number h => exact readValue?_number h fuel hrest
  | .text s =>
    unfold quotedChars
    rw [List.cons_append, List.cons_append, readValue?_quote, readString?_quotedChars]
    rfl
  | .noItems hb =>
    rw [List.cons_append, List.append_assoc]
    exact readValue?_noItems hb fuel rest
  | .array hs =>
    rw [List.length_cons] at hf
    exact readValue?_items (readItems?_spells hs (by omega) rest)
  | .noMembers hb =>
    rw [List.cons_append, List.append_assoc]
    exact readValue?_noMembers hb fuel rest
  | .object hs =>
    rw [List.length_cons] at hf
    exact readValue?_members (readMembers?_spells hs (by omega) rest)

theorem readItems?_spells {items : List Json} {cs : List Char} (h : SpellsItems items cs)
    {fuel : Nat} (hf : 2 * cs.length + 1 ≤ fuel) (rest : List Char) :
    readItems? fuel (cs ++ rest) = some (items, rest) := by
  obtain ⟨fuel, rfl⟩ : ∃ n, fuel = n + 1 := ⟨fuel - 1, by omega⟩
  match h with
  | .last ha hb h =>
    simp only [List.length_append] at hf
    have hvalue := readValue?_spells h (show _ ≤ fuel by omega)
      (hb.endsNumber (endsNumber_cons (c := ']') rfl rest))
    rw [readItems?]
    simp only [List.append_assoc, List.cons_append, List.nil_append]
    rw [readValue?_blank ha, hvalue]
    simp only [Option.bind_eq_bind, Option.bind_some, skipSpace_append hb]
    rfl
  | @SpellsItems.more j items a b cs ds ha hb h hs =>
    simp only [List.length_append, List.length_cons] at hf
    have hvalue := readValue?_spells h (show _ ≤ fuel by omega)
      (hb.endsNumber (endsNumber_cons (c := ',') rfl (ds ++ rest)))
    have hitems := readItems?_spells hs (show _ ≤ fuel by omega) rest
    rw [readItems?]
    simp only [List.append_assoc, List.cons_append]
    rw [readValue?_blank ha, hvalue]
    simp only [Option.bind_eq_bind, Option.bind_some, skipSpace_append hb]
    rw [skipSpace_cons rfl]
    change (readItems? fuel (ds ++ rest)).bind _ = _
    rw [hitems]
    rfl

theorem readMembers?_spells {members : List (Option String × Json)} {cs : List Char}
    (h : SpellsMembers members cs) {fuel : Nat} (hf : 2 * cs.length + 1 ≤ fuel)
    (rest : List Char) : readMembers? fuel (cs ++ rest) = some (members, rest) := by
  obtain ⟨fuel, rfl⟩ : ∃ n, fuel = n + 1 := ⟨fuel - 1, by omega⟩
  match h with
  | @SpellsMembers.last key j a b c d cs ha hb hc hd h =>
    simp only [List.length_append, List.length_cons] at hf
    have hvalue := readValue?_spells h (show _ ≤ fuel by omega)
      (hd.endsNumber (endsNumber_cons (c := '\x7d') rfl rest))
    simp only [List.append_assoc, List.cons_append, List.nil_append]
    rw [readMembers?_member ha hb hc hvalue, skipSpace_append hd]
    rfl
  | @SpellsMembers.more key j members a b c d cs ds ha hb hc hd h hs =>
    simp only [List.length_append, List.length_cons] at hf
    have hvalue := readValue?_spells h (show _ ≤ fuel by omega)
      (hd.endsNumber (endsNumber_cons (c := ',') rfl (ds ++ rest)))
    have hmembers := readMembers?_spells hs (show _ ≤ fuel by omega) rest
    simp only [List.append_assoc, List.cons_append]
    rw [readMembers?_member ha hb hc hvalue, skipSpace_append hd, skipSpace_cons rfl]
    change (readMembers? fuel (ds ++ rest)).bind _ = _
    rw [hmembers]
    rfl

end

/-- **A text is read as the value that it spells**, with blanks around it. -/
theorem read?_of_spells {j : Json} {a b cs : List Char} (ha : Blank a) (hb : Blank b)
    (h : Spells j cs) : read? (.ofList (a ++ (cs ++ b))) = some j := by
  have hlength : 2 * cs.length ≤ 2 * (a ++ (cs ++ b)).length + 2 := by
    simp only [List.length_append]
    omega
  have hend : EndsNumber b := by
    have hnil : EndsNumber [] := nofun
    exact List.append_nil b ▸ hb.endsNumber hnil
  have hskip : skipSpace b = [] := by
    rw [← List.append_nil b, skipSpace_append hb]
    rfl
  unfold read?
  rw [String.toList_ofList]
  dsimp only
  rw [readValue?_blank ha, readValue?_spells h hlength hend]
  dsimp only
  rw [hskip]
  rfl

/-! ## Texts that are written -/

/-- **A value that has a text**: numbers are numbers, and strings are texts. -/
inductive Valid : Json → Prop
  | null : Valid .null
  | bool (b : Bool) : Valid (.bool b)
  | number {literal : String} (h : (Decimal.ofLiteral? literal).isSome) : Valid (.number literal)
  | text (s : String) : Valid (text s)
  | array {items : List Json} (h : ∀ j ∈ items, Valid j) : Valid (.array items)
  | record {members : List (String × Json)} (h : ∀ m ∈ members, Valid m.2) : Valid (record members)

theorem blank_nil : Blank [] :=
  nofun

theorem blank_newLine (level : Nat) : Blank (newLine level) := by
  intro c hc
  rcases List.mem_cons.1 hc with rfl | hc
  · rfl
  · rw [List.eq_of_mem_replicate hc]
    rfl

theorem spellsItems_compact {items : List Json} (hne : items ≠ [])
    (h : ∀ j ∈ items, Spells j (compactChars j)) :
    SpellsItems items (compactItems items ++ [']']) := by
  induction items with
  | nil => exact absurd rfl hne
  | cons j rest ih =>
    obtain ⟨hj, hrest⟩ := List.forall_mem_cons.1 h
    cases rest with
    | nil => exact .last blank_nil blank_nil hj
    | cons k rest =>
      have hmore := SpellsItems.more blank_nil blank_nil hj (ih (List.cons_ne_nil _ _) hrest)
      rw [compactItems, List.append_assoc]
      exact hmore

theorem spellsMembers_compact {members : List (String × Json)} (hne : members ≠ [])
    (h : ∀ m ∈ members, Spells m.2 (compactChars m.2)) :
    SpellsMembers (members.map fun m => (some m.1, m.2))
      (compactMembers (members.map fun m => (some m.1, m.2)) ++ ['\x7d']) := by
  induction members with
  | nil => exact absurd rfl hne
  | cons m rest ih =>
    obtain ⟨hm, hrest⟩ := List.forall_mem_cons.1 h
    cases rest with
    | nil =>
      have hlast : SpellsMembers [(some m.1, m.2)] _ :=
        .last blank_nil blank_nil blank_nil blank_nil hm
      rw [List.map_singleton, compactMembers]
      simpa [stringChars] using hlast
    | cons k rest =>
      have hmore : SpellsMembers ((some m.1, m.2) :: _) _ :=
        .more blank_nil blank_nil blank_nil blank_nil hm (ih (List.cons_ne_nil _ _) hrest)
      rw [List.map_cons, List.map_cons, compactMembers]
      simpa [stringChars] using hmore

/-- **The text on one line** spells its value. -/
theorem spells_compact {j : Json} (h : Valid j) : Spells j (compactChars j) := by
  induction h with
  | null => exact .null
  | bool b =>
    cases b with
    | true => exact .isTrue
    | false => exact .isFalse
  | number h => exact .number h
  | text s => exact .text s
  | @array items _ ih =>
    rw [compactChars]
    cases items with
    | nil => exact .noItems blank_nil
    | cons j rest => exact .array (spellsItems_compact (List.cons_ne_nil _ _) ih)
  | @record members _ ih =>
    unfold Json.record
    rw [compactChars]
    cases members with
    | nil => exact .noMembers blank_nil
    | cons m rest => exact .object (spellsMembers_compact (List.cons_ne_nil _ _) ih)

theorem spellsItems_pretty {items : List Json} (level : Nat) {b : List Char} (hb : Blank b)
    (hne : items ≠ []) (h : ∀ j ∈ items, Spells j (prettyChars level j)) :
    SpellsItems items (prettyItems level items ++ (b ++ [']'])) := by
  induction items with
  | nil => exact absurd rfl hne
  | cons j rest ih =>
    obtain ⟨hj, hrest⟩ := List.forall_mem_cons.1 h
    cases rest with
    | nil =>
      rw [prettyItems, List.append_assoc]
      exact .last (blank_newLine level) hb hj
    | cons k rest =>
      have hmore := SpellsItems.more (blank_newLine level) blank_nil hj
        (ih (List.cons_ne_nil _ _) hrest)
      rw [prettyItems]
      simpa using hmore

theorem spellsMembers_pretty {members : List (String × Json)} (level : Nat) {b : List Char}
    (hb : Blank b) (hne : members ≠ [])
    (h : ∀ m ∈ members, Spells m.2 (prettyChars level m.2)) :
    SpellsMembers (members.map fun m => (some m.1, m.2))
      (prettyMembers level (members.map fun m => (some m.1, m.2)) ++ (b ++ ['\x7d'])) := by
  have hgap : Blank [' '] := fun c hc => List.mem_singleton.1 hc ▸ rfl
  induction members with
  | nil => exact absurd rfl hne
  | cons m rest ih =>
    obtain ⟨hm, hrest⟩ := List.forall_mem_cons.1 h
    cases rest with
    | nil =>
      have hlast : SpellsMembers [(some m.1, m.2)] _ :=
        .last (blank_newLine level) blank_nil hgap hb hm
      rw [List.map_singleton, prettyMembers]
      simpa [stringChars] using hlast
    | cons k rest =>
      have hmore : SpellsMembers ((some m.1, m.2) :: _) _ :=
        .more (blank_newLine level) blank_nil hgap blank_nil hm (ih (List.cons_ne_nil _ _) hrest)
      rw [List.map_cons, List.map_cons, prettyMembers]
      simpa [stringChars] using hmore

/-- **The indented text** spells its value. -/
theorem spells_pretty {j : Json} (h : Valid j) (level : Nat) : Spells j (prettyChars level j) := by
  induction h generalizing level with
  | null => exact .null
  | bool b =>
    cases b with
    | true => exact .isTrue
    | false => exact .isFalse
  | number h => exact .number h
  | text s => exact .text s
  | @array items _ ih =>
    cases items with
    | nil => exact .noItems blank_nil
    | cons j rest =>
      have hitems := spellsItems_pretty (level + 1) (blank_newLine level) (List.cons_ne_nil j rest)
        fun j hj => ih j hj (level + 1)
      rw [prettyChars, List.append_assoc]
      exact .array hitems
  | @record members _ ih =>
    cases members with
    | nil => exact .noMembers blank_nil
    | cons m rest =>
      have hmembers := spellsMembers_pretty (level + 1) (blank_newLine level)
        (List.cons_ne_nil m rest) fun m hm => ih m hm (level + 1)
      unfold Json.record
      rw [List.map_cons, prettyChars, List.append_assoc]
      exact .object hmembers

/-- **Both texts of a value are read as the value.** -/
theorem read?_compact {j : Json} (h : Valid j) : read? j.compact = some j := by
  have hread := read?_of_spells blank_nil blank_nil (spells_compact h)
  rw [List.nil_append, List.append_nil] at hread
  exact hread

theorem read?_pretty {j : Json} (h : Valid j) : read? j.pretty = some j := by
  have hread := read?_of_spells blank_nil blank_nil (spells_pretty h 0)
  rw [List.nil_append, List.append_nil] at hread
  exact hread

end Json

end DdlGraph
