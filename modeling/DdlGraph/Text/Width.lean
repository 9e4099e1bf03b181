import DdlGraph.Text.WidthClass

/-!
# Display width

Columns that a text takes on a terminal. A character takes none, one, two or three; a few sequences
take less than the sum: emoji joined into one picture, pairs of flag letters among them, a style
selector after a character that has several styles, vowels written with several signs, and
ligatures. The text is read from its end, because what follows a character decides whether it is
part of such a sequence (`Right`, `Context`).

* `width_ascii`: a text of printable ASCII is as wide as it is long;
* `addedWidth_plain`: where nothing to the right matters a character has the width of its own.
-/

namespace DdlGraph.Text

/-- What a ligature can end with. -/
inductive Ending where
  /-- Arabic alef. -/
  | alef
  /-- Hebrew lamed. -/
  | lamed
  /-- Buginese ya. -/
  | ya
  /-- Buginese vowel i, a joiner and ya. -/
  | vowelYa
  /-- A consonant of Tifinagh. -/
  | tifinagh
  /-- The Tifinagh joiner and a consonant. -/
  | joinedTifinagh
  /-- A Lisu tone letter. -/
  | tone
  /-- Old Turkic orkhon i. -/
  | orkhonI
  /-- A Khmer letter that can stand below another. -/
  | subscript
deriving DecidableEq

/-- What stands to the right of a character, as far as it changes its width. -/
inductive Right where
  | plain
  | lineFeed
  | skinTone
  /-- One flag letter. -/
  | flag
  /-- Two flag letters or more. -/
  | flags
  | emoji
  /-- A joiner, with an emoji to its right. -/
  | joiner
  /-- A keycap, with a joiner and an emoji to its right. -/
  | keycap
  /-- One flag letter, with a joiner and an emoji to its right. -/
  | joinedFlag
  /-- Two flag letters or more, with a joiner and an emoji to their right. -/
  | joinedFlags (odd : Bool)
  /-- The end of a tag and `count` letters of it, with a joiner and an emoji to their right. -/
  | tagLetters (count : Nat)
  /-- The end of a tag and `count` digits of it, with a joiner and an emoji to their right. -/
  | tagDigits (count : Nat)
  /-- The end of a ligature, after a joiner if `joined`. -/
  | ending (e : Ending) (joined : Bool)
  /-- The Kirat Rai vowel sign e. -/
  | vowelE
  /-- The Kirat Rai vowel sign ai. -/
  | vowelAi
deriving DecidableEq

/-- Styles that a variation selector gives to the character before it. -/
inductive Style where
  | emoji
  | text
  /-- As wide as an ideograph. -/
  | wide
deriving DecidableEq

/-- What stands to the right of a character, and the selector between the two if there is one. -/
structure Context where
  right : Right
  style : Option Style
deriving DecidableEq

/-- Nothing to the right that matters. -/
def Context.plain : Context :=
  ⟨.plain, none⟩

/-- The style that a selector gives. -/
def Style.ofChar? (c : Char) : Option Style :=
  match c.toNat with
  | 0xfe0f => some .emoji
  | 0xfe0e => some .text
  | 0xfe01 => some .wide
  | _ => none

/-- What is left of `r` to the left of a selector that does nothing: ligatures go on. -/
def Right.pastSelector : Right → Right
  | .ending e joined => .ending e joined
  | _ => .plain

/-- `r` with a selector to its left. A selector for emoji goes on with a joined emoji. -/
def Right.withStyle (r : Right) (style : Style) : Context :=
  match r with
  | .joiner | .keycap => ⟨if style = .emoji then r else .plain, some style⟩
  | _ => ⟨r.pastSelector, some style⟩

/-- The letter ends a ligature. -/
def Ending.ofChar? (c : Char) : Option Ending :=
  if isAlef c then some .alef
  else if isSubscriptLetter c then some .subscript
  else if isTifinagh c then some .tifinagh
  else match c.toNat with
    | 0x5dc => some .lamed
    | 0x1a10 => some .ya
    | 0xa4fc | 0xa4fd => some .tone
    | 0x10c03 => some .orkhonI
    | _ => none

/-- **Width of a character by itself**, and what it is to the character before it. -/
def charWidth (c : Char) : Int × Context :=
  let n := c.toNat
  if n = 10 then (1, ⟨.lineFeed, none⟩)
  else if n ≤ 0xa0 then (1, .plain)
  else if n = 0x17d8 then (3, .plain)
  else if n = 0x17a4 then (2, .plain)
  else if n = 0x16d67 then (1, ⟨.vowelE, none⟩)
  else if n = 0x16d68 then (1, ⟨.vowelAi, none⟩)
  else if isSkinTone c then (2, ⟨.skinTone, none⟩)
  else if isFlagLetter c then (1, ⟨.flag, none⟩)
  else if isEmoji c then (2, ⟨.emoji, none⟩)
  else match Ending.ofChar? c with
    | some e => (1, ⟨.ending e false, none⟩)
    | none => (if isZeroWidth c then 0 else if isWide c then 2 else 1, .plain)

/-- **Ligatures** of `c` with the ending `e`: the width that `c` adds, and what the two are to the
character before them. -/
def Ending.before? (e : Ending) (joined : Bool) (c : Char) : Option (Int × Right) :=
  match e with
  | .alef =>
    if isLam c then some (0, .plain)
    else if isTransparent c then some (0, .ending .alef joined)
    else none
  | .lamed => if joined ∧ c.toNat = 0x5d0 then some (0, .plain) else none
  | .ya => if joined ∧ c.toNat = 0x1a17 then some (0, .ending .vowelYa false) else none
  | .vowelYa => if c.toNat = 0x1a15 then some (0, .plain) else none
  | .tifinagh =>
    if c.toNat = 0x2d7f then some (1, .ending .joinedTifinagh false)
    else if joined ∧ isTifinagh c then some (0, .plain)
    else none
  | .joinedTifinagh => if isTifinagh c then some (-1, .plain) else none
  | .tone => if within [(0xa4f8, 0xa4fb)] c.toNat then some (0, .plain) else none
  | .orkhonI => if joined ∧ c.toNat = 0x10c32 then some (0, .plain) else none
  | .subscript => if c.toNat = 0x17d2 then some (-1, .plain) else none

/-- The joiner of characters. -/
def isJoiner (c : Char) : Bool :=
  c.toNat == 0x200d

/-- **Sequences** of `c` with what stands to its right: the width that `c` adds, and what both are
to the character before them. -/
def Right.before? (r : Right) (c : Char) : Option (Int × Right) :=
  match r with
  | .ending e joined =>
    if e ≠ .alef ∧ isJoiner c then some (0, .ending e true)
    else if e ≠ .alef ∧ isIgnorableMark c then some (0, r)
    else e.before? joined c
  | .skinTone =>
    if isModifierBase c then some (0, .emoji)
    else if isJoiner c then some (0, .joiner)
    else none
  | .flag => if isFlagLetter c then some (1, .flags) else none
  | .flags =>
    if isFlagLetter c then some (1, .flags)
    else if isJoiner c then some (0, .joiner)
    else none
  | .emoji => if isJoiner c then some (0, .joiner) else none
  | .joiner =>
    if c.toNat = 0x20e3 then some (0, .keycap)
    else if c.toNat = 0xe007f then some (0, .tagLetters 0)
    else if isFlagLetter c then some (1, .joinedFlag)
    else if isSkinTone c then some (0, .skinTone)
    else if isEmoji c then some (0, .emoji)
    else none
  | .joinedFlag => if isFlagLetter c then some (-1, .joinedFlags false) else none
  | .joinedFlags odd =>
    if isFlagLetter c then some (if odd then -1 else 3, .joinedFlags !odd)
    else if isJoiner c then some (0, .joiner)
    else none
  | .tagLetters n =>
    if n < 6 ∧ isTagLetter c then some (0, .tagLetters (n + 1))
    else if n < 5 ∧ isTagDigit c then some (0, .tagDigits 1)
    else if 3 ≤ n ∧ c.toNat = 0x1f3f4 then some (0, .emoji)
    else none
  | .tagDigits n =>
    if n < 3 ∧ isTagDigit c then some (0, .tagDigits (n + 1))
    else if n = 3 ∧ c.toNat = 0x1f3f4 then some (0, .emoji)
    else none
  | .vowelE =>
    match c.toNat with
    | 0x16d63 | 0x16d69 => some (0, .plain)
    | 0x16d67 => some (0, .vowelAi)
    | 0x16d68 => some (1, .vowelE)
    | _ => none
  | .vowelAi => if c.toNat = 0x16d63 then some (0, .plain) else none
  | .plain | .lineFeed | .keycap => none

/-- The width of `c` where no selector for emoji applies to it. -/
def unstyledWidth (c : Char) (x : Context) : Int × Context :=
  if c.toNat ≤ 0xa0 then
    if x.right = .lineFeed ∧ c.toNat = 13 then (0, .plain) else charWidth c
  else match Style.ofChar? c with
    | some style => (0, x.right.withStyle style)
    | none =>
      if x.style = some .text ∧ takesTextStyle c then (1, .plain)
      else if x.style = some .wide ∧ isCurlyQuote c then (2, .plain)
      else match x.right.before? c with
        | some (width, r) => (width, ⟨r, none⟩)
        | none => charWidth c

/-- **Width that `c` adds** to the text on its right, and what it is to the character before it. -/
def addedWidth (c : Char) (x : Context) : Int × Context :=
  if x.style = some .emoji then
    if takesEmojiStyle c then
      (if x.right = .joiner ∨ x.right = .keycap then 0 else 2, ⟨.emoji, none⟩)
    else unstyledWidth c ⟨x.right.pastSelector, none⟩
  else unstyledWidth c x

/-- **Display width** of a text. -/
def width (s : String) : Nat :=
  (s.toList.foldr (fun c r => let w := addedWidth c r.2; (r.1 + w.1, w.2))
    ((0 : Int), Context.plain)).1.toNat

/-! ## Characters with nothing to their right -/

theorem addedWidth_plain {c : Char} (h : Style.ofChar? c = none) :
    addedWidth c .plain = charWidth c := by
  simp [addedWidth, unstyledWidth, Context.plain, Right.before?, h]

theorem addedWidth_ascii {c : Char} (h : 32 ≤ c.toNat ∧ c.toNat < 127) :
    addedWidth c .plain = (1, .plain) := by
  have h1 : c.toNat ≠ 10 := by omega
  have h2 : c.toNat ≤ 0xa0 := by omega
  simp [addedWidth, unstyledWidth, charWidth, Context.plain, h1, h2]

theorem width_ascii {s : String} (h : ∀ c ∈ s.toList, 32 ≤ c.toNat ∧ c.toNat < 127) :
    width s = s.length := by
  have key : ∀ cs : List Char, (∀ c ∈ cs, 32 ≤ c.toNat ∧ c.toNat < 127) →
      cs.foldr (fun c r => let w := addedWidth c r.2; (r.1 + w.1, w.2)) ((0 : Int), Context.plain)
        = ((cs.length : Int), Context.plain) := by
    intro cs hcs
    induction cs with
    | nil => rfl
    | cons c cs ih =>
      simp [ih fun d hd => hcs d (by simp [hd]), addedWidth_ascii (hcs c (by simp))]
  simp [width, key _ h, String.length_toList]

end DdlGraph.Text
