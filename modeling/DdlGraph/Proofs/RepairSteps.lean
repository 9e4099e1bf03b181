import DdlGraph.Proofs.DefaultText
import DdlGraph.Proofs.LetterCase
import DdlGraph.Proofs.MarkedText
import DdlGraph.Repair.Normalize

/-!
# What a repair does to a text

Two things only (`Repairs`): a comma is put in, or a name goes between quote marks. Neither is ever
taken back by another one, since a text has more of these characters afterwards
(`Repairs.eq_or_lt`). Nothing that ends a statement or belongs to a mark is touched
(`Repairs.count_eq`).

* `repairs_quoteNames`: names of several words in the definitions of a line;
* `repairs_insertCommas`: commas between the lines of a column list;
* `repairs_repairBody`: a column list.
-/

namespace DdlGraph.Repair

open DdlGraph.Text DdlGraph.Sql

/-! ## Characters of names -/

/-- Characters that tell a mark, the end of an item or of a statement, a quotation, and a
comment. -/
def tellingMarks : List Char :=
  ['\x00', ',', ';', '"', '`', '-', '*', '/']

/-- The character may stand in a name of bare words. -/
def InName (c : Char) : Prop :=
  c ∉ tellingMarks

theorem inName_of_class {p : Char → Bool} (hp : tellingMarks.all (fun c => !p c) = true) {c : Char}
    (h : p c = true) : InName c := by
  intro hc
  have hn := List.all_eq_true.1 hp c hc
  rw [h] at hn
  cases hn

theorem inName_of_isBlank {c : Char} (h : isBlank c = true) : InName c :=
  inName_of_class (p := isBlank) (by decide) h

/-- **A plain word** begins like a word, and goes on with characters of words. -/
theorem exists_of_plain {word : List Char} (h : isPlainIdentifier (.ofList word) = true) :
    ∃ c cs, word = c :: cs ∧ lexeme false c [] = wordLexeme c [] ∧
      ∀ d ∈ cs, isWordPart d = true := by
  obtain ⟨c, cs, l, hn, ht, hl⟩ := lexeme_of_plainIdentifier h
  rw [String.toList_ofList] at hn
  subst hn
  have htoken : (lexeme false c cs).1.token = some (.ident (.ofList (c :: cs))) := by
    rw [hl]
    exact ht
  obtain ⟨-, hword⟩ := raw_of_ident htoken
  have hw : l.isWord = true := by
    unfold Lexeme.isWord
    rw [ht]
  have hcs := dropWhile_isWordPart hw ((hword false cs).symm.trans (hl false))
  refine ⟨c, cs, rfl, hword false [], fun d hd => ?_⟩
  exact List.all_eq_true.1 List.all_takeWhile d ((takeWhile_eq_self hcs).symm ▸ hd)

/-- No mark that goes on no word, and is a token of its own or none, stands in a plain word. -/
theorem not_mem_of_plain {marks word : List Char}
    (hfirst : (marks.all fun c => decide (lexeme false c [] ≠ wordLexeme c [])) = true)
    (hpart : (marks.all fun c => !isWordPart c) = true)
    (h : isPlainIdentifier (.ofList word) = true) : ∀ c ∈ word, c ∉ marks := by
  obtain ⟨c, cs, rfl, hone, hcs⟩ := exists_of_plain h
  intro d hd hmark
  rcases List.mem_cons.1 hd with rfl | hd
  · exact of_decide_eq_true (List.all_eq_true.1 hfirst d hmark) hone
  · have hn := List.all_eq_true.1 hpart d hmark
    rw [hcs d hd] at hn
    cases hn

theorem inName_of_plain {word : List Char} (h : isPlainIdentifier (.ofList word) = true) :
    ∀ c ∈ word, InName c :=
  not_mem_of_plain (by decide) (by decide) h

theorem isWordPart_of_isBlank {c : Char} (h : isBlank c = true) : isWordPart c = false := by
  by_cases hc : c.toNat < 128
  · revert h
    exact of_ascii (p := fun c => isBlank c = true → isWordPart c = false) (by decide) hc
  · unfold isBlank at h
    rw [if_neg hc] at h
    have hmem : c.toNat ∈ [133, 160, 5760, 8232, 8233, 8239, 8287, 12288] ++ List.range' 8192 11 := by
      simp only [within, blankTable, Bool.and_eq_true, Bool.or_eq_true, decide_eq_true_eq,
        Bool.false_eq_true, or_false] at h
      simp only [List.mem_append, List.mem_cons, List.not_mem_nil, or_false, List.mem_range'_1]
      omega
    have hall : ∀ n ∈ [133, 160, 5760, 8232, 8233, 8239, 8287, 12288] ++ List.range' 8192 11,
        isWordPart (Char.ofNat n) = false := by
      decide +kernel
    have hpart := hall c.toNat hmem
    rwa [Char.ofNat_toNat] at hpart

/-- A plain word has no white space. -/
theorem notBlank_of_plain {word : List Char} (h : isPlainIdentifier (.ofList word) = true) :
    ∀ c ∈ word, isBlank c = false := by
  obtain ⟨c, cs, rfl, hone, hcs⟩ := exists_of_plain h
  intro d hd
  rw [Bool.eq_false_iff]
  intro hblank
  rcases List.mem_cons.1 hd with rfl | hd
  · rw [lexeme_blank hblank] at hone
    exact absurd (congrArg (fun r => r.1.token) hone) (Option.some_ne_none _).symm
  · have hpart := hcs d hd
    rw [isWordPart_of_isBlank hblank] at hpart
    cases hpart

theorem mem_words {cs : List Char} {c : Char} (h : c ∈ cs) :
    isBlank c = true ∨ ∃ w ∈ words cs, c ∈ w := by
  have hblank : ∀ d ∈ cs.takeWhile isBlank, isBlank d = true :=
    List.all_eq_true.1 List.all_takeWhile
  fun_induction words cs with
  | case1 cs hnil =>
    rw [takeWhile_eq_self (show cs.dropWhile isBlank = [] from hnil)] at hblank
    exact .inl (hblank c h)
  | case2 cs d rest heq ih =>
    have hcs : cs = cs.takeWhile isBlank ++ d :: rest := by
      rw [← show cs.dropWhile isBlank = d :: rest from heq, List.takeWhile_append_dropWhile]
    rw [hcs] at h
    rcases List.mem_append.1 h with h | h
    · exact .inl (hblank c h)
    · have hnext : (nextWord (d :: rest)).1 ++ (nextWord (d :: rest)).2 = d :: rest :=
        List.takeWhile_append_dropWhile
      rw [← hnext] at h
      rcases List.mem_append.1 h with h | h
      · exact .inr ⟨_, .head _, h⟩
      · rcases ih h (List.all_eq_true.1 List.all_takeWhile) with hb | ⟨w, hw, hcw⟩
        · exact .inl hb
        · exact .inr ⟨w, .tail _ hw, hcw⟩

/-- All characters of a name whose words are plain may stand in a name. -/
theorem inName_of_allPlain {name : List Char} (h : allPlain name = true) : ∀ c ∈ name, InName c := by
  intro c hc
  rcases mem_words hc with hb | ⟨w, hw, hcw⟩
  · exact inName_of_isBlank hb
  · exact inName_of_plain (List.all_eq_true.1 h w hw) c hcw

/-! ## Repairs -/

/-- What of a text is no white space. -/
def solid (cs : List Char) : List Char :=
  cs.filter (!isBlank ·)

theorem solid_append (a b : List Char) : solid (a ++ b) = solid a ++ solid b :=
  List.filter_append a b

theorem solid_of_blank {cs : List Char} (h : ∀ c ∈ cs, isBlank c = true) : solid cs = [] :=
  List.filter_eq_nil_iff.2 fun c hc => by rw [h c hc]; exact Bool.false_ne_true

/-- **What a repair does to a text**: a comma is put behind a character of the text, or a name goes
between quote marks with other blanks in it, while the rest stays. No name begins with the end of a
line. -/
inductive Repairs (quoteMark : Char) : List Char → List Char → Prop
  | same {a : List Char} (h : WholeMarks a) : Repairs quoteMark a a
  | comma {c : Char} (hc : c ≠ '\x00') : Repairs quoteMark [c] [c, ',']
  | quote {c : Char} {name inner : List Char} (hline : c ≠ '\n')
      (hname : ∀ d ∈ c :: name, InName d) (hinner : ∀ d ∈ inner, InName d)
      (hsolid : solid (c :: name) = solid inner) :
      Repairs quoteMark (c :: name) (quoteMark :: inner ++ [quoteMark])
  | append {a b a' b' : List Char} (h : Repairs quoteMark a b) (h' : Repairs quoteMark a' b') :
      Repairs quoteMark (a ++ a') (b ++ b')
  | trans {a b c : List Char} (h : Repairs quoteMark a b) (h' : Repairs quoteMark b c) :
      Repairs quoteMark a c

theorem noNul_of_inName {cs : List Char} (h : ∀ c ∈ cs, InName c) : '\x00' ∉ cs :=
  fun hc => h _ hc (by decide)

/-- The mark stands around names. -/
def AroundNames (q : Char) : Prop :=
  q = '"' ∨ q = '`'

section Marks

variable {q : Char} (hq : AroundNames q)

include hq

theorem AroundNames.ne_nul : q ≠ '\x00' := by
  rcases hq with rfl | rfl <;> decide

theorem AroundNames.not_inName : ¬InName q := by
  rcases hq with rfl | rfl <;> exact fun h => h (by decide)

theorem AroundNames.not_mem {name : List Char} (h : ∀ c ∈ name, InName c) : q ∉ name :=
  fun hmem => hq.not_inName (h q hmem)

end Marks

theorem aroundNames_quoteMark (dialect : Dialect) : AroundNames dialect.quoteMark := by
  cases dialect with
  | mysql => exact .inr rfl
  | postgresql | sqlite => exact .inl rfl

variable {q : Char}

theorem mem_quoted {inner : List Char} {c : Char} (h : c ∈ q :: inner ++ [q]) :
    c = q ∨ c ∈ inner := by
  rcases List.mem_append.1 h with h | h
  · exact List.mem_cons.1 h
  · exact .inl (List.mem_singleton.1 h)

theorem noNul_of_quoted (hq : AroundNames q) {inner : List Char} (h : ∀ c ∈ inner, InName c) :
    '\x00' ∉ q :: inner ++ [q] := by
  intro hc
  rcases mem_quoted hc with hc | hc
  · exact hq.ne_nul hc.symm
  · exact noNul_of_inName h hc

/-- Repairs leave marks whole. -/
theorem Repairs.wholeMarks (hq : AroundNames q) {a b : List Char} (h : Repairs q a b) :
    WholeMarks a ∧ WholeMarks b := by
  induction h with
  | same h => exact ⟨h, h⟩
  | comma hc => exact ⟨.char hc .nil, .char hc (.char (by decide) .nil)⟩
  | quote _ hname hinner _ =>
    exact ⟨wholeMarks_of_noNul (noNul_of_inName hname),
      wholeMarks_of_noNul (noNul_of_quoted hq hinner)⟩
  | append _ _ ih ih' => exact ⟨ih.1.append ih'.1, ih.2.append ih'.2⟩
  | trans _ _ ih ih' => exact ⟨ih.1, ih'.2⟩

/-- **Nothing else is put in or taken out**: neither what ends a statement nor a NUL. -/
theorem Repairs.count_eq (hq : AroundNames q) {c : Char} (hc : c = ';' ∨ c = '\x00')
    (pieces : List (List Char)) {a b : List Char} (h : Repairs q a b) :
    (restore pieces a).count c = (restore pieces b).count c := by
  have hcq : c ≠ q := by
    rcases hq with rfl | rfl <;> rcases hc with rfl | rfl <;> decide
  have hcomma : c ∉ [','] := by
    rcases hc with rfl | rfl <;> decide
  have hname : ∀ cs : List Char, (∀ d ∈ cs, InName d) → c ∉ cs := by
    intro cs hcs hmem
    rcases hc with rfl | rfl <;> exact hcs _ hmem (by decide)
  induction h with
  | same => rfl
  | comma hd =>
    have hmore : restore pieces [','] = [','] := restore_of_noNul (by decide)
    rw [restore_cons hd .nil, restore_cons hd (.char (by decide) .nil), hmore,
      restore_of_noNul List.not_mem_nil, List.count_cons, List.count_cons, List.count_nil,
      List.count_eq_zero_of_not_mem hcomma]
  | quote _ hold hnew _ =>
    rw [restore_of_noNul (noNul_of_inName hold), restore_of_noNul (noNul_of_quoted hq hnew),
      List.count_eq_zero_of_not_mem (hname _ hold), List.count_eq_zero_of_not_mem]
    intro hmem
    rcases mem_quoted hmem with hmem | hmem
    · exact hcq hmem
    · exact hname _ hnew hmem
  | append h h' ih ih' =>
    rw [restore_append (h.wholeMarks hq).1 (h'.wholeMarks hq).1,
      restore_append (h.wholeMarks hq).2 (h'.wholeMarks hq).2, List.count_append,
      List.count_append, ih, ih']
  | trans _ _ ih ih' => exact ih.trans ih'

/-- How many commas and quote marks a text has once everything is put back. -/
def repairMarks (q : Char) (pieces : List (List Char)) (text : List Char) : Nat :=
  (restore pieces text).countP fun c => c == q || c == ','

theorem repairMarks_append {pieces : List (List Char)} {a b : List Char} (ha : WholeMarks a)
    (hb : WholeMarks b) :
    repairMarks q pieces (a ++ b) = repairMarks q pieces a + repairMarks q pieces b := by
  unfold repairMarks
  rw [restore_append ha hb, List.countP_append]

/-- **No repair takes another one back.** -/
theorem Repairs.eq_or_lt (hq : AroundNames q) (pieces : List (List Char)) {a b : List Char}
    (h : Repairs q a b) : a = b ∨ repairMarks q pieces a < repairMarks q pieces b := by
  induction h with
  | same => exact .inl rfl
  | @comma c hc =>
    have hmark : WholeMarks [','] := .char (by decide) .nil
    have hone : repairMarks q pieces [','] = 1 := by
      unfold repairMarks
      rw [restore_of_noNul (by decide)]
      simp
    have hboth : repairMarks q pieces [c, ','] = repairMarks q pieces [c] + 1 :=
      hone ▸ repairMarks_append (.char hc .nil) hmark
    omega
  | @quote c name inner _ hold hnew _ =>
    have hnone : repairMarks q pieces (c :: name) = 0 := by
      unfold repairMarks
      rw [restore_of_noNul (noNul_of_inName hold), List.countP_eq_zero]
      intro c hc hmark
      rcases Bool.or_eq_true_iff.1 hmark with hmark | hmark
      · exact hq.not_inName (eq_of_beq hmark ▸ hold c hc)
      · exact hold c hc (eq_of_beq hmark ▸ by decide)
    refine .inr (hnone ▸ ?_)
    unfold repairMarks
    rw [restore_of_noNul (noNul_of_quoted hq hnew)]
    exact List.countP_pos_iff.2 ⟨q, by simp, by simp⟩
  | @append a b a' b' h h' ih ih' =>
    rw [repairMarks_append (h.wholeMarks hq).1 (h'.wholeMarks hq).1,
      repairMarks_append (h.wholeMarks hq).2 (h'.wholeMarks hq).2]
    rcases ih with rfl | ih
    · rcases ih' with rfl | ih'
      · exact .inl rfl
      · exact .inr (Nat.add_lt_add_left ih' _)
    · rcases ih' with rfl | ih'
      · exact .inr (Nat.add_lt_add_right ih _)
      · exact .inr (Nat.add_lt_add ih ih')
  | trans _ _ ih ih' =>
    rcases ih with rfl | ih
    · exact ih'
    · rcases ih' with rfl | ih'
      · exact .inr ih
      · exact .inr (Nat.lt_trans ih ih')

/-- Texts that come back alike were not repaired. -/
theorem Repairs.eq_of_restore (hq : AroundNames q) {pieces : List (List Char)} {a b : List Char}
    (h : Repairs q a b) (he : restore pieces a = restore pieces b) : a = b := by
  rcases h.eq_or_lt hq pieces with h | h
  · exact h
  · unfold repairMarks at h
    rw [he] at h
    exact absurd h (Nat.lt_irrefl _)

/-- **Part by part**: where repairs leave a text as it is, they leave its parts. -/
theorem Repairs.eq_of_append (hq : AroundNames q) {a b a' b' : List Char} (h : Repairs q a b)
    (h' : Repairs q a' b') (he : a ++ a' = b ++ b') : a = b ∧ a' = b' := by
  have hmarks := congrArg (repairMarks q []) he
  rw [repairMarks_append (h.wholeMarks hq).1 (h'.wholeMarks hq).1,
    repairMarks_append (h.wholeMarks hq).2 (h'.wholeMarks hq).2] at hmarks
  rcases h.eq_or_lt hq [] with rfl | hlt
  · exact ⟨rfl, List.append_cancel_left he⟩
  · rcases h'.eq_or_lt hq [] with rfl | hlt'
    · exact ⟨List.append_cancel_right he, rfl⟩
    · omega

theorem Repairs.antisymm (hq : AroundNames q) {a b : List Char} (h : Repairs q a b)
    (h' : Repairs q b a) : a = b := by
  rcases h.eq_or_lt hq [] with h | h
  · exact h
  · rcases h'.eq_or_lt hq [] with h' | h'
    · exact h'.symm
    · exact absurd h' (Nat.lt_asymm h)

theorem Repairs.flatMap {α β : Type} {f : α → List Char} {g : β → List Char} {l : List α}
    {l' : List β} (h : List.Forall₂ (fun x y => Repairs q (f x) (g y)) l l') :
    Repairs q (l.flatMap f) (l'.flatMap g) := by
  induction h with
  | nil => exact .same .nil
  | cons h _ ih => exact .append h ih

theorem Repairs.eq_of_flatMap (hq : AroundNames q) {α β : Type} {f : α → List Char}
    {g : β → List Char} {l : List α} {l' : List β}
    (h : List.Forall₂ (fun x y => Repairs q (f x) (g y)) l l')
    (he : l.flatMap f = l'.flatMap g) : List.Forall₂ (fun x y => f x = g y) l l' := by
  induction h with
  | nil => exact .nil
  | cons hxy hl ih =>
    obtain ⟨hhead, htail⟩ := hxy.eq_of_append hq (.flatMap hl) he
    exact .cons hhead (ih htail)

/-! ## Names -/

theorem mem_of_mem_intercalate {α : Type} {separator : List α} {lists : List (List α)} {a : α}
    (h : a ∈ separator.intercalate lists) : a ∈ separator ∨ ∃ l ∈ lists, a ∈ l := by
  induction lists with
  | nil => exact absurd h List.not_mem_nil
  | cons l ls ih =>
    cases ls with
    | nil =>
      rw [List.intercalate_singleton] at h
      exact .inr ⟨l, .head _, h⟩
    | cons l' ls =>
      rw [List.intercalate_cons_cons, List.mem_append] at h
      rcases h with h | h
      · rcases List.mem_append.1 h with h | h
        · exact .inr ⟨l, .head _, h⟩
        · exact .inl h
      · rcases ih h with h | ⟨m, hm, ha⟩
        · exact .inl h
        · exact .inr ⟨m, .tail _ hm, ha⟩

theorem mem_of_mem_words {cs w : List Char} (h : w ∈ words cs) {c : Char} (hc : c ∈ w) : c ∈ cs := by
  fun_induction words cs with
  | case1 => exact absurd h List.not_mem_nil
  | case2 cs d rest heq ih =>
    have hsub : ∀ e ∈ d :: rest, e ∈ cs := by
      intro e he
      rw [← heq] at he
      exact (List.dropWhile_suffix isBlank).mem he
    rcases List.mem_cons.1 h with rfl | h
    · exact hsub c ((List.takeWhile_prefix _).mem hc)
    · exact hsub c ((List.dropWhile_suffix _).mem (ih h))

theorem solid_intercalate (ws : List (List Char)) :
    solid ([' '].intercalate ws) = solid ws.flatten := by
  have hblank : solid [' '] = [] := rfl
  induction ws with
  | nil => rfl
  | cons w ws ih =>
    cases ws with
    | nil => rw [List.intercalate_singleton, List.flatten_cons, List.flatten_nil, List.append_nil]
    | cons w' ws =>
      rw [List.intercalate_cons_cons, solid_append, solid_append, hblank, ih, List.append_nil,
        List.flatten_cons (l := w), solid_append]

theorem solid_dropWhile (cs : List Char) : solid (cs.dropWhile isBlank) = solid cs := by
  have hblank : solid (cs.takeWhile isBlank) = [] :=
    solid_of_blank (List.all_eq_true.1 List.all_takeWhile)
  conv_rhs => rw [← List.takeWhile_append_dropWhile (p := isBlank) (l := cs), solid_append, hblank]
  rfl

theorem solid_words (cs : List Char) : solid (words cs).flatten = solid cs := by
  fun_induction words cs with
  | case1 cs hnil =>
    rw [← solid_dropWhile cs, show cs.dropWhile isBlank = [] from hnil]
    rfl
  | case2 cs d rest heq ih =>
    have hnext : (nextWord (d :: rest)).1 ++ (nextWord (d :: rest)).2 = d :: rest :=
      List.takeWhile_append_dropWhile
    rw [List.flatten_cons, solid_append, ih, ← solid_append, hnext, ← solid_dropWhile cs,
      show cs.dropWhile isBlank = d :: rest from heq]

/-- A name of bare words goes between quote marks, blanks around it may stay outside. -/
theorem repairs_name {c : Char} {inside name : List Char} (hline : c ≠ '\n')
    (hinside : ∀ d ∈ c :: inside, d ∈ name) (h : ∀ d ∈ name, InName d)
    (hsolid : solid (c :: inside) = solid name) :
    Repairs q (c :: inside) (quotedWords q name) := by
  refine .quote hline (fun d hd => h d (hinside d hd)) (fun d hd => ?_)
    (hsolid.trans ((solid_words name).symm.trans (solid_intercalate _).symm))
  rcases mem_of_mem_intercalate hd with hd | ⟨w, hw, hdw⟩
  · exact inName_of_isBlank (List.mem_singleton.1 hd ▸ by decide)
  · exact h d (mem_of_mem_words hw hdw)

section Types

variable (types : TypeWords)

theorem splitWord_eq_append {cs word rest : List Char} (h : TypeWords.splitWord? cs = some (word, rest)) :
    cs = word ++ rest := by
  unfold TypeWords.splitWord? at h
  split at h
  · cases h
  · split at h
    · cases h
      rw [List.cons_append, List.takeWhile_append_dropWhile]
    · cases h

theorem splitWord_ne_nil {cs word rest : List Char}
    (h : TypeWords.splitWord? cs = some (word, rest)) : word ≠ [] := by
  unfold TypeWords.splitWord? at h
  split at h
  · cases h
  · split at h
    · cases h
      exact List.cons_ne_nil _ _
    · cases h

theorem isBlank_of_isInlineBlank {c : Char} (h : isInlineBlank c = true) : isBlank c = true := by
  rcases Bool.or_eq_true_iff.1 h with h | h <;> exact eq_of_beq h ▸ by decide

/-- A name up to a type is a part of the text, and has characters of names only. -/
theorem nameUpToType_eq_append {count : Nat} {name rest name' rest' : List Char}
    (h : types.nameUpToType? count name rest = some (name', rest'))
    (hname : ∀ c ∈ name, InName c) :
    name ++ rest = name' ++ rest' ∧ ∀ c ∈ name', InName c := by
  fun_induction TypeWords.nameUpToType? types count name rest with
  | case1 | case2 | case4 | case6 => cases h
  | case3 => cases h; exact ⟨rfl, hname⟩
  | @case5 count name rest blanks hc word rest₁ hsplit _ hplain ih =>
    have hnew : ∀ c ∈ name ++ blanks ++ word, InName c := by
      intro c hc
      rcases List.mem_append.1 hc with hc | hc
      · rcases List.mem_append.1 hc with hc | hc
        · exact hname c hc
        · exact inName_of_isBlank
            (isBlank_of_isInlineBlank (List.all_eq_true.1 List.all_takeWhile c hc))
      · exact inName_of_plain hplain c hc
    obtain ⟨he, hname'⟩ := ih h hnew
    refine ⟨?_, hname'⟩
    rw [← he, List.append_assoc, List.append_assoc, ← splitWord_eq_append hsplit,
      List.takeWhile_append_dropWhile]

theorem severalWords_eq_append {cs blanks name rest : List Char}
    (h : types.severalWords? cs = some (blanks, name, rest)) :
    cs = blanks ++ (name ++ rest) ∧ (∀ c ∈ blanks, isBlank c = true) ∧ ∀ c ∈ name, InName c := by
  obtain ⟨r, hr, he⟩ := Option.map_eq_some_iff.1 h
  cases he
  obtain ⟨happ, hname⟩ := nameUpToType_eq_append types hr (fun c hc => absurd hc List.not_mem_nil)
  refine ⟨?_, fun c hc => isBlank_of_isInlineBlank (List.all_eq_true.1 List.all_takeWhile c hc),
    hname⟩
  rw [← happ, List.nil_append, List.takeWhile_append_dropWhile]

/-- A name up to a type begins with a word. -/
theorem nameUpToType_cons {count : Nat} {name rest name' rest' : List Char}
    (h : types.nameUpToType? count name rest = some (name', rest'))
    (hfirst : count = 0 → name ++ rest.takeWhile isInlineBlank = [])
    (hnext : count ≠ 0 → ∃ c cs, name = c :: cs ∧ c ≠ '\n') :
    ∃ c cs, name' = c :: cs ∧ c ≠ '\n' := by
  fun_induction TypeWords.nameUpToType? types count name rest with
  | case1 | case2 | case4 | case6 => cases h
  | case3 =>
    cases h
    exact hnext (by omega)
  | @case5 count name rest blanks hc word rest₁ hsplit _ hplain ih =>
    obtain ⟨c, cs, rfl⟩ := List.exists_cons_of_ne_nil (splitWord_ne_nil hsplit)
    refine ih h (fun he => absurd he (Nat.succ_ne_zero _)) fun _ => ?_
    by_cases hcount : count = 0
    · refine ⟨c, cs, ?_, ?_⟩
      · rw [hfirst hcount, List.nil_append]
      · rintro rfl
        have hblank := notBlank_of_plain hplain _ (.head _)
        exact absurd hblank (by decide)
    · obtain ⟨d, ds, rfl, hd⟩ := hnext hcount
      exact ⟨d, ds ++ blanks ++ c :: cs, rfl, hd⟩

theorem severalWords_cons {cs blanks name rest : List Char}
    (h : types.severalWords? cs = some (blanks, name, rest)) :
    ∃ c v, name = c :: v ∧ c ≠ '\n' := by
  obtain ⟨r, hr, he⟩ := Option.map_eq_some_iff.1 h
  cases he
  refine nameUpToType_cons types hr (fun _ => ?_) (fun he => absurd rfl he)
  have hhead := List.head?_dropWhile_not isInlineBlank cs
  rw [List.nil_append]
  cases hd : cs.dropWhile isInlineBlank with
  | nil => rfl
  | cons c v =>
    rw [hd] at hhead
    exact List.takeWhile_cons_of_neg (by simpa using hhead)

theorem repairs_quoteName {part : List Char} (h : WholeMarks part) :
    Repairs q part (quoteName types q part) := by
  unfold quoteName
  split
  · rename_i blanks name rest hs
    obtain ⟨rfl, hblanks, hname⟩ := severalWords_eq_append types hs
    obtain ⟨c, v, rfl, hc⟩ := severalWords_cons types hs
    have hb : '\x00' ∉ blanks := noNul_of_inName fun c hc => inName_of_isBlank (hblanks c hc)
    have hrest : WholeMarks rest :=
      (h.of_append_right hb).of_append_right (noNul_of_inName hname)
    rw [List.append_assoc]
    exact .append (.same (wholeMarks_of_noNul hb))
      (.append (repairs_name hc (fun _ => id) hname rfl) (.same hrest))
  · exact .same h

theorem splitParts_ne_nil (read : List Char) (depth : Int) (open_ : Option Char) (cs : List Char) :
    splitParts read depth open_ cs ≠ [] := by
  induction cs generalizing read depth open_ with
  | nil => exact List.cons_ne_nil _ _
  | cons c cs ih =>
    unfold splitParts
    split
    · exact ih _ _ _
    · split
      · exact List.cons_ne_nil _ _
      · exact ih _ _ _

/-- **The parts of a line** make it up, with commas between them. -/
theorem intercalate_splitParts (read : List Char) (depth : Int) (open_ : Option Char)
    (cs : List Char) :
    [','].intercalate (splitParts read depth open_ cs) = read.reverse ++ cs := by
  induction cs generalizing read depth open_ with
  | nil =>
    unfold splitParts
    rw [List.intercalate_singleton, List.append_nil]
  | cons c cs ih =>
    unfold splitParts
    split
    · rw [ih, List.reverse_cons, List.append_assoc]
      rfl
    · split
      · rename_i hc
        obtain ⟨p, ps, hp⟩ := List.exists_cons_of_ne_nil (splitParts_ne_nil [] depth open_ cs)
        have ih' := ih [] depth open_
        rw [hp] at ih' ⊢
        rw [List.intercalate_cons_cons, ih', List.append_assoc, hc.1]
        rfl
      · rw [ih, List.reverse_cons, List.append_assoc]
        rfl

theorem wholeMarks_of_intercalate {parts : List (List Char)}
    (h : WholeMarks ([','].intercalate parts)) : ∀ part ∈ parts, WholeMarks part := by
  induction parts with
  | nil => exact fun part hp => absurd hp List.not_mem_nil
  | cons p parts ih =>
    cases parts with
    | nil =>
      rw [List.intercalate_singleton] at h
      exact List.forall_mem_singleton.2 h
    | cons p' parts =>
      rw [List.intercalate_cons_cons, List.append_assoc] at h
      obtain ⟨hp, hrest⟩ := h.split (by decide)
      exact List.forall_mem_cons.2 ⟨hp, ih hrest⟩

theorem Repairs.intercalate {parts : List (List Char)} {f : List Char → List Char}
    (h : ∀ part ∈ parts, Repairs q part (f part)) :
    Repairs q ([','].intercalate parts) ([','].intercalate (parts.map f)) := by
  induction parts with
  | nil => exact .same .nil
  | cons p parts ih =>
    obtain ⟨hp, hrest⟩ := List.forall_mem_cons.1 h
    cases parts with
    | nil => simpa only [List.map_cons, List.map_nil, List.intercalate_singleton] using hp
    | cons p' parts =>
      rw [List.map_cons, List.map_cons, List.intercalate_cons_cons, List.intercalate_cons_cons]
      exact .append (.append hp (.same (wholeMarks_of_noNul (by decide)))) (ih hrest)

theorem Repairs.eq_of_intercalate (hq : AroundNames q) {parts : List (List Char)}
    {f : List Char → List Char} (h : ∀ part ∈ parts, Repairs q part (f part))
    (he : [','].intercalate parts = [','].intercalate (parts.map f)) :
    ∀ part ∈ parts, part = f part := by
  induction parts with
  | nil => exact fun part hp => absurd hp List.not_mem_nil
  | cons p parts ih =>
    obtain ⟨hp, hrest⟩ := List.forall_mem_cons.1 h
    cases parts with
    | nil =>
      rw [List.map_cons, List.map_nil, List.intercalate_singleton, List.intercalate_singleton] at he
      exact List.forall_mem_singleton.2 he
    | cons p' parts =>
      rw [List.map_cons, List.map_cons, List.intercalate_cons_cons, List.intercalate_cons_cons] at he
      have hcomma : Repairs q [','] [','] := .same (wholeMarks_of_noNul (by decide))
      obtain ⟨hhead, htail⟩ := (hp.append hcomma).eq_of_append hq (Repairs.intercalate hrest) he
      exact List.forall_mem_cons.2 ⟨List.append_cancel_right hhead, ih hrest htail⟩

theorem repairs_quoteNames {line : List Char} (h : WholeMarks line) :
    Repairs q line (quoteNames types q line) := by
  have hline := intercalate_splitParts [] 0 none line
  rw [List.reverse_nil, List.nil_append] at hline
  have hparts := wholeMarks_of_intercalate (hline.symm ▸ h)
  have hrep := Repairs.intercalate (q := q) fun part hp => repairs_quoteName types (hparts part hp)
  rw [hline] at hrep
  exact hrep

/-! ## Commas -/

theorem dropTrailing_prefix (pieces : List Segment) : dropTrailing pieces <+: pieces := by
  unfold dropTrailing
  rw [← List.reverse_suffix, List.reverse_reverse]
  exact List.dropWhile_suffix _

/-- **The code of a line** and what follows it. -/
theorem codeOf_eq_append {line : List Char} (h : WholeMarks line) :
    ∃ after, line = codeOf line ++ after ∧ WholeMarks (codeOf line) ∧ WholeMarks after := by
  have hpieces : ∀ piece ∈ segments markPattern line, WholeMarks piece.text := by
    intro piece hp
    cases piece with
    | gap g => exact wholeMarks_of_noNul (wholePiece_of_mem_segments h hp)
    | found parts =>
      obtain ⟨n, rfl⟩ := wholePiece_of_mem_segments h hp
      exact .mark n .nil
  obtain ⟨dropped, hdropped⟩ := dropTrailing_prefix (segments markPattern line)
  have hall := hpieces
  rw [← hdropped] at hall
  have hkept := wholeMarks_flatMap fun piece hp => hall piece (List.mem_append_left _ hp)
  have hmore := wholeMarks_flatMap fun piece hp => hall piece (List.mem_append_right _ hp)
  generalize hk : (dropTrailing (segments markPattern line)).flatMap Segment.text = kept at hkept
  have hline : line = kept ++ dropped.flatMap Segment.text := by
    rw [← hk, ← List.flatMap_append, hdropped, flatten_segments]
  obtain ⟨blanks, hblanks, hb⟩ : ∃ blanks, kept = codeOf line ++ blanks ∧
      ∀ c ∈ blanks, isBlank c = true := by
    refine ⟨(kept.reverse.takeWhile isBlank).reverse, ?_, fun c hc =>
      List.all_eq_true.1 List.all_takeWhile c (List.mem_reverse.1 hc)⟩
    unfold codeOf trimEnd trimEndWhile
    rw [hk, ← List.reverse_append, List.takeWhile_append_dropWhile, List.reverse_reverse]
  have hfree : '\x00' ∉ blanks := noNul_of_inName fun c hc => inName_of_isBlank (hb c hc)
  refine ⟨blanks ++ dropped.flatMap Segment.text, ?_, ?_, (wholeMarks_of_noNul hfree).append hmore⟩
  · rw [← List.append_assoc, ← hblanks, ← hline]
  · exact (hblanks ▸ hkept).of_append_left hfree

/-- Code does not end in a mark. -/
theorem getLast?_codeOf_ne {line : List Char} (h : WholeMarks line) {c : Char}
    (hc : (codeOf line).getLast? = some c) : c ≠ '\x00' := by
  have hpieces : ∀ piece ∈ (segments markPattern line).reverse, WholePiece piece :=
    fun piece hp => wholePiece_of_mem_segments h (List.mem_reverse.1 hp)
  unfold codeOf dropTrailing trimEnd trimEndWhile at hc
  generalize (segments markPattern line).reverse = pieces at hc hpieces
  rw [List.getLast?_reverse] at hc
  induction pieces with
  | nil => cases hc
  | cons piece pieces ih =>
    obtain ⟨hpiece, hrest⟩ := List.forall_mem_cons.1 hpieces
    cases piece with
    | found => exact ih hc hrest
    | gap g =>
      rw [List.dropWhile_cons] at hc
      dsimp only at hc
      split at hc
      · exact ih hc hrest
      · rename_i hblank
        -- what is read backwards begins with the gap, in which not all is blank
        have hne : g.reverse.dropWhile isBlank ≠ [] := by
          intro he
          have hall : g.reverse.all isBlank = true := takeWhile_eq_self he ▸ List.all_takeWhile
          exact hblank (List.all_reverse ▸ hall)
        rw [List.reverse_cons, List.flatMap_append, List.flatMap_singleton, List.reverse_append,
          List.dropWhile_append, if_neg (by rwa [List.isEmpty_iff]),
          show (Segment.gap g).text = g from rfl, List.head?_append_of_ne_nil _ hne] at hc
        have hmem := (List.dropWhile_suffix isBlank).mem (List.mem_of_head? hc)
        rintro rfl
        exact hpiece (List.mem_reverse.1 hmem)

theorem repairs_insertComma {line : List Char} (h : WholeMarks line) :
    Repairs q line (insertComma line) := by
  obtain ⟨after, hline, hcode, hafter⟩ := codeOf_eq_append h
  unfold insertComma
  dsimp only
  split
  · exact .same h
  · rename_i c hlast
    split
    · exact .same h
    · have hdrop : line.drop (codeOf line).length = after := by
        have hd := congrArg (List.drop (codeOf line).length) hline
        rwa [List.drop_left] at hd
      obtain ⟨front, hfront⟩ := List.getLast?_eq_some_iff.1 hlast
      have hc := getLast?_codeOf_ne h hlast
      rw [hfront] at hcode hdrop hline ⊢
      have hrep : Repairs q (front ++ ([c] ++ after)) (front ++ ([c, ','] ++ after)) :=
        .append (.same (hcode.of_append_left (by simpa using hc.symm)))
          (.append (.comma hc) (.same hafter))
      rw [hdrop]
      rw [← List.append_assoc, ← hline] at hrep
      simpa only [List.append_assoc, List.cons_append, List.nil_append] using hrep

/-- Each line with its comma, at the depth it had. -/
theorem repairs_insertCommas {lines : List (List Char × Int)} (h : ∀ l ∈ lines, WholeMarks l.1) :
    List.Forall₂ (fun l l' => Repairs q l.1 l'.1 ∧ l'.2 = l.2) lines (insertCommas types lines).1 := by
  induction lines with
  | nil => exact .nil
  | cons l lines ih =>
    obtain ⟨line, depth⟩ := l
    obtain ⟨hline, hlines⟩ := List.forall_mem_cons.1 h
    unfold insertCommas
    dsimp only
    split
    · exact .cons ⟨.same hline, rfl⟩ (ih hlines)
    · refine .cons ⟨?_, rfl⟩ (ih hlines)
      dsimp only
      split
      · exact repairs_insertComma hline
      · exact .same hline

/-! ## Column lists -/

theorem flatten_linesOf (cs : List Char) : (linesOf cs).flatten = cs := by
  induction cs with
  | nil => rfl
  | cons c cs ih =>
    unfold linesOf
    split
    · rw [List.flatten_cons, ih]
      rfl
    · split
      · rename_i hnil
        rw [hnil] at ih
        rw [← ih]
        rfl
      · rename_i line rest hlines
        rw [hlines] at ih
        rw [← ih]
        rfl

theorem flatMap_withDepths (state : Int × Option Char) (lines : List (List Char)) :
    (withDepths state lines).flatMap Prod.fst = lines.flatten := by
  induction lines generalizing state with
  | nil => rfl
  | cons line lines ih =>
    unfold withDepths
    rw [List.flatMap_cons, ih, List.flatten_cons]

theorem linesOf_append {w cs : List Char} (hw : '\n' ∉ w) (hne : w ≠ []) :
    linesOf (w ++ cs) = (w ++ (linesOf cs).headD []) :: (linesOf cs).tail := by
  induction w with
  | nil => exact absurd rfl hne
  | cons c w ih =>
    have hc : ¬c = '\n' := (List.ne_of_not_mem_cons hw).symm
    rw [List.cons_append, linesOf, if_neg hc]
    cases w with
    | nil =>
      rw [List.nil_append]
      cases linesOf cs <;> rfl
    | cons c' w =>
      rw [ih (List.not_mem_of_not_mem_cons hw) (List.cons_ne_nil _ _)]
      rfl

/-- Marks do not go beyond a line. -/
theorem wholeMarks_of_mem_linesOf {cs : List Char} (h : WholeMarks cs) :
    ∀ line ∈ linesOf cs, WholeMarks line := by
  have hhead : ∀ lines : List (List Char), (∀ line ∈ lines, WholeMarks line) →
      WholeMarks (lines.headD []) := by
    intro lines hlines
    cases lines with
    | nil => exact .nil
    | cons line lines => exact hlines line (.head _)
  induction h with
  | nil => exact fun line hl => absurd hl List.not_mem_nil
  | @char c cs hc h ih =>
    by_cases hn : c = '\n'
    · rw [linesOf, if_pos hn]
      exact List.forall_mem_cons.2 ⟨.char hc .nil, ih⟩
    · rw [← List.singleton_append, linesOf_append (by rwa [List.mem_singleton, eq_comm])
        (List.cons_ne_nil _ _)]
      exact List.forall_mem_cons.2 ⟨.char hc (hhead _ ih), fun line hl => ih line (List.mem_of_mem_tail hl)⟩
  | mark n h ih =>
    have hn : '\n' ∉ mark n := fun hmem => not_outside_of_mem_mark hmem (by decide)
    rw [linesOf_append hn (List.cons_ne_nil _ _)]
    exact List.forall_mem_cons.2 ⟨.mark n (hhead _ ih), fun line hl => ih line (List.mem_of_mem_tail hl)⟩

theorem wholeMarks_of_mem_withDepths {lines : List (List Char)}
    (h : ∀ line ∈ lines, WholeMarks line) (state : Int × Option Char) :
    ∀ l ∈ withDepths state lines, WholeMarks l.1 := by
  induction lines generalizing state with
  | nil => exact fun l hl => absurd hl List.not_mem_nil
  | cons line lines ih =>
    obtain ⟨hline, hlines⟩ := List.forall_mem_cons.1 h
    exact List.forall_mem_cons.2 ⟨hline, ih hlines _⟩

/-- A line of a column list with its names quoted, unless it stands in parentheses. -/
def quoteLine (types : TypeWords) (quoteMark : Char) (l : List Char × Int) : List Char :=
  if l.2 = 0 then quoteNames types quoteMark l.1 else l.1

theorem repairBody_eq (types : TypeWords) (quoteMark : Char) (body : List Char) :
    repairBody types quoteMark body =
      (insertCommas types (withDepths (0, none) (linesOf body))).1.flatMap
        (quoteLine types quoteMark) :=
  rfl

theorem repairs_quoteLine {l : List Char × Int} (h : WholeMarks l.1) :
    Repairs q l.1 (quoteLine types q l) := by
  unfold quoteLine
  split
  · exact repairs_quoteNames types h
  · exact .same h

/-- The lines of a column list with their commas, each of which is what it was or repaired. -/
theorem repairs_lines {body : List Char} (h : WholeMarks body) :
    List.Forall₂ (fun l l' => Repairs q l.1 l'.1 ∧ l'.2 = l.2)
      (withDepths (0, none) (linesOf body))
      (insertCommas types (withDepths (0, none) (linesOf body))).1 :=
  repairs_insertCommas types (wholeMarks_of_mem_withDepths (wholeMarks_of_mem_linesOf h) _)

theorem repairs_repairBody (hq : AroundNames q) {body : List Char} (h : WholeMarks body) :
    Repairs q body (repairBody types q body) := by
  have hlines := repairs_lines (q := q) types h
  have hquoted := hlines.imp fun l l' hl => Repairs.trans hl.1
    (repairs_quoteLine types (hl.1.wholeMarks hq).2)
  have hbody := Repairs.flatMap hquoted
  rw [flatMap_withDepths, flatten_linesOf] at hbody
  exact repairBody_eq types q body ▸ hbody

end Types

end DdlGraph.Repair
