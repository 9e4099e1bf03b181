import DdlGraph.Proofs.LeadText
import DdlGraph.Proofs.SettledText

/-!
# Inert pieces of a text

Repairs look at a text letter by letter, whatever is quoted. A name, a literal, a type or an action
is *inert* (`Inert`) if nothing that repairs look for begins in it, as it is written. What more is
asked of it depends on where it stands: in a column list (`InertInside`), between tables
(`InertBetween`), or in a key that is added (`InertKey`).

* `balanced_append`: a text that closes what it opens;
* `calm_of_free`: a text is calm if no lead stands in it;
* `inertInside_of_tame`, `inertKey_of_tame`: a sign of inert text that can be computed.
-/

namespace DdlGraph.Repair

open DdlGraph.Text DdlGraph.Sql DdlGraph.Ddl

/-! ## Balanced text -/

/-- **The text closes what it opens**, from `depth` open parentheses and an open quotation on, and
no comma stands outside of parentheses and quotations. -/
def balanced (depth : Nat) (open_ : Option Char) : List Char → Bool
  | [] => depth == 0 && open_.isNone
  | c :: cs =>
    if open_.isSome then balanced depth (quotationAfter open_ c) cs
    else if c = '(' then balanced (depth + 1) none cs
    else if c = ')' then depth != 0 && balanced (depth - 1) none cs
    else !(c == ',' && depth == 0) && balanced depth (quotationAfter none c) cs

/-- How a balanced text goes on behind a character. -/
theorem balanced_cases {depth : Nat} {open_ : Option Char} {c : Char} {cs : List Char}
    (h : balanced depth open_ (c :: cs) = true) :
    (open_.isSome = true ∧ balanced depth (quotationAfter open_ c) cs = true) ∨
    (open_ = none ∧ c = '(' ∧ balanced (depth + 1) none cs = true) ∨
    (open_ = none ∧ c = ')' ∧ depth ≠ 0 ∧ balanced (depth - 1) none cs = true) ∨
    (open_ = none ∧ c ≠ '(' ∧ c ≠ ')' ∧ (c = ',' → depth ≠ 0) ∧
      balanced depth (quotationAfter none c) cs = true) := by
  rw [balanced] at h
  cases open_ with
  | some q => exact .inl ⟨rfl, h⟩
  | none =>
    rw [if_neg (by decide)] at h
    split at h
    · rename_i hc
      exact .inr (.inl ⟨rfl, hc, h⟩)
    · rename_i hopen
      split at h
      · rename_i hc
        rw [Bool.and_eq_true, bne_iff_ne] at h
        exact .inr (.inr (.inl ⟨rfl, hc, h⟩))
      · rename_i hclose
        rw [Bool.and_eq_true, Bool.not_eq_true', Bool.and_eq_false_iff] at h
        refine .inr (.inr (.inr ⟨rfl, hopen, hclose, fun hc hd => ?_, h.2⟩))
        rcases h.1 with hcomma | hdepth
        · exact beq_eq_false_iff_ne.1 hcomma hc
        · exact beq_eq_false_iff_ne.1 hdepth hd

/-- **A balanced text leaves parentheses and quotations as they were**, whatever follows. -/
theorem balanced_append {depth : Nat} {open_ : Option Char} {xs : List Char}
    (h : balanced depth open_ xs = true) (d : Nat) (ys : List Char) :
    balanced (d + depth) open_ (xs ++ ys) = balanced d none ys := by
  induction xs generalizing depth open_ with
  | nil =>
    rw [balanced, Bool.and_eq_true, beq_iff_eq, Option.isNone_iff_eq_none] at h
    obtain ⟨rfl, rfl⟩ := h
    rfl
  | cons c xs ih =>
    rw [List.cons_append, balanced]
    rcases balanced_cases h with ⟨hopen, h⟩ | ⟨rfl, rfl, h⟩ | ⟨rfl, rfl, hdepth, h⟩ |
      ⟨rfl, hopen, hclose, hcomma, h⟩
    · rw [if_pos hopen, ih h]
    · exact ih h
    · have hpred : d + depth - 1 = d + (depth - 1) := by omega
      have hne : (d + depth != 0) = true := bne_iff_ne.2 (by omega)
      rw [if_neg (by decide), if_neg (by decide), if_pos rfl, hne, hpred, ih h]
      rfl
    · have hcount : (c == ',' && d + depth == 0) = false := by
        rw [Bool.and_eq_false_iff, beq_eq_false_iff_ne, beq_eq_false_iff_ne]
        by_cases hc : c = ','
        · exact .inr fun hz => hcomma hc (Nat.eq_zero_of_add_eq_zero_left hz)
        · exact .inl hc
      rw [if_neg (by decide), if_neg hopen, if_neg hclose, hcount, ih h]
      rfl

/-! ## What repairs look for -/

/-- What begins a comment or a statement that a repair looks for. -/
def repairLeads : List Lead :=
  [.word "CREATE", .word "ALTER", .word "REFERENCES", .chars "--", .chars "/*"]

theorem ledBy_comment : LedBy commentPattern [.chars "--", .chars "/*"] := by
  rintro before text ⟨taken, parts, hm⟩
  obtain ⟨rest, hr⟩ := eq_append_of_matchAt hm
  have htext : text = parts.flatten ++ rest := hr
  have htwo : ∀ {c d : Char} {ps : List Pattern},
      (Pattern.all (.char c :: .char d :: ps)).Takes parts.flatten →
        leads [fun x => x == c, fun x => x == d] text = true := by
    intro c d ps h
    obtain ⟨v, v', hv, ⟨c', rfl, hc⟩, h'⟩ := h.all_cons
    obtain ⟨u, u', rfl, ⟨d', rfl, hd⟩, -⟩ := h'.all_cons
    rw [htext, hv]
    simp only [List.cons_append, List.nil_append, leads, Bool.and_eq_true, and_true]
    exact ⟨hc, hd⟩
  rcases takes_of_one (takes_of_matchAt hm) with h | h
  · exact ⟨_, .head _, rfl, htwo h⟩
  · exact ⟨_, .tail _ (.head _), rfl, htwo h⟩

theorem ledBy_addedKey : LedBy addedKeyPattern [.word "ALTER"] :=
  ledBy_word rfl (by decide) _ _

theorem ledBy_alter : LedBy alterPattern [.word "ALTER"] :=
  ledBy_word rfl (by decide) _ _

theorem ledBy_createTable : LedBy createTablePattern [.word "CREATE"] :=
  ledBy_word rfl (by decide) _ _

theorem ledBy_target : LedBy targetPattern [.word "REFERENCES"] :=
  ledBy_word rfl (by decide) _ _

/-! ## Calm text -/

/-- The characters behind which a text goes on. -/
def breaks : List Char :=
  [' ', '(', ')', ',', ';', '\n']

/-- **Calm text**: no match of the patterns begins in it, or at a break behind it, whatever stands
around. -/
def Calm (ps : List Pattern) (xs : List Char) : Prop :=
  ∀ d ∈ breaks, Quiet (Matches ps) (xs ++ [d])

section Calm

variable {ps : List Pattern}

theorem calm_of_quiet {xs : List Char} (h : Calm ps []) (hx : Quiet (Matches ps) xs) : Calm ps xs :=
  fun d hd => hx.append (h d hd)

/-- What a text does not hold, and no break is. -/
theorem calm_char {x : Char} (hx : x ∉ breaks) {xs : List Char} (h : x ∉ xs) :
    Calm [.char x] xs := by
  refine fun d hd => quiet_char.2 ?_
  rw [List.mem_append, List.mem_singleton, not_or]
  exact ⟨h, fun he => hx (he ▸ hd)⟩

/-- A text that a break and a calm text follow. -/
theorem Calm.append {xs ys : List Char} (h : Calm ps xs) {d : Char} (hd : d ∈ breaks)
    (h' : Calm ps ys) : Calm ps (xs ++ d :: ys) := by
  intro e he
  have hall := (h d hd).append (h' e he)
  rwa [List.append_assoc, ← List.append_assoc [d], List.singleton_append, ← List.append_assoc]
    at hall

/-- **Breaks end the leads** of repairs, unless a lead has a blank there. -/
theorem ends_of_mem {l : Lead} (hl : l ∈ repairLeads) {d : Char} (hd : d ∈ breaks) :
    l.Ends d ' ' := by
  have hall : (repairLeads.all fun l => breaks.all fun d => l.isEndedBy d ' ') = true := by
    decide
  exact Lead.ends_of_isEndedBy (List.all_eq_true.1 (List.all_eq_true.1 hall l hl) d hd)

/-- Text without the leads of the patterns is calm. -/
theorem calm_of_free {ls : List Lead} (h : LedBy ps ls) (hls : ls ⊆ repairLeads) {xs : List Char}
    (hf : ∀ l ∈ ls, l.free none (xs ++ [' ']) = true) : Calm ps xs := by
  refine fun d hd => h.quiet fun l hl => ?_
  exact Lead.quiet_of_passed (Lead.passed_of_free (ends_of_mem (hls hl) hd) (hf l hl))

end Calm

/-! ## Inert text -/

/-- **Inert text**: it holds no NUL, and nothing in it is taken for a comment, a statement that adds
a foreign key, or the target of one. -/
structure Inert (text : String) : Prop where
  noNul : '\x00' ∉ text.toList
  comments : Calm commentPattern text.toList
  keys : Calm addedKeyPattern text.toList
  targets : Calm targetPattern text.toList

/-- **Inert text of a column list** stands on one line and closes what it opens, so that it is a
part of one item. -/
structure InertInside (text : String) : Prop extends Inert text where
  oneLine : '\n' ∉ text.toList
  balanced : balanced 0 none text.toList = true

/-- **Inert text between tables** begins no table. -/
structure InertBetween (text : String) : Prop extends Inert text where
  tables : Calm createTablePattern text.toList

/-- **Inert text of a key that is added** neither ends the statement nor begins another one. -/
structure InertKey (text : String) : Prop extends InertBetween text where
  statements : Calm alterPattern text.toList
  unended : ';' ∉ text.toList

/-- What ends a line or a statement, and what begins a mark. -/
def wildMarks : List Char :=
  ['\n', '\x00', ';']

/-- The text closes what it opens, and has none of the words and marks that repairs look for. -/
def isTame (text : String) : Bool :=
  text.toList.all (fun c => !wildMarks.contains c) &&
    repairLeads.all (fun l => l.free none (text.toList ++ [' '])) && balanced 0 none text.toList

section Tame

variable {text : String} (h : isTame text = true)

include h

theorem not_mem_of_tame {c : Char} (hc : wildMarks.contains c = true) :
    c ∉ text.toList := by
  intro hmem
  simp only [isTame, Bool.and_eq_true] at h
  have hn := List.all_eq_true.1 h.1.1 c hmem
  rw [hc] at hn
  cases hn

theorem calm_of_tame {ps : List Pattern} {ls : List Lead} (hps : LedBy ps ls)
    (hls : ls ⊆ repairLeads) : Calm ps text.toList := by
  simp only [isTame, Bool.and_eq_true] at h
  exact calm_of_free hps hls fun l hl => List.all_eq_true.1 h.1.2 l (hls hl)

theorem inert_of_tame : Inert text where
  noNul := not_mem_of_tame h rfl
  comments := calm_of_tame h ledBy_comment (by simp [repairLeads])
  keys := calm_of_tame h ledBy_addedKey (by simp [repairLeads])
  targets := calm_of_tame h ledBy_target (by simp [repairLeads])

theorem inertInside_of_tame : InertInside text where
  toInert := inert_of_tame h
  oneLine := not_mem_of_tame h rfl
  balanced := by
    simp only [isTame, Bool.and_eq_true] at h
    exact h.2

theorem inertKey_of_tame : InertKey text where
  toInert := inert_of_tame h
  tables := calm_of_tame h ledBy_createTable (by simp [repairLeads])
  statements := calm_of_tame h ledBy_alter (by simp [repairLeads])
  unended := not_mem_of_tame h rfl

end Tame

end DdlGraph.Repair
