import DdlGraph.Proofs.LetterCase
import DdlGraph.Proofs.QuietText

/-!
# Texts by their first letters

Most of what is looked for begins with fixed letters (`Lead`), and whether these stand in a text is
decided from left to right (`Lead.free`, `Lead.passed`). Where the letters do not stand, no match of
a pattern that begins with them does (`LedBy`).

* `Lead.quiet_of_passed`, `Lead.passed_of_free`: quiet texts, by their letters;
* `LedBy.quiet`, `ledBy_word`: matches of a pattern begin with its leads;
* `splitAtFirst?_append`, `quiet_of_not_holds`: texts that are looked for as they are.
-/

namespace DdlGraph.Text

variable {ps : List Pattern}

/-! ## Leads -/

/-- The text begins with a character of each class. -/
def leads : List (Char → Bool) → List Char → Bool
  | [], _ => true
  | _ :: _, [] => false
  | p :: ps, c :: cs => p c && leads ps cs

/-- A character of the text is not of its class, so nothing that follows helps. -/
def breaksOff : List (Char → Bool) → List Char → Bool
  | p :: ps, c :: cs => !p c || breaksOff ps cs
  | _, _ => false

theorem leads_append_of_breaksOff {ps : List (Char → Bool)} {xs : List Char}
    (h : breaksOff ps xs = true) (rest : List Char) : leads ps (xs ++ rest) = false := by
  induction ps generalizing xs with
  | nil => cases xs <;> cases h
  | cons p ps ih =>
    cases xs with
    | nil => cases h
    | cons c xs =>
      rw [breaksOff, Bool.or_eq_true, Bool.not_eq_true'] at h
      rw [List.cons_append, leads]
      rcases h with hc | hrest
      · rw [hc, Bool.false_and]
      · rw [ih hrest, Bool.and_false]

/-- One character behind a text breaks the classes off, unless they stand there in front of
another one. -/
theorem breaksOff_concat {ps : List (Char → Bool)} (hne : ps ≠ []) {d e : Char}
    (hinner : ∀ p ∈ ps.dropLast, p d = false) (hlast : ∀ p ∈ ps.getLast?, p d = true → p e = true)
    (xs : List Char) (h : leads ps (xs ++ [e]) = false) : breaksOff ps (xs ++ [d]) = true := by
  induction ps generalizing xs with
  | nil => exact absurd rfl hne
  | cons p ps ih =>
    cases ps with
    | nil =>
      cases xs with
      | nil =>
        cases hd : p d with
        | false => simp only [List.nil_append, breaksOff, hd, Bool.not_false, Bool.true_or]
        | true =>
          have he := hlast p rfl hd
          simp only [List.nil_append, leads, he, Bool.and_true] at h
          cases h
      | cons c xs =>
        have hc : p c = false := by simpa only [List.cons_append, leads, Bool.and_true] using h
        simp only [List.cons_append, breaksOff, hc, Bool.not_false, Bool.true_or]
    | cons q qs =>
      have hp : p d = false := hinner p (.head _)
      cases xs with
      | nil => simp only [List.nil_append, breaksOff, hp, Bool.not_false, Bool.true_or]
      | cons c xs =>
        rw [List.cons_append, leads, Bool.and_eq_false_iff] at h
        rw [List.cons_append, breaksOff, Bool.or_eq_true, Bool.not_eq_true']
        refine h.imp_right fun hrest => ?_
        exact ih (List.cons_ne_nil _ _) (fun r hr => hinner r (.tail _ hr))
          (fun r hr => hlast r (by rwa [List.getLast?_cons_cons])) xs hrest

/-- **Lead**: the classes of the first characters of what is looked for, and whether it begins at
word edges only. -/
structure Lead where
  edge : Bool
  classes : List (Char → Bool)

namespace Lead

/-- A word in either case, and white space. -/
def word (w : String) : Lead :=
  ⟨true, w.toList.map (fun c d => foldChar d == foldChar c) ++ [isBlank]⟩

/-- These characters. -/
def chars (s : String) : Lead :=
  ⟨false, s.toList.map fun c d => d == c⟩

/-- Nothing begins behind this character. -/
def stopped (l : Lead) (before : Option Char) : Bool :=
  l.edge && before.any isWord

/-- The lead stands here. -/
def target (l : Lead) : Target := fun before cs =>
  l.stopped before = false ∧ leads l.classes cs = true

/-- **The lead stands nowhere in the text.** -/
def free (l : Lead) (before : Option Char) : List Char → Bool
  | [] => true
  | c :: cs => (l.stopped before || !leads l.classes (c :: cs)) && l.free (some c) cs

/-- **The lead begins nowhere in the text**, whatever follows. -/
def passed (l : Lead) (before : Option Char) : List Char → Bool
  | [] => true
  | c :: cs => (l.stopped before || breaksOff l.classes (c :: cs)) && l.passed (some c) cs

variable {l : Lead}

theorem passes_of_passed {before : Option Char} {xs : List Char} (h : l.passed before xs = true)
    (rest : List Char) : Passes l.target before xs rest := by
  induction xs generalizing before with
  | nil => trivial
  | cons c xs ih =>
    rw [passed, Bool.and_eq_true, Bool.or_eq_true] at h
    refine ⟨fun hh => ?_, ih h.2⟩
    rcases h.1 with hs | hb
    · exact Bool.false_ne_true (hh.1.symm.trans hs)
    · exact Bool.false_ne_true ((leads_append_of_breaksOff hb rest).symm.trans hh.2)

/-- **What no lead begins in is quiet**: if none does at the start, none does behind anything. -/
theorem quiet_of_passed {xs : List Char} (h : l.passed none xs = true) : Quiet l.target xs := by
  intro before rest
  cases xs with
  | nil => trivial
  | cons c xs =>
    have hstart : l.stopped none = false := Bool.and_false _
    rw [passed, hstart, Bool.false_or, Bool.and_eq_true] at h
    refine ⟨fun hh => ?_, passes_of_passed h.2 rest⟩
    exact Bool.false_ne_true ((leads_append_of_breaksOff h.1 rest).symm.trans hh.2)

/-- The character `d` ends what does not stand in front of `e`. -/
structure Ends (l : Lead) (d e : Char) : Prop where
  ne_nil : l.classes ≠ []
  inner : ∀ p ∈ l.classes.dropLast, p d = false
  last : ∀ p ∈ l.classes.getLast?, p d = true → p e = true

/-- Whether it does. -/
def isEndedBy (l : Lead) (d e : Char) : Bool :=
  !l.classes.isEmpty && l.classes.dropLast.all (fun p => !p d) &&
    l.classes.getLast?.all fun p => !p d || p e

theorem ends_of_isEndedBy {d e : Char} (h : l.isEndedBy d e = true) : l.Ends d e := by
  simp only [isEndedBy, Bool.and_eq_true, Bool.not_eq_true', List.isEmpty_eq_false_iff] at h
  obtain ⟨⟨hne, hinner⟩, hlast⟩ := h
  refine ⟨hne, fun p hp => ?_, fun p hp hd => ?_⟩
  · simpa using List.all_eq_true.1 hinner p hp
  · rw [Option.mem_def.1 hp, Option.all_some, hd, Bool.not_true, Bool.false_or] at hlast
    exact hlast

theorem passed_of_free {d e : Char} (hd : l.Ends d e) {before : Option Char} {xs : List Char}
    (h : l.free before (xs ++ [e]) = true) : l.passed before (xs ++ [d]) = true := by
  induction xs generalizing before with
  | nil =>
    rw [List.nil_append, free, Bool.and_eq_true, Bool.or_eq_true, Bool.not_eq_true'] at h
    rw [List.nil_append, passed, Bool.and_eq_true, Bool.or_eq_true]
    exact ⟨h.1.imp_right (breaksOff_concat hd.ne_nil hd.inner hd.last []), rfl⟩
  | cons c xs ih =>
    rw [List.cons_append, free, Bool.and_eq_true, Bool.or_eq_true, Bool.not_eq_true'] at h
    rw [List.cons_append, passed, Bool.and_eq_true, Bool.or_eq_true]
    exact ⟨h.1.imp_right (breaksOff_concat hd.ne_nil hd.inner hd.last (c :: xs)), ih h.2⟩

end Lead

/-! ## Leads of patterns -/

/-- Only `ſ` and the sign for Kelvin are in the class of an ASCII letter without being one. -/
theorem toNat_of_shifted?_foldRuns {n m : Nat} (h : shifted? foldRuns n = some m) (hm : m < 128) :
    n < 128 ∨ n = 383 ∨ n = 8490 := by
  have hruns : ∀ run ∈ foldRuns, 128 ≤ run.first + run.shift ∨ run.last < 128 ∨
      (run.last = 383 ∧ run.first = 383) ∨ (run.last = 8490 ∧ run.first = 8490) := by
    decide +kernel
  generalize foldRuns = runs at h hruns
  induction runs with
  | nil => cases h
  | cons run runs ih =>
    unfold shifted? at h
    split at h
    · cases h
    · split at h
      · have hrun := hruns run (.head _)
        have hn := Option.some.inj h
        omega
      · exact ih h fun r hr => hruns r (.tail _ hr)

theorem toNat_lt_of_isAlpha {c : Char} (h : c.isAlpha = true) : c.toNat < 128 := by
  have hletter : (c.isUpper || c.isLower) = true := h
  have hcapital : c.isUpper = true → c.val ≤ 'Z'.val := fun h => (of_decide_eq_true h).2
  have hsmall : c.isLower = true → c.val ≤ 'z'.val := fun h =>
    of_decide_eq_true ((Bool.and_eq_true_iff.1 h).2)
  rcases Bool.or_eq_true_iff.1 hletter with h | h
  · exact Nat.lt_of_le_of_lt (UInt32.le_iff_toNat_le.1 (hcapital h)) (by decide)
  · exact Nat.lt_of_le_of_lt (UInt32.le_iff_toNat_le.1 (hsmall h)) (by decide)

/-- A character in the class of a letter is an ASCII letter, `ſ` or the sign for Kelvin. -/
theorem toNat_of_foldChar {d : Char} (h : (foldChar d).isAlpha = true) :
    d.toNat < 128 ∨ d.toNat = 383 ∨ d.toNat = 8490 := by
  by_cases hd : d.toNat < 128
  · exact .inl hd
  · have hascii := toNat_lt_of_isAlpha h
    unfold foldChar at h hascii
    rw [if_neg hd] at h hascii
    unfold shift at h hascii
    split at hascii
    · rename_i n hn
      rw [hn] at h
      have hletter : (Char.ofNat n).isAlpha = true := h
      have htoNat : (Char.ofNat n).toNat = n := by
        unfold Char.ofNat at hletter ⊢
        by_cases hv : n.isValidChar
        · rw [dif_pos hv]
          rfl
        · rw [dif_neg hv] at hletter
          exact absurd hletter (by decide)
      rw [htoNat] at hascii
      exact toNat_of_shifted?_foldRuns hn hascii
    · exact absurd hascii hd

/-- A character in the class of a letter is a word character. -/
theorem isWord_of_foldChar {d : Char} (h : (foldChar d).isAlpha = true) : isWord d = true := by
  rcases toNat_of_foldChar h with hd | hsharp | hkelvin
  · revert h
    exact of_ascii (p := fun d => (foldChar d).isAlpha = true → isWord d = true) (by decide) hd
  · rw [← Char.ofNat_toNat d, hsharp]
    decide
  · rw [← Char.ofNat_toNat d, hkelvin]
    decide +kernel

/-- The letters of a word and a blank are its lead. -/
theorem leads_word {w : String} {u : List Char}
    (hu : List.Forall₂ (fun c d => foldChar d = foldChar c) w.toList u) {b : Char}
    (hb : isBlank b = true) (rest : List Char) :
    leads (Lead.word w).classes (u ++ b :: rest) = true := by
  unfold Lead.word
  dsimp only
  generalize w.toList = cs at hu
  induction hu with
  | nil => simp only [List.map_nil, List.nil_append, leads, hb, Bool.and_true]
  | cons hd _ ih =>
    rw [List.map_cons, List.cons_append, List.cons_append, leads, ih, Bool.and_true, beq_iff_eq]
    exact hd

/-- Every match of the patterns begins with one of the leads. -/
def LedBy (ps : List Pattern) (ls : List Lead) : Prop :=
  ∀ before cs, Matches ps before cs → ∃ l ∈ ls, l.target before cs

section LedBy

variable {ls : List Lead} (h : LedBy ps ls)

include h

theorem LedBy.passes {before : Option Char} {xs rest : List Char}
    (hl : ∀ l ∈ ls, Passes l.target before xs rest) : Passes (Matches ps) before xs rest := by
  induction xs generalizing before with
  | nil => trivial
  | cons c xs ih =>
    refine ⟨fun hm => ?_, ih fun l hl' => (hl l hl').2⟩
    obtain ⟨l, hl', ht⟩ := h _ _ hm
    exact (hl l hl').1 ht

/-- **Where no lead stands, no match begins.** -/
theorem LedBy.quiet {xs : List Char} (hl : ∀ l ∈ ls, Quiet l.target xs) : Quiet (Matches ps) xs :=
  fun before rest => h.passes fun l hm => hl l hm before rest

/-- Text that is quiet although a lead stands at its start. -/
theorem LedBy.quiet_cons {c : Char} {xs ys : List Char}
    (hnot : ∀ before rest, ¬Matches ps before (c :: (xs ++ (ys ++ rest))))
    (hl : ∀ l ∈ ls, l.passed (some c) xs = true) (hys : Quiet (Matches ps) ys) :
    Quiet (Matches ps) (c :: (xs ++ ys)) := by
  intro before rest
  refine ⟨fun hm => hnot before rest ?_, passes_append.2 ⟨?_, hys _ rest⟩⟩
  · rwa [List.cons_append, List.append_assoc] at hm
  · exact h.passes fun l hm => Lead.passes_of_passed (hl l hm) _

end LedBy

/-- **A match that begins with a word and a blank** has these as its lead. -/
theorem ledBy_word {w : String} {c : Char} {cs : List Char} (hw : w.toList = c :: cs)
    (hc : (foldChar c).isAlpha = true) (ps qs : List Pattern) :
    LedBy (.all (.wordEdge :: .word w :: .gap :: ps) :: qs) [.word w] := by
  rintro before text ⟨taken, parts, hm⟩
  refine ⟨_, .head _, ?_⟩
  obtain ⟨ends, he, -⟩ := Option.map_eq_some_iff.1 hm
  have hrun : Pattern.run .wordEdge _ _ = some ends := he
  rw [Pattern.run] at hrun
  split at hrun
  · rename_i hedge
    obtain ⟨v, t, ht, hv, -⟩ := Pattern.takes_of_run hrun
    obtain ⟨u, v', rfl, hu, hv'⟩ := hv.all_cons
    obtain ⟨gap, more, rfl, hgap, -⟩ := hv'.all_cons
    obtain ⟨b, blanks, rfl, ⟨b', rfl, hb⟩, -⟩ := hgap
    have hword := Pattern.takes_word (hw ▸ List.cons_ne_nil _ _) hu
    have htext : text = u ++ b' :: (blanks ++ (more ++ t.rest)) := by
      rw [show text = _ from ht.rest]
      simp only [List.append_assoc, List.cons_append, List.nil_append]
    refine ⟨?_, htext ▸ leads_word hword hb _⟩
    rw [hw] at hword
    cases hword with
    | @cons _ d _ u hd _ =>
      have hd' : isWord d = true := isWord_of_foldChar (hd ▸ hc)
      rw [htext] at hedge
      unfold Cursor.atWordEdge at hedge
      simp only [List.cons_append, List.head?_cons, Option.any_some, hd', bne_iff_ne, ne_eq,
        Bool.not_eq_true] at hedge
      exact Bool.and_eq_false_iff.2 (.inr hedge)
  · cases hrun

/-! ## Looking for a text -/

theorem leads_chars (w : String) (before : Option Char) (cs : List Char) :
    (Lead.chars w).target before cs ↔ w.toList <+: cs := by
  have hleads : ∀ needle cs, leads (needle.map fun (c d : Char) => d == c) cs = true ↔
      needle <+: cs := by
    intro needle
    induction needle with
    | nil => exact fun cs => iff_of_true rfl List.nil_prefix
    | cons c needle ih =>
      intro cs
      cases cs with
      | nil =>
        exact iff_of_false Bool.false_ne_true fun h => List.cons_ne_nil _ _ (List.prefix_nil.1 h)
      | cons d cs =>
        rw [List.map_cons, leads, Bool.and_eq_true, ih, beq_iff_eq, List.cons_prefix_cons, eq_comm]
  exact (and_iff_right rfl).trans (hleads w.toList cs)

theorem splitAtFirstFrom_append {w : String} {before : Option Char} {xs ys : List Char}
    (h : Passes (Lead.chars w).target before xs ys) (passed : List Char) :
    splitAtFirstFrom w.toList passed (xs ++ ys) =
      splitAtFirstFrom w.toList (xs.reverse ++ passed) ys := by
  induction xs generalizing before passed with
  | nil => rfl
  | cons c xs ih =>
    obtain ⟨hhere, hrest⟩ := h
    rw [leads_chars, ← List.isPrefixOf_iff_prefix, List.cons_append] at hhere
    rw [List.cons_append, splitAtFirstFrom, if_neg hhere, ih hrest, List.reverse_cons,
      List.append_assoc]
    rfl

theorem splitAtFirst?_append {w : String} {xs rest : List Char}
    (h : Passes (Lead.chars w).target none xs (w.toList ++ rest)) :
    splitAtFirst? w.toList (xs ++ (w.toList ++ rest)) = some (xs, w.toList ++ rest) := by
  have hhere : ∀ (needle passed : List Char), splitAtFirstFrom needle passed (needle ++ rest) =
      some (passed, needle ++ rest) := by
    intro needle passed
    cases hcs : needle ++ rest with
    | nil =>
      obtain ⟨rfl, rfl⟩ := List.append_eq_nil_iff.1 hcs
      rfl
    | cons c cs =>
      rw [splitAtFirstFrom, if_pos]
      exact List.isPrefixOf_iff_prefix.2 (hcs ▸ List.prefix_append needle rest)
  unfold splitAtFirst?
  rw [splitAtFirstFrom_append h, hhere, Option.map_some, List.append_nil, List.reverse_reverse]

theorem splitAtFirst?_eq_none {w : String} (hne : w.toList ≠ []) {xs : List Char}
    (h : Passes (Lead.chars w).target none xs []) : splitAtFirst? w.toList xs = none := by
  have hnone := splitAtFirstFrom_append h []
  rw [List.append_nil, splitAtFirstFrom, if_neg fun he => hne (List.isEmpty_iff.1 he)] at hnone
  unfold splitAtFirst?
  rw [hnone]
  rfl

/-- **A text that does not hold the words** is quiet for them, in front of the end of its line. -/
theorem quiet_of_not_holds {w : String} (hne : w.toList ≠ []) (hline : '\n' ∉ w.toList)
    {xs : List Char} (h : holds w.toList xs = false) :
    Quiet (Lead.chars w).target (xs ++ ['\n']) := by
  have hnot : ∀ {ys rest : List Char}, w.toList <+: ys ++ '\n' :: rest → w.toList <+: ys := by
    rintro ys rest ⟨after, he⟩
    rcases List.append_eq_append_iff.1 he with ⟨u, hys, -⟩ | ⟨u, hw, hu⟩
    · exact ⟨u, hys.symm⟩
    · cases u with
      | nil => exact ⟨[], by rw [hw, List.append_nil, List.append_nil]⟩
      | cons c u =>
        obtain ⟨rfl, -⟩ := List.cons.inj hu
        exact absurd (hw ▸ List.mem_append_right _ (.head _)) hline
  intro before rest
  induction xs generalizing before with
  | nil =>
    refine ⟨fun hhere => hne (List.prefix_nil.1 ?_), trivial⟩
    exact hnot ((leads_chars _ _ _).1 hhere)
  | cons c xs ih =>
    rw [holds, Bool.or_eq_false_iff] at h
    refine ⟨fun hhere => ?_, ih h.2 (some c)⟩
    have hprefix : w.toList <+: c :: xs ++ '\n' :: rest := by
      simpa using (leads_chars _ _ _).1 hhere
    have hword := List.isPrefixOf_iff_prefix.2 (hnot hprefix)
    rw [h.1] at hword
    cases hword

end DdlGraph.Text
