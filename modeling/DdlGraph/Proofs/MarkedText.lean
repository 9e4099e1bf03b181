import DdlGraph.Proofs.PatternText
import DdlGraph.Repair.Mask

/-!
# Texts with marks

While a text is repaired, marks stand for the pieces that are put aside. In such a text every NUL
belongs to a whole mark (`WholeMarks`), and it stays so when the text is cut at a character that no
mark has (`WholeMarks.split`). Putting back is then a homomorphism:

* `restore_append`, `restore_mark`, `restore_of_noNul`: a text is put back part by part;
* `wholeMarks_markFrom`: marks for the matches of a pattern are whole;
* `restore_mask`: what was put aside comes back, unless it holds marks itself.
-/

namespace DdlGraph.Repair

open DdlGraph.Text

/-! ## Whole marks -/

/-- The character is in no mark. -/
def Outside (c : Char) : Prop :=
  c ≠ '\x00' ∧ c.isDigit = false

instance (c : Char) : Decidable (Outside c) :=
  inferInstanceAs (Decidable (_ ∧ _))

theorem isDigit_of_mem_digits {n : Nat} {c : Char} (h : c ∈ Nat.toDigits 10 n) :
    c.isDigit = true :=
  Nat.isDigit_of_mem_toDigits (by decide) (by decide) h

theorem not_outside_of_mem_mark {n : Nat} {c : Char} (h : c ∈ mark n) : ¬Outside c := by
  rintro ⟨hn, hd⟩
  rcases List.mem_cons.1 h with rfl | h
  · exact hn rfl
  · rcases List.mem_append.1 h with h | h
    · rw [isDigit_of_mem_digits h] at hd
      cases hd
    · exact hn (List.mem_singleton.1 h)

/-- A character in the class of one outside of marks is outside of marks. -/
theorem outside_of_foldChar {c d : Char} (hc : Outside (foldChar c))
    (h : foldChar d = foldChar c) : Outside d := by
  refine ⟨?_, ?_⟩
  · rintro rfl
    exact hc.1 (h.symm.trans (by decide))
  · cases hd : d.isDigit with
    | false => rfl
    | true =>
      have hfold : foldChar d = d := by
        obtain ⟨h1, h2⟩ : 48 ≤ d.toNat ∧ d.toNat ≤ 57 := by
          simpa [Char.isDigit, UInt32.le_iff_toNat_le] using hd
        unfold foldChar
        rw [if_pos (by omega)]
        unfold Char.toUpper
        exact dif_neg fun hu => by
          have h3 : 97 ≤ d.toNat := by simpa [UInt32.le_iff_toNat_le] using hu.1
          omega
      rw [← h, hfold] at hc
      exact absurd hd (by rw [hc.2]; exact Bool.false_ne_true)

/-- **NULs stand in whole marks.** -/
inductive WholeMarks : List Char → Prop
  | nil : WholeMarks []
  | char {c : Char} {cs : List Char} (hc : c ≠ '\x00') (h : WholeMarks cs) : WholeMarks (c :: cs)
  | mark (n : Nat) {cs : List Char} (h : WholeMarks cs) : WholeMarks (mark n ++ cs)

theorem wholeMarks_of_noNul {cs : List Char} (h : '\x00' ∉ cs) : WholeMarks cs := by
  induction cs with
  | nil => exact .nil
  | cons c cs ih =>
    exact .char (List.ne_of_not_mem_cons h).symm (ih (List.not_mem_of_not_mem_cons h))

theorem WholeMarks.append {a b : List Char} (ha : WholeMarks a) (hb : WholeMarks b) :
    WholeMarks (a ++ b) := by
  induction ha with
  | nil => exact hb
  | char hc _ ih => exact .char hc ih
  | mark n _ ih =>
    rw [List.append_assoc]
    exact .mark n ih

/-- **Cutting at a character outside of marks** leaves them whole. -/
theorem WholeMarks.split {a b : List Char} {c : Char} (h : WholeMarks (a ++ c :: b))
    (hc : Outside c) : WholeMarks a ∧ WholeMarks b := by
  generalize he : a ++ c :: b = t at h
  induction h generalizing a with
  | nil => exact absurd he (List.append_ne_nil_of_right_ne_nil _ (List.cons_ne_nil _ _))
  | char hd h ih =>
    cases a with
    | nil =>
      cases he
      exact ⟨.nil, h⟩
    | cons d a =>
      obtain ⟨rfl, he'⟩ := List.cons.inj he
      obtain ⟨ha, hb⟩ := ih he'
      exact ⟨.char hd ha, hb⟩
  | mark n h ih =>
    rcases List.append_eq_append_iff.1 he with ⟨v, hm, hv⟩ | ⟨v, rfl, hv⟩
    · cases v with
      | nil =>
        rw [List.append_nil] at hm
        obtain ⟨-, hb⟩ := ih (a := []) hv
        exact ⟨List.append_nil a ▸ hm ▸ .mark n .nil, hb⟩
      | cons d v =>
        obtain ⟨rfl, -⟩ := List.cons.inj hv
        have hmem : c ∈ Repair.mark n := by
          rw [hm]
          exact List.mem_append_right _ (.head _)
        exact absurd hc (not_outside_of_mem_mark hmem)
    · obtain ⟨ha, hb⟩ := ih hv.symm
      exact ⟨.mark n ha, hb⟩

theorem WholeMarks.of_append_right {a b : List Char} (h : WholeMarks (a ++ b))
    (ha : '\x00' ∉ a) : WholeMarks b := by
  induction a with
  | nil => exact h
  | cons c a ih =>
    have hc := List.ne_of_not_mem_cons ha
    generalize he : c :: a ++ b = t at h
    cases h with
    | nil => cases he
    | char _ h =>
      obtain ⟨-, rfl⟩ := List.cons.inj he
      exact ih h (List.not_mem_of_not_mem_cons ha)
    | mark n _ => exact absurd (List.cons.inj he).1.symm hc

theorem WholeMarks.of_append_left {a b : List Char} (h : WholeMarks (a ++ b))
    (hb : '\x00' ∉ b) : WholeMarks a := by
  generalize he : a ++ b = t at h
  induction h generalizing a with
  | nil => exact (List.append_eq_nil_iff.1 he).1 ▸ .nil
  | char hd _ ih =>
    cases a with
    | nil => exact .nil
    | cons d a =>
      obtain ⟨rfl, he'⟩ := List.cons.inj he
      exact .char hd (ih he')
  | mark n _ ih =>
    rcases List.append_eq_append_iff.1 he with ⟨v, hm, rfl⟩ | ⟨v, rfl, hv⟩
    · cases v with
      | nil =>
        rw [List.append_nil] at hm
        exact List.append_nil a ▸ hm ▸ .mark n .nil
      | cons d v =>
        -- the NUL at the end of the mark would be in `b`
        have hlast : (d :: v).getLast? = some '\x00' := by
          have hm' := congrArg List.getLast? hm
          rw [List.getLast?_append_of_ne_nil _ (List.cons_ne_nil _ _)] at hm'
          exact hm'.symm.trans List.getLast?_concat
        exact absurd (List.mem_append_left _ (List.mem_of_getLast? hlast)) hb
    · exact .mark n (ih hv.symm)

/-- Marks are whole, part by part, if every part but the gaps between has an outside character at
either end. -/
theorem WholeMarks.around {a w b : List Char} (h : WholeMarks (a ++ (w ++ b))) {c d : Char}
    {v v' : List Char} (hw : w = c :: v) (hw' : w = v' ++ [d]) (hc : Outside c) (hd : Outside d) :
    WholeMarks a ∧ WholeMarks w ∧ WholeMarks b := by
  have ha : WholeMarks a := by
    rw [hw, List.cons_append] at h
    exact (h.split hc).1
  have hb : WholeMarks b ∧ WholeMarks (a ++ v') := by
    rw [hw', List.append_assoc, ← List.append_assoc] at h
    exact ⟨(h.split hd).2, (h.split hd).1⟩
  refine ⟨ha, ?_, hb.1⟩
  cases v' with
  | nil =>
    rw [hw']
    exact .char hd.1 .nil
  | cons c' v' =>
    obtain rfl : c' = c := (List.cons.inj (hw'.symm.trans hw)).1
    rw [hw', List.cons_append]
    exact .char hc.1 (((hb.2).split hc).2.append (.char hd.1 .nil))

/-! ## Marks are found -/

theorem findSome_stops {α : Type} {p : Char → Bool} {f : Cursor → Option α}
    (hf : ∀ s c rest, s.rest = c :: rest → p c = true → f s = none) {ds rest : List Char}
    (hds : ∀ d ∈ ds, p d = true) (hr : ∀ c ∈ rest.head?, p c = false) {found : List Cursor}
    (hfound : found.findSome? f = none) (before : Option Char) (taken : Nat) :
    ∃ before', (stops p found before taken (ds ++ rest)).findSome? f =
      f ⟨before', rest, taken + ds.length⟩ := by
  induction ds generalizing found before taken with
  | nil =>
    refine ⟨before, ?_⟩
    have hlast : (⟨before, rest, taken⟩ :: found).findSome? f = f ⟨before, rest, taken⟩ := by
      rw [List.findSome?_cons, hfound]
      cases f ⟨before, rest, taken⟩ <;> rfl
    cases rest with
    | nil => exact hlast
    | cons c rest =>
      rw [List.nil_append, stops, if_neg (by rw [hr c rfl]; exact Bool.false_ne_true)]
      exact hlast
  | cons d ds ih =>
    have hd := hds d (.head _)
    have hfound' : (⟨before, d :: (ds ++ rest), taken⟩ :: found).findSome? f = none := by
      rw [List.findSome?_cons, hf _ d (ds ++ rest) rfl hd]
      exact hfound
    obtain ⟨before', h⟩ := ih (fun e he => hds e (.tail _ he)) hfound' (some d) (taken + 1)
    refine ⟨before', ?_⟩
    rw [List.cons_append, stops, if_pos hd, h, List.length_cons, Nat.add_right_comm,
      Nat.add_assoc]

theorem isDecimal_of_isDigit {c : Char} (h : c.isDigit = true) : isDecimal c = true := by
  have hlt : c.toNat < 128 := by
    have h2 : c.toNat ≤ 57 := by
      have := h
      simp only [Char.isDigit, Bool.and_eq_true, decide_eq_true_eq] at this
      simpa [UInt32.le_iff_toNat_le] using this.2
    omega
  unfold isDecimal
  rw [if_pos hlt, h]

theorem matchAt_markPattern_of_head {rest : List Char} (h : rest.head? ≠ some '\x00')
    (before : Option Char) (taken : Nat) :
    matchAt? markPattern ⟨before, rest, taken⟩ = none := by
  have hstep : Cursor.step? (· == '\x00') ⟨before, rest, taken⟩ = none := by
    unfold Cursor.step?
    cases rest with
    | nil => rfl
    | cons c rest =>
      have hc : c ≠ '\x00' := fun he => h (congrArg some he)
      exact if_neg (by rwa [beq_iff_eq])
  have hrun : endings? markPattern ⟨before, rest, taken⟩ = none := by
    simp only [endings?, markPattern, Pattern.all, Pattern.char, Pattern.run, hstep]
  unfold matchAt?
  rw [hrun]
  rfl

theorem matchAt_mark (n : Nat) (cs : List Char) (before : Option Char) (taken : Nat) :
    matchAt? markPattern ⟨before, mark n ++ cs, taken⟩ = some [mark n] := by
  obtain ⟨d, ds, hn⟩ := List.exists_cons_of_ne_nil (Nat.toDigits_ne_nil (n := n) (b := 10))
  have hall : ∀ e ∈ d :: ds, isDecimal e = true :=
    fun e he => isDecimal_of_isDigit (isDigit_of_mem_digits (hn ▸ he))
  have htext : mark n ++ cs = '\x00' :: d :: (ds ++ '\x00' :: cs) := by
    unfold mark
    rw [hn]
    simp
  let last : Cursor → Option (List Cursor) := (Pattern.char '\x00').run fun s => some [s]
  have hlast : ∀ s c rest, s.rest = c :: rest → isDecimal c = true → last s = none := by
    intro s c rest hs hc
    have hne : (c == '\x00') = false := by
      rw [beq_eq_false_iff_ne]
      rintro rfl
      exact absurd hc (by decide)
    simp only [last, Pattern.char, Pattern.run, Cursor.step?, hs, hne, Bool.false_eq_true, if_false]
  obtain ⟨before', hstops⟩ : ∃ before',
      (stops isDecimal [] (some d) (taken + 1 + 1) (ds ++ '\x00' :: cs)).findSome? last =
        last ⟨before', '\x00' :: cs, taken + 1 + 1 + ds.length⟩ :=
    findSome_stops hlast (fun e he => hall e (.tail _ he)) (fun c hc => by cases hc; decide) rfl _ _
  have hends : endings? markPattern ⟨before, mark n ++ cs, taken⟩ =
      some [⟨some '\x00', cs, taken + 1 + 1 + ds.length + 1⟩] := by
    have hd := hall d (.head _)
    rw [htext]
    simp only [endings?, markPattern, Pattern.all, Pattern.char, Pattern.run1, Pattern.run,
      Cursor.step?, beq_self_eq_true, if_true, hd]
    exact hstops
  unfold matchAt?
  rw [hends, htext]
  have hlen : taken + 1 + 1 + ds.length + 1 - taken = ('\x00' :: d :: ds ++ ['\x00']).length := by
    simp only [List.length_cons, List.length_append, List.length_nil]
    omega
  have hsplit : '\x00' :: d :: (ds ++ '\x00' :: cs) = ('\x00' :: d :: ds ++ ['\x00']) ++ cs := by
    simp
  have hmark : mark n = '\x00' :: d :: ds ++ ['\x00'] := by
    unfold mark
    rw [hn]
  simp only [Option.map_some, between]
  rw [hlen, hsplit, List.take_left, hmark]

theorem WholeMarks.gap_mark {g rest : List Char} (hg : '\x00' ∉ g) (n : Nat)
    (h : WholeMarks rest) : WholeMarks (g ++ (Repair.mark n ++ rest)) :=
  (wholeMarks_of_noNul hg).append (.mark n h)

/-- A text with whole marks is gaps without NULs and marks by turns. -/
theorem WholeMarks.byGaps {motive : ∀ cs, WholeMarks cs → Prop}
    (gap : ∀ g (hg : '\x00' ∉ g), motive g (wholeMarks_of_noNul hg))
    (mark : ∀ g n rest (hg : '\x00' ∉ g) (h : WholeMarks rest), motive rest h →
      motive (g ++ (Repair.mark n ++ rest)) (gap_mark hg n h))
    {cs : List Char} (h : WholeMarks cs) : motive cs h := by
  have hall : ∀ g (hg : '\x00' ∉ g), motive (g ++ cs) ((wholeMarks_of_noNul hg).append h) := by
    induction h with
    | nil =>
      intro g hg
      have hgap := gap g hg
      simpa only [List.append_nil] using hgap
    | @char c cs hc _ ih =>
      intro g hg
      have hgc : '\x00' ∉ g ++ [c] := by
        rw [List.mem_append, List.mem_singleton]
        exact not_or.2 ⟨hg, hc.symm⟩
      have hP := ih _ hgc
      simpa only [List.append_assoc, List.singleton_append] using hP
    | mark n h ih => exact fun g hg => mark g n _ hg h (ih [] List.not_mem_nil)
  exact hall [] List.not_mem_nil

theorem search_markPattern_noNul {g : List Char} (hg : '\x00' ∉ g) (passed : List Char)
    (before : Option Char) (taken : Nat) :
    search? markPattern passed before taken g = none := by
  induction g generalizing passed before taken with
  | nil =>
    have hnil : ([] : List Char).head? ≠ some '\x00' := (Option.some_ne_none _).symm
    unfold search?
    rw [matchAt_markPattern_of_head hnil]
    rfl
  | cons c g ih =>
    have hc : (c :: g).head? ≠ some '\x00' :=
      fun he => List.ne_of_not_mem_cons hg (Option.some.inj he).symm
    unfold search?
    rw [matchAt_markPattern_of_head hc]
    exact ih (List.not_mem_of_not_mem_cons hg) _ _ _

theorem search_mark {g : List Char} (hg : '\x00' ∉ g) (n : Nat) (rest passed : List Char)
    (before : Option Char) (taken : Nat) :
    search? markPattern passed before taken (g ++ (mark n ++ rest)) =
      some (g.reverse ++ passed, [mark n]) := by
  induction g generalizing passed before taken with
  | nil =>
    have hm := matchAt_mark n rest before taken
    unfold mark at hm ⊢
    rw [List.nil_append, List.cons_append, List.cons_append] at *
    unfold search?
    rw [hm]
    rfl
  | cons c g ih =>
    have hc : (c :: (g ++ (mark n ++ rest))).head? ≠ some '\x00' :=
      fun he => List.ne_of_not_mem_cons hg (Option.some.inj he).symm
    rw [List.cons_append]
    unfold search?
    rw [matchAt_markPattern_of_head hc]
    dsimp only
    rw [ih (List.not_mem_of_not_mem_cons hg), List.reverse_cons, List.append_assoc]
    rfl

theorem segmentsAfter_noNul {g : List Char} (hg : '\x00' ∉ g) (before : Option Char) :
    segmentsAfter markPattern before g = [.gap g] := by
  unfold segmentsAfter
  split
  · rfl
  · rename_i h
    rw [search_markPattern_noNul hg] at h
    cases h

theorem segmentsAfter_mark {g : List Char} (hg : '\x00' ∉ g) (n : Nat) (rest : List Char)
    (before : Option Char) :
    segmentsAfter markPattern before (g ++ (mark n ++ rest)) =
      .gap g :: .found [mark n] :: segmentsAfter markPattern (some '\x00') rest := by
  rw [segmentsAfter]
  split
  · rename_i h
    rw [search_mark hg] at h
    cases h
  · rename_i passed parts h
    rw [search_mark hg, List.append_nil] at h
    cases h
    have hflat : [mark n].flatten = mark n := List.append_nil _
    have hlast : (mark n).getLast? = some '\x00' := List.getLast?_concat
    have hlen : 0 < (mark n).length := Nat.succ_pos _
    rw [if_neg, hflat, hlast, List.reverse_reverse, List.length_reverse, ← List.append_assoc,
      ← List.length_append, List.drop_left]
    · rfl
    · rw [hflat, List.isEmpty_iff, List.append_eq_nil_iff, List.append_eq_nil_iff]
      rintro (⟨-, h, -⟩ | h)
      · cases h
      · omega

/-- What stands before a text does not tell where its marks are. -/
theorem segmentsAfter_markPattern {cs : List Char} (h : WholeMarks cs)
    (before before' : Option Char) :
    segmentsAfter markPattern before cs = segmentsAfter markPattern before' cs := by
  induction h using WholeMarks.byGaps with
  | gap g hg => rw [segmentsAfter_noNul hg, segmentsAfter_noNul hg]
  | mark g n rest hg _ _ => rw [segmentsAfter_mark hg, segmentsAfter_mark hg]

/-- The piece is a mark, or holds none. -/
def WholePiece : Segment → Prop
  | .gap g => '\x00' ∉ g
  | .found parts => ∃ n, parts = [mark n]

theorem wholePiece_of_mem_segments {cs : List Char} (h : WholeMarks cs) {piece : Segment}
    (hp : piece ∈ segments markPattern cs) : WholePiece piece := by
  unfold segments at hp
  generalize (none : Option Char) = before at hp
  induction h using WholeMarks.byGaps generalizing before with
  | gap g hg =>
    rw [segmentsAfter_noNul hg] at hp
    obtain rfl := List.mem_singleton.1 hp
    exact hg
  | mark g n rest hg _ ih =>
    rw [segmentsAfter_mark hg] at hp
    rcases List.mem_cons.1 hp with rfl | hp
    · exact hg
    · rcases List.mem_cons.1 hp with rfl | hp
      · exact ⟨n, rfl⟩
      · exact ih _ hp

/-! ## Putting back -/

/-- What the mark number `n` stands for. -/
def pieceAt (pieces : List (List Char)) (n : Nat) : List Char :=
  pieces[n]?.getD []

theorem markNumber_mark (n : Nat) : markNumber? (mark n) = some n := by
  have hfilter : (mark n).filter (· != '\x00') = Nat.toDigits 10 n := by
    have hdigits : ∀ c ∈ Nat.toDigits 10 n, (c != '\x00') = true := by
      intro c hc
      rw [bne_iff_ne]
      rintro rfl
      exact absurd (isDigit_of_mem_digits hc) (by decide)
    unfold mark
    rw [List.cons_append, List.filter_cons_of_neg (by decide), List.filter_append,
      List.filter_eq_self.2 hdigits]
    exact List.append_nil _
  unfold markNumber?
  rw [hfilter, if_pos (List.all_eq_true.2 fun c hc => isDigit_of_mem_digits hc)]
  exact congrArg some (Nat.ofDigitChars_toDigits (by decide) (by decide))

variable {pieces : List (List Char)}

theorem restore_of_noNul {cs : List Char} (h : '\x00' ∉ cs) : restore pieces cs = cs := by
  unfold restore replace segments
  rw [segmentsAfter_noNul h]
  exact List.append_nil cs

theorem restore_gap_mark {g rest : List Char} (hg : '\x00' ∉ g) (h : WholeMarks rest) (n : Nat) :
    restore pieces (g ++ (mark n ++ rest)) = g ++ (pieceAt pieces n ++ restore pieces rest) := by
  unfold restore replace segments
  rw [segmentsAfter_mark hg, segmentsAfter_markPattern h (some '\x00') none]
  have hflat : [mark n].flatten = mark n := List.append_nil _
  simp only [List.flatMap_cons, hflat, markNumber_mark, Option.bind_some, pieceAt,
    List.getElem?_toArray]

theorem restore_cons {c : Char} {cs : List Char} (hc : c ≠ '\x00') (h : WholeMarks cs) :
    restore pieces (c :: cs) = c :: restore pieces cs := by
  induction h using WholeMarks.byGaps with
  | gap g hg =>
    rw [restore_of_noNul hg, restore_of_noNul]
    exact List.not_mem_cons_of_ne_of_not_mem hc.symm hg
  | mark g n rest hg h _ =>
    rw [restore_gap_mark hg h, ← List.cons_append, restore_gap_mark _ h]
    · rfl
    · exact List.not_mem_cons_of_ne_of_not_mem hc.symm hg

theorem restore_mark (n : Nat) {cs : List Char} (h : WholeMarks cs) :
    restore pieces (mark n ++ cs) = pieceAt pieces n ++ restore pieces cs :=
  restore_gap_mark List.not_mem_nil h n

/-- **Part by part** a text is put back. -/
theorem restore_append {a b : List Char} (ha : WholeMarks a) (hb : WholeMarks b) :
    restore pieces (a ++ b) = restore pieces a ++ restore pieces b := by
  induction ha with
  | nil => rw [restore_of_noNul List.not_mem_nil]; rfl
  | char hc h ih => rw [List.cons_append, restore_cons hc (h.append hb), restore_cons hc h, ih]; rfl
  | mark n h ih =>
    rw [List.append_assoc, restore_mark n (h.append hb), restore_mark n h, ih, List.append_assoc]

theorem wholeMarks_flatMap {α : Type} {f : α → List Char} {l : List α}
    (h : ∀ x ∈ l, WholeMarks (f x)) : WholeMarks (l.flatMap f) := by
  induction l with
  | nil => exact .nil
  | cons x l ih =>
    obtain ⟨hx, hl⟩ := List.forall_mem_cons.1 h
    exact hx.append (ih hl)

theorem restore_flatMap {α : Type} {f : α → List Char} {l : List α}
    (h : ∀ x ∈ l, WholeMarks (f x)) :
    restore pieces (l.flatMap f) = l.flatMap fun x => restore pieces (f x) := by
  induction l with
  | nil => exact restore_of_noNul List.not_mem_nil
  | cons x l ih =>
    obtain ⟨hx, hl⟩ := List.forall_mem_cons.1 h
    rw [List.flatMap_cons, restore_append hx (wholeMarks_flatMap hl), ih hl, List.flatMap_cons]

/-! ## Putting aside -/

/-- A text that has characters outside of marks at both ends. -/
structure OutsideEnds (w : List Char) : Prop where
  head : ∃ c v, w = c :: v ∧ Outside c
  last : ∃ v c, w = v ++ [c] ∧ Outside c

/-- **Matches and gaps** of a text with whole marks have whole marks, if a match begins and ends
outside of them. -/
theorem wholeMarks_of_mem_segmentsAfter {ps : List Pattern}
    (hps : ∀ parts, List.Forall₂ Pattern.Takes ps parts → OutsideEnds parts.flatten)
    {before : Option Char} {cs : List Char} (h : WholeMarks cs) {piece : Segment}
    (hp : piece ∈ segmentsAfter ps before cs) : WholeMarks piece.text := by
  fun_induction segmentsAfter ps before cs with
  | case1 | case2 =>
    obtain rfl := List.mem_singleton.1 hp
    exact h
  | case3 before cs passed parts hs hne ih =>
    obtain ⟨rest, hcs⟩ := eq_append_of_search hs
    rw [List.reverse_nil, List.nil_append] at hcs
    have hdrop : cs.drop (passed.length + parts.flatten.length) = rest := by
      rw [hcs, ← List.append_assoc, ← List.length_reverse, ← List.length_append, List.drop_left]
    obtain ⟨⟨c, v, hw, hc⟩, v', d, hw', hd⟩ := hps parts (takes_of_search hs)
    obtain ⟨hpassed, hparts, hrest⟩ := (hcs ▸ h).around hw hw' hc hd
    rcases List.mem_cons.1 hp with rfl | hp
    · exact hpassed
    · rcases List.mem_cons.1 hp with rfl | hp
      · exact hparts
      · exact ih (hdrop ▸ hrest) hp

/-- Marks for matches are whole, whatever they stand for. -/
theorem wholeMarks_markFrom {n : Nat} {cut : List Segment}
    (h : ∀ g, .gap g ∈ cut → WholeMarks g) : WholeMarks (markFrom n cut) := by
  induction cut generalizing n with
  | nil => exact .nil
  | cons piece cut ih =>
    have hrest : ∀ g, .gap g ∈ cut → WholeMarks g := fun g hg => h g (.tail _ hg)
    cases piece with
    | gap g => exact (h g (.head _)).append (ih hrest)
    | found parts => exact .mark n (ih hrest)

/-- A piece of a text after marks in gaps are put back. -/
def putBack (pieces : List (List Char)) : Segment → List Char
  | .gap g => restore pieces g
  | .found parts => parts.flatten

/-- A mark stands for the first of the pieces from its number on. -/
theorem pieceAt_of_prefix {piece : List Char} {more : List (List Char)} {n : Nat}
    (h : piece :: more <+: pieces.drop n) :
    pieceAt pieces n = piece ∧ more <+: pieces.drop (n + 1) := by
  obtain ⟨rest, hrest⟩ := h
  rw [List.cons_append] at hrest
  refine ⟨?_, ?_⟩
  · unfold pieceAt
    rw [← List.head?_drop, ← hrest]
    rfl
  · rw [← List.tail_drop, ← hrest]
    exact List.prefix_append _ _

/-- **Marks for matches** stand for the matches. -/
theorem restore_markFrom {cut : List Segment}
    (h : ∀ g, .gap g ∈ cut → WholeMarks g) {n : Nat}
    (hp : matchesOf cut <+: pieces.drop n) :
    restore pieces (markFrom n cut) = cut.flatMap (putBack pieces) := by
  induction cut generalizing n with
  | nil => exact restore_of_noNul List.not_mem_nil
  | cons piece cut ih =>
    have hrest : ∀ g, .gap g ∈ cut → WholeMarks g := fun g hg => h g (.tail _ hg)
    cases piece with
    | gap g =>
      have hp' : matchesOf cut <+: pieces.drop n := hp
      rw [List.flatMap_cons, ← ih hrest hp']
      exact restore_append (h g (.head _)) (wholeMarks_markFrom hrest)
    | found parts =>
      obtain ⟨hat, hp'⟩ := pieceAt_of_prefix hp
      have hback : putBack pieces (.found parts) = pieceAt pieces n := hat.symm
      rw [List.flatMap_cons, ← ih hrest hp', hback]
      exact restore_mark n (wholeMarks_markFrom hrest)

/-- Matches without marks come back with everything else. -/
theorem restore_markFrom_of_noNul {cut : List Segment}
    (h : ∀ g, .gap g ∈ cut → WholeMarks g)
    (hfound : ∀ parts, .found parts ∈ cut → '\x00' ∉ parts.flatten) {n : Nat}
    (hp : matchesOf cut <+: pieces.drop n) :
    restore pieces (markFrom n cut) = restore pieces (cut.flatMap Segment.text) := by
  have hpiece : ∀ piece ∈ cut, WholeMarks piece.text ∧
      putBack pieces piece = restore pieces piece.text := by
    intro piece hmem
    cases piece with
    | gap g => exact ⟨h g hmem, rfl⟩
    | found parts =>
      exact ⟨wholeMarks_of_noNul (hfound parts hmem), (restore_of_noNul (hfound parts hmem)).symm⟩
  rw [restore_markFrom h hp, List.flatMap_congr fun piece hmem => (hpiece piece hmem).2,
    ← restore_flatMap fun piece hmem => (hpiece piece hmem).1]

end DdlGraph.Repair
