/-!
# Byte offsets

A place in a text, given by the number of bytes in front of it. A text is cut at such an offset only
if no character stands across it (`IsBoundary`), so a cut takes that as a proof.

* `isBoundary_iff`: a boundary is the size of what stands in front of it;
* `getElem?_charIndices`: a character begins behind the bytes of those in front of it;
* `offsetAfter_eq`: so many characters behind a boundary is a boundary again.
-/

namespace DdlGraph.Text

/-! ## Boundaries -/

/-- No character stands across the offset. -/
def IsBoundary (text : String) (offset : Nat) : Prop :=
  String.Pos.Raw.IsValid text ⟨offset⟩

/-- The part behind an offset. -/
def sliceFrom (text : String) (start : Nat) (hstart : IsBoundary text start) : String :=
  (text.sliceFrom ⟨⟨start⟩, hstart⟩).copy

/-- The part between two offsets. -/
def slice (text : String) (start stop : Nat) (hstart : IsBoundary text start)
    (hstop : IsBoundary text stop) (hle : start ≤ stop) : String :=
  (text.slice ⟨⟨start⟩, hstart⟩ ⟨⟨stop⟩, hstop⟩ hle).copy

variable {text before part after : String} {offset start stop : Nat}

theorem isBoundary_iff : IsBoundary text offset ↔
    ∃ before after, text = before ++ after ∧ offset = before.utf8ByteSize := by
  unfold IsBoundary
  rw [String.Pos.Raw.isValid_iff_exists_append]
  simp only [String.Pos.Raw.ext_iff, String.byteIdx_rawEndPos]

theorem isBoundary_zero (text : String) : IsBoundary text 0 :=
  isBoundary_iff.2 ⟨"", text, by simp, rfl⟩

theorem isBoundary_of_eq_append (h : text = before ++ after) :
    IsBoundary text before.utf8ByteSize :=
  isBoundary_iff.2 ⟨before, after, h, rfl⟩

/-- What stands on the two sides of a boundary. -/
theorem splits_of_eq_append (h : text = before ++ after)
    (hstart : IsBoundary text before.utf8ByteSize) :
    String.Pos.Splits ⟨⟨before.utf8ByteSize⟩, hstart⟩ before after :=
  ⟨h, rfl⟩

theorem sliceFrom_of_eq_append (h : text = before ++ after)
    (hstart : IsBoundary text before.utf8ByteSize) :
    sliceFrom text before.utf8ByteSize hstart = after :=
  (splits_of_eq_append h hstart).copy_sliceFrom_eq

/-- Nothing is left behind an offset exactly at the end. -/
theorem sliceFrom_eq_empty_iff (hstart : IsBoundary text start) :
    sliceFrom text start hstart = "" ↔ text.utf8ByteSize ≤ start := by
  obtain ⟨before, after, h, rfl⟩ := isBoundary_iff.1 hstart
  rw [sliceFrom_of_eq_append h, ← String.utf8ByteSize_eq_zero_iff, h, String.utf8ByteSize_append]
  omega

theorem slice_of_eq_append (h : text = before ++ (part ++ after))
    (hbefore : start = before.utf8ByteSize) (hpart : stop = (before ++ part).utf8ByteSize)
    (hstart : IsBoundary text start) (hstop : IsBoundary text stop) (hle : start ≤ stop) :
    slice text start stop hstart hstop hle = part := by
  subst hbefore hpart
  have hend : text = (before ++ part) ++ after := by rw [h, String.append_assoc]
  obtain ⟨_, hcut⟩ := String.copy_slice_eq_iff_splits.2
    ⟨before, after, splits_of_eq_append h hstart, splits_of_eq_append hend hstop⟩
  exact hcut

/-! ## Characters and their offsets -/

/-- Characters and the offsets at which they begin, the first at `offset`. -/
def charIndicesFrom (offset : Nat) : List Char → List (Nat × Char)
  | [] => []
  | c :: cs => (offset, c) :: charIndicesFrom (offset + c.utf8Size) cs

/-- **The characters of a text** and the offsets at which they begin. -/
def charIndices (text : String) : List (Nat × Char) :=
  charIndicesFrom 0 text.toList

/-- **So many characters behind a boundary**, or the end of the text if it has no more. -/
def offsetAfter (text : String) (start : Nat) (hstart : IsBoundary text start) (n : Nat) : Nat :=
  ((charIndices (sliceFrom text start hstart))[n]?.map fun (i, _) => start + i).getD
    text.utf8ByteSize

theorem getElem?_charIndicesFrom (offset : Nat) (cs : List Char) (n : Nat) :
    (charIndicesFrom offset cs)[n]? =
      cs[n]?.map fun c => (offset + (String.ofList (cs.take n)).utf8ByteSize, c) := by
  induction cs generalizing offset n with
  | nil => rfl
  | cons c cs ih =>
    cases n with
    | zero => simp [charIndicesFrom]
    | succ n =>
      have hsize : (String.ofList (c :: cs.take n)).utf8ByteSize =
          c.utf8Size + (String.ofList (cs.take n)).utf8ByteSize := by
        rw [String.ofList_cons, String.utf8ByteSize_append, String.utf8ByteSize_singleton]
      simp only [charIndicesFrom, List.getElem?_cons_succ, List.take_succ_cons, ih, hsize,
        Nat.add_assoc]

/-- **A character begins** behind the bytes of those in front of it. -/
theorem getElem?_charIndices (text : String) (n : Nat) :
    (charIndices text)[n]? =
      text.toList[n]?.map fun c => ((String.ofList (text.toList.take n)).utf8ByteSize, c) := by
  unfold charIndices
  rw [getElem?_charIndicesFrom]
  simp only [Nat.zero_add]

theorem offsetAfter_eq (h : text = before ++ after)
    (hstart : IsBoundary text before.utf8ByteSize) (n : Nat) :
    offsetAfter text before.utf8ByteSize hstart n =
      (before ++ .ofList (after.toList.take n)).utf8ByteSize := by
  unfold offsetAfter
  rw [sliceFrom_of_eq_append h, getElem?_charIndices, String.utf8ByteSize_append]
  by_cases hn : n < after.toList.length
  · simp [List.getElem?_eq_getElem hn]
  · have hall : after.toList.length ≤ n := Nat.le_of_not_lt hn
    rw [List.getElem?_eq_none hall, List.take_of_length_le hall, String.ofList_toList, h,
      String.utf8ByteSize_append]
    rfl

theorem isBoundary_offsetAfter (hstart : IsBoundary text start) (n : Nat) :
    IsBoundary text (offsetAfter text start hstart n) := by
  obtain ⟨before, after, h, rfl⟩ := isBoundary_iff.1 hstart
  rw [offsetAfter_eq h]
  have hparts : text =
      (before ++ .ofList (after.toList.take n)) ++ .ofList (after.toList.drop n) := by
    rw [String.append_assoc, ← String.ofList_append, List.take_append_drop, String.ofList_toList, h]
  exact isBoundary_of_eq_append hparts

theorem le_offsetAfter (hstart : IsBoundary text start) (n : Nat) :
    start ≤ offsetAfter text start hstart n := by
  obtain ⟨before, after, h, rfl⟩ := isBoundary_iff.1 hstart
  rw [offsetAfter_eq h, String.utf8ByteSize_append]
  exact Nat.le_add_right _ _

end DdlGraph.Text
