/-!
# Finding a text in another

* `splitAtFirst?_eq_append`: the two sides of a found text make up the whole;
* `holds_iff`: a text is found exactly if the whole is something, the text and something;
* `splitAtFirst?_isSome`: a text is split exactly where one is found.
-/

namespace DdlGraph.Text

/-- `cs` up to the first place where `needle` stands, backwards and after `passed`, and from there
on. -/
def splitAtFirstFrom (needle passed : List Char) : List Char → Option (List Char × List Char)
  | [] => if needle.isEmpty then some (passed, []) else none
  | c :: cs =>
    if needle.isPrefixOf (c :: cs) then some (passed, c :: cs)
    else splitAtFirstFrom needle (c :: passed) cs

/-- The text before the first place where `needle` stands, and from there on. -/
def splitAtFirst? (needle cs : List Char) : Option (List Char × List Char) :=
  (splitAtFirstFrom needle [] cs).map fun r => (r.1.reverse, r.2)

/-- `needle` stands somewhere in `cs`. -/
def holds (needle : List Char) : List Char → Bool
  | [] => needle.isEmpty
  | c :: cs => needle.isPrefixOf (c :: cs) || holds needle cs

theorem holds_iff {needle cs : List Char} :
    holds needle cs = true ↔ ∃ before after, cs = before ++ (needle ++ after) := by
  induction cs with
  | nil => simp [holds, List.isEmpty_iff]
  | cons c cs ih =>
    simp only [holds, Bool.or_eq_true, ih, List.isPrefixOf_iff_prefix]
    constructor
    · rintro (⟨after, h⟩ | ⟨before, after, h⟩)
      · exact ⟨[], after, h.symm⟩
      · exact ⟨c :: before, after, by simp [h]⟩
    · rintro ⟨before, after, h⟩
      cases before with
      | nil => exact .inl ⟨after, h.symm⟩
      | cons d before =>
        simp only [List.cons_append, List.cons.injEq] at h
        exact .inr ⟨before, after, h.2⟩

theorem holds_iff_isInfix {needle cs : List Char} : holds needle cs = true ↔ needle <:+: cs := by
  rw [holds_iff]
  refine exists_congr fun before => exists_congr fun after => ?_
  rw [← List.append_assoc, eq_comm]

theorem splitAtFirstFrom_isSome (needle passed cs : List Char) :
    (splitAtFirstFrom needle passed cs).isSome = holds needle cs := by
  induction cs generalizing passed with
  | nil =>
    unfold splitAtFirstFrom holds
    split <;> simp_all
  | cons c cs ih =>
    unfold splitAtFirstFrom holds
    split
    · rename_i h
      rw [h]
      rfl
    · rename_i h
      rw [ih, Bool.eq_false_iff.2 h, Bool.false_or]

theorem splitAtFirst?_isSome (needle cs : List Char) :
    (splitAtFirst? needle cs).isSome = holds needle cs := by
  unfold splitAtFirst?
  rw [Option.isSome_map, splitAtFirstFrom_isSome]

theorem splitAtFirstFrom_eq_append {needle passed cs : List Char} {r : List Char × List Char}
    (h : splitAtFirstFrom needle passed cs = some r) : r.1.reverse ++ r.2 = passed.reverse ++ cs := by
  induction cs generalizing passed with
  | nil =>
    unfold splitAtFirstFrom at h
    split at h <;> simp at h
    simp [← h]
  | cons c cs ih =>
    unfold splitAtFirstFrom at h
    split at h
    · cases h; rfl
    · simpa using ih h

theorem splitAtFirst?_eq_append {needle cs : List Char} {r : List Char × List Char}
    (h : splitAtFirst? needle cs = some r) : r.1 ++ r.2 = cs := by
  obtain ⟨q, hq, rfl⟩ := Option.map_eq_some_iff.1 h
  simpa using splitAtFirstFrom_eq_append hq

end DdlGraph.Text
