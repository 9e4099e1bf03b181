import DdlGraph.Proofs.PatternText
import DdlGraph.Repair.Normalize

/-!
# Constraints that are added twice

Behind the line that begins the foreign keys a statement is dropped if it adds a constraint and
stands before, letter by letter (`keyStatements`). The first one stays, so no character but white
space is lost for good (`mem_dropRepeatedKeys`), and a text with as many semicolons as before has
lost nothing (`nodup_of_count`).
-/

namespace DdlGraph.Repair

open DdlGraph.Text

/-- The statements among the pieces of a text that add a constraint, without blanks at the end. -/
def addedConstraints (cut : List Segment) : List (List Char) :=
  ((matchesOf cut).map trimEnd).filter addsConstraint

/-- **The statements that a text may not repeat.** -/
def keyStatements (cs : List Char) : List (List Char) :=
  match splitAtFirst? Ddl.keySectionMark.toList cs with
  | some (_, tail) => addedConstraints (segments alterPattern tail)
  | none => []

/-! ## Pieces -/

theorem addedConstraints_found (parts : List (List Char)) (cut : List Segment) :
    addedConstraints (.found parts :: cut) =
      if addsConstraint (trimEnd parts.flatten) then trimEnd parts.flatten :: addedConstraints cut
      else addedConstraints cut := by
  show List.filter addsConstraint (trimEnd parts.flatten :: (matchesOf cut).map trimEnd) = _
  rw [List.filter_cons]
  rfl

/-- What becomes of a statement: it stays as it is, it is dropped, or it stays and is
remembered. -/
theorem dropRepeated_found (seen : List (List Char)) (parts : List (List Char))
    (cut : List Segment) :
    (addsConstraint (trimEnd parts.flatten) = false ∧
      dropRepeated seen (.found parts :: cut) = parts.flatten ++ dropRepeated seen cut) ∨
    (addsConstraint (trimEnd parts.flatten) = true ∧ trimEnd parts.flatten ∈ seen ∧
      dropRepeated seen (.found parts :: cut) = dropRepeated seen cut) ∨
    (addsConstraint (trimEnd parts.flatten) = true ∧ trimEnd parts.flatten ∉ seen ∧
      dropRepeated seen (.found parts :: cut) =
        parts.flatten ++ dropRepeated (trimEnd parts.flatten :: seen) cut) := by
  rw [dropRepeated]
  cases ha : addsConstraint (trimEnd parts.flatten) with
  | false => exact .inl ⟨rfl, by rw [Bool.not_false, if_pos rfl]⟩
  | true =>
    by_cases hs : trimEnd parts.flatten ∈ seen
    · refine .inr (.inl ⟨rfl, hs, ?_⟩)
      rw [Bool.not_true, if_neg Bool.false_ne_true, if_pos (List.contains_iff_mem.2 hs)]
    · refine .inr (.inr ⟨rfl, hs, ?_⟩)
      rw [Bool.not_true, if_neg Bool.false_ne_true,
        if_neg (fun hc => hs (List.contains_iff_mem.1 hc))]

/-- Without repetitions nothing is dropped. -/
theorem dropRepeated_eq {cut : List Segment} {seen : List (List Char)}
    (hnew : ∀ s ∈ addedConstraints cut, s ∉ seen) (hnodup : (addedConstraints cut).Nodup) :
    dropRepeated seen cut = cut.flatMap Segment.text := by
  induction cut generalizing seen with
  | nil => rfl
  | cons piece cut ih =>
    rw [List.flatMap_cons]
    cases piece with
    | gap text => exact congrArg (text ++ ·) (ih hnew hnodup)
    | found parts =>
      rw [addedConstraints_found] at hnew hnodup
      rcases dropRepeated_found seen parts cut with ⟨ha, he⟩ | ⟨ha, hs, -⟩ | ⟨ha, -, he⟩
      · rw [ha, if_neg Bool.false_ne_true] at hnew hnodup
        rw [he, ih hnew hnodup]
        rfl
      · rw [ha, if_pos rfl] at hnew
        exact absurd hs (hnew _ (.head _))
      · rw [ha, if_pos rfl] at hnew hnodup
        obtain ⟨hfirst, hcut⟩ := List.nodup_cons.1 hnodup
        rw [he, ih (fun s hs => ?_) hcut]
        · rfl
        · exact List.not_mem_cons_of_ne_of_not_mem (fun heq => hfirst (heq ▸ hs))
            (hnew s (.tail _ hs))

theorem mem_trimEnd {cs : List Char} {c : Char} (hc : isBlank c = false) (h : c ∈ cs) :
    c ∈ trimEnd cs := by
  unfold trimEnd trimEndWhile
  have hmem := List.mem_reverse.2 h
  rw [← List.takeWhile_append_dropWhile (p := isBlank) (l := cs.reverse)] at hmem
  rcases List.mem_append.1 hmem with hmem | hmem
  · have hb := List.all_eq_true.1 List.all_takeWhile c hmem
    rw [hc] at hb
    cases hb
  · exact List.mem_reverse.2 hmem

theorem mem_of_mem_trimEnd {cs : List Char} {c : Char} (h : c ∈ trimEnd cs) : c ∈ cs :=
  List.mem_reverse.1 ((List.dropWhile_suffix isBlank).mem (List.mem_reverse.1 h))

/-- **What is dropped stands before**: no character but white space is lost. -/
theorem mem_dropRepeated {c : Char} (hc : isBlank c = false) {cut : List Segment}
    {seen : List (List Char)} (h : c ∈ cut.flatMap Segment.text) :
    c ∈ dropRepeated seen cut ∨ ∃ s ∈ seen, c ∈ s := by
  induction cut generalizing seen with
  | nil => exact absurd h List.not_mem_nil
  | cons piece cut ih =>
    rw [List.flatMap_cons, List.mem_append] at h
    cases piece with
    | gap text =>
      rw [dropRepeated, List.mem_append]
      rcases h with h | h
      · exact .inl (.inl h)
      · exact (ih h).imp_left .inr
    | found parts =>
      rcases dropRepeated_found seen parts cut with ⟨-, he⟩ | ⟨-, hs, he⟩ | ⟨-, -, he⟩
      · rw [he, List.mem_append]
        rcases h with h | h
        · exact .inl (.inl h)
        · exact (ih h).imp_left .inr
      · rw [he]
        rcases h with h | h
        · exact .inr ⟨_, hs, mem_trimEnd hc h⟩
        · exact ih h
      · rw [he, List.mem_append]
        rcases h with h | h
        · exact .inl (.inl h)
        · rcases ih h with h | ⟨s, hs, hcs⟩
          · exact .inl (.inr h)
          · rcases List.mem_cons.1 hs with rfl | hs
            · exact .inl (.inl (mem_of_mem_trimEnd hcs))
            · exact .inr ⟨s, hs, hcs⟩

theorem dropRepeated_sublist (seen : List (List Char)) (cut : List Segment) :
    (dropRepeated seen cut).Sublist (cut.flatMap Segment.text) := by
  induction cut generalizing seen with
  | nil => exact .slnil
  | cons piece cut ih =>
    rw [List.flatMap_cons]
    cases piece with
    | gap text => exact (List.Sublist.refl text).append (ih seen)
    | found parts =>
      have hkept := List.Sublist.refl parts.flatten
      rcases dropRepeated_found seen parts cut with ⟨-, he⟩ | ⟨-, -, he⟩ | ⟨-, -, he⟩
      · rw [he]
        exact hkept.append (ih seen)
      · rw [he]
        exact (ih seen).trans (List.sublist_append_right _ _)
      · rw [he]
        exact hkept.append (ih _)

/-- Semicolons become fewer with each statement that is dropped. -/
theorem count_dropRepeated {cut : List Segment}
    (hend : ∀ parts, .found parts ∈ cut → ';' ∈ parts.flatten) (seen : List (List Char)) :
    (dropRepeated seen cut).count ';' ≤ (cut.flatMap Segment.text).count ';' ∧
      ((dropRepeated seen cut).count ';' = (cut.flatMap Segment.text).count ';' →
        (addedConstraints cut).Nodup ∧ ∀ s ∈ addedConstraints cut, s ∉ seen) := by
  induction cut generalizing seen with
  | nil => exact ⟨Nat.le_refl _, fun _ => ⟨.nil, fun s hs => absurd hs List.not_mem_nil⟩⟩
  | cons piece cut ih =>
    have hrest : ∀ parts, .found parts ∈ cut → ';' ∈ parts.flatten :=
      fun parts hp => hend parts (.tail _ hp)
    rw [List.flatMap_cons, List.count_append]
    cases piece with
    | gap text =>
      obtain ⟨hle, heq⟩ := ih hrest seen
      rw [dropRepeated, List.count_append]
      exact ⟨Nat.add_le_add_left hle _, fun he => heq (Nat.add_left_cancel he)⟩
    | found parts =>
      have hpos : 0 < parts.flatten.count ';' := List.count_pos_iff.2 (hend parts (.head _))
      have htext : (Segment.found parts).text = parts.flatten := rfl
      rw [htext, addedConstraints_found]
      rcases dropRepeated_found seen parts cut with ⟨ha, he⟩ | ⟨ha, hs, he⟩ | ⟨ha, hs, he⟩
      · obtain ⟨hle, heq⟩ := ih hrest seen
        rw [he, List.count_append, ha, if_neg Bool.false_ne_true]
        exact ⟨Nat.add_le_add_left hle _, fun hc => heq (Nat.add_left_cancel hc)⟩
      · obtain ⟨hle, -⟩ := ih hrest seen
        rw [he]
        exact ⟨by omega, fun hc => by omega⟩
      · obtain ⟨hle, heq⟩ := ih hrest (trimEnd parts.flatten :: seen)
        rw [he, List.count_append, ha, if_pos rfl]
        refine ⟨Nat.add_le_add_left hle _, fun hc => ?_⟩
        obtain ⟨hnodup, hnew⟩ := heq (Nat.add_left_cancel hc)
        refine ⟨List.nodup_cons.2 ⟨fun hmem => hnew _ hmem (.head _), hnodup⟩, ?_⟩
        exact List.forall_mem_cons.2 ⟨hs, fun s hmem => List.not_mem_of_not_mem_cons (hnew s hmem)⟩

/-! ## The whole text -/

theorem semicolon_of_alter {parts : List (List Char)}
    (h : List.Forall₂ Pattern.Takes alterPattern parts) : ';' ∈ parts.flatten := by
  obtain ⟨v, ⟨c, rfl, hc⟩, hmem⟩ := Pattern.takes_of_mem_all (p := .char ';')
    (by simp only [List.mem_cons, true_or, or_true]) (takes_of_one h)
  exact eq_of_beq hc ▸ hmem c (.head _)

theorem dropRepeatedKeys_eq {cs : List Char} (h : (keyStatements cs).Nodup) :
    dropRepeatedKeys cs = cs := by
  unfold dropRepeatedKeys
  unfold keyStatements at h
  split
  · rename_i head tail hs
    rw [hs] at h
    rw [dropRepeated_eq (fun s _ => List.not_mem_nil) h, flatten_segments]
    exact splitAtFirst?_eq_append hs
  · rfl

/-- Without the line that begins the foreign keys nothing is dropped. -/
theorem dropRepeatedKeys_of_not_holds {cs : List Char}
    (h : holds Ddl.keySectionMark.toList cs = false) : dropRepeatedKeys cs = cs := by
  have hnone : splitAtFirst? Ddl.keySectionMark.toList cs = none := by
    rw [← Option.isNone_iff_eq_none, ← Option.isSome_eq_false_iff, splitAtFirst?_isSome, h]
  unfold dropRepeatedKeys
  rw [hnone]

theorem dropRepeatedKeys_sublist (cs : List Char) : (dropRepeatedKeys cs).Sublist cs := by
  unfold dropRepeatedKeys
  split
  · rename_i head tail hs
    have hcut := (dropRepeated_sublist [] (segments alterPattern tail)).append_left head
    rw [flatten_segments, splitAtFirst?_eq_append hs] at hcut
    exact hcut
  · exact List.Sublist.refl cs

theorem mem_dropRepeatedKeys {cs : List Char} {c : Char} (hc : isBlank c = false) (h : c ∈ cs) :
    c ∈ dropRepeatedKeys cs := by
  unfold dropRepeatedKeys
  split
  · rename_i head tail hs
    rw [← splitAtFirst?_eq_append hs] at h
    rw [List.mem_append]
    rcases List.mem_append.1 h with h | h
    · exact .inl h
    · rw [← flatten_segments alterPattern tail] at h
      rcases mem_dropRepeated hc h with h | ⟨s, hs, -⟩
      · exact .inr h
      · exact absurd hs List.not_mem_nil
  · exact h

/-- **Nothing was dropped** if as many semicolons are left as there were. -/
theorem nodup_of_count {cs : List Char} (h : (dropRepeatedKeys cs).count ';' = cs.count ';') :
    (keyStatements cs).Nodup := by
  unfold keyStatements
  unfold dropRepeatedKeys at h
  split
  · rename_i head tail hs
    rw [hs] at h
    have hcs : head ++ tail = cs := splitAtFirst?_eq_append hs
    rw [← hcs, List.count_append, List.count_append] at h
    have hend : ∀ parts, .found parts ∈ segments alterPattern tail → ';' ∈ parts.flatten :=
      fun parts hp => semicolon_of_alter (takes_of_mem_segments hp)
    refine ((count_dropRepeated hend []).2 ?_).1
    rw [flatten_segments]
    exact Nat.add_left_cancel h
  · exact .nil

end DdlGraph.Repair
