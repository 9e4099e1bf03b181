import DdlGraph.Text.Letter

/-!
# Blanks around and between words

* `words_nonempty`, `words_notBlank`: words are non-empty and hold no white space.
-/

namespace DdlGraph.Text

/-- `cs` without its longest ending in `p`. -/
def trimEndWhile (p : Char → Bool) (cs : List Char) : List Char :=
  (cs.reverse.dropWhile p).reverse

/-- `cs` without white space at its start. -/
def trimStart (cs : List Char) : List Char :=
  cs.dropWhile isBlank

/-- `cs` without white space at its end. -/
def trimEnd (cs : List Char) : List Char :=
  trimEndWhile isBlank cs

def trim (cs : List Char) : List Char :=
  trimEnd (trimStart cs)

/-- The text holds white space only. -/
def isBlankText (s : String) : Bool :=
  s.toList.all isBlank

/-- Characters up to the first white space, and the rest. -/
def nextWord (cs : List Char) : List Char × List Char :=
  (cs.takeWhile (!isBlank ·), cs.dropWhile (!isBlank ·))

/-- **Words**: the longest pieces without white space. -/
def words (cs : List Char) : List (List Char) :=
  match _h : trimStart cs with
  | [] => []
  | c :: rest => (nextWord (c :: rest)).1 :: words (nextWord (c :: rest)).2
termination_by cs.length
decreasing_by
  have hc : isBlank c = false := by
    have := List.head?_dropWhile_not isBlank cs
    rw [show cs.dropWhile isBlank = c :: rest from _h] at this
    simpa using this
  have h1 : (c :: rest).length ≤ cs.length := _h ▸ List.IsSuffix.length_le (List.dropWhile_suffix _)
  have h2 : (rest.dropWhile (!isBlank ·)).length ≤ rest.length :=
    List.IsSuffix.length_le (List.dropWhile_suffix _)
  simp only [nextWord, List.dropWhile_cons, hc, Bool.not_false, if_true]
  simp only [List.length_cons] at h1
  omega

theorem words_nonempty {cs w : List Char} (h : w ∈ words cs) : w ≠ [] := by
  fun_induction words cs with
  | case1 => simp at h
  | case2 cs c rest heq ih =>
    have hc : isBlank c = false := by
      have := List.head?_dropWhile_not isBlank cs
      rw [show cs.dropWhile isBlank = c :: rest from heq] at this
      simpa using this
    rcases List.mem_cons.1 h with rfl | h
    · simp [nextWord, hc]
    · exact ih h

theorem words_notBlank {cs w : List Char} (h : w ∈ words cs) : ∀ c ∈ w, isBlank c = false := by
  fun_induction words cs with
  | case1 => simp at h
  | case2 cs c rest heq ih =>
    rcases List.mem_cons.1 h with rfl | h
    · intro d hd
      simpa using List.all_eq_true.1 List.all_takeWhile d hd
    · exact ih h

/-- `separator` between the texts. -/
def join (separator : String) (texts : List String) : String :=
  separator.intercalate texts

end DdlGraph.Text
