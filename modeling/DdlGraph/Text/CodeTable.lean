/-!
# Tables of code points

A property of characters is a list of closed intervals sorted upwards (`within`); a case mapping is
a list of runs of code points that move by the same distance (`CaseRun`, `shifted?`).

* `within_iff`: the early stop loses nothing on a sorted list, membership is membership in an
  interval;
* `within_of_lt`: a table that starts above `n` does not hold `n`.
-/

namespace DdlGraph.Text

/-- **Membership** in a list of intervals. The search stops at the first interval that begins after
`n`, so the list has to be sorted. -/
def within : List (Nat × Nat) → Nat → Bool
  | [], _ => false
  | (first, last) :: rest, n => decide (first ≤ n) && (decide (n ≤ last) || within rest n)

/-- Code points `first, first + stride, …, last`, each of which maps to itself plus `shift`. -/
structure CaseRun where
  first : Nat
  last : Nat
  stride : Nat
  shift : Int

/-- **Image** of `n` under the first run that holds it. The runs are sorted by `first`. -/
def shifted? : List CaseRun → Nat → Option Nat
  | [], _ => none
  | run :: rest, n =>
    if n < run.first then none
    else if n ≤ run.last ∧ (n - run.first) % run.stride = 0 then some (n + run.shift).toNat
    else shifted? rest n

/-! ## Sorted tables -/

/-- The interval starts increase. -/
def Sorted (table : List (Nat × Nat)) : Prop :=
  table.Pairwise fun a b => a.1 ≤ b.1

theorem within_of_lt {table : List (Nat × Nat)} {n : Nat} (h : ∀ r ∈ table, n < r.1) :
    within table n = false := by
  cases table with
  | nil => rfl
  | cons r rest =>
    have := h r (by simp)
    simp [within]
    omega

theorem within_iff {table : List (Nat × Nat)} (sorted : Sorted table) (n : Nat) :
    within table n = true ↔ ∃ r ∈ table, r.1 ≤ n ∧ n ≤ r.2 := by
  induction table with
  | nil => simp [within]
  | cons r rest ih =>
    obtain ⟨first, tail⟩ := List.pairwise_cons.1 sorted
    simp only [within, Bool.and_eq_true, Bool.or_eq_true, decide_eq_true_eq, ih tail,
      List.mem_cons, exists_eq_or_imp]
    constructor
    · rintro ⟨h, h' | h'⟩
      · exact .inl ⟨h, h'⟩
      · exact .inr h'
    · rintro (⟨h, h'⟩ | ⟨q, hq, h, h'⟩)
      · exact ⟨h, .inl h'⟩
      · exact ⟨Nat.le_trans (first q hq) h, .inr ⟨q, hq, h, h'⟩⟩

end DdlGraph.Text
