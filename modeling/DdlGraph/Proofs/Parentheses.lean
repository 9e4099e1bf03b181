import DdlGraph.Check.Survey
import Mathlib.Data.List.Basic

/-!
# Parentheses that match

A check goes through the tokens with the lines of the parentheses that are open. What it reports is
told here without that stack: two parentheses match if all between them stand in pairs (`Matches`).
The invariant is that the stack has the parentheses that are not matched in what was read
(`unmatchedOpens`), the last one first, and that the last of them is the one that the next closing
parenthesis matches (`closesNext_of_last`).

* `closes_iff_paired`: parentheses are closed just if they stand in pairs;
* `parenFindings_exact`: the findings are the closing parentheses that match none, each by itself,
  and the opening ones, all as one.
-/

namespace DdlGraph.Check

open DdlGraph.Sql

/-! ## Depth -/

/-- How many parentheses are open behind the token. -/
def depthAfter (depth : Nat) : Token → Nat
  | .lparen => depth + 1
  | .rparen => depth - 1
  | _ => depth

theorem closes_cons {depth : Nat} {t : Token} {ts : List Token} :
    Closes depth (t :: ts) ↔ (t = .rparen → depth ≠ 0) ∧ Closes (depthAfter depth t) ts := by
  cases t <;> cases depth <;> simp [Closes, depthAfter]

theorem depthAfter_of_ne {t : Token} (hopen : t ≠ .lparen) (hclose : t ≠ .rparen) (depth : Nat) :
    depthAfter depth t = depth := by
  unfold depthAfter
  split
  · exact absurd rfl hopen
  · exact absurd rfl hclose
  · rfl

/-! ## Pairs -/

/-- **Parentheses in pairs**, and any other tokens among them. -/
inductive Paired : List Token → Prop
  | nil : Paired []
  | token {t : Token} {ts : List Token} (hopen : t ≠ .lparen) (hclose : t ≠ .rparen)
    (h : Paired ts) : Paired (t :: ts)
  | parens {inner ts : List Token} (hin : Paired inner) (h : Paired ts) :
    Paired (.lparen :: (inner ++ .rparen :: ts))

/-- The tokens go on in pairs up to a parenthesis that closes what is open before them. -/
def ClosedBehind (ts : List Token) : Prop :=
  ∃ inner rest, ts = inner ++ .rparen :: rest ∧ Paired inner

/-- Pairs do not change what is open. -/
theorem Paired.closes_append {ts : List Token} (h : Paired ts) (depth : Nat) (us : List Token) :
    Closes depth (ts ++ us) ↔ Closes depth us := by
  induction h generalizing depth us with
  | nil => rfl
  | token hopen hclose _ ih =>
    rw [List.cons_append, closes_cons, depthAfter_of_ne hopen hclose, ih]
    simp [hclose]
  | parens _ _ ihin ih =>
    rw [List.cons_append, List.append_assoc, closes_cons, ihin, List.cons_append, closes_cons]
    simp [depthAfter, ih]

/-- **Parentheses that are closed** stand in pairs: those in depth 0 all of them, and in a greater
depth those up to the parenthesis that leads out of it. -/
theorem closes_split (ts : List Token) :
    (Closes 0 ts → Paired ts) ∧ ∀ depth, Closes (depth + 1) ts →
      ∃ inner rest, ts = inner ++ .rparen :: rest ∧ Paired inner ∧ Closes depth rest := by
  generalize hlen : ts.length = len
  induction len using Nat.strongRecOn generalizing ts with
  | ind len ih =>
    cases ts with
    | nil => exact ⟨fun _ => .nil, fun _ h => h.elim⟩
    | cons t ts =>
      have shorter {us : List Token} (hus : us <:+ ts) :=
        ih us.length (by have := hus.length_le; simp at hlen; omega) us rfl
      obtain ⟨hpaired, hbehind⟩ := shorter (List.suffix_refl ts)
      by_cases hopen : t = .lparen
      · -- Behind the parenthesis that closes this one the tokens go on in the same depth.
        have inside {depth : Nat} (h : Closes depth (t :: ts)) : ∃ inner rest,
            ts = inner ++ .rparen :: rest ∧ Paired inner ∧ Closes depth rest ∧ rest <:+ ts := by
          subst hopen
          obtain ⟨inner, rest, hts, hinner, hrest⟩ := hbehind depth (closes_cons.1 h).2
          exact ⟨inner, rest, hts, hinner, hrest, ⟨inner ++ [.rparen], by simp [hts]⟩⟩
        refine ⟨fun h => ?_, fun depth h => ?_⟩
        · obtain ⟨inner, rest, rfl, hinner, hrest, hsuffix⟩ := inside h
          exact hopen ▸ .parens hinner ((shorter hsuffix).1 hrest)
        · obtain ⟨inner, rest, rfl, hinner, hrest, hsuffix⟩ := inside h
          obtain ⟨inner', rest', rfl, hinner', hrest'⟩ := (shorter hsuffix).2 depth hrest
          exact ⟨.lparen :: (inner ++ .rparen :: inner'), rest', by simp [hopen],
            .parens hinner hinner', hrest'⟩
      by_cases hclose : t = .rparen
      · subst hclose
        exact ⟨fun h => absurd rfl ((closes_cons.1 h).1 rfl), fun depth h =>
          ⟨[], ts, rfl, .nil, (closes_cons.1 h).2⟩⟩
      · have hdepth := depthAfter_of_ne hopen hclose
        refine ⟨fun h => .token hopen hclose (hpaired ?_), fun depth h => ?_⟩
        · exact hdepth 0 ▸ (closes_cons.1 h).2
        · obtain ⟨inner, rest, rfl, hinner, hrest⟩ :=
            hbehind depth (hdepth (depth + 1) ▸ (closes_cons.1 h).2)
          exact ⟨t :: inner, rest, rfl, .token hopen hclose hinner, hrest⟩

/-- **Closed is paired.** -/
theorem closes_iff_paired (ts : List Token) : Closes 0 ts ↔ Paired ts := by
  refine ⟨(closes_split ts).1, fun h => ?_⟩
  have hend : Closes 0 (ts ++ []) := (h.closes_append 0 []).2 trivial
  rwa [List.append_nil] at hend

instance decidableCloses : (depth : Nat) → (ts : List Token) → Decidable (Closes depth ts)
  | 0, [] => .isTrue trivial
  | _ + 1, [] => .isFalse id
  | depth, t :: ts =>
    have := decidableCloses (depthAfter depth t) ts
    decidable_of_iff _ closes_cons.symm

instance (ts : List Token) : Decidable (Paired ts) :=
  decidable_of_iff _ (closes_iff_paired ts)

/-- Pairs do not lead out of what is open before them. -/
theorem Paired.not_closedBehind {ts : List Token} (h : Paired ts) : ¬ ClosedBehind ts := by
  rintro ⟨inner, rest, rfl, hinner⟩
  exact (hinner.closes_append 0 _).1 ((closes_iff_paired _).2 h)

/-- A parenthesis that is opened among pairs is closed there. -/
theorem Paired.closedBehind {ts us : List Token} (h : Paired (ts ++ .lparen :: us)) :
    ClosedBehind us := by
  generalize hws : ts ++ .lparen :: us = ws at h
  induction h generalizing ts us with
  | nil => simp at hws
  | token hopen _ _ ih =>
    cases ts with
    | nil => exact absurd (List.cons.inj hws).1.symm hopen
    | cons t ts => exact ih (List.cons.inj hws).2
  | @parens inner more hin _ ihin ih =>
    cases ts with
    | nil => exact ⟨inner, more, (List.cons.inj hws).2, hin⟩
    | cons t ts =>
      rcases List.append_eq_append_iff.1 (List.cons.inj hws).2 with
        ⟨as, hinner, hus⟩ | ⟨as, rfl, hmore⟩
      · cases as with
        | nil => cases hus
        | cons a as =>
          obtain ⟨rfl, rfl⟩ := List.cons.inj hus
          obtain ⟨inner', rest, rfl, hinner'⟩ := ihin hinner.symm
          exact ⟨inner', rest ++ .rparen :: more, by simp, hinner'⟩
      · cases as with
        | nil => cases hmore
        | cons a as => exact ih (List.cons.inj hmore).2.symm

/-- **What ends pairs**: tokens stand in pairs up to their end, up to a closing parenthesis, or up
to an opening one that nothing closes. -/
theorem paired_or_ends (ts : List Token) :
    Paired ts ∨ ClosedBehind ts ∨
      ∃ inner us, ts = inner ++ .lparen :: us ∧ Paired inner ∧ ¬ ClosedBehind us := by
  generalize hlen : ts.length = len
  induction len using Nat.strongRecOn generalizing ts with
  | ind len ih =>
    cases ts with
    | nil => exact .inl .nil
    | cons t ts =>
      by_cases hclose : t = .rparen
      · exact .inr (.inl ⟨[], ts, by rw [hclose]; rfl, .nil⟩)
      by_cases hopen : t = .lparen
      · subst hopen
        by_cases hbehind : ClosedBehind ts
        · obtain ⟨inner, rest, rfl, hinner⟩ := hbehind
          rcases ih rest.length (by simp at hlen; omega) rest rfl with
            hrest | ⟨inner', rest', rfl, hinner'⟩ | ⟨inner', us, rfl, hinner', hus⟩
          · exact .inl (.parens hinner hrest)
          · exact .inr (.inl ⟨_, rest', by simp, .parens hinner hinner'⟩)
          · exact .inr (.inr ⟨_, us, by simp, .parens hinner hinner', hus⟩)
        · exact .inr (.inr ⟨[], ts, rfl, .nil, hbehind⟩)
      · rcases ih ts.length (by simp at hlen; omega) ts rfl with
          hts | ⟨inner, rest, rfl, hinner⟩ | ⟨inner, us, rfl, hinner, hus⟩
        · exact .inl (.token hopen hclose hts)
        · exact .inr (.inl ⟨_, rest, rfl, .token hopen hclose hinner⟩)
        · exact .inr (.inr ⟨_, us, rfl, .token hopen hclose hinner, hus⟩)

/-! ## Matching parentheses -/

section
variable {ts : List Placed} {i j : Nat}

def tokenAt (ts : List Placed) (i : Nat) : Option Token :=
  ts[i]?.map (·.token)

def lineAt (ts : List Placed) (i : Nat) : Option Nat :=
  ts[i]?.map (·.line)

/-- The tokens behind the one at `i`. -/
def behind (ts : List Placed) (i : Nat) : List Token :=
  (ts.drop (i + 1)).map (·.token)

/-- **Matching parentheses**: one is opened at `i`, one is closed at `j`, and all between them stand
in pairs. -/
structure Matches (ts : List Placed) (i j : Nat) : Prop where
  lt : i < j
  opens : tokenAt ts i = some .lparen
  closes : tokenAt ts j = some .rparen
  between : Paired (((ts.take j).drop (i + 1)).map (·.token))

/-- A closing parenthesis that matches no earlier one. -/
def UnmatchedClose (ts : List Placed) (j : Nat) : Prop :=
  tokenAt ts j = some .rparen ∧ ∀ i, ¬ Matches ts i j

/-- An opening parenthesis that matches no later one. -/
def UnmatchedOpen (ts : List Placed) (i : Nat) : Prop :=
  tokenAt ts i = some .lparen ∧ ∀ j, ¬ Matches ts i j

theorem lt_of_tokenAt {t : Token} (h : tokenAt ts i = some t) : i < ts.length := by
  obtain ⟨p, hp, -⟩ := Option.map_eq_some_iff.1 h
  exact (List.getElem?_eq_some_iff.1 hp).1

instance : Decidable (Matches ts i j) :=
  decidable_of_iff (i < j ∧ tokenAt ts i = some .lparen ∧ tokenAt ts j = some .rparen ∧
      Paired (((ts.take j).drop (i + 1)).map (·.token)))
    ⟨fun ⟨hlt, hopens, hcloses, hbetween⟩ => ⟨hlt, hopens, hcloses, hbetween⟩,
      fun h => ⟨h.lt, h.opens, h.closes, h.between⟩⟩

instance : DecidablePred (UnmatchedClose ts) := fun j =>
  decidable_of_iff (tokenAt ts j = some .rparen ∧ ∀ i, i < j → ¬ Matches ts i j)
    (and_congr_right fun _ => forall_congr' fun _ => ⟨fun h hm => h hm.lt hm, fun h _ => h⟩)

instance : DecidablePred (UnmatchedOpen ts) := fun i =>
  decidable_of_iff (tokenAt ts i = some .lparen ∧ ∀ j, j < ts.length → ¬ Matches ts i j)
    (and_congr_right fun _ => forall_congr' fun _ =>
      ⟨fun h hm => h (lt_of_tokenAt hm.closes) hm, fun h _ => h⟩)

/-- The closing parentheses that match none, in their order. -/
def unmatchedCloses (ts : List Placed) : List Nat :=
  (List.range ts.length).filter (UnmatchedClose ts)

/-- The opening parentheses that match none, in their order. -/
def unmatchedOpens (ts : List Placed) : List Nat :=
  (List.range ts.length).filter (UnmatchedOpen ts)

theorem mem_unmatchedOpens : i ∈ unmatchedOpens ts ↔ UnmatchedOpen ts i := by
  unfold unmatchedOpens
  rw [List.mem_filter, List.mem_range, decide_eq_true_iff, and_iff_right_iff_imp]
  exact fun h => lt_of_tokenAt h.1

/-- What is behind a token goes on with that of a later one. -/
theorem behind_split {t : Token} (hij : i < j) (hj : tokenAt ts j = some t) :
    behind ts i = ((ts.take j).drop (i + 1)).map (·.token) ++ t :: behind ts j := by
  obtain ⟨p, hp, rfl⟩ := Option.map_eq_some_iff.1 hj
  obtain ⟨hlt, rfl⟩ := List.getElem?_eq_some_iff.1 hp
  have hsplit : ts.drop (i + 1) = (ts.take j).drop (i + 1) ++ ts[j] :: ts.drop (j + 1) := by
    conv_lhs => rw [← List.take_append_drop j ts]
    rw [List.drop_append_of_le_length (by rw [List.length_take]; omega),
      List.drop_eq_getElem_cons hlt]
  rw [behind, hsplit, List.map_append, List.map_cons, behind]

/-- The tokens in front of one that is behind another. -/
theorem take_of_behind {us vs : List Token} (h : behind ts i = us ++ vs) :
    ((ts.take (i + 1 + us.length)).drop (i + 1)).map (·.token) = us := by
  rw [List.drop_take, Nat.add_sub_cancel_left, List.map_take, ← behind, h, List.take_left]

theorem tokenAt_of_behind {us vs : List Token} {t : Token} (h : behind ts i = us ++ t :: vs) :
    tokenAt ts (i + 1 + us.length) = some t := by
  have hget := congrArg (·[us.length]?) h
  simpa [behind, tokenAt] using hget

/-- **An opening parenthesis matches one** just if it is closed behind it. -/
theorem unmatchedOpen_iff :
    UnmatchedOpen ts i ↔ tokenAt ts i = some .lparen ∧ ¬ ClosedBehind (behind ts i) := by
  refine and_congr_right fun hopens => ⟨fun h hclosed => ?_, fun h j hm => ?_⟩
  · obtain ⟨inner, rest, heq, hinner⟩ := hclosed
    refine h _ ⟨?_, hopens, tokenAt_of_behind heq, ?_⟩
    · omega
    · rw [take_of_behind heq]
      exact hinner
  · exact h ⟨_, _, behind_split hm.lt hm.closes, hm.between⟩

/-! ## The parenthesis that is closed next -/

/-- A closing parenthesis behind the tokens would match the one at `i`. -/
def ClosesNext (ts : List Placed) (i : Nat) : Prop :=
  tokenAt ts i = some .lparen ∧ Paired (behind ts i)

instance : DecidablePred (ClosesNext ts) := fun _ =>
  inferInstanceAs (Decidable (_ ∧ _))

theorem ClosesNext.unmatched (h : ClosesNext ts i) : UnmatchedOpen ts i :=
  unmatchedOpen_iff.2 ⟨h.1, h.2.not_closedBehind⟩

/-- No later parenthesis is open. -/
theorem ClosesNext.le (h : ClosesNext ts i) (hj : UnmatchedOpen ts j) : j ≤ i := by
  by_contra hij
  have hpaired := h.2
  rw [behind_split (Nat.lt_of_not_le hij) hj.1] at hpaired
  exact (unmatchedOpen_iff.1 hj).2 hpaired.closedBehind

/-- **The last one that is open is closed next.** -/
theorem closesNext_of_last (h : UnmatchedOpen ts i) (hlast : ∀ j, UnmatchedOpen ts j → j ≤ i) :
    ClosesNext ts i := by
  obtain ⟨hopens, hclosed⟩ := unmatchedOpen_iff.1 h
  refine ⟨hopens, ?_⟩
  rcases paired_or_ends (behind ts i) with hpaired | hclosed' | ⟨inner, us, heq, -, hus⟩
  · exact hpaired
  · exact absurd hclosed' hclosed
  · -- The parenthesis that ends the pairs would be open, and later.
    have hlater : tokenAt ts (i + 1 + inner.length) = some .lparen := tokenAt_of_behind heq
    have hbehind : behind ts (i + 1 + inner.length) = us := by
      have hsplit := behind_split (show i < i + 1 + inner.length by omega) hlater
      rw [take_of_behind heq, heq] at hsplit
      exact (List.cons.inj (List.append_cancel_left hsplit)).2.symm
    have := hlast _ (unmatchedOpen_iff.2 ⟨hlater, hbehind ▸ hus⟩)
    omega

theorem pairwise_unmatchedOpens (ts : List Placed) : (unmatchedOpens ts).Pairwise (· < ·) :=
  List.pairwise_lt_range.filter _

/-- The open parentheses but the one that is closed next. -/
theorem filter_closesNext (ts : List Placed) :
    (unmatchedOpens ts).filter (fun i => ¬ ClosesNext ts i) = (unmatchedOpens ts).dropLast := by
  have hpairwise := pairwise_unmatchedOpens ts
  rcases List.eq_nil_or_concat (unmatchedOpens ts) with hnil | ⟨front, last, hconcat⟩
  · rw [hnil]
    rfl
  · rw [List.concat_eq_append] at hconcat
    rw [hconcat] at hpairwise
    have hlast : ∀ i ∈ front, i < last := fun i hi =>
      (List.pairwise_append.1 hpairwise).2.2 i hi last (.head _)
    have hmem {i : Nat} : UnmatchedOpen ts i ↔ i ∈ front ∨ i = last := by
      rw [← mem_unmatchedOpens, hconcat, List.mem_append, List.mem_singleton]
    have hnext : ClosesNext ts last := by
      refine closesNext_of_last (hmem.2 (.inr rfl)) fun j hj => ?_
      rcases hmem.1 hj with hj | rfl
      · exact Nat.le_of_lt (hlast j hj)
      · exact Nat.le_refl j
    have hfront : ∀ i ∈ front, ¬ ClosesNext ts i := fun i hi h =>
      absurd (h.le (hmem.2 (.inr rfl))) (Nat.not_le_of_lt (hlast i hi))
    rw [hconcat, List.dropLast_concat, List.filter_append,
      List.filter_eq_self.2 fun i hi => decide_eq_true (hfront i hi)]
    simp [hnext]

/-- Nothing is open just if nothing is closed next. -/
theorem unmatchedOpens_eq_nil_iff : unmatchedOpens ts = [] ↔ ∀ i, ¬ ClosesNext ts i := by
  constructor
  · intro h i hi
    have hmem := mem_unmatchedOpens.2 hi.unmatched
    rw [h] at hmem
    cases hmem
  · intro h
    have hdrop := filter_closesNext ts
    rw [List.filter_eq_self.2 fun i _ => decide_eq_true (h i)] at hdrop
    have hlength := congrArg List.length hdrop
    rw [List.length_dropLast] at hlength
    exact List.length_eq_zero_iff.1 (by omega)

/-! ## One more token -/

variable (p : Placed)

theorem tokenAt_concat (hi : i < ts.length) : tokenAt (ts ++ [p]) i = tokenAt ts i := by
  rw [tokenAt, List.getElem?_append_left hi, tokenAt]

theorem tokenAt_last (ts : List Placed) : tokenAt (ts ++ [p]) ts.length = some p.token := by
  simp [tokenAt]

theorem matches_concat (hj : j < ts.length) : Matches (ts ++ [p]) i j ↔ Matches ts i j := by
  have htake : (ts ++ [p]).take j = ts.take j := List.take_append_of_le_length (Nat.le_of_lt hj)
  constructor
  · intro h
    have hi : i < ts.length := Nat.lt_trans h.lt hj
    exact ⟨h.lt, tokenAt_concat p hi ▸ h.opens, tokenAt_concat p hj ▸ h.closes,
      htake ▸ h.between⟩
  · intro h
    have hi : i < ts.length := Nat.lt_trans h.lt hj
    exact ⟨h.lt, (tokenAt_concat p hi).trans h.opens, (tokenAt_concat p hj).trans h.closes,
      htake.symm ▸ h.between⟩

theorem matches_last : Matches (ts ++ [p]) i ts.length ↔ p.token = .rparen ∧ ClosesNext ts i := by
  have htake : (ts ++ [p]).take ts.length = ts := List.take_left
  constructor
  · intro h
    refine ⟨Option.some.inj ((tokenAt_last p ts).symm.trans h.closes),
      tokenAt_concat p h.lt ▸ h.opens, ?_⟩
    have hbetween := h.between
    rwa [htake] at hbetween
  · rintro ⟨hp, hnext⟩
    have hi := lt_of_tokenAt hnext.1
    exact ⟨hi, (tokenAt_concat p hi).trans hnext.1, by rw [tokenAt_last, hp],
      by rw [htake]; exact hnext.2⟩

theorem unmatchedClose_concat (hj : j < ts.length) :
    UnmatchedClose (ts ++ [p]) j ↔ UnmatchedClose ts j := by
  unfold UnmatchedClose
  rw [tokenAt_concat p hj]
  exact and_congr_right fun _ => forall_congr' fun i => not_congr (matches_concat p hj)

theorem unmatchedClose_last :
    UnmatchedClose (ts ++ [p]) ts.length ↔ p.token = .rparen ∧ unmatchedOpens ts = [] := by
  unfold UnmatchedClose
  rw [tokenAt_last, Option.some.injEq, unmatchedOpens_eq_nil_iff]
  exact and_congr_right fun hp => forall_congr' fun i => by simp [matches_last, hp]

theorem unmatchedOpen_concat (hi : i < ts.length) :
    UnmatchedOpen (ts ++ [p]) i ↔
      ¬ (p.token = .rparen ∧ ClosesNext ts i) ∧ UnmatchedOpen ts i := by
  unfold UnmatchedOpen
  rw [tokenAt_concat p hi]
  constructor
  · rintro ⟨hopens, h⟩
    refine ⟨fun hnext => h _ ((matches_last p).2 hnext), hopens, fun j hm => ?_⟩
    exact h j ((matches_concat p (lt_of_tokenAt hm.closes)).2 hm)
  · rintro ⟨hnext, hopens, h⟩
    refine ⟨hopens, fun j hm => ?_⟩
    have hj := lt_of_tokenAt hm.closes
    rw [List.length_append, List.length_singleton] at hj
    rcases Nat.lt_succ_iff_lt_or_eq.1 hj with hj | rfl
    · exact h j ((matches_concat p hj).1 hm)
    · exact hnext ((matches_last p).1 hm)

theorem unmatchedOpen_last : UnmatchedOpen (ts ++ [p]) ts.length ↔ p.token = .lparen := by
  unfold UnmatchedOpen
  rw [tokenAt_last, Option.some.injEq, and_iff_left_iff_imp]
  intro _ j hm
  have hj := lt_of_tokenAt hm.closes
  have hlt := hm.lt
  rw [List.length_append, List.length_singleton] at hj
  omega

/-- A filter over the places of one token more. -/
theorem filter_range_concat (ts : List Placed) {q : Nat → Prop} [DecidablePred q] :
    (List.range (ts ++ [p]).length).filter q =
      (List.range ts.length).filter q ++ if q ts.length then [ts.length] else [] := by
  rw [List.length_append, List.length_singleton, List.range_succ, List.filter_append]
  congr 1
  rw [List.filter_singleton]
  by_cases hq : q ts.length <;> simp [hq]

/-- **One more token** is a closing parenthesis without a match if it is one and nothing is open. -/
theorem unmatchedCloses_concat (ts : List Placed) :
    unmatchedCloses (ts ++ [p]) = unmatchedCloses ts ++
      if p.token = .rparen ∧ unmatchedOpens ts = [] then [ts.length] else [] := by
  unfold unmatchedCloses
  rw [filter_range_concat, if_congr (unmatchedClose_last p) rfl rfl]
  congr 1
  exact List.filter_congr fun j hj =>
    decide_eq_decide.2 (unmatchedClose_concat p (List.mem_range.1 hj))

/-- **One more token** matches the last one that is open if it closes, and is open if it opens. -/
theorem unmatchedOpens_concat (ts : List Placed) :
    unmatchedOpens (ts ++ [p]) =
      (if p.token = .rparen then (unmatchedOpens ts).dropLast else unmatchedOpens ts) ++
        if p.token = .lparen then [ts.length] else [] := by
  have hstay : (List.range ts.length).filter (UnmatchedOpen (ts ++ [p])) =
      (unmatchedOpens ts).filter fun i => ¬ (p.token = .rparen ∧ ClosesNext ts i) := by
    rw [unmatchedOpens, List.filter_filter]
    refine List.filter_congr fun i hi => ?_
    rw [← Bool.decide_and]
    exact decide_eq_decide.2 (unmatchedOpen_concat p (List.mem_range.1 hi))
  rw [unmatchedOpens, filter_range_concat, if_congr (unmatchedOpen_last p) rfl rfl, hstay]
  congr 1
  by_cases hp : p.token = .rparen
  · rw [if_pos hp, ← filter_closesNext]
    simp [hp]
  · rw [if_neg hp]
    simp [hp]

end

/-! ## Findings -/

/-- What is said of a closing parenthesis that matches none. -/
def closeFinding (ts : List Placed) (j : Nat) : Finding :=
  ⟨lineAt ts j, .unexpectedClose⟩

/-- What is said of the opening parentheses that match none: how many there are, on the line of the
first one. -/
def openFinding? (ts : List Placed) : Option Finding :=
  (unmatchedOpens ts).head?.map fun i => ⟨lineAt ts i, .neverClosed (unmatchedOpens ts).length⟩

theorem parenFindings_of_ne {p : Placed} (hopen : p.token ≠ .lparen) (hclose : p.token ≠ .rparen)
    (opened : List Nat) (rest : List Placed) :
    parenFindings opened (p :: rest) = parenFindings opened rest := by
  rw [parenFindings.eq_def]
  dsimp only
  split
  · exact absurd ‹_› hopen
  · exact absurd ‹_› hclose
  · rfl

/-- **The stack of a check** has the lines of the parentheses that are open in what was read. -/
theorem parenFindings_read {all rest : List Placed} (read : List Placed) (opened : List Nat)
    (hall : all = read ++ rest)
    (hopened : opened.map some = ((unmatchedOpens read).map (lineAt all)).reverse) :
    (unmatchedCloses read).map (closeFinding all) ++ parenFindings opened rest =
      (unmatchedCloses all).map (closeFinding all) ++ (openFinding? all).toList := by
  induction rest generalizing read opened with
  | nil =>
    rw [List.append_nil] at hall
    subst hall
    have hlast : opened.getLast?.map some = (unmatchedOpens all).head?.map (lineAt all) := by
      rw [← List.getLast?_map, hopened, List.getLast?_reverse, List.head?_map]
    have hlength : opened.length = (unmatchedOpens all).length := by
      simpa using congrArg List.length hopened
    rw [parenFindings, openFinding?, ← hlength]
    congr 1
    cases hhead : (unmatchedOpens all).head? with
    | none =>
      rw [hhead] at hlast
      rw [Option.map_eq_none_iff.1 hlast]
      rfl
    | some i =>
      rw [hhead] at hlast
      obtain ⟨line, hline, hat⟩ := Option.map_eq_some_iff.1 hlast
      rw [hline, Option.map_some, ← hat]
      rfl
  | cons p rest ih =>
    have hall' : all = (read ++ [p]) ++ rest := by rw [hall]; simp
    have hline : lineAt all read.length = some p.line := by rw [hall]; simp [lineAt]
    have hcloses := unmatchedCloses_concat p read
    have hopens := unmatchedOpens_concat p read
    by_cases hopen : p.token = .lparen
    · rw [parenFindings.eq_def]
      simp only [hopen]
      have hnext := ih _ (p.line :: opened) hall' (by simp [hopens, hopen, hopened, hline])
      rwa [hcloses, if_neg (by simp [hopen]), List.append_nil] at hnext
    by_cases hclose : p.token = .rparen
    · rw [parenFindings.eq_def]
      simp only [hclose]
      cases opened with
      | nil =>
        have hnil : unmatchedOpens read = [] := by simpa using hopened.symm
        have hnext := ih _ [] hall' (by simp [hopens, hclose, hnil])
        rw [hcloses, if_pos ⟨hclose, hnil⟩, List.map_append, List.append_assoc] at hnext
        rw [← hnext, List.map_singleton, closeFinding, hline]
        rfl
      | cons line opened =>
        have hne : unmatchedOpens read ≠ [] := by
          intro hnil
          rw [hnil] at hopened
          cases hopened
        have htail : opened.map some =
            ((unmatchedOpens read).dropLast.map (lineAt all)).reverse := by
          rw [List.map_dropLast, ← List.tail_reverse, ← hopened]
          rfl
        have hnext := ih _ opened hall' (by simpa [hopens, hclose] using htail)
        rwa [hcloses, if_neg fun h => hne h.2, List.append_nil] at hnext
    · have hnext := ih _ opened hall' (by simpa [hopens, hopen, hclose] using hopened)
      rw [hcloses, if_neg fun h => hclose h.1, List.append_nil] at hnext
      rw [parenFindings_of_ne hopen hclose, hnext]

/-- **The findings about parentheses are exact.** For any tokens they are one for each closing
parenthesis that matches no earlier one, in their order and on its line, and, just if some opening
parenthesis matches none, a last one with the number of those on the line of the first. So there is
none just if the parentheses stand in pairs, as they do in every text that is valid. -/
theorem parenFindings_exact :
    (∀ ts : List Placed,
      parenFindings [] ts =
          (unmatchedCloses ts).map (closeFinding ts) ++ (openFinding? ts).toList ∧
        (parenFindings [] ts = [] ↔ Paired (ts.map (·.token)))) ∧
      ∀ text : String, (check text).isValid = true →
        Paired ((tokens (Dialect.detect text).escapesBackslash text).map (·.token)) := by
  refine ⟨fun ts => ⟨?_, ?_⟩, fun text h => ?_⟩
  · simpa [unmatchedCloses] using parenFindings_read [] [] rfl rfl
  · rw [parenFindings_eq_nil_iff, List.length_nil, closes_iff_paired]
  · exact (closes_iff_paired _).1 (check_valid_balanced h)

/-- A valid text, whose parentheses stand in pairs. -/
theorem parenFindings_exact_users :
    let text := "CREATE TABLE users (id INT, name VARCHAR(20));"
    (check text).isValid = true ∧
      Paired ((tokens (Dialect.detect text).escapesBackslash text).map (·.token)) :=
  ⟨by decide +kernel, parenFindings_exact.2 _ (by decide +kernel)⟩

/-- The closing parenthesis in front matches none. Of four that are opened one is closed, which
leaves three, and the first of them stands on the second line. -/
example : parenFindings [] (tokens false ")\n((\n(a)(") =
    [⟨some 1, .unexpectedClose⟩, ⟨some 2, .neverClosed 3⟩] ∧
      unmatchedOpens (tokens false ")\n((\n(a)(") = [1, 2, 6] := by
  decide +kernel

end DdlGraph.Check
