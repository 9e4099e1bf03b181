import DdlGraph.Proofs.Lines

/-!
# Names end at a mark

A comma, a closing parenthesis, a semicolon and the end of the text are no part of a name or an
action. So what is read or passed over without a look into parentheses stops in front of such a mark
as it stops at the end of the tokens: nothing behind the mark decides what it is.

* `nameParts_mark`, `actions_mark`: names and actions stop at a mark;
* `isIndexItem_mark`: the item of an index shows before it;
* `skipOrReplace_mark`, `skipTableKinds_mark`, `skipIfNotExists_mark`: so do the words around
  `TABLE`.
-/

namespace DdlGraph.Sql

/-- The mark ends a name. -/
def IsMark (t : Token) : Prop :=
  t = .comma ∨ t = .rparen ∨ t = .semicolon ∨ t = .endOfText

instance (t : Token) : Decidable (IsMark t) :=
  inferInstanceAs (Decidable (_ ∨ _))

theorem IsMark.nameText? {t : Token} (h : IsMark t) : t.nameText? = none := by
  rcases h with rfl | rfl | rfl | rfl <;> rfl

theorem IsMark.isWord {t : Token} (h : IsMark t) (word : String) : t.isWord word = false := by
  rcases h with rfl | rfl | rfl | rfl <;> rfl

theorem IsMark.ne_keyword {t : Token} (h : IsMark t) (k : Keyword) : t ≠ .keyword k := by
  rcases h with rfl | rfl | rfl | rfl <;> exact nofun

theorem IsMark.ne_dot {t : Token} (h : IsMark t) : t ≠ .dot := by
  rcases h with rfl | rfl | rfl | rfl <;> exact nofun

section
variable {p : Placed} (hp : IsMark p.token) (more : Input)
include hp

theorem skipToken_mark {t : Token} (ht : ¬ IsMark t) (ts : Input) :
    skipToken (ts ++ p :: more) t = skipToken ts t ++ p :: more := by
  cases ts with
  | nil => exact if_neg fun he : p.token = t => ht (he ▸ hp)
  | cons q rest => by_cases h : q.token = t <;> simp [skipToken, h]

theorem skipWord_mark (word : String) (ts : Input) :
    skipWord (ts ++ p :: more) word = skipWord ts word ++ p :: more := by
  cases ts with
  | nil => exact if_neg (by rw [hp.isWord]; exact Bool.false_ne_true)
  | cons q rest => by_cases h : q.token.isWord word <;> simp [skipWord, h]

theorem skipName_mark (ts : Input) : skipName (ts ++ p :: more) = skipName ts ++ p :: more := by
  cases ts with
  | nil => exact if_neg (by rw [hp.nameText?]; exact Bool.false_ne_true)
  | cons q rest => by_cases h : q.token.nameText?.isSome <;> simp [skipName, h]

/-! ## Names -/

theorem nameParts_mark (name : String) (ts : Input) :
    nameParts name (ts ++ p :: more) =
      ((nameParts name ts).1, (nameParts name ts).2 ++ p :: more) := by
  fun_induction nameParts name ts with
  | case1 name line q rest part h ih =>
    rw [List.cons_append, List.cons_append, nameParts, h]
    exact ih
  | case2 name line q rest h =>
    rw [List.cons_append, List.cons_append, nameParts, h]
  | case3 name line =>
    rw [List.cons_append, List.nil_append, nameParts, hp.nameText?]
  | case4 name ts h1 h2 =>
    apply nameParts_of_not_dot
    cases ts with
    | nil => exact hp.ne_dot
    | cons q ts =>
      obtain ⟨t, line⟩ := q
      rintro rfl
      cases ts with
      | nil => exact h2 line rfl
      | cons q ts => exact h1 line q ts rfl

theorem objectName?_mark (ts : Input) : objectName? (ts ++ p :: more) =
    (objectName? ts).map fun r => (r.1, r.2 ++ p :: more) := by
  cases ts with
  | nil =>
    show p.token.nameText?.map _ = none
    rw [hp.nameText?]
    rfl
  | cons q rest =>
    show q.token.nameText?.map (fun name => nameParts name (rest ++ p :: more)) =
      (q.token.nameText?.map fun name => nameParts name rest).map _
    cases q.token.nameText? with
    | none => rfl
    | some name => exact congrArg some (nameParts_mark hp more name rest)

/-! ## Actions -/

theorem action_mark (ts : Input) :
    action (ts ++ p :: more) = ((action ts).1, (action ts).2 ++ p :: more) := by
  cases ts with
  | nil =>
    rw [List.nil_append, action]
    simp [hp.ne_keyword, hp.isWord, action]
  | cons q rest =>
    rw [List.cons_append]
    unfold action
    by_cases hcascade : q.token = .keyword .cascade
    · simp only [hcascade, if_true]
    by_cases hrestrict : q.token = .keyword .restrict
    · simp only [hrestrict, if_true, reduceCtorEq, if_false, Token.keyword.injEq]
    by_cases hset : q.token.isWord "set"
    · simp only [hcascade, hrestrict, hset, if_true, if_false]
      cases rest with
      | nil =>
        rw [List.nil_append]
        rcases hp with h | h | h | h <;> simp [nextToken, h]
      | cons r rest =>
        simp only [List.cons_append, nextToken, List.tail_cons]
        split <;> rfl
    by_cases hno : q.token.isWord "no"
    · simp only [hcascade, hrestrict, hset, hno, if_true, if_false]
      rw [skipWord_mark hp]
      rfl
    · simp only [hcascade, hrestrict, hset, hno, if_false]
      rfl

theorem actions_mark (d u : Option ReferentialAction) (ts : Input) :
    actions d u (ts ++ p :: more) = ((actions d u ts).1, (actions d u ts).2 ++ p :: more) := by
  fun_induction actions d u ts with
  | case1 d u line line' rest ih | case2 d u line line' rest ih =>
    rw [List.cons_append, List.cons_append, actions, action_mark hp]
    exact ih
  | case3 d u line ts h1 h2 =>
    rw [List.cons_append]
    apply actions_of_no_event
    all_goals
      cases ts with
      | nil => exact hp.ne_keyword _
      | cons q ts =>
        obtain ⟨t, l⟩ := q
        rintro rfl
        first | exact h1 l ts rfl | exact h2 l ts rfl
  | case4 d u ts h =>
    apply actions_of_not_on
    cases ts with
    | nil => exact hp.ne_keyword _
    | cons q ts =>
      obtain ⟨t, l⟩ := q
      rintro rfl
      exact h l ts rfl

/-! ## Items of indexes -/

theorem isIndexItem_mark (ts : Input) : isIndexItem (ts ++ p :: more) = isIndexItem ts := by
  obtain ⟨mark, line⟩ := p
  rcases hp with rfl | rfl | rfl | rfl
  all_goals
    match ts with
    | [] => cases more with
      | nil => rfl
      | cons q more => obtain ⟨t, _⟩ := q; cases t <;> cases more <;> rfl
    | [⟨t, _⟩] => cases t <;> cases more <;> rfl
    | [⟨t, _⟩, ⟨u, _⟩] => cases t <;> cases u <;> simp [isIndexItem]
    | ⟨t, _⟩ :: ⟨u, _⟩ :: ⟨v, _⟩ :: rest => cases t <;> cases u <;> rfl

/-! ## Words around `TABLE` -/

theorem skipIfNotExists_mark (ts : Input) :
    skipIfNotExists (ts ++ p :: more) = skipIfNotExists ts ++ p :: more := by
  cases ts with
  | nil => exact if_neg (hp.ne_keyword _)
  | cons q rest =>
    unfold skipIfNotExists
    by_cases h : q.token = .keyword .if
    · simp only [List.cons_append, nextToken, h, if_true, List.tail_cons]
      rw [skipToken_mark hp more (by decide), skipToken_mark hp more (by decide)]
    · simp [nextToken, h]

theorem skipTableKinds_mark (ts : Input) :
    skipTableKinds (ts ++ p :: more) = skipTableKinds ts ++ p :: more := by
  fun_induction skipTableKinds ts with
  | case1 => exact if_neg (by simp [hp.isWord])
  | case2 q rest h ih => rw [List.cons_append, skipTableKinds, if_pos h, ih]
  | case3 q rest h => rw [List.cons_append, skipTableKinds, if_neg h]

theorem skipOrReplace_mark (ts : Input) :
    skipOrReplace (ts ++ p :: more) = skipOrReplace ts ++ p :: more := by
  cases ts with
  | nil => exact if_neg (by simp [nextToken, hp.isWord])
  | cons q rest =>
    unfold skipOrReplace
    by_cases h : q.token.isWord "or"
    · simp only [List.cons_append, nextToken, h, if_true, List.tail_cons]
      exact skipWord_mark hp more "replace" rest
    · simp [nextToken, h]

end

end DdlGraph.Sql
