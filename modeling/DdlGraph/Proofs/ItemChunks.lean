import DdlGraph.Proofs.OpenLists
import DdlGraph.Proofs.SurveyTokens

/-!
# Items are read for themselves

The items of a table stand between commas, and a comma in parentheses parts nothing. What is read of
the tokens of one item (`Chunk`) does not depend on what follows the item, and a production does not
read past its end or end inside of parentheses (`Within`).

* `balanced_placed`: induction on balanced tokens;
* `Within.bind`: two productions in a row;
* `KeptBehind`: what is passed over in front of an item leaves an item;
* `closeParens_close`, `columnItems_balanced`, `stringItems_balanced`: lists in parentheses.
-/

namespace DdlGraph.Sql

open Check

/-! ## Chunks -/

/-- **Induction on balanced tokens** that stand on lines. -/
theorem balanced_placed {motive : Input → Prop} (nil : motive [])
    (token : ∀ p ps, p.token ∉ partingTokens → motive ps → motive (p :: ps))
    (parens : ∀ o inner c ps, o.token = .lparen → c.token = .rparen →
      Balanced (inner.map (·.token)) → motive inner → motive ps → motive (o :: (inner ++ c :: ps)))
    {ps : Input} (h : Balanced (ps.map (·.token))) : motive ps := by
  generalize hts : ps.map (·.token) = ts at h
  induction h generalizing ps with
  | nil =>
    rw [List.map_eq_nil_iff.1 hts]
    exact nil
  | token ht _ ih =>
    obtain ⟨p, qs, rfl, rfl, hqs⟩ := List.map_eq_cons_iff.1 hts
    exact token p qs ht (ih hqs)
  | parens hin _ ihin ih =>
    obtain ⟨o, qs, rfl, ho, hqs⟩ := List.map_eq_cons_iff.1 hts
    obtain ⟨inner, more, rfl, rfl, hmore⟩ := List.map_eq_append_iff.1 hqs
    obtain ⟨c, more, rfl, hc, hmore⟩ := List.map_eq_cons_iff.1 hmore
    exact parens o inner c more ho hc hin (ihin rfl) (ih hmore)

theorem balanced_cons {p : Placed} {ps : Input} (h : Balanced ((p :: ps).map (·.token))) :
    (p.token ∉ partingTokens ∧ Balanced (ps.map (·.token))) ∨
      p.token = .lparen ∧ ∃ inner c more, ps = inner ++ c :: more ∧
        Balanced (inner.map (·.token)) ∧ c.token = .rparen ∧ Balanced (more.map (·.token)) := by
  rw [List.map_cons] at h
  generalize hp : p.token = t at h
  generalize hts : ps.map (·.token) = ts at h
  cases h with
  | token ht h => exact .inl ⟨ht, h⟩
  | parens hin h =>
    obtain ⟨inner, more, rfl, rfl, hmore⟩ := List.map_eq_append_iff.1 hts
    obtain ⟨c, more, rfl, hc, rfl⟩ := List.map_eq_cons_iff.1 hmore
    exact .inr ⟨rfl, inner, c, more, rfl, hin, hc, h⟩

theorem balanced_tail {p : Placed} {ps : Input} (h : Balanced ((p :: ps).map (·.token)))
    (hp : p.token ≠ .lparen) : Balanced (ps.map (·.token)) :=
  (balanced_cons h).elim And.right fun h => absurd h.1 hp

theorem balanced_head {p : Placed} {ps : Input} (h : Balanced ((p :: ps).map (·.token))) :
    p.token ≠ .rparen := by
  rcases balanced_cons h with ⟨hp, -⟩ | ⟨hp, -⟩
  · exact fun hclose => hp (hclose ▸ by decide)
  · rw [hp]
    exact nofun

/-- **Tokens of an item**: balanced, and no comma stands outside of parentheses. -/
inductive Chunk : Input → Prop
  | nil : Chunk []
  | token {p : Placed} {ps : Input} (hp : p.token ∉ partingTokens) (hcomma : p.token ≠ .comma)
    (h : Chunk ps) : Chunk (p :: ps)
  | parens {o c : Placed} {inner ps : Input} (ho : o.token = .lparen)
    (hin : Balanced (inner.map (·.token))) (hc : c.token = .rparen) (h : Chunk ps) :
    Chunk (o :: (inner ++ c :: ps))

theorem Chunk.tail {p : Placed} {ps : Input} (h : Chunk (p :: ps)) (hp : p.token ≠ .lparen) :
    p.token ∉ partingTokens ∧ p.token ≠ .comma ∧ Chunk ps := by
  cases h with
  | token hparting hcomma h => exact ⟨hparting, hcomma, h⟩
  | parens ho => exact absurd ho hp

theorem Chunk.inside {o : Placed} {ts : Input} (h : Chunk (o :: ts)) (ho : o.token = .lparen) :
    ∃ inner c ps, ts = inner ++ c :: ps ∧ Balanced (inner.map (·.token)) ∧ c.token = .rparen ∧
      Chunk ps := by
  cases h with
  | token hparting => exact absurd (ho ▸ by decide) hparting
  | parens _ hin hc h => exact ⟨_, _, _, rfl, hin, hc, h⟩

theorem Chunk.goes {p : Placed} {ps : Input} (h : Chunk (p :: ps)) :
    p.token ∉ [Token.comma, .rparen, .semicolon, .endOfText] := by
  cases h with
  | token hparting hcomma =>
    simp only [partingTokens, List.mem_cons, List.not_mem_nil, or_false, not_or] at hparting ⊢
    exact ⟨hcomma, hparting.2⟩
  | parens ho => simp [ho]

/-- The mark ends an item. -/
def EndsItem (p : Placed) : Prop :=
  p.token = .comma ∨ p.token = .rparen

theorem EndsItem.isMark {p : Placed} (h : EndsItem p) : IsMark p.token :=
  h.elim .inl fun h => .inr (.inl h)

/-! ## Productions within an item -/

section
variable {α β : Type}

/-- **The production stays within the item**: whatever follows the item, it gives the same and
leaves the same part of the item, or it fails. -/
def Within (f : Input → Step α) (ts : Input) : Prop :=
  (∃ a us, us <:+ ts ∧ Chunk us ∧
    ∀ p more, EndsItem p → f (ts ++ p :: more) = .ok a (us ++ p :: more)) ∨
  ∀ p more, EndsItem p → ∃ e rest, f (ts ++ p :: more) = .fail e rest

section
variable {f g : Input → Step α} {ts us : Input}

theorem within_ok {a : α} (h : us <:+ ts) (hus : Chunk us)
    (hf : ∀ p more, EndsItem p → f (ts ++ p :: more) = .ok a (us ++ p :: more)) : Within f ts :=
  .inl ⟨a, us, h, hus, hf⟩

/-- What always succeeds. -/
theorem within_pair {f : Input → α × Input} {a : α} (h : us <:+ ts) (hus : Chunk us)
    (hf : ∀ p more, EndsItem p → f (ts ++ p :: more) = (a, us ++ p :: more)) :
    Within (fun ts => .ok (f ts).1 (f ts).2) ts :=
  within_ok h hus fun p more hp => congrArg (fun r => Step.ok r.1 r.2) (hf p more hp)

theorem within_fail (hf : ∀ p more, EndsItem p → ∃ e rest, f (ts ++ p :: more) = .fail e rest) :
    Within f ts :=
  .inr hf

theorem Within.of_eq (hg : Within g us) (h : us <:+ ts)
    (hf : ∀ p more, EndsItem p → f (ts ++ p :: more) = g (us ++ p :: more)) : Within f ts := by
  rcases hg with ⟨a, vs, hvs, hchunk, hg⟩ | hg
  · exact within_ok (hvs.trans h) hchunk fun p more hp => (hf p more hp).trans (hg p more hp)
  · refine within_fail fun p more hp => ?_
    rw [hf p more hp]
    exact hg p more hp

/-- **Two productions in a row.** -/
theorem Within.bind {k : α → Input → Step β} (hf : Within f ts)
    (hk : ∀ a us, us <:+ ts → Chunk us → Within (k a) us) :
    Within (fun ts => (f ts).bind k) ts := by
  rcases hf with ⟨a, us, hus, hchunk, hf⟩ | hf
  · apply (hk a us hus hchunk).of_eq hus
    intro p more hp
    show (f (ts ++ p :: more)).bind k = _
    rw [hf p more hp]
    rfl
  · refine within_fail fun p more hp => ?_
    obtain ⟨e, rest, he⟩ := hf p more hp
    refine ⟨e, rest, ?_⟩
    show (f (ts ++ p :: more)).bind k = _
    rw [he]
    rfl

/-- The value goes on changed. -/
theorem Within.map (hf : Within f ts) (value : α → β) :
    Within (fun ts => (f ts).bind fun a ts => .ok (value a) ts) ts :=
  hf.bind fun _ us _ hchunk => within_ok (List.suffix_refl us) hchunk fun _ _ _ => rfl

end

end

/-! ## Behind what opens nothing -/

/-- What holds of tokens holds behind a first token that is no opening parenthesis. -/
def KeptBehind (P : Input → Prop) : Prop :=
  ∀ ⦃p : Placed⦄ ⦃ps : Input⦄, P (p :: ps) → p.token ≠ .lparen → P ps

theorem keptBehind_chunk : KeptBehind Chunk :=
  fun _ _ h hp => (h.tail hp).2.2

theorem keptBehind_balanced : KeptBehind fun ts => Balanced (ts.map (·.token)) :=
  fun _ _ => balanced_tail

section
variable {P : Input → Prop} (hP : KeptBehind P) {ts : Input} (h : P ts)
include hP

theorem KeptBehind.name {p : Placed} {rest : Input} (h : P (p :: rest)) {name : String}
    (hname : p.token.nameText? = some name) : P rest := by
  refine hP h fun hp => ?_
  rw [hp] at hname
  cases hname

theorem KeptBehind.word {p : Placed} {rest : Input} (h : P (p :: rest)) {word : String}
    (hword : p.token.isWord word) : P rest := by
  refine hP h fun hp => ?_
  rw [hp] at hword
  cases hword

include h

theorem KeptBehind.skipToken {t : Token} (ht : t ≠ .lparen) : P (skipToken ts t) := by
  cases ts with
  | nil => exact h
  | cons p rest =>
    unfold Sql.skipToken
    dsimp only
    split
    · rename_i hp
      exact hP h (hp ▸ ht)
    · exact h

theorem KeptBehind.skipName : P (skipName ts) := by
  cases ts with
  | nil => exact h
  | cons p rest =>
    unfold Sql.skipName
    dsimp only
    split
    · rename_i hname
      obtain ⟨name, hname⟩ := Option.isSome_iff_exists.1 hname
      exact hP.name h hname
    · exact h

theorem KeptBehind.skipWord (word : String) : P (skipWord ts word) := by
  cases ts with
  | nil => exact h
  | cons p rest =>
    unfold Sql.skipWord
    dsimp only
    split
    · rename_i hword
      exact hP.word h hword
    · exact h

theorem KeptBehind.nameParts (name : String) : P (nameParts name ts).2 := by
  fun_induction Sql.nameParts name ts with
  | case1 name line p rest part hpart ih => exact ih (hP.name (hP h (by simp)) hpart)
  | case2 name line p rest hpart => exact hP h (by simp)
  | case3 name line => exact hP h (by simp)
  | case4 => exact h

theorem KeptBehind.objectName? {us : Input} {name : String}
    (hname : objectName? ts = some (name, us)) : P us := by
  cases ts with
  | nil => cases hname
  | cons p rest =>
    obtain ⟨part, hpart, hparts⟩ := Option.map_eq_some_iff.1 hname
    have hrest := hP.nameParts (hP.name h hpart) part
    rw [hparts] at hrest
    exact hrest

theorem KeptBehind.action : P (action ts).2 := by
  cases ts with
  | nil => exact h
  | cons p rest =>
    by_cases hp : p.token = .lparen
    · unfold Sql.action
      simp only [hp, Token.isWord, reduceCtorEq, Bool.false_eq_true, if_false]
      exact h
    · have hrest := hP h hp
      unfold Sql.action
      dsimp only
      split
      · exact hrest
      · split
        · exact hrest
        · split
          · split
            · rename_i hnull
              cases rest with
              | nil => exact hrest
              | cons q rest => exact hP hrest (by rw [show q.token = _ from hnull]; simp)
            · rename_i hdefault
              cases rest with
              | nil => exact hrest
              | cons q rest => exact hP hrest (by rw [show q.token = _ from hdefault]; simp)
            · exact hrest
          · split
            · exact hP.skipWord hrest _
            · exact h

theorem KeptBehind.actions (d u : Option ReferentialAction) : P (actions d u ts).2 := by
  fun_induction Sql.actions d u ts with
  | case1 d u line line' rest ih | case2 d u line line' rest ih =>
    exact ih (hP.action (hP (hP h (by simp)) (by simp)))
  | case3 => exact hP h (by simp)
  | case4 => exact h

theorem KeptBehind.skipIfNotExists : P (skipIfNotExists ts) := by
  cases ts with
  | nil => exact h
  | cons p rest =>
    unfold Sql.skipIfNotExists
    split
    · rename_i hp
      have hrest := hP h (by rw [show p.token = _ from hp]; simp)
      exact hP.skipToken (hP.skipToken hrest (by decide)) (by decide)
    · exact h

theorem KeptBehind.skipTableKinds : P (skipTableKinds ts) := by
  fun_induction Sql.skipTableKinds ts with
  | case1 => exact h
  | case2 p rest hp ih =>
    simp only [Bool.or_eq_true] at hp
    rcases hp with (hp | hp) | hp <;> exact ih (hP.word h hp)
  | case3 => exact h

theorem KeptBehind.skipOrReplace : P (skipOrReplace ts) := by
  cases ts with
  | nil => exact h
  | cons p rest =>
    unfold Sql.skipOrReplace
    split
    · rename_i hp
      exact hP.skipWord (hP.word h hp) _
    · exact h

end

/-! ## Parentheses -/

section
variable {inner : Input} (h : Balanced (inner.map (·.token)))
include h

theorem closeParens_balanced (depth : Nat) (rest : Input) :
    closeParens depth (inner ++ rest) = closeParens depth rest := by
  refine balanced_placed (motive := fun inner => ∀ depth rest,
    closeParens depth (inner ++ rest) = closeParens depth rest) (fun _ _ => rfl) ?_ ?_ h depth rest
  · intro p ps hp ih depth rest
    simp only [partingTokens, List.mem_cons, List.not_mem_nil, or_false, not_or] at hp
    rw [List.cons_append, closeParens.eq_def]
    dsimp only
    split
    all_goals first | exact ih depth rest | simp_all
  · intro o inner c ps ho hc _ ihin ih depth rest
    rw [List.cons_append, List.append_assoc, List.cons_append, closeParens.eq_def]
    simp only [ho]
    rw [ihin, closeParens.eq_def]
    simp only [hc]
    exact ih depth rest

theorem closeParens_close {c : Placed} (hc : c.token = .rparen) (rest : Input) :
    closeParens 0 (inner ++ c :: rest) = rest := by
  rw [closeParens_balanced h, closeParens.eq_def]
  simp only [hc]

theorem expressionWords_balanced (depth : Nat) : ∃ words, ∀ rest,
    expressionWords depth (inner ++ rest) =
      (words ++ (expressionWords depth rest).1, (expressionWords depth rest).2) := by
  refine balanced_placed (motive := fun inner => ∀ depth, ∃ words, ∀ rest,
    expressionWords depth (inner ++ rest) =
      (words ++ (expressionWords depth rest).1, (expressionWords depth rest).2))
    (fun _ => ⟨[], fun _ => rfl⟩) ?_ ?_ h depth
  · intro p ps hp ih depth
    obtain ⟨words, hwords⟩ := ih depth
    refine ⟨(expressionWords depth [p]).1 ++ words, fun rest => ?_⟩
    obtain ⟨t, line⟩ := p
    cases t with
    | lparen | rparen | semicolon | endOfText => simp [partingTokens] at hp
    | _ => simp [expressionWords, hwords rest]
  · intro o inner c ps ho hc _ ihin ih depth
    obtain ⟨words, hwords⟩ := ihin (depth + 1)
    obtain ⟨more, hmore⟩ := ih depth
    refine ⟨"(" :: (words ++ ")" :: more), fun rest => ?_⟩
    rw [List.cons_append, List.append_assoc, List.cons_append, expressionWords.eq_def]
    simp only [ho]
    rw [hwords, expressionWords.eq_def]
    simp only [hc, hmore rest]
    simp

/-- The columns of a closed list. -/
theorem columnItems_balanced (columns : List String) (fresh : Bool) {c : Placed}
    (hc : c.token = .rparen) : ∃ columns', ∀ rest,
      columnItems columns fresh (inner ++ c :: rest) = .ok columns' rest := by
  refine balanced_placed (motive := fun inner => ∀ columns fresh, ∃ columns', ∀ rest,
    columnItems columns fresh (inner ++ c :: rest) = .ok columns' rest) ?_ ?_ ?_ h columns fresh
  · intro columns fresh
    refine ⟨columns, fun rest => ?_⟩
    rw [List.nil_append, columnItems]
    simp only [hc]
  · intro p ps hp ih columns fresh
    simp only [partingTokens, List.mem_cons, List.not_mem_nil, or_false, not_or] at hp
    obtain ⟨hopen, hclose, -, hend⟩ := hp
    by_cases hcomma : p.token = .comma
    · obtain ⟨columns', hcolumns⟩ := ih columns true
      refine ⟨columns', fun rest => ?_⟩
      rw [List.cons_append, columnItems]
      simp only [hcomma]
      exact hcolumns rest
    · cases hname : p.token.nameText? with
      | some name =>
        obtain ⟨columns', hcolumns⟩ := ih (if fresh then columns ++ [name] else columns) false
        refine ⟨columns', fun rest => ?_⟩
        rw [List.cons_append, columnItems]
        split
        all_goals first | contradiction | skip
        rw [hname]
        exact hcolumns rest
      | none =>
        obtain ⟨columns', hcolumns⟩ := ih columns false
        refine ⟨columns', fun rest => ?_⟩
        rw [List.cons_append, columnItems]
        split
        all_goals first | contradiction | skip
        rw [hname]
        exact hcolumns rest
  · intro o inner c' ps ho hc' hin _ ih columns fresh
    obtain ⟨columns', hcolumns⟩ := ih columns false
    refine ⟨columns', fun rest => ?_⟩
    rw [List.cons_append, List.append_assoc, List.cons_append, columnItems]
    simp only [ho]
    rw [closeParens_close hin hc']
    exact hcolumns rest

/-- The strings of a closed list, or what is wrong in it. -/
theorem stringItems_balanced (values : List String) {c : Placed} (hc : c.token = .rparen) :
    (∃ values', ∀ rest, stringItems values (inner ++ c :: rest) = .ok values' rest) ∨
      ∀ rest, ∃ e us, stringItems values (inner ++ c :: rest) = .fail e us := by
  refine balanced_placed (motive := fun inner => ∀ values,
    (∃ values', ∀ rest, stringItems values (inner ++ c :: rest) = .ok values' rest) ∨
      ∀ rest, ∃ e us, stringItems values (inner ++ c :: rest) = .fail e us) ?_ ?_ ?_ h values
  · intro values
    refine .inl ⟨values, fun rest => ?_⟩
    rw [List.nil_append, stringItems]
    simp only [hc]
  · intro p ps hp ih values
    obtain ⟨t, line⟩ := p
    cases t with
    | str s => exact ih (values ++ [s])
    | comma => exact ih values
    | lparen | rparen | semicolon | endOfText => simp [partingTokens] at hp
    | _ => exact .inr fun rest => ⟨_, _, rfl⟩
  · intro o inner c' ps ho hc' _ _ _ values
    refine .inr fun rest => ⟨.unexpected o.line .lparen, o :: (inner ++ c' :: ps) ++ c :: rest, ?_⟩
    rw [List.cons_append, stringItems]
    simp only [ho]

end

end DdlGraph.Sql
