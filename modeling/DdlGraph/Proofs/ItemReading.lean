import DdlGraph.Proofs.ItemChunks
import DdlGraph.Proofs.ReadStatements

/-!
# What an item is made of

Names, lists, references, defaults and modifiers stay within their item. So do types, with one
exception: the parameters of a type end with the first closing parenthesis, so they must not hold
parentheses themselves (`flatGroups`). Modifiers go on to the end of the item.

* `foreignKey_within`, `uniqueColumns_within`: what is read of a constraint;
* `typeTail_within`, `modifier_within`: what is read of a column;
* `column_reads`: a column is read to the end of its item.
-/

namespace DdlGraph.Sql

open Check

/-! ## Names and lists -/

section
variable {ts : Input} (h : Chunk ts)
include h

theorem objectName_within (wanted : Wanted) : Within (objectName wanted) ts := by
  cases hname : objectName? ts with
  | none =>
    refine within_fail fun p more hp => ?_
    rw [objectName, objectName?_mark hp.isMark, hname]
    exact ⟨_, _, rfl⟩
  | some r =>
    refine within_ok (a := r.1) ((objectName?_suffix hname).trans (List.tail_suffix _))
      (keptBehind_chunk.objectName? h hname) ?_
    intro p more hp
    rw [objectName, objectName?_mark hp.isMark, hname]
    rfl

theorem columnList_within : Within columnList ts := by
  have none (hts : ∀ p more, EndsItem p → columnList (ts ++ p :: more) = .ok [] (ts ++ p :: more)) :
      Within columnList ts := within_ok (List.suffix_refl _) h hts
  cases ts with
  | nil =>
    refine none fun p more hp => ?_
    obtain ⟨t, line⟩ := p
    rcases hp with rfl | rfl <;> rfl
  | cons o ts =>
    by_cases ho : o.token = .lparen
    · obtain ⟨inner, c, ps, rfl, hin, hc, hps⟩ := h.inside ho
      obtain ⟨columns, hcolumns⟩ := columnItems_balanced hin [] true hc
      have hsuffix : ps <:+ o :: (inner ++ c :: ps) := ⟨o :: (inner ++ [c]), by simp⟩
      obtain ⟨t, line⟩ := o
      obtain rfl : t = .lparen := ho
      refine within_ok (a := columns) hsuffix hps fun p more _ => ?_
      rw [List.cons_append, List.append_assoc, List.cons_append]
      exact hcolumns _
    · refine none fun p more _ => ?_
      obtain ⟨t, line⟩ := o
      cases t with
      | lparen => exact absurd rfl ho
      | _ => rfl

theorem stringList_within : Within stringList ts := by
  have other (hts : ∀ p more, EndsItem p → stringList (ts ++ p :: more) =
      .fail (expectedAt (ts ++ p :: more) .openParen) (ts ++ p :: more)) : Within stringList ts :=
    within_fail fun p more hp => ⟨_, _, hts p more hp⟩
  cases ts with
  | nil =>
    refine other fun p more hp => ?_
    obtain ⟨t, line⟩ := p
    rcases hp with rfl | rfl <;> rfl
  | cons o ts =>
    by_cases ho : o.token = .lparen
    · obtain ⟨inner, c, ps, rfl, hin, hc, hps⟩ := h.inside ho
      have hsuffix : ps <:+ o :: (inner ++ c :: ps) := ⟨o :: (inner ++ [c]), by simp⟩
      have happend (p : Placed) (more : Input) : o :: (inner ++ c :: ps) ++ p :: more =
          o :: (inner ++ c :: (ps ++ p :: more)) := by simp
      obtain ⟨t, line⟩ := o
      obtain rfl : t = .lparen := ho
      rcases stringItems_balanced hin [] hc with ⟨values, hvalues⟩ | hfails
      · refine within_ok (a := values) hsuffix hps fun p more _ => ?_
        rw [happend]
        exact hvalues _
      · refine within_fail fun p more _ => ?_
        rw [happend]
        exact hfails _
    · refine other fun p more _ => ?_
      obtain ⟨t, line⟩ := o
      cases t with
      | lparen => exact absurd rfl ho
      | _ => rfl

/-! ## References -/

theorem reference_within : Within reference ts := by
  apply (objectName_within h .referencedTable).bind
  intro table us _ hus
  apply (columnList_within hus).bind
  intro columns vs _ hvs
  refine within_ok (a := ⟨table, if columns.isEmpty then ["id"] else columns,
    (actions none none vs).1.1, (actions none none vs).1.2⟩) (actions_suffix none none vs)
    (keptBehind_chunk.actions hvs none none) ?_
  intro p more hp
  dsimp only
  rw [actions_mark hp.isMark]

theorem keyBehind_within (columns : List String) : Within (keyBehind columns) ts := by
  by_cases hnone : columns.isEmpty
  · refine within_fail fun p more _ => ?_
    unfold keyBehind
    rw [if_pos hnone]
    exact ⟨_, _, rfl⟩
  have other (hts : ∀ p more, EndsItem p → keyBehind columns (ts ++ p :: more) =
      .fail (expectedAt (ts ++ p :: more) .references) (ts ++ p :: more)) :
      Within (keyBehind columns) ts := within_fail fun p more hp => ⟨_, _, hts p more hp⟩
  cases ts with
  | nil =>
    refine other fun p more hp => ?_
    obtain ⟨t, line⟩ := p
    rcases hp with rfl | rfl <;> exact if_neg hnone
  | cons q ts =>
    obtain ⟨t, line⟩ := q
    cases t with
    | keyword k =>
      cases k with
      | references =>
        have hreads := (reference_within (h.tail (by simp)).2.2).map (KeyDef.mk columns)
        exact hreads.of_eq (List.suffix_cons _ _) fun _ _ _ => if_neg hnone
      | _ => exact other fun _ _ _ => if_neg hnone
    | _ => exact other fun _ _ _ => if_neg hnone

theorem foreignKey_within : Within foreignKey ts := by
  have other (hts : ∀ p more, EndsItem p → foreignKey (ts ++ p :: more) =
      .fail (expectedAt (ts ++ p :: more) .key) (ts ++ p :: more)) : Within foreignKey ts :=
    within_fail fun p more hp => ⟨_, _, hts p more hp⟩
  cases ts with
  | nil =>
    refine other fun p more hp => ?_
    obtain ⟨t, line⟩ := p
    rcases hp with rfl | rfl <;> rfl
  | cons q ts =>
    obtain ⟨t, line⟩ := q
    cases t with
    | keyword k =>
      cases k with
      | key =>
        have hreads := (columnList_within (h.tail (by simp)).2.2).bind fun columns us _ hus =>
          keyBehind_within hus columns
        exact hreads.of_eq (List.suffix_cons _ _) fun _ _ _ => foreignKey_key line _
      | _ => exact other fun _ _ _ => rfl
    | _ => exact other fun _ _ _ => rfl

/-! ## What is passed over -/

theorem Chunk.skipParens : Chunk (skipParens ts) ∧ ∀ p more, EndsItem p →
    Sql.skipParens (ts ++ p :: more) = Sql.skipParens ts ++ p :: more := by
  cases ts with
  | nil =>
    refine ⟨.nil, fun p more hp => ?_⟩
    obtain ⟨t, line⟩ := p
    rcases hp with rfl | rfl <;> rfl
  | cons o ts =>
    by_cases ho : o.token = .lparen
    · obtain ⟨inner, c, ps, rfl, hin, hc, hps⟩ := h.inside ho
      obtain ⟨t, line⟩ := o
      obtain rfl : t = .lparen := ho
      have hskip : Sql.skipParens (⟨.lparen, line⟩ :: (inner ++ c :: ps)) = ps :=
        closeParens_close hin hc ps
      rw [hskip]
      refine ⟨hps, fun p more _ => ?_⟩
      rw [List.cons_append, List.append_assoc, List.cons_append]
      exact closeParens_close hin hc _
    · have hskip (more : Input) : Sql.skipParens (o :: ts ++ more) = o :: ts ++ more := by
        obtain ⟨t, line⟩ := o
        cases t with
        | lparen => exact absurd rfl ho
        | _ => rfl
      have hnil := hskip []
      rw [List.append_nil] at hnil
      rw [hnil]
      exact ⟨h, fun p more _ => hskip _⟩

theorem Chunk.skipItem {p : Placed} (hp : EndsItem p) (more : Input) :
    Sql.skipItem (ts ++ p :: more) = p :: more := by
  induction h with
  | nil =>
    rw [List.nil_append, Sql.skipItem]
    rcases hp with hp | hp <;> simp only [hp]
  | @token q ps hq hcomma _ ih =>
    simp only [partingTokens, List.mem_cons, List.not_mem_nil, or_false, not_or] at hq
    rw [List.cons_append, Sql.skipItem]
    split
    all_goals first | exact ih | simp_all
  | @parens o c inner ps ho hin hc _ ih =>
    rw [List.cons_append, List.append_assoc, List.cons_append, Sql.skipItem]
    simp only [ho]
    rw [closeParens_close hin hc]
    exact ih

/-! ## Defaults and checks -/

omit h in
theorem expression_balanced {inner : Input} (hin : Balanced (inner.map (·.token))) {c : Placed}
    (hc : c.token = .rparen) : ∃ text, ∀ rest, expression (inner ++ c :: rest) = (text, rest) := by
  obtain ⟨words, hwords⟩ := expressionWords_balanced hin 0
  refine ⟨"(" ++ Text.join " " words ++ ")", fun rest => ?_⟩
  have hclose : expressionWords 0 (c :: rest) = ([], rest) := by
    rw [expressionWords.eq_def]
    simp only [hc]
  rw [expression, hwords, hclose, List.append_nil]

theorem defaultValue_within :
    Within (fun ts => .ok (defaultValue ts).1 (defaultValue ts).2) ts := by
  cases ts with
  | nil =>
    refine within_pair (a := "") (List.suffix_refl _) h fun p more hp => ?_
    obtain ⟨t, line⟩ := p
    rcases hp with rfl | rfl <;> rfl
  | cons q ts =>
    obtain ⟨t, line⟩ := q
    have word (text : String) (ht : t ≠ .lparen)
        (hts : ∀ p more, EndsItem p →
          defaultValue (⟨t, line⟩ :: ts ++ p :: more) = (text, ts ++ p :: more)) :
        Within (fun ts => .ok (defaultValue ts).1 (defaultValue ts).2) (⟨t, line⟩ :: ts) :=
      within_pair (List.suffix_cons _ _) (h.tail ht).2.2 hts
    have nothing (hts : ∀ p more, EndsItem p →
        defaultValue (⟨t, line⟩ :: ts ++ p :: more) = ("", ⟨t, line⟩ :: ts ++ p :: more)) :
        Within (fun ts => .ok (defaultValue ts).1 (defaultValue ts).2) (⟨t, line⟩ :: ts) :=
      within_pair (List.suffix_refl _) h hts
    cases t with
    | str s | num s => exact word s nofun fun _ _ _ => rfl
    | keyword k =>
      cases k with
      | null => exact word "NULL" nofun fun _ _ _ => rfl
      | _ => exact nothing fun _ _ _ => rfl
    | lparen =>
      obtain ⟨inner, c, ps, rfl, hin, hc, hps⟩ := h.inside rfl
      obtain ⟨text, htext⟩ := expression_balanced hin hc
      refine within_pair (a := text) ⟨⟨.lparen, line⟩ :: (inner ++ [c]), by simp⟩ hps
        fun p more _ => ?_
      rw [List.cons_append, List.append_assoc, List.cons_append]
      exact htext _
    | ident s =>
      have hrest := (h.tail nofun).2.2
      cases ts with
      | nil =>
        refine word s nofun fun p more hp => ?_
        obtain ⟨t, l⟩ := p
        rcases hp with rfl | rfl <;> rfl
      | cons o ts =>
        by_cases ho : o.token = .lparen
        · obtain ⟨inner, c, ps, rfl, hin, hc, hps⟩ := hrest.inside ho
          obtain ⟨text, htext⟩ := expression_balanced hin hc
          obtain ⟨t, l⟩ := o
          obtain rfl : t = .lparen := ho
          refine within_pair (a := s ++ text)
            ⟨⟨.ident s, line⟩ :: ⟨.lparen, l⟩ :: (inner ++ [c]), by simp⟩ hps fun p more _ => ?_
          rw [List.cons_append, List.cons_append, List.append_assoc, List.cons_append]
          show (s ++ (expression _).1, (expression _).2) = _
          rw [htext]
        · refine word s nofun fun p more _ => ?_
          obtain ⟨t, l⟩ := o
          cases t with
          | lparen => exact absurd rfl ho
          | _ => rfl
    | _ => exact nothing fun _ _ _ => rfl

omit h in
theorem listedValues?_of_not_lparen (column : String) (line : Nat) (name word first : Placed)
    (hfirst : first.token ≠ .lparen) (list : Input) :
    listedValues? column (⟨.lparen, line⟩ :: name :: word :: first :: list) = none := by
  obtain ⟨t, l⟩ := first
  rw [listedValues?_lparen]
  cases t with
  | lparen => exact absurd rfl hfirst
  | _ => exact ite_self none

omit h in
/-- The values that a check lists stand in it alone. -/
theorem listedValues?_balanced (column : String) {o c : Placed} {inner : Input}
    (ho : o.token = .lparen) (hin : Balanced (inner.map (·.token))) (hc : c.token = .rparen) :
    (∃ values, ∀ rest, listedValues? column (o :: (inner ++ c :: rest)) = some (values, rest)) ∨
      ∀ rest, listedValues? column (o :: (inner ++ c :: rest)) = none := by
  obtain ⟨t, line⟩ := o
  obtain rfl : t = .lparen := ho
  obtain ⟨t, l⟩ := c
  obtain rfl : t = .rparen := hc
  match inner with
  | [] =>
    refine .inr fun rest => ?_
    cases rest <;> rfl
  | [name] =>
    refine .inr fun rest => ?_
    show (if name.token.nameText?.any _ && false then _ else none) = none
    rw [Bool.and_false]
    rfl
  | [name, word] => exact .inr fun rest =>
      listedValues?_of_not_lparen column line name word ⟨.rparen, l⟩ (by simp) rest
  | name :: word :: first :: list =>
    by_cases hfirst : first.token = .lparen
    swap
    · exact .inr fun rest => listedValues?_of_not_lparen column line name word first hfirst _
    by_cases hname : name.token.nameText?.any (Text.sameAscii · column) && word.token.isWord "in"
    swap
    · exact .inr fun rest => if_neg hname
    have hlist : Balanced ((first :: list).map (·.token)) := by
      obtain ⟨hname, hword⟩ := Bool.and_eq_true_iff.1 hname
      refine balanced_tail (balanced_tail hin fun h => ?_) fun h => ?_
      · rw [h] at hname
        cases hname
      · rw [h] at hword
        cases hword
    obtain ⟨hparting, -⟩ | ⟨-, values, close, more, rfl, hvalues, hclose, hmore⟩ :=
      balanced_cons hlist
    · exact absurd (hfirst ▸ by decide) hparting
    have hreads (rest : Input) : listedValues? column
        (⟨.lparen, line⟩ ::
          (name :: word :: first :: (values ++ close :: more) ++ ⟨.rparen, l⟩ :: rest)) =
        (stringItems [] (values ++ close :: (more ++ ⟨.rparen, l⟩ :: rest))).value?.bind
          closedValues? := by
      obtain ⟨t, lfirst⟩ := first
      obtain rfl : t = .lparen := hfirst
      simp only [List.cons_append, List.append_assoc, listedValues?_lparen]
      exact if_pos hname
    rcases stringItems_balanced hvalues [] hclose with ⟨read, hread⟩ | hfails
    · cases more with
      | nil =>
        refine .inl ⟨read, fun rest => ?_⟩
        rw [hreads, hread]
        rfl
      | cons q more =>
        refine .inr fun rest => ?_
        rw [hreads, hread]
        obtain ⟨t, _⟩ := q
        have := balanced_head hmore
        cases t with
        | rparen => exact absurd rfl this
        | _ => rfl
    · refine .inr fun rest => ?_
      obtain ⟨e, us, he⟩ := hfails (more ++ ⟨.rparen, l⟩ :: rest)
      rw [hreads, he]
      rfl

omit h in
theorem check_of_not_lparen (c : ColumnDef) {ts : Input} (h : nextToken ts ≠ .lparen) :
    check c ts = (c, ts) := by
  cases ts with
  | nil => rfl
  | cons o ts =>
    obtain ⟨t, line⟩ := o
    cases t with
    | lparen => exact absurd rfl h
    | _ => rfl

theorem check_within (c : ColumnDef) : Within (fun ts => .ok (check c ts).1 (check c ts).2) ts := by
  by_cases ho : nextToken ts = .lparen
  · cases ts with
    | nil => cases ho
    | cons o ts =>
      obtain ⟨inner, close, ps, rfl, hin, hc, hps⟩ := h.inside ho
      have hsuffix : ps <:+ o :: (inner ++ close :: ps) := ⟨o :: (inner ++ [close]), by simp⟩
      have happend (p : Placed) (more : Input) : o :: (inner ++ close :: ps) ++ p :: more =
          o :: (inner ++ close :: (ps ++ p :: more)) := by simp
      rcases listedValues?_balanced c.name ho hin hc with ⟨values, hvalues⟩ | hnone
      · refine within_pair (a := { c with inlineValues := some values }) hsuffix hps
          fun p more _ => ?_
        rw [happend, check, hvalues]
      · refine within_pair (a := c) hsuffix hps fun p more _ => ?_
        rw [happend, check, hnone]
        obtain ⟨t, line⟩ := o
        obtain rfl : t = .lparen := ho
        exact congrArg (c, ·) (closeParens_close hin hc _)
  · refine within_pair (List.suffix_refl _) h fun p more hp => check_of_not_lparen c ?_
    cases ts with
    | nil => rcases hp with hp | hp <;> simp [nextToken, hp]
    | cons o ts => exact ho

end

/-! ## Types -/

/-- **The parameters of the type hold no parentheses.** They are in the first parentheses of an item
(`inside` of which the tokens may be), before the first keyword that is no name. -/
def flatGroups (inside : Bool) : Input → Bool
  | [] => true
  | p :: rest => match p.token with
    | .lparen => !inside && flatGroups true rest
    | .rparen => flatGroups false rest
    | .keyword k => (!inside && k.nameText?.isNone) || flatGroups inside rest
    | _ => flatGroups inside rest

theorem flatGroups_inside {inner : Input} (hin : Balanced (inner.map (·.token))) {c : Placed}
    (hc : c.token = .rparen) {rest : Input} (h : flatGroups true (inner ++ c :: rest)) :
    (∀ p ∈ inner, p.token ∉ partingTokens) ∧ flatGroups false rest := by
  refine balanced_placed (motive := fun inner => flatGroups true (inner ++ c :: rest) →
    (∀ p ∈ inner, p.token ∉ partingTokens) ∧ flatGroups false rest) ?_ ?_ ?_ hin h
  · intro h
    rw [List.nil_append, flatGroups, hc] at h
    exact ⟨nofun, h⟩
  · intro p ps hp ih h
    have hps : flatGroups true (ps ++ c :: rest) := by
      obtain ⟨t, line⟩ := p
      cases t with
      | lparen | rparen => simp [partingTokens] at hp
      | _ => exact h
    obtain ⟨hflat, hrest⟩ := ih hps
    exact ⟨List.forall_mem_cons.2 ⟨hp, hflat⟩, hrest⟩
  · intro o _ _ _ ho _ _ _ _ h
    rw [List.cons_append, flatGroups, ho] at h
    cases h

theorem paramItems_flat {inner : Input} (h : ∀ p ∈ inner, p.token ∉ partingTokens) {c : Placed}
    (hc : c.token = .rparen) (params : List String) (current : String) :
    ∃ params', ∀ rest, paramItems params current (inner ++ c :: rest) = .ok params' rest := by
  induction inner generalizing params current with
  | nil =>
    refine ⟨if current.isEmpty then params else params ++ [current], fun rest => ?_⟩
    rw [List.nil_append, paramItems]
    simp only [hc]
  | cons p ps ih =>
    obtain ⟨hp, hps⟩ := List.forall_mem_cons.1 h
    obtain ⟨t, line⟩ := p
    cases t with
    | lparen | rparen | semicolon | endOfText => simp [partingTokens] at hp
    | _ => exact ih hps _ _

theorem flatGroups_tail {p : Placed} {ps : Input} {name : String}
    (hname : p.token.nameText? = some name) (h : flatGroups false (p :: ps)) :
    flatGroups false ps := by
  obtain ⟨t, line⟩ := p
  cases t with
  | ident | quotedIdent => exact h
  | keyword k =>
    have hk : k.nameText? = some name := hname
    rw [flatGroups] at h
    simp only [hk] at h
    exact h
  | _ => cases hname

/-- **A part of a type** is read and the type goes on within its item, or it ends here. -/
inductive TypePart (c : ColumnDef) (q : Placed) (rest : Input) : Prop
  | goesOn (c' : ColumnDef) {us : Input} (hsuffix : us <:+ rest) (hus : Chunk us)
    (hflat : flatGroups false us) (hreads : ∀ p more, EndsItem p →
      typeTail c (q :: rest ++ p :: more) = typeTail c' (us ++ p :: more))
  | ends (hreads : ∀ more, typeTail c (q :: more) = .ok c (q :: more))

section
variable {line : Nat} {rest : Input} (c : ColumnDef)

theorem typePart_word {word : String} (h : Chunk (⟨.ident word, line⟩ :: rest))
    (hflat : flatGroups false rest) : TypePart c ⟨.ident word, line⟩ rest := by
  have hrest := keptBehind_chunk h (by simp)
  by_cases hword : isTypeContinuation word
  · refine .goesOn { c with typeName := c.typeName ++ " " ++ word } (List.suffix_refl rest) hrest
      hflat fun p more _ => ?_
    rw [List.cons_append, typeTail]
    exact if_pos hword
  by_cases hsign : Token.isWord (.ident word) "unsigned" || Token.isWord (.ident word) "signed"
  · refine .goesOn c (List.suffix_refl rest) hrest hflat fun p more _ => ?_
    rw [List.cons_append, typeTail]
    dsimp only
    rw [if_neg hword, if_pos hsign]
  · refine .ends fun more => ?_
    rw [typeTail]
    dsimp only
    rw [if_neg hword, if_neg hsign]

theorem typePart_dot (h : Chunk (⟨.dot, line⟩ :: rest)) (hflat : flatGroups false rest) :
    TypePart c ⟨.dot, line⟩ rest := by
  have hrest := keptBehind_chunk h (by simp)
  cases rest with
  | nil =>
    refine .goesOn c List.nil_suffix .nil rfl fun p more hp => ?_
    rw [List.cons_append, typeTail]
    simp only [List.nil_append, nextToken, hp.isMark.nameText?]
  | cons q rest =>
    cases hq : q.token.nameText? with
    | some part =>
      refine .goesOn { c with typeName := part } (List.suffix_cons _ _)
        (keptBehind_chunk.name hrest hq) (flatGroups_tail hq hflat) fun p more _ => ?_
      rw [List.cons_append, List.cons_append, typeTail]
      simp only [nextToken, hq, List.tail_cons]
    | none =>
      refine .goesOn c (List.suffix_refl _) hrest hflat fun p more _ => ?_
      rw [List.cons_append, List.cons_append, typeTail]
      simp only [nextToken, hq]

theorem typePart_params (h : Chunk (⟨.lparen, line⟩ :: rest))
    (hflat : flatGroups false (⟨.lparen, line⟩ :: rest)) : TypePart c ⟨.lparen, line⟩ rest := by
  by_cases hparams : c.params.isEmpty
  · obtain ⟨inner, close, ps, rfl, hin, hc, hps⟩ := h.inside rfl
    obtain ⟨hinner, hflat'⟩ := flatGroups_inside hin hc hflat
    obtain ⟨params, hreads⟩ := paramItems_flat hinner hc [] ""
    refine .goesOn { c with params } ⟨inner ++ [close], by simp⟩ hps hflat' fun p more _ => ?_
    rw [List.cons_append, List.append_assoc, List.cons_append, typeTail_lparen rfl hparams, hreads]
    rfl
  · refine .ends fun more => ?_
    rw [typeTail]
    exact if_neg hparams

theorem typePart {q : Placed} (h : Chunk (q :: rest)) (hflat : flatGroups false (q :: rest)) :
    TypePart c q rest := by
  obtain ⟨t, line⟩ := q
  cases t with
  | ident word => exact typePart_word c h hflat
  | dot => exact typePart_dot c h hflat
  | lparen => exact typePart_params c h hflat
  | arraySuffix =>
    refine .goesOn { c with typeName := c.typeName ++ "[]" } (List.suffix_refl rest)
      (keptBehind_chunk h (by simp)) hflat fun p more _ => ?_
    rw [List.cons_append, typeTail]
  | _ => exact .ends fun more => by rw [typeTail]

end

theorem typeTail_within {ts : Input} (h : Chunk ts) (hflat : flatGroups false ts) (c : ColumnDef) :
    Within (typeTail c) ts := by
  generalize hlen : ts.length = len
  induction len using Nat.strongRecOn generalizing ts c with
  | ind len ih =>
    cases ts with
    | nil =>
      refine within_ok (a := c) (List.suffix_refl _) h fun p more hp => ?_
      obtain ⟨t, line⟩ := p
      rw [List.nil_append, typeTail]
      rcases hp with rfl | rfl <;> rfl
    | cons q rest =>
      cases typePart c h hflat with
      | goesOn c' hsuffix hus hflat hreads =>
        have hshort := hsuffix.length_le
        exact (ih _ (by simp at hlen; omega) hus hflat _ rfl).of_eq
          (hsuffix.trans (List.suffix_cons q rest)) hreads
      | ends hreads => exact within_ok (List.suffix_refl _) h fun _ _ _ => hreads _

theorem dataType_within {ts : Input} (h : Chunk ts) (hflat : flatGroups false ts) (c : ColumnDef) :
    Within (dataType c) ts := by
  cases ts with
  | nil =>
    refine within_ok (a := c) (List.suffix_refl _) h fun p more hp => ?_
    obtain ⟨t, line⟩ := p
    rcases hp with rfl | rfl <;> rfl
  | cons p rest =>
    have hrest : rest <:+ p :: rest := List.suffix_cons _ _
    have none (hts : ∀ more, dataType c (p :: rest ++ more) = .ok c (p :: rest ++ more)) :
        Within (dataType c) (p :: rest) := within_ok (List.suffix_refl _) h fun _ _ _ => hts _
    obtain ⟨t, line⟩ := p
    cases t with
    | keyword k =>
      cases k with
      | enum =>
        exact ((stringList_within (h.tail nofun).2.2).map fun values =>
          { c with typeName := "enum", inlineValues := some values }).of_eq hrest fun _ _ _ => rfl
      | _ => exact none fun _ => rfl
    | ident t | quotedIdent t =>
      exact (typeTail_within (h.tail nofun).2.2 hflat { c with typeName := t }).of_eq hrest
        fun _ _ _ => rfl
    | _ => exact none fun _ => rfl

/-! ## Modifiers -/

section
variable {ts : Input} (h : Chunk ts)
include h

/-- A token that may come next is passed over, and noted. -/
theorem within_noted {α : Type} {P : Token → Prop} [DecidablePred P]
    (hP : ∀ t, P t → ¬ IsMark t ∧ t ≠ .lparen) (a b : α) :
    Within (fun ts => if P (nextToken ts) then .ok a ts.tail else .ok b ts) ts := by
  cases ts with
  | nil =>
    exact within_ok (List.suffix_refl _) h fun p more hp =>
      if_neg fun hmark => (hP p.token hmark).1 hp.isMark
  | cons q rest =>
    by_cases hq : P q.token
    · exact within_ok (List.suffix_cons _ _) (h.tail (hP _ hq).2).2.2 fun _ _ _ => if_pos hq
    · exact within_ok (List.suffix_refl _) h fun _ _ _ => if_neg hq

/-- `KEY` may come next. -/
theorem skipKey_within {α : Type} (a : α) :
    Within (fun ts => .ok a (skipToken ts (.keyword .key))) ts :=
  within_pair (f := fun ts => (a, skipToken ts (.keyword .key)))
    (skipToken_suffix ts (.keyword .key)) (keptBehind_chunk.skipToken h (by decide)) fun _ more hp =>
      congrArg (a, ·) (skipToken_mark hp.isMark more (by decide) ts)

theorem modifier_within (c : ColumnDef) {t : Token} (ht : t ≠ .lparen) :
    Within (modifier c t) ts := by
  cases t with
  | keyword k =>
    cases k with
    | primary | unique => exact skipKey_within h _
    | not =>
      refine within_noted (P := (· = .keyword .null)) h ?_ _ _
      rintro _ rfl
      decide
    | auto =>
      refine within_noted (P := (· = .keyword .increment)) h ?_ _ _
      rintro _ rfl
      decide
    | on =>
      refine within_noted (P := fun t => t = .keyword .update ∨ t = .keyword .delete) h ?_ c c
      rintro _ (rfl | rfl) <;> decide
    | default => exact (defaultValue_within h).map fun d => { c with defaultValue := some d }
    | references => exact (reference_within h).map fun r => { c with reference := some r }
    | increment => exact within_ok (List.suffix_refl _) h fun _ _ _ => rfl
    | check => exact check_within h c
    | «constraint» =>
      exact within_pair (f := fun ts => (c, skipName ts)) (skipName_suffix ts)
        (keptBehind_chunk.skipName h)
        fun _ more hp => congrArg (c, ·) (skipName_mark hp.isMark more ts)
    | _ => exact within_ok (List.suffix_refl _) h fun _ _ _ => rfl
  | lparen => exact absurd rfl ht
  | _ => exact within_ok (List.suffix_refl _) h fun _ _ _ => rfl

theorem modifiers_within (c : ColumnDef) : Within (modifiers c) ts := by
  generalize hlen : ts.length = len
  induction len using Nat.strongRecOn generalizing ts c with
  | ind len ih =>
    cases ts with
    | nil =>
      refine within_ok (a := c) (List.suffix_refl _) h fun p more hp => ?_
      rw [List.nil_append, modifiers, if_pos]
      rcases hp with hp | hp <;> simp [hp]
    | cons q rest =>
      by_cases hq : q.token = .lparen
      · obtain ⟨inner, close, ps, rfl, hin, hc, hps⟩ := h.inside hq
        apply (ih ps.length (by simp at hlen; omega) hps c rfl).of_eq
          ⟨q :: (inner ++ [close]), by simp⟩
        intro p more _
        rw [List.cons_append, List.append_assoc, List.cons_append, modifiers_cons h.goes, hq]
        show (Step.ok c (closeParens 0 _)).bind modifiers = _
        rw [closeParens_close hin hc]
        rfl
      · have hreads := (modifier_within (h.tail hq).2.2 c hq).bind fun c us hus hchunk =>
          ih us.length (by have := hus.length_le; simp at hlen; omega) hchunk c rfl
        exact hreads.of_eq (List.suffix_cons _ _) fun p more _ => modifiers_cons h.goes c _

end

/-! ## Columns -/

/-- What a column is called does not change. -/
def KeepsName (c : ColumnDef) (s : Step ColumnDef) : Prop :=
  ∀ c', s.result = .ok c' → c'.name = c.name

theorem column_keepsName (name : String) (ts : Input) : KeepsName { name } (column name ts) := by
  intro c h
  obtain ⟨typed, htype, h⟩ := Step.of_bind_ok h
  obtain ⟨typeName, params, inlineValues, rfl⟩ := dataType_reads htype
  exact modifiers_keep (P := fun c => c.name = name) (fun hsets => (ModifierSets.name hsets).trans)
    h rfl

/-- The modifiers end with the column. -/
theorem modifiers_end (c : ColumnDef) (ts : Input) {c' : ColumnDef}
    (h : (modifiers c ts).result = .ok c') :
    nextToken (modifiers c ts).rest ∈ [Token.comma, .rparen, .semicolon, .endOfText] := by
  fun_induction modifiers c ts with
  | case1 =>
    show Token.endOfText ∈ _
    decide
  | case2 c p rest hp => exact hp
  | case3 c p rest _ c' rest' _ ih => exact ih h
  | case4 => cases h

theorem column_end {name : String} {ts : Input} {c : ColumnDef}
    (h : (column name ts).result = .ok c) :
    nextToken (column name ts).rest ∈ [Token.comma, .rparen, .semicolon, .endOfText] := by
  unfold column Step.bind at h ⊢
  split at h
  · exact modifiers_end _ _ h
  · cases h

/-- **A column is read to the end of its item.** -/
theorem column_reads {ts : Input} (h : Chunk ts) (hflat : flatGroups false ts) (name : String) :
    (∃ c : ColumnDef, c.name = name ∧
      ∀ p more, EndsItem p → column name (ts ++ p :: more) = .ok c (p :: more)) ∨
      ∀ p more, EndsItem p → ∃ e rest, column name (ts ++ p :: more) = .fail e rest := by
  have hreads : Within (column name) ts :=
    (dataType_within h hflat { name }).bind fun c us _ hus => modifiers_within hus c
  refine hreads.imp_left ?_
  rintro ⟨c, us, -, hus, hc⟩
  have hclose := hc ⟨.rparen, 0⟩ [] (.inr rfl)
  have hname := column_keepsName name (ts ++ [⟨.rparen, 0⟩])
  have hend := column_end (congrArg Step.result hclose)
  rw [hclose] at hname hend
  refine ⟨c, hname c rfl, ?_⟩
  cases us with
  | nil => exact hc
  | cons q us => exact absurd hend hus.goes

/-! ## Unique columns -/

theorem uniqueColumns_within {ts : Input} (h : Chunk ts) : Within uniqueColumns ts := by
  have named {us : Input} (hus : us <:+ ts) (hchunk : Chunk us)
      (hts : ∀ p more, EndsItem p → uniqueColumns (ts ++ p :: more) =
        columnList (skipName (us ++ p :: more))) : Within uniqueColumns ts := by
    apply (columnList_within (keptBehind_chunk.skipName hchunk)).of_eq
      ((skipName_suffix us).trans hus)
    intro p more hp
    rw [hts p more hp, skipName_mark hp.isMark]
  cases ts with
  | nil =>
    refine named (List.suffix_refl _) h fun p more hp => ?_
    obtain ⟨t, line⟩ := p
    rcases hp with rfl | rfl <;> rfl
  | cons q rest =>
    obtain ⟨t, line⟩ := q
    cases t with
    | keyword k =>
      cases k with
      | key | index => exact named (List.suffix_cons _ _) (h.tail nofun).2.2 fun _ _ _ => rfl
      | _ => exact named (List.suffix_refl _) h fun _ _ _ => rfl
    | _ => exact named (List.suffix_refl _) h fun _ _ _ => rfl

end DdlGraph.Sql
