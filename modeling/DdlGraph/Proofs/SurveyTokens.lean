import DdlGraph.Proofs.Parentheses
import DdlGraph.Proofs.Verdict
import Mathlib.Data.List.Forall2

/-!
# What a survey finds in a script

A script of tables and indexes whose tokens are known: where a survey splits it, and what it notes.
The tokens behind the first word of a type never look like another column, so what is reported is
just what is there twice.

* `Balanced`, `ItemTail`: how the tokens of a statement and of an item are split;
* `ItemSays`, `foldl_item`: the columns of a table, whose titles have to be different;
* `StatementSays`, `foldl_statement`: the tables of a script, whose names have to be different;
* `checkTokens_script`: when such a script is valid.
-/

namespace DdlGraph.Check

open DdlGraph.Sql

/-! ## Balanced tokens -/

/-- Tokens that part statements or open and close lists. -/
def partingTokens : List Token :=
  [.lparen, .rparen, .semicolon, .endOfText]

/-- **Balanced tokens**: parentheses stand in pairs, and no statement ends. -/
inductive Balanced : List Token → Prop
  | nil : Balanced []
  | token {t : Token} {ts : List Token} (ht : t ∉ partingTokens) (h : Balanced ts) :
    Balanced (t :: ts)
  | parens {inner ts : List Token} (hin : Balanced inner) (h : Balanced ts) :
    Balanced (.lparen :: (inner ++ .rparen :: ts))

theorem Balanced.append {ts us : List Token} (h : Balanced ts) (h' : Balanced us) :
    Balanced (ts ++ us) := by
  induction h with
  | nil => exact h'
  | token ht _ ih => exact .token ht ih
  | parens hin _ _ ih =>
    rw [List.cons_append, List.append_assoc]
    exact .parens hin ih

theorem Balanced.intercalate {marks : List Token} (hm : Balanced marks) {tss : List (List Token)}
    (h : ∀ ts ∈ tss, Balanced ts) : Balanced (marks.intercalate tss) := by
  induction tss with
  | nil => exact .nil
  | cons ts tss ih =>
    cases tss with
    | nil =>
      rw [List.intercalate_singleton]
      exact h ts (.head _)
    | cons us tss =>
      rw [List.intercalate_cons_cons]
      exact ((h ts (.head _)).append hm).append (ih fun us hus => h us (.tail _ hus))

/-! ### Splitting -/

section
variable {p : Placed} (hp : p.token ∉ partingTokens)
include hp

theorem splitStatements_token (read : List Placed) (depth : Nat) (rest : List Placed) :
    splitStatements read depth (p :: rest) = splitStatements (p :: read) depth rest := by
  simp only [partingTokens, List.mem_cons, List.not_mem_nil, or_false, not_or] at hp
  obtain ⟨hopen, hclose, hsemi, hend⟩ := hp
  rw [splitStatements]
  split
  all_goals first | rfl | contradiction

theorem splitItems_token (hcomma : p.token ≠ .comma) (read : List Placed) (depth : Nat)
    (rest : List Placed) :
    splitItems read depth (p :: rest) = splitItems (p :: read) depth rest := by
  simp only [partingTokens, List.mem_cons, List.not_mem_nil, or_false, not_or] at hp
  obtain ⟨hopen, hclose, -, -⟩ := hp
  rw [splitItems.eq_def]
  dsimp only
  split
  all_goals first | rfl | contradiction

theorem splitItems_inside (read : List Placed) (depth : Nat) (rest : List Placed) :
    splitItems read (depth + 1) (p :: rest) = splitItems (p :: read) (depth + 1) rest := by
  by_cases hcomma : p.token = .comma
  · rw [splitItems, hcomma]
    exact if_neg (Nat.succ_ne_zero depth)
  · exact splitItems_token hp hcomma read (depth + 1) rest

theorem parenFindings_token (opened : List Nat) (rest : List Placed) :
    parenFindings opened (p :: rest) = parenFindings opened rest := by
  simp only [partingTokens, List.mem_cons, List.not_mem_nil, or_false, not_or] at hp
  exact parenFindings_of_ne hp.1 hp.2.1 opened rest

end

section
variable {ts : List Token} (h : Balanced ts) {ps : List Placed} (hps : ps.map (·.token) = ts)
include h hps

theorem Balanced.splitStatements (read : List Placed) (depth : Nat) (rest : List Placed) :
    splitStatements read depth (ps ++ rest) = splitStatements (ps.reverse ++ read) depth rest := by
  induction h generalizing ps read depth rest with
  | nil =>
    rw [List.map_eq_nil_iff.1 hps]
    rfl
  | token ht _ ih =>
    obtain ⟨p, qs, rfl, rfl, hqs⟩ := List.map_eq_cons_iff.1 hps
    rw [List.cons_append, splitStatements_token ht, ih hqs, List.reverse_cons, List.append_assoc]
    rfl
  | parens _ _ ihin ih =>
    obtain ⟨p, qs, rfl, hp, hqs⟩ := List.map_eq_cons_iff.1 hps
    obtain ⟨inner, more, rfl, hinner, hmore⟩ := List.map_eq_append_iff.1 hqs
    obtain ⟨q, more, rfl, hq, hmore⟩ := List.map_eq_cons_iff.1 hmore
    have hclose : splitStatements (inner.reverse ++ p :: read) (depth + 1) (q :: (more ++ rest)) =
        splitStatements (q :: (inner.reverse ++ p :: read)) depth (more ++ rest) := by
      rw [Check.splitStatements, hq]
      rfl
    rw [List.cons_append, Check.splitStatements, hp]
    dsimp only
    rw [List.append_assoc, ihin hinner, List.cons_append, hclose, ih hmore]
    simp

theorem Balanced.splitItems (read : List Placed) (depth : Nat) (rest : List Placed) :
    splitItems read (depth + 1) (ps ++ rest) = splitItems (ps.reverse ++ read) (depth + 1) rest := by
  induction h generalizing ps read depth rest with
  | nil =>
    rw [List.map_eq_nil_iff.1 hps]
    rfl
  | token ht _ ih =>
    obtain ⟨p, qs, rfl, rfl, hqs⟩ := List.map_eq_cons_iff.1 hps
    rw [List.cons_append, splitItems_inside ht, ih hqs, List.reverse_cons, List.append_assoc]
    rfl
  | parens _ _ ihin ih =>
    obtain ⟨p, qs, rfl, hp, hqs⟩ := List.map_eq_cons_iff.1 hps
    obtain ⟨inner, more, rfl, hinner, hmore⟩ := List.map_eq_append_iff.1 hqs
    obtain ⟨q, more, rfl, hq, hmore⟩ := List.map_eq_cons_iff.1 hmore
    have hclose : splitItems (inner.reverse ++ p :: read) (depth + 1 + 1) (q :: (more ++ rest)) =
        splitItems (q :: (inner.reverse ++ p :: read)) (depth + 1) (more ++ rest) := by
      rw [Check.splitItems, hq]
    rw [List.cons_append, Check.splitItems, hp]
    dsimp only
    rw [List.append_assoc, ihin hinner, List.cons_append, hclose, ih hmore]
    simp

theorem Balanced.parenFindings (opened : List Nat) (rest : List Placed) :
    parenFindings opened (ps ++ rest) = parenFindings opened rest := by
  induction h generalizing ps opened rest with
  | nil =>
    rw [List.map_eq_nil_iff.1 hps]
    rfl
  | token ht _ ih =>
    obtain ⟨p, qs, rfl, rfl, hqs⟩ := List.map_eq_cons_iff.1 hps
    rw [List.cons_append, parenFindings_token ht, ih hqs]
  | parens _ _ ihin ih =>
    obtain ⟨p, qs, rfl, hp, hqs⟩ := List.map_eq_cons_iff.1 hps
    obtain ⟨inner, more, rfl, hinner, hmore⟩ := List.map_eq_append_iff.1 hqs
    obtain ⟨q, more, rfl, hq, hmore⟩ := List.map_eq_cons_iff.1 hmore
    have hclose : parenFindings (p.line :: opened) (q :: (more ++ rest)) =
        parenFindings opened (more ++ rest) := by
      rw [Check.parenFindings.eq_def]
      simp only [hq]
    rw [List.cons_append, Check.parenFindings.eq_def]
    simp only [hp]
    rw [List.append_assoc, ihin hinner, List.cons_append, hclose, ih hmore]

end

/-! ## Items -/

/-- The words and marks behind the type of a column. -/
def tailTokens : List Token :=
  [.arraySuffix, .ident "PRECISION", .keyword .not, .keyword .null, .keyword .unique,
    .keyword .primary, .keyword .key, .keyword .increment]

/-- What stands in a list of names or lengths. -/
def isListed : Token → Bool
  | .comma | .num _ | .ident _ | .quotedIdent _ => true
  | _ => false

/-- **Tail of an item**: words and marks, and lists in parentheses. -/
inductive ItemTail : List Token → Prop
  | nil : ItemTail []
  | token {t : Token} {ts : List Token} (ht : t ∈ tailTokens) (h : ItemTail ts) : ItemTail (t :: ts)
  | parens {inner ts : List Token} (hin : inner.all isListed = true) (h : ItemTail ts) :
    ItemTail (.lparen :: (inner ++ .rparen :: ts))

theorem ItemTail.append {ts us : List Token} (h : ItemTail ts) (h' : ItemTail us) :
    ItemTail (ts ++ us) := by
  induction h with
  | nil => exact h'
  | token ht _ ih => exact .token ht ih
  | parens hin _ ih =>
    rw [List.cons_append, List.append_assoc]
    exact .parens hin ih

theorem ItemTail.flatten {tss : List (List Token)} (h : ∀ ts ∈ tss, ItemTail ts) :
    ItemTail tss.flatten := by
  induction tss with
  | nil => exact .nil
  | cons ts tss ih => exact (h ts (.head _)).append (ih fun us hus => h us (.tail _ hus))

theorem not_parting_of_tail {t : Token} (h : t ∈ tailTokens) :
    t ≠ .comma ∧ t ∉ partingTokens := by
  have hall : ∀ t ∈ tailTokens, t ≠ Token.comma ∧ t ∉ partingTokens := by decide
  exact hall t h

theorem not_parting_of_listed {t : Token} (h : isListed t = true) : t ∉ partingTokens := by
  cases t <;> simp_all [isListed, partingTokens]

theorem balanced_of_listed {inner : List Token} (h : inner.all isListed = true) :
    Balanced inner := by
  induction inner with
  | nil => exact .nil
  | cons t inner ih =>
    rw [List.all_cons, Bool.and_eq_true] at h
    exact .token (not_parting_of_listed h.1) (ih h.2)

theorem ItemTail.balanced {ts : List Token} (h : ItemTail ts) : Balanced ts := by
  induction h with
  | nil => exact .nil
  | token ht _ ih => exact .token (not_parting_of_tail ht).2 ih
  | parens hin _ ih => exact .parens (balanced_of_listed hin) ih

/-- An item goes on behind its tail. -/
theorem ItemTail.splitItems {ts : List Token} (h : ItemTail ts) {ps : List Placed}
    (hps : ps.map (·.token) = ts) (read rest : List Placed) :
    splitItems read 0 (ps ++ rest) = splitItems (ps.reverse ++ read) 0 rest := by
  induction h generalizing ps read rest with
  | nil =>
    rw [List.map_eq_nil_iff.1 hps]
    rfl
  | token ht _ ih =>
    obtain ⟨p, qs, rfl, rfl, hqs⟩ := List.map_eq_cons_iff.1 hps
    obtain ⟨hcomma, hparting⟩ := not_parting_of_tail ht
    rw [List.cons_append, splitItems_token hparting hcomma, ih hqs, List.reverse_cons,
      List.append_assoc]
    rfl
  | parens hin _ ih =>
    obtain ⟨p, qs, rfl, hp, hqs⟩ := List.map_eq_cons_iff.1 hps
    obtain ⟨inner, more, rfl, hinner, hmore⟩ := List.map_eq_append_iff.1 hqs
    obtain ⟨q, more, rfl, hq, hmore⟩ := List.map_eq_cons_iff.1 hmore
    have hclose : Check.splitItems (inner.reverse ++ p :: read) 1 (q :: (more ++ rest)) =
        Check.splitItems (q :: (inner.reverse ++ p :: read)) 0 (more ++ rest) := by
      rw [Check.splitItems, hq]
    rw [List.cons_append, Check.splitItems, hp]
    dsimp only
    rw [List.append_assoc, (balanced_of_listed hin).splitItems hinner, List.cons_append, hclose,
      ih hmore]
    simp

/-! ### Missing commas -/

/-- No type comes next in the tail of an item. -/
theorem ItemTail.isTypeNext {ts : List Token} (h : ItemTail ts) {ps : List Placed}
    (hps : ps.map (·.token) = ts) : Survey.isTypeNext [] ps = false := by
  have hall : ∀ t ∈ tailTokens, Survey.isTypeNext [] [⟨t, 0⟩] = false := by decide
  cases h with
  | nil =>
    rw [List.map_eq_nil_iff.1 hps]
    rfl
  | token ht _ =>
    obtain ⟨⟨t, line⟩, qs, rfl, rfl, -⟩ := List.map_eq_cons_iff.1 hps
    exact hall t ht
  | parens _ _ =>
    obtain ⟨⟨t, line⟩, qs, rfl, rfl, -⟩ := List.map_eq_cons_iff.1 hps
    rfl

/-- No column begins inside of a list. -/
theorem missingCommas_listed {inner : List Placed} (h : (inner.map (·.token)).all isListed = true)
    (last : Nat) {q : Placed} (hq : q.token = .rparen) (rest : List Placed) :
    Survey.missingCommas [] 1 last (inner ++ q :: rest) =
      Survey.missingCommas [] 0 q.line rest := by
  induction inner generalizing last with
  | nil =>
    rw [List.nil_append, Survey.missingCommas, hq]
  | cons p inner ih =>
    rw [List.map_cons, List.all_cons, Bool.and_eq_true] at h
    rw [List.cons_append, Survey.missingCommas]
    obtain ⟨ht, h⟩ := h
    revert ht
    cases p.token <;> intro ht <;> cases ht <;> simp [ih h]

/-- **No comma is missing** in the tail of an item. -/
theorem ItemTail.missingCommas {ts : List Token} (h : ItemTail ts) {ps : List Placed}
    (hps : ps.map (·.token) = ts) (last : Nat) : Survey.missingCommas [] 0 last ps = [] := by
  induction h generalizing ps last with
  | nil =>
    rw [List.map_eq_nil_iff.1 hps]
    rfl
  | token ht h ih =>
    obtain ⟨p, qs, rfl, rfl, hqs⟩ := List.map_eq_cons_iff.1 hps
    rw [Survey.missingCommas, h.isTypeNext hqs]
    revert ht
    simp only [tailTokens, List.mem_cons, List.not_mem_nil, or_false]
    rintro (ht | ht | ht | ht | ht | ht | ht | ht) <;> simp [ht, ih hqs]
  | parens hin _ ih =>
    obtain ⟨p, qs, rfl, hp, hqs⟩ := List.map_eq_cons_iff.1 hps
    obtain ⟨inner, more, rfl, rfl, hmore⟩ := List.map_eq_append_iff.1 hqs
    obtain ⟨q, more, rfl, hq, hmore⟩ := List.map_eq_cons_iff.1 hmore
    rw [Survey.missingCommas, hp]
    dsimp only
    rw [missingCommas_listed hin _ hq, ih hmore]

/-- The tail of an item refers to nothing. -/
theorem ItemTail.not_references {ts : List Token} (h : ItemTail ts) :
    .keyword .references ∉ ts ∧ .keyword .foreign ∉ ts := by
  have hall : ∀ t ∈ tailTokens, t ≠ .keyword .references ∧ t ≠ .keyword .foreign := by decide
  induction h with
  | nil => exact ⟨List.not_mem_nil, List.not_mem_nil⟩
  | token ht _ ih =>
    exact ⟨List.not_mem_cons_of_ne_of_not_mem (hall _ ht).1.symm ih.1,
      List.not_mem_cons_of_ne_of_not_mem (hall _ ht).2.symm ih.2⟩
  | parens hin _ ih =>
    have hinner : ∀ k, Token.keyword k ∉ _ := fun k hk =>
      Bool.false_ne_true (List.all_eq_true.1 hin _ hk)
    simp [hinner, ih]

theorem noteTarget_of_not_mem {ps : List Placed} (h : .keyword .references ∉ ps.map (·.token))
    (s : Survey) : s.noteTarget ps = s := by
  induction ps with
  | nil => rfl
  | cons p ps ih =>
    rw [List.map_cons, List.mem_cons, not_or] at h
    rw [Survey.noteTarget, if_neg (Ne.symm h.1), ih h.2]

theorem noteKeyTarget_of_not_mem {ps : List Placed} (h : .keyword .foreign ∉ ps.map (·.token))
    (s : Survey) : s.noteKeyTarget ps = s := by
  refine if_neg fun hany => h ?_
  obtain ⟨p, hp, hk⟩ := List.any_eq_true.1 hany
  exact List.mem_map.2 ⟨p, hp, of_decide_eq_true hk⟩

/-! ### What items say -/

/-- **Tokens of an item**, with the title of its column if it is one. -/
inductive ItemSays : Option String → List Token → Prop
  | column {t : Token} {title word : String} {ts : List Token}
    (ht : t = .ident title ∨ t = .quotedIdent title) (h : ItemTail ts) :
    ItemSays (some title) (t :: .ident word :: ts)
  | primaryKey {ts : List Token} (h : ItemTail ts) : ItemSays none (.keyword .primary :: ts)

theorem ItemSays.ne_nil {title : Option String} {ts : List Token} (h : ItemSays title ts) :
    ts ≠ [] := by
  cases h <;> exact List.cons_ne_nil _ _

theorem ItemSays.balanced {title : Option String} {ts : List Token} (h : ItemSays title ts) :
    Balanced ts := by
  cases h with
  | column ht h =>
    rcases ht with rfl | rfl <;>
      exact .token (by simp [partingTokens]) (.token (by simp [partingTokens]) h.balanced)
  | primaryKey h => exact .token (by decide) h.balanced

theorem ItemSays.splitItems {title : Option String} {ts : List Token} (h : ItemSays title ts)
    {ps : List Placed} (hps : ps.map (·.token) = ts) (read rest : List Placed) :
    splitItems read 0 (ps ++ rest) = splitItems (ps.reverse ++ read) 0 rest := by
  have hfirst : ∀ {p : Placed} {qs read : List Placed}, p.token ∉ partingTokens →
      p.token ≠ .comma → Check.splitItems read 0 (p :: qs ++ rest) =
        Check.splitItems (p :: read) 0 (qs ++ rest) :=
    fun hp hcomma => splitItems_token hp hcomma _ 0 _
  cases h with
  | column ht h =>
    obtain ⟨p, qs, rfl, hp, hqs⟩ := List.map_eq_cons_iff.1 hps
    obtain ⟨q, qs, rfl, hq, hqs⟩ := List.map_eq_cons_iff.1 hqs
    have hname : p.token ∉ partingTokens ∧ p.token ≠ .comma := by
      rcases ht with rfl | rfl <;> simp [hp, partingTokens]
    rw [hfirst hname.1 hname.2, hfirst (by simp [hq, partingTokens]) (by simp [hq]),
      h.splitItems hqs]
    simp
  | primaryKey h =>
    obtain ⟨p, qs, rfl, hp, hqs⟩ := List.map_eq_cons_iff.1 hps
    rw [hfirst (by simp [hp, partingTokens]) (by simp [hp]), h.splitItems hqs]
    simp

/-- **The items of a list** are found one by one. -/
theorem splitItems_intercalate {titles : List (Option String)} {tss : List (List Token)}
    (h : List.Forall₂ ItemSays titles tss) {ps : List Placed}
    (hps : ps.map (·.token) = [Token.comma].intercalate tss) {q : Placed} (hq : q.token = .rparen)
    (rest : List Placed) :
    ∃ pss : List (List Placed), splitItems [] 0 (ps ++ q :: rest) = pss ∧
      (pss = [[]] ∧ titles = [] ∨
        List.Forall₂ (fun title ps => ItemSays title (ps.map (·.token))) titles pss) := by
  have hend : ∀ read, Check.splitItems read 0 (q :: rest) = [read.reverse] := by
    intro read
    rw [Check.splitItems, hq]
  induction h generalizing ps with
  | nil =>
    obtain rfl := List.map_eq_nil_iff.1 hps
    exact ⟨_, hend [], .inl ⟨rfl, rfl⟩⟩
  | @cons title ts titles tss hfirst hmore ih =>
    cases hmore with
    | nil =>
      rw [List.intercalate_singleton] at hps
      subst hps
      refine ⟨[ps], ?_, .inr (.cons hfirst .nil)⟩
      rw [hfirst.splitItems rfl, hend, List.append_nil, List.reverse_reverse]
    | cons hnext hmore =>
      rw [List.intercalate_cons_cons, List.append_assoc] at hps
      obtain ⟨first, rest, rfl, rfl, hrest⟩ := List.map_eq_append_iff.1 hps
      obtain ⟨c, more, rfl, hc, hps⟩ := List.map_eq_cons_iff.1 hrest
      obtain ⟨pss, hsplit, hsaid⟩ := ih hps
      refine ⟨first :: pss, ?_, .inr (.cons hfirst ?_)⟩
      · have hcomma : Check.splitItems first.reverse 0 (c :: (more ++ q :: rest)) =
            first :: Check.splitItems [] 0 (more ++ q :: rest) := by
          rw [Check.splitItems, hc]
          dsimp only
          rw [if_pos rfl, List.reverse_reverse]
        rw [List.append_assoc, hfirst.splitItems rfl, List.append_nil, List.cons_append, hcomma,
          hsplit]
      · rcases hsaid with ⟨-, hnone⟩ | hsaid
        · cases hnone
        · exact hsaid

/-- A column is noted, and nothing else happens. -/
theorem item_column {title : String} {ps : List Placed} (table : String)
    (h : ItemSays (some title) (ps.map (·.token))) (r : Survey × List String) :
    ∃ line, Survey.item [] table r ps = if r.2.contains (Text.lower title) then
      (r.1.report line (.duplicateColumn title table), r.2) else (r.1, Text.lower title :: r.2) := by
  generalize hts : ps.map (·.token) = ts at h
  cases h with | column ht htail =>
  obtain ⟨p, qs, rfl, hp, hqs⟩ := List.map_eq_cons_iff.1 hts
  obtain ⟨q, qs, rfl, hq, hqs⟩ := List.map_eq_cons_iff.1 hqs
  have hword : Survey.isConstraintWord p.token = false := by
    rcases ht with rfl | rfl <;> rw [hp] <;> rfl
  have hname : p.token.nameText? = some title := by
    rcases ht with rfl | rfl <;> rw [hp] <;> rfl
  have hcommas : Survey.missingCommas [] 0 p.line (q :: qs) = [] := by
    rw [Survey.missingCommas, hq, htail.isTypeNext hqs, htail.missingCommas hqs]
    simp
  have htarget : ∀ s : Survey, s.noteTarget (p :: q :: qs) = s := by
    refine fun s => noteTarget_of_not_mem ?_ s
    rw [hts]
    rcases ht with rfl | rfl <;> simp [htail.not_references]
  refine ⟨p.line, ?_⟩
  rw [Survey.item, hword, if_neg Bool.false_ne_true]
  simp only [hcommas, List.foldl_nil, List.foldl_cons, htarget]
  rw [Survey.noteColumn]
  simp only [hname]

/-- The primary key of a table is passed over. -/
theorem item_primaryKey {table : String} {ps : List Placed}
    (h : ItemSays none (ps.map (·.token))) (r : Survey × List String) :
    Survey.item [] table r ps = r := by
  generalize hts : ps.map (·.token) = ts at h
  cases h with | primaryKey htail =>
  obtain ⟨p, qs, rfl, hp, hqs⟩ := List.map_eq_cons_iff.1 hts
  have hkey : r.1.noteKeyTarget (p :: qs) = r.1 := by
    refine noteKeyTarget_of_not_mem ?_ r.1
    rw [hts]
    simp [htail.not_references]
  have hword : Survey.isConstraintWord p.token = true := by rw [hp]; rfl
  rw [Survey.item, hword, if_pos rfl, hkey]

/-- **The items of a table**: there is nothing to find exactly if all titles are different, case
left aside. -/
theorem foldl_item (table : String) {titles : List (Option String)} {pss : List (List Placed)}
    (h : List.Forall₂ (fun title ps => ItemSays title (ps.map (·.token))) titles pss)
    (s : Survey) {known : List String} (hknown : known.Nodup) :
    ∃ fs known', pss.foldl (Survey.item [] table) (s, known) =
        ({ s with findings := s.findings ++ fs }, known') ∧
      (fs = [] ↔ ((titles.filterMap id).map Text.lower ++ known).Nodup) := by
  induction h generalizing s known with
  | nil => exact ⟨[], known, by simp, by simpa using hknown⟩
  | @cons title ps titles pss hitem _ ih =>
    rw [List.foldl_cons]
    cases title with
    | none =>
      rw [item_primaryKey hitem]
      exact ih s hknown
    | some title =>
      obtain ⟨line, hstep⟩ := item_column table hitem (s, known)
      rw [hstep]
      by_cases hmem : Text.lower title ∈ known
      · obtain ⟨fs, known', hfold, -⟩ := ih (s.report line (.duplicateColumn title table)) hknown
        refine ⟨⟨some line, .duplicateColumn title table⟩ :: fs, known', ?_, ?_⟩
        · rw [if_pos (List.contains_iff_mem.2 hmem), hfold]
          simp [Survey.report]
        · simp [hmem]
      · obtain ⟨fs, known', hfold, hiff⟩ := ih s (List.nodup_cons.2 ⟨hmem, hknown⟩)
        refine ⟨fs, known', ?_, ?_⟩
        · rw [if_neg (mt List.contains_iff_mem.1 hmem), hfold]
        · rw [hiff]
          exact List.perm_middle.nodup_iff

/-! ## Statements -/

/-- The tokens before the name of a table. -/
def createTableTokens : List Token :=
  [.keyword .create, .keyword .table, .keyword .if, .keyword .not, .keyword .exists]

/-- **Tokens of a statement**, with the name and the items of its table if it is one. -/
inductive StatementSays : Option (String × List (Option String)) → List Token → Prop
  | table {t : Token} {name : String} {titles : List (Option String)} {tss : List (List Token)}
    (ht : t = .ident name ∨ t = .quotedIdent name) (h : List.Forall₂ ItemSays titles tss) :
    StatementSays (some (name, titles))
      (createTableTokens ++ t :: .lparen :: ([Token.comma].intercalate tss ++ [.rparen]))
  | index {ts : List Token} (hb : Balanced ts) (h : .keyword .table ∉ ts) :
    StatementSays none (.keyword .create :: .keyword .index :: ts)

theorem StatementSays.balanced {defined : Option (String × List (Option String))} {ts : List Token}
    (h : StatementSays defined ts) : Balanced ts := by
  cases h with
  | table ht h =>
    have hitems : ∀ {titles : List (Option String)} {tss : List (List Token)},
        List.Forall₂ ItemSays titles tss → ∀ ts ∈ tss, Balanced ts := by
      intro titles tss h
      induction h with
      | nil => exact fun ts hts => absurd hts List.not_mem_nil
      | cons hi _ ih => exact List.forall_mem_cons.2 ⟨hi.balanced, ih⟩
    have hcomma : Balanced [Token.comma] := .token (by decide) .nil
    have hstart : Balanced createTableTokens :=
      .token (by decide) (.token (by decide) (.token (by decide) (.token (by decide)
        (.token (by decide) .nil))))
    refine hstart.append (.token ?_ (.parens (hcomma.intercalate (hitems h)) .nil))
    rcases ht with rfl | rfl <;> simp [partingTokens]
  | index hb _ => exact .token (by decide) (.token (by decide) hb)

/-- No statement declares an enumeration. -/
theorem StatementSays.declaredEnum? {defined : Option (String × List (Option String))}
    {ps : List Placed} (h : StatementSays defined (ps.map (·.token))) : declaredEnum? ps = none := by
  obtain ⟨p, q, qs, rfl, hq⟩ : ∃ p q qs, ps = p :: q :: qs ∧ q.token ≠ .keyword .type := by
    generalize hts : ps.map (·.token) = ts at h
    cases h with
    | table _ _ =>
      obtain ⟨p, qs, rfl, -, hqs⟩ := List.map_eq_cons_iff.1 hts
      obtain ⟨q, qs, rfl, hq, -⟩ := List.map_eq_cons_iff.1 hqs
      exact ⟨p, q, qs, rfl, by rw [hq]; decide⟩
    | index _ _ =>
      obtain ⟨p, qs, rfl, -, hqs⟩ := List.map_eq_cons_iff.1 hts
      obtain ⟨q, qs, rfl, hq, -⟩ := List.map_eq_cons_iff.1 hqs
      exact ⟨p, q, qs, rfl, by rw [hq]; decide⟩
  unfold Check.declaredEnum?
  split
  · rename_i hlist
    obtain ⟨-, rfl, -⟩ : p = _ ∧ q = _ ∧ qs = _ := by simpa using hlist
    exact if_neg fun h => hq h.2
  · rfl

/-- Indexes are passed over. -/
theorem statement_index {ps : List Placed} (h : StatementSays none (ps.map (·.token)))
    (s : Survey) : Survey.statement [] s ps = s := by
  generalize hts : ps.map (·.token) = ts at h
  cases h with | index _ htable =>
  obtain ⟨p, qs, rfl, hp, hqs⟩ := List.map_eq_cons_iff.1 hts
  obtain ⟨q, qs, rfl, hq, rfl⟩ := List.map_eq_cons_iff.1 hqs
  have hcreates : createsTable (p :: q :: qs) = false := by
    refine Bool.eq_false_iff.2 fun hany => htable ?_
    obtain ⟨x, hx, hk⟩ := List.any_eq_true.1 hany
    have hmem : x ∈ q :: qs := List.mem_of_mem_take ((List.takeWhile_sublist _).subset hx)
    rcases List.mem_cons.1 hmem with rfl | hmem
    · rw [hq] at hk
      exact absurd hk (by decide)
    · exact List.mem_map.2 ⟨x, hmem, of_decide_eq_true hk⟩
  rw [Survey.statement, hp, hcreates, if_neg (by simp), if_neg (by decide)]

/-- A table is noted with its columns, unless there is one under its name. -/
theorem statement_table {name : String} {titles : List (Option String)} {ps : List Placed}
    (h : StatementSays (some (name, titles)) (ps.map (·.token))) (s : Survey) :
    ∃ line known fs, (fs = [] ↔ ((titles.filterMap id).map Text.lower).Nodup) ∧
      Survey.statement [] s ps = if (s.tables.lookup (Text.lower name)).isSome then
        s.report line (.duplicateTable name)
      else { s with
        tables := s.tables ++ [(Text.lower name, known)]
        findings := s.findings ++ fs } := by
  generalize hts : ps.map (·.token) = ts at h
  cases h with | @table t _ _ tss ht hitems =>
  obtain ⟨p, qs, rfl, hp, hqs⟩ := List.map_eq_cons_iff.1 hts
  obtain ⟨p₁, qs, rfl, hp₁, hqs⟩ := List.map_eq_cons_iff.1 hqs
  obtain ⟨p₂, qs, rfl, hp₂, hqs⟩ := List.map_eq_cons_iff.1 hqs
  obtain ⟨p₃, qs, rfl, hp₃, hqs⟩ := List.map_eq_cons_iff.1 hqs
  obtain ⟨p₄, qs, rfl, hp₄, hqs⟩ := List.map_eq_cons_iff.1 hqs
  obtain ⟨n, qs, rfl, hn, hqs⟩ := List.map_eq_cons_iff.1 hqs
  obtain ⟨⟨o, oline⟩, qs, rfl, ho, hlist⟩ := List.map_eq_cons_iff.1 hqs
  obtain rfl : o = .lparen := ho
  obtain ⟨body, close, rfl, hbody, hclose⟩ := List.map_eq_append_iff.1 hlist
  obtain ⟨q, close, rfl, hq, hnil⟩ := List.map_eq_cons_iff.1 hclose
  obtain rfl := List.map_eq_nil_iff.1 hnil
  obtain ⟨pss, hsplit, hpss⟩ := splitItems_intercalate hitems hbody hq []
  obtain ⟨fs, known, hfold, hiff⟩ : ∃ fs known, pss.foldl (Survey.item [] name) (s, []) =
      ({ s with findings := s.findings ++ fs }, known) ∧
        (fs = [] ↔ ((titles.filterMap id).map Text.lower).Nodup) := by
    rcases hpss with ⟨rfl, rfl⟩ | hpss
    · exact ⟨[], [], by simp [Survey.item], by simp⟩
    · obtain ⟨fs, known, hfold, hiff⟩ := foldl_item name hpss s List.nodup_nil
      exact ⟨fs, known, hfold, by rw [hiff, List.append_nil]⟩
  have hcreates : createsTable (p :: p₁ :: p₂ :: p₃ :: p₄ :: n ::
      ⟨.lparen, oline⟩ :: (body ++ [q])) = true := by
    unfold createsTable
    simp [hp₁]
  have hafter : Survey.afterTable (p :: p₁ :: p₂ :: p₃ :: p₄ :: n ::
      ⟨.lparen, oline⟩ :: (body ++ [q])) = n :: ⟨.lparen, oline⟩ :: (body ++ [q]) := by
    unfold Survey.afterTable
    simp [hp, hp₁, hp₂]
  have hname : qualifiedName? (n :: ⟨.lparen, oline⟩ :: (body ++ [q])) =
      some (name, ⟨.lparen, oline⟩ :: (body ++ [q])) := by
    have htext : n.token.nameText? = some name := by
      rcases ht with h | h <;> rw [hn, h] <;> rfl
    rw [qualifiedName?, htext]
    rfl
  refine ⟨p.line, known, fs, hiff, ?_⟩
  rw [Survey.statement, if_pos ⟨hp, hcreates⟩, Survey.table, hafter, hname]
  dsimp only
  rw [hsplit, hfold]

/-- **Statements one after the other**: there is nothing to find exactly if the names of tables, and
the titles in each of them, are different, case left aside. -/
theorem foldl_statement {defs : List (Option (String × List (Option String)))}
    {pss : List (List Placed)}
    (h : List.Forall₂ (fun d ps => StatementSays d (ps.map (·.token))) defs pss) (s : Survey)
    (hs : (s.tables.map (·.1)).Nodup) :
    ∃ fs tables, pss.foldl (Survey.statement []) s =
        { s with tables, findings := s.findings ++ fs } ∧
      (fs = [] ↔
        ((defs.filterMap id).map (fun d => Text.lower d.1) ++ s.tables.map (·.1)).Nodup ∧
          ∀ d ∈ defs.filterMap id, ((d.2.filterMap id).map Text.lower).Nodup) := by
  induction h generalizing s with
  | nil => exact ⟨[], s.tables, by simp, by simpa using hs⟩
  | @cons d ps defs pss hd _ ih =>
    rw [List.foldl_cons]
    cases d with
    | none =>
      rw [statement_index hd]
      exact ih s hs
    | some d =>
      obtain ⟨name, titles⟩ := d
      obtain ⟨line, known, fs, hiff, hstep⟩ := statement_table hd s
      have hlookup : (s.tables.lookup (Text.lower name)).isSome = true ↔
          Text.lower name ∈ s.tables.map (·.1) := by
        rw [Option.isSome_iff_ne_none, Ne, List.lookup_eq_none_iff]
        simp only [bne_iff_ne, not_forall, not_not, List.mem_map, exists_prop]
        exact exists_congr fun _ => and_congr_right fun _ => eq_comm
      have hcons : (some (name, titles) :: defs).filterMap id =
          (name, titles) :: defs.filterMap id := rfl
      rw [hstep, hcons, List.map_cons, List.cons_append, List.nodup_cons, List.forall_mem_cons]
      by_cases hmem : Text.lower name ∈ s.tables.map (·.1)
      · obtain ⟨fs', tables, hfold, -⟩ := ih (s.report line (.duplicateTable name)) hs
        refine ⟨⟨some line, .duplicateTable name⟩ :: fs', tables, ?_, ?_⟩
        · rw [if_pos (hlookup.2 hmem), hfold]
          simp [Survey.report]
        · exact ⟨fun h => absurd h (List.cons_ne_nil _ _),
            fun hall => absurd (List.mem_append_right _ hmem) hall.1.1⟩
      · rw [if_neg (mt hlookup.1 hmem)]
        have hkeys : ((s.tables ++ [(Text.lower name, known)]).map (·.1)).Perm
            (Text.lower name :: s.tables.map (·.1)) := by
          rw [List.map_append]
          exact List.perm_append_singleton _ _
        obtain ⟨fs', tables, hfold, hiff'⟩ := ih
          { s with
            tables := s.tables ++ [(Text.lower name, known)]
            findings := s.findings ++ fs } (hkeys.nodup_iff.2 (List.nodup_cons.2 ⟨hmem, hs⟩))
        refine ⟨fs ++ fs', tables, ?_, ?_⟩
        · rw [hfold]
          simp
        · have hperm := ((hkeys.append_left
            ((defs.filterMap id).map fun d => Text.lower d.1)).trans List.perm_middle).nodup_iff
          rw [List.append_eq_nil_iff, hiff, hiff', hperm, List.nodup_cons]
          exact and_left_comm

/-! ## Scripts -/

/-- The tokens of statements that end in semicolons. -/
def scriptTokens (tss : List (List Token)) : List Token :=
  tss.flatMap (· ++ [.semicolon])

theorem scriptTokens_append (tss uss : List (List Token)) :
    scriptTokens (tss ++ uss) = scriptTokens tss ++ scriptTokens uss :=
  List.flatMap_append

/-- **Statements are split** at their semicolons, and their parentheses are in order. -/
theorem splitStatements_script {defs : List (Option (String × List (Option String)))}
    {tss : List (List Token)} (h : List.Forall₂ StatementSays defs tss) {ps : List Placed}
    (hps : ps.map (·.token) = scriptTokens tss ++ [.endOfText]) :
    List.Forall₂ (fun d ps => StatementSays d (ps.map (·.token))) defs (splitStatements [] 0 ps) ∧
      parenFindings [] ps = [] := by
  induction h generalizing ps with
  | nil =>
    obtain ⟨p, qs, rfl, hp, hqs⟩ := List.map_eq_cons_iff.1 hps
    obtain rfl := List.map_eq_nil_iff.1 hqs
    rw [splitStatements, parenFindings.eq_def]
    simp [hp, splitStatements, endStatement, parenFindings]
  | @cons d ts defs tss hd _ ih =>
    rw [scriptTokens, List.flatMap_cons, List.append_assoc, List.append_assoc] at hps
    obtain ⟨first, rest, rfl, rfl, hrest⟩ := List.map_eq_append_iff.1 hps
    obtain ⟨p, more, rfl, hp, hmore⟩ := List.map_eq_cons_iff.1 hrest
    obtain ⟨hsaid, hparens⟩ := ih hmore
    have hne : first ≠ [] := by
      rintro rfl
      cases hd
    have hsplit : Check.splitStatements first.reverse 0 (p :: more) =
        first :: Check.splitStatements [] 0 more := by
      rw [Check.splitStatements, hp]
      simp [endStatement, hne]
    constructor
    · rw [hd.balanced.splitStatements rfl, List.append_nil, hsplit]
      exact .cons hd hsaid
    · rw [hd.balanced.parenFindings rfl, parenFindings.eq_def]
      simp only [hp]
      exact hparens

/-- **A script is valid** exactly if it begins with a table, and the names of tables, and the titles
in each of them, are different, case left aside. -/
theorem checkTokens_script {first : String × List (Option String)}
    {defs : List (Option (String × List (Option String)))} {tss : List (List Token)}
    (h : List.Forall₂ StatementSays (some first :: defs) tss) {ps : List Placed}
    (hps : ps.map (·.token) = scriptTokens tss ++ [.endOfText]) :
    (Report.mk (checkTokens ps)).isValid = true ↔
      (((some first :: defs).filterMap id).map fun d => Text.lower d.1).Nodup ∧
        ∀ d ∈ (some first :: defs).filterMap id, ((d.2.filterMap id).map Text.lower).Nodup := by
  obtain ⟨hsaid, hparens⟩ := splitStatements_script h hps
  have hcreates : createsSomeTable ps = true := by
    cases h with | cons hd _ =>
    cases hd with | table _ _ =>
    obtain ⟨p, qs, rfl, hp, hqs⟩ := List.map_eq_cons_iff.1 hps
    obtain ⟨q, qs, rfl, hq, -⟩ := List.map_eq_cons_iff.1 hqs
    simp [createsSomeTable, createsTable, hp, hq]
  have hnone : (splitStatements [] 0 ps).filterMap declaredEnum? = [] := by
    clear h
    generalize splitStatements [] 0 ps = pss at hsaid
    generalize some first :: defs = defs at hsaid
    induction hsaid with
    | nil => rfl
    | cons hd _ ih => rw [List.filterMap_cons_none hd.declaredEnum?, ih]
  obtain ⟨fs, tables, hfold, hiff⟩ := foldl_statement hsaid {} List.nodup_nil
  have hfindings : (Survey.ofTokens ps).findings = fs := by
    rw [Survey.ofTokens, hnone, hfold]
    exact List.nil_append _
  rw [checkTokens_isValid_iff, hfindings, hiff, List.map_nil, List.append_nil]
  exact ⟨fun hall => hall.2.2, fun hall => ⟨hcreates, hparens, hall⟩⟩

end DdlGraph.Check
