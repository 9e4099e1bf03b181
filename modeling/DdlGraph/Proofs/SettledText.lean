import DdlGraph.Proofs.RepairTables
import DdlGraph.Proofs.RepeatedKeys

/-!
# Texts that repairs leave alone

A text without NULs is its own normal form exactly if it is settled (`Settled`): no comment stands
inside a statement that adds a foreign key, no comma is missing between two columns, no name of
several bare words is left, and no constraint is added twice. One repair never takes back what
another one does, so each of them has to do nothing.

* `restore_putAside`: what was put aside comes back;
* `repairTables_eq_self_iff`, `repairBody_eq_self_iff`: the repairs of tables;
* `normalize_eq_self_iff`: all repairs;
* `normalizeWithin_of_settled`: what the limit of patterns does to a settled text.
-/

namespace DdlGraph.Repair

open DdlGraph.Text DdlGraph.Sql

/-! ## Comments and statements aside -/

/-- A text without its comments. -/
def withoutComments (cs : List Char) : Masked :=
  mask commentPattern ⟨cs, []⟩

/-- A text without its comments and the statements that add foreign keys: what is repaired. -/
def putAside (cs : List Char) : Masked :=
  mask addedKeyPattern (withoutComments cs)

theorem outsideEnds_addedKey {parts : List (List Char)}
    (h : List.Forall₂ Pattern.Takes addedKeyPattern parts) : OutsideEnds parts.flatten := by
  have hw := takes_of_one h
  refine ⟨outside_head (s := "ALTER") rfl (by decide) hw, ?_⟩
  obtain ⟨v, v', hv, c, rfl, hc⟩ := Pattern.last_of_takes_all (p := .char ';') rfl hw
  exact ⟨v, c, hv, eq_of_beq hc ▸ by decide⟩

/-- NULs stand in comments only. -/
def NulInComments (cs : List Char) : Prop :=
  ∀ g, .gap g ∈ segments commentPattern cs → '\x00' ∉ g

theorem nulInComments_of_noNul {cs : List Char} (h : '\x00' ∉ cs) : NulInComments cs := by
  intro g hg hmem
  have hall : '\x00' ∈ (segments commentPattern cs).flatMap Segment.text :=
    List.mem_flatMap.2 ⟨.gap g, hg, hmem⟩
  rw [flatten_segments] at hall
  exact h hall

/-- The pieces behind the comments are the statements. -/
theorem pieces_of_keys (cs : List Char) :
    matchesOf (segments addedKeyPattern (withoutComments cs).text) <+:
      (putAside cs).pieces.drop (withoutComments cs).pieces.length := by
  have hdrop : (putAside cs).pieces.drop (withoutComments cs).pieces.length =
      matchesOf (segments addedKeyPattern (withoutComments cs).text) := List.drop_left
  exact ⟨[], (List.append_nil _).trans hdrop.symm⟩

section PutAside

variable {cs : List Char} (h : NulInComments cs)

include h

theorem wholeMarks_withoutComments : WholeMarks (withoutComments cs).text :=
  wholeMarks_markFrom fun g hg => wholeMarks_of_noNul (h g hg)

theorem wholeMarks_pieces {piece : Segment}
    (hp : piece ∈ segments addedKeyPattern (withoutComments cs).text) : WholeMarks piece.text :=
  wholeMarks_of_mem_segmentsAfter (fun _ => outsideEnds_addedKey) (wholeMarks_withoutComments h) hp

theorem wholeMarks_putAside : WholeMarks (putAside cs).text :=
  wholeMarks_markFrom fun _ hg => wholeMarks_pieces h hg

/-- Comments come back from a text that they were put aside from. -/
theorem restore_withoutComments : restore (putAside cs).pieces (withoutComments cs).text = cs := by
  have hpieces : matchesOf (segments commentPattern cs) <+: (putAside cs).pieces.drop 0 :=
    List.prefix_append _ _
  have hrestore := restore_markFrom (fun g hg => wholeMarks_of_noNul (h g hg)) hpieces
  refine hrestore.trans ?_
  conv_rhs => rw [← flatten_segments commentPattern cs]
  refine List.flatMap_congr fun piece hp => ?_
  cases piece with
  | gap text => exact restore_of_noNul (h text hp)
  | found parts => rfl

/-- Statements that add foreign keys come back as they were put aside, marks and all. -/
theorem restore_putAside_eq : restore (putAside cs).pieces (putAside cs).text =
    (segments addedKeyPattern (withoutComments cs).text).flatMap (putBack (putAside cs).pieces) :=
  restore_markFrom (fun _ hg => wholeMarks_pieces h hg) (pieces_of_keys cs)

/-- **What was put aside comes back**, unless a comment was inside a statement. -/
theorem restore_putAside (hkeys : ∀ parts ∈ occurrences addedKeyPattern (withoutComments cs).text,
    '\x00' ∉ parts.flatten) : restore (putAside cs).pieces (putAside cs).text = cs := by
  have hback := restore_markFrom_of_noNul (fun _ hg => wholeMarks_pieces h hg)
    (fun parts hp => hkeys parts (mem_occurrences.2 hp)) (pieces_of_keys cs)
  rw [flatten_segments, restore_withoutComments h] at hback
  exact hback

/-- A comment inside a statement leaves its mark. -/
theorem noNul_of_restore_putAside
    (hr : '\x00' ∉ restore (putAside cs).pieces (putAside cs).text) :
    ∀ parts ∈ occurrences addedKeyPattern (withoutComments cs).text, '\x00' ∉ parts.flatten := by
  intro parts hp hmem
  rw [restore_putAside_eq h] at hr
  exact hr (List.mem_flatMap.2 ⟨.found parts, mem_occurrences.1 hp, hmem⟩)

end PutAside

/-! ## Column lists -/

variable {q : Char}

/-- Something stands on the line besides comments. -/
def SaysSomething (line : List Char) : Prop :=
  (withoutMarks line).all isBlank = false

/-- **A comma is missing**: a line that says something ends in neither a comma nor a parenthesis
that opens, and the next line that says something begins a column. -/
def CommaMissing (types : TypeWords) (lines : List (List Char × Int)) : Prop :=
  ∃ before line depth between next after,
    lines = before ++ (line, depth) :: (between ++ (next, 0) :: after) ∧
    SaysSomething line ∧ (∀ l ∈ between, ¬SaysSomething l.1) ∧ SaysSomething next ∧
    types.startsColumn (withoutMarks next) = true ∧
    ∃ c, (codeOf line).getLast? = some c ∧ c ≠ ',' ∧ c ≠ '('

/-- A definition of a column list has a name of several bare words. -/
def BareColumn (types : TypeWords) (lines : List (List Char × Int)) : Prop :=
  ∃ line part, (line, 0) ∈ lines ∧ part ∈ splitParts [] 0 none line ∧
    (types.severalWords? part).isSome = true

theorem insertComma_eq_self_iff {line : List Char} (h : WholeMarks line) :
    insertComma line = line ↔ ¬∃ c, (codeOf line).getLast? = some c ∧ c ≠ ',' ∧ c ≠ '(' := by
  obtain ⟨after, hline, -, -⟩ := codeOf_eq_append h
  unfold insertComma
  dsimp only
  split
  · rename_i hnone
    refine iff_of_true rfl ?_
    rintro ⟨c, hc, -⟩
    rw [hnone] at hc
    cases hc
  · rename_i c hc
    split
    · rename_i hmark
      refine iff_of_true rfl ?_
      rintro ⟨d, hd, hcomma, hparen⟩
      obtain rfl : c = d := Option.some.inj (hc.symm.trans hd)
      exact hmark.elim hcomma hparen
    · rename_i hmark
      refine iff_of_false (fun he => ?_) (not_not_intro ⟨c, hc, not_or.1 hmark⟩)
      have hdrop : line.drop (codeOf line).length = after := by
        have hd := congrArg (List.drop (codeOf line).length) hline
        rwa [List.drop_left] at hd
      rw [hdrop] at he
      have htail := List.append_cancel_left (he.trans hline)
      have hlen := congrArg List.length htail
      rw [List.length_cons] at hlen
      omega

/-- The first line that says something begins a column. -/
theorem insertCommas_snd_iff (types : TypeWords) (lines : List (List Char × Int)) :
    (insertCommas types lines).2 = true ↔ ∃ between next after,
      lines = between ++ (next, 0) :: after ∧ (∀ l ∈ between, ¬SaysSomething l.1) ∧
      SaysSomething next ∧ types.startsColumn (withoutMarks next) = true := by
  induction lines with
  | nil =>
    refine iff_of_false Bool.false_ne_true ?_
    rintro ⟨between, next, after, he, -⟩
    exact absurd he.symm (List.append_ne_nil_of_right_ne_nil _ (List.cons_ne_nil _ _))
  | cons l lines ih =>
    obtain ⟨line, depth⟩ := l
    unfold insertCommas
    dsimp only
    split
    · rename_i hblank
      have htext : ¬SaysSomething line := fun hs => by
        rw [SaysSomething, hblank] at hs
        cases hs
      rw [ih]
      constructor
      · rintro ⟨between, next, after, rfl, hbetween, hnext⟩
        exact ⟨(line, depth) :: between, next, after, rfl, List.forall_mem_cons.2 ⟨htext, hbetween⟩,
          hnext⟩
      · rintro ⟨between, next, after, he, hbetween, hnext⟩
        cases between with
        | nil =>
          cases he
          exact absurd hnext.1 htext
        | cons l between =>
          obtain ⟨rfl, rfl⟩ := List.cons.inj he
          exact ⟨between, next, after, rfl, (List.forall_mem_cons.1 hbetween).2, hnext⟩
    · rename_i hblank
      have htext : SaysSomething line := Bool.eq_false_iff.2 hblank
      rw [Bool.and_eq_true, decide_eq_true_iff]
      constructor
      · rintro ⟨rfl, hstarts⟩
        exact ⟨[], line, lines, rfl, fun l hl => absurd hl List.not_mem_nil, htext, hstarts⟩
      · rintro ⟨between, next, after, he, hbetween, -, hstarts⟩
        cases between with
        | nil =>
          cases he
          exact ⟨rfl, hstarts⟩
        | cons l between =>
          obtain ⟨rfl, rfl⟩ := List.cons.inj he
          exact absurd htext ((List.forall_mem_cons.1 hbetween).1)

theorem commaMissing_cons {types : TypeWords} {line : List Char} {depth : Int}
    {lines : List (List Char × Int)} :
    CommaMissing types ((line, depth) :: lines) ↔
      (SaysSomething line ∧ (insertCommas types lines).2 = true ∧
        ∃ c, (codeOf line).getLast? = some c ∧ c ≠ ',' ∧ c ≠ '(') ∨ CommaMissing types lines := by
  rw [insertCommas_snd_iff]
  constructor
  · rintro ⟨before, line', depth', between, next, after, he, hline, hbetween, hnext, hstarts, hcode⟩
    cases before with
    | nil =>
      obtain ⟨hl, rfl⟩ := List.cons.inj he
      obtain ⟨rfl, -⟩ := Prod.mk.inj hl
      exact .inl ⟨hline, ⟨between, next, after, rfl, hbetween, hnext, hstarts⟩, hcode⟩
    | cons l before =>
      obtain ⟨-, rfl⟩ := List.cons.inj he
      exact .inr ⟨before, line', depth', between, next, after, rfl, hline, hbetween, hnext, hstarts,
        hcode⟩
  · rintro (⟨hline, ⟨between, next, after, rfl, hbetween, hnext, hstarts⟩, hcode⟩ |
      ⟨before, line', depth', between, next, after, rfl, hmissing⟩)
    · exact ⟨[], line, depth, between, next, after, rfl, hline, hbetween, hnext, hstarts, hcode⟩
    · exact ⟨(line, depth) :: before, line', depth', between, next, after, rfl, hmissing⟩

/-- **Commas** are put in exactly where one is missing. -/
theorem insertCommas_eq_self_iff (types : TypeWords) {lines : List (List Char × Int)}
    (h : ∀ l ∈ lines, WholeMarks l.1) :
    (insertCommas types lines).1 = lines ↔ ¬CommaMissing types lines := by
  induction lines with
  | nil =>
    refine iff_of_true rfl ?_
    rintro ⟨before, line, depth, between, next, after, he, -⟩
    exact absurd he.symm (List.append_ne_nil_of_right_ne_nil _ (List.cons_ne_nil _ _))
  | cons l lines ih =>
    obtain ⟨line, depth⟩ := l
    obtain ⟨hline, hlines⟩ := List.forall_mem_cons.1 h
    rw [commaMissing_cons, not_or, ← ih hlines, insertCommas]
    split
    · rename_i hblank
      have htext : ¬SaysSomething line := fun hs => by
        rw [SaysSomething, hblank] at hs
        cases hs
      rw [List.cons.injEq]
      exact and_congr (iff_of_true rfl fun hm => htext hm.1) Iff.rfl
    · rename_i hblank
      have htext : SaysSomething line := Bool.eq_false_iff.2 hblank
      rw [List.cons.injEq, Prod.mk.injEq]
      refine and_congr ?_ Iff.rfl
      split
      · rename_i hnext
        rw [insertComma_eq_self_iff hline, and_iff_left rfl]
        exact not_congr ⟨fun hc => ⟨htext, hnext, hc⟩, fun hm => hm.2.2⟩
      · rename_i hnext
        exact iff_of_true ⟨rfl, rfl⟩ fun hm => hnext hm.2.1

theorem quoteName_eq_self_iff (hq : AroundNames q) (types : TypeWords) (part : List Char) :
    quoteName types q part = part ↔ ¬(types.severalWords? part).isSome = true := by
  unfold quoteName
  cases hs : types.severalWords? part with
  | none => exact iff_of_true rfl Bool.false_ne_true
  | some r =>
    obtain ⟨blanks, name, rest⟩ := r
    obtain ⟨rfl, -, hname⟩ := severalWords_eq_append types hs
    refine iff_of_false (fun he => ?_) (not_not_intro rfl)
    dsimp only at he
    rw [List.append_assoc] at he
    have hquoted := List.append_cancel_right (List.append_cancel_left he)
    exact hq.not_mem hname (hquoted ▸ .head _)

theorem quoteNames_eq_self_iff (hq : AroundNames q) (types : TypeWords) {line : List Char}
    (h : WholeMarks line) : quoteNames types q line = line ↔
      ∀ part ∈ splitParts [] 0 none line, ¬(types.severalWords? part).isSome = true := by
  have hline := intercalate_splitParts [] 0 none line
  rw [List.reverse_nil, List.nil_append] at hline
  have hparts := wholeMarks_of_intercalate (hline.symm ▸ h)
  have hrep := fun part hp => repairs_quoteName (q := q) types (hparts part hp)
  unfold quoteNames
  constructor
  · intro he part hp
    exact (quoteName_eq_self_iff hq types part).1
      (Repairs.eq_of_intercalate hq hrep (hline.trans he.symm) part hp).symm
  · intro hnone
    have hmap : (splitParts [] 0 none line).map (quoteName types q) =
        (splitParts [] 0 none line).map id :=
      List.map_congr_left fun part hp => (quoteName_eq_self_iff hq types part).2 (hnone part hp)
    rw [hmap, List.map_id, hline]

theorem forall₂_and {α β : Type} {R S : α → β → Prop} {l : List α} {l' : List β}
    (h : List.Forall₂ R l l') (h' : List.Forall₂ S l l') :
    List.Forall₂ (fun a b => R a b ∧ S a b) l l' := by
  induction h with
  | nil => exact .nil
  | cons hr _ ih =>
    cases h' with
    | cons hs hl => exact .cons ⟨hr, hs⟩ (ih hl)

/-- **A column list** is left as it is exactly if it has its commas and its names are quoted. -/
theorem repairBody_eq_self_iff (hq : AroundNames q) (types : TypeWords) {body : List Char}
    (h : WholeMarks body) : repairBody types q body = body ↔
      ¬CommaMissing types (withDepths (0, none) (linesOf body)) ∧
      ¬BareColumn types (withDepths (0, none) (linesOf body)) := by
  have hlines := repairs_lines (q := q) types h
  have hwhole := wholeMarks_of_mem_withDepths (wholeMarks_of_mem_linesOf h) (0, none)
  have hbody : (withDepths (0, none) (linesOf body)).flatMap Prod.fst = body := by
    rw [flatMap_withDepths, flatten_linesOf]
  generalize hl : withDepths (0, none) (linesOf body) = lines at hlines hwhole hbody
  have hquoted : List.Forall₂ (fun l l' => Repairs q l.1 (quoteLine types q l')) lines
      (insertCommas types lines).1 :=
    hlines.imp fun l l' h => h.1.trans (repairs_quoteLine types (h.1.wholeMarks hq).2)
  have hline : ∀ l ∈ lines, quoteLine types q l = l.1 ↔
      (l.2 = 0 → ∀ part ∈ splitParts [] 0 none l.1,
        ¬(types.severalWords? part).isSome = true) := by
    intro l hmem
    unfold quoteLine
    split
    · rename_i hzero
      rw [quoteNames_eq_self_iff hq types (hwhole l hmem)]
      exact ⟨fun hp _ => hp, fun hp => hp hzero⟩
    · rename_i hdepth
      exact iff_of_true rfl fun hzero => absurd hzero hdepth
  rw [repairBody_eq, hl, ← insertCommas_eq_self_iff types hwhole]
  constructor
  · intro he
    have hsame := Repairs.eq_of_flatMap hq hquoted (hbody.trans he.symm)
    -- a line with its comma stands between a line and the same line again
    have hcommas : lines = (insertCommas types lines).1 := by
      refine List.forall₂_eq_eq_eq ▸ (forall₂_and hlines hsame).imp fun l l' ⟨⟨hl, hdepth⟩, he⟩ => ?_
      have hback := repairs_quoteLine (q := q) types (hl.wholeMarks hq).2
      exact Prod.ext (hl.antisymm hq (he ▸ hback)) hdepth.symm
    rw [← hcommas] at hsame
    refine ⟨hcommas.symm, ?_⟩
    rintro ⟨line, part, hmem, hp, hsome⟩
    exact (hline _ hmem).1 (List.forall₂_same.1 hsame _ hmem).symm rfl part hp hsome
  · rintro ⟨hcommas, hnames⟩
    rw [hcommas]
    conv_rhs => rw [← hbody]
    refine List.flatMap_congr fun l hmem => (hline l hmem).2 fun hzero part hp hsome => ?_
    exact hnames ⟨l.1, part, hzero ▸ hmem, hp, hsome⟩

/-! ## Tables -/

/-- The name in the header of a table, after `IF NOT EXISTS`. -/
def headerName (header : List Char) : List Char :=
  header.drop ((start? ifNotExists header).getD []).flatten.length

/-- The name of a table has several bare words. -/
def BareHeader (header : List Char) : Prop :=
  2 ≤ (words (headerName header)).length ∧ allPlain (headerName header) = true

theorem repairHeader_eq_self_iff (hq : AroundNames q) (header : List Char) :
    repairHeader q header = header ↔ ¬BareHeader header := by
  unfold BareHeader headerName
  have happ := header_eq_append header
  generalize hb : ((start? ifNotExists header).getD []).flatten = before at happ ⊢
  generalize hn : header.drop before.length = name at happ ⊢
  unfold repairHeader
  rw [hb]
  dsimp only
  rw [hn]
  split
  · rename_i hkept
    refine iff_of_true rfl ?_
    rintro ⟨hlen, hplain⟩
    rw [hplain, Bool.not_true, Bool.or_false, decide_eq_true_iff] at hkept
    omega
  · rename_i hkept
    rw [Bool.or_eq_true, not_or, decide_eq_true_iff] at hkept
    have hplain : allPlain name = true := by simpa using hkept.2
    refine iff_of_false (fun he => ?_) (not_not_intro ⟨Nat.not_lt.1 hkept.1, hplain⟩)
    rw [List.append_assoc, List.append_assoc] at he
    have hname := List.append_cancel_left (he.trans happ)
    refine hq.not_mem (inName_of_allPlain hplain) ?_
    rw [← hname]
    exact List.mem_append_right _ (List.mem_append_left _ (.head _))

/-- **The tables of a text**: header and column list of each, in the order in which repairs find
them. A text is read from the words `CREATE TABLE` on, and goes on behind its column list, or behind
these words if there is none. -/
inductive HasTable : Option Char → List Char → List Char → List Char → Prop
  | here {before : Option Char} {cs passed header body : List Char} {parts : List (List Char)}
      (words : search? createTablePattern [] before 0 cs = some (passed, parts))
      (list : splitOpen? [] none (cs.drop (passed.length + parts.flatten.length)) =
        some (header, body)) :
      HasTable before cs header.reverse (splitClose [] 0 none body).1.reverse
  | behind {before : Option Char} {cs passed header body header' body' : List Char}
      {parts : List (List Char)}
      (words : search? createTablePattern [] before 0 cs = some (passed, parts))
      (list : splitOpen? [] none (cs.drop (passed.length + parts.flatten.length)) =
        some (header, body))
      (rest : HasTable none (splitClose [] 0 none body).2 header' body') :
      HasTable before cs header' body'
  | skip {before : Option Char} {cs passed header' body' : List Char} {parts : List (List Char)}
      (words : search? createTablePattern [] before 0 cs = some (passed, parts))
      (none : splitOpen? [] none (cs.drop (passed.length + parts.flatten.length)) = none)
      (rest : HasTable parts.flatten.getLast? (cs.drop (passed.length + parts.flatten.length))
        header' body') :
      HasTable before cs header' body'

theorem hasTable_iff_of_skip {before : Option Char} {cs passed : List Char}
    {parts : List (List Char)}
    (hs : search? createTablePattern [] before 0 cs = some (passed, parts))
    (ho : splitOpen? [] none (cs.drop (passed.length + parts.flatten.length)) = none)
    {header body : List Char} : HasTable before cs header body ↔
      HasTable parts.flatten.getLast? (cs.drop (passed.length + parts.flatten.length))
        header body := by
  refine ⟨fun ht => ?_, .skip hs ho⟩
  cases ht with
  | here words list | behind words list =>
    cases hs.symm.trans words
    cases ho.symm.trans list
  | skip words _ rest =>
    cases hs.symm.trans words
    exact rest

theorem hasTable_iff_of_list {before : Option Char} {cs passed header body : List Char}
    {parts : List (List Char)}
    (hs : search? createTablePattern [] before 0 cs = some (passed, parts))
    (ho : splitOpen? [] none (cs.drop (passed.length + parts.flatten.length)) = some (header, body))
    {header' body' : List Char} : HasTable before cs header' body' ↔
      (header' = header.reverse ∧ body' = (splitClose [] 0 none body).1.reverse) ∨
        HasTable none (splitClose [] 0 none body).2 header' body' := by
  constructor
  · intro ht
    cases ht with
    | here words list =>
      cases hs.symm.trans words
      cases ho.symm.trans list
      exact .inl ⟨rfl, rfl⟩
    | behind words list rest =>
      cases hs.symm.trans words
      cases ho.symm.trans list
      exact .inr rest
    | skip words none =>
      cases hs.symm.trans words
      cases ho.symm.trans none
  · rintro (⟨rfl, rfl⟩ | ht)
    · exact .here hs ho
    · exact .behind hs ho ht

/-- **Tables** are left as they are exactly if each header and each column list is. -/
theorem repairTables_eq_self_iff (hq : AroundNames q) (types : TypeWords) {cs : List Char}
    (h : WholeMarks cs) (before : Option Char) : repairTables types q before cs = cs ↔
      ∀ header body, HasTable before cs header body →
        repairHeader q header = header ∧ repairBody types q body = body := by
  fun_induction repairTables types q before cs with
  | case1 before cs hs =>
    refine iff_of_true rfl fun header body ht => ?_
    cases ht with
    | here words | behind words | skip words =>
      rw [hs] at words
      cases words
  | case2 before cs passed parts hs found he =>
    exact absurd (List.isEmpty_iff.1 he) (wordsCut_of_search h hs).found_ne_nil
  | case3 before cs passed parts hs found rest _ ho ih =>
    have hcut := wordsCut_of_search h hs
    have hcs : passed.reverse ++ found ++ rest = cs := by
      rw [List.append_assoc]
      exact hcut.eq.symm
    have htext : passed.reverse ++ found ++ repairTables types q found.getLast? rest = cs ↔
        repairTables types q found.getLast? rest = rest :=
      ⟨fun he => List.append_cancel_left (he.trans hcs.symm), fun he => by rw [he, hcs]⟩
    rw [htext, ih hcut.whole_rest]
    refine forall_congr' fun header => forall_congr' fun body => imp_congr_left ?_
    exact (hasTable_iff_of_skip hs ho).symm
  | case4 before cs passed parts hs found rest _ header body ho r ih =>
    have hcut := wordsCut_of_search h hs
    have hlist := listCut_of_splitOpen hcut.whole_rest ho
    have hrest := repairs_repairTables types hq hlist.whole_after none
    rw [(repairs_table types hq hcut hlist hrest).2, ih hlist.whole_after]
    constructor
    · rintro ⟨hhere, hbehind⟩ header' body' ht
      rcases (hasTable_iff_of_list hs ho).1 ht with ⟨rfl, rfl⟩ | ht
      · exact hhere
      · exact hbehind header' body' ht
    · intro hall
      exact ⟨hall _ _ (.here hs ho), fun header' body' ht => hall header' body' (.behind hs ho ht)⟩

theorem wholeMarks_of_hasTable {before : Option Char} {cs header body : List Char}
    (h : WholeMarks cs) (ht : HasTable before cs header body) : WholeMarks body := by
  induction ht with
  | here words list =>
    exact (listCut_of_splitOpen (wordsCut_of_search h words).whole_rest list).whole_body
  | behind words list _ ih =>
    exact ih (listCut_of_splitOpen (wordsCut_of_search h words).whole_rest list).whole_after
  | skip words _ _ ih => exact ih (wordsCut_of_search h words).whole_rest

/-! ## All repairs -/

/-- The lines of a column list with the depths of parentheses that they begin at. -/
def listLines (body : List Char) : List (List Char × Int) :=
  withDepths (0, none) (linesOf body)

/-- **A settled text** has no mistake that is repaired. -/
structure Settled (cs : List Char) : Prop where
  /-- No comment stands inside a statement that adds a foreign key. -/
  comments : ∀ parts ∈ occurrences addedKeyPattern (withoutComments cs).text,
    '\x00' ∉ parts.flatten
  /-- No table has a name of several bare words. -/
  headers : ∀ header body, HasTable none (putAside cs).text header body → ¬BareHeader header
  /-- No comma is missing between two columns. -/
  commas : ∀ header body, HasTable none (putAside cs).text header body →
    ¬CommaMissing (.ofText cs) (listLines body)
  /-- No column has a name of several bare words. -/
  columns : ∀ header body, HasTable none (putAside cs).text header body →
    ¬BareColumn (.ofText cs) (listLines body)
  /-- No target of a foreign key has a name of several bare words. -/
  targets : ∀ parts ∈ occurrences targetPattern (putAside cs).text, ¬BareTarget parts
  /-- No constraint is added twice. -/
  keys : (keyStatements cs).Nodup

section Normalize

variable {cs : List Char} (h : NulInComments cs)

include h

/-- Tables are left as they are exactly if they have no mistake. -/
theorem tables_eq_self_iff (hq : AroundNames q) :
    repairTables (.ofText cs) q none (putAside cs).text = (putAside cs).text ↔
      ∀ header body, HasTable none (putAside cs).text header body → ¬BareHeader header ∧
        ¬CommaMissing (.ofText cs) (listLines body) ∧ ¬BareColumn (.ofText cs) (listLines body) := by
  have hwhole := wholeMarks_putAside h
  rw [repairTables_eq_self_iff hq _ hwhole]
  refine forall_congr' fun header => forall_congr' fun body => forall_congr' fun ht => ?_
  rw [repairHeader_eq_self_iff hq, repairBody_eq_self_iff hq _ (wholeMarks_of_hasTable hwhole ht)]
  rfl

/-- Repairs of a settled text do nothing. -/
theorem normalizeChars_of_settled (dialect : Dialect) (hs : Settled cs) :
    normalizeChars dialect cs = cs := by
  have hq := aroundNames_quoteMark dialect
  have htables := (tables_eq_self_iff h hq).2 fun header body ht =>
    ⟨hs.headers header body ht, hs.commas header body ht, hs.columns header body ht⟩
  have htargets := (repairs_targets hq (wholeMarks_putAside h)).2.2 hs.targets
  show dropRepeatedKeys (restore (putAside cs).pieces (replace targetPattern _
    (repairTables _ _ none (putAside cs).text))) = cs
  rw [htables, htargets, restore_putAside h hs.comments, dropRepeatedKeys_eq hs.keys]

omit h in
/-- A text without NULs that repairs leave alone is settled. -/
theorem settled_of_normalizeChars (hfree : '\x00' ∉ cs) (dialect : Dialect)
    (he : normalizeChars dialect cs = cs) : Settled cs := by
  have hq := aroundNames_quoteMark dialect
  have h := nulInComments_of_noNul hfree
  have hwhole := wholeMarks_putAside h
  have htables := repairs_repairTables (.ofText cs) hq hwhole none
  generalize ht : repairTables (.ofText cs) dialect.quoteMark none (putAside cs).text = tables
    at htables
  obtain ⟨htargets, htargets_iff⟩ := repairs_targets hq (htables.wholeMarks hq).2
  generalize hr : replace targetPattern (quoteTarget dialect.quoteMark) tables = repaired
    at htargets htargets_iff
  have hdrop : dropRepeatedKeys (restore (putAside cs).pieces repaired) = cs := by
    rw [← hr, ← ht]
    exact he
  generalize hpieces : (putAside cs).pieces = pieces at hdrop
  have hall := htables.trans htargets
  -- no mark is left, so no comment was inside a statement
  have hunmarked : '\x00' ∉ restore pieces repaired := fun hmem =>
    hfree (hdrop ▸ mem_dropRepeatedKeys (by decide) hmem)
  have hcomments : ∀ parts ∈ occurrences addedKeyPattern (withoutComments cs).text,
      '\x00' ∉ parts.flatten := by
    refine noNul_of_restore_putAside h ?_
    rw [hpieces, ← List.count_eq_zero, hall.count_eq hq (.inr rfl) pieces, List.count_eq_zero]
    exact hunmarked
  have hback : restore pieces (putAside cs).text = cs := hpieces ▸ restore_putAside h hcomments
  -- as many semicolons as before, so no statement was dropped
  have hkeys : (keyStatements (restore pieces repaired)).Nodup := by
    refine nodup_of_count ?_
    rw [hdrop, ← hall.count_eq hq (.inl rfl) pieces, hback]
  have hrestored : restore pieces repaired = cs := (dropRepeatedKeys_eq hkeys).symm.trans hdrop
  have hrepaired := hall.eq_of_restore hq (hback.trans hrestored.symm)
  obtain rfl : (putAside cs).text = tables := htables.antisymm hq (hrepaired.symm ▸ htargets)
  have hmistakes := (tables_eq_self_iff h hq).1 ht
  exact {
    comments := hcomments
    headers := fun header body hb => (hmistakes header body hb).1
    commas := fun header body hb => (hmistakes header body hb).2.1
    columns := fun header body hb => (hmistakes header body hb).2.2
    targets := htargets_iff.1 hrepaired.symm
    keys := hrestored ▸ hkeys }

end Normalize

/-- **Settled texts are those that are their own normal form.** -/
theorem normalize_eq_self_iff {text : String} (h : '\x00' ∉ text.toList) :
    normalize text = text ↔ Settled text.toList := by
  have hchars : normalize text = text ↔
      normalizeChars (Dialect.detect text) text.toList = text.toList := by
    unfold normalize
    rw [← String.toList_inj, String.toList_ofList]
  rw [hchars]
  exact ⟨settled_of_normalizeChars h _, normalizeChars_of_settled (nulInComments_of_noNul h) _⟩

/-- **A settled text stays as it is** also where no pattern can be built from the words that name
types in it. -/
theorem normalizeWithin_of_settled (builds : TypeWords → Bool) {text : String}
    (h : NulInComments text.toList) (hs : Settled text.toList) :
    normalizeWithin builds text = text := by
  rw [normalizeWithin_eq]
  split
  · rw [normalize, normalizeChars_of_settled h _ hs, String.ofList_toList]
  · rw [dropRepeatedKeys_eq hs.keys, String.ofList_toList]

/-- **A second pass changes nothing** exactly if the first one leaves a settled text. -/
theorem normalize_again_iff (text : String) (h : '\x00' ∉ (normalize text).toList) :
    normalize (normalize text) = normalize text ↔ Settled (normalize text).toList :=
  normalize_eq_self_iff h

theorem normalize_again_iff_orders :
    '\x00' ∉ (normalize "CREATE TABLE order items (id INT);").toList ∧
      Settled (normalize "CREATE TABLE order items (id INT);").toList := by
  have hfirst : normalize "CREATE TABLE order items (id INT);" =
      "CREATE TABLE \"order items\" (id INT);" := by
    rw [normalize_ofList]
    decide +kernel
  have hfree : '\x00' ∉ (normalize "CREATE TABLE order items (id INT);").toList := by
    rw [hfirst]
    decide
  refine ⟨hfree, (normalize_again_iff _ hfree).1 ?_⟩
  rw [hfirst]
  decide +kernel

/-- A name that begins with a word that goes on a type is quoted by the first pass, and only the
second one takes it for the start of a column and puts the comma in. -/
theorem normalize_again_zone_code :
    normalize (normalize "CREATE TABLE t (\n  id INT\n  zone code TEXT\n);") ≠
      normalize "CREATE TABLE t (\n  id INT\n  zone code TEXT\n);" := by
  have hfirst : normalize "CREATE TABLE t (\n  id INT\n  zone code TEXT\n);" =
      "CREATE TABLE t (\n  id INT\n  \"zone code\" TEXT\n);" := by
    rw [normalize_ofList]
    decide +kernel
  have hsecond : normalize "CREATE TABLE t (\n  id INT\n  \"zone code\" TEXT\n);" =
      "CREATE TABLE t (\n  id INT,\n  \"zone code\" TEXT\n);" := by
    rw [normalize_ofList]
    decide +kernel
  rw [hfirst, hsecond]
  decide

end DdlGraph.Repair
