import DdlGraph.Proofs.FreshName
import DdlGraph.Proofs.QuietScript

/-!
# Undisturbed graphs

A graph is undisturbed (`Undisturbed`) if all that its text says of it is inert. Then nothing that
repairs look for begins between its tables, and the statements that add its keys are separate
(`separate_keyTexts`). No statement stands twice, whatever the graph, since each constraint has a
name of its own (`nodup_keyTexts`).

* `quote_append_inj`: a name is read off the text in front of the next blank;
* `undisturbed_of_tame`: a sign of undisturbed graphs that can be computed;
* `quiet_front`, `quiet_keyText`: the text of an undisturbed graph.
-/

namespace DdlGraph.Repair

open DdlGraph.Text DdlGraph.Sql DdlGraph.Ddl

/-! ## Names in front of a blank -/

/-- Between quote marks a text ends at the first mark that is not doubled. -/
theorem doubled_append_inj {q : Char} {cs cs' ys ys' : List Char} (hy : ∀ c ∈ ys.head?, c ≠ q)
    (hy' : ∀ c ∈ ys'.head?, c ≠ q) (h : doubled q cs ++ q :: ys = doubled q cs' ++ q :: ys') :
    cs = cs' ∧ ys = ys' := by
  obtain ⟨htext, hrest⟩ := delimited_doubled (b := false) cs (.inl rfl) hy
  obtain ⟨htext', hrest'⟩ := delimited_doubled (b := false) cs' (.inl rfl) hy'
  have hsame := congrArg (delimited q false) h
  exact ⟨htext.symm.trans ((congrArg Delimited.text hsame).trans htext'),
    hrest.symm.trans ((congrArg Delimited.rest hsame).trans hrest')⟩

/-- **A name that is written ends where it ends**: what stands in front of the blank tells it. -/
theorem quote_append_inj (s : Settings) {name name' : String} {ys ys' : List Char}
    (h : (quote s name).toList ++ ' ' :: ys = (quote s name').toList ++ ' ' :: ys') :
    name = name' ∧ ys = ys' := by
  have hq := aroundNames_quoteMark s.dialect
  have hmark : ∀ {name : String}, isPlainIdentifier (.ofList (quote s name).toList) = true →
      ∀ c ∈ (quote s name).toList, c ∉ ['"', '`', ' '] := fun hplain =>
    not_mem_of_plain (by decide) (by decide) hplain
  have hnot : ∀ {name : String} {q : Char} {zs zs' : List Char}, AroundNames q →
      isPlainIdentifier (.ofList (quote s name).toList) = true →
      (quote s name).toList ++ ' ' :: zs ≠ q :: zs' := by
    intro name q zs zs' hq hplain he
    obtain ⟨c, cs, hcons, -⟩ := exists_of_plain hplain
    rw [hcons, List.cons_append] at he
    obtain ⟨rfl, -⟩ := List.cons.inj he
    have hc := hmark hplain c (hcons ▸ .head _)
    rcases hq with rfl | rfl <;> exact hc (by decide)
  rcases quote_cases s name with ⟨-, hbare, hplain⟩ | hquoted <;>
    rcases quote_cases s name' with ⟨-, hbare', hplain'⟩ | hquoted'
  · have hblank : ∀ {name : String}, isPlainIdentifier (.ofList (quote s name).toList) = true →
        ' ' ∉ (quote s name).toList := fun hplain hm => hmark hplain _ hm (by decide)
    obtain ⟨hname, hys⟩ := append_cons_inj (hblank hplain) (hblank hplain') h
    rw [hbare, hbare'] at hname
    exact ⟨String.toList_inj.1 hname, hys⟩
  · rw [hquoted'] at h
    exact absurd h (hnot hq hplain)
  · rw [hquoted] at h
    exact absurd h.symm (hnot hq hplain')
  · have hstop : ∀ {zs : List Char}, ∀ c ∈ (' ' :: zs).head?, c ≠ s.dialect.quoteMark := by
      rintro zs c ⟨⟩ he
      rcases hq with hq | hq <;> rw [hq] at he <;> cases he
    rw [hquoted, hquoted', List.cons_append, List.cons_append, List.append_assoc, List.append_assoc,
      List.singleton_append, List.singleton_append, List.cons.injEq] at h
    obtain ⟨hname, hys⟩ := doubled_append_inj hstop hstop h.2
    exact ⟨String.toList_inj.1 hname, (List.cons.inj hys).2⟩

/-! ## Keys that are added -/

/-- The statements that add keys, without what ends them. -/
def keyTexts (s : Settings) (g : Graph) : List (List Char) :=
  if inlinesKeys s then []
  else (constraintNames [] (keysOf g)).map fun nk =>
    "ALTER TABLE".toList ++ ' ' :: addedKeyText s nk.1 nk.2

theorem toList_keySection (s : Settings) (g : Graph) : (keySection s (keysOf g)).toList =
    if keyTexts s g = [] then []
    else keySectionMark.toList ++ '\n' :: statementLines (keyTexts s g) := by
  have hend : "\n".toList = ['\n'] := rfl
  unfold keySection keyTexts
  cases inlinesKeys s with
  | true => rfl
  | false =>
    cases keysOf g with
    | nil => rfl
    | cons k keys =>
      have hne : (constraintNames [] (k :: keys)).map (fun nk =>
          "ALTER TABLE".toList ++ ' ' :: addedKeyText s nk.1 nk.2) ≠ [] := List.cons_ne_nil _ _
      simp only [Bool.false_eq_true, if_false, if_neg hne, Bool.false_or, List.isEmpty_cons,
        String.toList_append, toList_join_empty, List.flatMap_map, statementLines,
        toList_addKeyText, hend, List.append_assoc, List.cons_append, List.nil_append]

/-- **Every constraint has a name of its own.** -/
theorem nodup_constraintNames (used : List String) (keys : List KeySpec) :
    ((constraintNames used keys).map Prod.fst).Nodup ∧
      ∀ name ∈ (constraintNames used keys).map Prod.fst, name ∉ used := by
  induction keys generalizing used with
  | nil => exact ⟨.nil, nofun⟩
  | cons k keys ih =>
    rw [constraintNames, List.map_cons]
    generalize hbase : "fk_" ++ slug k.sourceTable ++ "_" ++ slug k.sourceColumn = base
    have htaken : ∀ name, used.contains name = true ↔ id name ∈ used := fun name => by simp
    have hfresh : freeName used.contains used.length base "_" ∉ used :=
      freeName_not_mem (Nat.le_refl _) htaken fun m n => numbered_inj base "_"
    dsimp only
    generalize freeName used.contains used.length base "_" = name at hfresh
    obtain ⟨hnodup, hnew⟩ := ih (name :: used)
    refine ⟨List.nodup_cons.2 ⟨fun hm => hnew _ hm (.head _), hnodup⟩, List.forall_mem_cons.2
      ⟨hfresh, fun other hm hu => hnew other hm (.tail _ hu)⟩⟩

theorem addedKeyText_inj (s : Settings) {name name' : String} {k k' : KeySpec}
    (h : addedKeyText s name k = addedKeyText s name' k') : name = name' := by
  unfold addedKeyText withList at h
  simp only [List.append_assoc, List.cons_append] at h
  obtain ⟨-, h⟩ := quote_append_inj s h
  exact (quote_append_inj s (List.cons.inj (List.append_cancel_left h)).2).1

/-- **No statement that adds a key stands twice.** -/
theorem nodup_keyTexts (s : Settings) (g : Graph) : (keyTexts s g).Nodup := by
  unfold keyTexts
  split
  · exact .nil
  · have hnames := (nodup_constraintNames [] (keysOf g)).1
    rw [List.Nodup, List.pairwise_map] at hnames ⊢
    refine hnames.imp fun hne he => ?_
    have htext := (List.cons.inj (List.append_cancel_left he)).2
    exact hne (addedKeyText_inj s htext)

/-! ## Undisturbed graphs -/

/-- **An undisturbed graph**: the names, literals, types and actions in its text are inert, where
they stand. -/
structure Undisturbed (s : Settings) (g : Graph) : Prop where
  enums : s.dialect = .postgresql → ∀ e ∈ g.enums, ∀ p ∈ enumPieces s e, InertBetween p
  names : ∀ t ∈ g.tables, Inert (quote s t.name)
  items : ∀ t ∈ g.tables, ∀ i ∈ items s g t (insideKeys s (keysOf g) t), ∀ p ∈ itemPieces s i,
    InertInside p
  indexes : ∀ t ∈ g.tables, ∀ c ∈ indexedColumns t, ∀ p ∈ indexPieces s t c, InertBetween p
  keys : inlinesKeys s = false → ∀ nk ∈ constraintNames [] (keysOf g),
    ∀ p ∈ addedKeyPieces s nk.1 nk.2, InertKey p

/-- What is written for the names, literals, types and actions of a graph. -/
def pieces (s : Settings) (g : Graph) : List String :=
  (if s.dialect = .postgresql then g.enums.flatMap (enumPieces s) else []) ++
    g.tables.flatMap (fun t => quote s t.name ::
      (items s g t (insideKeys s (keysOf g) t)).flatMap (itemPieces s) ++
        (indexedColumns t).flatMap (indexPieces s t)) ++
    if inlinesKeys s then []
    else (constraintNames [] (keysOf g)).flatMap fun nk => addedKeyPieces s nk.1 nk.2

/-- **A sign of undisturbed graphs** that can be computed. -/
theorem undisturbed_of_tame {s : Settings} {g : Graph} (h : ∀ p ∈ pieces s g, isTame p = true) :
    Undisturbed s g where
  enums hd e he p hp := (inertKey_of_tame (h p (by
    simp only [pieces, if_pos hd, List.mem_append, List.mem_flatMap]
    exact .inl (.inl ⟨e, he, hp⟩)))).toInertBetween
  names t ht := inert_of_tame (h _ (by
    simp only [pieces, List.mem_append, List.mem_flatMap, List.cons_append]
    exact .inl (.inr ⟨t, ht, .head _⟩)))
  items t ht i hi p hp := inertInside_of_tame (h p (by
    simp only [pieces, List.mem_append, List.mem_flatMap, List.cons_append, List.mem_cons]
    exact .inl (.inr ⟨t, ht, .inr (.inl ⟨i, hi, hp⟩)⟩)))
  indexes t ht c hc p hp := (inertKey_of_tame (h p (by
    simp only [pieces, List.mem_append, List.mem_flatMap, List.cons_append, List.mem_cons]
    exact .inl (.inr ⟨t, ht, .inr (.inr ⟨c, hc, hp⟩)⟩)))).toInertBetween
  keys hi nk hnk p hp := inertKey_of_tame (h p (by
    simp only [pieces, hi, List.mem_append, List.mem_flatMap, Bool.false_eq_true, if_false]
    exact .inr ⟨nk, hnk, hp⟩))

/-- **Types are apart from bare names**: no clause begins with the word of a type, and no type is
read as more words of the name before it. -/
structure TypesApart (types : TypeWords) (s : Settings) (g : Graph) : Prop where
  clauses : ∀ w ∈ clauseWords, types.holds w = false
  columns : ∀ t ∈ g.tables, ∀ c ∈ t.columns, OneName types (columnType s g c)

/-- The text of a graph between its header and the keys that are added. -/
def front (s : Settings) (g : Graph) : List Char :=
  (enumSection s g).toList ++ g.tables.flatMap fun t => (tableText s g (keysOf g) t).toList

section Undisturbed

variable {s : Settings} {g : Graph} (hg : Undisturbed s g) {ps : List Pattern}

include hg

theorem quiet_front (h : Composes s Inert (Calm ps)) (hcreate : Calm ps "CREATE TABLE".toList) :
    Quiet (Matches ps) (front s g) := by
  refine (quiet_enumSection h fun hd e he p hp => (hg.enums hd e he p hp).toInert).append
    (Quiet.flatMap fun t ht => quiet_tableText h hcreate (hg.names t ht) ?_ ?_)
  · exact fun i hi p hp => (hg.items t ht i hi p hp).toInert
  · exact fun c hc p hp => (hg.indexes t ht c hc p hp).toInert

theorem onLines_itemTexts {t : Table} (ht : t ∈ g.tables) : OnLines (itemTexts s g t) :=
  onLines_items (hg.items t ht) _

/-- What holds of texts that are put together holds of the statements that add keys. -/
theorem forall_keyTexts {P : List Char → Prop} (h : Composes s InertKey P)
    (halter : P "ALTER TABLE".toList) : ∀ text ∈ keyTexts s g, P text := by
  intro text ht
  unfold keyTexts at ht
  split at ht
  · cases ht
  · rename_i hinline
    obtain ⟨nk, hm, rfl⟩ := List.mem_map.1 ht
    exact h.blank halter (h.addedKey (hg.keys (Bool.eq_false_iff.2 hinline) nk hm))

theorem quiet_keyText (h : Composes s InertKey (Calm ps)) (halter : Calm ps "ALTER TABLE".toList) :
    ∀ text ∈ keyTexts s g, Quiet (Matches ps) (text ++ [';', '\n']) := fun text ht =>
  quiet_statement h (forall_keyTexts hg h halter text ht)

theorem noNul_keyText : ∀ text ∈ keyTexts s g, '\x00' ∉ text :=
  forall_keyTexts hg (composes_not_mem s (.inr (.inl rfl)) fun h => h.noNul) (by decide)

/-- **Statements that add keys are separate.** -/
theorem separate_keyTexts (hps : LedBy ps [.word "ALTER"]) (h : Composes s InertKey (Calm ps)) :
    Separate ps (keyTexts s g) where
  unended :=
    forall_keyTexts hg (composes_not_mem s (.inr (.inr rfl)) fun h => h.unended) (by decide)
  quiet := by
    have halter : (Lead.word "ALTER").passed none "LTER TABLE ".toList = true := by decide
    have hwords : Quiet (Matches ps) "LTER TABLE ".toList :=
      hps.quiet fun l hl => List.mem_singleton.1 hl ▸ Lead.quiet_of_passed halter
    intro text ht
    unfold keyTexts at ht
    split at ht
    · cases ht
    · rename_i hinline
      obtain ⟨nk, hm, rfl⟩ := List.mem_map.1 ht
      have hkey := h.addedKey (hg.keys (Bool.eq_false_iff.2 hinline) nk hm)
      exact ⟨'A', "LTER TABLE ".toList ++ addedKeyText s nk.1 nk.2, rfl,
        List.append_assoc .. ▸ hwords.append (quiet_statement h hkey)⟩
  line := h.nil '\n' (by decide)

end Undisturbed

end DdlGraph.Repair
