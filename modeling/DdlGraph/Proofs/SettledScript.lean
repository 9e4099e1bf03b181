import DdlGraph.Proofs.UndisturbedGraph

/-!
# Scripts that repairs leave alone

The script of an undisturbed graph is settled (`settled_script`), so it is its own normal form
(`normalize_script`). What is repaired is the script without its comments and the statements that
add keys, where a mark stands for each of them (`exists_putAside_text`).

* `segments_script`: the comments that are found are those of the header and the line before the
  keys;
* `hasTable_script`: the tables that are found are those of the graph;
* `occurrences_target_script`: no target of a foreign key has several bare words;
* `keyStatements_script`: the statements behind that line are those that add the keys.
-/

namespace DdlGraph.Repair

open DdlGraph.Text DdlGraph.Sql DdlGraph.Ddl

/-! ## Comments of a script -/

/-- The comments of a script, with the text before each of them. -/
def notes (s : Settings) (time : String) (g : Graph) : List (List Char × List Char) :=
  [([], " Generated by schemasync".toList),
    (['\n'], " Dialect: ".toList ++ s.dialect.name.toList),
    (['\n'], " Generated at: ".toList ++ time.toList)] ++
  if keyTexts s g = [] then []
  else [('\n' :: '\n' :: front s g, " Foreign Key Constraints".toList)]

/-- What follows the last comment of a script. -/
def lastGap (s : Settings) (g : Graph) : List Char :=
  if keyTexts s g = [] then '\n' :: '\n' :: front s g else '\n' :: statementLines (keyTexts s g)

theorem toList_header (s : Settings) (time : String) : (header s time).toList =
    noted [([], " Generated by schemasync".toList),
      (['\n'], " Dialect: ".toList ++ s.dialect.name.toList),
      (['\n'], " Generated at: ".toList ++ time.toList)] ['\n', '\n'] := by
  have hdialect : "-- Generated by schemasync\n-- Dialect: ".toList =
      '-' :: '-' :: " Generated by schemasync".toList ++
        '\n' :: '-' :: '-' :: " Dialect: ".toList := rfl
  have htime : "\n-- Generated at: ".toList = '\n' :: '-' :: '-' :: " Generated at: ".toList := rfl
  have hend : "\n\n".toList = ['\n', '\n'] := rfl
  unfold header noted
  simp only [String.toList_append, hdialect, htime, hend, List.flatMap_cons, List.flatMap_nil,
    List.append_assoc, List.cons_append, List.nil_append]

theorem toList_script_noted (s : Settings) (time : String) (g : Graph) :
    (script s time g).toList = noted (notes s time g) (lastGap s g) := by
  have hmark : keySectionMark.toList = '-' :: '-' :: " Foreign Key Constraints".toList := rfl
  have hfront : (script s time g).toList =
      (header s time).toList ++ (front s g ++ (keySection s (keysOf g)).toList) := by
    rw [toList_script, String.toList_append, front, List.append_assoc, List.append_assoc]
  rw [hfront, toList_header, toList_keySection, hmark]
  unfold noted notes lastGap
  split <;>
  simp only [List.flatMap_cons, List.flatMap_nil, List.append_assoc, List.cons_append,
    List.nil_append, List.append_nil]

/-- The marks for the comments of a header. -/
def markedHeader : List Char :=
  mark 0 ++ '\n' :: (mark 1 ++ '\n' :: (mark 2 ++ ['\n', '\n']))

/-- The mark for the comment before the keys that are added, if there are any. -/
def markedKeys (s : Settings) (g : Graph) : List Char :=
  if keyTexts s g = [] then [] else mark 3 ++ ['\n']

section Undisturbed

variable {s : Settings} {g : Graph} (hg : Undisturbed s g) {time : String}

include hg

theorem quiet_comments_front : Quiet (Matches commentPattern) (front s g) :=
  quiet_front hg (composes_comments s id)
    (calm_of_free ledBy_comment (by simp [repairLeads]) (by decide))

theorem quiet_comments_statements :
    Quiet (Matches commentPattern) (statementLines (keyTexts s g)) :=
  Quiet.flatMap (quiet_keyText hg (composes_comments s fun h => h.toInert)
    (calm_of_free ledBy_comment (by simp [repairLeads]) (by decide)))

theorem noNul_front : '\x00' ∉ front s g := by
  have hwords : ∀ w ∈ "CREATE TABLE" :: "" :: "REFERENCES" :: scriptWords, '\x00' ∉ w.toList := by
    decide
  obtain ⟨hcreate, hwords⟩ := List.forall_mem_cons.1 hwords
  have hcomposes : Composes s Inert (Calm [.char '\x00']) :=
    composes_of_calm s (fun h => calm_char (by decide) h.noNul)
      fun w hw => calm_char (by decide) (hwords w hw)
  exact quiet_char.1 (quiet_front hg hcomposes (calm_char (by decide) hcreate))

theorem noNul_statements : '\x00' ∉ statementLines (keyTexts s g) := by
  intro hm
  obtain ⟨text, ht, hm⟩ := List.mem_flatMap.1 hm
  rcases List.mem_append.1 hm with hm | hm
  · exact noNul_keyText hg text ht hm
  · exact absurd hm (by decide)

variable (ht : '\n' ∉ time.toList)

include ht

theorem noted_script : Noted (notes s time g) (lastGap s g) := by
  have hline : Quiet (Matches commentPattern) ['\n'] :=
    (composes_comments s (I := Inert) id).nil '\n' (by decide)
  have hfront : Quiet (Matches commentPattern) ('\n' :: '\n' :: front s g) :=
    hline.append (hline.append (quiet_comments_front hg))
  have hdialect : '\n' ∉ " Dialect: ".toList ++ s.dialect.name.toList := by
    cases s.dialect <;> decide
  have htime : '\n' ∉ " Generated at: ".toList ++ time.toList := by
    rw [List.mem_append, not_or]
    exact ⟨by decide, ht⟩
  have hkeys : '\n' ∉ " Foreign Key Constraints".toList := by decide
  unfold notes lastGap
  split
  · exact {
      gaps := List.forall_mem_cons.2 ⟨.nil, List.forall_mem_cons.2 ⟨hline,
        List.forall_mem_singleton.2 hline⟩⟩
      lines := List.forall_mem_cons.2 ⟨by decide, List.forall_mem_cons.2 ⟨hdialect,
        List.forall_mem_singleton.2 htime⟩⟩
      ends := List.forall_mem_cons.2 ⟨rfl, List.forall_mem_singleton.2 rfl⟩
      ends_last := rfl
      quiet := hfront }
  · exact {
      gaps := List.forall_mem_cons.2 ⟨.nil, List.forall_mem_cons.2 ⟨hline,
        List.forall_mem_cons.2 ⟨hline, List.forall_mem_singleton.2 hfront⟩⟩⟩
      lines := List.forall_mem_cons.2 ⟨by decide, List.forall_mem_cons.2 ⟨hdialect,
        List.forall_mem_cons.2 ⟨htime, List.forall_mem_singleton.2 hkeys⟩⟩⟩
      ends := List.forall_mem_cons.2 ⟨rfl, List.forall_mem_cons.2 ⟨rfl,
        List.forall_mem_singleton.2 rfl⟩⟩
      ends_last := rfl
      quiet := hline.append (quiet_comments_statements hg) }

theorem segments_script : segments commentPattern (script s time g).toList =
    (notes s time g).flatMap (fun n => [.gap n.1, .found ['-' :: '-' :: n.2]]) ++
      [.gap (lastGap s g)] := by
  rw [toList_script_noted]
  exact segmentsAfter_noted (noted_script hg ht) none

/-- No NUL stands outside of comments. -/
theorem nulInComments_script : NulInComments (script s time g).toList := by
  have hfront : '\x00' ∉ '\n' :: '\n' :: front s g := by
    simpa using noNul_front hg
  have hstatements : '\x00' ∉ '\n' :: statementLines (keyTexts s g) := by
    simpa using noNul_statements hg
  intro gap hm
  rw [segments_script hg ht] at hm
  unfold notes lastGap at hm
  split at hm
  · have hgap : gap = [] ∨ gap = ['\n'] ∨ gap = '\n' :: '\n' :: front s g := by simpa using hm
    rcases hgap with rfl | rfl | rfl
    · decide
    · decide
    · exact hfront
  · have hgap : gap = [] ∨ gap = ['\n'] ∨ gap = '\n' :: '\n' :: front s g ∨
        gap = '\n' :: statementLines (keyTexts s g) := by simpa using hm
    rcases hgap with rfl | rfl | rfl | rfl
    · decide
    · decide
    · exact hfront
    · exact hstatements

/-- **What is left of a script without its comments.** -/
theorem text_withoutComments : (withoutComments (script s time g).toList).text =
    markedHeader ++ (front s g ++ markedKeys s g) ++ statementLines (keyTexts s g) := by
  unfold withoutComments mask
  dsimp only
  rw [segments_script hg ht]
  unfold notes lastGap markedHeader markedKeys
  split
  · rename_i hnone
    simp [markFrom, hnone, statementLines]
  · simp [markFrom]

end Undisturbed

/-! ## What is repaired -/

section Marks

variable {ps : List Pattern}
  (hps : ∀ parts, List.Forall₂ Pattern.Takes ps parts → OutsideEnds parts.flatten)
  (hline : Quiet (Matches ps) ['\n'])

include hps

/-- **Marks are quiet** for matches that begin outside of them. -/
theorem quiet_mark (n : Nat) : Quiet (Matches ps) (mark n) := by
  have hmark : ∀ c ∈ mark n, ¬Outside c := fun c => not_outside_of_mem_mark
  generalize mark n = cs at hmark
  intro before rest
  induction cs generalizing before with
  | nil => trivial
  | cons c cs ih =>
    obtain ⟨hc, hcs⟩ := List.forall_mem_cons.1 hmark
    refine ⟨fun ⟨taken, parts, hm⟩ => ?_, ih hcs (some c)⟩
    obtain ⟨after, htext⟩ := eq_append_of_matchAt hm
    obtain ⟨d, v, hd, houtside⟩ := (hps parts (takes_of_matchAt hm)).head
    have hcons : c :: cs ++ rest = parts.flatten ++ after := htext
    rw [hd] at hcons
    exact hc ((List.cons.inj hcons).1 ▸ houtside)

include hline

theorem quiet_markedHeader : Quiet (Matches ps) markedHeader :=
  (quiet_mark hps 0).append (hline.append ((quiet_mark hps 1).append
    (hline.append ((quiet_mark hps 2).append (hline.append hline)))))

theorem quiet_markedKeys (s : Settings) (g : Graph) : Quiet (Matches ps) (markedKeys s g) := by
  unfold markedKeys
  split
  · exact .nil
  · exact (quiet_mark hps 3).append hline

end Marks

theorem getLast?_markedEnums (s : Settings) (g : Graph) :
    (markedHeader ++ (enumSection s g).toList).getLast?.or none = some '\n' := by
  have hend : "\n".toList = ['\n'] := rfl
  unfold enumSection
  split
  · rw [String.toList_append, hend, ← List.append_assoc, List.getLast?_concat]
    rfl
  · decide

section Undisturbed

variable {s : Settings} {g : Graph} (hg : Undisturbed s g) {time : String}

include hg

theorem quiet_opening {ps : List Pattern}
    (hps : ∀ parts, List.Forall₂ Pattern.Takes ps parts → OutsideEnds parts.flatten)
    (h : Composes s Inert (Calm ps)) (hcreate : Calm ps "CREATE TABLE".toList) :
    Quiet (Matches ps) (markedHeader ++ (front s g ++ markedKeys s g)) := by
  have hline := h.nil '\n' (by decide)
  exact (quiet_markedHeader hps hline).append
    ((quiet_front hg h hcreate).append (quiet_markedKeys hps hline s g))

/-- The keys that are put aside are quiet, as marks or as they are. -/
theorem quiet_putAside {ps : List Pattern}
    (hps : ∀ parts, List.Forall₂ Pattern.Takes ps parts → OutsideEnds parts.flatten)
    (h : Composes s InertKey (Calm ps)) (halter : Calm ps "ALTER TABLE".toList) (n : Nat)
    (before : Option Char) : Quiet (Matches ps)
      (markFrom n (segmentsAfter addedKeyPattern before (statementLines (keyTexts s g)))) := by
  refine quiet_markFrom (solid_of_ends fun _ => outsideEnds_addedKey) (fun parts hp => ?_)
    (quiet_mark hps) (h.nil '\n' (by decide))
    (separate_keyTexts hg ledBy_addedKey (composes_keys s fun h => h.toInert))
    (quiet_keyText hg h halter) n before
  obtain ⟨v, v', hv, c, rfl, hc⟩ := Pattern.last_of_takes_all (p := .char ';') rfl (takes_of_one hp)
  exact ⟨v, by rw [hv, eq_of_beq hc]⟩

variable (ht : '\n' ∉ time.toList)

include ht

/-- **What is left of a script** without its comments and the statements that add keys. -/
theorem exists_putAside_text : ∃ n before,
    (putAside (script s time g).toList).text = markedHeader ++ (front s g ++ markedKeys s g) ++
      markFrom n (segmentsAfter addedKeyPattern before (statementLines (keyTexts s g))) ∧
    ∀ parts ∈ occurrences addedKeyPattern (withoutComments (script s time g).toList).text,
      .found parts ∈ segmentsAfter addedKeyPattern before (statementLines (keyTexts s g)) := by
  have hcreate : Calm addedKeyPattern "CREATE TABLE".toList :=
    calm_of_free ledBy_addedKey (by simp [repairLeads]) (by decide)
  have hquiet := quiet_opening hg (fun _ => outsideEnds_addedKey) (composes_keys s id) hcreate
  obtain ⟨gap, more, hgap, happ⟩ := segmentsAfter_append
    (solid_of_ends fun _ => outsideEnds_addedKey) (hquiet none (statementLines (keyTexts s g)))
  generalize (markedHeader ++ (front s g ++ markedKeys s g)).getLast?.or none = before at hgap
  have hall : segments addedKeyPattern (withoutComments (script s time g).toList).text =
      .gap (markedHeader ++ (front s g ++ markedKeys s g) ++ gap) :: more := by
    rw [text_withoutComments hg ht]
    exact happ
  refine ⟨(withoutComments (script s time g).toList).pieces.length, before, ?_, fun parts hp => ?_⟩
  · rw [hgap]
    unfold putAside mask
    dsimp only
    rw [hall, markFrom, markFrom, List.append_assoc _ gap]
  · rw [mem_occurrences, hall] at hp
    rw [hgap]
    rcases List.mem_cons.1 hp with hp | hp
    · cases hp
    · exact .tail _ hp

/-- **No comment stands inside a statement** that adds a key. -/
theorem noNul_occurrences_script :
    ∀ parts ∈ occurrences addedKeyPattern (withoutComments (script s time g).toList).text,
      '\x00' ∉ parts.flatten := by
  intro parts hp hm
  obtain ⟨n, before, -, hfound⟩ := exists_putAside_text hg ht
  refine noNul_statements hg ?_
  rw [← flatten_segmentsAfter addedKeyPattern before (statementLines (keyTexts s g))]
  exact List.mem_flatMap.2 ⟨.found parts, hfound parts hp, hm⟩

/-- **No target of several bare words** is found. -/
theorem occurrences_target_script :
    occurrences targetPattern (putAside (script s time g).toList).text = [] := by
  have hfree : ∀ w ∈ ["CREATE TABLE", "ALTER TABLE"], ∀ l ∈ [Lead.word "REFERENCES"],
      l.free none (w.toList ++ [' ']) = true := by
    decide
  have hcalm : ∀ w ∈ ["CREATE TABLE", "ALTER TABLE"], Calm targetPattern w.toList := fun w hw =>
    calm_of_free ledBy_target (by simp [repairLeads]) (hfree w hw)
  obtain ⟨n, before, htext, -⟩ := exists_putAside_text hg ht
  have hopening := quiet_opening hg (fun _ => outsideEnds_target) (composes_targets s id)
    (hcalm _ (.head _))
  have hkeys := quiet_putAside hg (fun _ => outsideEnds_target)
    (composes_targets s fun h => h.toInert) (hcalm _ (.tail _ (.head _))) n before
  have hnone := segmentsAfter_of_passes (solid_of_ends fun _ => outsideEnds_target)
    ((hopening.append hkeys) none [])
  rw [← htext] at hnone
  unfold occurrences segments
  rw [hnone]
  rfl

/-- **The tables that are found** are those of the graph. -/
theorem hasTable_script {header body : List Char}
    (h : HasTable none (putAside (script s time g).toList).text header body) :
    ∃ t ∈ g.tables, header = headerOf s t ∧ body = bodyOf (itemTexts s g t) := by
  have hcomposes := composes_tables s (I := InertBetween) id
  have halter : Calm createTablePattern "ALTER TABLE".toList :=
    calm_of_free ledBy_createTable (by simp [repairLeads]) (by decide)
  have hline := hcomposes.nil '\n' (by decide)
  obtain ⟨n, before, htext, -⟩ := exists_putAside_text hg ht
  have hfront : Quiet (Matches createTablePattern) (markedHeader ++ (enumSection s g).toList) :=
    (quiet_markedHeader (fun _ => outsideEnds_createTable) hline).append
      (quiet_enumSection hcomposes hg.enums)
  have hbehind := (quiet_markedKeys (fun _ => outsideEnds_createTable) hline s g).append
    (quiet_putAside hg (fun _ => outsideEnds_createTable)
      (composes_tables s fun h => h.toInertBetween) halter n before)
  rw [htext] at h
  unfold front at h
  refine hasTable_tables hfront (getLast?_markedEnums s g) hbehind (fun t ht => ?_)
    (fun t ht => onLines_itemTexts hg ht) ?_
  · exact quiet_afterTable hcomposes (hg.indexes t ht)
  · simpa only [List.append_assoc] using h

end Undisturbed

/-! ## The line before the keys -/

/-- What begins the line is a comment. -/
theorem matches_comment_of_lead {w : String} (hw : "--".toList <+: w.toList) (before : Option Char)
    (cs : List Char) (h : (Lead.chars w).target before cs) : Matches commentPattern before cs := by
  obtain ⟨rest, rfl⟩ := hw.trans ((leads_chars _ _ _).1 h)
  have hline : '\n' ∉ rest.takeWhile (· != '\n') := by
    intro hm
    have hne := List.mem_takeWhile_imp hm
    exact absurd hne (by decide)
  have hend : ∀ c ∈ (rest.dropWhile (· != '\n')).head?, c = '\n' := by
    intro c hc
    have hhead := List.head?_dropWhile_not (· != '\n') rest
    rw [hc] at hhead
    exact of_not_not fun hne => Bool.false_ne_true (hhead.symm.trans (bne_iff_ne.2 hne))
  have hm := matchAt?_comment hline hend before
  rw [List.takeWhile_append_dropWhile] at hm
  exact ⟨0, _, hm⟩

section Undisturbed

variable {s : Settings} {g : Graph} (hg : Undisturbed s g) {time : String}

/-- The header does not hold the line, if the time does not. -/
theorem quiet_header (hmark : holds keySectionMark.toList time.toList = false) :
    Quiet (Lead.chars keySectionMark).target (header s time).toList := by
  have hname : ∀ d : Dialect, (Lead.chars keySectionMark).passed none d.name.toList = true := by
    intro d
    cases d <;> decide
  have hdialect : (Lead.chars keySectionMark).passed none
      "-- Generated by schemasync\n-- Dialect: ".toList = true := by decide
  have hstamp : (Lead.chars keySectionMark).passed none "\n-- Generated at: ".toList = true := by
    decide
  have hline : (Lead.chars keySectionMark).passed none ['\n'] = true := by decide
  have hend : "\n\n".toList = ['\n'] ++ ['\n'] := rfl
  have htime := quiet_of_not_holds (by decide) (by decide) hmark
  have hfront := (Lead.quiet_of_passed hdialect).append (Lead.quiet_of_passed (hname s.dialect))
  have hall := hfront.append
    ((Lead.quiet_of_passed hstamp).append (htime.append (Lead.quiet_of_passed hline)))
  unfold header
  simpa only [String.toList_append, hend, List.append_assoc] using hall

include hg

/-- **The keys of a script** are the statements that add them, at most. -/
theorem keyStatements_script (hmark : holds keySectionMark.toList time.toList = false) :
    (keyStatements (script s time g).toList).Sublist ((keyTexts s g).map (· ++ [';'])) := by
  have hcomment : "--".toList <+: keySectionMark.toList := ⟨" Foreign Key Constraints".toList, rfl⟩
  have hfront : Quiet (Lead.chars keySectionMark).target ((header s time).toList ++ front s g) :=
    (quiet_header hmark).append
      ((quiet_comments_front hg).imp fun before cs => matches_comment_of_lead hcomment before cs)
  have htext : (script s time g).toList =
      (header s time).toList ++ front s g ++ (keySection s (keysOf g)).toList := by
    rw [toList_script, String.toList_append, front, List.append_assoc, List.append_assoc,
      List.append_assoc]
  unfold keyStatements
  rw [htext, toList_keySection]
  by_cases hnone : keyTexts s g = []
  · rw [if_pos hnone, List.append_nil, splitAtFirst?_eq_none (by decide) (hfront none [])]
    exact List.nil_sublist _
  · have hwords : (Lead.word "ALTER").passed none (keySectionMark.toList ++ ['\n']) = true := by
      decide
    have hmark : Quiet (Matches alterPattern) (keySectionMark.toList ++ ['\n']) :=
      ledBy_alter.quiet fun l hl => List.mem_singleton.1 hl ▸ Lead.quiet_of_passed hwords
    -- the line itself goes to the first gap, where no statement is looked for
    obtain ⟨gap, more, hgap, happ⟩ := segmentsAfter_append solid_alter
      (hmark none (statementLines (keyTexts s g)))
    generalize (keySectionMark.toList ++ ['\n']).getLast?.or none = before at hgap
    have hsub := addedConstraints_sublist
      (separate_keyTexts hg ledBy_alter (composes_statements s)) before
    rw [hgap] at hsub
    have hline : keySectionMark.toList ++ '\n' :: statementLines (keyTexts s g) =
        keySectionMark.toList ++ ['\n'] ++ statementLines (keyTexts s g) :=
      (List.append_assoc _ ['\n'] _).symm
    rw [if_neg hnone, splitAtFirst?_append (hfront none _), hline]
    unfold segments
    dsimp only
    rw [happ]
    exact hsub

/-! ## Scripts -/

/-- **A script is settled**, if its pieces are inert and its types are no names. -/
theorem settled_script (ht : '\n' ∉ time.toList)
    (hmark : holds keySectionMark.toList time.toList = false)
    (hnames : s.caseSensitive = false → TypesApart (.ofText (script s time g).toList) s g) :
    Settled (script s time g).toList where
  comments := noNul_occurrences_script hg ht
  headers header body h := by
    obtain ⟨t, -, rfl, -⟩ := hasTable_script hg ht h
    exact not_bareHeader_headerOf s t
  commas header body h := by
    obtain ⟨t, hm, -, rfl⟩ := hasTable_script hg ht h
    exact not_commaMissing_bodyOf _ (onLines_itemTexts hg hm)
  columns header body h := by
    obtain ⟨t, hm, -, rfl⟩ := hasTable_script hg ht h
    exact not_bareColumn_bodyOf (onLines_itemTexts hg hm) (severalWords?_items
      (fun hcase => (hnames hcase).clauses) (fun hcase => (hnames hcase).columns t hm) _)
  targets := by
    rw [occurrences_target_script hg ht]
    exact nofun
  keys := by
    have hnodup : ((keyTexts s g).map (· ++ [';'])).Nodup :=
      List.Pairwise.map _ (fun _ _ hne he => hne (List.append_cancel_right he)) (nodup_keyTexts s g)
    exact hnodup.sublist (keyStatements_script hg hmark)

omit hg in
/-- **Repairs leave a script alone** if its graph is undisturbed: no line or word in it is taken
for one that it is not. -/
theorem normalize_script (hg : Undisturbed s g) (ht : '\n' ∉ time.toList)
    (hmark : holds keySectionMark.toList time.toList = false)
    (hnames : s.caseSensitive = false → TypesApart (.ofText (script s time g).toList) s g) :
    normalize (script s time g) = script s time g := by
  have hsettled := settled_script hg ht hmark hnames
  unfold normalize
  rw [normalizeChars_of_settled (nulInComments_script hg ht) _ hsettled, String.ofList_toList]

end Undisturbed

/-- An enumeration, an index and a key to a table that is not in the graph, under bare names. -/
theorem normalize_script_posts :
    let s : Settings := { dialect := .postgresql, caseSensitive := false }
    let g : Graph :=
      { enums := [{ id := "e1", name := "mood", values := ["so-so", "it's fine"] }]
        tables := [
          { id := "t1", name := "posts", columns := [
              { title := "user_id", dataType := "integer", constraints := [.index],
                foreignKey := some {
                  table := "users", column := "id", onDelete := some "CASCADE", onUpdate := none,
                  resolved := false } },
              { title := "feeling", dataType := "mood" },
              { title := "note", dataType := "varchar", params := ["20"],
                defaultValue := some "none, yet" }] }] }
    normalize (script s "2024-01-01T00:00:00Z" g) = script s "2024-01-01T00:00:00Z" g := by
  intro s g
  have hg : Undisturbed s g := undisturbed_of_tame (by decide +kernel)
  have henums : (TypeWords.ofText (script s "2024-01-01T00:00:00Z" g).toList).enums = ["mood"] := by
    rw [toList_script_noted]
    decide +kernel
  have htypes : TypeWords.ofText (script s "2024-01-01T00:00:00Z" g).toList = ⟨["mood"]⟩ :=
    congrArg TypeWords.mk henums
  have hnames : TypesApart ⟨["mood"]⟩ s g := ⟨by decide, by decide +kernel⟩
  exact normalize_script hg (by decide) (by decide) fun _ => htypes ▸ hnames

/-- A string in which a key seems to have a target of two words: the words are quoted. -/
theorem normalize_script_quoted :
    let g : Graph :=
      { tables := [
          { id := "t1", name := "notes", columns := [
              { title := "body", dataType := "text",
                defaultValue := some "REFERENCES a b (" }] }] }
    normalize (script { dialect := .postgresql } "T" g) ≠
      script { dialect := .postgresql } "T" g := by
  decide +kernel

end DdlGraph.Repair
