import DdlGraph.Proofs.PatternText

/-!
# Text that a search passes over

A text is *quiet* (`Quiet`) if nothing that is looked for begins in it, whatever stands around it.
Quiet texts are put together to quiet texts, and a search passes over them: what it finds in a text
is what it finds behind its quiet parts.

* `Quiet.append`, `Quiet.flatMap`: quiet texts are put together;
* `matchAt?_taken`: a match does not look at how much was read before;
* `search?_append_of_passes`, `segmentsAfter_append`: quiet text in front of another text;
* `segmentsAfter_of_passes`: quiet text alone.
-/

namespace DdlGraph.Text

/-! ## Quiet text -/

/-- What is looked for: it begins behind a character, in front of a text. -/
abbrev Target :=
  Option Char → List Char → Prop

/-- **Nothing begins in the text** `xs` behind `before` and in front of `rest`. -/
def Passes (here : Target) (before : Option Char) (xs rest : List Char) : Prop :=
  match xs with
  | [] => True
  | c :: cs => ¬here before (c :: cs ++ rest) ∧ Passes here (some c) cs rest

/-- **Quiet text**: nothing begins in it, whatever stands around it. -/
def Quiet (here : Target) (xs : List Char) : Prop :=
  ∀ before rest, Passes here before xs rest

section Quiet

variable {here : Target}

theorem passes_append {before : Option Char} {xs ys rest : List Char} :
    Passes here before (xs ++ ys) rest ↔
      Passes here before xs (ys ++ rest) ∧ Passes here (xs.getLast?.or before) ys rest := by
  induction xs generalizing before with
  | nil => exact ⟨fun h => ⟨trivial, h⟩, fun h => h.2⟩
  | cons c xs ih =>
    have hlast : (c :: xs).getLast?.or before = xs.getLast?.or (some c) := by
      rw [List.getLast?_cons]
      cases xs.getLast? <;> rfl
    rw [hlast, List.cons_append, Passes, Passes, ih, and_assoc, List.cons_append, List.append_assoc,
      List.cons_append]

theorem Quiet.nil : Quiet here [] :=
  fun _ _ => trivial

theorem Quiet.append {xs ys : List Char} (h : Quiet here xs) (h' : Quiet here ys) :
    Quiet here (xs ++ ys) :=
  fun before rest => passes_append.2 ⟨h before (ys ++ rest), h' _ rest⟩

theorem Quiet.flatMap {α : Type} {f : α → List Char} {l : List α}
    (h : ∀ x ∈ l, Quiet here (f x)) : Quiet here (l.flatMap f) := by
  induction l with
  | nil => exact .nil
  | cons x l ih =>
    obtain ⟨hx, hl⟩ := List.forall_mem_cons.1 h
    exact hx.append (ih hl)

theorem Passes.imp {there : Target} (hi : ∀ before cs, here before cs → there before cs)
    {before : Option Char} {xs rest : List Char} (h : Passes there before xs rest) :
    Passes here before xs rest := by
  induction xs generalizing before with
  | nil => trivial
  | cons c xs ih => exact ⟨fun hh => h.1 (hi _ _ hh), ih h.2⟩

theorem Quiet.imp {there : Target} (hi : ∀ before cs, here before cs → there before cs)
    {xs : List Char} (h : Quiet there xs) : Quiet here xs :=
  fun before rest => (h before rest).imp hi

end Quiet

/-! ## Places further on -/

/-- The same place in a text that is read from `n` characters before. -/
def Cursor.shift (n : Nat) (s : Cursor) : Cursor :=
  ⟨s.before, s.rest, s.taken + n⟩

section Shift

variable (n : Nat)

theorem stops_shift (p : Char → Bool) (found : List Cursor) (before : Option Char) (taken : Nat)
    (cs : List Char) : stops p (found.map (Cursor.shift n)) before (taken + n) cs =
      (stops p found before taken cs).map (Cursor.shift n) := by
  induction cs generalizing found before taken with
  | nil => rfl
  | cons c cs ih =>
    rw [stops, stops]
    have hfound := ih (⟨before, c :: cs, taken⟩ :: found) (some c) (taken + 1)
    rw [Nat.add_right_comm] at hfound
    split
    · exact hfound
    · rfl

variable {α β : Type} {f : β → α} {k : Cursor → Option α} {k' : Cursor → Option β}

theorem nearest_shift (h : ∀ s, k (s.shift n) = (k' s).map f) (before : Option Char) (taken : Nat)
    (cs : List Char) : Pattern.nearest k before (taken + n) cs =
      (Pattern.nearest k' before taken cs).map f := by
  induction cs generalizing before taken with
  | nil => exact h ⟨before, [], taken⟩
  | cons c cs ih =>
    have hhere : k ⟨before, c :: cs, taken + n⟩ = (k' ⟨before, c :: cs, taken⟩).map f :=
      h ⟨before, c :: cs, taken⟩
    rw [Pattern.nearest, Pattern.nearest, Nat.add_right_comm, ih, hhere]
    cases k' ⟨before, c :: cs, taken⟩ <;> rfl

/-- **A run does not look at how much was read.** -/
theorem Pattern.run_shift (p : Pattern) (h : ∀ s, k (s.shift n) = (k' s).map f) (s : Cursor) :
    p.run k (s.shift n) = (p.run k' s).map f := by
  induction p generalizing k k' s with
  | one p =>
    obtain ⟨before, cs, taken⟩ := s
    cases cs with
    | nil => rfl
    | cons c cs =>
      have hnext := h ⟨some c, cs, taken + 1⟩
      rw [Cursor.shift, Nat.add_right_comm] at hnext
      simp only [run, Cursor.step?, Cursor.shift]
      by_cases hc : p c = true
      · simp only [hc, if_true, hnext]
      · simp only [hc, Bool.false_eq_true, if_false, Option.map_none]
  | seq a b iha ihb => exact iha (fun s => ihb h s) s
  | either a b iha ihb =>
    rw [run, run, iha h, ihb h]
    cases a.run k' s <;> rfl
  | optional a iha =>
    rw [run, run, iha h, h]
    cases a.run k' s <;> rfl
  | span p =>
    have hstops : stops p [] s.before (s.taken + n) s.rest = _ := stops_shift n p [] _ _ _
    rw [run, run, Cursor.shift, hstops, List.findSome?_map, List.map_findSome?]
    exact congrArg (List.findSome? · _) (funext h)
  | upTo => exact nearest_shift n h s.before s.taken s.rest
  | many a iha =>
    have hturns : ∀ m s, repeatMany (fun k s => a.run k s) k m (s.shift n) =
        (repeatMany (fun k s => a.run k s) k' m s).map f := by
      intro m
      induction m with
      | zero => exact h
      | succ m ih =>
        intro s
        rw [repeatMany, repeatMany, iha ih, h]
        cases a.run (repeatMany (fun k s => a.run k s) k' m) s <;> rfl
    exact hturns s.rest.length s
  | few a iha =>
    have hturns : ∀ m s, repeatFew (fun k s => a.run k s) k m (s.shift n) =
        (repeatFew (fun k s => a.run k s) k' m s).map f := by
      intro m
      induction m with
      | zero => exact h
      | succ m ih =>
        intro s
        rw [repeatFew, repeatFew, iha ih, h]
        cases k' s <;> rfl
    exact hturns s.rest.length s
  | wordEdge =>
    rw [run, run, h]
    show (if s.atWordEdge then _ else _) = _
    cases s.atWordEdge <;> rfl
  | start =>
    rw [run, run, h]
    show (if s.before.isNone then _ else _) = _
    cases s.before.isNone <;> rfl

theorem endings?_shift (ps : List Pattern) (s : Cursor) :
    endings? ps (s.shift n) = (endings? ps s).map (List.map (Cursor.shift n)) := by
  induction ps generalizing s with
  | nil => rfl
  | cons p ps ih =>
    refine p.run_shift n (fun s => ?_) s
    rw [ih]
    cases endings? ps s <;> rfl

theorem between_shift (taken : Nat) (cs : List Char) (ends : List Cursor) :
    between (taken + n) cs (ends.map (Cursor.shift n)) = between taken cs ends := by
  induction ends generalizing taken cs with
  | nil => rfl
  | cons s ends ih =>
    have htake : (s.shift n).taken - (taken + n) = s.taken - taken :=
      Nat.add_sub_add_right s.taken n taken
    rw [List.map_cons, between, between, htake]
    exact congrArg _ (ih s.taken s.rest)

/-- **A match does not look at how much was read.** -/
theorem matchAt?_taken (ps : List Pattern) (before : Option Char) (cs : List Char) (taken : Nat) :
    matchAt? ps ⟨before, cs, taken⟩ = matchAt? ps ⟨before, cs, 0⟩ := by
  have hshift : (⟨before, cs, taken⟩ : Cursor) = Cursor.shift taken ⟨before, cs, 0⟩ := by
    rw [Cursor.shift, Nat.zero_add]
  unfold matchAt?
  rw [hshift, endings?_shift, Option.map_map]
  refine congrArg (Option.map · _) (funext fun ends => ?_)
  exact between_shift taken 0 cs ends

end Shift

/-! ## Searching -/

/-- A match of the patterns begins here. -/
def Matches (ps : List Pattern) : Target := fun before cs =>
  ∃ taken parts, matchAt? ps ⟨before, cs, taken⟩ = some parts

/-- No match is empty. -/
def Solid (ps : List Pattern) : Prop :=
  ∀ s parts, matchAt? ps s = some parts → parts.flatten ≠ []

theorem solid_of_takes {ps : List Pattern}
    (h : ∀ parts, List.Forall₂ Pattern.Takes ps parts → parts.flatten ≠ []) : Solid ps :=
  fun _ parts hm => h parts (takes_of_matchAt hm)

variable {ps : List Pattern}

theorem matchAt?_eq_none {before : Option Char} {cs : List Char} (h : ¬Matches ps before cs)
    (taken : Nat) : matchAt? ps ⟨before, cs, taken⟩ = none :=
  Option.eq_none_iff_forall_ne_some.2 fun parts hm => h ⟨taken, parts, hm⟩

theorem matches_char {x c : Char} {before : Option Char} {cs : List Char} :
    Matches [.char x] before (c :: cs) ↔ c = x := by
  constructor
  · rintro ⟨taken, parts, hm⟩
    obtain ⟨after, htext⟩ := eq_append_of_matchAt hm
    obtain ⟨d, hd, he⟩ := takes_of_one (takes_of_matchAt hm)
    have hcons : c :: cs = parts.flatten ++ after := htext
    rw [hd] at hcons
    exact (List.cons.inj hcons).1.trans (eq_of_beq he)
  · rintro rfl
    refine ⟨0, [[c]], ?_⟩
    simp [matchAt?, endings?, Pattern.char, Pattern.run, Cursor.step?, between]

/-- What a text does not hold does not begin in it. -/
theorem quiet_char {x : Char} {xs : List Char} : Quiet (Matches [.char x]) xs ↔ x ∉ xs := by
  have hpasses : ∀ before rest, Passes (Matches [.char x]) before xs rest ↔ x ∉ xs := by
    induction xs with
    | nil => exact fun _ _ => iff_of_true trivial List.not_mem_nil
    | cons c xs ih =>
      intro before rest
      rw [Passes, ih, List.cons_append, matches_char, List.mem_cons, not_or, eq_comm]
  exact ⟨fun h => (hpasses none []).1 (h none []), fun h before rest => (hpasses before rest).2 h⟩

/-- **A search passes over quiet text.** -/
theorem search?_append_of_passes (passed : List Char) {before : Option Char} (taken : Nat)
    {xs ys : List Char} (h : Passes (Matches ps) before xs ys) :
    search? ps passed before taken (xs ++ ys) =
      search? ps (xs.reverse ++ passed) (xs.getLast?.or before) (taken + xs.length) ys := by
  induction xs generalizing passed before taken with
  | nil => rfl
  | cons c xs ih =>
    have hlast : (c :: xs).getLast?.or before = xs.getLast?.or (some c) := by
      rw [List.getLast?_cons]
      cases xs.getLast? <;> rfl
    have hnone : matchAt? ps ⟨before, c :: (xs ++ ys), taken⟩ = none := matchAt?_eq_none h.1 taken
    rw [hlast, List.cons_append, search?, hnone]
    dsimp only
    rw [ih _ _ h.2, List.reverse_cons, List.append_assoc, List.length_cons, Nat.add_assoc,
      Nat.add_comm 1]
    rfl

theorem search?_eq_none_of_passes (hps : Solid ps) {passed : List Char} {before : Option Char}
    {taken : Nat} {xs : List Char} (h : Passes (Matches ps) before xs []) :
    search? ps passed before taken xs = none := by
  have happ := search?_append_of_passes passed taken h
  rw [List.append_nil] at happ
  rw [happ, search?, Option.map_eq_none_iff]
  refine Option.eq_none_iff_forall_ne_some.2 fun parts hm => hps _ parts hm ?_
  obtain ⟨rest, hr⟩ := eq_append_of_matchAt hm
  exact (List.append_eq_nil_iff.1 hr.symm).1

theorem matchAt?_of_search {passed passed' : List Char} {before : Option Char} {taken : Nat}
    {cs : List Char} {parts : List (List Char)}
    (h : search? ps passed before taken cs = some (passed', parts)) :
    ∃ s, matchAt? ps s = some parts := by
  induction cs generalizing passed before taken with
  | nil =>
    obtain ⟨parts', hp, he⟩ := Option.map_eq_some_iff.1 h
    cases he
    exact ⟨_, hp⟩
  | cons c cs ih =>
    unfold search? at h
    split at h
    · rename_i parts' hp
      cases h
      exact ⟨_, hp⟩
    · exact ih h

theorem search?_of_matchAt {before : Option Char} {cs : List Char} {parts : List (List Char)}
    (h : matchAt? ps ⟨before, cs, 0⟩ = some parts) :
    search? ps [] before 0 cs = some ([], parts) := by
  cases cs with
  | nil => rw [search?, h]; rfl
  | cons c cs => rw [search?, h]

theorem segmentsAfter_of_none {before : Option Char} {cs : List Char}
    (h : search? ps [] before 0 cs = none) : segmentsAfter ps before cs = [.gap cs] := by
  rw [segmentsAfter]
  split
  · rfl
  · rename_i hs
    rw [h] at hs
    cases hs

/-- A match goes on in the text. -/
theorem not_empty_of_search (hps : Solid ps) {before : Option Char} {cs passed : List Char}
    {parts : List (List Char)} (h : search? ps [] before 0 cs = some (passed, parts)) :
    parts.flatten ≠ [] ∧ ¬(cs.isEmpty = true ∨ passed.length + parts.flatten.length = 0) := by
  obtain ⟨s, hm⟩ := matchAt?_of_search h
  have hne := hps s parts hm
  refine ⟨hne, ?_⟩
  rintro (hempty | hzero)
  · obtain ⟨rest, hr⟩ := eq_append_of_search h
    rw [List.isEmpty_iff.1 hempty, List.reverse_nil, List.nil_append] at hr
    exact hne (List.append_eq_nil_iff.1 (List.append_eq_nil_iff.1 hr.symm).2).1
  · have hpos := List.length_pos_iff.2 hne
    omega

/-- **The first match**, and what is found behind it. -/
theorem segmentsAfter_of_search (hps : Solid ps) {before : Option Char} {cs passed : List Char}
    {parts : List (List Char)} (h : search? ps [] before 0 cs = some (passed, parts)) :
    segmentsAfter ps before cs = .gap passed.reverse :: .found parts ::
      segmentsAfter ps parts.flatten.getLast? (cs.drop (passed.length + parts.flatten.length)) := by
  obtain ⟨hne, hcs⟩ := not_empty_of_search hps h
  have hlast : parts.flatten.getLast?.or (passed.head?.or before) = parts.flatten.getLast? := by
    rw [List.getLast?_eq_getLast_of_ne_nil hne]
    rfl
  rw [segmentsAfter]
  split
  · rename_i hs
    rw [h] at hs
    cases hs
  · rename_i passed' parts' hs
    rw [h] at hs
    cases hs
    rw [if_neg hcs, hlast]

/-- **Quiet text is a gap.** -/
theorem segmentsAfter_of_passes (hps : Solid ps) {before : Option Char} {xs : List Char}
    (h : Passes (Matches ps) before xs []) : segmentsAfter ps before xs = [.gap xs] :=
  segmentsAfter_of_none (search?_eq_none_of_passes hps h)

theorem search?_shift (ps : List Pattern) (passed : List Char) (before : Option Char)
    (taken : Nat) (cs : List Char) : search? ps passed before taken cs =
      (search? ps [] before 0 cs).map fun r => (r.1 ++ passed, r.2) := by
  -- what was passed grows with the text, so the equation is about any front of it
  have hall : ∀ (cs passed more : List Char) (before : Option Char) (taken taken' : Nat),
      search? ps (passed ++ more) before taken cs =
        (search? ps passed before taken' cs).map fun r => (r.1 ++ more, r.2) := by
    intro cs
    induction cs with
    | nil =>
      intro passed more before taken taken'
      rw [search?, search?, matchAt?_taken, matchAt?_taken ps before [] taken', Option.map_map]
      rfl
    | cons c cs ih =>
      intro passed more before taken taken'
      rw [search?, search?, matchAt?_taken, matchAt?_taken ps before (c :: cs) taken']
      cases matchAt? ps ⟨before, c :: cs, 0⟩ with
      | some parts => rfl
      | none => exact ih (c :: passed) more (some c) (taken + 1) (taken' + 1)
  exact hall cs [] passed before taken 0

/-- **Quiet text in front** goes to the first gap. -/
theorem segmentsAfter_append (hps : Solid ps) {before : Option Char} {xs ys : List Char}
    (h : Passes (Matches ps) before xs ys) :
    ∃ g more, segmentsAfter ps (xs.getLast?.or before) ys = .gap g :: more ∧
      segmentsAfter ps before (xs ++ ys) = .gap (xs ++ g) :: more := by
  have hsearch : search? ps [] before 0 (xs ++ ys) =
      (search? ps [] (xs.getLast?.or before) 0 ys).map fun r => (r.1 ++ xs.reverse, r.2) := by
    rw [search?_append_of_passes [] 0 h, search?_shift, List.append_nil]
  cases hs : search? ps [] (xs.getLast?.or before) 0 ys with
  | none =>
    rw [hs] at hsearch
    exact ⟨ys, [], segmentsAfter_of_none hs, segmentsAfter_of_none hsearch⟩
  | some r =>
    obtain ⟨passed, parts⟩ := r
    rw [hs] at hsearch
    refine ⟨_, _, segmentsAfter_of_search hps hs, ?_⟩
    have hdrop : (xs ++ ys).drop ((passed ++ xs.reverse).length + parts.flatten.length) =
        ys.drop (passed.length + parts.flatten.length) := by
      rw [List.length_append, List.length_reverse, Nat.add_right_comm, Nat.add_comm,
        List.drop_length_add_append]
    rw [segmentsAfter_of_search hps hsearch, hdrop, List.reverse_append, List.reverse_reverse]

end DdlGraph.Text
