import DdlGraph.Proofs.FreshName

/-!
# Small forms

Two names that differ only in the case of `A` to `Z` have one small form (`lower_of_sameAscii`), and
the small form of names with a bar between them is that of each (`lower_bar`), since a bar stops
what a capital sigma looks at.

* `lower_ascii`: the small form of a text in ASCII;
* `lower_bar_inj`: the part before the first bar is found again.
-/

namespace DdlGraph.Text

/-! ## ASCII -/

/-- A property of the ASCII characters, checked one by one. -/
theorem of_ascii {p : Char → Prop} (h : ∀ n < 128, p (Char.ofNat n)) {c : Char}
    (hc : c.toNat < 128) : p c := by
  have hp := h c.toNat hc
  rw [Char.ofNat_toNat] at hp
  exact hp

theorem toLower_of_not_ascii {c : Char} (h : ¬ c.toNat < 128) : c.toLower = c := by
  unfold Char.toLower
  split
  · rename_i hc
    exact absurd (show c.toNat < 128 from Nat.lt_of_le_of_lt hc.2 (by decide)) h
  · rfl

theorem lowerChar_toLower (c : Char) : lowerChar c.toLower = lowerChar c := by
  by_cases hc : c.toNat < 128
  · exact of_ascii (p := fun c => lowerChar c.toLower = lowerChar c) (by decide) hc
  · rw [toLower_of_not_ascii hc]

theorem isCased_toLower (c : Char) : isCased c.toLower = isCased c := by
  by_cases hc : c.toNat < 128
  · exact of_ascii (p := fun c => isCased c.toLower = isCased c) (by decide) hc
  · rw [toLower_of_not_ascii hc]

theorem isCaseIgnorable_toLower (c : Char) : isCaseIgnorable c.toLower = isCaseIgnorable c := by
  by_cases hc : c.toNat < 128
  · exact of_ascii (p := fun c => isCaseIgnorable c.toLower = isCaseIgnorable c) (by decide) hc
  · rw [toLower_of_not_ascii hc]

theorem toLower_eq_sigma_iff (c : Char) : c.toLower = 'Σ' ↔ c = 'Σ' := by
  by_cases hc : c.toNat < 128
  · exact of_ascii (p := fun c => c.toLower = 'Σ' ↔ c = 'Σ') (by decide) hc
  · rw [toLower_of_not_ascii hc]

theorem meetsCased_cons (c : Char) (cs : List Char) :
    meetsCased (c :: cs) = if isCaseIgnorable c then meetsCased cs else isCased c := by
  unfold meetsCased
  rw [List.dropWhile_cons]
  cases isCaseIgnorable c <;> rfl

theorem lowerFrom_cons (before : List Char) (c : Char) (rest : List Char) :
    lowerFrom before (c :: rest) =
      (if c = 'Σ' then if meetsCased before && !meetsCased rest then ['ς'] else ['σ']
        else lowerChar c) ++ lowerFrom (c :: before) rest :=
  rfl

theorem meetsCased_map_toLower (cs : List Char) :
    meetsCased (cs.map Char.toLower) = meetsCased cs := by
  induction cs with
  | nil => rfl
  | cons c cs ih =>
    rw [List.map_cons, meetsCased_cons, meetsCased_cons, isCaseIgnorable_toLower, isCased_toLower,
      ih]

theorem lowerFrom_map_toLower (before cs : List Char) :
    lowerFrom (before.map Char.toLower) (cs.map Char.toLower) = lowerFrom before cs := by
  induction cs generalizing before with
  | nil => rfl
  | cons c cs ih =>
    have hrest := ih (c :: before)
    rw [List.map_cons] at hrest
    rw [List.map_cons, lowerFrom_cons, lowerFrom_cons, hrest, meetsCased_map_toLower,
      meetsCased_map_toLower, lowerChar_toLower]
    by_cases hc : c = 'Σ'
    · rw [if_pos hc, if_pos ((toLower_eq_sigma_iff c).2 hc)]
    · rw [if_neg hc, if_neg fun h => hc ((toLower_eq_sigma_iff c).1 h)]

theorem lower_foldAscii (s : String) : lower (foldAscii s) = lower s := by
  unfold lower foldAscii
  rw [String.toList_ofList]
  exact congrArg String.ofList (lowerFrom_map_toLower [] s.toList)

/-- **Names equal in ASCII case have one small form.** -/
theorem lower_of_sameAscii {s t : String} (h : sameAscii s t = true) : lower s = lower t := by
  rw [← lower_foldAscii s, ← lower_foldAscii t, sameAscii_iff.1 h]

/-- What is in ASCII has one small form, whatever stands around it. -/
theorem lowerFrom_ascii_append {cs : List Char} (h : ∀ c ∈ cs, c.toNat < 128)
    (before rest : List Char) :
    lowerFrom before (cs ++ rest) =
      cs.map Char.toLower ++ lowerFrom (cs.reverse ++ before) rest := by
  induction cs generalizing before with
  | nil => rfl
  | cons c cs ih =>
    have hc := h c (.head _)
    have hsigma : c ≠ 'Σ' := by
      rintro rfl
      exact absurd hc (by decide)
    have hlower : lowerChar c = [c.toLower] := if_pos hc
    rw [List.cons_append, lowerFrom_cons, if_neg hsigma, hlower, ih fun d hd => h d (.tail _ hd),
      List.reverse_cons, List.append_assoc]
    rfl

theorem lowerFrom_ascii {cs : List Char} (h : ∀ c ∈ cs, c.toNat < 128) (before : List Char) :
    lowerFrom before cs = cs.map Char.toLower := by
  have happend := lowerFrom_ascii_append h before []
  rw [List.append_nil] at happend
  exact happend.trans (List.append_nil _)

/-- **Small form of a text in ASCII.** -/
theorem lower_ascii {s : String} (h : ∀ c ∈ s.toList, c.toNat < 128) : lower s = foldAscii s :=
  congrArg String.ofList (lowerFrom_ascii h [])

/-! ## Bars -/

theorem meetsCased_bar (xs ys : List Char) : meetsCased (xs ++ '|' :: ys) = meetsCased xs := by
  induction xs with
  | nil => rfl
  | cons c xs ih =>
    rw [List.cons_append, meetsCased_cons, meetsCased_cons, ih]

/-- What stands before a bar does not count behind it. -/
theorem lowerFrom_before_bar (before more cs : List Char) :
    lowerFrom (before ++ '|' :: more) cs = lowerFrom before cs := by
  induction cs generalizing before with
  | nil => rfl
  | cons c cs ih =>
    have hrest := ih (c :: before)
    rw [List.cons_append] at hrest
    rw [lowerFrom_cons, lowerFrom_cons, hrest, meetsCased_bar]

theorem lowerFrom_bar (before xs ys : List Char) :
    lowerFrom before (xs ++ '|' :: ys) = lowerFrom before xs ++ '|' :: lowerFrom [] ys := by
  induction xs generalizing before with
  | nil =>
    rw [List.nil_append, lowerFrom, lowerFrom]
    exact congrArg ('|' :: ·) (lowerFrom_before_bar [] before ys)
  | cons c xs ih =>
    rw [List.cons_append, lowerFrom_cons, lowerFrom_cons, ih, meetsCased_bar, List.append_assoc]

/-- **The small form of names with a bar between them.** -/
theorem lower_bar (s t : String) : (lower (s ++ "|" ++ t)).toList =
    (lower s).toList ++ '|' :: (lower t).toList := by
  unfold lower
  rw [String.toList_ofList, String.toList_ofList, String.toList_ofList, String.toList_append,
    String.toList_append, List.append_assoc]
  exact lowerFrom_bar [] s.toList t.toList

/-- No run of letters ends up at a code point that is in the image of none. -/
theorem shifted?_ne {runs : List CaseRun} {k : Nat} (hk : 0 < k)
    (hruns : ∀ run ∈ runs, (k : Int) < run.first + run.shift ∨ run.last + run.shift < (k : Int))
    (n : Nat) : shifted? runs n ≠ some k := by
  induction runs with
  | nil => exact nofun
  | cons run runs ih =>
    unfold shifted?
    split
    · exact nofun
    · split
      · rename_i hfirst hlast
        have hrun := hruns run (.head _)
        rw [ne_eq, Option.some.injEq]
        omega
      · exact ih fun r hr => hruns r (.tail _ hr)

theorem ofNat_ne {n : Nat} {mark : Char} (hmark : 0 < mark.toNat) (h : n ≠ mark.toNat) :
    Char.ofNat n ≠ mark := by
  rintro rfl
  unfold Char.ofNat at h hmark
  by_cases hv : n.isValidChar
  · rw [dif_pos hv] at h
    exact h rfl
  · rw [dif_neg hv] at hmark
    exact absurd hmark (by decide)

/-- **A mark that is no small form** but its own. -/
structure Unmade (mark : Char) : Prop where
  pos : 0 < mark.toNat
  ascii : ∀ n < 128, Char.ofNat n ≠ mark → mark ∉ [(Char.ofNat n).toLower]
  pair : mark ∉ lowerChar 'İ'
  runs : ∀ run ∈ lowerRuns,
    (mark.toNat : Int) < run.first + run.shift ∨ run.last + run.shift < (mark.toNat : Int)

theorem Unmade.not_mem_lowerChar {mark : Char} (h : Unmade mark) {c : Char} (hc : c ≠ mark) :
    mark ∉ lowerChar c := by
  unfold lowerChar
  by_cases hascii : c.toNat < 128
  · rw [if_pos hascii]
    revert hc
    exact of_ascii (p := fun c => c ≠ mark → mark ∉ [c.toLower]) h.ascii hascii
  · rw [if_neg hascii]
    split
    · exact h.pair
    · unfold shift
      rw [List.mem_singleton]
      split
      · rename_i n hn
        exact Ne.symm (ofNat_ne h.pos fun he => shifted?_ne h.pos h.runs c.toNat (he ▸ hn))
      · exact Ne.symm hc

theorem unmade_bar : Unmade '|' :=
  ⟨by decide, by decide, by decide, by decide +kernel⟩

theorem bar_not_mem_lowerChar {c : Char} (h : c ≠ '|') : '|' ∉ lowerChar c :=
  unmade_bar.not_mem_lowerChar h

theorem bar_not_mem_lowerFrom {cs : List Char} (h : '|' ∉ cs) (before : List Char) :
    '|' ∉ lowerFrom before cs := by
  induction cs generalizing before with
  | nil => exact nofun
  | cons c cs ih =>
    rw [List.mem_cons, not_or] at h
    rw [lowerFrom_cons, List.mem_append, not_or]
    refine ⟨?_, ih h.2 _⟩
    split
    · split <;> decide
    · exact bar_not_mem_lowerChar (Ne.symm h.1)

/-- Texts are the same up to the first mark, and behind it. -/
theorem append_cons_inj {mark : Char} {xs ys xs' ys' : List Char} (hx : mark ∉ xs)
    (hx' : mark ∉ xs') (h : xs ++ mark :: ys = xs' ++ mark :: ys') : xs = xs' ∧ ys = ys' := by
  induction xs generalizing xs' with
  | nil =>
    cases xs' with
    | nil => exact ⟨rfl, (List.cons.inj h).2⟩
    | cons c xs' => exact absurd ((List.cons.inj h).1 ▸ List.mem_cons_self) hx'
  | cons c xs ih =>
    cases xs' with
    | nil => exact absurd ((List.cons.inj h).1 ▸ List.mem_cons_self) hx
    | cons c' xs' =>
      obtain ⟨rfl, hrest⟩ := List.cons.inj h
      obtain ⟨rfl, rfl⟩ := ih (fun hm => hx (.tail _ hm)) (fun hm => hx' (.tail _ hm)) hrest
      exact ⟨rfl, rfl⟩

/-- **The part before the first bar is found again.** -/
theorem lower_bar_inj {s t s' t' : String} (hs : '|' ∉ s.toList) (hs' : '|' ∉ s'.toList)
    (h : lower (s ++ "|" ++ t) = lower (s' ++ "|" ++ t')) :
    lower s = lower s' ∧ lower t = lower t' := by
  have hl := congrArg String.toList h
  rw [lower_bar, lower_bar] at hl
  obtain ⟨h1, h2⟩ := append_cons_inj
    (by unfold lower; rw [String.toList_ofList]; exact bar_not_mem_lowerFrom hs [])
    (by unfold lower; rw [String.toList_ofList]; exact bar_not_mem_lowerFrom hs' []) hl
  exact ⟨String.toList_inj.1 h1, String.toList_inj.1 h2⟩

end DdlGraph.Text
