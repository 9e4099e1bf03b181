import DdlGraph.Recovery.Draft
import Mathlib.Data.List.Perm.Subperm

/-!
# New names are new

A new title, id or name of an enumeration is looked for among as many numbers as there are names,
and one more (`freeName`). Different numbers make different names (`numbered_inj`,
`foldAscii_numbered_inj`), so one of them is free.

* `firstFree_freeName`: the name that is found is the first that is free;
* `freeName_not_mem`: so it is not among the keys it was compared with;
* `freeTitle_not_mem`, `freeId_fresh`, `columnEnumName_free`: the three uses of it.
-/

namespace DdlGraph

/-! ## Numbers in names -/

theorem toList_toString_inj {m n : Nat} (h : (toString m).toList = (toString n).toList) : m = n := by
  have hd := congrArg (fun ds => Nat.ofDigitChars 10 ds 0) h
  simpa [Nat.toString_eq_ofList_toDigits] using hd

theorem numbered_inj (base separator : String) {m n : Nat}
    (h : base ++ separator ++ toString m = base ++ separator ++ toString n) : m = n := by
  have hl := congrArg String.toList h
  simp only [String.toList_append] at hl
  exact toList_toString_inj (List.append_cancel_left hl)

theorem toLower_of_isDigit {c : Char} (h : c.isDigit = true) : c.toLower = c := by
  unfold Char.toLower
  rw [dif_neg]
  simp only [Char.isDigit, Bool.and_eq_true, decide_eq_true_eq, UInt32.le_iff_toNat_le] at h
  simp only [ge_iff_le, UInt32.le_iff_toNat_le, not_and]
  have h9 : '9'.val.toNat = 57 := rfl
  have hA : 'A'.val.toNat = 65 := rfl
  have h57 : (57 : UInt32).toNat = 57 := rfl
  omega

/-- Digits have no other case. -/
theorem map_toLower_digits (n : Nat) :
    (toString n).toList.map Char.toLower = (toString n).toList := by
  have h : ∀ c ∈ (toString n).toList, c.toLower = id c := by
    intro c hc
    rw [Nat.toString_eq_ofList_toDigits, String.toList_ofList] at hc
    exact toLower_of_isDigit (Nat.isDigit_of_mem_toDigits (by omega) (by omega) hc)
  rw [List.map_congr_left h, List.map_id]

theorem foldAscii_numbered_inj (base separator : String) {m n : Nat}
    (h : Text.foldAscii (base ++ separator ++ toString m) =
      Text.foldAscii (base ++ separator ++ toString n)) : m = n := by
  have hl := congrArg String.toList h
  simp only [Text.foldAscii, String.toList_ofList, String.toList_append, List.map_append,
    map_toLower_digits] at hl
  exact toList_toString_inj (List.append_cancel_left hl)

/-! ## A free number -/

/-- Of `count + 1` numbers one makes a name that is not among `count` keys. -/
theorem exists_number_not_mem {f : Nat → String} (inj : ∀ m n, f m = f n → m = n)
    {keys : List String} {count : Nat} (hc : keys.length ≤ count) :
    ∃ n ∈ List.range' 2 (count + 1), f n ∉ keys := by
  apply Classical.byContradiction
  intro hn
  have hsub : (List.range' 2 (count + 1)).map f ⊆ keys := by
    intro s hs
    obtain ⟨n, hr, rfl⟩ := List.mem_map.1 hs
    exact Classical.not_not.1 fun h => hn ⟨n, hr, h⟩
  have hnodup : ((List.range' 2 (count + 1)).map f).Nodup := by
    rw [List.Nodup, List.pairwise_map]
    exact (List.nodup_range' 1).imp fun hmn he => hmn (inj _ _ he)
  have hle := (List.subperm_of_subset hnodup hsub).length_le
  rw [List.length_map, List.length_range'] at hle
  omega

/-- Of the numbers from 2 on it is the first that is free. -/
theorem leastFree_least {count : Nat} {free : Nat → Bool}
    (h : ∃ n ∈ List.range' 2 (count + 1), free n = true) :
    2 ≤ leastFree count free ∧ free (leastFree count free) = true ∧
      ∀ m, 2 ≤ m → m < leastFree count free → free m = false := by
  cases hf : (List.range' 2 (count + 1)).find? free with
  | none =>
    obtain ⟨n, hn, hfree⟩ := h
    exact absurd hfree (List.find?_eq_none.1 hf n hn)
  | some n =>
    have hn : leastFree count free = n := by
      unfold leastFree
      rw [hf]
      rfl
    obtain ⟨hfree, hmem, hless⟩ := List.find?_range'_eq_some.1 hf
    rw [hn]
    exact ⟨(List.mem_range'_1.1 hmem).1, hfree, fun m hm hlt => by simpa using hless m hm hlt⟩

/-- **The first free name**: the base if it is not taken, and else the base with the first number,
from 2 on, for which it is not. -/
inductive FirstFree (taken : String → Prop) (base separator : String) : String → Prop
  | plain (free : ¬ taken base) : FirstFree taken base separator base
  | numbered (n : Nat) (used : taken base) (two_le : 2 ≤ n)
    (free : ¬ taken (base ++ separator ++ toString n))
    (least : ∀ m, 2 ≤ m → m < n → taken (base ++ separator ++ toString m)) :
    FirstFree taken base separator (base ++ separator ++ toString n)

theorem FirstFree.free {taken : String → Prop} {base separator name : String}
    (h : FirstFree taken base separator name) : ¬ taken name := by
  cases h with
  | plain free => exact free
  | numbered n used two_le free least => exact free

theorem FirstFree.congr {taken taken' : String → Prop} (h : ∀ name, taken name ↔ taken' name)
    {base separator name : String} (hf : FirstFree taken base separator name) :
    FirstFree taken' base separator name :=
  (funext fun name => propext (h name) : taken = taken') ▸ hf

/-- **The search ends at the first free name**, whatever part of a name is compared (`fold`). -/
theorem firstFree_freeName {fold : String → String} {taken : String → Bool} {keys : List String}
    {count : Nat} {base separator : String} (hc : keys.length ≤ count)
    (ht : ∀ s, taken s = true ↔ fold s ∈ keys)
    (inj : ∀ m n : Nat, fold (base ++ separator ++ toString m) =
      fold (base ++ separator ++ toString n) → m = n) :
    FirstFree (fun s => fold s ∈ keys) base separator (freeName taken count base separator) := by
  obtain ⟨n, hr, hn⟩ := exists_number_not_mem inj hc
  have hsome : ∃ n ∈ List.range' 2 (count + 1),
      (!taken (base ++ separator ++ toString n)) = true :=
    ⟨n, hr, by rwa [Bool.not_eq_true', ← Bool.not_eq_true, ht]⟩
  obtain ⟨htwo, hfree, hleast⟩ := leastFree_least hsome
  unfold freeName
  split
  · rename_i hb
    refine .numbered _ ((ht _).1 hb) htwo ?_ fun m hm hlt => (ht _).1 ?_
    · rwa [Bool.not_eq_true', ← Bool.not_eq_true, ht] at hfree
    · simpa using hleast m hm hlt
  · rename_i hb
    exact .plain (mt (ht _).2 hb)

/-- **A free name is free.** -/
theorem freeName_not_mem {fold : String → String} {taken : String → Bool} {keys : List String}
    {count : Nat} {base separator : String} (hc : keys.length ≤ count)
    (ht : ∀ s, taken s = true ↔ fold s ∈ keys)
    (inj : ∀ m n : Nat, fold (base ++ separator ++ toString m) =
      fold (base ++ separator ++ toString n) → m = n) :
    fold (freeName taken count base separator) ∉ keys :=
  (firstFree_freeName hc ht inj).free

theorem sameAscii_iff {s t : String} :
    Text.sameAscii s t = true ↔ Text.foldAscii s = Text.foldAscii t := by
  simp [Text.sameAscii]

/-! ## Titles, ids and enumerations -/

theorem Table.freeTitle_not_mem (t : Table) (title : String) :
    Text.foldAscii (t.freeTitle title) ∉ t.foldedTitles := by
  rw [t.freeTitle_eq]
  refine freeName_not_mem (by simp [Table.foldedTitles]) (fun s => ?_)
    fun m n => foldAscii_numbered_inj title "_"
  simp [Table.takes]

theorem IdPool.freeId_fresh (pool : IdPool) (kind name : String) :
    pool.freeId kind name ∉ pool.taken := by
  have h : ∀ s, pool.taken.contains s = true ↔ id s ∈ pool.taken := fun s => by simp
  exact freeName_not_mem (Nat.le_refl _) h
    fun m n => numbered_inj (IdPool.baseId kind name) "-"

theorem enumByName?_eq_none_iff {enums : List Enumeration} {name : String} :
    enumByName? enums name = none ↔
      Text.foldAscii name ∉ enums.map fun e => Text.foldAscii e.name := by
  unfold enumByName?
  rw [List.find?_eq_none]
  simp only [sameAscii_iff, List.mem_map, not_exists, not_and]

theorem Recovery.Draft.columnEnumName_free (d : Recovery.Draft) (table column : String) :
    enumByName? d.enums (d.columnEnumName table column) = none := by
  rw [enumByName?_eq_none_iff]
  refine freeName_not_mem (by simp) (fun s => ?_)
    fun m n => foldAscii_numbered_inj (table ++ "_" ++ column) "_"
  rw [← Classical.not_not (a := Text.foldAscii s ∈ _), ← enumByName?_eq_none_iff,
    Option.isSome_iff_ne_none]

end DdlGraph
