import DdlGraph.Ddl.KeySpec
import DdlGraph.Proofs.ColumnMap
import DdlGraph.Proofs.KeptIdentity

/-!
# The first of each key

Edges for links and the foreign keys of a graph are both cut down to the first of each key, with a
list of the keys that were seen. What is left is said here without that list (`FirstsOf`): the keys
in the order in which they first occur, and with each key the first element that has it.

* `map_fst_firstOfEach`: the keys that are left;
* `firstsOf_firstOfEach`: what is left is the first of each key;
* `FirstsOf.unique`: and nothing else is.
-/

namespace DdlGraph

open Ddl

variable {α : Type}

/-- **The first of each key** of `xs`: all keys, each once and where it first occurs, and with each
the first element that has it. -/
structure FirstsOf (key : α → String) (xs firsts : List α) : Prop where
  keys : firsts.map key = (xs.map key).eraseDups
  first : ∀ x ∈ firsts, xs.find? (fun y => key y == key x) = some x

/-! ## Keys that were not seen -/

/-- Of the keys that were not seen each is left once. -/
theorem map_fst_firstOfEach (seen : List String) (entries : List (String × α)) :
    (firstOfEach seen entries).map (·.1) =
      ((entries.map (·.1)).filter fun k => !seen.contains k).eraseDups := by
  induction entries generalizing seen with
  | nil => rfl
  | cons entry rest ih =>
    obtain ⟨key, a⟩ := entry
    unfold firstOfEach
    by_cases hseen : seen.contains key = true
    · have hnot : ¬ (!seen.contains key) = true := by simpa using hseen
      rw [if_pos hseen, ih seen, List.map_cons,
        List.filter_cons_of_neg (p := fun k => !seen.contains k) hnot]
    · have hfresh : (!seen.contains key) = true := by simpa using hseen
      have hfilter : (fun k => !(key :: seen).contains k) =
          fun k => !(k == key) && !seen.contains k := by
        funext k
        rw [List.contains_cons, Bool.not_or]
      rw [if_neg hseen, List.map_cons, List.map_cons, ih (key :: seen)]
      dsimp only
      rw [List.filter_cons_of_pos (p := fun k => !seen.contains k) hfresh, List.eraseDups_cons,
        List.filter_filter, hfilter]

/-! ## What is left -/

section
variable (key : α → String) (xs : List α)

/-- **What is left is the first of each key.** -/
theorem firstsOf_firstOfEach :
    FirstsOf key xs ((firstOfEach [] (xs.map fun x => (key x, x))).map (·.2)) := by
  have hkey : ∀ entry ∈ firstOfEach [] (xs.map fun x => (key x, x)), key entry.2 = entry.1 := by
    intro entry hentry
    obtain ⟨x, -, rfl⟩ := List.mem_map.1 (mem_of_mem_firstOfEach hentry)
    rfl
  constructor
  · calc ((firstOfEach [] (xs.map fun x => (key x, x))).map (·.2)).map key
        = (firstOfEach [] (xs.map fun x => (key x, x))).map (·.1) := by
          rw [List.map_map]
          exact List.map_congr_left hkey
      _ = (((xs.map fun x => (key x, x)).map (·.1)).filter fun _ => true).eraseDups :=
          map_fst_firstOfEach [] _
      _ = (xs.map key).eraseDups := by
          rw [List.filter_true, List.map_map]
          rfl
  · intro x hx
    obtain ⟨entry, hentry, rfl⟩ := List.mem_map.1 hx
    have hfound := lookup_of_nodup (firstOfEach_nodup [] _).1 hentry
    have hlookup := lookup_map_eq_find? key id xs entry.1
    rw [Option.map_id] at hlookup
    rw [lookup_firstOfEach _ List.not_mem_nil] at hfound
    rw [hkey entry hentry]
    exact hlookup.symm.trans hfound

variable {key xs}

/-- No other list is the first of each key. -/
theorem FirstsOf.unique {firsts firsts' : List α} (h : FirstsOf key xs firsts)
    (h' : FirstsOf key xs firsts') : firsts = firsts' := by
  have hfound : ∀ {l : List α}, FirstsOf key xs l →
      l.map some = (l.map key).map fun k => xs.find? fun y => key y == k := by
    intro l hl
    rw [List.map_map]
    exact List.map_congr_left fun x hx => (hl.first x hx).symm
  have hsome : firsts.map some = firsts'.map some := by
    rw [hfound h, hfound h', h.keys, h'.keys]
  exact List.map_injective_iff.2 (fun _ _ => Option.some.inj) hsome

end

end DdlGraph
