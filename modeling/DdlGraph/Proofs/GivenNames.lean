import DdlGraph.Proofs.KeptIdentity

/-!
# Names that are given one after another

Ids are handed out and columns are appended one by one, and each time a free name is looked for
among all that is taken by then. The search has no bound of its own (`Searches`): it looks at a
name, and then at one number after another. Since only finitely many names are taken it ends, at
the first free one (`FirstFree.searches`), which `freeName` computes; and a run of searches gives
every name once (`GivenNames.nodup`), whatever was taken before and whatever was asked for.

* `IdPool.allocateAll_given`: ids;
* `Table.addColumns_given`: titles of columns.
-/

namespace DdlGraph

/-! ## The search -/

section Search

variable {taken : String → Prop} {base separator : String}

/-- **The search for a free name**: it ends at a name that is not taken, and goes on from one that
is to `base` with the number `n`, after which `n + 1` is next. So a search that goes on for ever
finds nothing. -/
inductive Searches (taken : String → Prop) (base separator : String) :
    String → Nat → String → Prop
  | ends {candidate : String} {n : Nat} (free : ¬ taken candidate) :
    Searches taken base separator candidate n candidate
  | goesOn {candidate : String} {n : Nat} {name : String} (used : taken candidate)
    (rest : Searches taken base separator (base ++ separator ++ toString n) (n + 1) name) :
    Searches taken base separator candidate n name

/-- It finds one name at most. -/
theorem Searches.unique {candidate : String} {n : Nat} {name name' : String}
    (h : Searches taken base separator candidate n name)
    (h' : Searches taken base separator candidate n name') : name = name' := by
  induction h with
  | ends free =>
    cases h' with
    | ends => rfl
    | goesOn used => exact absurd used free
  | goesOn used rest ih =>
    cases h' with
    | ends free => exact absurd used free
    | goesOn _ rest' => exact ih rest'

/-- From a number on it goes past all that are taken. -/
theorem searches_from {m k : Nat} (free : ¬ taken (base ++ separator ++ toString (m + k)))
    (used : ∀ i, m ≤ i → i < m + k → taken (base ++ separator ++ toString i)) :
    Searches taken base separator (base ++ separator ++ toString m) (m + 1)
      (base ++ separator ++ toString (m + k)) := by
  induction k generalizing m with
  | zero => exact .ends free
  | succ k ih =>
    have hnext : m + (k + 1) = m + 1 + k := by omega
    rw [hnext] at free ⊢
    exact .goesOn (used m (Nat.le_refl m) (by omega))
      (ih free fun i hm hk => used i (by omega) (by omega))

/-- **The search ends at the first free name.** -/
theorem FirstFree.searches {name : String} (h : FirstFree taken base separator name) :
    Searches taken base separator base 2 name := by
  cases h with
  | plain free => exact .ends free
  | numbered n used two_le free least =>
    obtain ⟨k, rfl⟩ := Nat.exists_eq_add_of_le two_le
    exact .goesOn used (searches_from free least)

end Search

/-! ## A run of searches -/

section Run

variable {fold : String → String} {separator : String} {before bases names : List String}

/-- **Names given one after another** for `bases`. Names are compared by what `fold` leaves of
them, and `before` is taken already: for each base the search ends, and it finds the first name
that neither is taken nor was given to an earlier one. -/
structure GivenNames (fold : String → String) (separator : String)
    (before bases names : List String) : Prop where
  length_eq : names.length = bases.length
  first : ∀ (k : Nat) (base name : String), bases[k]? = some base → names[k]? = some name →
    Searches (fun s => fold s ∈ before ++ (names.take k).map fold) base separator base 2 name ∧
      FirstFree (fun s => fold s ∈ before ++ (names.take k).map fold) base separator name

theorem GivenNames.nil : GivenNames fold separator before [] [] :=
  ⟨rfl, fun _ _ _ h => nomatch h⟩

/-- The next names are looked for among those that are taken now. -/
theorem GivenNames.cons {now : List String} {base name : String}
    (hfirst : FirstFree (fun s => fold s ∈ before) base separator name)
    (hnow : ∀ key, key ∈ now ↔ key ∈ before ∨ key = fold name)
    (h : GivenNames fold separator now bases names) :
    GivenNames fold separator before (base :: bases) (name :: names) := by
  refine ⟨by rw [List.length_cons, List.length_cons, h.length_eq], fun k b found hb hn => ?_⟩
  cases k with
  | zero =>
    obtain rfl : base = b := by simpa using hb
    obtain rfl : name = found := by simpa using hn
    simp only [List.take_zero, List.map_nil, List.append_nil]
    exact ⟨hfirst.searches, hfirst⟩
  | succ k =>
    rw [List.getElem?_cons_succ] at hb hn
    have hfree : FirstFree (fun s => fold s ∈ before ++ ((name :: names).take (k + 1)).map fold)
        b separator found :=
      (h.first k b found hb hn).2.congr fun s => by
        simp only [List.take_succ_cons, List.map_cons, List.mem_append, List.mem_cons, hnow,
          or_assoc]
    exact ⟨hfree.searches, hfree⟩

/-- A name is given for each base. -/
theorem GivenNames.exists_base (h : GivenNames fold separator before bases names) {k : Nat}
    {name : String} (hn : names[k]? = some name) : ∃ base, bases[k]? = some base := by
  have hk : k < bases.length := by
    rw [← h.length_eq]
    exact (List.getElem?_eq_some_iff.1 hn).1
  exact ⟨bases[k], List.getElem?_eq_getElem hk⟩

/-- What is given differs from all that was taken or given before it. -/
theorem GivenNames.fresh (h : GivenNames fold separator before bases names) {k : Nat}
    {name : String} (hn : names[k]? = some name) :
    fold name ∉ before ++ (names.take k).map fold := by
  obtain ⟨base, hb⟩ := h.exists_base hn
  exact (h.first k base name hb hn).2.free

theorem GivenNames.apart (h : GivenNames fold separator before bases names) :
    ∀ name ∈ names, fold name ∉ before := by
  intro name hname hbefore
  obtain ⟨k, hk⟩ := List.mem_iff_getElem?.1 hname
  exact h.fresh hk (List.mem_append_left _ hbefore)

/-- **No name is given twice.** -/
theorem GivenNames.nodup (h : GivenNames fold separator before bases names) :
    (names.map fold).Nodup := by
  rw [List.Nodup, List.pairwise_map, List.pairwise_iff_getElem]
  intro i j hi hj hij heq
  refine h.fresh (List.getElem?_eq_getElem hj) (List.mem_append_right _ ?_)
  refine List.mem_map.2 ⟨names[i], ?_, heq⟩
  exact List.mem_take_iff_getElem.2 ⟨i, by omega, rfl⟩

end Run

/-! ## Ids -/

namespace IdPool

/-- The ids that are in use before the first is handed out. -/
def priorIds : Option Graph → List String
  | some g => g.ids
  | none => []

theorem taken_ofGraph? (previous : Option Graph) :
    (ofGraph? previous).taken = priorIds previous := by
  cases previous <;> rfl

/-- Ids for one kind and name after another. -/
def allocateAll (pool : IdPool) : List (String × String) → List String
  | [] => []
  | (kind, name) :: rest =>
    let r := pool.allocate kind name
    r.1 :: r.2.allocateAll rest

theorem freeId_firstFree (pool : IdPool) (kind name : String) :
    FirstFree (fun s => id s ∈ pool.taken) (baseId kind name) "-" (pool.freeId kind name) :=
  firstFree_freeName (Nat.le_refl _) (fun s => by simp) fun _ _ => numbered_inj _ _

theorem allocateAll_names (pool : IdPool) (calls : List (String × String)) :
    GivenNames id "-" pool.taken (calls.map fun call => baseId call.1 call.2)
      (pool.allocateAll calls) := by
  induction calls generalizing pool with
  | nil => exact .nil
  | cons call rest ih =>
    obtain ⟨kind, name⟩ := call
    refine .cons (pool.freeId_firstFree kind name) (fun key => ?_) (ih (pool.allocate kind name).2)
    rw [allocate, List.mem_cons, or_comm]
    rfl

/-- **Every id that is handed out is fresh**: whatever graph there was before and whatever is asked
for, each search ends with the first free of `kind-slug`, `kind-slug-2`, `kind-slug-3` and so on;
no id is handed out twice, and none is the id of a table or an enumeration of that graph. -/
theorem allocateAll_given (previous : Option Graph) (calls : List (String × String)) :
    GivenNames id "-" (priorIds previous) (calls.map fun call => call.1 ++ "-" ++ slug call.2)
        ((ofGraph? previous).allocateAll calls) ∧
      ((ofGraph? previous).allocateAll calls).Nodup ∧
      ∀ given ∈ (ofGraph? previous).allocateAll calls, given ∉ priorIds previous := by
  have h := (ofGraph? previous).allocateAll_names calls
  rw [taken_ofGraph?] at h
  exact ⟨h, by simpa using h.nodup, h.apart⟩

/-- Numbered ids run into a base that has the number itself. -/
example : allocateAll (ofGraph? (some { tables := [{ id := "table-users", name := "users" }] }))
    [("table", "users-2"), ("table", "Users"), ("table", "users_2"), ("enum", "!")] =
      ["table-users_2", "table-users-2", "table-users_2-2", "enum-unnamed"] := by
  decide +kernel

end IdPool

/-! ## Titles -/

namespace Table

/-- Columns appended one after another: the titles under which they are stored, and the table. -/
def addColumns (t : Table) : List Column → List String × Table
  | [] => ([], t)
  | c :: rest =>
    let r := (t.addColumn c).addColumns rest
    (t.freeTitle c.title :: r.1, r.2)

theorem freeTitle_firstFree (t : Table) (title : String) :
    FirstFree (fun s => Text.foldAscii s ∈ t.foldedTitles) title "_" (t.freeTitle title) := by
  rw [t.freeTitle_eq]
  exact firstFree_freeName (by simp [foldedTitles]) (fun s => by simp [takes])
    fun _ _ => foldAscii_numbered_inj _ _

theorem foldedTitles_addColumn (t : Table) (c : Column) :
    (t.addColumn c).foldedTitles = t.foldedTitles ++ [Text.foldAscii (t.freeTitle c.title)] := by
  simp [addColumn, foldedTitles]

theorem addColumns_names (t : Table) (cs : List Column) :
    GivenNames Text.foldAscii "_" t.foldedTitles (cs.map (·.title)) (t.addColumns cs).1 := by
  induction cs generalizing t with
  | nil => exact .nil
  | cons c rest ih =>
    refine .cons (t.freeTitle_firstFree c.title) (fun key => ?_) (ih (t.addColumn c))
    rw [foldedTitles_addColumn, List.mem_append, List.mem_singleton]

theorem addColumns_table (t : Table) (cs : List Column) :
    (t.addColumns cs).2 = { t with
      columns := t.columns ++
        List.zipWith (fun c title => { c with title }) cs (t.addColumns cs).1 } := by
  induction cs generalizing t with
  | nil => simp [addColumns]
  | cons c rest ih =>
    rw [addColumns, ih (t.addColumn c)]
    simp [addColumn]

theorem foldedTitles_addColumns (t : Table) (cs : List Column) :
    (t.addColumns cs).2.foldedTitles =
      t.foldedTitles ++ (t.addColumns cs).1.map Text.foldAscii := by
  induction cs generalizing t with
  | nil => simp [addColumns]
  | cons c rest ih =>
    rw [addColumns, ih (t.addColumn c), foldedTitles_addColumn]
    simp

/-- Titles that were apart stay so, and no others become so. -/
theorem nodup_foldedTitles_addColumns (t : Table) (cs : List Column) :
    (t.addColumns cs).2.foldedTitles.Nodup ↔ t.foldedTitles.Nodup := by
  rw [foldedTitles_addColumns, List.nodup_append']
  have hgiven := t.addColumns_names cs
  refine ⟨fun h => h.1, fun h => ⟨h, hgiven.nodup, fun key hkey hmem => ?_⟩⟩
  obtain ⟨title, htitle, rfl⟩ := List.mem_map.1 hmem
  exact hgiven.apart title htitle hkey

/-- **No column is lost and no title is given twice**, whatever titles the table has and whatever
is appended: all columns stay where they are, and behind them each new one stands as it is but for
its title. Its search ends with the first free of `title`, `title_2`, `title_3` and so on, which
differs from every earlier title, case left aside; so titles that are apart stay apart. -/
theorem addColumns_given (t : Table) (cs : List Column) :
    (t.addColumns cs).2 = { t with
        columns := t.columns ++
          List.zipWith (fun c title => { c with title }) cs (t.addColumns cs).1 } ∧
      GivenNames Text.foldAscii "_" t.foldedTitles (cs.map (·.title)) (t.addColumns cs).1 ∧
      ((t.addColumns cs).1.map Text.foldAscii).Nodup ∧
      (∀ title ∈ (t.addColumns cs).1, ∀ c ∈ t.columns, Text.sameAscii c.title title = false) ∧
      ((t.addColumns cs).2.foldedTitles.Nodup ↔ t.foldedTitles.Nodup) := by
  have hgiven := t.addColumns_names cs
  refine ⟨t.addColumns_table cs, hgiven, hgiven.nodup, fun title htitle c hc => ?_,
    t.nodup_foldedTitles_addColumns cs⟩
  rw [← Bool.not_eq_true, sameAscii_iff]
  exact fun heq => hgiven.apart title htitle (List.mem_map.2 ⟨c, hc, heq⟩)

/-- A title that a user gave already is gone past, in any case. -/
example : (addColumns
    { id := "t", name := "t", columns := [⟨"ID_2", "INT", [], [], none, none, false⟩] }
    [⟨"id", "INT", [], [], none, none, false⟩, ⟨"Id", "INT", [], [], none, none, false⟩]).1 =
      ["id", "Id_3"] := by
  decide +kernel

end Table

end DdlGraph
