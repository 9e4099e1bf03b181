import DdlGraph.Proofs.ColumnText
import DdlGraph.Proofs.LetterCase
import Mathlib.Data.List.TakeWhile

/-!
# Types read back in PostgreSQL

The types that a graph and PostgreSQL name alike (`plainTypes`), with any number of array marks and
with parameters of digits, are written so that they are read as what they were.

* `typeReads_plain`, `typeReads_double`, `typeReads_counting`, `typeReads_name`: the text of a type;
* `normalize_plain`: the type that a text names.
-/

namespace DdlGraph.Sql

/-! ## Names of types -/

/-- Types whose name in PostgreSQL is their name in capitals. -/
def plainTypes : List String :=
  ["integer", "bigint", "smallint", "text", "varchar", "char", "numeric", "uuid", "boolean", "date",
    "timestamp", "timestamptz", "json", "jsonb"]

/-- `n` pairs of brackets. -/
def brackets (n : Nat) : List Char :=
  (List.replicate n ['[', ']']).flatten

/-- A name with `n` array marks behind it. -/
def arrayOf (base : String) (n : Nat) : String :=
  base ++ .ofList (brackets n)

theorem toList_arrayOf (base : String) (n : Nat) :
    (arrayOf base n).toList = base.toList ++ brackets n := by
  unfold arrayOf
  rw [String.toList_append, String.toList_ofList]

theorem brackets_succ (n : Nat) : brackets (n + 1) = '[' :: ']' :: brackets n :=
  rfl

theorem mem_brackets {n : Nat} {c : Char} (h : c ∈ brackets n) : c = '[' ∨ c = ']' := by
  induction n with
  | zero => cases h
  | succ n ih =>
    rw [brackets_succ, List.mem_cons, List.mem_cons] at h
    rcases h with rfl | rfl | h
    · exact .inl rfl
    · exact .inr rfl
    · exact ih h

theorem brackets_succ' (n : Nat) : brackets (n + 1) = brackets n ++ ['[', ']'] := by
  induction n with
  | zero => rfl
  | succ n ih =>
    rw [brackets_succ (n + 1), brackets_succ n]
    exact congrArg (fun x => '[' :: ']' :: x) ih

theorem getLast?_arrayOf (base : String) (n : Nat) :
    (arrayOf base (n + 1)).toList.getLast? = some ']' := by
  rw [toList_arrayOf, brackets_succ', ← List.append_assoc]
  exact List.getLast?_append_cons _ _ _

/-- A type with array marks is none of the names without. -/
theorem arrayOf_not_mem {names : List String} {base : String} (hb : base ∉ names)
    (hn : ∀ x ∈ names, x.toList.getLast? ≠ some ']') (n : Nat) : arrayOf base n ∉ names := by
  cases n with
  | zero =>
    have h : arrayOf base 0 = base := by
      rw [← String.toList_inj, toList_arrayOf]
      exact List.append_nil _
    rw [h]
    exact hb
  | succ n => exact fun h => hn _ h (getLast?_arrayOf base n)

theorem foldAscii_arrayOf (base : String) (n : Nat) :
    Text.foldAscii (arrayOf base n) = arrayOf (Text.foldAscii base) n := by
  have hb : (brackets n).map Char.toLower = brackets n := by
    refine (List.map_congr_left fun c hc => ?_).trans (List.map_id _)
    rcases mem_brackets hc with rfl | rfl <;> rfl
  unfold Text.foldAscii
  rw [toList_arrayOf, List.map_append, hb, String.ofList_append]
  rfl

/-- The name holds ASCII characters only. -/
def IsAscii (s : String) : Prop :=
  ∀ c ∈ s.toList, c.toNat < 128

theorem isAscii_arrayOf {base : String} (h : IsAscii base) (n : Nat) : IsAscii (arrayOf base n) := by
  intro c hc
  rw [toList_arrayOf] at hc
  rcases List.mem_append.1 hc with hc | hc
  · exact h c hc
  · rcases mem_brackets hc with rfl | rfl <;> decide

theorem lower_arrayOf {base : String} (h : IsAscii base) (n : Nat) :
    Text.lower (arrayOf base n) = arrayOf (Text.foldAscii base) n := by
  rw [Text.lower_ascii (isAscii_arrayOf h n), foldAscii_arrayOf]

theorem upper_arrayOf (base : String) (n : Nat) :
    Text.upper (arrayOf base n) = arrayOf (Text.upper base) n := by
  have hb : (brackets n).flatMap Text.upperChar = brackets n := by
    induction n with
    | zero => rfl
    | succ n ih =>
      rw [brackets_succ, List.flatMap_cons, List.flatMap_cons, ih]
      rfl
  unfold Text.upper
  rw [toList_arrayOf, List.flatMap_append, hb, String.ofList_append]
  rfl

/-- A word in ASCII without blanks. -/
structure PlainWord (s : String) : Prop where
  ascii : IsAscii s
  nonempty : s.toList ≠ []
  notBlank : ∀ c ∈ s.toList, Text.isBlank c = false

/-- **What the names of plain types have in common**, as they stand in a graph and in a text. -/
structure PlainName (base : String) : Prop where
  word : PlainWord base
  upper : PlainWord (Text.upper base)
  folded : Text.foldAscii base = base
  foldedUpper : Text.foldAscii (Text.upper base) = base
  head : base.toList.head? ≠ some 'e'
  ends : (Text.upper base).toList.getLast? ≠ some ']'
  spelled : spells Lexeme.isWord (Text.upper base) [.ident (Text.upper base)] = true

theorem plainName_of_mem {base : String} (h : base ∈ plainTypes) : PlainName base := by
  have hwords : ∀ base ∈ plainTypes, ∀ s ∈ [base, Text.upper base],
      s.toList.all (fun c => decide (c.toNat < 128)) = true ∧ s.toList ≠ [] ∧
        s.toList.all (fun c => !Text.isBlank c) = true := by
    decide
  have hword : ∀ s ∈ [base, Text.upper base], PlainWord s := by
    intro s hs
    obtain ⟨hascii, hne, hblank⟩ := hwords base h s hs
    exact ⟨fun c hc => of_decide_eq_true (List.all_eq_true.1 hascii c hc), hne,
      fun c hc => (Bool.not_eq_true' _).mp (List.all_eq_true.1 hblank c hc)⟩
  have hnames : ∀ base ∈ plainTypes, Text.foldAscii base = base ∧
      Text.foldAscii (Text.upper base) = base ∧ base.toList.head? ≠ some 'e' ∧
        (Text.upper base).toList.getLast? ≠ some ']' ∧
          spells Lexeme.isWord (Text.upper base) [.ident (Text.upper base)] = true := by
    decide +kernel
  obtain ⟨hfold, hfoldUpper, hhead, hends, hspells⟩ := hnames base h
  exact ⟨hword base (.head _), hword (Text.upper base) (.tail _ (.head _)), hfold, hfoldUpper,
    hhead, hends, hspells⟩

/-! ## The type of a text -/

/-- Names that stand for a type of another name. -/
def renamedTypes : List String :=
  ["serial", "serial4", "bigserial", "serial8", "smallserial", "serial2", "character varying",
    "character", "double precision", "bool", "timestamp with time zone",
    "timestamp without time zone"]

theorem words_of_notBlank {cs : List Char} (hne : cs ≠ []) (h : ∀ c ∈ cs, Text.isBlank c = false) :
    Text.words cs = [cs] := by
  obtain ⟨c, rest, rfl⟩ := List.exists_cons_of_ne_nil hne
  have htrim : Text.trimStart (c :: rest) = c :: rest := by
    unfold Text.trimStart
    rw [List.dropWhile_cons, h c (.head _), if_neg Bool.false_ne_true]
  have hall : ∀ d ∈ c :: rest, (!Text.isBlank d) = true := by
    intro d hd
    rw [h d hd]
    rfl
  have hnext : Text.nextWord (c :: rest) = (c :: rest, []) := by
    unfold Text.nextWord
    rw [List.takeWhile_eq_self_iff.2 hall, List.dropWhile_eq_nil_iff.2 hall]
  have hnil : Text.words [] = [] := by
    rw [Text.words]
    rfl
  rw [Text.words]
  split
  · rename_i he
    rw [htrim] at he
    cases he
  · rename_i he
    rw [htrim] at he
    cases he
    rw [hnext, hnil]

theorem normalize_of_notBlank {written : String} (hne : written.toList ≠ [])
    (h : ∀ c ∈ written.toList, Text.isBlank c = false) (hn : Text.lower written ∉ renamedTypes) :
    BaseType.normalize written = ⟨Text.lower written, false⟩ := by
  unfold BaseType.normalize
  rw [words_of_notBlank hne h]
  have hjoin : Text.join " " ([written.toList].map String.ofList) = written := by
    rw [List.map_singleton, String.ofList_toList]
    rfl
  dsimp only
  rw [hjoin]
  generalize Text.lower written = low at hn
  split <;> first | rfl | exact absurd (by decide) hn

theorem normalize_arrayOf {base word : String} (h : base ∈ plainTypes) (hw : PlainWord word)
    (hf : Text.foldAscii word = base) (n : Nat) :
    BaseType.normalize (arrayOf word n) = ⟨arrayOf base n, false⟩ := by
  have hlower : Text.lower (arrayOf word n) = arrayOf base n := by
    rw [lower_arrayOf hw.ascii, hf]
  have hnot : ∀ base ∈ plainTypes, base ∉ renamedTypes := by decide
  have hrenamed : Text.lower (arrayOf word n) ∉ renamedTypes := by
    rw [hlower]
    exact arrayOf_not_mem (hnot base h) (by decide) n
  have hne : (arrayOf word n).toList ≠ [] := by
    rw [toList_arrayOf]
    exact List.append_ne_nil_of_left_ne_nil hw.nonempty _
  have hblank : ∀ c ∈ (arrayOf word n).toList, Text.isBlank c = false := by
    intro c hc
    rw [toList_arrayOf] at hc
    rcases List.mem_append.1 hc with hc | hc
    · exact hw.notBlank c hc
    · rcases mem_brackets hc with rfl | rfl <;> rfl
  rw [normalize_of_notBlank hne hblank hrenamed, hlower]

/-- **A plain type in capitals is read as the type.** -/
theorem normalize_plain {base : String} (h : base ∈ plainTypes) (n : Nat) :
    BaseType.normalize (arrayOf (Text.upper base) n) = ⟨arrayOf base n, false⟩ :=
  normalize_arrayOf h (plainName_of_mem h).upper (plainName_of_mem h).foldedUpper n

theorem isSerialType_plain {base : String} (h : base ∈ plainTypes) (n : Nat) :
    isSerialType (arrayOf base n) = false := by
  unfold isSerialType
  rw [normalize_arrayOf h (plainName_of_mem h).word (plainName_of_mem h).folded n]

theorem postgresType?_plain {base : String} (h : base ∈ plainTypes) (n : Nat) :
    postgresType? (arrayOf base n) = none := by
  have hnot : ∀ base ∈ plainTypes, base ∉ ["double", "datetime", "tinyint", "blob", "longblob",
      "longtext", "mediumtext", "tinytext"] := by
    decide
  have hn := arrayOf_not_mem (hnot base h) (by decide) n
  generalize arrayOf base n = name at hn
  unfold postgresType?
  split <;> first | rfl | exact absurd (by decide) hn

/-! ## The text of a type -/

theorem splitArrays_brackets {cs : List Char} (h : cs.head? ≠ some ']') (n : Nat) :
    splitArrays ((brackets n).reverse ++ cs) = ((brackets n).reverse, cs) := by
  induction n with
  | zero =>
    cases cs with
    | nil => rfl
    | cons c cs =>
      have hc : c ≠ ']' := fun he => h (congrArg some he)
      change splitArrays (c :: cs) = ([], c :: cs)
      unfold splitArrays
      split
      · rename_i he
        exact absurd (List.cons.inj he).1 hc
      · rfl
  | succ n ih =>
    rw [brackets_succ', List.reverse_append]
    change splitArrays (']' :: '[' :: ((brackets n).reverse ++ cs)) = _
    rw [splitArrays, ih]
    rfl

/-- The text of a type of one word: the word, its parameters, its array marks. -/
def typeText (word : String) (params : List String) (n : Nat) : List Char :=
  word.toList ++ (if params.isEmpty then [] else ("(" ++ Text.join "," params ++ ")").toList) ++
    brackets n

/-- Parameters stand before the array marks. -/
theorem withParams_arrayOf {word : String} (h : word.toList.getLast? ≠ some ']') (n : Nat)
    (params : List String) : (withParams (arrayOf word n) params).toList = typeText word params n := by
  unfold withParams typeText
  cases params with
  | nil =>
    rw [if_pos (by rfl), if_pos (by rfl), toList_arrayOf, List.append_nil]
  | cons p params =>
    have hsplit : splitArrays (arrayOf word n).toList.reverse =
        ((brackets n).reverse, word.toList.reverse) := by
      rw [toList_arrayOf, List.reverse_append]
      refine splitArrays_brackets ?_ n
      rw [List.head?_reverse]
      exact h
    rw [if_neg (by simp), if_neg (by simp)]
    dsimp only
    rw [hsplit]
    simp only [List.reverse_reverse, String.toList_append, String.toList_ofList, List.append_assoc]

/-- **The text of a plain type** is its name in capitals. -/
theorem renderType_plain {base : String} (h : base ∈ plainTypes) (n : Nat) (params : List String) :
    (renderType (arrayOf base n) params .postgresql).toList =
      typeText (Text.upper base) params n := by
  have hp := plainName_of_mem h
  have hlower : Text.lower (arrayOf base n) = arrayOf base n := by
    rw [lower_arrayOf hp.word.ascii, hp.folded]
  unfold renderType
  dsimp only
  rw [hlower, postgresType?_plain h, Option.getD_none, upper_arrayOf]
  exact withParams_arrayOf hp.ends n params

/-- A parameter made of digits. -/
structure IsDigits (p : String) : Prop where
  nonempty : p ≠ ""
  digits : ∀ c ∈ p.toList, c.isDigit = true

instance (p : String) : Decidable (IsDigits p) :=
  decidable_of_iff (p ≠ "" ∧ p.toList.all Char.isDigit = true)
    ⟨fun h => ⟨h.1, List.all_eq_true.1 h.2⟩, fun h => ⟨h.nonempty, List.all_eq_true.2 h.digits⟩⟩

theorem lexeme_digit {c : Char} (h : c.isDigit = true) (b : Bool) (cs : List Char) :
    lexeme b c cs = numberLexeme (c :: cs) := by
  have hc : c ∈ "0123456789".toList := by
    have hascii : c.toNat < 128 := by
      simp only [Char.isDigit, Bool.and_eq_true, decide_eq_true_eq, UInt32.le_iff_toNat_le] at h
      exact Nat.lt_of_le_of_lt h.2 (by decide)
    revert h
    exact Text.of_ascii (p := fun c => c.isDigit = true → c ∈ "0123456789".toList)
      (by decide) hascii
  have hten : c = '0' ∨ c = '1' ∨ c = '2' ∨ c = '3' ∨ c = '4' ∨ c = '5' ∨ c = '6' ∨ c = '7' ∨
      c = '8' ∨ c = '9' := by
    simpa using hc
  rcases hten with rfl | rfl | rfl | rfl | rfl | rfl | rfl | rfl | rfl | rfl <;> rfl

theorem reads_digits {p : String} (h : IsDigits p) (b : Bool) : Reads b p.toList [.num p] := by
  intro rest hr
  obtain ⟨c, cs, hp⟩ := List.exists_cons_of_ne_nil fun he => h.nonempty (String.toList_eq_nil_iff.1 he)
  have hnumber : number p.toList = (p.toList, []) := by
    rw [number_of_no_point]
    · rw [List.takeWhile_eq_self_iff.2 h.digits, List.dropWhile_eq_nil_iff.2 h.digits]
    · rw [List.dropWhile_eq_nil_iff.2 h.digits]
      exact fun _ => nofun
  have hstops := number_stops (congrArg Prod.snd hnumber) hr
  rw [hnumber] at hstops
  have hlexeme : lexeme b c (cs ++ rest) = spelled (.num p) p.toList rest := by
    rw [lexeme_digit (h.digits c (hp ▸ .head _)), numberLexeme, ← List.cons_append, ← hp, hstops,
      String.ofList_toList]
  rw [hp, List.cons_append, tokensOf_cons, hlexeme]
  rfl

/-- The tokens of parameters with their parentheses. -/
def paramTokens (params : List String) : List Token :=
  if params.isEmpty then []
  else .lparen :: [Token.comma].intercalate (params.map fun p => [.num p]) ++ [.rparen]

theorem reads_params {params : List String} (h : ∀ p ∈ params, IsDigits p) (b : Bool) :
    Closed b (if params.isEmpty then [] else ("(" ++ Text.join "," params ++ ")").toList)
      (paramTokens params) := by
  unfold paramTokens
  split
  · exact .nil
  · have hopen : Closed b "(".toList [.lparen] := closed_fixed (by decide) b
    have hcomma : Closed b ",".toList [.comma] := closed_fixed (by decide) b
    have hclose : Closed b ")".toList [.rparen] := closed_fixed (by decide) b
    have hdigits : ∀ p ∈ params, Reads b p.toList [.num p] := fun p hp => reads_digits (h p hp) b
    have hlist := reads_intercalate hcomma (by decide) (by decide) hdigits
    have hall := (hopen.append_reads hlist).append_closed hclose (by decide)
      (by decide)
    unfold Text.join
    rw [String.toList_append, String.toList_append, String.toList_intercalate]
    exact hall

theorem closed_brackets (n : Nat) (b : Bool) :
    Closed b (brackets n) (List.replicate n .arraySuffix) := by
  induction n with
  | zero => exact .nil
  | succ n ih => exact (closed_arraySuffix b).append ih

/-- The tokens of a type of one word. -/
def wordTokens (word : String) (n : Nat) (params : List String) : List Token :=
  .ident word :: paramTokens params ++ List.replicate n .arraySuffix

theorem reads_typeText {word : String} (h : spells Lexeme.isWord word [.ident word] = true) (n : Nat)
    {params : List String} (hp : ∀ p ∈ params, IsDigits p) (b : Bool) :
    Reads b (typeText word params n) (wordTokens word n params) := by
  have hname : Reads b word.toList [.ident word] := reads_literal h b
  have hstops : Stops (if params.isEmpty then []
      else ("(" ++ Text.join "," params ++ ")").toList) := by
    split
    · exact nofun
    · rw [String.append_assoc, String.toList_append]
      exact Stops.append (by decide) (by decide) _
  have hbrackets : Stops (brackets n) := by
    intro c hc
    cases n with
    | zero => cases hc
    | succ n =>
      obtain rfl := Option.some.inj hc
      decide
  exact (hname.append (reads_params hp b).reads hstops).append (closed_brackets n b).reads hbrackets

/-! ## Reading -/

theorem paramItems_row {params : List String} (h : ∀ p ∈ params, IsDigits p)
    (before : List String) (rest : Input) :
    paramItems before ""
        (row ([Token.comma].intercalate (params.map fun p => [.num p])) ++ ⟨.rparen, 0⟩ :: rest) =
      .ok (before ++ params) rest := by
  induction params generalizing before with
  | nil =>
    rw [List.append_nil]
    rfl
  | cons p params ih =>
    have hp : p.isEmpty = false := by
      rw [String.isEmpty_eq_false_iff]
      exact (h p (.head _)).nonempty
    cases params with
    | nil =>
      change Step.ok (if p.isEmpty then before else before ++ [p]) rest = _
      rw [hp]
      rfl
    | cons next params =>
      have hnext := ih (fun q hq => h q (.tail _ hq)) (before ++ [p])
      rw [List.map_cons, List.append_assoc] at hnext
      rw [List.map_cons, List.map_cons, List.intercalate_cons_cons]
      exact hnext

theorem typeTail_params {params : List String} (h : ∀ p ∈ params, IsDigits p) {c : ColumnDef}
    (hc : c.params = []) (rest : Input) :
    typeTail c (row (paramTokens params) ++ rest) = typeTail { c with params } rest := by
  unfold paramTokens
  cases params with
  | nil =>
    rw [if_pos (by rfl), row_nil, List.nil_append, ← hc]
  | cons p params =>
    have hitems := paramItems_row h [] rest
    have hempty : c.params.isEmpty = true := List.isEmpty_iff.2 hc
    rw [if_neg (by simp), row_append, row_cons, List.append_assoc, List.cons_append,
      typeTail_lparen rfl hempty, row_cons, row_nil, List.singleton_append, hitems]
    rfl

theorem typeTail_brackets (n : Nat) (c : ColumnDef) (rest : Input) :
    typeTail c (row (List.replicate n .arraySuffix) ++ rest) =
      typeTail { c with typeName := arrayOf c.typeName n } rest := by
  induction n generalizing c with
  | zero =>
    have h : arrayOf c.typeName 0 = c.typeName := by
      rw [← String.toList_inj, toList_arrayOf]
      exact List.append_nil _
    rw [h]
    rfl
  | succ n ih =>
    have h : arrayOf (c.typeName ++ "[]") n = arrayOf c.typeName (n + 1) := by
      rw [← String.toList_inj, toList_arrayOf, toList_arrayOf, String.toList_append, brackets_succ,
        List.append_assoc]
      rfl
    rw [List.replicate_succ, row_cons, List.cons_append, typeTail]
    dsimp only
    rw [ih, h]

end DdlGraph.Sql

namespace DdlGraph

/-! ## Types of enumerations -/

theorem enumName?_columnType {c : Column} {e : Enumeration} (h : c.dataType = e.columnType)
    (he : e.name ≠ "") : c.enumName? = some e.name := by
  have hlist : c.dataType.toList = 'e' :: 'n' :: 'u' :: 'm' :: '_' :: e.name.toList := by
    rw [h]
    unfold Enumeration.columnType
    rw [String.toList_append]
    rfl
  have hne : e.name.toList.isEmpty = false := by
    simpa using he
  unfold Column.enumName?
  rw [hlist]
  change (if e.name.toList.isEmpty then none else some (String.ofList e.name.toList)) = _
  rw [hne, String.ofList_toList]
  rfl

theorem enumName?_of_head {c : Column} (h : c.dataType.toList.head? ≠ some 'e') :
    c.enumName? = none := by
  unfold Column.enumName?
  split
  · rename_i name hlist
    rw [hlist] at h
    exact absurd rfl h
  · rfl

end DdlGraph

namespace DdlGraph.Ddl

open DdlGraph.Sql

theorem typeTail_end {rest : Input} (h : Ends rest) (c : ColumnDef) :
    typeTail c rest = .ok c rest := by
  cases rest with
  | nil => rw [typeTail]
  | cons p rest =>
    have ht : p.token ∈ partEnds := h
    rw [typeTail]
    split
    · rename_i he
      rw [he] at ht
      simp [partEnds] at ht
    · rename_i he
      rw [he] at ht
      exact absurd ht (by decide)
    · rename_i he
      rw [he] at ht
      exact absurd ht (by decide)
    · rename_i he
      rw [he] at ht
      exact absurd ht (by decide)
    · rfl

/-- A type that is one word or name, with what `typeTail` reads behind it. -/
theorem column_of_typeTail {t : Token} {name title : String}
    (ht : t = .ident name ∨ t = .quotedIdent name) {ts rest : Input} {c : ColumnDef}
    (h : typeTail { name := title, typeName := name } ts = .ok c rest) :
    column title (⟨t, 0⟩ :: ts) = modifiers c rest := by
  unfold column dataType
  rcases ht with rfl | rfl
  · dsimp only
    rw [h]
    rfl
  · dsimp only
    rw [h]
    rfl

/-- **A type of one word reads back**, with its parameters and array marks. -/
theorem typeReads_word {word : String} (h : spells Lexeme.isWord word [.ident word] = true) (n : Nat)
    {params : List String} (hp : ∀ p ∈ params, IsDigits p) (b : Bool) (title : String) :
    TypeReads b (typeText word params n) title
      { name := title, typeName := arrayOf word n, params } := by
  refine ⟨_, reads_typeText h n hp b, fun rest hr => ?_⟩
  unfold wordTokens
  rw [List.cons_append, row_cons, row_append, List.cons_append, List.append_assoc]
  refine column_of_typeTail (.inl rfl) ?_
  rw [typeTail_params hp rfl, typeTail_brackets, typeTail_end hr]

theorem typeReads_plain {base : String} (h : base ∈ plainTypes) (n : Nat) {params : List String}
    (hp : ∀ p ∈ params, IsDigits p) (b : Bool) (title : String) :
    TypeReads b (renderType (arrayOf base n) params .postgresql).toList title
      { name := title, typeName := arrayOf (Text.upper base) n, params } := by
  rw [renderType_plain h]
  exact typeReads_word (plainName_of_mem h).spelled n hp b title

/-- A name of a type. -/
theorem typeReads_name (s : Settings) (name : String) (b : Bool) (title : String) :
    TypeReads b (quote s name).toList title { name := title, typeName := name } :=
  ⟨_, reads_quote s name b, fun _ hr =>
    column_of_typeTail (nameToken_cases s name) (typeTail_end hr _)⟩

theorem typeReads_double (b : Bool) (title : String) :
    TypeReads b "DOUBLE PRECISION".toList title
      { name := title, typeName := "DOUBLE PRECISION" } := by
  have hreads : Reads b "DOUBLE PRECISION".toList [.ident "DOUBLE", .ident "PRECISION"] :=
    reads_fixed (by decide) b
  refine ⟨_, hreads, fun rest hr => column_of_typeTail (.inl rfl) ?_⟩
  have hword : isTypeContinuation "PRECISION" = true := by decide
  change typeTail _ (⟨.ident "PRECISION", 0⟩ :: rest) = _
  rw [typeTail]
  dsimp only
  rw [if_pos hword, typeTail_end hr]
  rfl

/-- The types that count up. -/
def countingTypes : List String :=
  ["integer", "bigint", "smallint"]

theorem typeReads_counting {base : String} (h : base ∈ countingTypes) (b : Bool) (title : String) :
    TypeReads b (renderCountingType base .postgresql).toList title
      { name := title, typeName := renderCountingType base .postgresql } := by
  have hword : ∀ base ∈ countingTypes, spells Lexeme.isWord (renderCountingType base .postgresql)
      [.ident (renderCountingType base .postgresql)] = true := by
    decide +kernel
  exact ⟨_, reads_literal (hword base h) b, fun _ hr =>
    column_of_typeTail (.inl rfl) (typeTail_end hr _)⟩

end DdlGraph.Ddl
