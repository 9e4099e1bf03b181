import DdlGraph.Sql.Dialect

/-!
# Arguments of the command line

A command, one path and options in any order: `--name value`, `--name=value`, `-n value` or
`-nvalue`. After `--` there are no options. What does not fit this is a usage error.

* `Arguments.ofList?_nodup`: an option is given once at most.
-/

namespace DdlGraph.Cli

/-- An option that a command has. -/
structure OptionSpec where
  name : String
  short : Option Char := none
  takesValue : Bool := true

/-- Arguments taken apart: the options by name, and what is none. -/
structure Arguments where
  options : List (String × String) := []
  positional : List String := []

namespace Arguments

/-- The value that is given for an option. -/
def value? (a : Arguments) (name : String) : Option String :=
  a.options.lookup name

def isGiven (a : Arguments) (name : String) : Bool :=
  (a.value? name).isSome

/-- An option more, if it is not there yet. -/
def set? (a : Arguments) (name value : String) : Option Arguments :=
  if a.isGiven name then none else some { a with options := a.options ++ [(name, value)] }

end Arguments

/-- The argument is an option, or what ends them. -/
def isDashed (arg : String) : Bool :=
  match arg.toList with
  | '-' :: _ :: _ => true
  | _ => false

/-- What an argument is. -/
inductive Form where
  | endOfOptions
  /-- An option by its long name, perhaps with a value. -/
  | long (name : String) (value : Option String)
  /-- An option by its letter, perhaps with a value. -/
  | short (letter : Char) (value : Option String)
  | plain

/-- The parts before and after an equals sign. -/
def splitEquals (cs : List Char) : List Char × Option (List Char) :=
  match cs.dropWhile (· ≠ '=') with
  | [] => (cs, none)
  | _ :: value => (cs.takeWhile (· ≠ '='), some value)

def Form.ofArgument (arg : String) : Form :=
  match arg.toList with
  | ['-', '-'] => .endOfOptions
  | '-' :: '-' :: cs =>
    let r := splitEquals cs
    .long (.ofList r.1) (r.2.map String.ofList)
  | ['-'] => .plain
  | ['-', c] => .short c none
  | '-' :: c :: '=' :: value => .short c (some (.ofList value))
  | '-' :: c :: value => .short c (some (.ofList value))
  | _ => .plain

/-- The option that an argument names, and the value it comes with. -/
def Form.option? (specs : List OptionSpec) : Form → Option (OptionSpec × Option String)
  | .long name value => (specs.find? (·.name == name)).map (·, value)
  | .short letter value => (specs.find? (·.short == some letter)).map (·, value)
  | _ => none

/-- **Arguments of a list**, after those of `a`. -/
def Arguments.ofList? (specs : List OptionSpec) (a : Arguments) : List String → Option Arguments
  | [] => some a
  | arg :: rest => match Form.ofArgument arg with
    | .endOfOptions => some { a with positional := a.positional ++ rest }
    | .plain => ofList? specs { a with positional := a.positional ++ [arg] } rest
    | form => match form.option? specs with
      | none => none
      | some (spec, value) =>
        if spec.takesValue then
          match value, rest with
          | some value, rest => (a.set? spec.name value).bind fun a => ofList? specs a rest
          | none, [] => none
          | none, next :: rest =>
            if isDashed next then none
            else (a.set? spec.name next).bind fun a => ofList? specs a rest
        else if value.isSome then none
        else (a.set? spec.name "").bind fun a => ofList? specs a rest

theorem Arguments.set?_nodup {a b : Arguments} {name value : String}
    (h : a.set? name value = some b) (ha : (a.options.map (·.1)).Nodup) :
    (b.options.map (·.1)).Nodup := by
  unfold set? at h
  split at h
  · simp at h
  · rename_i hg
    cases h
    simp only [List.map_append, List.map_cons, List.map_nil]
    refine List.nodup_append.2 ⟨ha, by simp, ?_⟩
    rintro x hx y hy rfl
    simp only [List.mem_singleton] at hy
    subst hy
    apply hg
    obtain ⟨p, hp, rfl⟩ := List.mem_map.1 hx
    simp only [isGiven, value?]
    cases hl : a.options.lookup p.1 with
    | some v => rfl
    | none => exact absurd (List.lookup_eq_none_iff.1 hl p hp) (by simp)

theorem Arguments.ofList?_nodup {specs : List OptionSpec} {a b : Arguments} {args : List String}
    (h : ofList? specs a args = some b) (ha : (a.options.map (·.1)).Nodup) :
    (b.options.map (·.1)).Nodup := by
  fun_induction ofList? specs a args with
  | case1 => cases h; exact ha
  | case2 => cases h; exact ha
  | case3 _ _ _ _ ih => exact ih h ha
  | case4 | case6 | case7 | case9 => simp at h
  | case5 _ _ _ _ _ _ _ _ _ ih | case8 _ _ _ _ _ _ _ _ _ _ ih
  | case10 _ _ _ _ _ _ _ _ _ _ ih =>
    obtain ⟨c, hc, hb⟩ := Option.bind_eq_some_iff.1 h
    exact ih c hb (set?_nodup hc ha)

/-! ## Commands -/

/-- What the program is asked to do. -/
inductive Command where
  | version
  | generate (graph : String) (dialect : Option Sql.Dialect) (inlineKeys caseInsensitive : Bool)
      (config timestamp output : Option String)
  | parse (sql : String) (previous output : Option String)
  | validate (sql : String)
  | normalize (sql : String) (output : Option String)
deriving DecidableEq

def outputOption : OptionSpec := { name := "output", short := some 'o' }

def generateOptions : List OptionSpec :=
  [{ name := "dialect", short := some 'd' }, { name := "inline", takesValue := false },
    { name := "case-insensitive", takesValue := false }, { name := "config", short := some 'c' },
    { name := "timestamp" }, outputOption]

def parseOptions : List OptionSpec :=
  [{ name := "previous", short := some 'p' }, outputOption]

/-- The only argument that is no option; a path is not empty. -/
def onlyPath? (a : Arguments) : Option String :=
  match a.positional with
  | [path] => if path.isEmpty then none else some path
  | _ => none

/-- The path given for an option, if any; a path is not empty. -/
def pathOption? (a : Arguments) (name : String) : Option (Option String) :=
  match a.value? name with
  | some path => if path.isEmpty then none else some (some path)
  | none => some none

/-- The dialect given for an option, if any. -/
def dialectOption? (a : Arguments) (name : String) : Option (Option Sql.Dialect) :=
  match a.value? name with
  | some value => (Sql.Dialect.ofName? value).map some
  | none => some none

/-- How the program is called. -/
def usage : String :=
  "Usage: schemasync <generate|parse|validate|normalize> [OPTIONS] <PATH>\n"

/-- The argument asks for the version, whatever stands behind its letter. -/
def asksVersion (arg : String) : Bool :=
  arg == "--version" || "-V".toList.isPrefixOf arg.toList

/-- **Command of a list of arguments**; none is a usage error. -/
def Command.ofArguments? : List String → Option Command
  | "generate" :: args => do
    let a ← Arguments.ofList? generateOptions {} args
    return .generate (← onlyPath? a) (← dialectOption? a "dialect") (a.isGiven "inline")
      (a.isGiven "case-insensitive") (← pathOption? a "config") (a.value? "timestamp")
      (← pathOption? a "output")
  | "parse" :: args => do
    let a ← Arguments.ofList? parseOptions {} args
    return .parse (← onlyPath? a) (← pathOption? a "previous") (← pathOption? a "output")
  | "validate" :: args => do
    let a ← Arguments.ofList? [] {} args
    return .validate (← onlyPath? a)
  | "normalize" :: args => do
    let a ← Arguments.ofList? [outputOption] {} args
    return .normalize (← onlyPath? a) (← pathOption? a "output")
  | arg :: _ => if asksVersion arg then some .version else none
  | [] => none

end DdlGraph.Cli
