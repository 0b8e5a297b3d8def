import GridKernel.Text.Blank
import GridKernel.Text.Integer

/-!
# Command-line arguments

A command with its options. The settings of the dispatcher may stand before or after the name of
the command; of settings in both places those after it count.
-/

namespace GridKernel.Cli

/-- Settings of the dispatcher that override the environment. -/
structure Overrides where
  devices : List String := []
  threads : Option Nat := none
  fallback : Bool := false
  deriving DecidableEq, Repr

/-- What `run` is asked for. -/
structure RunOptions where
  input : String
  globalSizes : List Nat
  /-- The sizes of a work-group; left open if empty. -/
  localSizes : List Nat := []
  /-- Contents of arrays, `name=v1,v2,...` or `name=zeros:N`. -/
  binds : List String := []
  /-- Values of scalar fields, `name=v`. -/
  scalars : List String := []
  /-- Numbers of slots, `name=N`. -/
  slots : List String := []
  passes : Nat := 1
  deriving DecidableEq, Repr

inductive Command where
  | compile (input : String) (output : Option String)
  | check (input : String) (fields : Bool)
  | run (options : RunOptions)
  deriving DecidableEq, Repr

inductive Invocation where
  | version
  | command (command : Command) (overrides : Overrides)
  deriving DecidableEq, Repr

inductive UsageFault where
  | unknownOption (text : String)
  | missingValue (option : String)
  | badValue (option text : String)
  | repeatedOption (option : String)
  | unknownCommand (text : String)
  | noCommand
  | noInput
  | extraArgument (text : String)
  | missingOption (option : String)
  deriving DecidableEq, Repr

def UsageFault.message : UsageFault → String
  | unknownOption text => s!"unexpected argument '{text}'"
  | missingValue option => s!"a value is required for '--{option}'"
  | badValue option text => s!"invalid value '{text}' for '--{option}'"
  | repeatedOption option => s!"'--{option}' cannot be used more than once"
  | unknownCommand text => s!"unrecognized subcommand '{text}'"
  | noCommand => "a subcommand is required"
  | noInput => "the kernel schema is required"
  | extraArgument text => s!"unexpected argument '{text}'"
  | missingOption option => s!"'--{option}' is required"

/-! ## Tokens -/

structure OptionForm where
  long : String
  short : Option Char := none
  takesValue : Bool := true
  deriving DecidableEq, Repr

inductive Token where
  | flag (name : String)
  | option (name value : String)
  | word (text : String)
  deriving DecidableEq, Repr

/-- An argument: a word, or an option that may carry its value. -/
inductive Piece where
  | word (text : String)
  | option (form : OptionForm) (value : Option String)
  | unknown (text : String)
  deriving DecidableEq, Repr

def findLong (forms : List OptionForm) (name : String) : Option OptionForm :=
  forms.find? (·.long == name)

def findShort (forms : List OptionForm) (c : Char) : Option OptionForm :=
  forms.find? (·.short == some c)

/-- An argument after its two dashes. -/
def longPiece (forms : List OptionForm) (text : String) : Piece :=
  match Text.splitOnce? '=' text with
  | some (name, value) =>
    match findLong forms name with
    | some form => if form.takesValue then .option form (some value) else .unknown ("--" ++ text)
    | none => .unknown ("--" ++ text)
  | none =>
    match findLong forms text with
    | some form => .option form none
    | none => .unknown ("--" ++ text)

/-- An argument after its single dash: a letter, and its value directly after it. -/
def shortPiece (forms : List OptionForm) (letter : Char) (rest : List Char) : Piece :=
  match findShort forms letter, rest with
  | some form, [] => .option form none
  | some form, '=' :: value =>
    if form.takesValue then .option form (some (String.ofList value))
    else .unknown (String.ofList ('-' :: letter :: rest))
  | some form, value =>
    if form.takesValue then .option form (some (String.ofList value))
    else .unknown (String.ofList ('-' :: letter :: rest))
  | none, _ => .unknown (String.ofList ('-' :: letter :: rest))

def pieceOf (forms : List OptionForm) (arg : String) : Piece :=
  match arg.toList with
  | '-' :: '-' :: rest => longPiece forms (String.ofList rest)
  | '-' :: letter :: rest => shortPiece forms letter rest
  | _ => .word arg

/-- Whether an argument can be the value of the option before it. -/
def isValue (arg : String) : Bool :=
  match arg.toList with
  | ['-'] => true
  | '-' :: _ => false
  | _ => true

/-- Reads options and words. Two dashes alone end the options. With `stopAtWord` reading ends
before the first word; what is left is returned. -/
def tokens (forms : List OptionForm) (stopAtWord : Bool) :
    List String → Except UsageFault (List Token × List String)
  | [] => .ok ([], [])
  | arg :: rest =>
    if arg = "--" then
      if stopAtWord then .ok ([], rest) else .ok (rest.map .word, [])
    else match pieceOf forms arg with
      | .unknown text => .error (.unknownOption text)
      | .word text =>
        if stopAtWord then .ok ([], arg :: rest)
        else do
          let (ts, left) ← tokens forms stopAtWord rest
          return (.word text :: ts, left)
      | .option form (some value) => do
        let (ts, left) ← tokens forms stopAtWord rest
        return (.option form.long value :: ts, left)
      | .option form none =>
        if form.takesValue then
          match rest with
          | value :: rest =>
            if isValue value then do
              let (ts, left) ← tokens forms stopAtWord rest
              return (.option form.long value :: ts, left)
            else .error (.missingValue form.long)
          | [] => .error (.missingValue form.long)
        else do
          let (ts, left) ← tokens forms stopAtWord rest
          return (.flag form.long :: ts, left)

def values (name : String) (ts : List Token) : List String :=
  ts.filterMap fun
    | .option n v => if n == name then some v else none
    | _ => none

def words (ts : List Token) : List String :=
  ts.filterMap fun
    | .word text => some text
    | _ => none

def hasFlag (name : String) (ts : List Token) : Bool := ts.contains (.flag name)

/-- The value of an option that is given at most once. -/
def single (name : String) (ts : List Token) : Except UsageFault (Option String) :=
  match values name ts with
  | [] => .ok none
  | [v] => .ok (some v)
  | _ => .error (.repeatedOption name)

/-- A natural number below a limit. -/
def natValue (name : String) (limit : Nat) (text : String) : Except UsageFault Nat :=
  match (Text.nat? text).filter (· < limit) with
  | some n => .ok n
  | none => .error (.badValue name text)

/-- The entries of an option whose values are lists with commas. -/
def entries (name : String) (ts : List Token) : List String :=
  (values name ts).flatMap (Text.split ',')

def natEntries (name : String) (ts : List Token) : Except UsageFault (List Nat) :=
  (entries name ts).mapM (natValue name UInt64.size)

/-! ## Invocations -/

def overrideForms : List OptionForm :=
  [{ long := "devices" }, { long := "threads" }, { long := "fallback", takesValue := false }]

def leadingForms : List OptionForm :=
  { long := "version", short := some 'V', takesValue := false } :: overrideForms

def compileForms : List OptionForm := { long := "output", short := some 'o' } :: overrideForms

def checkForms : List OptionForm := { long := "fields", takesValue := false } :: overrideForms

def runForms : List OptionForm :=
  [{ long := "global" }, { long := "local" }, { long := "bind" }, { long := "scalar" },
    { long := "slots" }, { long := "passes" }] ++ overrideForms

def overridesOf (ts : List Token) : Except UsageFault Overrides := do
  let threads ← match ← single "threads" ts with
    | none => pure none
    | some text => do pure (some (← natValue "threads" UInt64.size text))
  return ⟨entries "devices" ts, threads, hasFlag "fallback" ts⟩

/-- Settings before the command, each replaced by the one after it if there is one. -/
def Overrides.merge (before after : Overrides) : Overrides where
  devices := if after.devices.isEmpty then before.devices else after.devices
  threads := after.threads.or before.threads
  fallback := before.fallback || after.fallback

/-- The only word of a command. -/
def inputOf (ts : List Token) : Except UsageFault String :=
  match words ts with
  | [] => .error .noInput
  | [input] => .ok input
  | _ :: extra :: _ => .error (.extraArgument extra)

def compileCommand (ts : List Token) : Except UsageFault Command := do
  return .compile (← inputOf ts) (← single "output" ts)

def checkCommand (ts : List Token) : Except UsageFault Command := do
  return .check (← inputOf ts) (hasFlag "fields" ts)

def runCommand (ts : List Token) : Except UsageFault Command := do
  let input ← inputOf ts
  if (values "global" ts).isEmpty then .error (.missingOption "global")
  let passes ← match ← single "passes" ts with
    | none => pure 1
    | some text => natValue "passes" UInt32.size text
  return .run
    { input := input
      globalSizes := ← natEntries "global" ts
      localSizes := ← natEntries "local" ts
      binds := values "bind" ts
      scalars := values "scalar" ts
      slots := values "slots" ts
      passes := passes }

/-- Reads a command with the settings around it. -/
def commandOf (leading : List Token) (forms : List OptionForm)
    (build : List Token → Except UsageFault Command) (args : List String) :
    Except UsageFault Invocation := do
  let (ts, _) ← tokens forms false args
  let command ← build ts
  return .command command ((← overridesOf leading).merge (← overridesOf ts))

def parse (args : List String) : Except UsageFault Invocation := do
  let (leading, rest) ← tokens leadingForms true args
  if hasFlag "version" leading then return .version
  match rest with
  | [] => .error .noCommand
  | "compile" :: args => commandOf leading compileForms compileCommand args
  | "check" :: args => commandOf leading checkForms checkCommand args
  | "run" :: args => commandOf leading runForms runCommand args
  | name :: _ => .error (.unknownCommand name)

end GridKernel.Cli
