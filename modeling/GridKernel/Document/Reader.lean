import GridKernel.Json.Parser
import GridKernel.Kernel.Schema

/-!
# Kernel documents: reading

A record is an object, of which unknown keys are skipped, or an array of its fields in order. A
variant is an object with a single key, or a bare string if it has no payload. Each reader takes
the number of containers that may still be nested, which also bounds its recursion; what is
skipped is not counted.
-/

namespace GridKernel.Document

/-- How many containers a document may nest. -/
def depth : Nat := 127

/-- The fields of a record, by name or by position; `none` marks one that is not given. A known
key given twice makes the record unreadable, and so does an array with too many items. -/
def record? (names : List String) : Json → Option (List (Option Json))
  | .obj members =>
    names.mapM fun name =>
      match members.filter (·.1 == name) with
      | [] => some none
      | [(_, value)] => some (some value)
      | _ => none
  | .arr items =>
    if items.length ≤ names.length then
      some ((List.range names.length).map fun i => items[i]?)
    else none
  | _ => none

/-- The record one level further down. -/
def fields? (depth : Nat) (names : List String) (j : Json) :
    Option (Nat × List (Option Json)) :=
  match depth with
  | 0 => none
  | d + 1 => (record? names j).map fun fs => (d, fs)

/-- A variant: its tag, its payload if it is written as an object, and the depth left. -/
def variant? (depth : Nat) : Json → Option (String × Option (Nat × Json))
  | .str tag => some (tag, none)
  | .obj [(tag, payload)] =>
    match depth with
    | 0 => none
    | d + 1 => some (tag, some (d, payload))
  | _ => none

/-- A variant without payload is a bare string or carries `null`. -/
def word? (depth : Nat) (j : Json) : Option String :=
  match variant? depth j with
  | some (tag, none) => some tag
  | some (tag, some (_, .null)) => some tag
  | _ => none

def string? : Json → Option String
  | .str s => some s
  | _ => none

def bool? : Json → Option Bool
  | .bool b => some b
  | _ => none

/-- An integer in a range. -/
def int? (least greatest : Int) : Json → Option Int
  | .num n => n.toInt?.filter fun i => least ≤ i && i ≤ greatest
  | _ => none

def single? : Json → Option Binary32
  | .num n => n.toSingle?
  | _ => none

def double? : Json → Option Binary64
  | .num n => n.toDouble?
  | _ => none

/-- A field that may be left out, with its default. -/
def orDefault {α : Type} (default : α) (read : Json → Option α) : Option Json → Option α
  | none => some default
  | some j => read j

/-- A field that may be left out or be `null`. -/
def orNull {α : Type} (read : Json → Option α) : Option Json → Option (Option α)
  | none => some none
  | some .null => some none
  | some j => (read j).map some

def type? (depth : Nat) (j : Json) : Option ScalarType := word? depth j >>= ScalarType.ofName?

def value? (depth : Nat) (j : Json) : Option Value :=
  match variant? depth j with
  | some (tag, some (_, payload)) => do
    match ← ScalarType.ofName? tag with
    | .boolean => (bool? payload).map .boolean
    | .byte => (int? (-128) 127 payload).map fun i => .byte (.ofInt i)
    | .short => (int? (-32768) 32767 payload).map fun i => .short (.ofInt i)
    | .char => (int? 0 65535 payload).map fun i => .char (.ofNat i.toNat)
    | .int =>
      (int? Int32.minValue.toInt Int32.maxValue.toInt payload).map fun i => .int (.ofInt i)
    | .long =>
      (int? Int64.minValue.toInt Int64.maxValue.toInt payload).map fun i => .long (.ofInt i)
    | .float => (single? payload).map .float
    | .double => (double? payload).map .double
  | _ => none

mutual

def expr? : Nat → Json → Option Expr
  | 0, _ => none
  | d + 1, .obj [(tag, payload)] =>
    match tag with
    | "literal" => (value? d payload).map .literal
    | "local" => (string? payload).map .var
    | "field" => (string? payload).map .field
    | "length" => (string? payload).map .length
    | _ =>
      match d with
      | 0 => none
      | d + 1 =>
        match tag with
        | "index" => do
          let [some array, some index] ← record? ["array", "index"] payload | none
          return .element (← string? array) (← expr? d index)
        | "binary" => do
          let [some op, some lhs, some rhs] ← record? ["op", "lhs", "rhs"] payload | none
          return .binary (← word? d op >>= BinaryOp.ofName?) (← expr? d lhs) (← expr? d rhs)
        | "unary" => do
          let [some op, some operand] ← record? ["op", "operand"] payload | none
          return .unary (← word? d op >>= UnaryOp.ofName?) (← expr? d operand)
        | "conditional" => do
          let [some cond, some thenValue, some elseValue] ←
            record? ["cond", "then_value", "else_value"] payload | none
          return .conditional (← expr? d cond) (← expr? d thenValue) (← expr? d elseValue)
        | "cast" => do
          let [some type, some value, implicit] ← record? ["to", "value", "implicit"] payload | none
          return .cast (← type? d type) (← expr? d value) (← orDefault false bool? implicit)
        | "assign" => do
          let [some target, op, some value] ← record? ["target", "op", "value"] payload | none
          return .assign (← place? d target)
            (← orNull (fun j => word? d j >>= BinaryOp.ofName?) op) (← expr? d value)
        | "step" => do
          let [some target, some step, some before] ←
            record? ["target", "step", "prefix"] payload | none
          return .step (← place? d target) (← word? d step >>= StepOp.ofName?) (← bool? before)
        | "call" => do
          let [some method, some args] ← record? ["method", "args"] payload | none
          return .call (← string? method) (← exprs? d args)
        | "atomic" => do
          let [some op, some slot, some args] ← record? ["op", "slot", "args"] payload | none
          return .atomic (← word? d op >>= AtomicOp.ofName?) (← slot? d slot) (← exprs? d args)
        | "builtin" => do
          let [some func, some args] ← record? ["func", "args"] payload | none
          return .builtin (← word? d func >>= Builtin.ofName?) (← exprs? d args)
        | _ => none
  | _, _ => none

def place? : Nat → Json → Option (Place Expr)
  | 0, _ => none
  | d + 1, .obj [(tag, payload)] =>
    match tag with
    | "local" => (string? payload).map .var
    | "field" => (string? payload).map .field
    | "index" =>
      match d with
      | 0 => none
      | d + 1 => do
        let [some array, some index] ← record? ["array", "index"] payload | none
        return .element (← string? array) (← expr? d index)
    | _ => none
  | _, _ => none

def slot? : Nat → Json → Option (SlotRef Expr)
  | 0, _ => none
  | d + 1, j => do
    let [some field, index] ← record? ["field", "index"] j | none
    return ⟨← string? field, ← orNull (fun i => expr? d i) index⟩

def exprs? : Nat → Json → Option (List Expr)
  | 0, _ => none
  | d + 1, .arr items => items.mapM fun item => expr? d item
  | _, _ => none

end

mutual

def stmt? : Nat → Json → Option Stmt
  | _, .str "break" => some .breakLoop
  | _, .str "continue" => some .continueLoop
  | d + 1, .obj [(tag, payload)] =>
    match tag with
    | "break" => match payload with
      | .null => some .breakLoop
      | _ => none
    | "continue" => match payload with
      | .null => some .continueLoop
      | _ => none
    | "expr" => (expr? d payload).map .expr
    | "return" => (orNull (fun j => expr? d j) (some payload)).map .ret
    | "block" => (body? d payload).map .block
    | _ =>
      match d with
      | 0 => none
      | d + 1 =>
        match tag with
        | "let" => do
          let [some name, some type, init] ← record? ["name", "ty", "init"] payload | none
          return .declare (← string? name) (← type? d type) (← orNull (fun j => expr? d j) init)
        | "if" => do
          let [some cond, some thenBody, elseBody] ←
            record? ["cond", "then_body", "else_body"] payload | none
          return .branch (← expr? d cond) (← body? d thenBody)
            (← orDefault [] (fun j => body? d j) elseBody)
        | "while" => do
          let [some cond, some body] ← record? ["cond", "body"] payload | none
          return .whileLoop (← expr? d cond) (← body? d body)
        | "do_while" => do
          let [some body, some cond] ← record? ["body", "cond"] payload | none
          return .doWhile (← body? d body) (← expr? d cond)
        | "for" => do
          let [init, cond, update, some body] ←
            record? ["init", "cond", "update", "body"] payload | none
          return .forLoop (← orDefault [] (fun j => body? d j) init)
            (← orNull (fun j => expr? d j) cond) (← orDefault [] (fun j => exprs? d j) update)
            (← body? d body)
        | _ => none
  | _, _ => none

def body? : Nat → Json → Option (List Stmt)
  | 0, _ => none
  | d + 1, .arr items => items.mapM fun item => stmt? d item
  | _, _ => none

end

/-- An array of things. -/
def list? {α : Type} (depth : Nat) (read : Nat → Json → Option α) : Json → Option (List α)
  | .arr items =>
    match depth with
    | 0 => none
    | d + 1 => items.mapM (read d)
  | _ => none

def param? (depth : Nat) (j : Json) : Option Param := do
  let (d, [some name, some type]) ← fields? depth ["name", "ty"] j | none
  return ⟨← string? name, ← type? d type⟩

def method? (depth : Nat) (j : Json) : Option Method := do
  let (d, [some name, params, ret, some body]) ←
    fields? depth ["name", "params", "ret", "body"] j | none
  return ⟨← string? name, ← orDefault [] (list? d param?) params, ← orNull (type? d) ret,
    ← body? d body⟩

def fieldType? (depth : Nat) (j : Json) : Option FieldType :=
  match variant? depth j with
  | some ("scalar", some (d, payload)) => (type? d payload).map .scalar
  | some ("atomic", some (d, payload)) => (word? d payload >>= SlotWidth.ofName?).map .atomic
  | some ("object", some (_, payload)) => (string? payload).map .object
  | _ => none

def fieldDecl? (depth : Nat) (j : Json) : Option FieldDecl := do
  let (d, [some name, some type, shape, space]) ←
    fields? depth ["name", "ty", "shape", "space"] j | none
  return ⟨← string? name, ← fieldType? d type,
    ← orDefault .scalar (fun j => word? d j >>= FieldShape.ofName?) shape,
    ← orDefault .global (fun j => word? d j >>= MemorySpace.ofName?) space⟩

def schema? (depth : Nat) (j : Json) : Option Schema := do
  let (d, [some name, fields, methods, entry]) ←
    fields? depth ["name", "fields", "methods", "entry"] j | none
  return ⟨← string? name, ← orDefault [] (list? d fieldDecl?) fields,
    ← orDefault [] (list? d method?) methods, ← orDefault "run" string? entry⟩

/-- Reads a kernel document from its text. -/
def parseSchema? (text : String) : Option Schema := Json.parse? text >>= schema? depth

end GridKernel.Document
