import GridKernel.Cli.Plan
import GridKernel.Cli.Session
import GridKernel.Diagnostic.Render
import GridKernel.Document.Reader

/-!
# Commands

`compile` writes the program of a kernel, `check` tells whether a kernel is valid, and `run`
executes it.
-/

namespace GridKernel.Cli

/-- The end of a command that met a fault in a schema. -/
def reject (s : Schema) (d : Diagnostic) : Result :=
  match s.methods.find? fun m => some m.name == d.method with
  | some m => fail (d.render m)
  | none => fail (d.text ++ "\n")

/-- Reads a schema and goes on with it. -/
def withSchema (path : String) (next : Schema → Plan) : Plan :=
  .read path fun
    | .error reason => .done (failure s!"cannot read '{path}': {reason}")
    | .ok text =>
      match Document.parseSchema? text with
      | none => .done (failure s!"'{path}' is not a kernel schema")
      | some s => next s

/-- Reads a schema, builds its descriptor and goes on with both. -/
def withDescriptor (path : String) (next : Schema → Descriptor → Plan) : Plan :=
  withSchema path fun s =>
    match s.descriptor with
    | .error d => .done (reject s d)
    | .ok d => next s d

def compile (path : String) (output : Option String) : Plan :=
  withDescriptor path fun s d =>
    match d.compile with
    | .error f => .done (reject s (f.diagnose d.name))
    | .ok source =>
      let hash := s!"hash: {source.digest}\n"
      match output with
      | none => .done { out := source.text, err := hash }
      | some file => .write file source.text fun
        | .error reason => .done (failure s!"cannot write '{file}': {reason}")
        | .ok _ => .done { err := s!"Compiled -> {file}\n" ++ hash }

/-! ## Listing the fields -/

/-- A word with its first letter as a capital. -/
def capital (word : String) : String :=
  match word.toList with
  | [] => ""
  | c :: rest => String.ofList (c.toUpper :: rest)

def elementName : ElementType → String
  | .scalar t => "Scalar(" ++ capital t.name ++ ")"
  | .atomic w => "Atomic(" ++ capital w.name ++ ")"

def directionName : Direction → String
  | .readOnly => "ReadOnly"
  | .readWrite => "ReadWrite"

/-- Fills a text up with blanks. -/
def pad (width : Nat) (s : String) : String :=
  s ++ String.ofList (List.replicate (width - s.length) ' ')

def fieldLine (f : Field) : String :=
  "  " ++ Text.join " " [pad 16 f.name, elementName f.element, capital f.shape.name,
    directionName f.direction] ++ "\n"

def check (path : String) (fields : Bool) : Plan :=
  withDescriptor path fun s d =>
    match Typing.check d with
    | .error f => .done (reject s (f.diagnose d.name))
    | .ok _ =>
      let lines := if fields then Text.join "" (d.fields.map fieldLine) else ""
      let helpers := Text.join ", " (d.helpers.map Method.name)
      .done { err := lines ++ s!"OK: {d.name} (entry '{d.entry}', helpers: [{helpers}])\n" }

def run (env : Config.Environment) (overrides : Overrides) (o : RunOptions) : Plan :=
  withDescriptor o.input fun s d =>
    match configure env overrides with
    | .error f => .done (failure (KernelError.config f).message)
    | .ok c =>
      match (Session.start c d).perform o with
      | .ok finished => .done { out := finished.document.pretty ++ "\n" }
      | .error (.argument f) => .done (failure f.message)
      | .error (.kernel (.compile f)) => .done (reject s f)
      | .error (.kernel e) => .done (failure e.message)

def Command.plan (env : Config.Environment) (overrides : Overrides) : Command → Plan
  | .compile path output => Cli.compile path output
  | .check path fields => Cli.check path fields
  | .run o => Cli.run env overrides o

/-- What a list of arguments asks for. -/
def plan (env : Config.Environment) (args : List String) : Plan :=
  match parse args with
  | .error f => .done { code := 2, err := "error: " ++ f.message ++ "\n" }
  | .ok .version => .done { out := "kernelc 0.1.0\n" }
  | .ok (.command c overrides) => c.plan env overrides

end GridKernel.Cli
