import GridKernel.Text.Blank

/-!
# Names a kernel may give

Locals, parameters and fields are written into the target program unchanged, so they must be
identifiers of OpenCL C and differ from every name the target program uses itself.
-/

namespace GridKernel.Name

/-- Keywords and type names of OpenCL C, and the functions, types and variables that target
programs use. -/
def reserved : List String :=
  ["this", "passid", "char", "short", "int", "long", "float", "double", "unsigned", "void",
    "if", "else", "while", "do", "for", "break", "continue", "return", "switch", "case",
    "default", "goto", "struct", "typedef", "const", "volatile", "sizeof", "half", "bool",
    "uchar", "ushort", "uint", "ulong", "kernel", "global", "local", "constant", "private",
    "This", "This_s", "thisStruct", "abs", "fabs", "min", "max", "fmin", "fmax", "fmod", "sqrt",
    "sin", "cos", "tan", "exp", "log", "pow", "floor", "ceil", "NAN", "INFINITY"]

/-- Beginnings of the names of temporaries and of built-in functions. -/
def reservedBeginnings : List String := ["_tmp", "get_", "atomic_", "atom_", "convert_"]

def isHead (c : Char) : Bool := c.isAlpha || c = '_'

def isTail (c : Char) : Bool := c.isAlphanum || c = '_'

def isIdentifier (s : String) : Bool :=
  match s.toList with
  | [] => false
  | c :: rest => isHead c && rest.all isTail

/-- Whether a local or a parameter may have this name. -/
def isValid (s : String) : Bool :=
  isIdentifier s && !(reservedBeginnings.any fun b => Text.startsWith b s)
    && !reserved.contains s

/-- Whether two underscores stand next to each other. -/
def hasDoubleUnderscore : List Char → Bool
  | '_' :: '_' :: _ => true
  | _ :: rest => hasDoubleUnderscore rest
  | [] => false

/-- Whether a field may have this name. Two underscores join an array's name with the name of
its length in the target program. -/
def isValidField (s : String) : Bool := isValid s && !hasDoubleUnderscore s.toList

end GridKernel.Name
