/-!
# Diagnostics

What a rejected kernel is reported with. The position is the ordinal of the offending statement
in the method.
-/

namespace GridKernel

inductive DiagnosticKind where
  | unsupportedConstruct
  | unsupportedFieldType
  | recursion
  | unknownSymbol
  | typeMismatch
  | atomicMisuse
  | invalidDescriptor
  deriving DecidableEq, Repr, Inhabited

def DiagnosticKind.all : List DiagnosticKind :=
  [unsupportedConstruct, unsupportedFieldType, recursion, unknownSymbol, typeMismatch,
    atomicMisuse, invalidDescriptor]

/-- The short code in brackets. -/
def DiagnosticKind.code : DiagnosticKind → String
  | unsupportedConstruct => "unsupported"
  | unsupportedFieldType => "field-type"
  | recursion => "recursion"
  | unknownSymbol => "unknown-symbol"
  | typeMismatch => "type-mismatch"
  | atomicMisuse => "atomic-misuse"
  | invalidDescriptor => "descriptor"

structure Diagnostic where
  kind : DiagnosticKind
  kernel : String
  message : String
  method : Option String := none
  position : Option Nat := none
  notes : List String := []
  help : Option String := none
  deriving DecidableEq, Repr

namespace Diagnostic

/-- The diagnostic on one line. -/
def text (d : Diagnostic) : String :=
  "error[" ++ d.kind.code ++ "] in " ++ d.kernel ++ d.method.elim "" ("::" ++ ·)
    ++ d.position.elim "" (fun p => " at statement " ++ toString p) ++ ": " ++ d.message

end Diagnostic

end GridKernel
