import GridKernel.Lang.ScalarType

/-!
# Atomic operations

Every operation on a slot is defined once, by `AtomicOp.next`, as a function from the slot's
current value to its next one. A slot holds 64 bits; one of width `int` always holds the sign
extension of 32 bits.
-/

namespace GridKernel

/-- The width of an atomic slot. -/
inductive SlotWidth where
  | int
  | long
  deriving DecidableEq, Repr, Inhabited

namespace SlotWidth

def all : List SlotWidth := [int, long]

def name : SlotWidth → String
  | int => "int"
  | long => "long"

def ofName? (s : String) : Option SlotWidth := all.find? (·.name == s)

def bits : SlotWidth → Nat
  | int => 32
  | long => 64

/-- The scalar type of a slot's content. -/
def scalar : SlotWidth → ScalarType
  | int => .int
  | long => .long

/-- Sign-extends the low bits of a value from this width. -/
def wrap (w : SlotWidth) (v : Int64) : Int64 :=
  match w with
  | int => v.toInt32.toInt64
  | long => v

end SlotWidth

/-- Where the slots of an atomic field live on the device. -/
inductive SlotScope where
  | global
  | workGroup
  deriving DecidableEq, Repr, Inhabited

namespace SlotScope

def name : SlotScope → String
  | global => "global"
  | workGroup => "local"

def ofName? (s : String) : Option SlotScope := [global, workGroup].find? (·.name == s)

def clQualifier : SlotScope → String
  | global => "__global"
  | workGroup => "__local"

end SlotScope

inductive AtomicOp where
  | set | get | add | sub | xchg | inc | dec | cmpXchg | min | max | and | or | xor
  deriving DecidableEq, Repr, Inhabited

namespace AtomicOp

def all : List AtomicOp :=
  [set, get, add, sub, xchg, inc, dec, cmpXchg, min, max, and, or, xor]

/-- The operation's name in documents. -/
def name : AtomicOp → String
  | set => "set"
  | get => "get"
  | add => "add"
  | sub => "sub"
  | xchg => "xchg"
  | inc => "inc"
  | dec => "dec"
  | cmpXchg => "cmp_xchg"
  | min => "min"
  | max => "max"
  | and => "and"
  | or => "or"
  | xor => "xor"

def ofName? (s : String) : Option AtomicOp := all.find? (·.name == s)

/-- The operation's name in listings and diagnostics. -/
def sourceName : AtomicOp → String
  | set => "atomicSet"
  | get => "atomicGet"
  | add => "atomicAdd"
  | sub => "atomicSub"
  | xchg => "atomicXchg"
  | inc => "atomicInc"
  | dec => "atomicDec"
  | cmpXchg => "atomicCmpXchg"
  | min => "atomicMin"
  | max => "atomicMax"
  | and => "atomicAnd"
  | or => "atomicOr"
  | xor => "atomicXor"

/-- The number of operands beside the slot. -/
def arity : AtomicOp → Nat
  | get | inc | dec => 0
  | cmpXchg => 2
  | _ => 1

/-- Whether the operation can store into the slot. -/
def writes : AtomicOp → Bool
  | get => false
  | _ => true

/-- What the built-in functions of OpenCL C that perform the operation have in common. A read is
an `or` with zero, and a plain store is an exchange. -/
def clStem : AtomicOp → String
  | set | xchg => "xchg"
  | get | or => "or"
  | add => "add"
  | sub => "sub"
  | inc => "inc"
  | dec => "dec"
  | cmpXchg => "cmpxchg"
  | min => "min"
  | max => "max"
  | and => "and"
  | xor => "xor"

/-- The built-in function of OpenCL C at a width. -/
def clFunction (op : AtomicOp) : SlotWidth → String
  | .int => "atomic_" ++ op.clStem
  | .long => "atom_" ++ op.clStem

/-- The slot's next value, or `none` when the operation leaves the slot alone. Operands are taken
at the slot's width, and a missing one is zero. -/
def next (op : AtomicOp) (current : Int64) (operands : List Int64) (w : SlotWidth) :
    Option Int64 :=
  let a := w.wrap (operands.headD 0)
  match op with
  | get => none
  | set | xchg => some (w.wrap a)
  | add => some (w.wrap (current + a))
  | sub => some (w.wrap (current - a))
  | inc => some (w.wrap (current + 1))
  | dec => some (w.wrap (current - 1))
  | cmpXchg => if current = a then some (w.wrap (operands.getD 1 0)) else none
  | min => if a < current then some (w.wrap a) else none
  | max => if current < a then some (w.wrap a) else none
  | and => some (w.wrap (current &&& a))
  | or => some (w.wrap (current ||| a))
  | xor => some (w.wrap (current ^^^ a))

end AtomicOp

end GridKernel
