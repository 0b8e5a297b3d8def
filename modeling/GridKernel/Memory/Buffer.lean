import GridKernel.Atomic.Slots
import GridKernel.Lang.Value

/-!
# Arrays in host memory

A buffer holds the storage bits of elements of one type. Its device image is the elements' bytes,
lowest first; slots have images too.
-/

namespace GridKernel

structure Buffer where
  type : ScalarType
  cells : Array UInt64
  deriving DecidableEq, Repr

inductive BufferFault where
  | mixedValue (found : ScalarType) (text : String) (want : ScalarType)
  | wrongRead (held want : ScalarType)
  | wrongCopy (count : Nat) (type held : ScalarType) (size : Nat)
  | imageSize (found want : Nat)
  deriving DecidableEq, Repr

def BufferFault.message : BufferFault → String
  | mixedValue found text want => s!"{found.name} value {text} in a {want.name} buffer"
  | wrongRead held want => s!"cannot read a {held.name} buffer as {want.name}"
  | wrongCopy count type held size =>
    s!"cannot copy {count} {type.name} values into a {held.name} buffer of length {size}"
  | imageSize found want => s!"device image of {found} bytes for a buffer of {want} bytes"

/-! ## Bytes of a word -/

/-- The low bytes of a word, lowest first. -/
def bytesOf : Nat → UInt64 → List UInt8
  | 0, _ => []
  | n + 1, w => w.toUInt8 :: bytesOf n (w >>> 8)

/-- The word with these bytes, lowest first. -/
def wordOf : List UInt8 → UInt64
  | [] => 0
  | b :: rest => (wordOf rest <<< 8) ||| b.toUInt64

/-- Cuts the front of a list into pieces of a size, as many as asked for. -/
def chunksOf (size : Nat) : Nat → List UInt8 → List (List UInt8)
  | 0, _ => []
  | n + 1, bytes => bytes.take size :: chunksOf size n (bytes.drop size)

namespace Buffer

def zeroed (type : ScalarType) (size : Nat) : Buffer :=
  ⟨type, Array.replicate size (Value.zero type).toBits⟩

def size (b : Buffer) : Nat := b.cells.size

/-- Elements converted to the buffer's type. -/
def ofElements (type : ScalarType) (values : List Value) : Buffer :=
  ⟨type, (values.map fun v => (v.cast type).toBits).toArray⟩

/-- Values that all have the buffer's type. -/
def ofValues (type : ScalarType) (values : List Value) : Except BufferFault Buffer :=
  match values.find? fun v => v.type ≠ type with
  | some v => .error (.mixedValue v.type v.text type)
  | none => .ok (ofElements type values)

def load? (b : Buffer) (i : Nat) : Option Value := b.cells[i]?.map (Value.ofBits b.type)

/-- Stores a value converted to the element type; nothing happens out of range. -/
def store (b : Buffer) (i : Nat) (v : Value) : Buffer :=
  { b with cells := b.cells.setIfInBounds i (v.cast b.type).toBits }

def values (b : Buffer) : List Value := b.cells.toList.map (Value.ofBits b.type)

/-- The contents, read as elements of a type that must be the buffer's. -/
def elements (b : Buffer) (type : ScalarType) : Except BufferFault (List Value) :=
  if type = b.type then .ok b.values else .error (.wrongRead b.type type)

/-- Replaces the contents by as many elements of the same type. -/
def copyFrom (b : Buffer) (type : ScalarType) (data : List Value) : Except BufferFault Buffer :=
  if type = b.type && data.length = b.size then .ok (ofElements b.type data)
  else .error (.wrongCopy data.length type b.type b.size)

/-- The size of the device image. -/
def byteSize (b : Buffer) : Nat := b.size * b.type.size

def image (b : Buffer) : List UInt8 := b.cells.toList.flatMap (bytesOf b.type.size)

/-- Replaces the contents by those of a device image. -/
def ofImage (b : Buffer) (bytes : List UInt8) : Except BufferFault Buffer :=
  if bytes.length = b.byteSize then
    let cells := (chunksOf b.type.size b.size bytes).map fun chunk =>
      (Value.ofBits b.type (wordOf chunk)).toBits
    .ok { b with cells := cells.toArray }
  else .error (.imageSize bytes.length b.byteSize)

end Buffer

/-! ## Images of slots -/

/-- An image has the wrong size for a number of slots. -/
structure SlotImageFault where
  found : Nat
  slots : Nat
  deriving DecidableEq, Repr

def SlotImageFault.message (f : SlotImageFault) : String :=
  s!"device image of {f.found} bytes for {f.slots} atomic slots"

namespace SlotArray

def byteSize (s : SlotArray) : Nat := s.size * s.width.scalar.size

def image (s : SlotArray) : List UInt8 :=
  s.cells.toList.flatMap fun v => bytesOf s.width.scalar.size v.toUInt64

def ofImage (s : SlotArray) (bytes : List UInt8) : Except SlotImageFault SlotArray :=
  if bytes.length = s.byteSize then
    let cells := (chunksOf s.width.scalar.size s.size bytes).map fun chunk =>
      s.width.wrap (wordOf chunk).toInt64
    .ok { s with cells := cells.toArray }
  else .error ⟨bytes.length, s.size⟩

end SlotArray

end GridKernel
