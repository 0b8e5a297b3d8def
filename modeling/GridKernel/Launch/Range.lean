import GridKernel.Text.Blank

/-!
# Ranges

An index space of one to three dimensions with the size of its work-groups, which may be left
open. Indices are 64-bit words, so a range with more work-items than that is refused.
-/

namespace GridKernel

/-- Three sizes or coordinates. -/
structure Dim3 where
  x : Nat
  y : Nat
  z : Nat
  deriving DecidableEq, Repr

namespace Dim3

/-- The entry of a dimension; one beyond the third. -/
def get (d : Dim3) : Nat → Nat
  | 0 => d.x
  | 1 => d.y
  | 2 => d.z
  | _ => 1

/-- Up to three sizes, the rest filled with one. -/
def ofList (sizes : List Nat) : Dim3 := ⟨sizes.getD 0 1, sizes.getD 1 1, sizes.getD 2 1⟩

def toList (d : Dim3) : List Nat := [d.x, d.y, d.z]

def product (d : Dim3) : Nat := d.x * d.y * d.z

end Dim3

inductive RangeFault where
  | dimensions (count : Nat)
  | emptyDimension (dim : Nat)
  | overflow (range : String)
  | localCount (found dims : Nat)
  | indivisible (part whole dim : Nat)
  | groupTooLarge (size max : Nat)
  deriving DecidableEq, Repr

def RangeFault.message : RangeFault → String
  | dimensions count => s!"{count} dimensions requested, expected 1 to 3"
  | emptyDimension dim => s!"global size of dimension {dim} is 0"
  | overflow range => s!"{range} work-items overflow the index space"
  | localCount found dims => s!"{found} local sizes for a {dims}D range"
  | indivisible part whole dim =>
    s!"local size {part} does not divide global size {whole} in dimension {dim}"
  | groupTooLarge size max => s!"work-group of {size} items exceeds the maximum of {max}"

structure Range where
  /-- The size of each dimension. -/
  sizes : List Nat
  /-- The size of a work-group in each dimension, if it is fixed. -/
  group : Option (List Nat) := none
  bounded : 1 ≤ sizes.length ∧ sizes.length ≤ 3
  deriving DecidableEq, Repr

namespace Range

/-- The number of words an index can take. -/
def indexLimit : Nat := UInt64.size

def ofSizes (sizes : List Nat) (group : Option (List Nat)) : Except RangeFault Range :=
  if h : 1 ≤ sizes.length ∧ sizes.length ≤ 3 then .ok ⟨sizes, group, h⟩
  else .error (.dimensions sizes.length)

def dims (r : Range) : Nat := r.sizes.length

def globalSize (r : Range) : Dim3 := .ofList r.sizes

/-- A product, unless an index word cannot hold it. -/
def checkedMul (a b : Nat) : Option Nat := if a * b < indexLimit then some (a * b) else none

/-- The number of work-items, unless an index word cannot hold it. -/
def checkedWorkItems (r : Range) : Option Nat := r.globalSize.toList.foldlM checkedMul 1

/-- The number of work-items, at most the largest index word. -/
def workItems (r : Range) : Nat := r.checkedWorkItems.getD (indexLimit - 1)

def joinSizes (sizes : List Nat) : String := Text.join "x" (sizes.map toString)

def text (r : Range) : String :=
  joinSizes r.sizes ++ r.group.elim "" fun g => " / " ++ joinSizes g

/-- The greatest divisor of `g` from `n` downwards. -/
def greatestDivisor (g : Nat) : Nat → Nat
  | 0 => 1
  | n + 1 => if g % (n + 1) = 0 then n + 1 else greatestDivisor g n

/-- Divisors of the sizes, each as large as the budget left by those before it allows. -/
def defaultGroup : Nat → List Nat → List Nat
  | _, [] => []
  | budget, g :: rest =>
    let pick := greatestDivisor g (min g budget)
    pick :: defaultGroup (budget / pick) rest

/-- The first work-group size that is zero or does not divide. -/
def indivisible? (dim : Nat) : List Nat → List Nat → Option RangeFault
  | l :: ls, g :: gs =>
    if l = 0 || g % l ≠ 0 then some (.indivisible l g dim) else indivisible? (dim + 1) ls gs
  | _, _ => none

/-- The size of a work-group as fixed by the range. -/
def explicitGroup (r : Range) (sizes : List Nat) : Except RangeFault Dim3 :=
  if sizes.length ≠ r.dims then .error (.localCount sizes.length r.dims)
  else match indivisible? 0 sizes r.sizes with
    | some fault => .error fault
    | none => .ok (.ofList sizes)

/-- Checks the range and settles the size of a work-group, which has at most `max` items. -/
def localSizes (r : Range) (max : Nat) : Except RangeFault Dim3 := do
  match r.sizes.findIdx? (· == 0) with
  | some dim => .error (.emptyDimension dim)
  | none => pure ()
  if r.checkedWorkItems.isNone then .error (.overflow r.text)
  let size ← match r.group with
    | some sizes => r.explicitGroup sizes
    | none => .ok (.ofList (defaultGroup (Nat.max max 1) r.sizes))
  if size.product > max then .error (.groupTooLarge size.product max)
  else return size

/-- The coordinates of a flat index; the first dimension varies fastest. -/
def coords (r : Range) (flat : Nat) : Dim3 :=
  let g := r.globalSize
  ⟨flat % g.x, flat / g.x % g.y, flat / (g.x * g.y)⟩

end Range

end GridKernel
