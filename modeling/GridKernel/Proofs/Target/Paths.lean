import GridKernel.Target.Body

/-!
# Paths through a target program

A path is the sequence of reads and writes of temporaries that a run makes, whatever the values are:
either branch may be taken, a loop makes any number of rounds, and operands whose order C leaves open
take turns in any way. A path may end before any statement, so that runs which do not end have paths
too.
-/

namespace GridKernel.Target

inductive TempAccess where
  | read (temp : Nat)
  | write (temp : Nat)
  deriving DecidableEq, Repr

/-- The third list takes from the first and the second in turns. -/
inductive Interleaved {α : Type} : List α → List α → List α → Prop
  | nil : Interleaved [] [] []
  | left (x : α) {a b c : List α} (h : Interleaved a b c) : Interleaved (x :: a) b (x :: c)
  | right (x : α) {a b c : List α} (h : Interleaved a b c) : Interleaved a (x :: b) (x :: c)

/-- The temporary that an expression is. -/
def Expr.temp? : Expr → Option Nat
  | .temp n => some n
  | _ => none

/-- The write of a store into this target, if it is a temporary. -/
def Expr.writes (target : Expr) : List TempAccess := target.temp?.toList.map .write

mutual

def Expr.Path : Expr → List TempAccess → Prop
  | .literal _, path | .var _, path | .member _, path | .lengthOf _, path => path = []
  | .temp n, path => path = [.read n]
  | .element _ e, path | .addressOf _ e, path | .paren e, path | .unary _ e, path
  | .cast _ e, path => e.Path path
  | .binary op lhs rhs, path =>
    if op.isShortCircuit then
      lhs.Path path ∨ ∃ a b, lhs.Path a ∧ rhs.Path b ∧ path = a ++ b
    else ∃ a b, lhs.Path a ∧ rhs.Path b ∧ Interleaved a b path
  | .shiftUnsigned _ lhs rhs, path => ∃ a b, lhs.Path a ∧ rhs.Path b ∧ Interleaved a b path
  | .conditional cond thenValue elseValue, path =>
    ∃ a b, cond.Path a ∧ (thenValue.Path b ∨ elseValue.Path b) ∧ path = a ++ b
  | .call _ args, path => Expr.TurnsPath args path
  | .assign target value, path =>
    ∃ a b c, (target.temp?.isSome = true ∧ a = [] ∨ target.temp?.isSome = false ∧ target.Path a) ∧
      value.Path b ∧ Interleaved a b c ∧ path = c ++ target.writes
  | .compound _ target value, path =>
    ∃ a b c, target.Path a ∧ value.Path b ∧ Interleaved a b c ∧ path = c ++ target.writes
  | .step _ _ target, path => ∃ a, target.Path a ∧ path = a ++ target.writes
  | .comma first value, path =>
    ∃ a b, Expr.SequencePath first a ∧ value.Path b ∧ path = a ++ b

/-- Operands in any order. -/
def Expr.TurnsPath : List Expr → List TempAccess → Prop
  | [], path => path = []
  | e :: rest, path => ∃ a b, e.Path a ∧ Expr.TurnsPath rest b ∧ Interleaved a b path

/-- Expressions one after the other. -/
def Expr.SequencePath : List Expr → List TempAccess → Prop
  | [], path => path = []
  | e :: rest, path => ∃ a b, e.Path a ∧ Expr.SequencePath rest b ∧ path = a ++ b

end

def Expr.OptionPath (o : Option Expr) (path : List TempAccess) : Prop :=
  Expr.SequencePath o.toList path

/-- How a path through statements ends. -/
inductive Way where
  | normal
  | broke
  | continued
  | returned
  /-- The path ends before a statement. -/
  | cut
  deriving DecidableEq, Repr

/-- How a loop ends when its body has ended; if it goes on there is no answer. -/
def Way.leaves : Way → Option Way
  | .broke => some .normal
  | .returned => some .returned
  | .cut => some .cut
  | .normal | .continued => none

/-- Rounds of a loop, until one of them says how the loop ends. -/
inductive Rounds (round : List TempAccess → Option Way → Prop) : List TempAccess → Way → Prop
  | cut : Rounds round [] .cut
  | last {a : List TempAccess} {w : Way} (h : round a (some w)) : Rounds round a w
  | again {a b : List TempAccess} {w : Way} (h : round a none) (rest : Rounds round b w) :
      Rounds round (a ++ b) w

def ForInit.Path : ForInit → List TempAccess → Prop
  | .declare _ _ init, path => Expr.OptionPath init path
  | .expr e, path => e.Path path

mutual

def Stmt.Path : Stmt → List TempAccess → Way → Prop
  | .declare _ _ init, path, w => Expr.OptionPath init path ∧ w = .normal
  | .expr e, path, w => e.Path path ∧ w = .normal
  | .branch cond thenBody elseBody, path, w =>
    ∃ a b, cond.Path a ∧ (Stmt.BodyPath thenBody b w ∨ Stmt.BodyPath elseBody b w) ∧ path = a ++ b
  | .whileLoop cond body, path, w =>
    Rounds (fun path next => ∃ a, cond.Path a ∧ (path = a ∧ next = some .normal ∨
      ∃ b w', Stmt.BodyPath body b w' ∧ path = a ++ b ∧ next = w'.leaves)) path w
  | .doWhile body cond, path, w =>
    Rounds (fun path next => ∃ a w', Stmt.BodyPath body a w' ∧
      (w'.leaves.isSome = true ∧ path = a ∧ next = w'.leaves ∨
        w'.leaves = none ∧ ∃ b, cond.Path b ∧ path = a ++ b ∧ (next = none ∨ next = some .normal)))
      path w
  | .forLoop init cond update body, path, w =>
    ∃ a b, (∀ i, init = some i → i.Path a) ∧ (init = none → a = []) ∧ path = a ++ b ∧
      Rounds (fun path next => ∃ a, Expr.OptionPath cond a ∧ (path = a ∧ next = some .normal ∨
        ∃ b w', Stmt.BodyPath body b w' ∧
          (w'.leaves.isSome = true ∧ path = a ++ b ∧ next = w'.leaves ∨
            w'.leaves = none ∧ ∃ c, Expr.SequencePath update c ∧ path = a ++ b ++ c ∧ next = none)))
        b w
  | .breakLoop, path, w => path = [] ∧ w = .broke
  | .continueLoop, path, w => path = [] ∧ w = .continued
  | .ret value, path, w => Expr.OptionPath value path ∧ w = .returned
  | .block body, path, w => Stmt.BodyPath body path w

def Stmt.BodyPath : List Stmt → List TempAccess → Way → Prop
  | [], path, w => path = [] ∧ w = .normal
  | s :: rest, path, w =>
    path = [] ∧ w = .cut ∨ s.Path path w ∧ w ≠ .normal ∨
      ∃ a b, s.Path a .normal ∧ Stmt.BodyPath rest b w ∧ path = a ++ b

end

end GridKernel.Target
