import GridKernel.Eval.Trap

/-!
# Meaning of operators

Integer arithmetic wraps at its width, shift counts are taken modulo the width, and an integer
division by zero traps.
-/

namespace GridKernel.Eval

def int32Op (op : BinaryOp) (a b : Int32) : Except Trap Value :=
  match op with
  | .add => .ok (.int (a + b))
  | .sub => .ok (.int (a - b))
  | .mul => .ok (.int (a * b))
  | .div => if b = 0 then .error .divisionByZero else .ok (.int (a / b))
  | .rem => if b = 0 then .error .divisionByZero else .ok (.int (a % b))
  | .bitAnd => .ok (.int (a &&& b))
  | .bitOr => .ok (.int (a ||| b))
  | .bitXor => .ok (.int (a ^^^ b))
  | .eq => .ok (.boolean (a = b))
  | .ne => .ok (.boolean (a ≠ b))
  | .lt => .ok (.boolean (a < b))
  | .le => .ok (.boolean (a ≤ b))
  | .gt => .ok (.boolean (b < a))
  | .ge => .ok (.boolean (b ≤ a))
  | op => .error (.integerOp op)

def int64Op (op : BinaryOp) (a b : Int64) : Except Trap Value :=
  match op with
  | .add => .ok (.long (a + b))
  | .sub => .ok (.long (a - b))
  | .mul => .ok (.long (a * b))
  | .div => if b = 0 then .error .divisionByZero else .ok (.long (a / b))
  | .rem => if b = 0 then .error .divisionByZero else .ok (.long (a % b))
  | .bitAnd => .ok (.long (a &&& b))
  | .bitOr => .ok (.long (a ||| b))
  | .bitXor => .ok (.long (a ^^^ b))
  | .eq => .ok (.boolean (a = b))
  | .ne => .ok (.boolean (a ≠ b))
  | .lt => .ok (.boolean (a < b))
  | .le => .ok (.boolean (a ≤ b))
  | .gt => .ok (.boolean (b < a))
  | .ge => .ok (.boolean (b ≤ a))
  | op => .error (.integerOp op)

def singleOp (op : BinaryOp) (a b : Binary32) : Except Trap Value :=
  match op with
  | .add => .ok (.float (a.add b))
  | .sub => .ok (.float (a.sub b))
  | .mul => .ok (.float (a.mul b))
  | .div => .ok (.float (a.div b))
  | .rem => .ok (.float (a.rem b))
  | .eq => .ok (.boolean (a.eq b))
  | .ne => .ok (.boolean !(a.eq b))
  | .lt => .ok (.boolean (a.lt b))
  | .le => .ok (.boolean (a.le b))
  | .gt => .ok (.boolean (b.lt a))
  | .ge => .ok (.boolean (b.le a))
  | op => .error (.floatingOp op)

def doubleOp (op : BinaryOp) (a b : Binary64) : Except Trap Value :=
  match op with
  | .add => .ok (.double (a.add b))
  | .sub => .ok (.double (a.sub b))
  | .mul => .ok (.double (a.mul b))
  | .div => .ok (.double (a.div b))
  | .rem => .ok (.double (a.rem b))
  | .eq => .ok (.boolean (a.eq b))
  | .ne => .ok (.boolean !(a.eq b))
  | .lt => .ok (.boolean (a.lt b))
  | .le => .ok (.boolean (a.le b))
  | .gt => .ok (.boolean (b.lt a))
  | .ge => .ok (.boolean (b.le a))
  | op => .error (.floatingOp op)

def booleanOp (op : BinaryOp) (a b : Bool) : Except Trap Value :=
  match op with
  | .bitAnd | .and => .ok (.boolean (a && b))
  | .bitOr | .or => .ok (.boolean (a || b))
  | .bitXor => .ok (.boolean (a ^^ b))
  | .eq => .ok (.boolean (a == b))
  | .ne => .ok (.boolean (a != b))
  | op => .error (.booleanOp op)

def shift32 (op : BinaryOp) (a : Int32) (count : Int64) : Int32 :=
  let c : Int32 := (count &&& 31).toInt32
  match op with
  | .shl => a <<< c
  | .shr => a >>> c
  | _ => (a.toUInt32 >>> c.toUInt32).toInt32

def shift64 (op : BinaryOp) (a : Int64) (count : Int64) : Int64 :=
  let c : Int64 := count &&& 63
  match op with
  | .shl => a <<< c
  | .shr => a >>> c
  | _ => (a.toUInt64 >>> c.toUInt64).toInt64

def shift (op : BinaryOp) (l r : Value) : Except Trap Value :=
  match r.integer? with
  | none => .error (.shiftCount r.type)
  | some count =>
    match l with
    | .int a => .ok (.int (shift32 op a count))
    | .long a => .ok (.long (shift64 op a count))
    | v => .error (.shiftOf v.type)

/-- Applies a binary operator to evaluated operands. -/
def binary (op : BinaryOp) (l r : Value) : Except Trap Value :=
  if op.isShift then shift op l r
  else match l, r with
    | .int a, .int b => int32Op op a b
    | .long a, .long b => int64Op op a b
    | .float a, .float b => singleOp op a b
    | .double a, .double b => doubleOp op a b
    | .boolean a, .boolean b => booleanOp op a b
    | l, r => .error (.mixedOp op l.type r.type)

def unary (op : UnaryOp) (v : Value) : Except Trap Value :=
  match op, v with
  | .neg, .int a => .ok (.int (-a))
  | .neg, .long a => .ok (.long (-a))
  | .neg, .float a => .ok (.float a.neg)
  | .neg, .double a => .ok (.double a.neg)
  | .not, .boolean b => .ok (.boolean !b)
  | .bitNot, .int a => .ok (.int (~~~a))
  | .bitNot, .long a => .ok (.long (~~~a))
  | op, v => .error (.unaryOp op v.type)

/-- The value after an increment or decrement, which wraps. -/
def stepped (op : StepOp) (old : Value) : Value :=
  match op, old with
  | .inc, .float v => .float (v.add (.ofInt64 1))
  | .dec, .float v => .float (v.sub (.ofInt64 1))
  | .inc, .double v => .double (v.add (.ofInt64 1))
  | .dec, .double v => .double (v.sub (.ofInt64 1))
  | .inc, .long v => .long (v + 1)
  | .dec, .long v => .long (v - 1)
  | .inc, v => .cast v.type (.long (v.integer?.getD 0 + 1))
  | .dec, v => .cast v.type (.long (v.integer?.getD 0 - 1))

/-- A function of one floating-point argument, computed in double precision. -/
def floating (func : Builtin) (f : Float → Float) : List Value → Except Trap Value
  | .float a :: _ => .ok (.float (a.viaDouble (.map f)))
  | .double a :: _ => .ok (.double (a.map f))
  | _ => .error (.notFloating func)

def absolute : List Value → Except Trap Value
  | .int a :: _ => .ok (.int (if a < 0 then -a else a))
  | .long a :: _ => .ok (.long (if a < 0 then -a else a))
  | .float a :: _ => .ok (.float a.abs)
  | .double a :: _ => .ok (.double a.abs)
  | _ => .error .notNumeric

def minimum (a b : Value) : Except Trap Value :=
  match a, b with
  | .int a, .int b => .ok (.int (if b < a then b else a))
  | .long a, .long b => .ok (.long (if b < a then b else a))
  | .float a, .float b => .ok (.float (a.min b))
  | .double a, .double b => .ok (.double (a.min b))
  | a, b => .error (.undefinedPair .min a.type b.type)

def maximum (a b : Value) : Except Trap Value :=
  match a, b with
  | .int a, .int b => .ok (.int (if a < b then b else a))
  | .long a, .long b => .ok (.long (if a < b then b else a))
  | .float a, .float b => .ok (.float (a.max b))
  | .double a, .double b => .ok (.double (a.max b))
  | a, b => .error (.undefinedPair .max a.type b.type)

def power (a b : Value) : Except Trap Value :=
  match a, b with
  | .float a, .float b => .ok (.float (a.pow b))
  | .double a, .double b => .ok (.double (a.pow b))
  | _, _ => .error .notFloatingPair

/-- A mathematical function applied to evaluated arguments. -/
def math (func : Builtin) (args : List Value) : Except Trap Value :=
  let pair (f : Value → Value → Except Trap Value) : Except Trap Value :=
    match args with
    | a :: b :: _ => f a b
    | _ => .error (.twoArguments func)
  match func with
  | .abs => absolute args
  | .min => pair minimum
  | .max => pair maximum
  | .pow => pair power
  | .sqrt => floating func Float.sqrt args
  | .sin => floating func Float.sin args
  | .cos => floating func Float.cos args
  | .tan => floating func Float.tan args
  | .exp => floating func Float.exp args
  | .log => floating func Float.log args
  | .floor => floating func Float.floor args
  | .ceil => floating func Float.ceil args
  | func => .error (.noWorkItem func)

end GridKernel.Eval
