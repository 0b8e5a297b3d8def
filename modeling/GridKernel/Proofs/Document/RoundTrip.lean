import GridKernel.Document.Reader
import GridKernel.Document.Writer
import GridKernel.Proofs.Json.RoundTrip

/-!
# Reading a kernel document that was written

Writer and reader agree on every construct of the language: on its tag, on the names of its
fields and on which of them may be left out. What is written of a schema without floating-point
literals is therefore read back as that schema. The only limit is the reader's depth, and each
reader is shown to need no more of it than the document nests containers.
-/

namespace GridKernel

open List

mutual

/-- How deep the containers of a value are nested. -/
def Json.nesting : Json → Nat
  | .arr items => Json.itemsNesting items + 1
  | .obj members => Json.membersNesting members + 1
  | .null | .bool _ | .num _ | .str _ | .broken => 0

def Json.itemsNesting : List Json → Nat
  | [] => 0
  | item :: items => max item.nesting (Json.itemsNesting items)

def Json.membersNesting : List (String × Json) → Nat
  | [] => 0
  | (_, value) :: members => max value.nesting (Json.membersNesting members)

end

namespace Json

theorem itemsNesting_le : itemsNesting items ≤ d ↔ ∀ j ∈ items, j.nesting ≤ d := by
  induction items with
  | nil => simp [itemsNesting]
  | cons item items ih => simp only [itemsNesting, Nat.max_le, ih, forall_mem_cons]

theorem membersNesting_le : membersNesting members ≤ d ↔ ∀ m ∈ members, m.2.nesting ≤ d := by
  induction members with
  | nil => simp [membersNesting]
  | cons member members ih => simp only [membersNesting, Nat.max_le, ih, forall_mem_cons]

/-- The items of an array that fits fit one level further down. -/
theorem arr_room (room : (Json.arr items).nesting ≤ d) :
    ∃ rest, d = rest + 1 ∧ ∀ j ∈ items, j.nesting ≤ rest := by
  obtain ⟨rest, rfl⟩ := Nat.exists_eq_add_of_le' (Nat.le_trans (Nat.le_add_left 1 _) room)
  exact ⟨rest, rfl, itemsNesting_le.mp (Nat.le_of_succ_le_succ room)⟩

theorem arr_fits (fits : ∀ j ∈ items, j.nesting ≤ d) : (Json.arr items).nesting ≤ d + 1 :=
  Nat.succ_le_succ (itemsNesting_le.mpr fits)

theorem obj_room (room : (Json.obj members).nesting ≤ d) :
    ∃ rest, d = rest + 1 ∧ ∀ m ∈ members, m.2.nesting ≤ rest := by
  obtain ⟨rest, rfl⟩ := Nat.exists_eq_add_of_le' (Nat.le_trans (Nat.le_add_left 1 _) room)
  exact ⟨rest, rfl, membersNesting_le.mp (Nat.le_of_succ_le_succ room)⟩

end Json

def Expr.isFloatingLiteral : Expr → Bool
  | .literal v => v.type.isFloating
  | _ => false

/-- Whether none of the expressions is a floating-point literal. -/
def NoFloating (nodes : List Expr) : Prop := ∀ e ∈ nodes, e.isFloatingLiteral = false

instance (nodes : List Expr) : Decidable (NoFloating nodes) :=
  inferInstanceAs (Decidable (∀ e ∈ nodes, e.isFloatingLiteral = false))

namespace NoFloating

theorem head (h : NoFloating (e :: nodes)) : e.isFloatingLiteral = false := h e mem_cons_self

theorem tail (h : NoFloating (e :: nodes)) : NoFloating nodes :=
  fun e member => h e (mem_cons_of_mem _ member)

theorem left (h : NoFloating (nodes ++ nodes')) : NoFloating nodes :=
  fun e member => h e (mem_append_left _ member)

theorem right (h : NoFloating (nodes ++ nodes')) : NoFloating nodes' :=
  fun e member => h e (mem_append_right _ member)

end NoFloating

/-! ## Names -/

theorem ScalarType.ofName?_name (t) : ofName? t.name = some t := by
  cases t <;> rfl

theorem BinaryOp.ofName?_name (op) : ofName? op.name = some op := by
  cases op <;> rfl

theorem UnaryOp.ofName?_name (op) : ofName? op.name = some op := by
  cases op <;> rfl

theorem StepOp.ofName?_name (op) : ofName? op.name = some op := by
  cases op <;> rfl

theorem AtomicOp.ofName?_name (op) : ofName? op.name = some op := by
  cases op <;> rfl

theorem Builtin.ofName?_name (func) : ofName? func.name = some func := by
  cases func <;> rfl

theorem SlotWidth.ofName?_name (width) : ofName? width.name = some width := by
  cases width <;> rfl

theorem FieldShape.ofName?_name (shape) : ofName? shape.name = some shape := by
  cases shape <;> rfl

theorem MemorySpace.ofName?_name (space) : ofName? space.name = some space := by
  cases space <;> rfl

namespace Document

open Json

/-! ## Room -/

theorem tagged_room (room : (tagged tag payload).nesting ≤ d) :
    ∃ rest, d = rest + 1 ∧ payload.nesting ≤ rest := by
  obtain ⟨rest, rfl, inner⟩ := obj_room room
  exact ⟨rest, rfl, inner _ mem_cons_self⟩

/-- The fields of a construct stand two levels inside it. -/
theorem record_room (room : (tagged tag (.obj members)).nesting ≤ d) :
    ∃ rest, d = rest + 2 ∧ ∀ m ∈ members, m.2.nesting ≤ rest := by
  obtain ⟨_, rfl, inner⟩ := tagged_room room
  obtain ⟨rest, rfl, parts⟩ := obj_room inner
  exact ⟨rest, rfl, parts⟩

/-! ## Reading part after part -/

section

variable {α β γ δ ε : Type} {x : Option α} {a : α} {b : β} {c : γ}

theorem read₁ (f : α → ε) (h : x = some a) : (do return f (← x)) = some (f a) := by
  rw [h]
  rfl

theorem read₂ (f : α → β → ε) (h : x = some a) (h₁ : y = some b) :
    (do return f (← x) (← y)) = some (f a b) := by
  rw [h]
  exact read₁ (f a) h₁

theorem read₃ (f : α → β → γ → ε) (h : x = some a) (h₁ : y = some b) (h₂ : z = some c) :
    (do return f (← x) (← y) (← z)) = some (f a b c) := by
  rw [h]
  exact read₂ (f a) h₁ h₂

theorem read₄ (f : α → β → γ → δ → ε) (h : x = some a) (h₁ : y = some b) (h₂ : z = some c)
    (h₃ : w = some e) : (do return f (← x) (← y) (← z) (← w)) = some (f a b c e) := by
  rw [h]
  exact read₃ (f a) h₁ h₂ h₃

end

/-! ## Literals -/

theorem int?_int (f : Int → α) (low : least ≤ i) (high : i ≤ greatest) :
    (int? least greatest (.int i)).map f = some (f i) := by
  have read : int? least greatest (.int i) = some i := by
    simp [int?, Json.int, Numeral.toInt?_ofInt, low, high]
  rw [read, Option.map_some]

theorem value?_ofValue (integral : v.type.isFloating = false) (room : (ofValue v).nesting ≤ d) :
    value? d (ofValue v) = some v := by
  obtain ⟨d, rfl⟩ : ∃ rest, d = rest + 1 := by
    cases v <;> exact (tagged_room room).imp fun _ fits => fits.1
  -- The reader of each integer type accepts the range of that type and no more.
  cases v with
  | boolean v => rfl
  | byte v =>
    have read := int?_int (fun i => Value.byte (.ofInt i)) v.minValue_le_toInt v.toInt_le
    rwa [Int8.ofInt_toInt] at read
  | short v =>
    have read := int?_int (fun i => Value.short (.ofInt i)) v.minValue_le_toInt v.toInt_le
    rwa [Int16.ofInt_toInt] at read
  | char v =>
    have bound := v.toNat_lt
    have read := int?_int (fun i => Value.char (.ofNat i.toNat)) (show 0 ≤ (v.toNat : Int) by omega)
      (show (v.toNat : Int) ≤ 65535 by omega)
    rwa [Int.toNat_natCast, UInt16.ofNat_toNat] at read
  | int v =>
    have read := int?_int (fun i => Value.int (.ofInt i)) v.minValue_le_toInt v.toInt_le
    rwa [Int32.ofInt_toInt] at read
  | long v =>
    have read := int?_int (fun i => Value.long (.ofInt i)) v.minValue_le_toInt v.toInt_le
    rwa [Int64.ofInt_toInt] at read
  | float v | double v => cases integral

/-! ## Expressions -/

/-- No expression is written as `null`, which would be read as its absence. -/
theorem orNull_ofExpr {α : Type} {read : Json → Option α} {e : Expr} {a : α}
    (h : read (ofExpr e) = some a) : orNull read (some (ofExpr e)) = some (some a) := by
  refine Eq.trans ?_ (congrArg (Option.map some) h)
  cases e <;> rfl

mutual

/-- By induction on expressions. What the reader does at a tag is shown by running it on the
construct as it is written; its parts are then read one or two levels further down. -/
theorem expr?_ofExpr : ∀ {e : Expr}, NoFloating e.nodes → ∀ {d : Nat}, (ofExpr e).nesting ≤ d →
    expr? d (ofExpr e) = some e
  | .literal v, integral, d, room => by
    obtain ⟨d, rfl, inner⟩ := tagged_room room
    exact congrArg (Option.map Expr.literal) (value?_ofValue integral.head inner)
  | .var _, _, d, room | .field _, _, d, room | .length _, _, d, room => by
    obtain ⟨d, rfl, -⟩ := tagged_room room
    rfl
  | .element array index, integral, d, room => by
    obtain ⟨d, rfl, parts⟩ := record_room room
    have inner := expr?_ofExpr integral.tail (parts ("index", _) (by simp))
    exact (read₁ (Expr.element array) inner :)
  | .binary op lhs rhs, integral, d, room => by
    obtain ⟨d, rfl, parts⟩ := record_room room
    have left := expr?_ofExpr integral.tail.left (parts ("lhs", _) (by simp))
    have right := expr?_ofExpr integral.tail.right (parts ("rhs", _) (by simp))
    exact (read₃ Expr.binary op.ofName?_name left right :)
  | .unary op operand, integral, d, room => by
    obtain ⟨d, rfl, parts⟩ := record_room room
    have inner := expr?_ofExpr integral.tail (parts ("operand", _) (by simp))
    exact (read₂ Expr.unary op.ofName?_name inner :)
  | .conditional cond thenValue elseValue, integral, d, room => by
    obtain ⟨d, rfl, parts⟩ := record_room room
    have test := expr?_ofExpr integral.tail.left.left (parts ("cond", _) (by simp))
    have left := expr?_ofExpr integral.tail.left.right (parts ("then_value", _) (by simp))
    have right := expr?_ofExpr integral.tail.right (parts ("else_value", _) (by simp))
    exact (read₃ Expr.conditional test left right :)
  | .cast type value implicit, integral, d, room => by
    obtain ⟨d, rfl, parts⟩ := record_room room
    have inner := expr?_ofExpr integral.tail (parts ("value", _) (by simp))
    exact (read₂ (Expr.cast · · implicit) type.ofName?_name inner :)
  | .assign target op value, integral, d, room => by
    obtain ⟨d, rfl, parts⟩ := record_room room
    have place := place?_ofPlace integral.tail.left (parts ("target", _) (by simp))
    have inner := expr?_ofExpr integral.tail.right (parts ("value", _) (by simp))
    cases op with
    | none => exact (read₂ (Expr.assign · none ·) place inner :)
    | some op =>
      have name := congrArg (Option.map some) op.ofName?_name
      exact (read₃ Expr.assign place name inner :)
  | .step target op before, integral, d, room => by
    obtain ⟨d, rfl, parts⟩ := record_room room
    have place := place?_ofPlace integral.tail (parts ("target", _) (by simp))
    exact (read₂ (Expr.step · · before) place op.ofName?_name :)
  | .call method args, integral, d, room => by
    obtain ⟨d, rfl, parts⟩ := record_room room
    have inner := exprs?_ofExprs integral.tail (parts ("args", _) (by simp))
    exact (read₁ (Expr.call method) inner :)
  | .atomic op slot args, integral, d, room => by
    obtain ⟨d, rfl, parts⟩ := record_room room
    have place := slot?_ofSlot integral.tail.left (parts ("slot", _) (by simp))
    have inner := exprs?_ofExprs integral.tail.right (parts ("args", _) (by simp))
    exact (read₃ Expr.atomic op.ofName?_name place inner :)
  | .builtin func args, integral, d, room => by
    obtain ⟨d, rfl, parts⟩ := record_room room
    have inner := exprs?_ofExprs integral.tail (parts ("args", _) (by simp))
    exact (read₂ Expr.builtin func.ofName?_name inner :)

theorem place?_ofPlace : ∀ {p : Place Expr}, NoFloating p.nodes → ∀ {d : Nat},
    (ofPlace p).nesting ≤ d → place? d (ofPlace p) = some p
  | .var _, _, d, room | .field _, _, d, room => by
    obtain ⟨d, rfl, -⟩ := tagged_room room
    rfl
  | .element array index, integral, d, room => by
    obtain ⟨d, rfl, parts⟩ := record_room room
    have inner := expr?_ofExpr integral (parts ("index", _) (by simp))
    exact (read₁ (Place.element array) inner :)

theorem slot?_ofSlot : ∀ {slot : SlotRef Expr}, NoFloating slot.nodes → ∀ {d : Nat},
    (ofSlot slot).nesting ≤ d → slot? d (ofSlot slot) = some slot
  | ⟨field, none⟩, _, d, room => by
    obtain ⟨d, rfl, -⟩ := obj_room room
    rfl
  | ⟨field, some index⟩, integral, d, room => by
    obtain ⟨d, rfl, parts⟩ := obj_room room
    have inner := expr?_ofExpr integral (parts ("index", _) (by simp [optional, ofOption]))
    exact (read₁ (SlotRef.mk field) (orNull_ofExpr inner) :)

theorem exprs?_ofExprs : ∀ {args : List Expr}, NoFloating (Expr.listNodes args) → ∀ {d : Nat},
    (Json.arr (ofExprs args)).nesting ≤ d → exprs? d (.arr (ofExprs args)) = some args
  | [], _, d, room => by
    obtain ⟨d, rfl, -⟩ := arr_room room
    rfl
  | e :: args, integral, d, room => by
    obtain ⟨d, rfl, parts⟩ := arr_room room
    have first := expr?_ofExpr integral.left (parts _ mem_cons_self)
    have others := exprs?_ofExprs integral.right (arr_fits fun j member =>
      parts j (mem_cons_of_mem _ member))
    exact mapM_cons.trans (read₂ List.cons first others)

end

/-! ## Statements -/

mutual

/-- By induction on statements, like for expressions. -/
theorem stmt?_ofStmt : ∀ {s : Stmt}, NoFloating s.nodes → ∀ {d : Nat}, (ofStmt s).nesting ≤ d →
    stmt? d (ofStmt s) = some s
  | .declare name type none, _, d, room => by
    obtain ⟨d, rfl, -⟩ := record_room room
    exact (read₁ (Stmt.declare name · none) type.ofName?_name :)
  | .declare name type (some init), integral, d, room => by
    obtain ⟨d, rfl, parts⟩ := record_room room
    have inner := expr?_ofExpr integral (parts ("init", _) (by simp [optional, ofOption]))
    exact (read₂ (Stmt.declare name) type.ofName?_name (orNull_ofExpr inner) :)
  | .expr e, integral, d, room => by
    obtain ⟨d, rfl, inner⟩ := tagged_room room
    exact congrArg (Option.map Stmt.expr) (expr?_ofExpr integral inner)
  | .branch cond thenBody elseBody, integral, d, room => by
    obtain ⟨d, rfl, parts⟩ := record_room room
    have test := expr?_ofExpr integral.left.left (parts ("cond", _) (by simp))
    have left := body?_ofBody integral.left.right (parts ("then_body", _) (by simp))
    have right := body?_ofBody integral.right (parts ("else_body", _) (by simp))
    exact (read₃ Stmt.branch test left right :)
  | .whileLoop cond body, integral, d, room => by
    obtain ⟨d, rfl, parts⟩ := record_room room
    have test := expr?_ofExpr integral.left (parts ("cond", _) (by simp))
    have inner := body?_ofBody integral.right (parts ("body", _) (by simp))
    exact (read₂ Stmt.whileLoop test inner :)
  | .doWhile body cond, integral, d, room => by
    obtain ⟨d, rfl, parts⟩ := record_room room
    have test := expr?_ofExpr integral.left (parts ("cond", _) (by simp))
    have inner := body?_ofBody integral.right (parts ("body", _) (by simp))
    exact (read₂ Stmt.doWhile inner test :)
  | .forLoop init cond update body, integral, d, room => by
    obtain ⟨d, rfl, parts⟩ := record_room room
    have start := body?_ofBody integral.left.left.left (parts ("init", _) (by simp))
    have updates := exprs?_ofExprs integral.left.right (parts ("update", _) (by simp))
    have inner := body?_ofBody integral.right (parts ("body", _) (by simp))
    cases cond with
    | none => exact (read₃ (Stmt.forLoop · none · ·) start updates inner :)
    | some cond =>
      have test := expr?_ofExpr integral.left.left.right
        (parts ("cond", _) (by simp [optional, ofOption]))
      exact (read₄ Stmt.forLoop start (orNull_ofExpr test) updates inner :)
  | .breakLoop, _, d, _ | .continueLoop, _, d, _ => by cases d <;> rfl
  | .ret none, _, d, room => by
    obtain ⟨d, rfl, -⟩ := tagged_room room
    rfl
  | .ret (some value), integral, d, room => by
    obtain ⟨d, rfl, inner⟩ := tagged_room room
    exact congrArg (Option.map Stmt.ret) (orNull_ofExpr (expr?_ofExpr integral inner))
  | .block body, integral, d, room => by
    obtain ⟨d, rfl, inner⟩ := tagged_room room
    exact congrArg (Option.map Stmt.block) (body?_ofBody integral inner)

theorem body?_ofBody : ∀ {body : List Stmt}, NoFloating (Stmt.allNodes body) → ∀ {d : Nat},
    (ofBody body).nesting ≤ d → body? d (ofBody body) = some body
  | [], _, d, room => by
    obtain ⟨d, rfl, -⟩ := arr_room room
    rfl
  | s :: body, integral, d, room => by
    obtain ⟨d, rfl, parts⟩ := arr_room room
    have first := stmt?_ofStmt integral.left (parts _ mem_cons_self)
    have others := body?_ofBody integral.right (arr_fits fun j member =>
      parts j (mem_cons_of_mem _ member))
    exact mapM_cons.trans (read₂ List.cons first others)

end

/-! ## Schemas -/

/-- A list is read back if its members are, wherever there is room for them. -/
theorem list?_written {α : Type} {read : Nat → Json → Option α} {write : α → Json} {items : List α}
    (each : ∀ a ∈ items, ∀ d, (write a).nesting ≤ d → read d (write a) = some a)
    (room : (Json.arr (items.map write)).nesting ≤ d) :
    list? d read (.arr (items.map write)) = some items := by
  obtain ⟨d, rfl, parts⟩ := arr_room room
  change (items.map write).mapM (read d) = some items
  clear room
  induction items with
  | nil => rfl
  | cons a items ih =>
    have first := each a mem_cons_self d (parts _ mem_cons_self)
    have others := ih (fun b member => each b (mem_cons_of_mem a member))
      (fun j member => parts j (mem_cons_of_mem _ member))
    exact mapM_cons.trans (read₂ List.cons first others)

theorem param?_ofParam (p) (room : (ofParam p).nesting ≤ d) : param? d (ofParam p) = some p := by
  obtain ⟨d, rfl, -⟩ := obj_room room
  exact (read₁ (Param.mk p.name) p.type.ofName?_name :)

theorem method?_ofMethod (integral : NoFloating (Stmt.allNodes m.body))
    (room : (ofMethod m).nesting ≤ d) : method? d (ofMethod m) = some m := by
  obtain ⟨d, rfl, parts⟩ := obj_room room
  have params : list? d param? (.arr (m.params.map ofParam)) = some m.params :=
    list?_written (fun p _ _ => param?_ofParam p) (parts ("params", .arr _) (by simp))
  have inner := body?_ofBody integral (parts ("body", ofBody m.body) (by simp))
  obtain ⟨name, parameters, ret, body⟩ := m
  cases ret with
  | none => exact (read₂ (Method.mk name · none ·) params inner :)
  | some type =>
    have result := congrArg (Option.map some) type.ofName?_name
    exact (read₃ (Method.mk name) params result inner :)

theorem fieldType?_ofFieldType (type) (room : (ofFieldType type).nesting ≤ d) :
    fieldType? d (ofFieldType type) = some type := by
  cases type with
  | scalar type =>
    obtain ⟨d, rfl, -⟩ := tagged_room room
    exact congrArg (Option.map FieldType.scalar) type.ofName?_name
  | atomic width =>
    obtain ⟨d, rfl, -⟩ := tagged_room room
    exact congrArg (Option.map FieldType.atomic) width.ofName?_name
  | object name =>
    obtain ⟨d, rfl, -⟩ := tagged_room room
    rfl

theorem fieldDecl?_ofFieldDecl (decl) (room : (ofFieldDecl decl).nesting ≤ d) :
    fieldDecl? d (ofFieldDecl decl) = some decl := by
  obtain ⟨d, rfl, parts⟩ := obj_room room
  have type := fieldType?_ofFieldType decl.type (parts ("ty", ofFieldType decl.type) (by simp))
  exact (read₃ (FieldDecl.mk decl.name) type decl.shape.ofName?_name decl.space.ofName?_name :)

theorem schema?_ofSchema (integral : ∀ m ∈ s.methods, NoFloating (Stmt.allNodes m.body))
    (room : (ofSchema s).nesting ≤ d) : schema? d (ofSchema s) = some s := by
  obtain ⟨d, rfl, parts⟩ := obj_room room
  have fields : list? d fieldDecl? (.arr (s.fields.map ofFieldDecl)) = some s.fields :=
    list?_written (fun decl _ _ => fieldDecl?_ofFieldDecl decl)
      (parts ("fields", .arr _) (by simp))
  have methods : list? d method? (.arr (s.methods.map ofMethod)) = some s.methods :=
    list?_written (fun m member _ => method?_ofMethod (integral m member))
      (parts ("methods", .arr _) (by simp))
  exact (read₂ (Schema.mk s.name · · s.entry) fields methods :)

/-! ## From text

Numbers are written for literals only, so that without floating-point literals all of them are
integers, and the text of the document is read back as the document. -/

theorem ofValue_plain (integral : v.type.isFloating = false) : (ofValue v).Plain := by
  cases v with
  | boolean v => exact ⟨trivial, trivial⟩
  | byte v | short v | char v | int v | long v => exact ⟨⟨_, rfl⟩, trivial⟩
  | float v | double v => cases integral

theorem plain_tagged (plain : payload.Plain) : (tagged tag payload).Plain :=
  ⟨plain, trivial⟩

mutual

theorem ofExpr_plain : ∀ {e : Expr}, NoFloating e.nodes → (ofExpr e).Plain
  | .literal _, integral => plain_tagged (ofValue_plain integral.head)
  | .var _, _ | .field _, _ | .length _, _ => plain_tagged trivial
  | .element _ _, integral =>
    plain_tagged ⟨trivial, ofExpr_plain integral.tail, trivial⟩
  | .binary _ _ _, integral =>
    plain_tagged ⟨trivial, ofExpr_plain integral.tail.left,
      ofExpr_plain integral.tail.right, trivial⟩
  | .unary _ _, integral =>
    plain_tagged ⟨trivial, ofExpr_plain integral.tail, trivial⟩
  | .conditional _ _ _, integral =>
    plain_tagged ⟨ofExpr_plain integral.tail.left.left, ofExpr_plain integral.tail.left.right,
      ofExpr_plain integral.tail.right, trivial⟩
  | .cast _ _ _, integral =>
    plain_tagged ⟨trivial, ofExpr_plain integral.tail, trivial, trivial⟩
  | .assign _ none _, integral =>
    plain_tagged ⟨ofPlace_plain integral.tail.left, ofExpr_plain integral.tail.right, trivial⟩
  | .assign _ (some _) _, integral =>
    plain_tagged ⟨ofPlace_plain integral.tail.left, trivial, ofExpr_plain integral.tail.right,
      trivial⟩
  | .step _ _ _, integral =>
    plain_tagged ⟨ofPlace_plain integral.tail, trivial, trivial, trivial⟩
  | .call _ _, integral =>
    plain_tagged ⟨trivial, ofExprs_plain integral.tail, trivial⟩
  | .atomic _ _ _, integral =>
    plain_tagged ⟨trivial, ofSlot_plain integral.tail.left, ofExprs_plain integral.tail.right,
      trivial⟩
  | .builtin _ _, integral =>
    plain_tagged ⟨trivial, ofExprs_plain integral.tail, trivial⟩

theorem ofPlace_plain : ∀ {p : Place Expr}, NoFloating p.nodes → (ofPlace p).Plain
  | .var _, _ | .field _, _ => plain_tagged trivial
  | .element _ _, integral => plain_tagged ⟨trivial, ofExpr_plain integral, trivial⟩

theorem ofSlot_plain : ∀ {slot : SlotRef Expr}, NoFloating slot.nodes → (ofSlot slot).Plain
  | ⟨_, none⟩, _ => ⟨trivial, trivial⟩
  | ⟨_, some _⟩, integral => ⟨trivial, ofExpr_plain integral, trivial⟩

theorem ofExprs_plain : ∀ {args : List Expr}, NoFloating (Expr.listNodes args) →
    (Json.arr (ofExprs args)).Plain
  | [], _ => trivial
  | _ :: _, integral => ⟨ofExpr_plain integral.left, ofExprs_plain integral.right⟩

end

mutual

theorem ofStmt_plain : ∀ {s : Stmt}, NoFloating s.nodes → (ofStmt s).Plain
  | .declare _ _ none, _ => plain_tagged ⟨trivial, trivial, trivial⟩
  | .declare _ _ (some _), integral =>
    plain_tagged ⟨trivial, trivial, ofExpr_plain integral, trivial⟩
  | .expr _, integral => plain_tagged (ofExpr_plain integral)
  | .branch _ _ _, integral =>
    plain_tagged ⟨ofExpr_plain integral.left.left, ofBody_plain integral.left.right,
      ofBody_plain integral.right, trivial⟩
  | .whileLoop _ _, integral =>
    plain_tagged ⟨ofExpr_plain integral.left, ofBody_plain integral.right, trivial⟩
  | .doWhile _ _, integral =>
    plain_tagged ⟨ofBody_plain integral.right, ofExpr_plain integral.left, trivial⟩
  | .forLoop _ none _ _, integral =>
    plain_tagged ⟨ofBody_plain integral.left.left.left, ofExprs_plain integral.left.right,
      ofBody_plain integral.right, trivial⟩
  | .forLoop _ (some _) _ _, integral =>
    plain_tagged ⟨ofBody_plain integral.left.left.left, ofExpr_plain integral.left.left.right,
      ofExprs_plain integral.left.right, ofBody_plain integral.right, trivial⟩
  | .breakLoop, _ | .continueLoop, _ => trivial
  | .ret none, _ => plain_tagged trivial
  | .ret (some _), integral => plain_tagged (ofExpr_plain integral)
  | .block _, integral => plain_tagged (ofBody_plain integral)

theorem ofBody_plain : ∀ {body : List Stmt}, NoFloating (Stmt.allNodes body) →
    (ofBody body).Plain
  | [], _ => trivial
  | _ :: _, integral => ⟨ofStmt_plain integral.left, ofBody_plain integral.right⟩

end

theorem plain_arr (each : ∀ j ∈ items, j.Plain) : (Json.arr items).Plain := by
  induction items with
  | nil => trivial
  | cons j items ih =>
    exact ⟨each j mem_cons_self, ih fun k member => each k (mem_cons_of_mem j member)⟩

theorem ofMethod_plain (integral : NoFloating (Stmt.allNodes m.body)) : (ofMethod m).Plain := by
  have params : (Json.arr (m.params.map ofParam)).Plain :=
    plain_arr (forall_mem_map.mpr fun _ _ => ⟨trivial, trivial, trivial⟩)
  have inner := ofBody_plain integral
  obtain ⟨name, parameters, ret, body⟩ := m
  cases ret with
  | none => exact ⟨trivial, params, inner, trivial⟩
  | some type => exact ⟨trivial, params, trivial, inner, trivial⟩

theorem ofFieldDecl_plain (decl) : (ofFieldDecl decl).Plain := by
  have type : (ofFieldType decl.type).Plain := by
    cases decl.type <;> exact plain_tagged trivial
  exact ⟨trivial, type, trivial, trivial, trivial⟩

theorem ofSchema_plain (integral : ∀ m ∈ s.methods, NoFloating (Stmt.allNodes m.body)) :
    (ofSchema s).Plain :=
  ⟨trivial, plain_arr (forall_mem_map.mpr fun decl _ => ofFieldDecl_plain decl),
    plain_arr (forall_mem_map.mpr fun m member => ofMethod_plain (integral m member)),
    trivial, trivial⟩

/-- A schema without floating-point literals is read back from its text if that nests no deeper
than a document may, and it is then written as the same text again. -/
theorem schema_reads_back (s : Schema)
    (integral : ∀ m ∈ s.methods, NoFloating (Stmt.allNodes m.body))
    (room : (ofSchema s).nesting ≤ depth) :
    parseSchema? (ofSchema s).compact = some s ∧
      (parseSchema? (ofSchema s).compact).map (fun t => (ofSchema t).compact) =
        some (ofSchema s).compact := by
  have readBack : parseSchema? (ofSchema s).compact = some s := by
    rw [parseSchema?, parse?_compact (ofSchema_plain integral), Option.bind_eq_bind,
      Option.bind_some, schema?_ofSchema integral room]
  rw [readBack]
  exact ⟨rfl, rfl⟩

/-- Names that have to be escaped, the least 64-bit integer, and every optional part once given
and once left out. -/
def escapedSchema : Schema where
  name := "a \"b\" \\ \n \x01 \u20ac"
  fields := [⟨"data", .scalar .int, .array, .global⟩, ⟨"hits", .atomic .long, .array, .workGroup⟩,
    ⟨"owner", .object "Owner", .scalar, .constant⟩]
  methods :=
    [{ name := "run"
       body :=
        [.declare "i" .long (some (.literal (.long Int64.minValue))), .declare "c\t" .char none,
          .forLoop [] none [.step (.var "i") .inc true]
            [.branch (.literal (.boolean true)) [.breakLoop] [.continueLoop]],
          .forLoop [.expr (.assign (.var "i") none (.length "data"))] (some (.var "b")) [] [],
          .expr (.assign (.element "data" (.int 0)) (some .ushr) (.cast .int (.var "i") true)),
          .expr (.atomic .inc ⟨"hits", some (.literal (.byte (-128)))⟩ []),
          .expr (.atomic .set ⟨"hits", none⟩ [.call "pick" [.literal (.char 65535)]]),
          .ret none] },
      { name := "pick"
        params := [⟨"x", .char⟩]
        ret := some .int
        body := [.ret (some (.unary .neg (.cast .int (.var "x") false)))] }]
  entry := "\"run\""

theorem escapedSchema_reads_back :
    (ofSchema escapedSchema).nesting = 13 ∧
      parseSchema? (ofSchema escapedSchema).compact = some escapedSchema ∧
      (parseSchema? (ofSchema escapedSchema).compact).map (fun t => (ofSchema t).compact) =
        some (ofSchema escapedSchema).compact :=
  ⟨by decide, schema_reads_back escapedSchema (by decide) (by decide)⟩

end Document

end GridKernel
