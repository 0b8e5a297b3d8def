import GridKernel.Proofs.Memory.Shape
import GridKernel.Proofs.Outcome
import GridKernel.Proofs.Typing.Operators
import Mathlib.Data.Nat.Bitwise

/-!
# Images of memory

A cell has 64 bits and an element 1, 2, 4 or 8 bytes. Every way to write a buffer leaves in each cell
the storage bits of a value of the element type, so the bytes of an image determine the contents, and
a buffer comes back from its own image. Slots are like elements of type `int` or `long`.
-/

namespace GridKernel

open List

/-! ## Bytes and words -/

@[simp] theorem length_bytesOf (n w) : (bytesOf n w).length = n := by
  induction n generalizing w with
  | zero => rfl
  | succ n ih => exact congrArg (· + 1) (ih _)

/-- One byte more at the lower end. -/
theorem toNat_shift_or {w : UInt64} (room : w.toNat < 256 ^ 7) (b : UInt8) :
    ((w <<< 8) ||| b.toUInt64).toNat = b.toNat + 256 * w.toNat := by
  have byte := b.toNat_lt
  rw [UInt64.toNat_or, UInt64.toNat_shiftLeft, UInt8.toNat_toUInt64]
  change (w.toNat <<< 8) % 2 ^ 64 ||| b.toNat = _
  rw [Nat.mod_eq_of_lt (by rw [Nat.shiftLeft_eq]; omega), ← Nat.shiftLeft_add_eq_or_of_lt byte,
    Nat.shiftLeft_eq]
  omega

theorem toNat_shiftRight (w : UInt64) : (w >>> 8).toNat = w.toNat / 256 := by
  rw [UInt64.toNat_shiftRight]
  exact Nat.shiftRight_eq_div_pow w.toNat 8

variable {bytes : List UInt8}

theorem toNat_wordOf_lt (few : bytes.length ≤ 8) : (wordOf bytes).toNat < 256 ^ bytes.length := by
  induction bytes with
  | nil => decide
  | cons b rest ih =>
    rw [length_cons] at few ⊢
    have others := ih (by omega)
    have room := others.trans_le (Nat.pow_le_pow_right (by decide) (by omega : rest.length ≤ 7))
    have byte := b.toNat_lt
    rw [wordOf, toNat_shift_or room, Nat.pow_succ]
    omega

theorem toNat_wordOf_cons (b) (few : rest.length ≤ 7) :
    (wordOf (b :: rest)).toNat = b.toNat + 256 * (wordOf rest).toNat :=
  toNat_shift_or ((toNat_wordOf_lt (by omega)).trans_le (Nat.pow_le_pow_right (by decide) few)) b

theorem bytesOf_wordOf (length : bytes.length = n) (few : n ≤ 8) :
    bytesOf n (wordOf bytes) = bytes := by
  induction bytes generalizing n with
  | nil => exact length ▸ rfl
  | cons b rest ih =>
    obtain ⟨n, rfl⟩ : ∃ k, n = k + 1 := ⟨rest.length, length.symm⟩
    have whole := toNat_wordOf_cons b (by simp at length; omega : rest.length ≤ 7)
    have byte := b.toNat_lt
    have low : (wordOf (b :: rest)).toUInt8 = b := UInt8.toNat_inj.mp (by simp [whole])
    have high : wordOf (b :: rest) >>> 8 = wordOf rest :=
      UInt64.toNat_inj.mp (by rw [toNat_shiftRight, whole]; omega)
    rw [bytesOf, low, high, ih (Nat.succ.inj length) (by omega)]

/-- Bytes determine the low part of a word. -/
theorem toNat_wordOf_bytesOf (few : n ≤ 8) (w) :
    (wordOf (bytesOf n w)).toNat = w.toNat % 256 ^ n := by
  induction n generalizing w with
  | zero => simp [bytesOf, wordOf, Nat.mod_one]
  | succ n ih =>
    rw [bytesOf, toNat_wordOf_cons _ (by rw [length_bytesOf]; omega), ih (by omega), Nat.pow_succ',
      Nat.mod_mul, UInt64.toNat_toUInt8, toNat_shiftRight]

/-- The low part of a word determines its bytes. -/
theorem bytesOf_congr (few : n ≤ 8) (same : w.toNat % 256 ^ n = w'.toNat % 256 ^ n) :
    bytesOf n w = bytesOf n w' := by
  rw [← toNat_wordOf_bytesOf few, ← toNat_wordOf_bytesOf few] at same
  rw [← bytesOf_wordOf (length_bytesOf n w) few, UInt64.toNat_inj.mp same,
    bytesOf_wordOf (length_bytesOf n w') few]

/-! ## Storage bits -/

theorem setWidth_signExtend (few : k ≤ n) (x : BitVec k) : (x.signExtend n).setWidth k = x := by
  apply BitVec.eq_of_getLsbD_eq
  intro i inside
  simp only [BitVec.getLsbD_setWidth, inside, BitVec.getLsbD_signExtend, decide_true, Bool.true_and,
    if_true, Bool.and_eq_right_iff_imp, decide_eq_true_eq]
  omega

theorem toNat_narrow (few : k ≤ 64) (x : BitVec 64) : (x.signExtend k).toNat = x.toNat % 2 ^ k := by
  rw [BitVec.signExtend_eq_setWidth_of_le x few, BitVec.toNat_setWidth]

/-- Sign extension keeps the low part. -/
theorem toNat_signExtend_mod (few : k ≤ 64) (x : BitVec 64) :
    ((x.signExtend k).signExtend 64).toNat % 2 ^ k = x.toNat % 2 ^ k := by
  rw [← BitVec.toNat_setWidth, setWidth_signExtend few, toNat_narrow few]

theorem ScalarType.size_le (t : ScalarType) : t.size ≤ 8 := by cases t <;> decide

namespace Value

variable {t : ScalarType}

theorem ofBits_toBits (type : v.type = t) : ofBits t v.toBits = v := by
  subst type
  cases v with
  | boolean b => cases b <;> rfl
  | _ => simp [ofBits, toBits, type]

/-- Storage bits keep the bytes that they are made from. -/
theorem toBits_ofBits_mod (wide : t ≠ .boolean) (w) :
    (ofBits t w).toBits.toNat % 256 ^ t.size = w.toNat % 256 ^ t.size := by
  cases t with
  | boolean => exact absurd rfl wide
  | byte => exact toNat_signExtend_mod (k := 8) (by decide) w.toBitVec
  | short => exact toNat_signExtend_mod (k := 16) (by decide) w.toBitVec
  | int => exact toNat_signExtend_mod (k := 32) (by decide) w.toBitVec
  | char | float => simp [ofBits, toBits, ScalarType.size]
  | long | double => rfl

/-- The bytes of an element determine its value. -/
theorem ofBits_congr (wide : t ≠ .boolean)
    (same : w.toNat % 256 ^ t.size = w'.toNat % 256 ^ t.size) : ofBits t w = ofBits t w' := by
  have narrow : ∀ {k}, k ≤ 64 → w.toNat % 2 ^ k = w'.toNat % 2 ^ k →
      w.toBitVec.signExtend k = w'.toBitVec.signExtend k := by
    intro k few same
    refine BitVec.eq_of_toNat_eq ?_
    rw [toNat_narrow few, toNat_narrow few]
    exact same
  cases t with
  | boolean => exact absurd rfl wide
  | byte => exact congrArg byte (Int8.toBitVec_inj.mp (narrow (by decide) same))
  | short => exact congrArg short (Int16.toBitVec_inj.mp (narrow (by decide) same))
  | int => exact congrArg int (Int32.toBitVec_inj.mp (narrow (by decide) same))
  | char => exact congrArg char (UInt16.toNat_inj.mp (by simpa [ScalarType.size] using same))
  | float => exact congrArg (float ⟨·⟩) (UInt32.toNat_inj.mp (by simpa [ScalarType.size] using same))
  | long | double =>
    obtain rfl : w = w' := UInt64.toNat_inj.mp <| by
      simpa [ScalarType.size, Nat.mod_eq_of_lt w.toNat_lt, Nat.mod_eq_of_lt w'.toNat_lt] using same
    rfl

/-- A value comes back from the bytes of its storage bits. -/
theorem ofBits_bytes (type : v.type = t) : ofBits t (wordOf (bytesOf t.size v.toBits)) = v := by
  by_cases wide : t = .boolean
  · subst wide
    obtain ⟨b, rfl⟩ := boolean_of_type type
    cases b <;> rfl
  · have low : (wordOf (bytesOf t.size v.toBits)).toNat % 256 ^ t.size =
        v.toBits.toNat % 256 ^ t.size := by
      rw [toNat_wordOf_bytesOf t.size_le, Nat.mod_mod]
    rw [ofBits_congr wide low, ofBits_toBits type]

/-- What a byte of an image becomes: a boolean is one byte, and any but zero is true. -/
def imageByte (t : ScalarType) (b : UInt8) : UInt8 := if t = .boolean ∧ b ≠ 0 then 1 else b

theorem map_imageByte (wide : t ≠ .boolean) (bytes : List UInt8) :
    bytes.map (imageByte t) = bytes := by
  have same : imageByte t = id := funext fun b => by simp [imageByte, wide]
  rw [same, map_id]

theorem bytes_ofBits (length : bytes.length = t.size) :
    bytesOf t.size (ofBits t (wordOf bytes)).toBits = bytes.map (imageByte t) := by
  by_cases wide : t = .boolean
  · subst wide
    obtain ⟨b, rfl⟩ := length_eq_one_iff.mp length
    by_cases zero : b = 0
    · subst zero
      rfl
    · have word : wordOf [b] ≠ 0 := by
        intro same
        have value := toNat_wordOf_cons b (show ([] : List UInt8).length ≤ 7 from Nat.zero_le 7)
        rw [same] at value
        exact zero (UInt8.toNat_inj.mp (by simpa [wordOf] using value.symm))
      have bits : (ofBits .boolean (wordOf [b])).toBits = 1 := by simp [ofBits, toBits, word]
      have settled : imageByte .boolean b = 1 := by simp [imageByte, zero]
      rw [bits, map_singleton, settled]
      rfl
  · rw [bytesOf_congr t.size_le (toBits_ofBits_mod wide _), bytesOf_wordOf length t.size_le,
      map_imageByte wide]

end Value

/-! ## Pieces of an image -/

theorem chunksOf_flatMap {size : Nat} (encode : α → List UInt8) (decode : List UInt8 → α)
    (each : ∀ a ∈ l, (encode a).length = size ∧ decode (encode a) = a) :
    (chunksOf size l.length (l.flatMap encode)).map decode = l := by
  induction l with
  | nil => rfl
  | cons a rest ih =>
    obtain ⟨⟨length, back⟩, others⟩ := forall_mem_cons.mp each
    rw [flatMap_cons, length_cons, chunksOf, ← length, take_left, drop_left, length,
      map_cons, back, ih others]

theorem flatMap_chunksOf {α : Type} {size : Nat} {encode : α → List UInt8} {decode : List UInt8 → α}
    {f : UInt8 → UInt8} (each : ∀ piece, piece.length = size → encode (decode piece) = piece.map f)
    (length : bytes.length = n * size) :
    ((chunksOf size n bytes).map decode).flatMap encode = bytes.map f := by
  induction n generalizing bytes with
  | zero =>
    rw [Nat.zero_mul, length_eq_zero_iff] at length
    subst length
    rfl
  | succ n ih =>
    rw [Nat.succ_mul] at length
    rw [chunksOf, map_cons, flatMap_cons, each _ (by rw [length_take]; omega),
      ih (by rw [length_drop]; omega), ← map_append, take_append_drop]

/-! ## Buffers -/

namespace Buffer

variable {b : Buffer}

/-- Every cell holds the storage bits of a value of the element type. -/
def Canonical (b : Buffer) : Prop := ∀ bits ∈ b.cells, ∃ v : Value, v.type = b.type ∧ v.toBits = bits

theorem Canonical.bits (h : b.Canonical) {bits : UInt64} (member : bits ∈ b.cells) :
    (Value.ofBits b.type bits).toBits = bits := by
  obtain ⟨v, type, rfl⟩ := h bits member
  rw [Value.ofBits_toBits type]

theorem ofElements_canonical (type values) : (ofElements type values).Canonical := by
  intro bits member
  obtain ⟨v, -, rfl⟩ := mem_map.mp (mem_toArray.mp member)
  exact ⟨v.cast type, Value.type_cast type v, rfl⟩

theorem ofImage_of_length (length : bytes.length = b.byteSize) :
    b.ofImage bytes = .ok ⟨b.type, ((chunksOf b.type.size b.size bytes).map fun piece =>
      (Value.ofBits b.type (wordOf piece)).toBits).toArray⟩ := if_pos length

theorem length_image (b : Buffer) : b.image.length = b.byteSize := by
  simp [image, byteSize, size, length_flatMap]

/-- A buffer comes back from its own image. -/
theorem Canonical.ofImage_image (h : b.Canonical) : b.ofImage b.image = .ok b := by
  have each : ∀ bits ∈ b.cells.toList, (bytesOf b.type.size bits).length = b.type.size ∧
      (Value.ofBits b.type (wordOf (bytesOf b.type.size bits))).toBits = bits := by
    intro bits member
    obtain ⟨v, type, rfl⟩ := h bits (Array.mem_toList_iff.mp member)
    exact ⟨length_bytesOf _ _, by rw [Value.ofBits_bytes type]⟩
  have back := chunksOf_flatMap _ (fun piece => (Value.ofBits b.type (wordOf piece)).toBits) each
  rw [ofImage_of_length b.length_image, image, size, ← Array.length_toList, back]

theorem image_ofImage (length : bytes.length = b.byteSize) :
    ∃ b', b.ofImage bytes = .ok b' ∧ b'.image = bytes.map (Value.imageByte b.type) :=
  ⟨_, ofImage_of_length length, flatMap_chunksOf (fun _ => Value.bytes_ofBits) length⟩

/-- Buffers with the contents that were kept of them. They start as new ones; an element is stored,
the contents are copied from elements or an image, are kept, or are put back. -/
inductive Reached : Buffer → List (Array UInt64) → Prop
  | zeroed (type : ScalarType) (size : Nat) : Reached (.zeroed type size) []
  | ofElements (type : ScalarType) (values : List Value) : Reached (.ofElements type values) []
  | ofValues {type : ScalarType} {values : List Value} {b : Buffer}
      (made : Buffer.ofValues type values = .ok b) : Reached b []
  | store {b : Buffer} {kept : List (Array UInt64)} (h : Reached b kept) (i : Nat) (v : Value) :
      Reached (b.store i v) kept
  | copyFrom {b b' : Buffer} {kept : List (Array UInt64)} (h : Reached b kept) {type : ScalarType}
      {data : List Value} (copied : b.copyFrom type data = .ok b') : Reached b' kept
  | ofImage {b b' : Buffer} {kept : List (Array UInt64)} (h : Reached b kept) {bytes : List UInt8}
      (loaded : b.ofImage bytes = .ok b') : Reached b' kept
  | keep {b : Buffer} {kept : List (Array UInt64)} (h : Reached b kept) : Reached b (b.cells :: kept)
  | restore {b : Buffer} {kept : List (Array UInt64)} (h : Reached b kept) {cells : Array UInt64}
      (member : cells ∈ kept) : Reached { b with cells := cells } kept

theorem Reached.canonical (h : b.Reached kept) :
    b.Canonical ∧ ∀ cells ∈ kept, Canonical ⟨b.type, cells⟩ := by
  induction h with
  | zeroed type size =>
    refine ⟨fun bits member => ?_, forall_mem_nil _⟩
    obtain ⟨-, rfl⟩ := Array.mem_replicate.mp member
    exact ⟨.zero type, Value.type_zero type, rfl⟩
  | ofElements type values => exact ⟨ofElements_canonical type values, forall_mem_nil _⟩
  | @ofValues type values b made =>
    unfold Buffer.ofValues at made
    split at made
    · cases made
    · cases made
      exact ⟨ofElements_canonical type values, forall_mem_nil _⟩
  | @store b kept h i v ih =>
    refine ⟨fun bits member => ?_, ih.2⟩
    rcases Array.mem_or_eq_of_mem_setIfInBounds member with old | rfl
    · exact ih.1 bits old
    · exact ⟨v.cast b.type, Value.type_cast b.type v, rfl⟩
  | copyFrom h copied ih =>
    obtain ⟨-, copied⟩ := Outcome.ite_eq_ok.mp copied
    cases copied
    exact ⟨ofElements_canonical _ _, ih.2⟩
  | ofImage h loaded ih =>
    obtain ⟨-, loaded⟩ := Outcome.ite_eq_ok.mp loaded
    cases loaded
    refine ⟨fun bits member => ?_, ih.2⟩
    obtain ⟨piece, -, rfl⟩ := mem_map.mp (mem_toArray.mp member)
    exact ⟨_, Value.type_ofBits _ _, rfl⟩
  | keep h ih => exact ⟨ih.1, forall_mem_cons.mpr ih⟩
  | restore h member ih => exact ⟨ih.2 _ member, ih.2⟩

theorem Canonical.getElem?_cells (h : b.Canonical) (i) :
    b.cells[i]? = (b.load? i).map Value.toBits := by
  rw [load?, Option.map_map]
  cases found : b.cells[i]? with
  | none => rfl
  | some bits => exact congrArg some (h.bits (Array.mem_of_getElem? found)).symm

theorem load?_store (inside : i < b.size) (v) : (b.store i v).load? i = some (v.cast b.type) := by
  have cell : (b.store i v).cells[i]? = some (v.cast b.type).toBits := by
    simp [store, show i < b.cells.size from inside]
  rw [load?, cell, Option.map_some, type_store, Value.ofBits_toBits (Value.type_cast b.type v)]

end Buffer

/-! ## Slots -/

/-- A slot is like an element of its type. -/
theorem SlotWidth.wrap_eq (w : SlotWidth) (v : Int64) :
    w.wrap v = (Value.ofBits w.scalar v.toUInt64).toBits.toInt64 := by
  cases w <;> simp [wrap, scalar, Value.ofBits, Value.toBits]

theorem SlotWidth.scalar_ne (w : SlotWidth) : w.scalar ≠ .boolean := by cases w <;> decide

namespace SlotArray

variable {s : SlotArray}

theorem ofImage_of_length (length : bytes.length = s.byteSize) :
    s.ofImage bytes = .ok { s with cells := ((chunksOf s.width.scalar.size s.size bytes).map fun piece =>
      s.width.wrap (wordOf piece).toInt64).toArray } := if_pos length

theorem length_image (s : SlotArray) : s.image.length = s.byteSize := by
  simp [image, byteSize, size, length_flatMap]

/-- Slots come back from their own image. -/
theorem Canonical.ofImage_image (h : s.Canonical) : s.ofImage s.image = .ok s := by
  have each : ∀ v ∈ s.cells.toList, (bytesOf s.width.scalar.size v.toUInt64).length = s.width.scalar.size ∧
      s.width.wrap (wordOf (bytesOf s.width.scalar.size v.toUInt64)).toInt64 = v := by
    intro v member
    refine ⟨length_bytesOf _ _, ?_⟩
    have held := h v (Array.mem_toList_iff.mp member)
    rw [SlotWidth.wrap_eq] at held
    have bits : v.toUInt64 = (Value.ofBits s.width.scalar v.toUInt64).toBits := by
      conv => lhs; rw [← held]
      simp
    rw [SlotWidth.wrap_eq, UInt64.toUInt64_toInt64, bits, Value.ofBits_bytes (Value.type_ofBits _ _), held]
  have back := chunksOf_flatMap _ (fun piece => s.width.wrap (wordOf piece).toInt64) each
  rw [ofImage_of_length s.length_image, image, size, ← Array.length_toList, back]

theorem image_ofImage (length : bytes.length = s.byteSize) :
    ∃ s', s.ofImage bytes = .ok s' ∧ s'.image = bytes := by
  refine ⟨_, ofImage_of_length length,
    (flatMap_chunksOf (fun piece pieceLength => ?_) length).trans
      (Value.map_imageByte s.width.scalar_ne bytes)⟩
  rw [SlotWidth.wrap_eq, UInt64.toUInt64_toInt64, Int64.toInt64_toUInt64, Value.bytes_ofBits pieceLength]

/-- Slots that start as new ones. One of them is set or an operation performed on it, or all are put
back or come from an image. -/
inductive Reached : SlotArray → Prop
  | zeroed (w : SlotWidth) (scope : SlotScope) (size : Nat) : Reached (.zeroed w scope size)
  | single (w : SlotWidth) (scope : SlotScope) (v : Int64) : Reached ⟨w, scope, #[w.wrap v]⟩
  | set {s : SlotArray} (h : Reached s) (i : Nat) (v : Int64) : Reached (s.set i v)
  | restore {s : SlotArray} (h : Reached s) (values : List Int64) : Reached (s.restore values)
  | ofImage {s s' : SlotArray} (h : Reached s) {bytes : List UInt8} (loaded : s.ofImage bytes = .ok s') :
      Reached s'
  | perform {s s' : SlotArray} (h : Reached s) {i : Nat} {op : AtomicOp} {operands : List Int64}
      {result : Int64} (performed : s.perform? i op operands = some (s', result)) : Reached s'

theorem Reached.canonical (h : s.Reached) : s.Canonical := by
  induction h with
  | zeroed w scope size => exact zeroed_canonical w scope size
  | single w scope v =>
    intro held member
    obtain rfl := Array.mem_singleton.mp member
    exact w.wrap_wrap v
  | @set s h i v ih =>
    intro held member
    obtain ⟨j, inside, rfl⟩ := Array.mem_iff_getElem.mp member
    simp only [SlotArray.set, Array.getElem_modify]
    split
    · exact s.width.wrap_wrap v
    · exact ih _ (Array.getElem_mem _)
  | @restore s h values ih =>
    intro held member
    obtain ⟨⟨old, i⟩, found, rfl⟩ := mem_map.mp (mem_toArray.mp member)
    dsimp only
    cases values[i]? with
    | none => exact ih old (Array.mem_toList_iff.mp (fst_mem_of_mem_zipIdx found))
    | some v => exact s.width.wrap_wrap v
  | ofImage h loaded ih =>
    obtain ⟨-, loaded⟩ := Outcome.ite_eq_ok.mp loaded
    cases loaded
    intro held member
    obtain ⟨piece, -, rfl⟩ := mem_map.mp (mem_toArray.mp member)
    exact SlotWidth.wrap_wrap _ _
  | perform h performed ih => exact perform?_canonical performed ih

end SlotArray

/-- A buffer holds the storage bits of what it is read as, an element that is stored is read back,
converted, and no other cell changes. The buffer comes back from its own image; an image of the right
length is the image of what is made of it, but for the bytes of booleans, where any but zero becomes
one; and an image of another length is refused. Images of slots follow the same laws. -/
theorem images_round_trip {b : Buffer} {kept : List (Array UInt64)} (reached : b.Reached kept)
    {s : SlotArray} (slotsReached : s.Reached) :
    (∀ i, b.cells[i]? = (b.load? i).map Value.toBits) ∧
    (∀ i v, (i < b.size → (b.store i v).load? i = some (v.cast b.type)) ∧
      ∀ j, j ≠ i ∨ b.size ≤ i → (b.store i v).cells[j]? = b.cells[j]?) ∧
    b.ofImage b.image = .ok b ∧
    (∀ bytes, bytes.length = b.byteSize → ∃ b', b.ofImage bytes = .ok b' ∧
      b'.image = if b.type = .boolean then bytes.map fun byte => if byte = 0 then 0 else 1 else bytes) ∧
    (∀ bytes, bytes.length ≠ b.byteSize →
      b.ofImage bytes = .error (.imageSize bytes.length b.byteSize)) ∧
    s.ofImage s.image = .ok s ∧
    (∀ bytes, bytes.length = s.byteSize → ∃ s', s.ofImage bytes = .ok s' ∧ s'.image = bytes) ∧
    ∀ bytes, bytes.length ≠ s.byteSize → s.ofImage bytes = .error ⟨bytes.length, s.size⟩ := by
  obtain ⟨canonical, -⟩ := reached.canonical
  refine ⟨canonical.getElem?_cells, fun i v => ⟨fun inside => Buffer.load?_store inside v, ?_⟩,
    canonical.ofImage_image, fun bytes length => ?_, fun bytes other => if_neg other,
    slotsReached.canonical.ofImage_image, fun bytes => SlotArray.image_ofImage,
    fun bytes other => if_neg other⟩
  · rintro j (other | beyond)
    · simp [Buffer.store, Ne.symm other]
    · rw [Buffer.store, Array.setIfInBounds_eq_of_size_le beyond]
  · obtain ⟨b', loaded, image⟩ := Buffer.image_ofImage length
    refine ⟨b', loaded, image.trans ?_⟩
    split
    · rename_i boolean
      refine map_congr_left fun byte _ => ?_
      by_cases zero : byte = 0 <;> simp [Value.imageByte, boolean, zero]
    · exact Value.map_imageByte ‹_› bytes

/-- Shorts that come from an image and are put back after a store, and a slot of 32 bits that was
raised past the greatest number. -/
theorem shorts_round_trip :
    let b : Buffer := ⟨.short, #[5, 0xFFFFFFFFFFFFFFFE]⟩
    let s : SlotArray := ⟨.int, .global, #[-2147483648]⟩
    b.Reached [b.cells] ∧ s.Reached ∧ b.image = [0x05, 0x00, 0xFE, 0xFF] ∧
      b.ofImage b.image = .ok b ∧ s.image = [0x00, 0x00, 0x00, 0x80] ∧ s.ofImage s.image = .ok s := by
  intro b s
  have loaded : (Buffer.zeroed .short 2).ofImage [0x05, 0x00, 0xFE, 0xFF] = .ok b := by rfl
  have reached : b.Reached [b.cells] :=
    .restore (.store (.keep (.ofImage (.zeroed .short 2) loaded)) 0 (.int 7)) mem_cons_self
  have raised : SlotArray.perform? ⟨.int, .global, #[SlotWidth.int.wrap 2147483647]⟩ 0 .inc [] =
      some (s, 2147483647) := by rfl
  have slotsReached : s.Reached := .perform (.single .int .global 2147483647) raised
  obtain ⟨-, -, back, -, -, slotsBack, -⟩ := images_round_trip reached slotsReached
  exact ⟨reached, slotsReached, rfl, back, rfl, slotsBack⟩

end GridKernel
