import GridKernel.Text.Hex

/-!
# Text digests

The BLAKE3 hash of a text's UTF-8 bytes: blocks of 64 bytes are compressed into chunks of 1024,
and the chunks' values are merged in a binary tree whose last step carries the root flag.
-/

namespace GridKernel.Digest

/-- Eight words passed from one compression to the next. -/
abbrev Chain := Vector UInt32 8

abbrev Block := Vector UInt32 16

def start : Chain :=
  #v[0x6a09e667, 0xbb67ae85, 0x3c6ef372, 0xa54ff53a, 0x510e527f, 0x9b05688c, 0x1f83d9ab, 0x5be0cd19]

/-- The order in which a round takes the words of the round before. -/
def schedule : Vector (Fin 16) 16 :=
  #v[2, 6, 3, 10, 7, 0, 4, 13, 1, 11, 12, 5, 9, 14, 15, 8]

def rotateRight (x : UInt32) (n : UInt32) : UInt32 := (x >>> n) ||| (x <<< (32 - n))

/-- Mixes two message words into four words of the state. -/
def quarter (s : Block) (a b c d : Fin 16) (x y : UInt32) : Block :=
  let va := s[a] + s[b] + x
  let vd := rotateRight (s[d] ^^^ va) 16
  let vc := s[c] + vd
  let vb := rotateRight (s[b] ^^^ vc) 12
  let va := va + vb + y
  let vd := rotateRight (vd ^^^ va) 8
  let vc := vc + vd
  let vb := rotateRight (vb ^^^ vc) 7
  (((s.set a va).set b vb).set c vc).set d vd

/-- Columns, then diagonals. -/
def round (s m : Block) : Block :=
  let s := quarter s 0 4 8 12 m[0] m[1]
  let s := quarter s 1 5 9 13 m[2] m[3]
  let s := quarter s 2 6 10 14 m[4] m[5]
  let s := quarter s 3 7 11 15 m[6] m[7]
  let s := quarter s 0 5 10 15 m[8] m[9]
  let s := quarter s 1 6 11 12 m[10] m[11]
  let s := quarter s 2 7 8 13 m[12] m[13]
  quarter s 3 4 9 14 m[14] m[15]

def rounds : Nat → Block → Block → Block
  | 0, s, _ => s
  | n + 1, s, m => rounds n (round s m) (schedule.map fun i => m[i])

def chunkStart : UInt32 := 1
def chunkEnd : UInt32 := 2
def parent : UInt32 := 4
def root : UInt32 := 8

/-- Compresses one block into a chaining value. -/
def compress (chain : Chain) (m : Block) (counter : UInt64) (length flags : UInt32) : Chain :=
  let s : Block :=
    #v[chain[0], chain[1], chain[2], chain[3],
      chain[4], chain[5], chain[6], chain[7],
      start[0], start[1], start[2], start[3],
      counter.toUInt32, (counter >>> 32).toUInt32, length, flags]
  let s := rounds 7 s m
  Vector.ofFn fun i : Fin 8 => s[i.val] ^^^ s[i.val + 8]

def word (bytes : List UInt8) : UInt32 :=
  bytes.foldr (fun b w => (w <<< 8) ||| b.toUInt32) 0

/-- A block of at most 64 bytes as little-endian words, padded with zeros. -/
def blockOf (bytes : List UInt8) : Block :=
  Vector.ofFn fun i : Fin 16 => word ((bytes.drop (4 * i.val)).take 4)

/-- A list cut into pieces of `n + 1` elements; the number of steps left is at least the number
of pieces. -/
def piecesOf {α : Type} (n : Nat) : Nat → List α → List (List α)
  | 0, _ => []
  | _ + 1, [] => []
  | k + 1, xs => xs.take (n + 1) :: piecesOf n k (xs.drop (n + 1))

/-- The blocks of a chunk; an empty chunk has one empty block. -/
def blocks (bytes : List UInt8) : List (List UInt8) :=
  match piecesOf 63 bytes.length bytes with
  | [] => [[]]
  | bs => bs

/-- Compresses the remaining blocks of a chunk. The last one carries the end flag and, when the
chunk is the whole input, the root flag. -/
def absorb (counter : UInt64) (rootFlag : UInt32) : Chain → UInt32 → List (List UInt8) → Chain
  | c, _, [] => c
  | c, first, [b] => compress c (blockOf b) counter b.length.toUInt32 (first ||| chunkEnd ||| rootFlag)
  | c, first, b :: rest =>
    absorb counter rootFlag (compress c (blockOf b) counter b.length.toUInt32 first) 0 rest

def chunkValue (rootFlag : UInt32) (counter : Nat) (bytes : List UInt8) : Chain :=
  absorb counter.toUInt64 rootFlag start chunkStart (blocks bytes)

def parentValue (flags : UInt32) (l r : Chain) : Chain :=
  compress start (l ++ r) 0 64 (parent ||| flags)

/-- Joins neighbours; one left over at the end moves up unchanged. -/
def joinPairs : List Chain → List Chain
  | l :: r :: rest => parentValue 0 l r :: joinPairs rest
  | rest => rest

/-- Joins level by level until two values remain, and then those with the root flag. -/
def merge : Nat → List Chain → Chain
  | _, [l, r] => parentValue root l r
  | n + 1, level => merge n (joinPairs level)
  | 0, level => level.headD start

def hash (bytes : List UInt8) : Chain :=
  match piecesOf 1023 bytes.length bytes with
  | [] => chunkValue root 0 []
  | [chunk] => chunkValue root 0 chunk
  | chunks => merge chunks.length (chunks.zipIdx.map fun (chunk, i) => chunkValue 0 i chunk)

/-- The bytes of a word, lowest first. -/
def wordBytes (w : UInt32) : List UInt8 :=
  [w.toUInt8, (w >>> 8).toUInt8, (w >>> 16).toUInt8, (w >>> 24).toUInt8]

/-- The digest of a text in hexadecimal. -/
def ofText (text : String) : String :=
  Hex.ofBytes ((hash text.toUTF8.toList).toList.flatMap wordBytes)

end GridKernel.Digest
