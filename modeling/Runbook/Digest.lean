import Runbook.Json.Printer

/-!
# Digests

The BLAKE3 digest of a text.  The text is cut into chunks of 1024 bytes and each chunk into blocks
of 64; a chunk is compressed block after block, and the results of the chunks are compressed in
pairs, level by level, until one is left.  Flags tell the first and last block of a chunk, an inner
node, and the root apart.
-/

namespace Runbook.Digest

/-- Eight words that one compression hands to the next. -/
abbrev Chain := Vector UInt32 8

/-- A block of sixteen words. -/
abbrev Block := Vector UInt32 16

/-- The words that every chunk starts with. -/
def initial : Chain :=
  #v[0x6A09E667, 0xBB67AE85, 0x3C6EF372, 0xA54FF53A, 0x510E527F, 0x9B05688C, 0x1F83D9AB,
    0x5BE0CD19]

/-- Where each word of a block comes from in the next round. -/
def schedule : Vector (Fin 16) 16 :=
  #v[2, 6, 3, 10, 7, 0, 4, 13, 1, 11, 12, 5, 9, 14, 15, 8]

/-- The block of the next round. -/
def permute (m : Block) : Block :=
  schedule.map fun i => m[i]

/-- `x` with its bits moved to the right, those that leave coming back on the left. -/
def rotate (x : UInt32) (n : UInt32) : UInt32 :=
  (x >>> n) ||| (x <<< (32 - n))

/-- Mixes two words of the message into four of the state. -/
def mix (v : Block) (a b c d : Fin 16) (x y : UInt32) : Block :=
  let va := v[a] + v[b] + x
  let vd := rotate (v[d] ^^^ va) 16
  let vc := v[c] + vd
  let vb := rotate (v[b] ^^^ vc) 12
  let va := va + vb + y
  let vd := rotate (vd ^^^ va) 8
  let vc := vc + vd
  let vb := rotate (vb ^^^ vc) 7
  (((v.set a va).set b vb).set c vc).set d vd

/-- One round: the columns, then the diagonals. -/
def round (v m : Block) : Block :=
  let v := mix v 0 4 8 12 m[0] m[1]
  let v := mix v 1 5 9 13 m[2] m[3]
  let v := mix v 2 6 10 14 m[4] m[5]
  let v := mix v 3 7 11 15 m[6] m[7]
  let v := mix v 0 5 10 15 m[8] m[9]
  let v := mix v 1 6 11 12 m[10] m[11]
  let v := mix v 2 7 8 13 m[12] m[13]
  mix v 3 4 9 14 m[14] m[15]

/-- So many rounds. -/
def rounds : Nat → Block → Block → Block
  | 0, v, _ => v
  | n + 1, v, m => rounds n (round v m) (permute m)

/-- What a block is, as flags. -/
structure Flags where
  chunkStart : Bool
  chunkEnd : Bool
  parent : Bool
  root : Bool

/-- The flags as a word. -/
def Flags.word (f : Flags) : UInt32 :=
  (if f.chunkStart then 1 else 0) + (if f.chunkEnd then 2 else 0) +
    (if f.parent then 4 else 0) + (if f.root then 8 else 0)

/-- **Compresses a block** of so many bytes. -/
def compress (chain : Chain) (block : Block) (counter : Nat) (length : Nat) (flags : Flags) :
    Chain :=
  let v : Block := #v[chain[0], chain[1], chain[2], chain[3], chain[4], chain[5], chain[6],
    chain[7], initial[0], initial[1], initial[2], initial[3], counter.toUInt32,
    (counter / 4294967296).toUInt32, length.toUInt32, flags.word]
  let v := rounds 7 v block
  #v[v[0] ^^^ v[8], v[1] ^^^ v[9], v[2] ^^^ v[10], v[3] ^^^ v[11], v[4] ^^^ v[12],
    v[5] ^^^ v[13], v[6] ^^^ v[14], v[7] ^^^ v[15]]

/-- The word of four bytes, the lowest first. -/
def wordAt (bytes : Array UInt8) (at_ : Nat) : UInt32 :=
  let byte (i : Nat) : UInt32 := (bytes.getD (at_ + i) 0).toUInt32
  byte 0 ||| (byte 1 <<< 8) ||| (byte 2 <<< 16) ||| (byte 3 <<< 24)

/-- The block that starts at a byte; bytes that are missing are zero. -/
def blockAt (bytes : Array UInt8) (at_ : Nat) : Block :=
  Vector.ofFn fun i => wordAt bytes (at_ + 4 * i.val)

/-- The number of pieces of a size that so many bytes fill, at least one. -/
def pieces (size length : Nat) : Nat :=
  max 1 ((length + size - 1) / size)

/-- The result of the chunk at a byte. -/
def chunkAt (bytes : Array UInt8) (number : Nat) (root : Bool) : Chain :=
  let start := 1024 * number
  let length := min 1024 (bytes.size - start)
  let blocks := pieces 64 length
  (List.range blocks).foldl
    (fun chain i =>
      let last := i + 1 == blocks
      compress chain (blockAt bytes (start + 64 * i)) number (min 64 (length - 64 * i))
        ⟨i == 0, last, false, last && root⟩)
    initial

/-- The result of two results. -/
def parent (left right : Chain) (root : Bool) : Chain :=
  compress initial (left ++ right) 0 64 ⟨false, false, true, root⟩

/-- One level up: the results of pairs; one without a partner stays. -/
def pairUp : List Chain → List Chain
  | left :: right :: rest => parent left right false :: pairUp rest
  | rest => rest

/-- The result of all, in at most so many levels. -/
def top : Nat → List Chain → Chain
  | 0, _ => initial
  | _, [] => initial
  | _, [chain] => chain
  | _, [left, right] => parent left right true
  | levels + 1, chains => top levels (pairUp chains)

/-- **The digest of bytes.** -/
def ofBytes (bytes : Array UInt8) : Chain :=
  let chunks := pieces 1024 bytes.size
  if chunks = 1 then chunkAt bytes 0 true
  else top chunks ((List.range chunks).map fun i => chunkAt bytes i false)

/-- The bytes of a word in hexadecimal, the lowest first. -/
def wordHex (w : UInt32) : List Char :=
  ([0, 8, 16, 24] : List UInt32).flatMap fun shift =>
    let byte := ((w >>> shift) &&& 0xFF).toNat
    [Json.hexDigit (byte / 16), Json.hexDigit (byte % 16)]

/-- **The digest of a text**, in hexadecimal after the name of its kind. -/
def ofText (s : String) : String :=
  "blake3:" ++ String.ofList ((ofBytes s.toUTF8.data).toList.flatMap wordHex)

/-- **The digest of a value**: that of its compact text. -/
def ofValue (v : Json) : String :=
  ofText v.compact

end Runbook.Digest
