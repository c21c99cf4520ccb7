/-! # BLAKE3 digests

    The unkeyed hash with a digest of 32 bytes. The input is cut into chunks of
    1024 bytes and these into blocks of 64; a chunk is a chain of compressions,
    and the chunks are the leaves of a binary tree whose left subtrees are
    complete. The last compression of a chunk and the one of a parent are kept
    as a `Node` until it is known whether they are the root.
-/

namespace Dataflow

-- Powers of natural numbers are those of the core library, whatever else is imported.
attribute [local instance (high)] instPowNat

namespace Blake3

/-! ## Section 1: Compression -/

/-- A chaining value. -/
abbrev Chaining := Vector UInt32 8

/-- The words of a block, and the state of a compression. -/
abbrev Block := Vector UInt32 16

/-- The initial chaining value. -/
def initial : Chaining :=
  #v[0x6a09e667, 0xbb67ae85, 0x3c6ef372, 0xa54ff53a, 0x510e527f, 0x9b05688c, 0x1f83d9ab, 0x5be0cd19]

/-- The order of the message words in the next round. -/
def schedule (m : Block) : Block :=
  #v[m[2], m[6], m[3], m[10], m[7], m[0], m[4], m[13], m[1], m[11], m[12], m[5], m[9], m[14], m[15],
    m[8]]

/-- The word rotated to the right. -/
def rotateRight (x n : UInt32) : UInt32 := (x >>> n) ||| (x <<< (32 - n))

/-- Mixes two message words into four words of the state. -/
def mix (s : Block) (a b c d : Fin 16) (x y : UInt32) : Block :=
  let s := s.set a (s[a] + s[b] + x)
  let s := s.set d (rotateRight (s[d] ^^^ s[a]) 16)
  let s := s.set c (s[c] + s[d])
  let s := s.set b (rotateRight (s[b] ^^^ s[c]) 12)
  let s := s.set a (s[a] + s[b] + y)
  let s := s.set d (rotateRight (s[d] ^^^ s[a]) 8)
  let s := s.set c (s[c] + s[d])
  s.set b (rotateRight (s[b] ^^^ s[c]) 7)

/-- Mixes the columns and then the diagonals. -/
def round (s m : Block) : Block :=
  let s := mix s 0 4 8 12 m[0] m[1]
  let s := mix s 1 5 9 13 m[2] m[3]
  let s := mix s 2 6 10 14 m[4] m[5]
  let s := mix s 3 7 11 15 m[6] m[7]
  let s := mix s 0 5 10 15 m[8] m[9]
  let s := mix s 1 6 11 12 m[10] m[11]
  let s := mix s 2 7 8 13 m[12] m[13]
  mix s 3 4 9 14 m[14] m[15]

/-- The given number of rounds, the message words reordered after each. -/
def rounds : Nat → Block → Block → Block
  | 0, s, _ => s
  | n + 1, s, m => rounds n (round s m) (schedule m)

/-- A compression that has not been run: the inputs of the function. -/
structure Node where
  /-- The chaining value that goes in. -/
  chaining : Chaining
  /-- The message. -/
  block : Block
  /-- The number of the chunk. -/
  counter : UInt64
  /-- The bytes of the message that count. -/
  length : UInt32
  /-- What kind of compression it is. -/
  flags : UInt32

/-- Marks the first block of a chunk. -/
def chunkStart : UInt32 := 1
/-- Marks the last block of a chunk. -/
def chunkEnd : UInt32 := 2
/-- Marks a parent. -/
def parentFlag : UInt32 := 4
/-- Marks the root of the tree. -/
def rootFlag : UInt32 := 8

/-- The first half of the state after the compression, folded with the second. -/
def Node.compress (n : Node) : Chaining :=
  let h := n.chaining
  let s : Block := #v[h[0], h[1], h[2], h[3], h[4], h[5], h[6], h[7],
    initial[0], initial[1], initial[2], initial[3],
    n.counter.toUInt32, (n.counter >>> 32).toUInt32, n.length, n.flags]
  let s := rounds 7 s n.block
  #v[s[0] ^^^ s[8], s[1] ^^^ s[9], s[2] ^^^ s[10], s[3] ^^^ s[11],
    s[4] ^^^ s[12], s[5] ^^^ s[13], s[6] ^^^ s[14], s[7] ^^^ s[15]]

/-! ## Section 2: Chunks -/

/-- The byte at a position; past the end there are zeros. -/
def byteAt (bytes : ByteArray) (i : Nat) : UInt32 :=
  if h : i < bytes.size then bytes[i].toUInt32 else 0

/-- Four bytes as a word, the low byte first. -/
def wordAt (bytes : ByteArray) (i : Nat) : UInt32 :=
  byteAt bytes i ||| (byteAt bytes (i + 1) <<< 8) ||| (byteAt bytes (i + 2) <<< 16)
    ||| (byteAt bytes (i + 3) <<< 24)

/-- The sixteen words of the block that starts at a position. -/
def blockAt (bytes : ByteArray) (start : Nat) : Block :=
  Vector.ofFn fun i => wordAt bytes (start + 4 * i.val)

/-- The bytes of a block. -/
def blockSize : Nat := 64

/-- The bytes of a chunk. -/
def chunkSize : Nat := 1024

/-- The last compression of a chunk, of which `more` further blocks and a last one with `last` bytes
remain from `start` on. -/
def chunkNode (bytes : ByteArray) (counter : UInt64) (last : Nat) :
    (more : Nat) → (start : Nat) → (flags : UInt32) → Chaining → Node
  | 0, start, flags, chaining =>
    { chaining, block := blockAt bytes start, counter, length := UInt32.ofNat last,
      flags := flags ||| chunkEnd }
  | more + 1, start, flags, chaining =>
    let node : Node :=
      { chaining, block := blockAt bytes start, counter, length := 64, flags }
    chunkNode bytes counter last more (start + blockSize) 0 node.compress

/-- The node of chunk number `index`. Only the last chunk may be shorter than the others. -/
def leaf (bytes : ByteArray) (index : Nat) : Node :=
  let start := index * chunkSize
  let size := min chunkSize (bytes.size - start)
  let more := (size - 1) / blockSize
  chunkNode bytes (UInt64.ofNat index) (size - more * blockSize) more start chunkStart initial

/-! ## Section 3: The tree -/

/-- The parent of two chaining values. -/
def parent (left right : Chaining) : Node :=
  { chaining := initial
    block := #v[left[0], left[1], left[2], left[3], left[4], left[5], left[6], left[7],
      right[0], right[1], right[2], right[3], right[4], right[5], right[6], right[7]]
    counter := 0
    length := 64
    flags := parentFlag }

/-- The node over `chunks` chunks from number `first` on. The left subtree has the greatest power of
two that leaves something for the right one; `depth` bounds the height. -/
def tree (bytes : ByteArray) : (depth : Nat) → (first chunks : Nat) → Node
  | 0, first, _ => leaf bytes first
  | depth + 1, first, chunks =>
    if chunks ≤ 1 then leaf bytes first
    else
      let half := 2 ^ (chunks - 1).log2
      parent (tree bytes depth first half).compress
        (tree bytes depth (first + half) (chunks - half)).compress

/-- The node over a whole input. An empty input has one empty chunk. -/
def root (bytes : ByteArray) : Node :=
  let chunks := max 1 ((bytes.size + chunkSize - 1) / chunkSize)
  let node := tree bytes chunks 0 chunks
  { node with flags := node.flags ||| rootFlag }

end Blake3

/-! ## Section 4: Digests -/

/-- A digest of 32 bytes, as eight words whose low bytes come first. -/
structure Digest where
  /-- The words. -/
  words : Vector UInt32 8
deriving DecidableEq

namespace Digest

/-- The digest of bytes. -/
def ofBytes (bytes : ByteArray) : Digest := ⟨(Blake3.root bytes).compress⟩

/-- The digest of the UTF-8 form of a text. -/
def ofText (text : String) : Digest := ofBytes text.toUTF8

/-- The two hexadecimal digits of a byte. -/
def byteText (b : UInt32) : List Char :=
  [Nat.digitChar (b.toNat / 16 % 16), Nat.digitChar (b.toNat % 16)]

/-- The hexadecimal digits of a word, byte by byte from the low end. -/
def wordText (w : UInt32) : List Char :=
  byteText w ++ byteText (w >>> 8) ++ byteText (w >>> 16) ++ byteText (w >>> 24)

/-- All 64 hexadecimal digits. -/
def toHex (d : Digest) : String := String.ofList (d.words.toList.flatMap wordText)

/-- The first eight hexadecimal digits. -/
def short (d : Digest) : String := String.ofList (wordText d.words[0])

end Digest

end Dataflow
