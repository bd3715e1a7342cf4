import RuleGraph.Blob.Bytes

/-! # BLAKE3

The BLAKE3 hash of bytes. The input is cut into chunks of 1024 bytes, the chunks into blocks of 64
bytes; the chunks are the leaves of a binary tree whose left subtrees are complete.

* **`Blake3.digest`** — the 32 bytes of the hash.
-/

namespace RuleGraph.Blake3

/-- The number of bytes of a block. -/
def blockLength : Nat := 64

/-- The number of bytes of a chunk. -/
def chunkLength : Nat := 1024

/-- The words that a hash starts from. -/
def initialWords : Array UInt32 :=
  #[0x6a09e667, 0xbb67ae85, 0x3c6ef372, 0xa54ff53a, 0x510e527f, 0x9b05688c, 0x1f83d9ab, 0x5be0cd19]

/-- The order in which a round takes the words of the round before. -/
def wordOrder : List Nat := [2, 6, 3, 10, 7, 0, 4, 13, 1, 11, 12, 5, 9, 14, 15, 8]

/-- Marks the first block of a chunk. -/
def chunkStart : Nat := 1

/-- Marks the last block of a chunk. -/
def chunkEnd : Nat := 2

/-- Marks a node that is no leaf. -/
def parent : Nat := 4

/-- Marks the root of the tree. -/
def root : Nat := 8

/-- Turn the bits of a word to the right. -/
def rotateRight (word : UInt32) (count : UInt32) : UInt32 :=
  (word >>> count) ||| (word <<< (32 - count))

/-- A word of an array; words beyond its end are zero. -/
def wordAt (words : Array UInt32) (index : Nat) : UInt32 := words[index]?.getD 0

/-- Mix two message words into four words of the state. -/
def mix (state : Array UInt32) (a b c d : Nat) (x y : UInt32) : Array UInt32 :=
  let va := wordAt state a + wordAt state b + x
  let vd := rotateRight (wordAt state d ^^^ va) 16
  let vc := wordAt state c + vd
  let vb := rotateRight (wordAt state b ^^^ vc) 12
  let va := va + vb + y
  let vd := rotateRight (vd ^^^ va) 8
  let vc := vc + vd
  let vb := rotateRight (vb ^^^ vc) 7
  (((state.setIfInBounds a va).setIfInBounds b vb).setIfInBounds c vc).setIfInBounds d vd

/-- The columns and diagonals of the state in the order in which a round mixes them. -/
def lanes : List (Nat × Nat × Nat × Nat) :=
  [(0, 4, 8, 12), (1, 5, 9, 13), (2, 6, 10, 14), (3, 7, 11, 15), (0, 5, 10, 15), (1, 6, 11, 12),
    (2, 7, 8, 13), (3, 4, 9, 14)]

/-- One round: every lane takes two words of the message. -/
def round (state message : Array UInt32) : Array UInt32 :=
  (lanes.zipIdx).foldl
    (fun state ((a, b, c, d), i) =>
      mix state a b c d (wordAt message (2 * i)) (wordAt message (2 * i + 1)))
    state

/-- The message of the next round. -/
def permute (message : Array UInt32) : Array UInt32 :=
  (wordOrder.map (wordAt message)).toArray

/-- So many rounds, each on a permuted message. -/
def rounds : Nat → Array UInt32 → Array UInt32 → Array UInt32
  | 0, state, _ => state
  | count + 1, state, message => rounds count (round state message) (permute message)

/-- The work that is left at a node of the tree: the words so far, the last block, its length, its
number and its marks. -/
structure Node where
  /-- The words so far. -/
  words : Array UInt32
  /-- The last block. -/
  block : Array UInt32
  /-- The number of the chunk; zero above the leaves. -/
  counter : Nat
  /-- The number of bytes in the last block. -/
  length : Nat
  /-- The marks of the last block. -/
  marks : Nat

/-- The words of a node under further marks. -/
def Node.compress (node : Node) (extra : Nat) : List UInt32 :=
  let tail : List UInt32 :=
    [UInt32.ofNat node.counter, UInt32.ofNat (node.counter / Nat.pow 2 32),
      UInt32.ofNat node.length, UInt32.ofNat (node.marks + extra)]
  let state := node.words ++ initialWords.extract 0 4 ++ tail.toArray
  let mixed := rounds 7 state node.block
  (List.range 8).map fun i => wordAt mixed i ^^^ wordAt mixed (i + 8)

/-- The sixteen words of a block, padded by zeros. -/
def blockWords (bytes : Bytes) : Array UInt32 :=
  ((List.range 16).map fun i =>
    UInt32.ofNat (Bytes.ofLittleEndian ((bytes.drop (4 * i)).take 4))).toArray

/-- The node of a chunk: all blocks but the last are mixed in. `steps` bounds their number. -/
def chunkNode (counter : Nat) : Nat → Nat → Array UInt32 → Bytes → Node
  | 0, marks, words, bytes => ⟨words, blockWords bytes, counter, bytes.length, marks + chunkEnd⟩
  | steps + 1, marks, words, bytes =>
    -- The last block is left for whoever knows whether the chunk is the root.
    if bytes.length ≤ blockLength then
      ⟨words, blockWords bytes, counter, bytes.length, marks + chunkEnd⟩
    else
      let block : Node :=
        ⟨words, blockWords (bytes.take blockLength), counter, blockLength, marks⟩
      chunkNode counter steps 0 (block.compress 0).toArray (bytes.drop blockLength)

/-- The node above two others. -/
def parentNode (left right : Node) : Node :=
  ⟨initialWords, (left.compress 0 ++ right.compress 0).toArray, 0, blockLength, parent⟩

/-- The number of bytes in the left subtree over more than one chunk: the greatest power of two of
chunks that leaves something for the right one. -/
def leftLength (length : Nat) : Nat :=
  Nat.pow 2 (Nat.log2 ((length - 1) / chunkLength)) * chunkLength

/-- The node over bytes whose first chunk has a given number. `steps` bounds the height. -/
def treeNode : Nat → Nat → Bytes → Node
  | 0, counter, bytes => chunkNode counter 16 chunkStart initialWords bytes
  | steps + 1, counter, bytes =>
    if bytes.length ≤ chunkLength then chunkNode counter 16 chunkStart initialWords bytes
    else
      let split := leftLength bytes.length
      parentNode (treeNode steps counter (bytes.take split))
        (treeNode steps (counter + split / chunkLength) (bytes.drop split))

/-- The hash of bytes. -/
def digest (bytes : Bytes) : Bytes :=
  ((treeNode bytes.length 0 bytes).compress root).flatMap fun word =>
    Bytes.littleEndian 4 word.toNat

/-- A hash has thirty-two bytes. -/
@[simp] theorem length_digest (bytes : Bytes) : (digest bytes).length = 32 := by
  simp [digest, Node.compress, List.range_succ]

end RuleGraph.Blake3
