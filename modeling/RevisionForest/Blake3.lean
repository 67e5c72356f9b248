/-!
# The BLAKE3 hash

The unkeyed hash with 32 bytes of output, over lists of bytes. A message is cut into chunks of 1024 bytes, a chunk into blocks of 64; blocks are chained, and chunks are joined by a binary tree whose left part is always the largest power of two that leaves something on the right. `Node` is the compression that has not been run yet: its first eight words chain upward, and at the root the same words are the digest.
-/

namespace RevisionForest.Blake3

abbrev Block := Vector UInt32 16

abbrev Chaining := Vector UInt32 8

/-! ### Compression -/

def initial : Chaining :=
  #v[0x6A09E667, 0xBB67AE85, 0x3C6EF372, 0xA54FF53A, 0x510E527F, 0x9B05688C, 0x1F83D9AB, 0x5BE0CD19]

/-- Which message word each position takes in the next round. -/
def permutation : Vector (Fin 16) 16 :=
  #v[2, 6, 3, 10, 7, 0, 4, 13, 1, 11, 12, 5, 9, 14, 15, 8]

def permute (message : Block) : Block :=
  permutation.map fun i => message.get i

def rotateRight (word amount : UInt32) : UInt32 :=
  (word >>> amount) ||| (word <<< (32 - amount))

/-- Mix two message words into four words of the state. -/
def mix (state : Block) (a b c d : Fin 16) (x y : UInt32) : Block :=
  let wa := state.get a + state.get b + x
  let wd := rotateRight (state.get d ^^^ wa) 16
  let wc := state.get c + wd
  let wb := rotateRight (state.get b ^^^ wc) 12
  let wa := wa + wb + y
  let wd := rotateRight (wd ^^^ wa) 8
  let wc := wc + wd
  let wb := rotateRight (wb ^^^ wc) 7
  (((state.set a wa).set b wb).set c wc).set d wd

/-- One round: the columns of the state, then its diagonals. -/
def round (state message : Block) : Block :=
  let state := mix state 0 4 8 12 (message.get 0) (message.get 1)
  let state := mix state 1 5 9 13 (message.get 2) (message.get 3)
  let state := mix state 2 6 10 14 (message.get 4) (message.get 5)
  let state := mix state 3 7 11 15 (message.get 6) (message.get 7)
  let state := mix state 0 5 10 15 (message.get 8) (message.get 9)
  let state := mix state 1 6 11 12 (message.get 10) (message.get 11)
  let state := mix state 2 7 8 13 (message.get 12) (message.get 13)
  mix state 3 4 9 14 (message.get 14) (message.get 15)

def rounds : Nat → Block → Block → Block
  | 0, state, _ => state
  | n + 1, state, message => rounds n (round state message) (permute message)

/-- A compression that has not been run yet. -/
structure Node where
  chaining : Chaining
  message : Block
  counter : UInt64
  /-- How many bytes of the block are message. -/
  length : UInt32
  flags : UInt32

def chunkStart : UInt32 := 1

def chunkEnd : UInt32 := 2

def parent : UInt32 := 4

def root : UInt32 := 8

/-- The eight output words. -/
def Node.words (node : Node) : Chaining :=
  let lower := node.counter.toUInt32
  let upper := (node.counter >>> 32).toUInt32
  let start : Block := node.chaining ++
    #v[initial.get 0, initial.get 1, initial.get 2, initial.get 3, lower, upper, node.length, node.flags]
  let last := rounds 7 start node.message
  Vector.ofFn fun i => last[i.val] ^^^ last[i.val + 8]

/-! ### Words and bytes -/

/-- The message words of a block of up to 64 bytes, little-endian, with zeros where the bytes end. -/
def blockWords (bytes : List UInt8) : Block :=
  let block := bytes.toArray
  let byte (i : Nat) : UInt32 := (block.getD i 0).toUInt32
  Vector.ofFn fun i =>
    byte (4 * i) ||| (byte (4 * i + 1) <<< 8) ||| (byte (4 * i + 2) <<< 16) ||| (byte (4 * i + 3) <<< 24)

/-- The digest that eight words spell, little-endian. -/
def wordBytes (words : Chaining) : Vector UInt8 32 :=
  Vector.ofFn fun i =>
    (words[i.val / 4] >>> (8 * (i.val % 4)).toUInt32).toUInt8

/-! ### Chunks and the tree -/

/-- The last block of a chunk, after all blocks before it have been chained. -/
def chunk (index : UInt64) (chaining : Chaining) (flags : UInt32) (bytes : List UInt8) : Node :=
  if bytes.length ≤ 64 then
    ⟨chaining, blockWords bytes, index, bytes.length.toUInt32, flags ||| chunkEnd⟩
  else
    let block : Node := ⟨chaining, blockWords (bytes.take 64), index, 64, flags⟩
    chunk index block.words 0 (bytes.drop 64)
termination_by bytes.length

/-- The length of the left subtree over more than one chunk: a power of two of chunks, as many as leave something on the right. -/
def leftLength (length : Nat) : Nat :=
  1024 * Nat.pow 2 ((length - 1) / 1024).log2

theorem leftLength_pos (length : Nat) : 0 < leftLength length := by
  have := Nat.two_pow_pos ((length - 1) / 1024).log2
  simp only [leftLength, Nat.pow_eq]
  omega

theorem leftLength_lt {length : Nat} (h : 1024 < length) : leftLength length < length := by
  have hle := Nat.log2_self_le (n := (length - 1) / 1024) (by omega)
  simp only [leftLength, Nat.pow_eq]
  omega

/-- The top of the tree over the chunks from `index` on. -/
def tree (index : UInt64) (bytes : List UInt8) : Node :=
  if _ : bytes.length ≤ 1024 then
    chunk index initial chunkStart bytes
  else
    let left := tree index (bytes.take (leftLength bytes.length))
    let right := tree (index + (leftLength bytes.length / 1024).toUInt64) (bytes.drop (leftLength bytes.length))
    ⟨initial, left.words ++ right.words, 0, 64, parent⟩
termination_by bytes.length
decreasing_by
  · have := leftLength_lt (Nat.lt_of_not_le ‹¬bytes.length ≤ 1024›)
    simp only [List.length_take]
    omega
  · have := leftLength_pos bytes.length
    simp only [List.length_drop]
    omega

/-- The 32-byte hash of a message. -/
def hash (bytes : List UInt8) : Vector UInt8 32 :=
  let top := tree 0 bytes
  wordBytes { top with flags := top.flags ||| root }.words

end RevisionForest.Blake3
