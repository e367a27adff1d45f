import PluginRegistry.Digest.Basic
import PluginRegistry.Wire.Value

/-!
# BLAKE3

The digest cuts its input into chunks of 1024 bytes and those into blocks of 64. A chunk is folded
block by block into eight words, its chaining value; chunks are joined pairwise in a binary tree
whose left part is as large a power of two as leaves something for the right. Of the last
compression, marked as the root, the first eight words are the digest.
-/

namespace PluginRegistry.Blake3

/-- The eight words that a chunk or a part of the tree amounts to. -/
abbrev Chain := Vector UInt32 8

/-- Sixteen words: a block of the message, or the state of the compression. -/
abbrev Block := Vector UInt32 16

/-- The words a chunk starts from. -/
def startChain : Chain :=
  #v[0x6A09E667, 0xBB67AE85, 0x3C6EF372, 0xA54FF53A, 0x510E527F, 0x9B05688C, 0x1F83D9AB, 0x5BE0CD19]

/-- Where each message word of the next round comes from. -/
def permutation : Vector (Fin 16) 16 :=
  #v[2, 6, 3, 10, 7, 0, 4, 13, 1, 11, 12, 5, 9, 14, 15, 8]

def chunkStart : UInt32 := 1

def chunkEnd : UInt32 := 2

def parentFlag : UInt32 := 4

def rootFlag : UInt32 := 8

/-! ## Compression -/

def rotateRight (w n : UInt32) : UInt32 := (w >>> n) ||| (w <<< (32 - n))

/-- Mixes two message words into four words of the state. -/
def mix (v : Block) (a b c d : Fin 16) (x y : UInt32) : Block :=
  let v := v.set a (v[a] + v[b] + x)
  let v := v.set d (rotateRight (v[d] ^^^ v[a]) 16)
  let v := v.set c (v[c] + v[d])
  let v := v.set b (rotateRight (v[b] ^^^ v[c]) 12)
  let v := v.set a (v[a] + v[b] + y)
  let v := v.set d (rotateRight (v[d] ^^^ v[a]) 8)
  let v := v.set c (v[c] + v[d])
  v.set b (rotateRight (v[b] ^^^ v[c]) 7)

def round (v m : Block) : Block :=
  let v := mix v 0 4 8 12 m[0] m[1]
  let v := mix v 1 5 9 13 m[2] m[3]
  let v := mix v 2 6 10 14 m[4] m[5]
  let v := mix v 3 7 11 15 m[6] m[7]
  let v := mix v 0 5 10 15 m[8] m[9]
  let v := mix v 1 6 11 12 m[10] m[11]
  let v := mix v 2 7 8 13 m[12] m[13]
  mix v 3 4 9 14 m[14] m[15]

def permute (m : Block) : Block := permutation.map fun i => m[i]

def rounds : (more : Nat) → Block → Block → Block
  | 0, v, m => round v m
  | more + 1, v, m => rounds more (round v m) (permute m)

/-- What one compression takes. -/
structure Node where
  chain : Chain
  block : Block
  counter : UInt64
  length : UInt32
  flags : UInt32

/-- The eight words that come out of a compression. -/
def Node.compress (n : Node) : Chain :=
  let h := n.chain
  let v := rounds 6
    #v[h[0], h[1], h[2], h[3], h[4], h[5], h[6], h[7],
      startChain[0], startChain[1], startChain[2], startChain[3],
      n.counter.toUInt32, (n.counter >>> 32).toUInt32, n.length, n.flags]
    n.block
  Vector.ofFn fun i : Fin 8 => v[i.val] ^^^ v[i.val + 8]

/-! ## Chunks and the tree -/

/-- A block of up to 64 bytes, filled up with zeros. -/
def blockOf (bytes : Bytes) : Block :=
  let padded := (bytes ++ List.replicate (64 - bytes.length) 0).toArray
  Vector.ofFn fun i : Fin 16 =>
    (Wire.ofLittleEndian (padded.extract (4 * i.val) (4 * i.val + 4)).toList).toUInt32

/-- The last compression of a chunk; the blocks before it are folded into the chain. -/
def chunkNode (counter : UInt64) (chain : Chain) (start : UInt32) (bytes : Bytes) : Node :=
  if bytes.length ≤ 64 then
    { chain, block := blockOf bytes, counter, length := bytes.length.toUInt32,
      flags := start ||| chunkEnd }
  else
    let first : Node :=
      { chain, block := blockOf (bytes.take 64), counter, length := 64, flags := start }
    chunkNode counter first.compress 0 (bytes.drop 64)
termination_by bytes.length
decreasing_by
  simp only [List.length_drop]
  omega

/-- The bytes in the left part of the tree over `n` bytes. -/
def leftLength (n : Nat) : Nat := 1024 <<< Nat.log2 ((n - 1) / 1024)

theorem leftLength_pos (n : Nat) : 0 < leftLength n := by
  have := Nat.two_pow_pos (Nat.log2 ((n - 1) / 1024))
  unfold leftLength
  omega

theorem leftLength_lt {n : Nat} (h : 1024 < n) : leftLength n < n := by
  have hm : (n - 1) / 1024 ≠ 0 := by omega
  have := Nat.log2_self_le hm
  unfold leftLength
  omega

/-- The last compression over some bytes that start with chunk number `counter`. -/
def treeNode (counter : UInt64) (bytes : Bytes) : Node :=
  if _h : bytes.length ≤ 1024 then chunkNode counter startChain chunkStart bytes
  else
    let n := leftLength bytes.length
    let left := (treeNode counter (bytes.take n)).compress
    let right := (treeNode (counter + (n / 1024).toUInt64) (bytes.drop n)).compress
    { chain := startChain, block := left ++ right, counter := 0, length := 64, flags := parentFlag }
termination_by bytes.length
decreasing_by
  · have := leftLength_lt (n := bytes.length) (by omega)
    simp only [List.length_take]
    omega
  · have := leftLength_pos bytes.length
    simp only [List.length_drop]
    omega

/-! ## The digest -/

def digest (bytes : Bytes) : Digest :=
  let node := treeNode 0 bytes
  let words := { node with counter := 0, flags := node.flags ||| rootFlag }.compress
  { bytes := (List.finRange 8).flatMap fun i => Wire.littleEndian 4 words[i].toNat
    length_bytes := by
      simp [List.finRange, List.ofFn, Fin.foldr, Fin.foldr.loop, Wire.littleEndian] }

end PluginRegistry.Blake3
