/-! # Blob digests

The BLAKE3 hash. Input is cut into chunks of 1024 bytes, each of them into blocks of 64, and the
chunks are the leaves of a binary tree whose left sides are full.
-/

namespace CommandStream.Digest

abbrev Chaining := Vector UInt32 8

abbrev Block := Vector UInt32 16

def initial : Chaining := #v[0x6A09E667, 0xBB67AE85, 0x3C6EF372, 0xA54FF53A, 0x510E527F, 0x9B05688C,
  0x1F83D9AB, 0x5BE0CD19]

def rotateRight (x amount : UInt32) : UInt32 := (x >>> amount) ||| (x <<< (32 - amount))

def mix (v : Block) (a b c d : Fin 16) (x y : UInt32) : Block :=
  let v := v.set a (v[a] + v[b] + x)
  let v := v.set d (rotateRight (v[d] ^^^ v[a]) 16)
  let v := v.set c (v[c] + v[d])
  let v := v.set b (rotateRight (v[b] ^^^ v[c]) 12)
  let v := v.set a (v[a] + v[b] + y)
  let v := v.set d (rotateRight (v[d] ^^^ v[a]) 8)
  let v := v.set c (v[c] + v[d])
  v.set b (rotateRight (v[b] ^^^ v[c]) 7)

def round (v m : Block) : Block :=
  let v := mix v 0 4 8 12 m[0] m[1]
  let v := mix v 1 5 9 13 m[2] m[3]
  let v := mix v 2 6 10 14 m[4] m[5]
  let v := mix v 3 7 11 15 m[6] m[7]
  let v := mix v 0 5 10 15 m[8] m[9]
  let v := mix v 1 6 11 12 m[10] m[11]
  let v := mix v 2 7 8 13 m[12] m[13]
  mix v 3 4 9 14 m[14] m[15]

def permute (m : Block) : Block := #v[m[2], m[6], m[3], m[10], m[7], m[0], m[4], m[13], m[1], m[11],
  m[12], m[5], m[9], m[14], m[15], m[8]]

def rounds : Nat → Block → Block → Block
  | 0, v, _ => v
  | n + 1, v, m => rounds n (round v m) (permute m)

/-- A compression that has not been carried out. -/
structure Node where
  chaining : Chaining
  block : Block
  counter : Nat
  length : Nat
  flags : UInt32

namespace Node

def chunkStart : UInt32 := 1

def chunkEnd : UInt32 := 2

def parentFlag : UInt32 := 4

def rootFlag : UInt32 := 8

def compress (n : Node) (flags : UInt32) : Block :=
  let h := n.chaining
  let start : Block := #v[h[0], h[1], h[2], h[3], h[4], h[5], h[6], h[7],
    initial[0], initial[1], initial[2], initial[3],
    UInt32.ofNat n.counter, UInt32.ofNat (n.counter / UInt32.size), UInt32.ofNat n.length, flags]
  rounds 7 start n.block

def output (n : Node) (flags : UInt32) : Chaining :=
  let v := n.compress flags
  Vector.ofFn fun (i : Fin 8) => v[i.val] ^^^ v[i.val + 8]

def chain (n : Node) : Chaining := n.output n.flags

def parent (left right : Node) : Node where
  chaining := initial
  block := left.chain ++ right.chain
  counter := 0
  length := 64
  flags := parentFlag

end Node

def wordAt (bytes : List UInt8) : UInt32 :=
  bytes.foldr (fun b n => b.toUInt32 ||| (n <<< 8)) 0

def blockOf (bytes : List UInt8) : Block :=
  Vector.ofFn fun (i : Fin 16) => wordAt ((bytes.drop (4 * i.val)).take 4)

/-- The pieces of the given size; there is at least one, and only the last may be shorter. The first
argument bounds their number. -/
def pieces (size : Nat) : Nat → List UInt8 → List (List UInt8)
  | 0, bytes => [bytes]
  | n + 1, bytes =>
    if bytes.length ≤ size then [bytes]
    else bytes.take size :: pieces size n (bytes.drop size)

/-- The last block of a chunk, with the blocks in front of it compressed. -/
def chunkBlocks (index : Nat) : Chaining → UInt32 → List (List UInt8) → Node
  | chaining, flags, [] =>
    { chaining, block := blockOf [], counter := index, length := 0,
      flags := flags ||| Node.chunkEnd }
  | chaining, flags, [bytes] =>
    { chaining, block := blockOf bytes, counter := index, length := bytes.length,
      flags := flags ||| Node.chunkEnd }
  | chaining, flags, bytes :: rest =>
    let node : Node :=
      { chaining, block := blockOf bytes, counter := index, length := bytes.length, flags }
    chunkBlocks index node.chain 0 rest

def chunk (index : Nat) (bytes : List UInt8) : Node :=
  chunkBlocks index initial Node.chunkStart (pieces 64 16 bytes)

/-- Join neighbours; a node without a neighbour is passed on. -/
def pairUp : List Node → List Node
  | left :: right :: rest => .parent left right :: pairUp rest
  | nodes => nodes

def levels : Nat → List Node → List Node
  | 0, nodes => nodes
  | n + 1, nodes => levels n (pairUp nodes)

def wordBytes (w : UInt32) : List UInt8 :=
  [w.toUInt8, (w >>> 8).toUInt8, (w >>> 16).toUInt8, (w >>> 24).toUInt8]

def hash (bytes : List UInt8) : List UInt8 :=
  let count := bytes.length / 1024 + 1
  let leaves := (pieces 1024 count bytes).zipIdx.map fun (piece, index) => chunk index piece
  match levels (Nat.log2 count + 1) leaves with
  | [] => []
  | root :: _ =>
    let out := { root with counter := 0 }.output (root.flags ||| Node.rootFlag)
    out.toList.flatMap wordBytes

end CommandStream.Digest
