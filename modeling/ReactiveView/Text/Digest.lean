import ReactiveView.Text.Quoted

/-!
# Fingerprints

The fingerprint of a template source is its 64-bit XXH3 digest with seed zero, written as sixteen
hexadecimal digits; a compiled program records it, and is rebuilt when the source no longer has it.
The digest reads its input as little-endian words, mixes them with a fixed key, and treats the
classes of lengths each in its own way (`digest`).
-/

namespace ReactiveView

namespace Digest

/-- The fixed key that input words are mixed with. -/
def key : ByteArray := ⟨#[
    0xb8, 0xfe, 0x6c, 0x39, 0x23, 0xa4, 0x4b, 0xbe, 0x7c, 0x01, 0x81, 0x2c, 0xf7, 0x21, 0xad, 0x1c,
    0xde, 0xd4, 0x6d, 0xe9, 0x83, 0x90, 0x97, 0xdb, 0x72, 0x40, 0xa4, 0xa4, 0xb7, 0xb3, 0x67, 0x1f,
    0xcb, 0x79, 0xe6, 0x4e, 0xcc, 0xc0, 0xe5, 0x78, 0x82, 0x5a, 0xd0, 0x7d, 0xcc, 0xff, 0x72, 0x21,
    0xb8, 0x08, 0x46, 0x74, 0xf7, 0x43, 0x24, 0x8e, 0xe0, 0x35, 0x90, 0xe6, 0x81, 0x3a, 0x26, 0x4c,
    0x3c, 0x28, 0x52, 0xbb, 0x91, 0xc3, 0x00, 0xcb, 0x88, 0xd0, 0x65, 0x8b, 0x1b, 0x53, 0x2e, 0xa3,
    0x71, 0x64, 0x48, 0x97, 0xa2, 0x0d, 0xf9, 0x4e, 0x38, 0x19, 0xef, 0x46, 0xa9, 0xde, 0xac, 0xd8,
    0xa8, 0xfa, 0x76, 0x3f, 0xe3, 0x9c, 0x34, 0x3f, 0xf9, 0xdc, 0xbb, 0xc7, 0xc7, 0x0b, 0x4f, 0x1d,
    0x8a, 0x51, 0xe0, 0x4b, 0xcd, 0xb4, 0x59, 0x31, 0xc8, 0x9f, 0x7e, 0xc9, 0xd9, 0x78, 0x73, 0x64,
    0xea, 0xc5, 0xac, 0x83, 0x34, 0xd3, 0xeb, 0xc3, 0xc5, 0x81, 0xa0, 0xff, 0xfa, 0x13, 0x63, 0xeb,
    0x17, 0x0d, 0xdd, 0x51, 0xb7, 0xf0, 0xda, 0x49, 0xd3, 0x16, 0x55, 0x26, 0x29, 0xd4, 0x68, 0x9e,
    0x2b, 0x16, 0xbe, 0x58, 0x7d, 0x47, 0xa1, 0xfc, 0x8f, 0xf8, 0xb8, 0xd1, 0x7a, 0xd0, 0x31, 0xce,
    0x45, 0xcb, 0x3a, 0x8f, 0x95, 0x16, 0x04, 0x28, 0xaf, 0xd7, 0xfb, 0xca, 0xbb, 0x4b, 0x40, 0x7e]⟩

/-- The byte at `i`, zero outside the data. -/
def byteAt (b : ByteArray) (i : Nat) : UInt64 :=
  if h : i < b.size then b[i].toUInt64 else 0

/-- The little-endian word of 32 bits at `i`. -/
def word32 (b : ByteArray) (i : Nat) : UInt64 :=
  byteAt b i ||| byteAt b (i + 1) <<< 8 ||| byteAt b (i + 2) <<< 16 ||| byteAt b (i + 3) <<< 24

/-- The little-endian word of 64 bits at `i`. -/
def word64 (b : ByteArray) (i : Nat) : UInt64 := word32 b i ||| word32 b (i + 4) <<< 32

/-! ## Primes and mixing steps -/

/-- The first prime of 32 bits. -/
def prime32a : UInt64 := 0x9E3779B1
/-- The second prime of 32 bits. -/
def prime32b : UInt64 := 0x85EBCA77
/-- The third prime of 32 bits. -/
def prime32c : UInt64 := 0xC2B2AE3D
/-- The first prime of 64 bits. -/
def prime64a : UInt64 := 0x9E3779B185EBCA87
/-- The second prime of 64 bits. -/
def prime64b : UInt64 := 0xC2B2AE3D27D4EB4F
/-- The third prime of 64 bits. -/
def prime64c : UInt64 := 0x165667B19E3779F9
/-- The fourth prime of 64 bits. -/
def prime64d : UInt64 := 0x85EBCA77C2B2AE63
/-- The fifth prime of 64 bits. -/
def prime64e : UInt64 := 0x27D4EB2F165667C5
/-- The factor of the final avalanche. -/
def mixFactor : UInt64 := 0x165667919E3779F9
/-- The factor that mixes an input of four to eight bytes. -/
def shortFactor : UInt64 := 0x9FB21C651E98DF25

/-- Rotate left by less than 64 places. -/
def rotl (x : UInt64) (n : UInt64) : UInt64 := (x <<< n) ||| (x >>> (64 - n))

/-- The word with its bytes in reverse order. -/
def swapBytes (x : UInt64) : UInt64 :=
  (List.range 8).foldl (fun acc i => (acc <<< 8) ||| ((x >>> (8 * i.toUInt64)) &&& 0xFF)) 0

/-- The halves of the 128-bit product, combined. -/
def foldProduct (x y : UInt64) : UInt64 :=
  let p := x.toNat * y.toNat
  UInt64.ofNat (p % UInt64.size) ^^^ UInt64.ofNat (p / UInt64.size)

/-- The final avalanche. -/
def avalanche (h : UInt64) : UInt64 :=
  let h := (h ^^^ (h >>> 37)) * mixFactor
  h ^^^ (h >>> 32)

/-- The avalanche of inputs of at most three bytes. -/
def shortAvalanche (h : UInt64) : UInt64 :=
  let h := (h ^^^ (h >>> 33)) * prime64b
  let h := (h ^^^ (h >>> 29)) * prime64c
  h ^^^ (h >>> 32)

/-- Mix sixteen bytes at `i` with the key at `k`. -/
def mix (b : ByteArray) (i k : Nat) : UInt64 :=
  foldProduct (word64 b i ^^^ word64 key k) (word64 b (i + 8) ^^^ word64 key (k + 8))

/-! ## Inputs by length -/

/-- No byte. -/
def digestEmpty : UInt64 := shortAvalanche (word64 key 56 ^^^ word64 key 64)

/-- One to three bytes. -/
def digestTo3 (b : ByteArray) : UInt64 :=
  let n := b.size
  let combined := byteAt b 0 <<< 16 ||| byteAt b (n / 2) <<< 24 ||| byteAt b (n - 1) |||
    n.toUInt64 <<< 8
  shortAvalanche (combined ^^^ (word32 key 0 ^^^ word32 key 4))

/-- Four to eight bytes. -/
def digestTo8 (b : ByteArray) : UInt64 :=
  let n := b.size
  let h := (word32 b (n - 4) + (word32 b 0 <<< 32)) ^^^ (word64 key 8 ^^^ word64 key 16)
  let h := (h ^^^ rotl h 49 ^^^ rotl h 24) * shortFactor
  let h := (h ^^^ ((h >>> 35) + n.toUInt64)) * shortFactor
  h ^^^ (h >>> 28)

/-- Nine to sixteen bytes. -/
def digestTo16 (b : ByteArray) : UInt64 :=
  let n := b.size
  let lo := word64 b 0 ^^^ (word64 key 24 ^^^ word64 key 32)
  let hi := word64 b (n - 8) ^^^ (word64 key 40 ^^^ word64 key 48)
  avalanche (n.toUInt64 + swapBytes lo + hi + foldProduct lo hi)

/-- Seventeen to 128 bytes: pairs of blocks from both ends, as many as fit. -/
def digestTo128 (b : ByteArray) : UInt64 :=
  let n := b.size
  let pairs := (n - 1) / 32 + 1
  avalanche <| (List.range pairs).foldl
    (fun acc i => acc + mix b (16 * i) (32 * i) + mix b (n - 16 * (i + 1)) (32 * i + 16))
    (n.toUInt64 * prime64a)

/-- From 129 to 240 bytes: eight blocks, an avalanche, the other blocks, the last sixteen bytes. -/
def digestTo240 (b : ByteArray) : UInt64 :=
  let n := b.size
  let start := avalanche <| (List.range 8).foldl
    (fun acc i => acc + mix b (16 * i) (16 * i)) (n.toUInt64 * prime64a)
  let rest := (List.range (n / 16 - 8)).foldl
    (fun acc i => acc + mix b (16 * (i + 8)) (16 * i + 3)) start
  avalanche (rest + mix b (n - 16) 119)

/-- The eight lanes of a long digest. -/
abbrev Lanes := Array UInt64

/-- The lanes before any input. -/
def Lanes.start : Lanes := #[
  prime32c, prime64a, prime64b, prime64c, prime64d, prime32b, prime64e, prime32a]

/-- Take in the 64 bytes at `i` with the key at `k`: each word goes into its neighbour's lane, and
the product of its keyed halves into its own. -/
def Lanes.absorb (b : ByteArray) (lanes : Lanes) (i k : Nat) : Lanes :=
  (List.range 8).foldl (fun lanes j =>
    let data := word64 b (i + 8 * j)
    let keyed := data ^^^ word64 key (k + 8 * j)
    let other := if j % 2 = 0 then j + 1 else j - 1
    let product : UInt64 := (keyed &&& (0xFFFFFFFF : UInt64)) * (keyed >>> 32)
    (lanes.modify other (· + data)).modify j (· + product)) lanes

/-- Stir the lanes at the end of a block. -/
def Lanes.stir (lanes : Lanes) : Lanes :=
  lanes.mapIdx fun j (x : UInt64) =>
    ((x ^^^ (x >>> 47)) ^^^ word64 key (128 + 8 * j)) * prime32a

/-- Take in `count` stripes of 64 bytes from `i` on. -/
def Lanes.absorbStripes (b : ByteArray) (lanes : Lanes) (i count : Nat) : Lanes :=
  (List.range count).foldl (fun lanes s => lanes.absorb b (i + 64 * s) (8 * s)) lanes

/-- More than 240 bytes: whole blocks of sixteen stripes, then the stripes left over, then the last
64 bytes once more. -/
def digestLong (b : ByteArray) : UInt64 :=
  let n := b.size
  let blocks := (n - 1) / 1024
  let lanes := (List.range blocks).foldl
    (fun lanes k => (lanes.absorbStripes b (1024 * k) 16).stir) Lanes.start
  let lanes := lanes.absorbStripes b (1024 * blocks) ((n - 1 - 1024 * blocks) / 64)
  let lanes := lanes.absorb b (n - 64) 121
  let lane (j : Nat) : UInt64 := lanes.getD j 0
  avalanche <| (List.range 4).foldl (fun acc j =>
    acc + foldProduct (lane (2 * j) ^^^ word64 key (11 + 16 * j))
      (lane (2 * j + 1) ^^^ word64 key (19 + 16 * j))) (n.toUInt64 * prime64a)

end Digest

/-- The digest of a sequence of bytes. -/
def digest (b : ByteArray) : UInt64 :=
  if b.size = 0 then Digest.digestEmpty
  else if b.size ≤ 3 then Digest.digestTo3 b
  else if b.size ≤ 8 then Digest.digestTo8 b
  else if b.size ≤ 16 then Digest.digestTo16 b
  else if b.size ≤ 128 then Digest.digestTo128 b
  else if b.size ≤ 240 then Digest.digestTo240 b
  else Digest.digestLong b

/-- Sixteen lower case hexadecimal digits. -/
def hex16 (x : UInt64) : String :=
  let ds := Text.hexDigits x.toNat
  String.ofList (List.replicate (16 - ds.length) '0' ++ ds)

/-- The fingerprint of a text. -/
def contentHash (source : String) : String := hex16 (digest source.toUTF8)

end ReactiveView
