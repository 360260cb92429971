import SealedStore.Hash.Keccak
/-!
# SHA-1, SHA-256 and HMAC

Both hashes run over blocks of 64 bytes with the same padding: a one bit, zeros, and the length of
the message in bits.  SHA-1 derives record ids, HMAC over SHA-256 derives the nonces of signatures.
-/
namespace SealedStore.Sha

/-- Rotation of a word to the left. -/
def rotl (w : UInt32) (k : UInt32) : UInt32 := (w <<< k) ||| (w >>> (32 - k))

/-- Rotation of a word to the right. -/
def rotr (w : UInt32) (k : UInt32) : UInt32 := (w >>> k) ||| (w <<< (32 - k))

/-- A word from four bytes, highest first. -/
def wordOf (b : Bytes) : UInt32 := b.foldl (fun w d => (w <<< 8) ||| d.toUInt32) 0

/-- The four bytes of a word, highest first. -/
def bytesOf (w : UInt32) : Bytes := [24, 16, 8, 0].map fun k : UInt32 => (w >>> k).toUInt8

/-- The message with its padding, a whole number of 64-byte blocks. -/
def padded (b : Bytes) : Bytes :=
  b ++ 0x80 :: (List.replicate ((119 - b.length % 64) % 64) 0 ++ Bytes.ofNat 8 (b.length * 8))

/-- The blocks of the padded message, each as sixteen words. -/
def blocksOf (b : Bytes) : List (List UInt32) :=
  let p := padded b
  (Keccak.blocks 64 p.length p).map fun block => (Keccak.blocks 4 16 block).map wordOf

/-- The first sixteen words extended to `n + 16` by a rule on the words so far, latest first. -/
def schedule (next : List UInt32 → UInt32) (n : Nat) (block : List UInt32) : List UInt32 :=
  ((List.range n).foldl (fun w _ => next w :: w) block.reverse).reverse

/-! ## SHA-1 -/

/-- The mixing function and the constant of a round. -/
def sha1Round (t : Nat) (b c d : UInt32) : UInt32 × UInt32 :=
  if t < 20 then ((b &&& c) ||| (~~~b &&& d), 0x5A827999)
  else if t < 40 then (b ^^^ c ^^^ d, 0x6ED9EBA1)
  else if t < 60 then ((b &&& c) ||| (b &&& d) ||| (c &&& d), 0x8F1BBCDC)
  else (b ^^^ c ^^^ d, 0xCA62C1D6)

/-- One round of SHA-1 on the five working words. -/
def sha1Step (s : List UInt32) (tw : Nat × UInt32) : List UInt32 :=
  match s with
  | [a, b, c, d, e] =>
    let (f, k) := sha1Round tw.1 b c d
    [rotl a 5 + f + e + k + tw.2, a, rotl b 30, c, d]
  | s => s

/-- The rule by which SHA-1 extends its words. -/
def sha1Next (w : List UInt32) : UInt32 :=
  rotl (w.getD 2 0 ^^^ w.getD 7 0 ^^^ w.getD 13 0 ^^^ w.getD 15 0) 1

/-- The SHA-1 digest of a byte string. -/
def sha1 (b : Bytes) : Octets 20 :=
  let start : List UInt32 := [0x67452301, 0xEFCDAB89, 0x98BADCFE, 0x10325476, 0xC3D2E1F0]
  let final := (blocksOf b).foldl (fun s block =>
    let words := schedule sha1Next 64 block
    List.zipWith (· + ·) s (((List.range 80).zip words).foldl sha1Step s)) start
  Octets.ofBytes 20 (final.flatMap bytesOf)

/-! ## SHA-256 -/

/-- The constants of the 64 rounds. -/
def sha256Constants : List UInt32 :=
  [0x428a2f98, 0x71374491, 0xb5c0fbcf, 0xe9b5dba5, 0x3956c25b, 0x59f111f1, 0x923f82a4, 0xab1c5ed5,
   0xd807aa98, 0x12835b01, 0x243185be, 0x550c7dc3, 0x72be5d74, 0x80deb1fe, 0x9bdc06a7, 0xc19bf174,
   0xe49b69c1, 0xefbe4786, 0x0fc19dc6, 0x240ca1cc, 0x2de92c6f, 0x4a7484aa, 0x5cb0a9dc, 0x76f988da,
   0x983e5152, 0xa831c66d, 0xb00327c8, 0xbf597fc7, 0xc6e00bf3, 0xd5a79147, 0x06ca6351, 0x14292967,
   0x27b70a85, 0x2e1b2138, 0x4d2c6dfc, 0x53380d13, 0x650a7354, 0x766a0abb, 0x81c2c92e, 0x92722c85,
   0xa2bfe8a1, 0xa81a664b, 0xc24b8b70, 0xc76c51a3, 0xd192e819, 0xd6990624, 0xf40e3585, 0x106aa070,
   0x19a4c116, 0x1e376c08, 0x2748774c, 0x34b0bcb5, 0x391c0cb3, 0x4ed8aa4a, 0x5b9cca4f, 0x682e6ff3,
   0x748f82ee, 0x78a5636f, 0x84c87814, 0x8cc70208, 0x90befffa, 0xa4506ceb, 0xbef9a3f7, 0xc67178f2]

/-- One round of SHA-256 on the eight working words. -/
def sha256Step (s : List UInt32) (kw : UInt32 × UInt32) : List UInt32 :=
  match s with
  | [a, b, c, d, e, f, g, h] =>
    let t1 := h + (rotr e 6 ^^^ rotr e 11 ^^^ rotr e 25) +
      ((e &&& f) ^^^ (~~~e &&& g)) + kw.1 + kw.2
    let t2 := (rotr a 2 ^^^ rotr a 13 ^^^ rotr a 22) + ((a &&& b) ^^^ (a &&& c) ^^^ (b &&& c))
    [t1 + t2, a, b, c, d + t1, e, f, g]
  | s => s

/-- The rule by which SHA-256 extends its words. -/
def sha256Next (w : List UInt32) : UInt32 :=
  let x := w.getD 14 0
  let y := w.getD 1 0
  w.getD 15 0 + (rotr x 7 ^^^ rotr x 18 ^^^ (x >>> 3)) + w.getD 6 0
    + (rotr y 17 ^^^ rotr y 19 ^^^ (y >>> 10))

/-- The SHA-256 digest of a byte string. -/
def sha256 (b : Bytes) : Octets 32 :=
  let start : List UInt32 := [0x6a09e667, 0xbb67ae85, 0x3c6ef372, 0xa54ff53a,
    0x510e527f, 0x9b05688c, 0x1f83d9ab, 0x5be0cd19]
  let final := (blocksOf b).foldl (fun s block =>
    let words := schedule sha256Next 48 block
    List.zipWith (· + ·) s ((sha256Constants.zip words).foldl sha256Step s)) start
  Octets.ofBytes 32 (final.flatMap bytesOf)

/-- The keyed digest HMAC-SHA-256; keys are at most one block long. -/
def hmac (key message : Bytes) : Bytes :=
  let k := key ++ List.replicate (64 - key.length) 0
  let inner := (sha256 (k.map (· ^^^ 0x36) ++ message)).toList
  (sha256 (k.map (· ^^^ 0x5c) ++ inner)).toList

end SealedStore.Sha
