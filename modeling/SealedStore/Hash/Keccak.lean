import SealedStore.Octets
/-!
# Keccak-256

The sponge over the permutation Keccak-f[1600] with rate 136 and the padding `0x01 … 0x80`.  The
state is the list of its 25 lanes, lane `(x, y)` at position `x + 5 y`; each step of a round is
a function of its own.
-/
namespace SealedStore.Keccak

/-- The 25 lanes of a state. -/
abbrev Lanes := List UInt64

/-- A byte string cut into pieces of `k` bytes, the last of which may be shorter. -/
def blocks (k : Nat) : (fuel : Nat) → Bytes → List Bytes
  | 0, _ => []
  | _ + 1, [] => []
  | fuel + 1, b => b.take k :: blocks k fuel (b.drop k)

/-- Rotation of a lane to the left. -/
def rotate (w : UInt64) (k : UInt64) : UInt64 := (w <<< k) ||| (w >>> (64 - k))

/-- The five rows of a state. -/
def rows (s : Lanes) : List Lanes :=
  [s.take 5, (s.drop 5).take 5, (s.drop 10).take 5, (s.drop 15).take 5, (s.drop 20).take 5]

/-- Each lane takes up the parity of two neighbouring columns. -/
def theta (s : Lanes) : Lanes :=
  let columns := (rows s).foldl (List.zipWith (· ^^^ ·)) [0, 0, 0, 0, 0]
  let spread := List.zipWith (· ^^^ ·) (columns.rotateRight 1)
    ((columns.rotateLeft 1).map fun w => rotate w 1)
  (rows s).flatMap (List.zipWith (· ^^^ ·) spread)

/-- For each position, the lane that moves there and how far it is rotated. -/
def moves : List (Nat × UInt64) :=
  [(0, 0), (6, 44), (12, 43), (18, 21), (24, 14),
   (3, 28), (9, 20), (10, 3), (16, 45), (22, 61),
   (1, 1), (7, 6), (13, 25), (19, 8), (20, 18),
   (4, 27), (5, 36), (11, 10), (17, 15), (23, 56),
   (2, 62), (8, 55), (14, 39), (15, 41), (21, 2)]

/-- Lanes are rotated and moved to their new positions. -/
def rhoPi (s : Lanes) : Lanes :=
  moves.map fun m => let w := s.getD m.1 0; if m.2 = 0 then w else rotate w m.2

/-- Within a row, each lane is mixed with the next two. -/
def chi (s : Lanes) : Lanes :=
  (rows s).flatMap fun r =>
    List.zipWith (· ^^^ ·) r
      (List.zipWith (fun a b => ~~~a &&& b) (r.rotateLeft 1) (r.rotateLeft 2))

/-- The first lane takes up the constant of the round. -/
def iota (c : UInt64) : Lanes → Lanes
  | [] => []
  | w :: r => (w ^^^ c) :: r

/-- The constants of the 24 rounds. -/
def roundConstants : List UInt64 :=
  [0x0000000000000001, 0x0000000000008082, 0x800000000000808A, 0x8000000080008000,
   0x000000000000808B, 0x0000000080000001, 0x8000000080008081, 0x8000000000008009,
   0x000000000000008A, 0x0000000000000088, 0x0000000080008009, 0x000000008000000A,
   0x000000008000808B, 0x800000000000008B, 0x8000000000008089, 0x8000000000008003,
   0x8000000000008002, 0x8000000000000080, 0x000000000000800A, 0x800000008000000A,
   0x8000000080008081, 0x8000000000008080, 0x0000000080000001, 0x8000000080008008]

/-- The permutation Keccak-f[1600]. -/
def permute (s : Lanes) : Lanes :=
  roundConstants.foldl (fun s c => iota c (chi (rhoPi (theta s)))) s

/-- Bytes in one block. -/
def rate : Nat := 136

/-- A lane from eight bytes, lowest first. -/
def laneOf (b : Bytes) : UInt64 := b.foldr (fun d w => (w <<< 8) ||| d.toUInt64) 0

/-- The eight bytes of a lane, lowest first. -/
def bytesOf (w : UInt64) : Bytes :=
  [0, 8, 16, 24, 32, 40, 48, 56].map fun k : UInt64 => (w >>> k).toUInt8

/-- The message with its padding: one bit after the end and one at the end of the last block. -/
def padded (b : Bytes) : Bytes :=
  let gap := rate - b.length % rate
  if gap = 1 then b ++ [0x81] else b ++ 0x01 :: (List.replicate (gap - 2) 0 ++ [0x80])

/-- One block is added to the state, which is then permuted. -/
def absorb (s : Lanes) (block : Bytes) : Lanes :=
  let lanes := (blocks 8 17 block).map laneOf
  permute (List.zipWith (· ^^^ ·) s (lanes ++ List.replicate 8 0))

/-- The Keccak-256 digest of a byte string. -/
def digest (b : Bytes) : Octets 32 :=
  let p := padded b
  let s := (blocks rate p.length p).foldl absorb (List.replicate 25 0)
  Octets.ofBytes 32 ((s.take 4).flatMap bytesOf)

end SealedStore.Keccak
