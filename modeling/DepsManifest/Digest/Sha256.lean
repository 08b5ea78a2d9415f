/-! # SHA-256

The digest of a list of bytes: the message padded to whole blocks of sixteen words, each block
expanded to sixty-four words and mixed into a state of eight words. Findings are identified by the
hexadecimal digest of a text.

Words are 32 bits and add without carry beyond them. A block's words are kept with the latest first
while it is expanded, because each new word depends on the sixteen before it; rounds take them in
their order. Nothing here is specific to texts except `hexDigest`, which takes a text's bytes.
-/
namespace DepsManifest.Sha256

/-- The state between blocks: eight words. -/
structure State where
  a : UInt32
  b : UInt32
  c : UInt32
  d : UInt32
  e : UInt32
  f : UInt32
  g : UInt32
  h : UInt32

def initial : State where
  a := 0x6a09e667
  b := 0xbb67ae85
  c := 0x3c6ef372
  d := 0xa54ff53a
  e := 0x510e527f
  f := 0x9b05688c
  g := 0x1f83d9ab
  h := 0x5be0cd19

def roundConstants : List UInt32 :=
  [0x428a2f98, 0x71374491, 0xb5c0fbcf, 0xe9b5dba5, 0x3956c25b, 0x59f111f1, 0x923f82a4, 0xab1c5ed5,
   0xd807aa98, 0x12835b01, 0x243185be, 0x550c7dc3, 0x72be5d74, 0x80deb1fe, 0x9bdc06a7, 0xc19bf174,
   0xe49b69c1, 0xefbe4786, 0x0fc19dc6, 0x240ca1cc, 0x2de92c6f, 0x4a7484aa, 0x5cb0a9dc, 0x76f988da,
   0x983e5152, 0xa831c66d, 0xb00327c8, 0xbf597fc7, 0xc6e00bf3, 0xd5a79147, 0x06ca6351, 0x14292967,
   0x27b70a85, 0x2e1b2138, 0x4d2c6dfc, 0x53380d13, 0x650a7354, 0x766a0abb, 0x81c2c92e, 0x92722c85,
   0xa2bfe8a1, 0xa81a664b, 0xc24b8b70, 0xc76c51a3, 0xd192e819, 0xd6990624, 0xf40e3585, 0x106aa070,
   0x19a4c116, 0x1e376c08, 0x2748774c, 0x34b0bcb5, 0x391c0cb3, 0x4ed8aa4a, 0x5b9cca4f, 0x682e6ff3,
   0x748f82ee, 0x78a5636f, 0x84c87814, 0x8cc70208, 0x90befffa, 0xa4506ceb, 0xbef9a3f7, 0xc67178f2]

def rotate (w : UInt32) (n : UInt32) : UInt32 := (w >>> n) ||| (w <<< (32 - n))

/-- The bytes of a number, the highest first, in a given count. -/
def bigEndian (count n : Nat) : List UInt8 :=
  ((List.range count).map fun i => UInt8.ofNat (n / Nat.pow 256 i)).reverse

/-- A message followed by its end mark, zeros up to a whole block, and its length in bits. -/
def padded (message : List UInt8) : List UInt8 :=
  let zeros := (119 - message.length % 64) % 64
  message ++ 0x80 :: List.replicate zeros 0 ++ bigEndian 8 (8 * message.length)

/-- Bytes as words, four at a time, the highest first. -/
def words : List UInt8 → List UInt32
  | a :: b :: c :: d :: rest =>
    ((a.toUInt32 <<< 24) ||| (b.toUInt32 <<< 16) ||| (c.toUInt32 <<< 8) ||| d.toUInt32)
      :: words rest
  | _ => []

/-- The next word of a block's expansion, from the words before it, the latest first. -/
def nextWord (latest : List UInt32) : UInt32 :=
  let word (back : Nat) : UInt32 := latest.getD (back - 1) 0
  let low := word 15
  let high := word 2
  let s0 := rotate low 7 ^^^ rotate low 18 ^^^ (low >>> 3)
  let s1 := rotate high 17 ^^^ rotate high 19 ^^^ (high >>> 10)
  word 16 + s0 + word 7 + s1

/-- A block's words, the latest first, expanded by a number of words. -/
def expand : Nat → List UInt32 → List UInt32
  | 0, latest => latest
  | n + 1, latest => expand n (nextWord latest :: latest)

def round (s : State) (constant word : UInt32) : State :=
  let s1 := rotate s.e 6 ^^^ rotate s.e 11 ^^^ rotate s.e 25
  let choice := (s.e &&& s.f) ^^^ (~~~s.e &&& s.g)
  let t1 := s.h + s1 + choice + constant + word
  let s0 := rotate s.a 2 ^^^ rotate s.a 13 ^^^ rotate s.a 22
  let majority := (s.a &&& s.b) ^^^ (s.a &&& s.c) ^^^ (s.b &&& s.c)
  { a := t1 + (s0 + majority), b := s.a, c := s.b, d := s.c
    e := s.d + t1, f := s.e, g := s.f, h := s.g }

/-- A block of sixteen words mixed into a state. -/
def compress (s : State) (block : List UInt32) : State :=
  let schedule := (expand 48 block.reverse).reverse
  let r := (roundConstants.zip schedule).foldl (fun s (k, w) => round s k w) s
  { a := s.a + r.a, b := s.b + r.b, c := s.c + r.c, d := s.d + r.d
    e := s.e + r.e, f := s.f + r.f, g := s.g + r.g, h := s.h + r.h }

/-- A number of blocks mixed into a state one after the other. -/
def compressAll : Nat → State → List UInt32 → State
  | 0, s, _ => s
  | n + 1, s, ws => compressAll n (compress s (ws.take 16)) (ws.drop 16)

/-- The digest of a message: eight words. -/
def digest (message : List UInt8) : List UInt32 :=
  let ws := words (padded message)
  let s := compressAll (ws.length / 16) initial ws
  [s.a, s.b, s.c, s.d, s.e, s.f, s.g, s.h]

/-- A word as eight hexadecimal digits. -/
def hexWord (w : UInt32) : List Char :=
  ((List.range 8).map fun i => Nat.digitChar (w.toNat / Nat.pow 16 i % 16)).reverse

/-- The digest of a text in hexadecimal digits. -/
def hexDigest (text : String) : String :=
  String.ofList ((digest text.toUTF8.data.toList).flatMap hexWord)

end DepsManifest.Sha256
