/-!
# SHA-256

The digest of a byte string, as eight words of 32 bits. Names that must stay the same for the same
content are cut from it.

* `length_padded`: the padded message fills whole blocks;
* `length_digest`: a digest has eight words.
-/

namespace DdlGraph.Text

/-- First 32 bits of the fractional parts of the cube roots of the first 64 primes. -/
def roundConstants : Array UInt32 := #[
  0x428a2f98, 0x71374491, 0xb5c0fbcf, 0xe9b5dba5, 0x3956c25b, 0x59f111f1, 0x923f82a4, 0xab1c5ed5,
  0xd807aa98, 0x12835b01, 0x243185be, 0x550c7dc3, 0x72be5d74, 0x80deb1fe, 0x9bdc06a7, 0xc19bf174,
  0xe49b69c1, 0xefbe4786, 0x0fc19dc6, 0x240ca1cc, 0x2de92c6f, 0x4a7484aa, 0x5cb0a9dc, 0x76f988da,
  0x983e5152, 0xa831c66d, 0xb00327c8, 0xbf597fc7, 0xc6e00bf3, 0xd5a79147, 0x06ca6351, 0x14292967,
  0x27b70a85, 0x2e1b2138, 0x4d2c6dfc, 0x53380d13, 0x650a7354, 0x766a0abb, 0x81c2c92e, 0x92722c85,
  0xa2bfe8a1, 0xa81a664b, 0xc24b8b70, 0xc76c51a3, 0xd192e819, 0xd6990624, 0xf40e3585, 0x106aa070,
  0x19a4c116, 0x1e376c08, 0x2748774c, 0x34b0bcb5, 0x391c0cb3, 0x4ed8aa4a, 0x5b9cca4f, 0x682e6ff3,
  0x748f82ee, 0x78a5636f, 0x84c87814, 0x8cc70208, 0x90befffa, 0xa4506ceb, 0xbef9a3f7, 0xc67178f2]

/-- The eight words that the rounds work on. -/
structure Digest where
  a : UInt32
  b : UInt32
  c : UInt32
  d : UInt32
  e : UInt32
  f : UInt32
  g : UInt32
  h : UInt32

namespace Digest

/-- First 32 bits of the fractional parts of the square roots of the first eight primes. -/
def initial : Digest :=
  ⟨0x6a09e667, 0xbb67ae85, 0x3c6ef372, 0xa54ff53a, 0x510e527f, 0x9b05688c, 0x1f83d9ab, 0x5be0cd19⟩

def words (s : Digest) : List UInt32 :=
  [s.a, s.b, s.c, s.d, s.e, s.f, s.g, s.h]

def rotate (x : UInt32) (n : UInt32) : UInt32 :=
  (x >>> n) ||| (x <<< (32 - n))

/-- One round with the round constant `k` and the schedule word `w`. -/
def round (s : Digest) (k w : UInt32) : Digest :=
  let s1 := rotate s.e 6 ^^^ rotate s.e 11 ^^^ rotate s.e 25
  let ch := (s.e &&& s.f) ^^^ (~~~ s.e &&& s.g)
  let t1 := s.h + s1 + ch + k + w
  let s0 := rotate s.a 2 ^^^ rotate s.a 13 ^^^ rotate s.a 22
  let maj := (s.a &&& s.b) ^^^ (s.a &&& s.c) ^^^ (s.b &&& s.c)
  ⟨t1 + (s0 + maj), s.a, s.b, s.c, s.d + t1, s.e, s.f, s.g⟩

def add (s t : Digest) : Digest :=
  ⟨s.a + t.a, s.b + t.b, s.c + t.c, s.d + t.d, s.e + t.e, s.f + t.f, s.g + t.g, s.h + t.h⟩

end Digest

/-- The bytes followed by a one bit, zeros up to the last eight bytes of a block, and the length in
bits. -/
def padded (bytes : List UInt8) : List UInt8 :=
  let n := bytes.length
  let zeros : List UInt8 := List.replicate (63 - (n + 8) % 64) 0
  let size : List UInt8 := (List.range 8).map fun i => UInt8.ofNat ((8 * n) >>> (8 * (7 - i)))
  bytes ++ 0x80 :: (zeros ++ size)

/-- Four bytes as a word, the highest first. -/
def wordsOfBytes : List UInt8 → List UInt32
  | a :: b :: c :: d :: rest =>
    (a.toUInt32 <<< 24 ||| b.toUInt32 <<< 16 ||| c.toUInt32 <<< 8 ||| d.toUInt32) ::
      wordsOfBytes rest
  | _ => []

/-- The next `n` words of the message schedule, which holds `ws` so far. -/
def schedule (ws : Array UInt32) : Nat → Array UInt32
  | 0 => ws
  | n + 1 =>
    let i := ws.size
    let x := ws.getD (i - 15) 0
    let y := ws.getD (i - 2) 0
    let s0 := Digest.rotate x 7 ^^^ Digest.rotate x 18 ^^^ (x >>> 3)
    let s1 := Digest.rotate y 17 ^^^ Digest.rotate y 19 ^^^ (y >>> 10)
    schedule (ws.push (ws.getD (i - 16) 0 + s0 + ws.getD (i - 7) 0 + s1)) n

/-- The digest after one more block of 16 words. -/
def compress (s : Digest) (block : List UInt32) : Digest :=
  let ws := schedule block.toArray 48
  s.add ((List.range 64).foldl (fun t i => t.round (roundConstants.getD i 0) (ws.getD i 0)) s)

/-- The digest after the blocks of `words`. -/
def compressAll (s : Digest) (words : List UInt32) : Digest :=
  if words.isEmpty then s else compressAll (compress s (words.take 16)) (words.drop 16)
termination_by words.length
decreasing_by
  rename_i h
  have : 0 < words.length := List.length_pos_iff.2 (by simpa using h)
  simp only [List.length_drop]
  omega

/-- **SHA-256** of a byte string. -/
def digest (bytes : List UInt8) : List UInt32 :=
  (compressAll .initial (wordsOfBytes (padded bytes))).words

/-- Eight hexadecimal digits of a word. -/
def hexWord (w : UInt32) : List Char :=
  let digits := Nat.toDigits 16 w.toNat
  List.replicate (8 - digits.length) '0' ++ digits

/-- The first 16 hexadecimal digits of the digest of a text in UTF-8. -/
def shortDigest (s : String) : String :=
  .ofList (((digest (s.toList.flatMap String.utf8EncodeChar)).take 2).flatMap hexWord)

theorem length_padded (bytes : List UInt8) : (padded bytes).length % 64 = 0 := by
  simp only [padded, List.length_append, List.length_cons, List.length_replicate,
    List.length_map, List.length_range]
  omega

theorem length_digest (bytes : List UInt8) : (digest bytes).length = 8 := rfl

end DdlGraph.Text
