import ArmoredWitness.Lib.BigEndian

/-! The SHA-256 digest, executable. Words are naturals below `2^32`, so that the
digest of a concrete message is computed by the kernel. -/
namespace ArmoredWitness.Lib.Sha256

def word (n : ℕ) : ℕ := n % 2^32
def rotr (n x : ℕ) : ℕ := word ((x >>> n) ||| (x <<< (32-n)))
def bitNot (x : ℕ) : ℕ := x ^^^ (2^32-1)

def ch (x y z : ℕ) : ℕ := (x &&& y) ^^^ (bitNot x &&& z)
def maj (x y z : ℕ) : ℕ := (x &&& y) ^^^ (x &&& z) ^^^ (y &&& z)
def bigSigma0 (x : ℕ) : ℕ := rotr 2 x ^^^ rotr 13 x ^^^ rotr 22 x
def bigSigma1 (x : ℕ) : ℕ := rotr 6 x ^^^ rotr 11 x ^^^ rotr 25 x
def smallSigma0 (x : ℕ) : ℕ := rotr 7 x ^^^ rotr 18 x ^^^ (x >>> 3)
def smallSigma1 (x : ℕ) : ℕ := rotr 17 x ^^^ rotr 19 x ^^^ (x >>> 10)

def roundConstants : List ℕ :=
  [0x428a2f98, 0x71374491, 0xb5c0fbcf, 0xe9b5dba5, 0x3956c25b, 0x59f111f1, 0x923f82a4, 0xab1c5ed5,
   0xd807aa98, 0x12835b01, 0x243185be, 0x550c7dc3, 0x72be5d74, 0x80deb1fe, 0x9bdc06a7, 0xc19bf174,
   0xe49b69c1, 0xefbe4786, 0x0fc19dc6, 0x240ca1cc, 0x2de92c6f, 0x4a7484aa, 0x5cb0a9dc, 0x76f988da,
   0x983e5152, 0xa831c66d, 0xb00327c8, 0xbf597fc7, 0xc6e00bf3, 0xd5a79147, 0x06ca6351, 0x14292967,
   0x27b70a85, 0x2e1b2138, 0x4d2c6dfc, 0x53380d13, 0x650a7354, 0x766a0abb, 0x81c2c92e, 0x92722c85,
   0xa2bfe8a1, 0xa81a664b, 0xc24b8b70, 0xc76c51a3, 0xd192e819, 0xd6990624, 0xf40e3585, 0x106aa070,
   0x19a4c116, 0x1e376c08, 0x2748774c, 0x34b0bcb5, 0x391c0cb3, 0x4ed8aa4a, 0x5b9cca4f, 0x682e6ff3,
   0x748f82ee, 0x78a5636f, 0x84c87814, 0x8cc70208, 0x90befffa, 0xa4506ceb, 0xbef9a3f7, 0xc67178f2]

/-- The eight chaining words. -/
structure Chain where
  a : ℕ
  b : ℕ
  c : ℕ
  d : ℕ
  e : ℕ
  f : ℕ
  g : ℕ
  h : ℕ

def initial : Chain :=
  ⟨0x6a09e667, 0xbb67ae85, 0x3c6ef372, 0xa54ff53a, 0x510e527f, 0x9b05688c, 0x1f83d9ab, 0x5be0cd19⟩

/-- The message schedule, newest word first. -/
def expand : ℕ → List ℕ → List ℕ
  | 0, ws => ws
  | n+1, ws => expand n
      (word (smallSigma1 (ws.getD 1 0) + ws.getD 6 0 + smallSigma0 (ws.getD 14 0) + ws.getD 15 0) :: ws)

def round (s : Chain) (kw : ℕ × ℕ) : Chain :=
  let t1 := s.h + bigSigma1 s.e + ch s.e s.f s.g + kw.1 + kw.2
  let t2 := bigSigma0 s.a + maj s.a s.b s.c
  ⟨word (t1+t2),s.a,s.b,s.c,word (s.d+t1),s.e,s.f,s.g⟩

def compress (s : Chain) (ws : List ℕ) : Chain :=
  let r := (roundConstants.zip (expand 48 ws.reverse).reverse).foldl round s
  ⟨word (s.a+r.a),word (s.b+r.b),word (s.c+r.c),word (s.d+r.d),
    word (s.e+r.e),word (s.f+r.f),word (s.g+r.g),word (s.h+r.h)⟩

/-- One bit, zeros up to a whole number of 64-byte blocks, and the bit length. -/
def padded (m : List UInt8) : List UInt8 :=
  m ++ 0x80 :: (List.replicate ((119 - m.length % 64) % 64) 0 ++ BigEndian.encode 8 (8*m.length))

def words : ℕ → List UInt8 → List ℕ
  | 0, _ => []
  | n+1, bs => BigEndian.decode (bs.take 4) :: words n (bs.drop 4)

def absorb : ℕ → Chain → List UInt8 → Chain
  | 0, s, _ => s
  | n+1, s, bs => absorb n (compress s (words 16 bs)) (bs.drop 64)

def Chain.toList (s : Chain) : List ℕ := [s.a,s.b,s.c,s.d,s.e,s.f,s.g,s.h]

/-- The digest of a message. It is never unfolded in a proof about symbolic data. -/
@[irreducible] def sum256 (m : List UInt8) : List.Vector UInt8 32 :=
  ⟨(absorb ((padded m).length/64) initial (padded m)).toList.flatMap (BigEndian.encode 4),
    by simp [Chain.toList]⟩

/-- The digest of `hello`, as the record tests spell it. -/
example : (sum256 [0x68, 0x65, 0x6c, 0x6c, 0x6f]).toList =
    [0x2c, 0xf2, 0x4d, 0xba, 0x5f, 0xb0, 0xa3, 0x0e, 0x26, 0xe8, 0x3b, 0x2a, 0xc5, 0xb9, 0xe2, 0x9e,
     0x1b, 0x16, 0x1e, 0x5c, 0x1f, 0xa7, 0x42, 0x5e, 0x73, 0x04, 0x33, 0x62, 0x93, 0x8b, 0x98, 0x24] := by
  decide +kernel

end ArmoredWitness.Lib.Sha256
