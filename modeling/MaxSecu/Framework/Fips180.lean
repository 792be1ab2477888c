import MaxSecu.Framework.BigEndian
import Mathlib.Data.List.Defs

/-!
# SHA-256

The hash function of FIPS 180-4 on words that are numbers below `2 ^ 32`.
-/

namespace Fips180

def roundConstants : List ℕ := [
  0x428a2f98, 0x71374491, 0xb5c0fbcf, 0xe9b5dba5, 0x3956c25b, 0x59f111f1, 0x923f82a4, 0xab1c5ed5,
  0xd807aa98, 0x12835b01, 0x243185be, 0x550c7dc3, 0x72be5d74, 0x80deb1fe, 0x9bdc06a7, 0xc19bf174,
  0xe49b69c1, 0xefbe4786, 0x0fc19dc6, 0x240ca1cc, 0x2de92c6f, 0x4a7484aa, 0x5cb0a9dc, 0x76f988da,
  0x983e5152, 0xa831c66d, 0xb00327c8, 0xbf597fc7, 0xc6e00bf3, 0xd5a79147, 0x06ca6351, 0x14292967,
  0x27b70a85, 0x2e1b2138, 0x4d2c6dfc, 0x53380d13, 0x650a7354, 0x766a0abb, 0x81c2c92e, 0x92722c85,
  0xa2bfe8a1, 0xa81a664b, 0xc24b8b70, 0xc76c51a3, 0xd192e819, 0xd6990624, 0xf40e3585, 0x106aa070,
  0x19a4c116, 0x1e376c08, 0x2748774c, 0x34b0bcb5, 0x391c0cb3, 0x4ed8aa4a, 0x5b9cca4f, 0x682e6ff3,
  0x748f82ee, 0x78a5636f, 0x84c87814, 0x8cc70208, 0x90befffa, 0xa4506ceb, 0xbef9a3f7, 0xc67178f2]

structure HashState where
  (a b c d e f g h : ℕ)

def initialState : HashState :=
  ⟨0x6a09e667, 0xbb67ae85, 0x3c6ef372, 0xa54ff53a, 0x510e527f, 0x9b05688c, 0x1f83d9ab, 0x5be0cd19⟩

def add (x y : ℕ) : ℕ := (x + y) % 2 ^ 32

def rotr (x n : ℕ) : ℕ := (x >>> n) ||| ((x <<< (32 - n)) % 2 ^ 32)

/-- Further words of the message schedule.  The schedule is kept with the latest word first. -/
def schedule : ℕ → List ℕ → List ℕ
  | 0, words => words
  | n + 1, words =>
    let w₂ := words.getD 1 0
    let w₇ := words.getD 6 0
    let w₁₅ := words.getD 14 0
    let w₁₆ := words.getD 15 0
    let σ₀ := rotr w₁₅ 7 ^^^ rotr w₁₅ 18 ^^^ (w₁₅ >>> 3)
    let σ₁ := rotr w₂ 17 ^^^ rotr w₂ 19 ^^^ (w₂ >>> 10)
    schedule n (add (add w₁₆ σ₀) (add w₇ σ₁) :: words)

/-- A round, with its constant and its word of the schedule. -/
def round (s : HashState) (kw : ℕ × ℕ) : HashState :=
  let sum₁ := rotr s.e 6 ^^^ rotr s.e 11 ^^^ rotr s.e 25
  let choice := (s.e &&& s.f) ^^^ ((2 ^ 32 - 1 - s.e) &&& s.g)
  let t₁ := add (add (add s.h sum₁) (add choice kw.1)) kw.2
  let sum₀ := rotr s.a 2 ^^^ rotr s.a 13 ^^^ rotr s.a 22
  let majority := (s.a &&& s.b) ^^^ (s.a &&& s.c) ^^^ (s.b &&& s.c)
  ⟨add t₁ (add sum₀ majority), s.a, s.b, s.c, add s.d t₁, s.e, s.f, s.g⟩

def compress (s : HashState) (block : List UInt8) : HashState :=
  let words := (schedule 48 ((block.toChunks 4).map BigEndian.ofBytes).reverse).reverse
  let t := (roundConstants.zip words).foldl round s
  ⟨add s.a t.a, add s.b t.b, add s.c t.c, add s.d t.d, add s.e t.e, add s.f t.f, add s.g t.g,
    add s.h t.h⟩

/-- Fill a message up to whole blocks; its length in bits comes last. -/
def pad (message : List UInt8) : List UInt8 :=
  message ++ 0x80 :: List.replicate ((119 - message.length % 64) % 64) 0 ++
    BigEndian.toBytes 8 (message.length * 8)

def sha256 (message : List UInt8) : List UInt8 :=
  let s := ((pad message).toChunks 64).foldl compress initialState
  [s.a, s.b, s.c, s.d, s.e, s.f, s.g, s.h].flatMap (BigEndian.toBytes 4)

lemma length_sha256 (message : List UInt8) : (sha256 message).length = 32 := by
  simp [sha256, List.flatMap_cons]

/-- The hash of three letters. -/
example : (sha256 [97, 98, 99]).take 4 = [0xba, 0x78, 0x16, 0xbf] := by decide +kernel

end Fips180
