import Mathlib.Tactic

/-!
# Base64 with the URL alphabet

Three bytes are four characters; one or two bytes at the end are two or three characters, without
padding.  What is encoded is decoded again (`decode_encode`).
-/

namespace Base64

def alphabet : List Char :=
  "ABCDEFGHIJKLMNOPQRSTUVWXYZabcdefghijklmnopqrstuvwxyz0123456789-_".toList

def char (n : ℕ) : Char := alphabet.getD n 'A'

def sextet (c : Char) : Option ℕ :=
  if c ∈ alphabet then some (alphabet.idxOf c) else none

lemma sextet_char {n : ℕ} (hn : n < 64) : sextet (char n) = some n := by
  have hall : ∀ m < 64, sextet (char m) = some m := by decide +kernel
  exact hall n hn

def encodeChars : List UInt8 → List Char
  | [] => []
  | [a] => [char (a.toNat / 4), char (a.toNat % 4 * 16)]
  | [a, b] =>
    [char (a.toNat / 4), char (a.toNat % 4 * 16 + b.toNat / 16), char (b.toNat % 16 * 4)]
  | a :: b :: c :: rest =>
    char (a.toNat / 4) :: char (a.toNat % 4 * 16 + b.toNat / 16) ::
      char (b.toNat % 16 * 4 + c.toNat / 64) :: char (c.toNat % 64) :: encodeChars rest

/-- Bits that are left over at the end must be zero. -/
def decodeChars : List Char → Option (List UInt8)
  | [] => some []
  | [_] => none
  | [w, x] => do
    let w ← sextet w
    let x ← sextet x
    if x % 16 = 0 then some [UInt8.ofNat (w * 4 + x / 16)] else none
  | [w, x, y] => do
    let w ← sextet w
    let x ← sextet x
    let y ← sextet y
    if y % 4 = 0 then
      some [UInt8.ofNat (w * 4 + x / 16), UInt8.ofNat (x % 16 * 16 + y / 4)]
    else
      none
  | w :: x :: y :: z :: rest => do
    let w ← sextet w
    let x ← sextet x
    let y ← sextet y
    let z ← sextet z
    let bytes ← decodeChars rest
    some (UInt8.ofNat (w * 4 + x / 16) :: UInt8.ofNat (x % 16 * 16 + y / 4) ::
      UInt8.ofNat (y % 4 * 64 + z) :: bytes)

def encode (bytes : List UInt8) : String := String.ofList (encodeChars bytes)

def decode (s : String) : Option (List UInt8) := decodeChars s.toList

/-- A byte from its upper and lower bits. -/
lemma ofNat_eq {n : ℕ} {b : UInt8} (h : n = b.toNat) : UInt8.ofNat n = b := by
  rw [h, UInt8.ofNat_toNat]

lemma decodeChars_encodeChars (bytes : List UInt8) :
    decodeChars (encodeChars bytes) = some bytes := by
  induction bytes using encodeChars.induct with
  | case1 => rfl
  | case2 a =>
    have ha := a.toNat_lt
    unfold encodeChars decodeChars
    rw [sextet_char (by omega), sextet_char (by omega)]
    simp only [Option.bind_eq_bind, Option.bind_some]
    rw [if_pos (by omega), @ofNat_eq _ a (by omega)]
  | case3 a b =>
    have ha := a.toNat_lt
    have hb := b.toNat_lt
    unfold encodeChars decodeChars
    rw [sextet_char (by omega), sextet_char (by omega), sextet_char (by omega)]
    simp only [Option.bind_eq_bind, Option.bind_some]
    rw [if_pos (by omega), @ofNat_eq _ a (by omega), @ofNat_eq _ b (by omega)]
  | case4 a b c rest ih =>
    have ha := a.toNat_lt
    have hb := b.toNat_lt
    have hc := c.toNat_lt
    unfold encodeChars decodeChars
    rw [sextet_char (by omega), sextet_char (by omega), sextet_char (by omega),
      sextet_char (by omega)]
    simp only [Option.bind_eq_bind, Option.bind_some, ih]
    rw [@ofNat_eq _ a (by omega), @ofNat_eq _ b (by omega), @ofNat_eq _ c (by omega)]

theorem decode_encode (bytes : List UInt8) : decode (encode bytes) = some bytes := by
  unfold decode encode
  rw [String.toList_ofList]
  exact decodeChars_encodeChars bytes

example : encode [49, 124, 53, 48] = "MXw1MA" := by decide +kernel

end Base64
