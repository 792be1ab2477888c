import Mathlib.Tactic
import Mathlib.Data.List.Basic

/-!
# Fixed-width big-endian integers

`toBytes n v` is the `n`-byte big-endian form of `v`, reduced modulo `256 ^ n`, and
`ofBytes` reads any byte string back as a number.  On `n`-byte strings the two are mutually
inverse (`ofBytes_toBytes`, `toBytes_ofBytes`), so a fixed-width integer field has exactly one
spelling.
-/

namespace BigEndian

/-- The `n` big-endian bytes of `v`; the value is taken modulo `256 ^ n`. -/
def toBytes : ℕ → ℕ → List UInt8
  | 0, _ => []
  | n + 1, v => toBytes n (v / 256) ++ [UInt8.ofNat v]

/-- The number a byte string spells in big-endian order. -/
def ofBytes (bs : List UInt8) : ℕ :=
  bs.foldl (fun acc b => acc * 256 + b.toNat) 0

@[simp] lemma length_toBytes (n v : ℕ) : (toBytes n v).length = n := by
  induction n generalizing v with
  | zero => rfl
  | succ n ih => simp [toBytes, ih]

@[simp] lemma ofBytes_nil : ofBytes [] = 0 := rfl

@[simp] lemma ofBytes_append_singleton (bs : List UInt8) (b : UInt8) :
    ofBytes (bs ++ [b]) = ofBytes bs * 256 + b.toNat := by
  simp [ofBytes]

lemma ofBytes_lt (bs : List UInt8) : ofBytes bs < 256 ^ bs.length := by
  induction bs using List.reverseRecOn with
  | nil => simp
  | append_singleton bs b ih =>
    have hb : b.toNat < 256 := b.toNat_lt
    rw [ofBytes_append_singleton, List.length_append, List.length_singleton, pow_succ]
    omega

/-- Reading back a fixed-width integer gives its value modulo the width. -/
lemma ofBytes_toBytes (n v : ℕ) : ofBytes (toBytes n v) = v % 256 ^ n := by
  induction n generalizing v with
  | zero => simp [toBytes, Nat.mod_one]
  | succ n ih =>
    have hb : (UInt8.ofNat v).toNat = v % 256 := by simp
    rw [toBytes, ofBytes_append_singleton, ih, hb, pow_succ', Nat.mod_mul]
    ring

lemma ofBytes_toBytes_of_lt {n v : ℕ} (h : v < 256 ^ n) : ofBytes (toBytes n v) = v := by
  rw [ofBytes_toBytes, Nat.mod_eq_of_lt h]

/-- A byte string is the fixed-width form of the number it spells. -/
lemma toBytes_ofBytes (bs : List UInt8) : toBytes bs.length (ofBytes bs) = bs := by
  induction bs using List.reverseRecOn with
  | nil => rfl
  | append_singleton bs b ih =>
    have hb : b.toNat < 256 := b.toNat_lt
    have hdiv : (ofBytes bs * 256 + b.toNat) / 256 = ofBytes bs := by omega
    have hlast : UInt8.ofNat (ofBytes bs * 256 + b.toNat) = b := by
      apply UInt8.toNat_inj.mp
      rw [UInt8.toNat_ofNat']
      omega
    rw [List.length_append, List.length_singleton, toBytes, ofBytes_append_singleton, hdiv, ih,
      hlast]

end BigEndian
