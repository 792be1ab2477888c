import Mathlib.Tactic
import Mathlib.Data.List.Lex

/-!
# Decimal fields of a fixed width

A number below `10 ^ w` that is padded with zeros to `w` digits.  Such fields are compared as texts the
way their numbers are, whatever stands behind them (`padded_append_lt`).
-/

namespace Decimals

def digits : ℕ → ℕ → List Char
  | 0, _ => []
  | w + 1, n => digits w (n / 10) ++ [Nat.digitChar (n % 10)]

/-- A number in decimal, with zeros before it up to a width. -/
def padded (w n : ℕ) : List Char := (Nat.toDigits 10 n).leftpad w '0'

variable {w a b n : ℕ} {l l' r r' : List Char}

lemma length_digits (w n : ℕ) : (digits w n).length = w := by
  induction w generalizing n with
  | zero => rfl
  | succ w ih =>
    unfold digits
    rw [List.length_append, ih, List.length_singleton]

lemma digits_zero (w : ℕ) : digits w 0 = List.replicate w '0' := by
  induction w with
  | zero => rfl
  | succ w ih =>
    unfold digits
    rw [Nat.zero_div, ih, List.replicate_succ']
    rfl

lemma toDigits_of_lt (h : n < 10) : Nat.toDigits 10 n = [Nat.digitChar n] :=
  Nat.toDigits_of_lt_base h

lemma toDigits_step (h : 10 ≤ n) :
    Nat.toDigits 10 n = Nat.toDigits 10 (n / 10) ++ [Nat.digitChar (n % 10)] :=
  Nat.toDigits_of_base_le (by norm_num) h

/-- A number that fits is padded to its digits. -/
lemma padded_eq_digits (hw : 0 < w) (h : n < 10 ^ w) : padded w n = digits w n := by
  induction w generalizing n with
  | zero => exact absurd hw (lt_irrefl 0)
  | succ w ih =>
    unfold padded digits
    by_cases hsmall : n < 10
    · rw [toDigits_of_lt hsmall, Nat.div_eq_of_lt hsmall, digits_zero, Nat.mod_eq_of_lt hsmall]
      rfl
    · have hw' : 0 < w := by
        rcases Nat.eq_zero_or_pos w with hzero | hpos
        · rw [hzero] at h
          omega
        · exact hpos
      have hdiv : n / 10 < 10 ^ w := by
        rw [pow_succ] at h
        omega
      have hrest := ih hw' hdiv
      unfold padded at hrest
      rw [toDigits_step (not_lt.mp hsmall), ← hrest]
      unfold List.leftpad
      rw [List.length_append, List.length_singleton, Nat.add_sub_add_right, List.append_assoc]

lemma digitChar_lt (hb : b < 10) (h : a < b) : Nat.digitChar a < Nat.digitChar b := by
  interval_cases b <;> interval_cases a <;> decide

/-- Texts of one length differ before what follows them. -/
lemma append_lt_append (hlength : l.length = l'.length) (h : l < l') : l ++ r < l' ++ r' := by
  induction l generalizing l' with
  | nil =>
    cases l' with
    | nil => exact absurd h (List.not_lt_nil _)
    | cons c l' => cases hlength
  | cons c l ih =>
    cases l' with
    | nil => cases hlength
    | cons c' l' =>
      rw [List.cons_append, List.cons_append]
      rcases List.cons_lt_cons_iff.mp h with hhead | ⟨hhead, htail⟩
      · exact List.cons_lt_cons_iff.mpr (.inl hhead)
      · exact List.cons_lt_cons_iff.mpr (.inr ⟨hhead, ih (Nat.succ.inj hlength) htail⟩)

lemma append_lt_append_left (h : r < r') : l ++ r < l ++ r' := by
  induction l with
  | nil => exact h
  | cons c l ih => exact List.cons_lt_cons_iff.mpr (.inr ⟨rfl, ih⟩)

lemma digits_lt (hb : b < 10 ^ w) (h : a < b) : digits w a < digits w b := by
  induction w generalizing a b with
  | zero =>
    rw [pow_zero] at hb
    omega
  | succ w ih =>
    unfold digits
    by_cases hdiv : a / 10 < b / 10
    · refine append_lt_append ?_ (ih ?_ hdiv)
      · rw [length_digits, length_digits]
      · rw [pow_succ] at hb
        omega
    · have hsame : a / 10 = b / 10 := by omega
      rw [hsame]
      refine append_lt_append_left (List.cons_lt_cons_iff.mpr (.inl ?_))
      exact digitChar_lt (Nat.mod_lt _ (by norm_num)) (by omega)

/-- The less of two fields decides, whatever follows. -/
lemma padded_append_lt (hw : 0 < w) (hb : b < 10 ^ w) (h : a < b) :
    padded w a ++ r < padded w b ++ r' := by
  rw [padded_eq_digits hw (h.trans hb), padded_eq_digits hw hb]
  refine append_lt_append ?_ (digits_lt hb h)
  rw [length_digits, length_digits]

/-- Every character of a field is a digit. -/
lemma isDigit_of_mem_padded {c : Char} (hw : 0 < w) (hn : n < 10 ^ w) (h : c ∈ padded w n) :
    c.isDigit = true := by
  rw [padded_eq_digits hw hn] at h
  clear hn hw
  induction w generalizing n with
  | zero => exact absurd h List.not_mem_nil
  | succ w ih =>
    rcases List.mem_append.mp h with hbefore | hlast
    · exact ih hbefore
    · obtain rfl := List.mem_singleton.mp hlast
      have hlt : n % 10 < 10 := Nat.mod_lt _ (by norm_num)
      interval_cases n % 10 <;> decide

end Decimals
