import MaxSecu.Framework.MerkleTree

/-!
# Audit paths

`audit D ℓ j` has the siblings met on the way from the node at level `ℓ` and index `j` up to the
head, in this order; a node that is promoted has none.  A prover builds such a path from the head
down, by the split of the list: the audit path in one half is followed by the head of the other
(`audit_take`, `audit_drop`).
-/

namespace TreeHash

variable {L H : Type} (T : TreeHash L H)

/-- The siblings of a node and of its ancestors. -/
def audit (D : List L) (ℓ j : ℕ) : List H :=
  if top D ℓ = 0 then []
  else if j % 2 = 1 then T.block D ℓ (j - 1) :: audit D (ℓ + 1) (j / 2)
  else if j < top D ℓ then T.block D ℓ (j + 1) :: audit D (ℓ + 1) (j / 2)
  else audit D (ℓ + 1) (j / 2)
termination_by top D ℓ
decreasing_by
  all_goals
    rw [top_succ]
    omega

variable {D : List L} {ℓ j p : ℕ}

lemma audit_of_top (h : top D ℓ = 0) : T.audit D ℓ j = [] := by
  rw [audit, if_pos h]

lemma audit_of_odd (h : top D ℓ ≠ 0) (hodd : j % 2 = 1) :
    T.audit D ℓ j = T.block D ℓ (j - 1) :: T.audit D (ℓ + 1) (j / 2) := by
  rw [audit, if_neg h, if_pos hodd]

lemma audit_of_even (heven : j % 2 = 0) (hj : j < top D ℓ) :
    T.audit D ℓ j = T.block D ℓ (j + 1) :: T.audit D (ℓ + 1) (j / 2) := by
  rw [audit, if_neg (by omega), if_neg (by omega), if_pos hj]

lemma audit_of_last (h : top D ℓ ≠ 0) (heven : j % 2 = 0) (hj : top D ℓ ≤ j) :
    T.audit D ℓ j = T.audit D (ℓ + 1) (j / 2) := by
  rw [audit, if_neg h, if_neg (by omega), if_neg (by omega)]

/-! ## The split of a list

A list of more than `2 ^ p` and at most `2 ^ (p + 1)` leaves is split after `2 ^ p`. -/

section Split

variable (hlt : 2 ^ p < D.length) (hle : D.length ≤ 2 ^ (p + 1))

include hlt hle

/-- Above the split there are only the two halves. -/
lemma top_split : top D p = 1 := by
  have hpos : 0 < 2 ^ p := by positivity
  rw [top, Nat.div_eq_iff hpos]
  rw [pow_succ] at hle
  omega

lemma top_above_split : top D (p + 1) = 0 := by
  rw [top_succ, top_split hlt hle]

/-- The right half is the block after the left one. -/
lemma block_right : T.block D p 1 = T.root (D.drop (2 ^ p)) := by
  have hlen : (D.drop (2 ^ p)).length ≤ 2 ^ p := by
    rw [List.length_drop]
    rw [pow_succ] at hle
    omega
  rw [block, one_mul, List.take_of_length_le hlen]

end Split

/-- The last index of a level of the left half. -/
lemma top_take (hlt : 2 ^ p < D.length) (hℓ : ℓ ≤ p) :
    top (D.take (2 ^ p)) ℓ + 1 = 2 ^ (p - ℓ) := by
  have hpow : 2 ^ p = 2 ^ (p - ℓ) * 2 ^ ℓ := by rw [← pow_add, Nat.sub_add_cancel hℓ]
  have hpos : 0 < 2 ^ ℓ := by positivity
  have hpos' : 0 < 2 ^ (p - ℓ) := by positivity
  have hquot : (2 ^ p - 1) / 2 ^ ℓ = 2 ^ (p - ℓ) - 1 := by
    rw [Nat.div_eq_iff hpos, Nat.sub_mul, one_mul, ← hpow]
    have hle : 2 ^ ℓ ≤ 2 ^ p := Nat.pow_le_pow_right (by omega) hℓ
    omega
  rw [top, List.length_take, Nat.min_eq_left hlt.le, hquot]
  omega

/-- The last index of a level of the right half. -/
lemma top_drop (hlt : 2 ^ p < D.length) (hℓ : ℓ ≤ p) :
    top D ℓ = 2 ^ (p - ℓ) + top (D.drop (2 ^ p)) ℓ := by
  have hpow : 2 ^ p = 2 ^ ℓ * 2 ^ (p - ℓ) := by rw [← pow_add, Nat.add_sub_cancel' hℓ]
  have hsum : D.length - 1 = 2 ^ ℓ * 2 ^ (p - ℓ) + (D.length - 2 ^ p - 1) := by
    rw [← hpow]
    omega
  rw [top, top, List.length_drop, hsum, Nat.mul_add_div (by positivity)]

/-- A node of the right half is one of the whole list. -/
lemma block_drop (hℓ : ℓ ≤ p) : T.block (D.drop (2 ^ p)) ℓ j = T.block D ℓ (2 ^ (p - ℓ) + j) := by
  have hpow : 2 ^ (p - ℓ) * 2 ^ ℓ = 2 ^ p := by rw [← pow_add, Nat.sub_add_cancel hℓ]
  rw [block, block, List.drop_drop, Nat.add_mul, hpow]

lemma pow_sub_eq_two_mul (hℓ : ℓ < p) : 2 ^ (p - ℓ) = 2 * 2 ^ (p - (ℓ + 1)) := by
  rw [← pow_succ']
  congr 1
  omega

/-- A node of the left half is one of the whole list. -/
lemma block_left (hℓ : ℓ ≤ p) (hj : j < 2 ^ (p - ℓ)) :
    T.block (D.take (2 ^ p)) ℓ j = T.block D ℓ j := by
  have hpow : 2 ^ (p - ℓ) * 2 ^ ℓ = 2 ^ p := by rw [← pow_add, Nat.sub_add_cancel hℓ]
  refine T.block_take ?_
  rw [← hpow]
  exact Nat.mul_le_mul_right _ hj

/-- From the left half, the right one is the last sibling. -/
theorem audit_take (hlt : 2 ^ p < D.length) (hle : D.length ≤ 2 ^ (p + 1)) (hℓ : ℓ ≤ p)
    (hj : j < 2 ^ (p - ℓ)) :
    T.audit D ℓ j = T.audit (D.take (2 ^ p)) ℓ j ++ [T.root (D.drop (2 ^ p))] := by
  induction h : p - ℓ generalizing ℓ j with
  | zero =>
    obtain rfl : ℓ = p := by omega
    obtain rfl : j = 0 := by
      rw [h] at hj
      omega
    have htop := top_take hlt le_rfl
    rw [h] at htop
    have hsplit := top_split hlt hle
    rw [T.audit_of_even rfl (by omega), T.audit_of_top (top_above_split hlt hle),
      T.audit_of_top (by omega), Nat.zero_add, T.block_right hlt hle]
    rfl
  | succ d ih =>
    have htwo := pow_sub_eq_two_mul (ℓ := ℓ) (p := p) (by omega)
    have htop := top_take hlt hℓ
    have htop' := top_drop hlt hℓ
    have hparent := ih (ℓ := ℓ + 1) (j := j / 2) (by omega) (by omega) (by omega)
    by_cases hodd : j % 2 = 1
    · have hwhole : T.audit D ℓ j = _ := T.audit_of_odd (by omega) hodd
      have hhalf : T.audit (D.take (2 ^ p)) ℓ j = _ := T.audit_of_odd (by omega) hodd
      rw [hwhole, hhalf, hparent, T.block_left hℓ (by omega), List.cons_append]
    · have hwhole : T.audit D ℓ j = _ := T.audit_of_even (by omega) (by omega)
      have hhalf : T.audit (D.take (2 ^ p)) ℓ j = _ := T.audit_of_even (by omega) (by omega)
      rw [hwhole, hhalf, hparent, T.block_left hℓ (by omega), List.cons_append]

/-- From the right half, the left one is the last sibling. -/
theorem audit_drop (hlt : 2 ^ p < D.length) (hle : D.length ≤ 2 ^ (p + 1)) (hℓ : ℓ ≤ p)
    (hj : j ≤ top (D.drop (2 ^ p)) ℓ) :
    T.audit D ℓ (2 ^ (p - ℓ) + j) =
      T.audit (D.drop (2 ^ p)) ℓ j ++ [T.root (D.take (2 ^ p))] := by
  induction h : p - ℓ generalizing ℓ j with
  | zero =>
    obtain rfl : ℓ = p := by omega
    have htop := top_drop hlt le_rfl
    have hsplit := top_split hlt hle
    rw [h] at htop
    obtain rfl : j = 0 := by omega
    have hroot : T.block D ℓ 0 = T.root (D.take (2 ^ ℓ)) := by
      rw [block, Nat.zero_mul, List.drop_zero]
    have habove : T.audit D (ℓ + 1) 0 = [] := T.audit_of_top (top_above_split hlt hle)
    have hhalf : T.audit (D.drop (2 ^ ℓ)) ℓ 0 = [] := T.audit_of_top (by omega)
    rw [pow_zero, Nat.add_zero, T.audit_of_odd (by omega) rfl, Nat.sub_self, hroot, hhalf]
    show _ :: T.audit D (ℓ + 1) 0 = _
    rw [habove]
    rfl
  | succ d ih =>
    have htwo := pow_sub_eq_two_mul (ℓ := ℓ) (p := p) (by omega)
    have htop := top_drop hlt hℓ
    have hsucc : top (D.drop (2 ^ p)) (ℓ + 1) = top (D.drop (2 ^ p)) ℓ / 2 := top_succ _ _
    have hparent := ih (ℓ := ℓ + 1) (j := j / 2) (by omega) (by omega) (by omega)
    have hd : p - (ℓ + 1) = d := by omega
    rw [hd] at htwo
    have hpos : 0 < 2 ^ d := by positivity
    have hindex : (2 ^ (p - ℓ) + j) / 2 = 2 ^ d + j / 2 := by omega
    rw [← hindex] at hparent
    rw [← h]
    by_cases hzero : top (D.drop (2 ^ p)) ℓ = 0
    · -- The right half ends here, and is promoted up to the split.
      have hwhole : T.audit D ℓ (2 ^ (p - ℓ) + j) = _ :=
        T.audit_of_last (by omega) (by omega) (by omega)
      have habove : T.audit (D.drop (2 ^ p)) (ℓ + 1) (j / 2) = [] := T.audit_of_top (by omega)
      rw [hwhole, hparent, habove, T.audit_of_top hzero]
    · by_cases hodd : j % 2 = 1
      · have hwhole : T.audit D ℓ (2 ^ (p - ℓ) + j) = _ := T.audit_of_odd (by omega) (by omega)
        have hhalf : T.audit (D.drop (2 ^ p)) ℓ j = _ := T.audit_of_odd hzero hodd
        have hleft : 2 ^ (p - ℓ) + j - 1 = 2 ^ (p - ℓ) + (j - 1) := by omega
        rw [hwhole, hhalf, hparent, T.block_drop hℓ, hleft, List.cons_append]
      · by_cases hlast : j < top (D.drop (2 ^ p)) ℓ
        · have hwhole : T.audit D ℓ (2 ^ (p - ℓ) + j) = _ :=
            T.audit_of_even (by omega) (by omega)
          have hhalf : T.audit (D.drop (2 ^ p)) ℓ j = _ := T.audit_of_even (by omega) hlast
          rw [hwhole, hhalf, hparent, T.block_drop hℓ, Nat.add_assoc, List.cons_append]
        · have hwhole : T.audit D ℓ (2 ^ (p - ℓ) + j) = _ :=
            T.audit_of_last (by omega) (by omega) (by omega)
          have hhalf : T.audit (D.drop (2 ^ p)) ℓ j = _ :=
            T.audit_of_last hzero (by omega) (by omega)
          rw [hwhole, hhalf, hparent]

end TreeHash
