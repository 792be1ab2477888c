import Mathlib.Tactic
import Mathlib.Data.Nat.Log

/-!
# Merkle trees over lists of any length

The tree of a list splits at the largest power of two below its length, so it is unbalanced when
the length is not a power of two.  `root` is its head.

A verifier climbs such a tree level by level and sees only indices.  `block D ℓ j` is the node it
meets at level `ℓ` and index `j`: the head of the leaves `j * 2 ^ ℓ, …, (j + 1) * 2 ^ ℓ - 1`, cut
off at the end of the list.  One climbing step is then one of two equations: a node with a right
sibling is hashed with it (`block_succ_of_lt`), and a last node without one is promoted unchanged
(`block_succ_of_le`).  A complete block does not see what is appended later (`block_take`).
-/

/-- The three hash functions of a Merkle tree: for the empty tree, for a leaf, for a node. -/
structure TreeHash (L H : Type) where
  empty : H
  leaf : L → H
  node : H → H → H

namespace TreeHash

variable {L H : Type} (T : TreeHash L H)

/-! ## The split point and the head -/

/-- The largest power of two below `n`, for `n ≥ 2`. -/
def splitPoint (n : ℕ) : ℕ := 2 ^ Nat.log 2 (n - 1)

lemma splitPoint_pos (n : ℕ) : 0 < splitPoint n := by
  unfold splitPoint
  positivity

lemma splitPoint_lt {n : ℕ} (h : 2 ≤ n) : splitPoint n < n := by
  have hle : 2 ^ Nat.log 2 (n - 1) ≤ n - 1 := Nat.pow_log_le_self 2 (by omega)
  unfold splitPoint
  omega

/-- A power of two below `n` and not below half of it is the split point. -/
lemma splitPoint_eq {n k : ℕ} (hlt : 2 ^ k < n) (hle : n ≤ 2 ^ (k + 1)) : splitPoint n = 2 ^ k := by
  unfold splitPoint
  rw [Nat.log_eq_of_pow_le_of_lt_pow (m := k) (by omega) (by omega)]

/-- The Merkle tree head of a list of leaves. -/
def root : List L → H
  | [] => T.empty
  | [x] => T.leaf x
  | x :: y :: D =>
    T.node (root ((x :: y :: D).take (splitPoint (x :: y :: D).length)))
      (root ((x :: y :: D).drop (splitPoint (x :: y :: D).length)))
termination_by D => D.length
decreasing_by
  · have hlt := splitPoint_lt (n := (x :: y :: D).length) (by simp)
    rw [List.length_take]
    omega
  · have hpos := splitPoint_pos (x :: y :: D).length
    rw [List.length_drop]
    simp only [List.length_cons] at hpos ⊢
    omega

lemma root_singleton (x : L) : T.root [x] = T.leaf x := by
  rw [root]

lemma root_split {D : List L} (h : 2 ≤ D.length) :
    T.root D = T.node (T.root (D.take (splitPoint D.length)))
      (T.root (D.drop (splitPoint D.length))) := by
  match D, h with
  | x :: y :: D, _ => rw [root]

/-! ## Blocks -/

/-- The node at level `ℓ` and index `j`. -/
def block (D : List L) (ℓ j : ℕ) : H :=
  T.root ((D.drop (j * 2 ^ ℓ)).take (2 ^ ℓ))

lemma block_zero {D : List L} {j : ℕ} (h : j < D.length) : T.block D 0 j = T.leaf D[j] := by
  have hone : (D.drop j).take 1 = [D[j]] := by
    rw [List.drop_eq_getElem_cons h, List.take_succ_cons, List.take_zero]
  rw [block, pow_zero, mul_one, hone, root_singleton]

lemma block_eq_root {D : List L} {ℓ : ℕ} (h : D.length ≤ 2 ^ ℓ) : T.block D ℓ 0 = T.root D := by
  rw [block, Nat.zero_mul, List.drop_zero, List.take_of_length_le h]

/-- A complete block is the same in every extension of the list. -/
lemma block_take {D : List L} {ℓ j m : ℕ} (h : (j + 1) * 2 ^ ℓ ≤ m) :
    T.block (D.take m) ℓ j = T.block D ℓ j := by
  have hlen : 2 ^ ℓ ≤ m - j * 2 ^ ℓ := by
    rw [Nat.succ_mul] at h
    omega
  rw [block, block, List.drop_take, List.take_take, Nat.min_eq_left hlen]

/-- A node whose right sibling exists is hashed with it. -/
lemma block_succ_of_lt {D : List L} {ℓ j : ℕ} (h : (2 * j + 1) * 2 ^ ℓ < D.length) :
    T.block D (ℓ + 1) j = T.node (T.block D ℓ (2 * j)) (T.block D ℓ (2 * j + 1)) := by
  have hpow : 2 ^ (ℓ + 1) = 2 ^ ℓ + 2 ^ ℓ := by rw [pow_succ]; omega
  have hstart : j * 2 ^ (ℓ + 1) = 2 * j * 2 ^ ℓ := by rw [pow_succ]; ring
  have hnext : (2 * j + 1) * 2 ^ ℓ = 2 * j * 2 ^ ℓ + 2 ^ ℓ := by ring
  have hpos : 0 < 2 ^ ℓ := by positivity
  -- The leaves under the node: more than one half of a full block, and at most a full one.
  set B := (D.drop (2 * j * 2 ^ ℓ)).take (2 ^ (ℓ + 1)) with hB
  have hlen : B.length = min (2 ^ (ℓ + 1)) (D.length - 2 * j * 2 ^ ℓ) := by
    rw [hB, List.length_take, List.length_drop]
  have hsplit : splitPoint B.length = 2 ^ ℓ := splitPoint_eq (by omega) (by omega)
  have hleft : B.take (2 ^ ℓ) = (D.drop (2 * j * 2 ^ ℓ)).take (2 ^ ℓ) := by
    rw [hB, List.take_take, Nat.min_eq_left (by omega)]
  have hright : B.drop (2 ^ ℓ) = (D.drop ((2 * j + 1) * 2 ^ ℓ)).take (2 ^ ℓ) := by
    rw [hB, List.drop_take, List.drop_drop, ← hnext, hpow, Nat.add_sub_cancel]
  rw [block, hstart, T.root_split (D := B) (by omega), hsplit, hleft, hright]
  rfl

/-- A last node without a right sibling is promoted. -/
lemma block_succ_of_le {D : List L} {ℓ j : ℕ} (h : D.length ≤ (2 * j + 1) * 2 ^ ℓ) :
    T.block D (ℓ + 1) j = T.block D ℓ (2 * j) := by
  have hstart : j * 2 ^ (ℓ + 1) = 2 * j * 2 ^ ℓ := by rw [pow_succ]; ring
  have hnext : (2 * j + 1) * 2 ^ ℓ = 2 * j * 2 ^ ℓ + 2 ^ ℓ := by ring
  have hpow : 2 ^ (ℓ + 1) = 2 ^ ℓ + 2 ^ ℓ := by rw [pow_succ]; omega
  have hpos : 0 < 2 ^ ℓ := by positivity
  have hshort : (D.drop (2 * j * 2 ^ ℓ)).length ≤ 2 ^ ℓ := by
    rw [List.length_drop]
    omega
  rw [block, block, hstart, List.take_of_length_le hshort, List.take_of_length_le (by omega)]

/-! ## Climbing from an index

`top D ℓ` is the last index at level `ℓ`.  Halving an index climbs to its parent, and whether the
index is odd, even before the top, or the even top decides how the parent is hashed. -/

/-- The last index at level `ℓ`. -/
def top (D : List L) (ℓ : ℕ) : ℕ := (D.length - 1) / 2 ^ ℓ

lemma top_zero (D : List L) : top D 0 = D.length - 1 := by
  rw [top, pow_zero, Nat.div_one]

lemma top_succ (D : List L) (ℓ : ℕ) : top D (ℓ + 1) = top D ℓ / 2 := by
  rw [top, top, Nat.div_div_eq_div_mul, pow_succ]

lemma le_top_iff {D : List L} (hD : D ≠ []) {ℓ j : ℕ} : j ≤ top D ℓ ↔ j * 2 ^ ℓ < D.length := by
  have hpos := List.length_pos_iff.mpr hD
  rw [top, Nat.le_div_iff_mul_le (by positivity)]
  omega

lemma block_eq_root_of_top {D : List L} (hD : D ≠ []) {ℓ : ℕ} (h : top D ℓ = 0) :
    T.block D ℓ 0 = T.root D := by
  apply T.block_eq_root
  by_contra hlt
  have hone : 1 ≤ top D ℓ := (le_top_iff hD).mpr (by omega)
  omega

/-- The parent of a right child. -/
lemma block_parent_of_odd {D : List L} (hD : D ≠ []) {ℓ j : ℕ} (hodd : j % 2 = 1)
    (hj : j ≤ top D ℓ) :
    T.block D (ℓ + 1) (j / 2) = T.node (T.block D ℓ (j - 1)) (T.block D ℓ j) := by
  have hleft : 2 * (j / 2) = j - 1 := by omega
  have hright : 2 * (j / 2) + 1 = j := by omega
  have hlt : (2 * (j / 2) + 1) * 2 ^ ℓ < D.length := by
    rw [hright]
    exact (le_top_iff hD).mp hj
  rw [T.block_succ_of_lt hlt, hright, hleft]

/-- The parent of a left child that has a right sibling. -/
lemma block_parent_of_even {D : List L} (hD : D ≠ []) {ℓ j : ℕ} (heven : j % 2 = 0)
    (hj : j < top D ℓ) :
    T.block D (ℓ + 1) (j / 2) = T.node (T.block D ℓ j) (T.block D ℓ (j + 1)) := by
  have hleft : 2 * (j / 2) = j := by omega
  have hlt : (2 * (j / 2) + 1) * 2 ^ ℓ < D.length := by
    rw [hleft]
    exact (le_top_iff hD).mp hj
  rw [T.block_succ_of_lt hlt, hleft]

/-- The parent of the last node, when that is a left child. -/
lemma block_parent_of_top {D : List L} (hD : D ≠ []) {ℓ : ℕ} (heven : top D ℓ % 2 = 0) :
    T.block D (ℓ + 1) (top D ℓ / 2) = T.block D ℓ (top D ℓ) := by
  have hleft : 2 * (top D ℓ / 2) = top D ℓ := by omega
  have hle : D.length ≤ (2 * (top D ℓ / 2) + 1) * 2 ^ ℓ := by
    rw [hleft]
    by_contra hlt
    have hsucc : top D ℓ + 1 ≤ top D ℓ := (le_top_iff hD).mpr (by omega)
    omega
  rw [T.block_succ_of_le hle, hleft]

/-! ## Interior nodes -/

/-- Two hashes that stand side by side in the tree of `D`. -/
def Siblings (D : List L) (l r : H) : Prop :=
  ∃ ℓ j, (2 * j + 1) * 2 ^ ℓ < D.length ∧ T.block D ℓ (2 * j) = l ∧ T.block D ℓ (2 * j + 1) = r

/-- No other pair of hashes goes under an interior node of the tree of `D`. -/
def Binding (D : List L) : Prop :=
  ∀ a b l r, T.Siblings D l r → T.node a b = T.node l r → a = l ∧ b = r

lemma binding_of_injective (h : ∀ a b c d, T.node a b = T.node c d → a = c ∧ b = d)
    (D : List L) : T.Binding D :=
  fun a b l r _ heq => h a b l r heq

lemma siblings_of_odd {D : List L} (hD : D ≠ []) {ℓ j : ℕ} (hodd : j % 2 = 1)
    (hj : j ≤ top D ℓ) : T.Siblings D (T.block D ℓ (j - 1)) (T.block D ℓ j) := by
  have hleft : 2 * (j / 2) = j - 1 := by omega
  have hright : 2 * (j / 2) + 1 = j := by omega
  refine ⟨ℓ, j / 2, ?_, by rw [hleft], by rw [hright]⟩
  rw [hright]
  exact (le_top_iff hD).mp hj

lemma siblings_of_even {D : List L} (hD : D ≠ []) {ℓ j : ℕ} (heven : j % 2 = 0)
    (hj : j < top D ℓ) : T.Siblings D (T.block D ℓ j) (T.block D ℓ (j + 1)) := by
  have hleft : 2 * (j / 2) = j := by omega
  refine ⟨ℓ, j / 2, ?_, by rw [hleft], by rw [hleft]⟩
  rw [hleft]
  exact (le_top_iff hD).mp hj

end TreeHash
