import MaxSecu.Crypto.Merkle

/-!
# Merkle proofs

The prover of the transparency logs.  It walks the tree down, by the split of the list; the verifiers
walk it up on indices.  An inclusion proof is the audit path of the leaf.  A consistency proof is the
audit path, in the larger tree, of the last node of the smaller tree that is a complete block, with
that node in front where the verifier does not have it.  So every proof made is accepted
(`verifyInclusion_complete`, `verifyConsistency_complete`).  This needs nothing of the hash.
-/

namespace MaxSecu

open TreeHash

variable {L H : Type}

/-! ## The prover -/

lemma largestPow2Below_pos {n : ℕ} (h : ¬ n ≤ 1) : 0 < largestPow2Below n := by
  rw [largestPow2Below_eq (by omega)]
  exact splitPoint_pos n

lemma largestPow2Below_lt {n : ℕ} (h : ¬ n ≤ 1) : largestPow2Below n < n := by
  rw [largestPow2Below_eq (by omega)]
  exact splitPoint_lt (by omega)

lemma lt_length_take {leaves : List L} {k index : ℕ} (hk : k < leaves.length) (h : index < k) :
    index < (leaves.take k).length := by
  rw [List.length_take]
  omega

lemma sub_lt_length_drop {leaves : List L} {k index : ℕ} (hk : ¬ index < k)
    (h : index < leaves.length) : index - k < (leaves.drop k).length := by
  rw [List.length_drop]
  omega

/-- The audit path of the `index`-th leaf; the index has to be in range. -/
def inclusionPath (T : TreeHash L H) (index : ℕ) (leaves : List L) (h : index < leaves.length) :
    List H :=
  if hn : leaves.length ≤ 1 then []
  else if hk : index < largestPow2Below leaves.length then
    inclusionPath T index (leaves.take (largestPow2Below leaves.length))
        (lt_length_take (largestPow2Below_lt hn) hk) ++
      [merkleRoot T (leaves.drop (largestPow2Below leaves.length))]
  else
    inclusionPath T (index - largestPow2Below leaves.length)
        (leaves.drop (largestPow2Below leaves.length)) (sub_lt_length_drop hk h) ++
      [merkleRoot T (leaves.take (largestPow2Below leaves.length))]
termination_by leaves.length
decreasing_by
  · have hlt := largestPow2Below_lt hn
    rw [List.length_take]
    omega
  · have hpos := largestPow2Below_pos hn
    rw [List.length_drop]
    omega

lemma not_length_le_one {d : List L} {m : ℕ} (hm : 0 < m) (hle : m ≤ d.length)
    (hne : m ≠ d.length) : ¬ d.length ≤ 1 := by
  omega

lemma le_length_take {d : List L} {m : ℕ} (hn : ¬ d.length ≤ 1)
    (h : m ≤ largestPow2Below d.length) :
    m ≤ (d.take (largestPow2Below d.length)).length := by
  have hlt := largestPow2Below_lt hn
  rw [List.length_take]
  omega

lemma sub_le_length_drop {d : List L} {m : ℕ} (hle : m ≤ d.length) :
    m - largestPow2Below d.length ≤ (d.drop (largestPow2Below d.length)).length := by
  rw [List.length_drop]
  omega

/-- The consistency proof in a subtree.  The flag says whether the verifier has the head of the first
`m` leaves. -/
def consistencySubproof (T : TreeHash L H) (m : ℕ) (d : List L) (b : Bool) (hm : 0 < m)
    (hle : m ≤ d.length) : List H :=
  if hne : m = d.length then
    if b then [] else [merkleRoot T d]
  else if hk : m ≤ largestPow2Below d.length then
    consistencySubproof T m (d.take (largestPow2Below d.length)) b hm
        (le_length_take (not_length_le_one hm hle hne) hk) ++
      [merkleRoot T (d.drop (largestPow2Below d.length))]
  else
    consistencySubproof T (m - largestPow2Below d.length) (d.drop (largestPow2Below d.length)) false
        (Nat.sub_pos_of_lt (not_le.mp hk)) (sub_le_length_drop hle) ++
      [merkleRoot T (d.take (largestPow2Below d.length))]
termination_by d.length
decreasing_by
  · have hlt := largestPow2Below_lt (not_length_le_one hm hle hne)
    rw [List.length_take]
    omega
  · have hpos := largestPow2Below_pos (not_length_le_one hm hle hne)
    rw [List.length_drop]
    omega

lemma sizes_of_not {leaves : List L} {m n : ℕ} (h : ¬ (m = 0 ∨ m > n)) (hn : n ≤ leaves.length) :
    0 < m ∧ m ≤ (leaves.take n).length := by
  rw [List.length_take]
  omega

/-- The consistency proof between the sizes `m` and `n`. -/
def consistencyPath (T : TreeHash L H) (leaves : List L) (m n : ℕ) (hn : n ≤ leaves.length) :
    List H :=
  if h : m = 0 ∨ m > n then []
  else consistencySubproof T m (leaves.take n) true (sizes_of_not h hn).1 (sizes_of_not h hn).2

/-! ## Proofs as audit paths -/

variable {T : TreeHash L H}

lemma largestPow2Below_eq_pow {n : ℕ} (h : ¬ n ≤ 1) :
    ∃ p, largestPow2Below n = 2 ^ p ∧ 2 ^ p < n ∧ n ≤ 2 ^ (p + 1) := by
  refine ⟨Nat.log 2 (n - 1), largestPow2Below_eq (by omega), splitPoint_lt (by omega), ?_⟩
  have hlt := Nat.lt_pow_succ_log_self (b := 2) (by omega) (n - 1)
  omega

lemma inclusionPath_eq {index : ℕ} {leaves : List L} (h : index < leaves.length) :
    inclusionPath T index leaves h = T.audit leaves 0 index := by
  induction hlen : leaves.length using Nat.strong_induction_on generalizing index leaves with
  | _ n ih =>
    unfold inclusionPath
    by_cases hn : leaves.length ≤ 1
    · have htop : top leaves 0 = 0 := by
        rw [top_zero]
        omega
      rw [dif_pos hn, T.audit_of_top htop]
    · obtain ⟨p, hp, hlt, hle⟩ := largestPow2Below_eq_pow hn
      have hpos : 0 < 2 ^ p := by positivity
      rw [dif_neg hn]
      simp only [hp]
      by_cases hk : index < 2 ^ p
      · rw [dif_pos hk, merkleRoot_eq_root, T.audit_take hlt hle (Nat.zero_le p) hk]
        congr 1
        exact ih _ (by rw [List.length_take]; omega) _ rfl
      · have hindex : 2 ^ (p - 0) + (index - 2 ^ p) = index := by
          rw [Nat.sub_zero]
          omega
        have hin : index - 2 ^ p ≤ top (leaves.drop (2 ^ p)) 0 := by
          rw [top_zero, List.length_drop]
          omega
        have hdrop := T.audit_drop hlt hle (Nat.zero_le p) hin
        rw [hindex] at hdrop
        rw [dif_neg hk, merkleRoot_eq_root, hdrop]
        congr 1
        exact ih _ (by rw [List.length_drop]; omega) _ rfl

lemma eq_zero_of_mul_pow {e ℓ q : ℕ} (h : (e + 1) * 2 ^ ℓ = 2 ^ q) (heven : e % 2 = 0) :
    e = 0 ∧ ℓ = q := by
  obtain ⟨k, _, hk⟩ := (Nat.dvd_prime_pow Nat.prime_two).mp (Dvd.intro _ h)
  have hzero : k = 0 := by
    by_contra hne
    have htwo : 2 ∣ e + 1 := by
      rw [hk]
      exact dvd_pow_self 2 hne
    omega
  rw [hzero, pow_zero] at hk
  obtain rfl : e = 0 := by omega
  rw [Nat.zero_add, one_mul] at h
  exact ⟨rfl, Nat.pow_right_injective le_rfl h⟩

lemma exists_add_of_mul_pow {e ℓ p m : ℕ} (h : (e + 1) * 2 ^ ℓ = m) (heven : e % 2 = 0)
    (hlt : 2 ^ p < m) (hle : m < 2 ^ (p + 1)) :
    ℓ ≤ p ∧ ∃ e', e = 2 ^ (p - ℓ) + e' ∧ e' % 2 = 0 ∧ (e' + 1) * 2 ^ ℓ = m - 2 ^ p := by
  have hℓ : ℓ < p := by
    by_contra hge
    have hpow : 2 ^ ℓ = 2 ^ (ℓ - p) * 2 ^ p := by rw [← pow_add, Nat.sub_add_cancel (by omega)]
    have hmul : m = (e + 1) * 2 ^ (ℓ - p) * 2 ^ p := by rw [← h, hpow, mul_assoc]
    have hone : 1 < (e + 1) * 2 ^ (ℓ - p) := by
      refine Nat.lt_of_mul_lt_mul_right (a := 2 ^ p) ?_
      omega
    have htwo : (e + 1) * 2 ^ (ℓ - p) < 2 := by
      refine Nat.lt_of_mul_lt_mul_right (a := 2 ^ p) ?_
      rw [pow_succ] at hle
      omega
    omega
  have hpow : 2 ^ (p - ℓ) * 2 ^ ℓ = 2 ^ p := by rw [← pow_add, Nat.sub_add_cancel hℓ.le]
  have hle' : 2 ^ (p - ℓ) < e + 1 := by
    refine Nat.lt_of_mul_lt_mul_right (a := 2 ^ ℓ) ?_
    omega
  have htwo := pow_sub_eq_two_mul hℓ
  refine ⟨hℓ.le, e - 2 ^ (p - ℓ), by omega, by omega, ?_⟩
  have hsub : e - 2 ^ (p - ℓ) + 1 = e + 1 - 2 ^ (p - ℓ) := by omega
  rw [hsub, Nat.sub_mul, h, hpow]

/-- The prover's consistency proof is the audit path of the smaller tree's last complete block. -/
lemma consistencySubproof_eq {m ℓ e : ℕ} {d : List L} {b : Bool} (hm : 0 < m) (hle : m ≤ d.length)
    (hsize : m < d.length ∨ ∃ q, d.length = 2 ^ q) (hcomplete : (e + 1) * 2 ^ ℓ = m)
    (heven : e % 2 = 0) :
    consistencySubproof T m d b hm hle =
      (if b = true ∧ e = 0 then [] else [T.block d ℓ e]) ++ T.audit d ℓ e := by
  induction hlen : d.length using Nat.strong_induction_on generalizing m e d b with
  | _ n ih =>
    unfold consistencySubproof
    by_cases hne : m = d.length
    · obtain ⟨q, hq⟩ := hsize.resolve_left (by omega)
      obtain ⟨rfl, rfl⟩ := eq_zero_of_mul_pow (hcomplete.trans (hne.trans hq)) heven
      have htop : top d ℓ = 0 := by
        rw [top, hq]
        have hpos : 0 < 2 ^ ℓ := by positivity
        exact Nat.div_eq_of_lt (by omega)
      rw [dif_pos hne, T.audit_of_top htop, T.block_eq_root hq.le, merkleRoot_eq_root]
      cases b with
      | false => rfl
      | true => rfl
    · obtain ⟨p, hp, hlt, hle'⟩ := largestPow2Below_eq_pow (not_length_le_one hm hle hne)
      rw [dif_neg hne]
      simp only [hp]
      by_cases hk : m ≤ 2 ^ p
      · have hℓ : ℓ ≤ p := by
          have hle₂ : 2 ^ ℓ ≤ 2 ^ p := (Nat.le_mul_of_pos_left _ e.succ_pos).trans
            (hcomplete.trans_le hk)
          exact (Nat.pow_le_pow_iff_right (by omega)).mp hle₂
        have he : e < 2 ^ (p - ℓ) := by
          have hpow : 2 ^ (p - ℓ) * 2 ^ ℓ = 2 ^ p := by rw [← pow_add, Nat.sub_add_cancel hℓ]
          have hmul : (e + 1) * 2 ^ ℓ ≤ 2 ^ (p - ℓ) * 2 ^ ℓ := by omega
          exact Nat.le_of_mul_le_mul_right hmul (by positivity)
        have hlen' : (d.take (2 ^ p)).length = 2 ^ p := List.length_take_of_le hlt.le
        have hhalf := ih (2 ^ p) (by omega) hm (by omega) (.inr ⟨p, hlen'⟩) hcomplete heven hlen'
          (b := b)
        rw [dif_pos hk, hhalf, T.block_left hℓ he, T.audit_take hlt hle' hℓ he, merkleRoot_eq_root,
          List.append_assoc]
      · have hlen' : (d.drop (2 ^ p)).length = d.length - 2 ^ p := List.length_drop
        have hpos : 0 < 2 ^ p := by positivity
        obtain ⟨hℓ, e', rfl, heven', hcomplete'⟩ :=
          exists_add_of_mul_pow (p := p) hcomplete heven (by omega) (by omega)
        have hhalf := ih (d.length - 2 ^ p) (by omega) (by omega) (by omega)
          (.inl (by omega)) hcomplete' heven' hlen' (b := false)
        have htop : e' ≤ top (d.drop (2 ^ p)) ℓ := by
          refine (le_top_iff (List.length_pos_iff.mp (by omega))).mpr ?_
          have hsucc : e' * 2 ^ ℓ < (e' + 1) * 2 ^ ℓ := by
            rw [Nat.succ_mul]
            have hone : 0 < 2 ^ ℓ := by positivity
            omega
          omega
        have hother : ¬ (b = true ∧ 2 ^ (p - ℓ) + e' = 0) := by
          have hone : 0 < 2 ^ (p - ℓ) := by positivity
          omega
        rw [dif_neg hk, hhalf, if_neg (by simp), if_neg hother, T.block_drop hℓ,
          T.audit_drop hlt hle' hℓ htop, merkleRoot_eq_root, List.append_assoc]

/-! ## Completeness -/

variable [DecidableEq H]

lemma inclusionLoop_complete {D : List L} (hD : D ≠ []) {ℓ j : ℕ} (hj : j ≤ top D ℓ) :
    inclusionLoop T (T.root D) (T.audit D ℓ j) j (top D ℓ) (T.block D ℓ j) = true := by
  induction h : top D ℓ using Nat.strong_induction_on generalizing ℓ j with
  | _ d ih =>
    have hsucc : top D (ℓ + 1) = d / 2 := by rw [top_succ, h]
    by_cases hzero : d = 0
    · obtain rfl : j = 0 := by omega
      rw [T.audit_of_top (h.trans hzero), T.block_eq_root_of_top hD (h.trans hzero)]
      simp [inclusionLoop, hzero]
    by_cases hodd : j % 2 = 1
    · rw [T.audit_of_odd (by omega) hodd, inclusionLoop, if_neg hzero, if_pos (.inl hodd)]
      simp only [if_neg (show ¬ j % 2 = 0 by omega)]
      rw [← T.block_parent_of_odd hD hodd hj]
      exact ih (d / 2) (by omega) (by omega) hsucc
    by_cases hlast : j < top D ℓ
    · rw [T.audit_of_even (by omega) hlast, inclusionLoop, if_neg hzero, if_neg (by omega),
        ← T.block_parent_of_even hD (by omega) hlast]
      exact ih (d / 2) (by omega) (by omega) hsucc
    · -- The last node, promoted up to where it is a right child.
      obtain rfl : j = top D ℓ := by omega
      obtain ⟨ℓ', hclimb, hodd', hle, hblock, haudit⟩ :=
        climbToOdd_spec (T := T) hD (ℓ := ℓ) (by omega)
      have heven : d % 2 = 0 := by omega
      have hsucc' : top D (ℓ' + 1) = top D ℓ' / 2 := top_succ D ℓ'
      rw [h] at hclimb
      rw [haudit, T.audit_of_odd (by omega) hodd', inclusionLoop, if_neg hzero, if_pos (.inr h), h]
      simp only [heven, if_true, hclimb]
      rw [← h, ← hblock, ← T.block_parent_of_odd hD hodd' le_rfl]
      exact ih (top D ℓ' / 2) (by omega) (by omega) hsucc'

/-- **Inclusion is complete.** -/
theorem verifyInclusion_complete {leaves : List L} {index : ℕ} (h : index < leaves.length) :
    verifyInclusion T leaves[index] index leaves.length (inclusionPath T index leaves h)
      (merkleRoot T leaves) = true := by
  have hD : leaves ≠ [] := List.length_pos_iff.mp (by omega)
  have htop : top leaves 0 = leaves.length - 1 := top_zero leaves
  have hloop := inclusionLoop_complete (T := T) hD (ℓ := 0) (j := index) (by omega)
  rw [htop, T.block_zero h] at hloop
  rw [verifyInclusion, if_neg (by omega), inclusionPath_eq, merkleRoot_eq_root]
  exact hloop

/-- **Inclusion is exact.**  Under the head of `D`, what is accepted is a leaf of `D` at its own
index, with the prover's path. -/
theorem verifyInclusion_exact (hnode : ∀ a b c d, T.node a b = T.node c d → a = c ∧ b = d)
    (hleaf : Function.Injective T.leaf) {D : List L} {leaf : L} {index : ℕ} {path : List H}
    (h : verifyInclusion T leaf index D.length path (merkleRoot T D) = true) :
    ∃ hlt : index < D.length, leaf = D[index] ∧ path = inclusionPath T index D hlt := by
  rw [verifyInclusion] at h
  by_cases hindex : index ≥ D.length
  · rw [if_pos hindex] at h
    cases h
  have hlt : index < D.length := by omega
  have hD : D ≠ [] := List.length_pos_iff.mp (by omega)
  rw [if_neg hindex, merkleRoot_eq_root, ← top_zero] at h
  obtain ⟨hblock, hpath⟩ := inclusionLoop_sound hnode hD (by rw [top_zero]; omega) h
  rw [T.block_zero hlt] at hblock
  exact ⟨hlt, hleaf hblock, by rw [inclusionPath_eq, hpath]⟩

/-- Hash values that name what was hashed. -/
inductive NamedHash
  | empty
  | leaf (value : ℕ)
  | node (left right : NamedHash)
  deriving DecidableEq

/-- The hash that forgets nothing. -/
def namedTree : TreeHash ℕ NamedHash := ⟨.empty, .leaf, .node⟩

/-- The last of three leaves, whose path is shorter than those of the others. -/
theorem verifyInclusion_exact_threeLeaves :
    ∃ hlt : 2 < [5, 6, 7].length, 7 = [5, 6, 7][2] ∧
      [.node (.leaf 5) (.leaf 6)] = inclusionPath namedTree 2 [5, 6, 7] hlt := by
  have hverify : verifyInclusion namedTree 7 2 [5, 6, 7].length [.node (.leaf 5) (.leaf 6)]
      (merkleRoot namedTree [5, 6, 7]) = true := by decide +kernel
  apply verifyInclusion_exact _ _ hverify
  · intro a b c d heq
    exact NamedHash.node.inj heq
  · intro a b heq
    exact NamedHash.leaf.inj heq

omit [DecidableEq H] in
lemma climbRest_complete {D : List L} (hD : D ≠ []) {ℓ : ℕ} :
    climbRest T (top D ℓ) (T.block D ℓ 0) (T.audit D ℓ 0) = some (T.root D, []) := by
  induction h : top D ℓ using Nat.strong_induction_on generalizing ℓ with
  | _ d ih =>
    have hsucc : top D (ℓ + 1) = d / 2 := by rw [top_succ, h]
    unfold climbRest
    by_cases hzero : d = 0
    · rw [if_pos hzero, T.audit_of_top (h.trans hzero), T.block_eq_root_of_top hD (h.trans hzero)]
    · have hlast : 0 < top D ℓ := by omega
      have hparent := T.block_parent_of_even hD rfl hlast
      rw [if_neg hzero, T.audit_of_even rfl hlast]
      simp only
      rw [← hparent]
      exact ih (d / 2) (by omega) hsucc

omit [DecidableEq H] in
lemma climbShared_complete {D E : List L} (hE : E ≠ []) (hextends : E <+: D) {ℓ : ℕ} :
    ∃ ℓ', climbShared T (top E ℓ) (top D ℓ) (T.block E ℓ (top E ℓ)) (T.block D ℓ (top E ℓ))
      (T.audit D ℓ (top E ℓ)) =
        some (top D ℓ', T.root E, T.block D ℓ' 0, T.audit D ℓ' 0) := by
  have hle := hextends.length_le
  have hD : D ≠ [] := fun hnil => hE (by simpa [hnil] using hextends)
  induction h : top E ℓ using Nat.strong_induction_on generalizing ℓ with
  | _ e ih =>
    have htops : e ≤ top D ℓ := by
      rw [← h]
      exact Nat.div_le_div_right (by omega)
    have hsucc : top E (ℓ + 1) = e / 2 := by rw [top_succ, h]
    unfold climbShared
    by_cases hzero : e = 0
    · refine ⟨ℓ, ?_⟩
      rw [if_pos hzero, hzero, T.block_eq_root_of_top hE (h.trans hzero)]
    obtain ⟨ℓ', hparent⟩ := ih (e / 2) (by omega) hsucc
    rw [top_succ] at hparent
    refine ⟨ℓ', ?_⟩
    rw [if_neg hzero]
    by_cases hodd : e % 2 = 1
    · -- The left sibling is a complete block, so the two trees share it.
      have hcomplete : (e - 1 + 1) * 2 ^ ℓ ≤ E.length := by
        rw [Nat.sub_add_cancel (by omega)]
        exact ((le_top_iff hE).mp h.ge).le
      have hshare : T.block E ℓ (e - 1) = T.block D ℓ (e - 1) := by
        rw [List.prefix_iff_eq_take.mp hextends]
        exact T.block_take hcomplete
      rw [if_pos hodd, T.audit_of_odd (by omega) hodd]
      simp only
      rw [← T.block_parent_of_odd hD hodd htops, ← hshare, ← T.block_parent_of_odd hE hodd h.ge]
      exact hparent
    have hpromote : T.block E (ℓ + 1) (e / 2) = T.block E ℓ e := by
      rw [← h]
      exact T.block_parent_of_top hE (by omega)
    rw [if_neg hodd, ← hpromote]
    by_cases hlt : e < top D ℓ
    · rw [if_pos hlt, T.audit_of_even (by omega) hlt]
      simp only
      rw [← T.block_parent_of_even hD (by omega) hlt]
      exact hparent
    · obtain rfl : e = top D ℓ := by omega
      rw [if_neg hlt, T.audit_of_last hzero (by omega) le_rfl,
        ← T.block_parent_of_top hD (by omega)]
      exact hparent

omit [DecidableEq H] in
lemma consistencyPath_zero {leaves : List L} {n : ℕ} (hn : n ≤ leaves.length) :
    consistencyPath T leaves 0 n hn = [] := by
  rw [consistencyPath, dif_pos (.inl rfl)]

omit [DecidableEq H] in
lemma consistencyPath_self (leaves : List L) :
    consistencyPath T leaves leaves.length leaves.length le_rfl = [] := by
  unfold consistencyPath
  by_cases hzero : leaves.length = 0 ∨ leaves.length > leaves.length
  · rw [dif_pos hzero]
  · rw [dif_neg hzero, consistencySubproof, dif_pos (by rw [List.take_length])]
    rfl

/-- **Consistency is complete.** -/
theorem verifyConsistency_complete {leaves : List L} {m : ℕ} (h : m ≤ leaves.length) :
    verifyConsistency T m (merkleRoot T (leaves.take m)) leaves.length (merkleRoot T leaves)
      (consistencyPath T leaves m leaves.length le_rfl) = true := by
  unfold verifyConsistency
  rw [if_neg (by omega)]
  by_cases hsame : m = leaves.length
  · subst hsame
    rw [if_pos rfl, consistencyPath_self, List.take_length]
    simp
  rw [if_neg hsame]
  by_cases hzero : m = 0
  · subst hzero
    rw [if_pos rfl, consistencyPath_zero]
    rfl
  have hlen : (leaves.take m).length = m := List.length_take_of_le h
  have hE : leaves.take m ≠ [] := List.length_pos_iff.mp (by omega)
  have hD : leaves ≠ [] := List.length_pos_iff.mp (by omega)
  obtain ⟨ℓ, hedge, hcomplete, heven⟩ := climbRightEdge_spec (D := leaves) hE
  rw [hlen] at hedge hcomplete
  -- The block that both walks start at, in the larger tree and in the smaller one.
  have hstart : T.block (leaves.take m) ℓ (top (leaves.take m) ℓ) =
      T.block leaves ℓ (top (leaves.take m) ℓ) := T.block_take hcomplete.le
  have hproof : consistencyPath T leaves m leaves.length le_rfl =
      (if top (leaves.take m) ℓ = 0 then []
        else [T.block leaves ℓ (top (leaves.take m) ℓ)]) ++
        T.audit leaves ℓ (top (leaves.take m) ℓ) := by
    rw [consistencyPath, dif_neg (by omega), consistencySubproof_eq _ _
      (.inl (by rw [List.take_length]; omega)) hcomplete heven, List.take_length]
    simp
  obtain ⟨ℓ', hshared⟩ := climbShared_complete (T := T) hE (List.take_prefix m leaves) (ℓ := ℓ)
  have hrest := climbRest_complete (T := T) hD (ℓ := ℓ')
  rw [if_neg hzero, hproof, hedge]
  by_cases hpower : top (leaves.take m) ℓ = 0
  · -- The smaller tree is one block, and its head is not sent.
    have hinner : 0 < top leaves ℓ := by
      rw [hpower, Nat.zero_add] at hcomplete
      refine (le_top_iff hD).mpr ?_
      omega
    have hroot := T.block_eq_root_of_top hE hpower
    rw [hpower] at hshared hstart ⊢
    rw [if_pos rfl, List.nil_append]
    rw [← hstart, hroot] at hshared
    have haudit := T.audit_of_even (j := 0) rfl hinner
    rw [haudit] at hshared ⊢
    simp only [gt_iff_lt, lt_self_iff_false, if_false, merkleRoot_eq_root, hshared, hrest]
    simp
  · rw [if_neg hpower, List.singleton_append]
    simp only [Nat.pos_of_ne_zero hpower, if_true]
    rw [hstart] at hshared
    simp only [hshared, hrest, merkleRoot_eq_root]
    simp

omit [DecidableEq H] in
lemma consistencyPath_take {leaves : List L} {m n : ℕ} (hn : n ≤ leaves.length) :
    consistencyPath T leaves m n hn =
      consistencyPath T (leaves.take n) m (leaves.take n).length le_rfl := by
  have hlen : (leaves.take n).length = n := List.length_take_of_le hn
  unfold consistencyPath
  by_cases h : m = 0 ∨ m > n
  · rw [dif_pos h, dif_pos (by rw [hlen]; exact h)]
  · rw [dif_neg h, dif_neg (by rw [hlen]; exact h)]
    simp only [List.take_length]

/-- **The verifiers accept what the provers make**: every audit path, and every consistency proof
between two sizes. -/
theorem proofs_accepted (T : TreeHash L H) (leaves : List L) :
    (∀ (index : ℕ) (h : index < leaves.length),
      verifyInclusion T leaves[index] index leaves.length (inclusionPath T index leaves h)
        (merkleRoot T leaves) = true) ∧
    ∀ (m n : ℕ) (hn : n ≤ leaves.length), m ≤ n →
      verifyConsistency T m (merkleRoot T (leaves.take m)) n (merkleRoot T (leaves.take n))
        (consistencyPath T leaves m n hn) = true := by
  refine ⟨fun index h => verifyInclusion_complete h, ?_⟩
  intro m n hn hm
  have hlen : (leaves.take n).length = n := List.length_take_of_le hn
  have hm' : m ≤ (leaves.take n).length := by
    rw [hlen]
    exact hm
  have hcomplete := verifyConsistency_complete (T := T) hm'
  rw [← consistencyPath_take hn, hlen, List.take_take, min_eq_left hm] at hcomplete
  exact hcomplete

end MaxSecu
