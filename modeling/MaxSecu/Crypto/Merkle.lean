import MaxSecu.Framework.AuditPath
import MaxSecu.Crypto.Primitives

/-!
# Merkle inclusion and consistency verification

The two verifiers of the transparency log and the head they verify against, over any tree hash; the
program's own is `rfc6962`, SHA-256 with a prefix byte for leaves and another for nodes.

Both verifiers walk the tree upwards on indices alone, so a proof supplies hash values and never the
shape of the walk.  If node hashing is injective, an accepted walk that ends in the head of `D` only
met nodes of the tree of `D` (`inclusionLoop_sound`, `climbShared_sound`): reading the walk
backwards from the head, each node hash determines the running hash and the sibling below it.  For
consistency it is enough that no second pair of hashes goes under an interior node of that tree.
-/

namespace MaxSecu

open TreeHash

/-! ## Hashing -/

section Hashing

variable [Sha256]

def leafHash (x : List UInt8) : Bytes 32 := sha256 (0x00 :: x)

def nodeHash (l r : Bytes 32) : Bytes 32 := sha256 (0x01 :: (l.toList ++ r.toList))

/-- The tree hash of the program. -/
def rfc6962 : TreeHash (List UInt8) (Bytes 32) where
  empty := sha256 []
  leaf := leafHash
  node := nodeHash

end Hashing

variable {L H : Type}

/-! ## The head -/

/-- The doubling loop of `largestPow2Below`. -/
def doubleBelow (n k : ℕ) (hk : 0 < k) : ℕ :=
  if k * 2 < n then doubleBelow n (k * 2) (by omega) else k
termination_by n - k

/-- Largest power of two strictly below `n`. -/
def largestPow2Below (n : ℕ) : ℕ := doubleBelow n 1 Nat.one_pos

lemma doubleBelow_eq {n k : ℕ} (hlt : 2 ^ k < n) (hk : 0 < 2 ^ k) :
    doubleBelow n (2 ^ k) hk = splitPoint n := by
  induction h : n - 2 ^ k using Nat.strong_induction_on generalizing k with
  | _ d ih =>
    have hpow : 2 ^ k * 2 = 2 ^ (k + 1) := (pow_succ 2 k).symm
    rw [doubleBelow]
    by_cases hnext : 2 ^ k * 2 < n
    · simp only [hnext, if_true]
      rw [hpow] at hnext
      simp only [hpow]
      exact ih (n - 2 ^ (k + 1)) (by omega) hnext (by positivity) rfl
    · rw [if_neg hnext]
      exact (splitPoint_eq hlt (by omega)).symm

lemma largestPow2Below_eq {n : ℕ} (h : 2 ≤ n) : largestPow2Below n = splitPoint n :=
  doubleBelow_eq (k := 0) (by omega) Nat.one_pos

/-- The Merkle Tree Hash of the leaf values. -/
def merkleRoot (T : TreeHash L H) : List L → H
  | [] => T.empty
  | [x] => T.leaf x
  | x :: y :: leaves =>
    let k := largestPow2Below (x :: y :: leaves).length
    T.node (merkleRoot T ((x :: y :: leaves).take k)) (merkleRoot T ((x :: y :: leaves).drop k))
termination_by leaves => leaves.length
decreasing_by
  · have hlt := splitPoint_lt (n := (x :: y :: leaves).length) (by simp)
    rw [List.length_take, largestPow2Below_eq (by simp)]
    omega
  · have hpos := splitPoint_pos (x :: y :: leaves).length
    rw [List.length_drop, largestPow2Below_eq (by simp)]
    simp only [List.length_cons] at hpos ⊢
    omega

lemma merkleRoot_eq_root (T : TreeHash L H) (leaves : List L) :
    merkleRoot T leaves = T.root leaves := by
  induction leaves using merkleRoot.induct with
  | case1 => rw [merkleRoot, TreeHash.root]
  | case2 x => rw [merkleRoot, TreeHash.root]
  | case3 x y leaves k ihleft ihright =>
    rw [merkleRoot, ihleft, ihright, T.root_split (D := x :: y :: leaves) (by simp),
      show k = splitPoint _ from largestPow2Below_eq (by simp)]

/-! ## Inclusion -/

section Verifiers

variable [DecidableEq H] (T : TreeHash L H)

/-- Shift both indices right until the low bit of `fnode` is set or `fnode` is 0. -/
def climbToOdd (fnode snode : ℕ) : ℕ × ℕ :=
  if fnode % 2 = 0 ∧ fnode ≠ 0 then climbToOdd (fnode / 2) (snode / 2) else (fnode, snode)

/-- The loop over the audit path: `fnode` is the index of the running hash `r` at its level, and
`snode` the last index of that level. -/
def inclusionLoop (root : H) : List H → ℕ → ℕ → H → Bool
  | [], _, snode, r => snode = 0 ∧ r = root
  | p :: path, fnode, snode, r =>
    -- The path is longer than the depth of the tree.
    if snode = 0 then
      false
    else if fnode % 2 = 1 ∨ fnode = snode then
      let (fnode, snode) := if fnode % 2 = 0 then climbToOdd fnode snode else (fnode, snode)
      inclusionLoop root path (fnode / 2) (snode / 2) (T.node p r)
    else
      inclusionLoop root path (fnode / 2) (snode / 2) (T.node r p)

/-- Is `leaf` the `index`-th of `treeSize` leaves under `root`? -/
def verifyInclusion (leaf : L) (index treeSize : ℕ) (path : List H) (root : H) : Bool :=
  if index ≥ treeSize then false
  else inclusionLoop T root path index (treeSize - 1) (T.leaf leaf)

/-! ## Consistency -/

/-- Climb past the right edge of the smaller tree. -/
def climbRightEdge (node lastNode : ℕ) : ℕ × ℕ :=
  if node % 2 = 1 then climbRightEdge (node / 2) (lastNode / 2) else (node, lastNode)

/-- The loop over the levels the two trees share, until `node` is 0.  It returns the last index of
the level it stops at, both running hashes, and the unread proof. -/
def climbShared (node lastNode : ℕ) (hashM hashN : H) (proof : List H) :
    Option (ℕ × H × H × List H) :=
  if node = 0 then
    some (lastNode, hashM, hashN, proof)
  else if node % 2 = 1 then
    -- A right child: its left sibling is folded into both hashes.
    match proof with
    | [] => none
    | h :: proof =>
      climbShared (node / 2) (lastNode / 2) (T.node h hashM) (T.node h hashN) proof
  else if node < lastNode then
    -- A left child whose right sibling exists in the larger tree only.
    match proof with
    | [] => none
    | h :: proof => climbShared (node / 2) (lastNode / 2) hashM (T.node hashN h) proof
  else
    climbShared (node / 2) (lastNode / 2) hashM hashN proof
termination_by node

/-- Finish climbing the larger tree to its head. -/
def climbRest (lastNode : ℕ) (hashN : H) (proof : List H) : Option (H × List H) :=
  if lastNode = 0 then
    some (hashN, proof)
  else
    match proof with
    | [] => none
    | h :: proof => climbRest (lastNode / 2) (T.node hashN h) proof
termination_by lastNode

/-- Is the tree of size `m` under `rootM` a prefix of the tree of size `n` under `rootN`? -/
def verifyConsistency (m : ℕ) (rootM : H) (n : ℕ) (rootN : H) (proof : List H) : Bool :=
  if m > n then
    false
  else if m = n then
    proof.isEmpty ∧ rootM = rootN
  else if m = 0 then
    -- Every tree extends the empty one; `rootM` is not looked at.
    proof.isEmpty
  else
    match proof with
    | [] => false
    | seed :: rest =>
      let (node, lastNode) := climbRightEdge (m - 1) (n - 1)
      let (hash, proof) := if node > 0 then (seed, rest) else (rootM, seed :: rest)
      match climbShared T node lastNode hash hash proof with
      | none => false
      | some (lastNode, hashM, hashN, proof) =>
        match climbRest T lastNode hashN proof with
        | none => false
        | some (hashN, proof) => hashM = rootM ∧ hashN = rootN ∧ proof.isEmpty

end Verifiers

/-! ## Soundness of inclusion -/

section Soundness

variable {T : TreeHash L H}

lemma climbToOdd_spec {D : List L} (hD : D ≠ []) {ℓ : ℕ} (hpos : top D ℓ ≠ 0) :
    ∃ ℓ', climbToOdd (top D ℓ) (top D ℓ) = (top D ℓ', top D ℓ') ∧ top D ℓ' % 2 = 1 ∧
      top D ℓ' ≤ top D ℓ ∧ T.block D ℓ' (top D ℓ') = T.block D ℓ (top D ℓ) ∧
      T.audit D ℓ (top D ℓ) = T.audit D ℓ' (top D ℓ') := by
  induction h : top D ℓ using Nat.strong_induction_on generalizing ℓ with
  | _ d ih =>
    rw [climbToOdd]
    by_cases heven : d % 2 = 0
    · have hsucc : top D (ℓ + 1) = d / 2 := by rw [top_succ, h]
      obtain ⟨ℓ', hclimb, hodd, hle, hblock, haudit⟩ := ih (d / 2) (by omega) (by omega) hsucc
      refine ⟨ℓ', by rw [if_pos ⟨heven, by omega⟩, hclimb], hodd, by omega, ?_, ?_⟩
      · rw [hblock, ← h]
        exact T.block_parent_of_top hD (by rw [h]; exact heven)
      · rw [T.audit_of_last hpos heven h.le, haudit]
    · exact ⟨ℓ, by rw [if_neg (by omega), h], by omega, h.le, by rw [h], by rw [h]⟩

variable [DecidableEq H]

/-- An accepted walk to the head of `D` started from the node of `D` at its index, and met the
siblings on the way up from there. -/
lemma inclusionLoop_sound (hnode : ∀ a b c d, T.node a b = T.node c d → a = c ∧ b = d)
    {D : List L} (hD : D ≠ []) {path : List H} {ℓ fnode : ℕ} {r : H} (hf : fnode ≤ top D ℓ)
    (h : inclusionLoop T (T.root D) path fnode (top D ℓ) r = true) :
    r = T.block D ℓ fnode ∧ path = T.audit D ℓ fnode := by
  induction path generalizing ℓ fnode r with
  | nil =>
    simp only [inclusionLoop, decide_eq_true_eq] at h
    obtain ⟨htop, rfl⟩ := h
    have hzero : fnode = 0 := by omega
    rw [hzero]
    exact ⟨(T.block_eq_root_of_top hD htop).symm, (T.audit_of_top htop).symm⟩
  | cons p path ih =>
    rw [inclusionLoop] at h
    by_cases htop : top D ℓ = 0
    · rw [if_pos htop] at h
      cases h
    rw [if_neg htop] at h
    by_cases hfold : fnode % 2 = 1 ∨ fnode = top D ℓ
    · rw [if_pos hfold] at h
      by_cases heven : fnode % 2 = 0
      · -- The last node of its level, promoted up to where it is a right child.
        have hlast : fnode = top D ℓ := by omega
        obtain ⟨ℓ', hclimb, hodd, _, hblock, haudit⟩ := climbToOdd_spec (T := T) hD htop
        rw [if_pos heven, hlast, hclimb] at h
        simp only [← top_succ] at h
        obtain ⟨hparent, hpath⟩ := ih le_rfl h
        rw [top_succ, T.block_parent_of_odd hD hodd le_rfl] at hparent
        obtain ⟨hp, hr⟩ := hnode _ _ _ _ hparent
        rw [hlast, ← hblock, haudit, T.audit_of_odd (by omega) hodd, hp, hpath, top_succ]
        exact ⟨hr, rfl⟩
      · rw [if_neg heven] at h
        simp only [← top_succ] at h
        obtain ⟨hparent, hpath⟩ := ih (by rw [top_succ]; omega) h
        rw [T.block_parent_of_odd hD (by omega) hf] at hparent
        obtain ⟨hp, hr⟩ := hnode _ _ _ _ hparent
        rw [T.audit_of_odd htop (by omega), hp, hpath]
        exact ⟨hr, rfl⟩
    · rw [if_neg hfold, ← top_succ] at h
      obtain ⟨hparent, hpath⟩ := ih (by rw [top_succ]; omega) h
      rw [T.block_parent_of_even hD (by omega) (by omega)] at hparent
      obtain ⟨hr, hp⟩ := hnode _ _ _ _ hparent
      rw [T.audit_of_even (by omega) (by omega), hp, hpath]
      exact ⟨hr, rfl⟩

/-- **Inclusion is sound.**  Under the head of `D`, a leaf is accepted only at its own index. -/
lemma verifyInclusion_sound (hnode : ∀ a b c d, T.node a b = T.node c d → a = c ∧ b = d)
    (hleaf : Function.Injective T.leaf) {D : List L} {leaf : L} {index : ℕ} {path : List H}
    (h : verifyInclusion T leaf index D.length path (merkleRoot T D) = true) :
    D[index]? = some leaf := by
  rw [verifyInclusion] at h
  by_cases hindex : index ≥ D.length
  · rw [if_pos hindex] at h
    cases h
  rw [if_neg hindex, merkleRoot_eq_root, ← top_zero] at h
  have hlt : index < D.length := by omega
  have hD : D ≠ [] := List.length_pos_iff.mp (by omega)
  obtain ⟨hblock, -⟩ := inclusionLoop_sound hnode hD (by rw [top_zero]; omega) h
  rw [T.block_zero hlt] at hblock
  rw [List.getElem?_eq_getElem hlt, hleaf hblock]

/-! ## Soundness of consistency

The walk starts at the last node of the smaller tree that is also a complete block of the larger
one.  From the head of the larger tree the shared siblings are determined, and these rebuild the
head of the smaller tree. -/

omit [DecidableEq H] in
lemma climbRest_sound {D : List L} (hbinding : T.Binding D) (hD : D ≠ []) {ℓ : ℕ} {hashN : H} {proof rest : List H}
    (h : climbRest T (top D ℓ) hashN proof = some (T.root D, rest)) : hashN = T.block D ℓ 0 := by
  induction proof generalizing ℓ hashN with
  | nil =>
    rw [climbRest] at h
    by_cases htop : top D ℓ = 0
    · rw [if_pos htop, Option.some.injEq, Prod.mk.injEq] at h
      rw [h.1, T.block_eq_root_of_top hD htop]
    · rw [if_neg htop] at h
      cases h
  | cons p proof ih =>
    rw [climbRest] at h
    by_cases htop : top D ℓ = 0
    · rw [if_pos htop, Option.some.injEq, Prod.mk.injEq] at h
      rw [h.1, T.block_eq_root_of_top hD htop]
    · rw [if_neg htop] at h
      simp only [← top_succ] at h
      have hparent := ih h
      have hstep := T.block_parent_of_even hD (Nat.zero_mod 2) (Nat.pos_of_ne_zero htop)
      rw [Nat.zero_div] at hstep
      rw [hstep] at hparent
      have hsiblings := T.siblings_of_even hD (Nat.zero_mod 2) (Nat.pos_of_ne_zero htop)
      exact (hbinding _ _ _ _ hsiblings hparent).1

omit [DecidableEq H] in
lemma climbShared_sound {D E : List L} (hbinding : T.Binding D) (hE : E ≠ []) (hextends : E <+: D) {ℓ lastNode : ℕ}
    {hashM hashN hashM' hashN' : H} {proof proof' rest : List H}
    (hshared : climbShared T (top E ℓ) (top D ℓ) hashM hashN proof =
      some (lastNode, hashM', hashN', proof'))
    (hrest : climbRest T lastNode hashN' proof' = some (T.root D, rest)) :
    hashN = T.block D ℓ (top E ℓ) ∧ (hashM = T.block E ℓ (top E ℓ) → hashM' = T.root E) := by
  have hle := hextends.length_le
  have hD : D ≠ [] := fun hnil => hE (by simpa [hnil] using hextends)
  induction h : top E ℓ using Nat.strong_induction_on generalizing ℓ hashM hashN proof with
  | _ e ih =>
    have htops : e ≤ top D ℓ := by
      rw [← h]
      exact Nat.div_le_div_right (by omega)
    have hsucc : top E (ℓ + 1) = e / 2 := by rw [top_succ, h]
    rw [h] at hshared
    unfold climbShared at hshared
    by_cases hzero : e = 0
    · rw [if_pos hzero, Option.some.injEq] at hshared
      obtain ⟨rfl, rfl, rfl, rfl⟩ := hshared
      refine ⟨by rw [hzero]; exact climbRest_sound hbinding hD hrest, fun hM => ?_⟩
      rw [hM, hzero]
      exact T.block_eq_root_of_top hE (h.trans hzero)
    rw [if_neg hzero, ← hsucc, ← top_succ] at hshared
    by_cases hodd : e % 2 = 1
    · rw [if_pos hodd] at hshared
      cases proof with
      | nil => cases hshared
      | cons s proof =>
        obtain ⟨hparentN, hparentM⟩ := ih (e / 2) (by omega) hshared hsucc
        rw [T.block_parent_of_odd hD hodd htops] at hparentN
        obtain ⟨hsibling, hN⟩ :=
          hbinding _ _ _ _ (T.siblings_of_odd hD hodd htops) hparentN
        refine ⟨hN, fun hM => hparentM ?_⟩
        -- The left sibling is a complete block, so the two trees share it.
        have hcomplete : (e - 1 + 1) * 2 ^ ℓ ≤ E.length := by
          rw [Nat.sub_add_cancel (by omega)]
          exact ((le_top_iff hE).mp h.ge).le
        have hshare : T.block E ℓ (e - 1) = T.block D ℓ (e - 1) := by
          rw [List.prefix_iff_eq_take.mp hextends]
          exact T.block_take hcomplete
        rw [T.block_parent_of_odd hE hodd h.ge, hshare, hsibling, hM]
    rw [if_neg hodd] at hshared
    have heven : e % 2 = 0 := by omega
    have hpromote : T.block E (ℓ + 1) (e / 2) = T.block E ℓ e := by
      rw [← h]
      exact T.block_parent_of_top hE (by rw [h]; exact heven)
    by_cases hlt : e < top D ℓ
    · rw [if_pos hlt] at hshared
      cases proof with
      | nil => cases hshared
      | cons s proof =>
        obtain ⟨hparentN, hparentM⟩ := ih (e / 2) (by omega) hshared hsucc
        rw [T.block_parent_of_even hD heven hlt] at hparentN
        have hN := (hbinding _ _ _ _ (T.siblings_of_even hD heven hlt) hparentN).1
        refine ⟨hN, fun hM => hparentM ?_⟩
        rw [hpromote, hM]
    · rw [if_neg hlt] at hshared
      obtain ⟨hparentN, hparentM⟩ := ih (e / 2) (by omega) hshared hsucc
      have hlast : e = top D ℓ := by omega
      refine ⟨?_, fun hM => hparentM (by rw [hpromote, hM])⟩
      rw [hparentN, hlast]
      exact T.block_parent_of_top hD (by rw [← hlast]; exact heven)

omit [DecidableEq H] in
/-- After the right edge, the node reached is a block that ends where the smaller tree does. -/
lemma climbRightEdge_spec {D E : List L} (hE : E ≠ []) :
    ∃ ℓ, climbRightEdge (E.length - 1) (D.length - 1) = (top E ℓ, top D ℓ) ∧
      (top E ℓ + 1) * 2 ^ ℓ = E.length ∧ top E ℓ % 2 = 0 := by
  have hpos := List.length_pos_iff.mpr hE
  have hclimb : ∀ ℓ, (top E ℓ + 1) * 2 ^ ℓ = E.length →
      ∃ ℓ', climbRightEdge (top E ℓ) (top D ℓ) = (top E ℓ', top D ℓ') ∧
        (top E ℓ' + 1) * 2 ^ ℓ' = E.length ∧ top E ℓ' % 2 = 0 := by
    intro ℓ hcomplete
    induction h : top E ℓ using Nat.strong_induction_on generalizing ℓ with
    | _ e ih =>
      rw [climbRightEdge]
      by_cases hodd : e % 2 = 1
      · rw [if_pos hodd, ← h, ← top_succ, ← top_succ]
        refine ih (top E (ℓ + 1)) (by rw [top_succ]; omega) (ℓ + 1) ?_ rfl
        have hhalf : (top E ℓ / 2 + 1) * 2 = top E ℓ + 1 := by omega
        rw [top_succ, pow_succ', ← mul_assoc, hhalf, hcomplete]
      · exact ⟨ℓ, by rw [if_neg hodd, h], hcomplete, by omega⟩
  obtain ⟨ℓ, hclimb, hcomplete⟩ := hclimb 0 (by rw [top_zero, pow_zero]; omega)
  rw [top_zero, top_zero] at hclimb
  exact ⟨ℓ, hclimb, hcomplete⟩

/-- **Consistency is sound.**  Under the head of `D`, only the heads of its nonempty prefixes are
accepted. -/
lemma verifyConsistency_sound {D : List L} (hbinding : T.Binding D) {m : ℕ} (hm : m ≠ 0) {rootM : H} {proof : List H}
    (h : verifyConsistency T m rootM D.length (merkleRoot T D) proof = true) :
    m ≤ D.length ∧ rootM = merkleRoot T (D.take m) := by
  unfold verifyConsistency at h
  by_cases hgt : m > D.length
  · rw [if_pos hgt] at h
    cases h
  rw [if_neg hgt] at h
  refine ⟨by omega, ?_⟩
  by_cases heq : m = D.length
  · rw [if_pos heq, decide_eq_true_eq] at h
    rw [h.2, heq, List.take_length]
  rw [if_neg heq, if_neg hm] at h
  cases proof with
  | nil => cases h
  | cons seed proof =>
    have hlen : (D.take m).length = m := List.length_take_of_le (by omega)
    have hE : D.take m ≠ [] := List.length_pos_iff.mp (by omega)
    obtain ⟨ℓ, hedge, hcomplete, _⟩ := climbRightEdge_spec (D := D) hE
    rw [hlen] at hedge
    simp only [hedge] at h
    -- The common start of both walks, a block of the larger tree and of the smaller one.
    have hstart : T.block (D.take m) ℓ (top (D.take m) ℓ) = T.block D ℓ (top (D.take m) ℓ) :=
      T.block_take (hcomplete.le.trans hlen.le)
    split at h
    · cases h
    rename_i lastNode hashM hashN rest hshared
    split at h
    · cases h
    rename_i hashN' rest' hrest
    rw [decide_eq_true_eq, merkleRoot_eq_root] at h
    obtain ⟨rfl, rfl, -⟩ := h
    rw [merkleRoot_eq_root]
    have hwalk := climbShared_sound hbinding hE (List.take_prefix m D) hshared hrest
    exact hwalk.2 (by rw [hwalk.1, hstart])

end Soundness

section Rfc6962

variable [Sha256]

/-- An accepted proof of consistency with the log `D` is one for the head of a prefix of `D`, as
long as no other pair of hashes goes under an interior node of its tree. -/
theorem consistency_prefix {D : List (List UInt8)} (hbinding : rfc6962.Binding D) {m : ℕ}
    (hm : 0 < m) (rootM : Bytes 32) (proof : List (Bytes 32))
    (h : verifyConsistency rfc6962 m rootM D.length (merkleRoot rfc6962 D) proof = true) :
    rootM = merkleRoot rfc6962 (D.take m) :=
  (verifyConsistency_sound hbinding (Nat.pos_iff_ne_zero.mp hm) h).2

end Rfc6962

section MarkingHash

/-- A hash that knows the node over two zero hashes from everything else. -/
abbrev markingSha256 : Sha256 where
  sha256 msg := if msg = 0x01 :: List.replicate 64 0 then .replicate 32 1 else .replicate 32 0

attribute [local instance] markingSha256

/-- A second leaf is appended to the first. -/
theorem consistency_prefix_twoLeaves :
    verifyConsistency rfc6962 1 (leafHash [7]) 2 (merkleRoot rfc6962 [[7], [8]]) [leafHash [8]] =
        true ∧ leafHash [7] = merkleRoot rfc6962 ([[7], [8]].take 1) := by
  have hverify : verifyConsistency rfc6962 1 (leafHash [7]) 2 (merkleRoot rfc6962 [[7], [8]])
      [leafHash [8]] = true := by decide +kernel
  refine ⟨hverify, consistency_prefix ?_ Nat.one_pos _ _ hverify⟩
  rintro a b l r ⟨ℓ, j, hlt, rfl, rfl⟩ heq
  -- The two leaves are the only siblings.
  have hlt' : (2 * j + 1) * 2 ^ ℓ < 2 := hlt
  have hj : j = 0 := by
    have hle : 2 * j + 1 ≤ (2 * j + 1) * 2 ^ ℓ := Nat.le_mul_of_pos_right _ (by positivity)
    omega
  subst hj
  have hℓ : ℓ = 0 := by
    by_contra hℓ
    have hle : 2 ≤ 2 ^ ℓ := Nat.le_self_pow hℓ 2
    omega
  subst hℓ
  have hmarked : a.toList ++ b.toList = List.replicate 32 0 ++ List.replicate 32 0 := by
    by_contra hne
    have hzero : nodeHash a b = .replicate 32 0 := if_neg fun h => hne (List.cons.inj h).2
    have hone : rfc6962.node (rfc6962.block [[7], [8]] 0 (2 * 0))
        (rfc6962.block [[7], [8]] 0 (2 * 0 + 1)) = .replicate 32 1 := by decide +kernel
    exact absurd (hzero.symm.trans (heq.trans hone)) (by decide +kernel)
  have hleft : rfc6962.block [[7], [8]] 0 (2 * 0) = .replicate 32 0 := by decide +kernel
  have hright : rfc6962.block [[7], [8]] 0 (2 * 0 + 1) = .replicate 32 0 := by decide +kernel
  rw [hleft, hright]
  obtain ⟨ha, hb⟩ := List.append_inj hmarked (by simp)
  exact ⟨List.Vector.eq _ _ ha, List.Vector.eq _ _ hb⟩

end MarkingHash

end MaxSecu
