import MaxSecu.Framework.Machine
import MaxSecu.Crypto.Merkle

/-!
# Key-transparency gossip

A client accepts a directory binding when it is included in the key-transparency log under a
checkpoint a pinned key signed, and it remembers the last checkpoint it accepted: a later one must
be an append-only extension.

The digest type `H` is a parameter, since no injective hash has 32-byte digests; `sha256Log` is the
program's own instance.  Signatures are not assumed to be unforgeable: every checkpoint, proof and
key list of a run is arbitrary.

The invariant of a run (`GossipInvariant`) speaks about every list of leaves under the remembered
root.  A step to a larger tree turns a list under the new root into a prefix under the old one, so
that what was accepted earlier is still where it was.
-/

namespace MaxSecu

/-- A tree hash over byte strings whose digests have a 32-byte form for the signature. -/
structure LogHash (H : Type) extends TreeHash (List UInt8) H where
  bytes : H → Bytes 32

/-- The log hash of the program. -/
def sha256Log [Sha256] : LogHash (Bytes 32) where
  toTreeHash := rfc6962
  bytes := id

/-! ## Data -/

/-- The log's commitment to its state, with the log's signature. -/
structure KtCheckpoint (H : Type) where
  treeSize : UInt64
  root : H
  sig : Bytes 64
  deriving DecidableEq

structure InclusionProof (H : Type) where
  index : UInt64
  treeSize : UInt64
  path : List H

inductive KtError
  /-- No pinned log key verifies the checkpoint signature. -/
  | badCheckpoint
  /-- The binding is not included under the checkpoint root. -/
  | notIncluded
  /-- The checkpoint is not a consistent extension of the remembered one. -/
  | splitView
  /-- The checkpoint is smaller than the remembered one. -/
  | regression
  deriving DecidableEq, Repr

/-- The latest checkpoint the client has accepted. -/
structure KtCheckpointStore (H : Type) where
  latest : Option (KtCheckpoint H)

namespace KtCheckpointStore

variable {H : Type}

def new : KtCheckpointStore H := ⟨none⟩

def update (_ : KtCheckpointStore H) (cp : KtCheckpoint H) : KtCheckpointStore H := ⟨some cp⟩

end KtCheckpointStore

/-! ## Verification -/

section Verification

variable {H : Type} [DecidableEq H] [Ed25519] (T : LogHash H)

def checkpointSigningBytes (treeSize : UInt64) (root : H) : List UInt8 :=
  ktCheckpointSigningInput treeSize (T.bytes root)

def verifyCheckpointSig (checkpoint : KtCheckpoint H) (logPubs : List (Bytes 32)) : Bool :=
  anyKeyVerifies logPubs (checkpointSigningBytes T checkpoint.treeSize checkpoint.root)
    checkpoint.sig

/-- The checkpoint must advance the remembered one; on first use there is none. -/
def checkAdvance (latest : Option (KtCheckpoint H)) (checkpoint : KtCheckpoint H)
    (consistency : List H) : Except KtError Unit :=
  match latest with
  | none => .ok ()
  | some prev =>
    if checkpoint.treeSize < prev.treeSize then
      .error .regression
    else if checkpoint.treeSize = prev.treeSize then
      if checkpoint.root ≠ prev.root then .error .splitView else .ok ()
    else if verifyConsistency T.toTreeHash prev.treeSize.toNat prev.root checkpoint.treeSize.toNat
        checkpoint.root consistency then
      .ok ()
    else
      .error .splitView

/-- Accept a binding under a checkpoint, and remember the checkpoint when it is accepted. -/
def verifyBindingInLog (bindingBytes : List UInt8) (inclusion : InclusionProof H)
    (checkpoint : KtCheckpoint H) (consistency : List H) (logPubs : List (Bytes 32))
    (store : KtCheckpointStore H) : Except KtError Unit × KtCheckpointStore H :=
  if ¬ verifyCheckpointSig T checkpoint logPubs then
    (.error .badCheckpoint, store)
  else
    match checkAdvance T store.latest checkpoint consistency with
    | .error e => (.error e, store)
    | .ok () =>
      if inclusion.treeSize ≠ checkpoint.treeSize ∨ ¬ verifyInclusion T.toTreeHash bindingBytes
          inclusion.index.toNat inclusion.treeSize.toNat inclusion.path checkpoint.root then
        (.error .notIncluded, store)
      else
        (.ok (), store.update checkpoint)

/-! ## What one call does -/

variable {T}

lemma verifyBindingInLog_error {bindingBytes : List UInt8} {inclusion : InclusionProof H}
    {checkpoint : KtCheckpoint H} {consistency : List H} {logPubs : List (Bytes 32)}
    {store : KtCheckpointStore H} {e : KtError}
    (h : (verifyBindingInLog T bindingBytes inclusion checkpoint consistency logPubs store).1 =
      .error e) :
    (verifyBindingInLog T bindingBytes inclusion checkpoint consistency logPubs store).2 =
      store := by
  unfold verifyBindingInLog at h ⊢
  split
  · rfl
  · rename_i hsig
    rw [if_neg hsig] at h
    split
    · rfl
    · rename_i hadvance
      simp only [hadvance] at h
      split at h
      · rename_i hinc
        rw [if_pos hinc]
      · cases h

lemma verifyBindingInLog_ok {bindingBytes : List UInt8} {inclusion : InclusionProof H}
    {checkpoint : KtCheckpoint H} {consistency : List H} {logPubs : List (Bytes 32)}
    {store : KtCheckpointStore H}
    (h : (verifyBindingInLog T bindingBytes inclusion checkpoint consistency logPubs store).1 =
      .ok ()) :
    (verifyBindingInLog T bindingBytes inclusion checkpoint consistency logPubs store).2 =
        store.update checkpoint ∧
      checkAdvance T store.latest checkpoint consistency = .ok () ∧
      verifyInclusion T.toTreeHash bindingBytes inclusion.index.toNat checkpoint.treeSize.toNat
        inclusion.path checkpoint.root = true := by
  unfold verifyBindingInLog at h ⊢
  split at h
  · cases h
  rename_i hsig
  rw [if_neg hsig]
  split at h
  · cases h
  rename_i hadvance
  simp only [hadvance]
  split at h
  · cases h
  rename_i hinc
  rw [if_neg hinc]
  rw [not_or, not_not, not_not] at hinc
  exact ⟨rfl, trivial, hinc.1 ▸ hinc.2⟩

omit [Ed25519] in
lemma checkAdvance_ok {prev checkpoint : KtCheckpoint H} {consistency : List H}
    (h : checkAdvance T (some prev) checkpoint consistency = .ok ()) :
    checkpoint.treeSize = prev.treeSize ∧ checkpoint.root = prev.root ∨
      prev.treeSize.toNat < checkpoint.treeSize.toNat ∧
        verifyConsistency T.toTreeHash prev.treeSize.toNat prev.root checkpoint.treeSize.toNat
          checkpoint.root consistency = true := by
  unfold checkAdvance at h
  by_cases hlt : checkpoint.treeSize < prev.treeSize
  · simp only [hlt, if_true] at h
    cases h
  simp only [hlt, if_false] at h
  by_cases heq : checkpoint.treeSize = prev.treeSize
  · simp only [heq, if_true] at h
    split at h
    · cases h
    · rename_i hroot
      exact .inl ⟨heq, not_not.mp hroot⟩
  · simp only [heq, if_false] at h
    split at h
    · rename_i hcons
      have hne : checkpoint.treeSize.toNat ≠ prev.treeSize.toNat :=
        fun h => heq (UInt64.toNat_inj.mp h)
      rw [UInt64.lt_iff_toNat_lt] at hlt
      exact .inr ⟨by omega, hcons⟩
    · cases h

omit [Ed25519] in
/-- A list of leaves under the new root starts with a list of leaves under the remembered one. -/
lemma checkAdvance_sound (hnode : ∀ a b c d, T.node a b = T.node c d → a = c ∧ b = d)
    {prev checkpoint : KtCheckpoint H} {consistency : List H} (hprev : prev.treeSize ≠ 0)
    (h : checkAdvance T (some prev) checkpoint consistency = .ok ()) {D : List (List UInt8)}
    (hlen : D.length = checkpoint.treeSize.toNat)
    (hroot : merkleRoot T.toTreeHash D = checkpoint.root) :
    (D.take prev.treeSize.toNat).length = prev.treeSize.toNat ∧
      merkleRoot T.toTreeHash (D.take prev.treeSize.toNat) = prev.root := by
  have hm : prev.treeSize.toNat ≠ 0 := fun hzero => hprev (UInt64.toNat_inj.mp hzero)
  rcases checkAdvance_ok h with ⟨hsize, hroot'⟩ | ⟨-, hcons⟩
  · rw [← hsize, ← hlen, List.take_length]
    exact ⟨rfl, hroot.trans hroot'⟩
  · rw [← hlen, ← hroot] at hcons
    obtain ⟨hle, hextends⟩ := verifyConsistency_sound
      (T.toTreeHash.binding_of_injective hnode D) hm hcons
    exact ⟨List.length_take_of_le hle, hextends.symm⟩

end Verification

/-! ## Runs -/

/-- One call, with whatever the server and the caller supply. -/
structure KtCall (H : Type) where
  bindingBytes : List UInt8
  inclusion : InclusionProof H
  checkpoint : KtCheckpoint H
  consistency : List H
  logPubs : List (Bytes 32)

section Runs

variable {H : Type} [DecidableEq H] [Ed25519] (T : LogHash H)

def KtCall.verify (call : KtCall H) (store : KtCheckpointStore H) :
    Except KtError Unit × KtCheckpointStore H :=
  verifyBindingInLog T call.bindingBytes call.inclusion call.checkpoint call.consistency
    call.logPubs store

/-- A client that starts with an empty store; it emits the calls it accepts. -/
def gossip : Machine (KtCheckpointStore H) (KtCall H) (KtCall H) where
  init := .new
  step store call :=
    match (call.verify T store).1 with
    | .ok () => ((call.verify T store).2, [call])
    | .error _ => ((call.verify T store).2, [])

/-- What a client knows after a run: `accepted` are the calls accepted so far. -/
structure GossipInvariant (store : KtCheckpointStore H) (accepted : List (KtCall H)) : Prop where
  /-- The store holds the checkpoint of the last accepted call. -/
  latest : store.latest = accepted.getLast?.map KtCall.checkpoint
  /-- Tree sizes never decrease. -/
  sizes : accepted.Pairwise fun c c' =>
    c.checkpoint.treeSize.toNat ≤ c'.checkpoint.treeSize.toNat
  /-- The remembered tree is not empty. -/
  nonempty : ∀ prev, store.latest = some prev → prev.treeSize ≠ 0
  /-- Every accepted binding is at its index, whatever leaves the remembered root commits to. -/
  included : ∀ prev D, store.latest = some prev → D.length = prev.treeSize.toNat →
    merkleRoot T.toTreeHash D = prev.root →
      ∀ c ∈ accepted, D[c.inclusion.index.toNat]? = some c.bindingBytes

variable {T}

omit [DecidableEq H] [Ed25519] in
lemma gossipInvariant_init : GossipInvariant T .new [] where
  latest := rfl
  sizes := List.Pairwise.nil
  nonempty := by
    intro prev h
    cases h
  included := by
    intro prev D h
    cases h

omit [DecidableEq H] [Ed25519] in
lemma GossipInvariant.treeSize_le {store : KtCheckpointStore H} {accepted : List (KtCall H)}
    (hinv : GossipInvariant T store accepted) {prev : KtCheckpoint H}
    (hprev : store.latest = some prev) {c : KtCall H} (hc : c ∈ accepted) :
    c.checkpoint.treeSize.toNat ≤ prev.treeSize.toNat := by
  obtain ⟨l, last, rfl⟩ := List.eq_nil_or_concat accepted |>.resolve_left (List.ne_nil_of_mem hc)
  rw [hinv.latest, List.concat_eq_append, List.getLast?_append_of_ne_nil _ (by simp)] at hprev
  obtain rfl : last.checkpoint = prev := by simpa using hprev
  rw [List.concat_eq_append, List.mem_append, List.mem_singleton] at hc
  have hsizes := hinv.sizes
  rw [List.concat_eq_append, List.pairwise_append] at hsizes
  rcases hc with hc | rfl
  · exact hsizes.2.2 c hc last (List.mem_singleton_self last)
  · exact le_rfl

lemma gossipInvariant_accept (hnode : ∀ a b c d, T.node a b = T.node c d → a = c ∧ b = d)
    (hleaf : Function.Injective T.leaf) {store : KtCheckpointStore H}
    {accepted : List (KtCall H)} (hinv : GossipInvariant T store accepted) {call : KtCall H}
    (hok : (call.verify T store).1 = .ok ()) :
    GossipInvariant T (call.verify T store).2 (accepted ++ [call]) := by
  obtain ⟨hstore, hadvance, hinc⟩ := verifyBindingInLog_ok hok
  have hlatest : (call.verify T store).2.latest = some call.checkpoint := by
    rw [KtCall.verify, hstore]
    rfl
  refine ⟨by simp [hlatest], ?_, ?_, ?_⟩
  · rw [List.pairwise_append]
    refine ⟨hinv.sizes, List.pairwise_singleton _ _, fun c hc c' hc' => ?_⟩
    obtain rfl := List.mem_singleton.mp hc'
    cases hprev : store.latest with
    | none =>
      rw [hinv.latest, Option.map_eq_none_iff, List.getLast?_eq_none_iff] at hprev
      rw [hprev] at hc
      cases hc
    | some prev =>
      rw [hprev] at hadvance
      have hle := hinv.treeSize_le hprev hc
      rcases checkAdvance_ok hadvance with ⟨hsize, -⟩ | ⟨hsize, -⟩
      · rwa [hsize]
      · exact hle.trans hsize.le
  · intro prev hprev hzero
    obtain rfl : call.checkpoint = prev := by simpa [hlatest] using hprev
    -- An inclusion proof has an index below the tree size.
    rw [hzero, verifyInclusion, if_pos (by simp)] at hinc
    cases hinc
  · intro prev D hprev hlen hroot c hc
    obtain rfl : call.checkpoint = prev := by simpa [hlatest] using hprev
    rw [List.mem_append, List.mem_singleton] at hc
    rcases hc with hc | rfl
    · cases hold : store.latest with
      | none =>
        rw [hinv.latest, Option.map_eq_none_iff, List.getLast?_eq_none_iff] at hold
        rw [hold] at hc
        cases hc
      | some old =>
        rw [hold] at hadvance
        obtain ⟨hlen', hroot'⟩ :=
          checkAdvance_sound hnode (hinv.nonempty old hold) hadvance hlen hroot
        have hthen := hinv.included old _ hold hlen' hroot' c hc
        have hlt : c.inclusion.index.toNat < old.treeSize.toNat := by
          rw [← hlen']
          exact (List.getElem?_eq_some_iff.mp hthen).1
        rwa [List.getElem?_take_of_lt hlt] at hthen
    · rw [← hlen, ← hroot] at hinc
      exact verifyInclusion_sound hnode hleaf hinc

lemma gossipInvariant_step (hnode : ∀ a b c d, T.node a b = T.node c d → a = c ∧ b = d)
    (hleaf : Function.Injective T.leaf) {store : KtCheckpointStore H}
    {accepted : List (KtCall H)} (hinv : GossipInvariant T store accepted) (call : KtCall H) :
    GossipInvariant T ((gossip T).step store call).1
      (accepted ++ ((gossip T).step store call).2) := by
  cases hverify : (call.verify T store).1 with
  | ok u =>
    have hstep : (gossip T).step store call = ((call.verify T store).2, [call]) := by
      simp [gossip, hverify]
    rw [hstep]
    exact gossipInvariant_accept hnode hleaf hinv hverify
  | error e =>
    have hstep : (gossip T).step store call = (store, []) := by
      have hstore : (call.verify T store).2 = store := verifyBindingInLog_error hverify
      simp [gossip, hverify, hstore]
    rw [hstep, List.append_nil]
    exact hinv

lemma gossipInvariant_run (hnode : ∀ a b c d, T.node a b = T.node c d → a = c ∧ b = d)
    (hleaf : Function.Injective T.leaf) (calls : List (KtCall H)) :
    GossipInvariant T ((gossip T).run calls).1 ((gossip T).run calls).2 :=
  (gossip T).run_invariant gossipInvariant_init
    (fun _ _ call hinv => gossipInvariant_step hnode hleaf hinv call) calls

/-- **Gossip is append-only.**  After any run, if the remembered root commits to the leaves `D`,
every binding accepted so far is in `D` at its index.  Accepted sizes never decrease, a rejected
call changes nothing, and the remembered size that a later consistency check starts from is not
0. -/
theorem gossip_appendOnly (hnode : ∀ a b c d, T.node a b = T.node c d → a = c ∧ b = d)
    (hleaf : Function.Injective T.leaf) (calls : List (KtCall H)) :
    let store := ((gossip T).run calls).1
    let accepted := ((gossip T).run calls).2
    store.latest = accepted.getLast?.map KtCall.checkpoint ∧
    (∀ prev D, store.latest = some prev → D.length = prev.treeSize.toNat →
      merkleRoot T.toTreeHash D = prev.root →
        ∀ c ∈ accepted, D[c.inclusion.index.toNat]? = some c.bindingBytes) ∧
    (accepted.Pairwise fun c c' => c.checkpoint.treeSize.toNat ≤ c'.checkpoint.treeSize.toNat) ∧
    (∀ (call : KtCall H) (e : KtError), (call.verify T store).1 = .error e →
      (call.verify T store).2 = store) ∧
    (∀ prev, store.latest = some prev → prev.treeSize ≠ 0) := by
  have hinv := gossipInvariant_run hnode hleaf calls
  exact ⟨hinv.latest, hinv.included, hinv.sizes, fun call e h => verifyBindingInLog_error h,
    hinv.nonempty⟩

/-- **Two clients who compare checkpoints were shown one log.**  If the checkpoint that one of them
remembers extends the other's, and it commits to any leaves at all, then no binding that one of them
ever accepted differs from one that the other accepted at the same index. -/
theorem gossip_oneLog (hnode : ∀ a b c d, T.node a b = T.node c d → a = c ∧ b = d)
    (hleaf : Function.Injective T.leaf) (calls calls' : List (KtCall H))
    {prev prev' : KtCheckpoint H} (hprev : ((gossip T).run calls).1.latest = some prev)
    (hprev' : ((gossip T).run calls').1.latest = some prev') {consistency : List H}
    (hadvance : checkAdvance T (some prev) prev' consistency = .ok ()) {D : List (List UInt8)}
    (hlen : D.length = prev'.treeSize.toNat) (hroot : merkleRoot T.toTreeHash D = prev'.root) :
    ∀ c ∈ ((gossip T).run calls).2, ∀ c' ∈ ((gossip T).run calls').2,
      c.inclusion.index = c'.inclusion.index → c.bindingBytes = c'.bindingBytes := by
  intro c hc c' hc' hindex
  have hinv := gossipInvariant_run hnode hleaf calls
  obtain ⟨hlenOld, hrootOld⟩ :=
    checkAdvance_sound hnode (hinv.nonempty prev hprev) hadvance hlen hroot
  have hold := hinv.included prev _ hprev hlenOld hrootOld c hc
  have hlt : c.inclusion.index.toNat < prev.treeSize.toNat :=
    hlenOld ▸ (List.getElem?_eq_some_iff.mp hold).1
  rw [List.getElem?_take_of_lt hlt, hindex] at hold
  have hnew := (gossipInvariant_run hnode hleaf calls').included prev' D hprev' hlen hroot c' hc'
  exact Option.some.inj (hold.symm.trans hnew)

end Runs

/-! ## A run over symbolic digests -/

/-- Digests that record what was hashed, so that hashing is injective. -/
inductive SymbolicDigest
  | empty
  | leaf (x : List UInt8)
  | node (l r : SymbolicDigest)
  deriving DecidableEq

def symbolicLog : LogHash SymbolicDigest where
  empty := .empty
  leaf := .leaf
  node := .node
  bytes _ := List.Vector.replicate 32 0

/-- A first checkpoint over one leaf, and an extension of it to two. -/
def twoCheckpoints : List (KtCall SymbolicDigest) :=
  [{ bindingBytes := [10]
     inclusion := ⟨0, 1, []⟩
     checkpoint := ⟨1, .leaf [10], List.Vector.replicate 64 0⟩
     consistency := []
     logPubs := [List.Vector.replicate 32 0] },
   { bindingBytes := [20]
     inclusion := ⟨1, 2, [.leaf [10]]⟩
     checkpoint := ⟨2, .node (.leaf [10]) (.leaf [20]), List.Vector.replicate 64 0⟩
     consistency := [.leaf [20]]
     logPubs := [List.Vector.replicate 32 0] }]

/-- Both calls are accepted, and the first binding is still the first leaf of the second tree. -/
theorem gossip_appendOnly_twoCheckpoints :
    letI := acceptingEd25519
    ((gossip symbolicLog).run twoCheckpoints).2.length = 2 ∧
      ∀ c ∈ ((gossip symbolicLog).run twoCheckpoints).2,
        [[10], [20]][c.inclusion.index.toNat]? = some c.bindingBytes :=
  letI := acceptingEd25519
  ⟨by decide +kernel,
    (gossip_appendOnly (T := symbolicLog) (fun _ _ _ _ => SymbolicDigest.node.inj)
      (fun _ _ => SymbolicDigest.leaf.inj) twoCheckpoints).2.1
      ⟨2, .node (.leaf [10]) (.leaf [20]), List.Vector.replicate 64 0⟩ [[10], [20]]
      (by decide +kernel) rfl (by decide +kernel)⟩

/-- A client who stopped after the first call, and one who went on. -/
theorem gossip_oneLog_firstCheckpoint :
    letI := acceptingEd25519
    ((gossip symbolicLog).run (twoCheckpoints.take 1)).2 ≠ [] ∧
      ∀ c ∈ ((gossip symbolicLog).run (twoCheckpoints.take 1)).2,
        ∀ c' ∈ ((gossip symbolicLog).run twoCheckpoints).2,
          c.inclusion.index = c'.inclusion.index → c.bindingBytes = c'.bindingBytes :=
  letI := acceptingEd25519
  ⟨by decide +kernel, @gossip_oneLog _ _ _ symbolicLog (fun _ _ _ _ => SymbolicDigest.node.inj)
    (fun _ _ => SymbolicDigest.leaf.inj) _ _ ⟨1, .leaf [10], .replicate 64 0⟩
    ⟨2, .node (.leaf [10]) (.leaf [20]), .replicate 64 0⟩ (by decide +kernel) (by decide +kernel)
    [.leaf [20]] (by decide +kernel) [[10], [20]] rfl (by decide +kernel)⟩

end MaxSecu
