import MaxSecu.Client.Transparency

/-!
# What the client reads from the sink

The sink serves the head of its control log with two proofs, a signature of the custodian and an
inclusion in a transparency log.  The client parses both and checks each under the keys it has
pinned for its form.  The sink also serves the checkpoint and the proofs of the directory log.
-/

namespace MaxSecu

/-- What the sink attests, as the client reads it: an exact length, and the head at it. -/
structure AnchoredHead where
  chainSeq : UInt64
  head : Bytes 32
  deriving DecidableEq

inductive AnchorProof
  /-- A signature of the separate custodian over the head. -/
  | custodianCoSig (sig : Bytes 64)
  /-- A checkpoint that the log signed, and the path of the head under its root. -/
  | transparencyInclusion (checkpointSig : Bytes 64) (treeSize : UInt64) (root : Bytes 32)
      (index : UInt64) (path : List (Bytes 32))

inductive SinkError
  /-- No pinned key validates the proof of the head. -/
  | badProof
  /-- The sink cannot be reached, or what it answers cannot be parsed. -/
  | unreachable
  /-- The head of the sink is not the expected one. -/
  | notAnchored
  deriving DecidableEq

/-! ## The served head -/

/-- The proof from the transparency log, with byte strings of any length. -/
structure TransparencyJson where
  checkpointSig : List UInt8
  treeSize : UInt64
  root : List UInt8
  index : UInt64
  path : List (List UInt8)

/-- The head and its two proofs, with byte strings of any length. -/
structure HeadJson where
  chainSeq : UInt64
  head : List UInt8
  cosig : List UInt8
  transparency : TransparencyJson

def b64Fixed (n : ℕ) (v : List UInt8) : Option (Bytes n) :=
  if h : v.length = n then some ⟨v, h⟩ else none

@[simp] lemma b64Fixed_toList {n : ℕ} (v : Bytes n) : b64Fixed n v.toList = some v := by
  unfold b64Fixed
  rw [dif_pos v.toList_length]
  rfl

def parseHashPath (path : List (List UInt8)) : Option (List (Bytes 32)) :=
  path.mapM (b64Fixed 32)

@[simp] lemma parseHashPath_toList (path : List (Bytes 32)) :
    parseHashPath (path.map List.Vector.toList) = some path := by
  unfold parseHashPath
  induction path with
  | nil => rfl
  | cons h path ih => simp [ih]

def parseHeadAllProofs (v : HeadJson) : Option (AnchoredHead × List AnchorProof) := do
  let head ← b64Fixed 32 v.head
  let cosig ← b64Fixed 64 v.cosig
  let checkpointSig ← b64Fixed 64 v.transparency.checkpointSig
  let root ← b64Fixed 32 v.transparency.root
  let path ← parseHashPath v.transparency.path
  some (⟨v.chainSeq, head⟩, [.custodianCoSig cosig, .transparencyInclusion checkpointSig
    v.transparency.treeSize root v.transparency.index path])

/-! ## The served directory log -/

structure KtCheckpointJson where
  treeSize : UInt64
  root : List UInt8
  sig : List UInt8

structure KtInclusionJson where
  index : UInt64
  treeSize : UInt64
  path : List (List UInt8)

structure KtConsistencyJson where
  path : List (List UInt8)

def parseKtCheckpoint (v : KtCheckpointJson) : Option (KtCheckpoint (Bytes 32)) := do
  let root ← b64Fixed 32 v.root
  let sig ← b64Fixed 64 v.sig
  some ⟨v.treeSize, root, sig⟩

def parseKtInclusion (v : KtInclusionJson) : Option (InclusionProof (Bytes 32)) := do
  let path ← parseHashPath v.path
  some ⟨v.index, v.treeSize, path⟩

def parseKtConsistency (v : KtConsistencyJson) : Option (List (Bytes 32)) :=
  parseHashPath v.path

/-! ## Verification -/

section Verification

variable [Ed25519] [Sha256]

def headSigningBytes (h : AnchoredHead) : List UInt8 := sinkHeadSigningInput h.chainSeq h.head

/-- What the transparency log of the sink signs. -/
def anchorCheckpointBytes (treeSize : UInt64) (root : Bytes 32) : List UInt8 :=
  sinkCheckpointSigningInput treeSize root

/-- Check a proof of a head under the keys pinned for its form. -/
def verifyAnchorProof (head : AnchoredHead) (proof : AnchorProof)
    (custodianPubs transparencyLogPubs : List (Bytes 32)) : Except SinkError Unit :=
  let ok :=
    match proof with
    | .custodianCoSig sig => anyKeyVerifies custodianPubs (headSigningBytes head) sig
    | .transparencyInclusion checkpointSig treeSize root index path =>
      anyKeyVerifies transparencyLogPubs (anchorCheckpointBytes treeSize root) checkpointSig &&
        verifyInclusion rfc6962 (headSigningBytes head) index.toNat treeSize.toNat path root
  if ok then .ok () else .error .badProof

end Verification

end MaxSecu
