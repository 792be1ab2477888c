import MaxSecu.Crypto.KeyPairs
import MaxSecu.Crypto.MerkleProver
import MaxSecu.Sink.ControlLogStore

/-!
# Anchoring of heads, and the directory log

The sink signs each new head with the key of the custodian, and adds it to a transparency log whose
checkpoint it signs with the key of that log.  The directory log is another log, of the bindings
that the directory publishes, with a key of its own.

A vector that cannot grow ends the process, so its length always fits the 64 bits that are signed.
-/

namespace MaxSecu

namespace Sink

/-- A vector takes one more element. -/
def Growable {α : Type} (xs : List α) : Prop := xs.length < 2 ^ 63 - 1

instance {α : Type} (xs : List α) : Decidable (Growable xs) := Nat.decLt _ _

lemma last_lt {α : Type} (xs : List α) (x : α) :
    (xs ++ [x]).length - 1 < (xs ++ [x]).length := by
  simp

lemma toNat_lt_length {α : Type} {xs : List α} {index : UInt64}
    (h : ¬ index ≥ UInt64.ofNat xs.length) : index.toNat < xs.length := by
  rw [ge_iff_le, UInt64.not_le, UInt64.lt_iff_toNat_lt, UInt64.toNat_ofNat'] at h
  exact h.trans_le (Nat.mod_le _ _)

/-! ## Heads -/

inductive AnchorProofParts
  | custodianCoSig (sig : Bytes 64)
  | transparencyInclusion (checkpointSig : Bytes 64) (treeSize : UInt64) (root : Bytes 32)
      (index : UInt64) (path : List (Bytes 32))

/-- Both proofs of one head. -/
structure AnchorBundle where
  cosig : AnchorProofParts
  transparency : AnchorProofParts

/-- The keys of the custodian and of the transparency log, its leaves, and what was published. -/
structure Anchorer where
  custodian : SigningKey
  log : SigningKey
  leaves : List (List UInt8)
  history : List (AnchoredHead × AnchorBundle)

namespace Anchorer

def new (custodian log : SigningKey) : Anchorer := ⟨custodian, log, [], []⟩

variable [Ed25519] [Sha256]

/-- Add the head to the transparency log and prove it both ways. -/
def anchor (a : Anchorer) (head : AnchoredHead) : Option (AnchorBundle × Anchorer) :=
  if Growable a.leaves ∧ Growable a.history then
    let leaf := sinkHeadSigningInput head.chainSeq head.head
    let leaves := a.leaves ++ [leaf]
    let treeSize := UInt64.ofNat leaves.length
    let index := leaves.length - 1
    let root := merkleRoot rfc6962 leaves
    let path := inclusionPath rfc6962 index leaves (last_lt a.leaves leaf)
    let checkpointSig := a.log.signRaw (sinkCheckpointSigningInput treeSize root)
    let cosigSig := a.custodian.signRaw (sinkHeadSigningInput head.chainSeq head.head)
    let bundle : AnchorBundle := ⟨.custodianCoSig cosigSig,
      .transparencyInclusion checkpointSig treeSize root (UInt64.ofNat index) path⟩
    some (bundle, ⟨a.custodian, a.log, leaves, a.history ++ [(head, bundle)]⟩)
  else
    none

def anchorLog (a : Anchorer) : List (AnchoredHead × AnchorBundle) := a.history

end Anchorer

/-! ## Directory bindings -/

structure KtCheckpointOut where
  treeSize : UInt64
  root : Bytes 32
  sig : Bytes 64

structure InclusionOut where
  index : UInt64
  treeSize : UInt64
  path : List (Bytes 32)

/-- The log of directory bindings: its key, and the bytes of the bindings. -/
structure DirLog where
  logKey : SigningKey
  leaves : List (List UInt8)

namespace DirLog

def new (logKey : SigningKey) : DirLog := ⟨logKey, []⟩

/-- Add a binding, at the index that is returned. -/
def append (d : DirLog) (bindingBytes : List UInt8) : Option (UInt64 × DirLog) :=
  if Growable d.leaves then
    some (UInt64.ofNat d.leaves.length, ⟨d.logKey, d.leaves ++ [bindingBytes]⟩)
  else
    none

def treeSize (d : DirLog) : UInt64 := UInt64.ofNat d.leaves.length

variable [Ed25519] [Sha256]

def checkpoint (d : DirLog) : KtCheckpointOut :=
  let root := merkleRoot rfc6962 d.leaves
  ⟨d.treeSize, root, d.logKey.signRaw (ktCheckpointSigningInput d.treeSize root)⟩

def inclusion (d : DirLog) (index : UInt64) : Option InclusionOut :=
  if h : index ≥ UInt64.ofNat d.leaves.length then none
  else some ⟨index, d.treeSize, inclusionPath rfc6962 index.toNat d.leaves (toNat_lt_length h)⟩

/-- The proof that the log extends the one with its first `fromSize` bindings. -/
def consistency (d : DirLog) (fromSize : UInt64) : List (Bytes 32) :=
  consistencyPath rfc6962 d.leaves fromSize.toNat d.leaves.length le_rfl

end DirLog

end Sink

end MaxSecu
