import MaxSecu.Client.Upload

/-!
# Sharing a file onwards

Who holds the key of a version can wrap it to one more user, beside a grant that he signs.  The
tombstone set says whom nobody may re-admit.
-/

namespace MaxSecu

open ExceptRules

structure ReshareParams where
  granter : Identity
  granterId : Id
  fileId : Id
  version : UInt64
  /-- The commitment of the manifest. -/
  dekCommit : Bytes 32
  recipientId : Id
  recipientEncPub : EncPublicKey
  /-- The suite of the file. -/
  suite : Suite
  recipientMlkemPub : Option MlKemPub
  createdAt : Timestamp

inductive ReshareError
  | dekCommitMismatch
  | recipientRevoked
  | recipientIsRecovery
  | wrapFailed
  | resharePqKeyMissing
  deriving DecidableEq

section Reshare

variable [Ed25519] [Hkdf] [HpkeSeal] [Aes256GcmSeal] [X25519] [X25519Base] [MlKem768Encaps]

/-- Wrap the key to the keys of a recipient, under the suite of the file. -/
def wrapUnder (suite : Suite) (rand : WrapEntropy) (encPub : EncPublicKey)
    (mlkemPub : Option MlKemPub) (dek : Dek) (ctx : WrapContext) :
    Except ReshareError WrappedDek :=
  match suite with
  | .v1 => (wrapDek rand encPub dek ctx).mapError fun _ => .wrapFailed
  | .v2 => do
    let mlkem ← mlkemPub.elim (throw .resharePqKeyMissing) pure
    let hybrid ← (wrapDekHybrid rand ⟨encPub.bytes, mlkem.bytes⟩ dek ctx).mapError
      fun _ => .wrapFailed
    pure (packHybridWrap hybrid)

/-- The wrap and the grant that a re-share asks for. -/
def ReshareParams.request (params : ReshareParams) (dek : Dek) : WrapRequest where
  fileId := params.fileId
  version := params.version
  recipientId := params.recipientId
  recipientType := .user
  dek := dek
  dekCommit := params.dekCommit
  grantedBy := params.granterId
  createdAt := params.createdAt

/-- Build one wrap with its grant: the key must be the committed one, and the recipient a user who
is not revoked. -/
def buildReshare (rand : WrapEntropy) (params : ReshareParams) (dek : Dek)
    (tombstones : TombstoneSet) : Except ReshareError WrapOut :=
  if dek.commit ≠ params.dekCommit then
    throw .dekCommitMismatch
  else if params.recipientId = RECOVERY_ID then
    throw .recipientIsRecovery
  else if tombstones.isAccountRevoked params.recipientId ∨
      tombstones.isRevoked params.recipientId params.fileId params.version then
    throw .recipientRevoked
  else do
    let wrappedDek ← wrapUnder params.suite rand params.recipientEncPub params.recipientMlkemPub dek
      (params.request dek).context
    pure (wrapOut params.granter.sig (params.request dek) wrappedDek)

lemma buildReshare_eq_ok {rand : WrapEntropy} {params : ReshareParams} {dek : Dek}
    {tombstones : TombstoneSet} {w : WrapOut} :
    buildReshare rand params dek tombstones = .ok w ↔
      dek.commit = params.dekCommit ∧ params.recipientId ≠ RECOVERY_ID ∧
        ¬ (tombstones.isAccountRevoked params.recipientId ∨
          tombstones.isRevoked params.recipientId params.fileId params.version) ∧
        ∃ wrappedDek, wrapUnder params.suite rand params.recipientEncPub params.recipientMlkemPub
            dek (params.request dek).context = .ok wrappedDek ∧
          wrapOut params.granter.sig (params.request dek) wrappedDek = w := by
  unfold buildReshare
  simp only [guard_eq_ok, bind_eq_ok, pure_eq_ok, not_not, ne_eq]

end Reshare

end MaxSecu
