import MaxSecu.Client.Upload
import MaxSecu.Crypto.KeyPairs

/-!
# The records of a new file

The owner seals the streams of version 1, signs the manifest and the genesis, and wraps the key to
himself and to the recovery recipient.  Nobody else gets a wrap.

The file is of the hybrid suite exactly if both of them have an ML-KEM key.
-/

namespace MaxSecu

open ExceptRules

def FIRST_VERSION : UInt64 := 1

/-- Who uploads what, and to which recovery keys. -/
structure UploadParams where
  owner : Identity
  ownerId : Id
  ownerKeyVersion : UInt64
  fileId : Id
  fileType : FileType
  chunkSize : UInt32
  recoveryPub : EncPublicKey
  recoveryMlkemPub : Option (Bytes MLKEM768_PUB_LEN)
  createdAt : Timestamp

/-- The complete records of a new file. -/
structure UploadBundle where
  fileId : Id
  fileType : FileType
  genesis : Genesis
  genesisSig : Bytes 64
  manifest : Manifest
  manifestSig : Bytes 64
  streams : List SealedStreamOut
  wraps : List WrapOut

/-- The streams that are there, with their types, in the order of the types. -/
def PlaintextStreams.inputs (streams : PlaintextStreams) : List (StreamType × List UInt8) :=
  (.content, streams.content) ::
    (streams.metadata.map (StreamType.metadata, ·)).toList ++
    (streams.thumbnail.map (StreamType.thumbnail, ·)).toList ++
    (streams.preview.map (StreamType.preview, ·)).toList

lemma sealStreams_eq [Sha256] [Hkdf] [Aes256GcmSeal] (dek : Dek) (fileId : Id) (version : UInt64)
    (chunkSize : UInt32) (streams : PlaintextStreams) :
    sealStreams dek fileId version chunkSize streams =
      sealInputs dek fileId version chunkSize streams.inputs := rfl

lemma PlaintextStreams.pairwise_inputs (streams : PlaintextStreams) :
    streams.inputs.Pairwise fun a b => a.1.codepoint < b.1.codepoint := by
  obtain ⟨content, metadata, thumbnail, preview⟩ := streams
  unfold PlaintextStreams.inputs
  cases metadata <;> cases thumbnail <;> cases preview <;>
    simp [StreamType.codepoint]

namespace UploadParams

variable (params : UploadParams)

/-- The ML-KEM keys of the owner and of the recovery recipient, if both have one. -/
def pq : Option (MlKemKeypair × Bytes MLKEM768_PUB_LEN) := do
  let ownerMlkem ← params.owner.mlkem
  let recoveryMlkem ← params.recoveryMlkemPub
  return (ownerMlkem, recoveryMlkem)

def suite : Suite := if params.pq.isSome then .v2 else .v1

def manifest (dekCommit : Bytes 32) (streams : List Stream) : Manifest where
  fileId := params.fileId
  version := FIRST_VERSION
  fileType := params.fileType
  alg := params.suite
  chunkSize := params.chunkSize
  dekCommit := ⟨dekCommit⟩
  streams := streams
  recoveryPresent := true
  authorId := params.ownerId
  createdAt := params.createdAt

def genesis : Genesis where
  fileId := params.fileId
  ownerId := params.ownerId
  ownerKeyVersion := params.ownerKeyVersion
  createdAt := params.createdAt

def request (dek : Dek) (dekCommit : Bytes 32) (recipientId : Id) (recipientType : RecipientType) :
    WrapRequest where
  fileId := params.fileId
  version := FIRST_VERSION
  recipientId := recipientId
  recipientType := recipientType
  dek := dek
  dekCommit := dekCommit
  grantedBy := params.ownerId
  createdAt := params.createdAt

end UploadParams

section Building

variable [Sha256] [Ed25519] [Hkdf] [Aes256Gcm] [Aes256GcmSeal] [Hpke] [HpkeSeal] [X25519]
  [X25519Base] [MlKem768] [MlKem768Encaps]

/-- The wrap to the owner, which is opened again, and the wrap to the recovery recipient. -/
def standingWraps (rand : ℕ → WrapEntropy) (dek : Dek) (dekCommit : Bytes 32)
    (params : UploadParams) : Except UploadError (List WrapOut) :=
  let own := params.request dek dekCommit params.ownerId .user
  let recovery := params.request dek dekCommit RECOVERY_ID .recovery
  match params.pq with
  | some (ownerMlkem, recoveryMlkem) => do
    let ownerWrap ← wrapAndGrantHybrid (rand 0) params.owner.sig own
      ⟨params.owner.encPubBytes, ownerMlkem.publicKey⟩
      (some ⟨params.owner.encSk.bytes, ownerMlkem.seed⟩)
    let recoveryWrap ← wrapAndGrantHybrid (rand 1) params.owner.sig recovery
      ⟨params.recoveryPub.bytes, recoveryMlkem⟩ none
    pure [ownerWrap, recoveryWrap]
  | none => do
    let ownerWrap ← wrapAndGrant (rand 0) params.owner.sig own ⟨params.owner.encPubBytes⟩
      (some params.owner.encSk)
    let recoveryWrap ← wrapAndGrant (rand 1) params.owner.sig recovery params.recoveryPub none
    pure [ownerWrap, recoveryWrap]

/-- Sign the manifest and the genesis, and wrap the key. -/
def assembleRecords (rand : ℕ → WrapEntropy) (dek : Dek) (dekCommit : Bytes 32)
    (params : UploadParams) (manifestStreams : List Stream) :
    Except UploadError (Manifest × Bytes 64 × Genesis × Bytes 64 × List WrapOut) := do
  let signer := params.owner.sig
  let manifest := params.manifest dekCommit manifestStreams
  let manifestSig := signer.signCanonical Label.manifest.text manifest
  let genesis := params.genesis
  let genesisSig := signer.signCanonical Label.genesis.text genesis
  let wraps ← standingWraps rand dek dekCommit params
  pure (manifest, manifestSig, genesis, genesisSig, wraps)

/-- Build the upload of version 1 under the key `dek`. -/
def buildUploadInner (rand : ℕ → WrapEntropy) (dek : Dek) (params : UploadParams)
    (streams : PlaintextStreams) : Except UploadError UploadBundle :=
  if params.chunkSize < CHUNK_SIZE_MIN ∨ params.chunkSize > CHUNK_SIZE_MAX then
    throw (.chunkSizeOutOfRange params.chunkSize)
  else do
    let dekCommit := dek.commit
    let (manifestStreams, sealedOut) :=
      sealStreams dek params.fileId FIRST_VERSION params.chunkSize streams
    let (manifest, manifestSig, genesis, genesisSig, wraps) ←
      assembleRecords rand dek dekCommit params manifestStreams
    pure
      { fileId := params.fileId
        fileType := params.fileType
        genesis := genesis
        genesisSig := genesisSig
        manifest := manifest
        manifestSig := manifestSig
        streams := sealedOut
        wraps := wraps }

/-- The upload that is built, once its wraps are. -/
def UploadParams.bundle (params : UploadParams) (dek : Dek) (streams : PlaintextStreams)
    (wraps : List WrapOut) : UploadBundle :=
  let sealed := sealStreams dek params.fileId FIRST_VERSION params.chunkSize streams
  let manifest := params.manifest dek.commit sealed.1
  { fileId := params.fileId
    fileType := params.fileType
    genesis := params.genesis
    genesisSig := params.owner.sig.signCanonical Label.genesis.text params.genesis
    manifest := manifest
    manifestSig := params.owner.sig.signCanonical Label.manifest.text manifest
    streams := sealed.2
    wraps := wraps }

lemma buildUploadInner_eq_ok {rand : ℕ → WrapEntropy} {dek : Dek} {params : UploadParams}
    {streams : PlaintextStreams} {bundle : UploadBundle} :
    buildUploadInner rand dek params streams = .ok bundle ↔
      ¬ (params.chunkSize < CHUNK_SIZE_MIN ∨ params.chunkSize > CHUNK_SIZE_MAX) ∧
        ∃ wraps, standingWraps rand dek dek.commit params = .ok wraps ∧
          params.bundle dek streams wraps = bundle := by
  unfold buildUploadInner assembleRecords UploadParams.bundle
  simp only [guard_eq_ok, bind_eq_ok, pure_eq_ok]
  constructor
  · rintro ⟨hsize, _, ⟨wraps, hwraps, rfl⟩, hbundle⟩
    exact ⟨hsize, wraps, hwraps, hbundle⟩
  · rintro ⟨hsize, wraps, hwraps, hbundle⟩
    exact ⟨hsize, _, ⟨wraps, hwraps, rfl⟩, hbundle⟩

end Building

/-! ## What the wraps open to -/

section Wraps

variable [Ed25519] [Hkdf] [Aes256Gcm] [Aes256GcmSeal] [Hpke] [HpkeSeal] [X25519] [X25519Base]
  [MlKem768] [MlKem768Encaps]

/-- The wrap is opened by who holds the private keys, as the suite lays it out. -/
def WrappedDek.OpensUnder (wrapped : WrappedDek) (suite : Suite) (sk : EncSecretKey)
    (seed : Option (Bytes 64)) (ctx : WrapContext) (dek : Dek) : Prop :=
  match suite with
  | .v1 => unwrapDek sk wrapped ctx = .ok dek
  | .v2 => ∃ s hybrid, seed = some s ∧ unpackHybridWrap wrapped = .ok hybrid ∧
      unwrapDekHybrid ⟨sk.bytes, s⟩ hybrid ctx = .ok dek

variable {rand : WrapEntropy} {signer : SigningKey} {req : WrapRequest} {w : WrapOut}

omit [Aes256Gcm] [Aes256GcmSeal] [X25519] [X25519Base] [MlKem768] [MlKem768Encaps] in
lemma wrapAndGrant_wraps {pk : EncPublicKey} {self : Option EncSecretKey}
    (h : wrapAndGrant rand signer req pk self = .ok w) :
    wrapDek rand pk req.dek req.context = .ok w.wrappedDek ∧
      wrapOut signer req w.wrappedDek = w := by
  unfold wrapAndGrant at h
  obtain ⟨wrappedDek, hwrap, h⟩ := bind_eq_ok.mp h
  have hwrapped := mapError_eq_ok.mp hwrap
  cases self with
  | none =>
    obtain rfl := pure_eq_ok.mp h
    exact ⟨hwrapped, rfl⟩
  | some sk =>
    obtain ⟨reopened, -, h⟩ := bind_eq_ok.mp h
    obtain rfl := pure_eq_ok.mp (guard_eq_ok.mp h).2
    exact ⟨hwrapped, rfl⟩

omit [Hpke] [HpkeSeal] in
lemma wrapAndGrantHybrid_wraps {pk : HybridEncPublicKey} {self : Option HybridEncSecretKey}
    (h : wrapAndGrantHybrid rand signer req pk self = .ok w) :
    ∃ hybrid, wrapDekHybrid rand pk req.dek req.context = .ok hybrid ∧
      packHybridWrap hybrid = w.wrappedDek ∧ wrapOut signer req w.wrappedDek = w := by
  unfold wrapAndGrantHybrid at h
  obtain ⟨hybrid, hwrap, h⟩ := bind_eq_ok.mp h
  have hwrapped := mapError_eq_ok.mp hwrap
  cases self with
  | none =>
    obtain rfl := pure_eq_ok.mp h
    exact ⟨hybrid, hwrapped, rfl, rfl⟩
  | some sk =>
    obtain ⟨reopened, -, h⟩ := bind_eq_ok.mp h
    obtain rfl := pure_eq_ok.mp (guard_eq_ok.mp h).2
    exact ⟨hybrid, hwrapped, rfl, rfl⟩

omit [Ed25519] [Aes256GcmSeal] in
lemma HoldsKeys.opensUnder_v1 {sk : EncSecretKey} {seed : Option (Bytes 64)} {encPub : EncPublicKey}
    {mlkemPub : Option (Bytes MLKEM768_PUB_LEN)} (hkeys : HoldsKeys sk seed encPub mlkemPub)
    {dek : Dek} {ctx : WrapContext} {wrapped : WrappedDek}
    (hwrap : wrapDek rand encPub dek ctx = .ok wrapped) :
    wrapped.OpensUnder .v1 sk seed ctx dek :=
  hkeys.classical.unwrapDek hwrap

omit [Ed25519] in
lemma HoldsKeys.opensUnder_v2 (haead : AeadOpens) {sk : EncSecretKey} {seed : Option (Bytes 64)}
    {encPub : EncPublicKey} {pk : Bytes MLKEM768_PUB_LEN}
    (hkeys : HoldsKeys sk seed encPub (some pk)) {dek : Dek} {ctx : WrapContext}
    {hybrid : HybridWrappedDek}
    (hwrap : wrapDekHybrid rand ⟨encPub.bytes, pk⟩ dek ctx = .ok hybrid) :
    (packHybridWrap hybrid).OpensUnder .v2 sk seed ctx dek := by
  obtain ⟨s, hs, hpair⟩ := hkeys.hybrid pk rfl
  obtain ⟨hctPq, haeadCt, hopen⟩ := hpair.unwrapDekHybrid haead hwrap
  exact ⟨s, hybrid, hs, unpackHybridWrap_packHybridWrap hctPq haeadCt, hopen⟩

/-- The two wraps of an upload carry the grants that were asked for, and each is opened by who holds
the keys it was made to. -/
lemma standingWraps_eq_ok {rand : ℕ → WrapEntropy} {dek : Dek} {dekCommit : Bytes 32}
    {params : UploadParams} {wraps : List WrapOut} (haead : AeadOpens)
    (h : standingWraps rand dek dekCommit params = .ok wraps) :
    ∃ own recovery, wraps =
        [wrapOut params.owner.sig (params.request dek dekCommit params.ownerId .user) own,
          wrapOut params.owner.sig (params.request dek dekCommit RECOVERY_ID .recovery) recovery] ∧
      (∀ sk seed, HoldsKeys sk seed params.owner.encPk params.owner.mlkemPubBytes →
        own.OpensUnder params.suite sk seed
          ⟨params.fileId, FIRST_VERSION, params.ownerId⟩ dek) ∧
      ∀ sk seed, HoldsKeys sk seed params.recoveryPub params.recoveryMlkemPub →
        recovery.OpensUnder params.suite sk seed ⟨params.fileId, FIRST_VERSION, RECOVERY_ID⟩ dek := by
  unfold standingWraps at h
  cases hpq : params.pq with
  | none =>
    have hsuite : params.suite = .v1 := by
      unfold UploadParams.suite
      rw [hpq]
      rfl
    rw [hpq] at h
    obtain ⟨ownerWrap, hown, h⟩ := bind_eq_ok.mp h
    obtain ⟨recoveryWrap, hrecovery, h⟩ := bind_eq_ok.mp h
    obtain ⟨hown, howner⟩ := wrapAndGrant_wraps hown
    obtain ⟨hrecovery, hrecover⟩ := wrapAndGrant_wraps hrecovery
    refine ⟨ownerWrap.wrappedDek, recoveryWrap.wrappedDek, ?_, ?_, ?_⟩
    · rw [howner, hrecover]
      exact (pure_eq_ok.mp h).symm
    · intro sk seed hkeys
      rw [hsuite]
      exact hkeys.opensUnder_v1 hown
    · intro sk seed hkeys
      rw [hsuite]
      exact hkeys.opensUnder_v1 hrecovery
  | some keys =>
    obtain ⟨ownerMlkem, recoveryMlkem⟩ := keys
    have hsuite : params.suite = .v2 := by
      unfold UploadParams.suite
      rw [hpq]
      rfl
    obtain ⟨hmlkem, hpub⟩ : params.owner.mlkem = some ownerMlkem ∧
        params.recoveryMlkemPub = some recoveryMlkem := by
      unfold UploadParams.pq at hpq
      simpa [Option.bind_eq_some_iff] using hpq
    rw [hpq] at h
    obtain ⟨ownerWrap, hown, h⟩ := bind_eq_ok.mp h
    obtain ⟨recoveryWrap, hrecovery, h⟩ := bind_eq_ok.mp h
    obtain ⟨hybrid, hown, hpacked, howner⟩ := wrapAndGrantHybrid_wraps hown
    obtain ⟨hybrid', hrecovery, hpacked', hrecover⟩ := wrapAndGrantHybrid_wraps hrecovery
    refine ⟨ownerWrap.wrappedDek, recoveryWrap.wrappedDek, ?_, ?_, ?_⟩
    · rw [howner, hrecover]
      exact (pure_eq_ok.mp h).symm
    · intro sk seed hkeys
      have hmlkemPub : params.owner.mlkemPubBytes = some ownerMlkem.publicKey := by
        unfold Identity.mlkemPubBytes
        rw [hmlkem]
        rfl
      rw [hmlkemPub] at hkeys
      rw [hsuite, ← hpacked]
      exact hkeys.opensUnder_v2 haead hown
    · intro sk seed hkeys
      rw [hpub] at hkeys
      rw [hsuite, ← hpacked']
      exact hkeys.opensUnder_v2 haead hrecovery

end Wraps

end MaxSecu
