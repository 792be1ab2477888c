import MaxSecu.Client.UploadRecords

/-!
# Uploads whose content stays on disk

The content of a large file is sealed twice: a first pass takes only the number of its chunks and
their digest, with which the records are signed, and when the chunks are uploaded they are sealed
again one by one.  The key for that comes out of the owner's own wrap.

The records are those of an upload that holds the content in memory (`buildRecordsInner_eq`).
-/

namespace MaxSecu

open ExceptRules

/-- The streams besides the content. -/
structure SmallStreams where
  metadata : Option (List UInt8)
  thumbnail : Option (List UInt8)
  preview : Option (List UInt8)

namespace SmallStreams

variable (small : SmallStreams)

def inputs : List (StreamType × List UInt8) :=
  (small.metadata.map (StreamType.metadata, ·)).toList ++
    (small.thumbnail.map (StreamType.thumbnail, ·)).toList ++
    (small.preview.map (StreamType.preview, ·)).toList

def withContent (content : List UInt8) : PlaintextStreams :=
  ⟨content, small.metadata, small.thumbnail, small.preview⟩

lemma inputs_withContent (content : List UInt8) :
    (small.withContent content).inputs = (.content, content) :: small.inputs := by
  show _ :: _ ++ _ ++ _ = _
  unfold inputs withContent
  simp

end SmallStreams

/-- The records of a new file, without the chunks of its content. -/
structure UploadRecords where
  fileId : Id
  fileType : FileType
  genesis : Genesis
  genesisSig : Bytes 64
  manifest : Manifest
  manifestSig : Bytes 64
  wraps : List WrapOut
  smallStreams : List SealedStreamOut

/-- The records of an upload; the content comes first among its streams. -/
def UploadBundle.records (bundle : UploadBundle) : UploadRecords where
  fileId := bundle.fileId
  fileType := bundle.fileType
  genesis := bundle.genesis
  genesisSig := bundle.genesisSig
  manifest := bundle.manifest
  manifestSig := bundle.manifestSig
  wraps := bundle.wraps
  smallStreams := bundle.streams.tail

/-- Seals a stream under its subkey, whole or chunk by chunk. -/
structure ContentStreamSealer where
  subkey : Bytes 32
  fileId : Id
  version : UInt64
  streamType : StreamType
  chunkSize : ℕ

namespace ContentStreamSealer

def new [Hkdf] (dek : Dek) (fileId : Id) (version : UInt64) (streamType : StreamType)
    (chunkSize : ℕ) : ContentStreamSealer :=
  ⟨dek.streamSubkey streamType, fileId, version, streamType, chunkSize⟩

variable (sealer : ContentStreamSealer)

/-- The number of chunks of what was read, and their digest. -/
def sealFromReader [Sha256] [Aes256GcmSeal] (bytes : List UInt8) : UInt64 × Bytes 32 :=
  let sealed := sealStream sealer.subkey sealer.fileId sealer.version sealer.streamType
    sealer.chunkSize bytes
  (sealed.chunkCount, sealed.digest)

def sealChunk [Aes256GcmSeal] (index : UInt64) (plaintext : List UInt8) (isLast : Bool) :
    List UInt8 :=
  MaxSecu.sealChunk sealer.subkey
    ⟨sealer.fileId, sealer.version, sealer.streamType, index, isLast⟩ plaintext

end ContentStreamSealer

section Building

variable [Sha256] [Ed25519] [Hkdf] [Aes256Gcm] [Aes256GcmSeal] [Hpke] [HpkeSeal] [X25519]
  [X25519Base] [MlKem768] [MlKem768Encaps]

def contentSealer (dek : Dek) (params : UploadParams) : ContentStreamSealer :=
  .new dek params.fileId FIRST_VERSION .content params.chunkSize.toNat

/-- Seal the small streams and sign the records, with the digest and the number of chunks that the
content was found to have. -/
def buildRecordsInner (rand : ℕ → WrapEntropy) (dek : Dek) (params : UploadParams)
    (small : SmallStreams) (contentDigest : Bytes 32) (contentChunkCount : UInt64) :
    Except UploadError UploadRecords :=
  if params.chunkSize < CHUNK_SIZE_MIN ∨ params.chunkSize > CHUNK_SIZE_MAX then
    throw (.chunkSizeOutOfRange params.chunkSize)
  else do
    let dekCommit := dek.commit
    let (smallManifest, smallSealed) :=
      sealInputs dek params.fileId FIRST_VERSION params.chunkSize small.inputs
    let manifestStreams : List Stream :=
      ⟨.content, .none, contentChunkCount, ⟨contentDigest⟩⟩ :: smallManifest
    let (manifest, manifestSig, genesis, genesisSig, wraps) ←
      assembleRecords rand dek dekCommit params manifestStreams
    pure
      { fileId := params.fileId
        fileType := params.fileType
        genesis := genesis
        genesisSig := genesisSig
        manifest := manifest
        manifestSig := manifestSig
        wraps := wraps
        smallStreams := smallSealed }

/-- The records are those of the upload with the content in memory. -/
theorem buildRecordsInner_eq (rand : ℕ → WrapEntropy) (dek : Dek) (params : UploadParams)
    (small : SmallStreams) (content : List UInt8) :
    buildRecordsInner rand dek params small ((contentSealer dek params).sealFromReader content).2
        ((contentSealer dek params).sealFromReader content).1 =
      (buildUploadInner rand dek params (small.withContent content)).map UploadBundle.records := by
  have hsealed : sealStreams dek params.fileId FIRST_VERSION params.chunkSize
      (small.withContent content) =
      (⟨.content, .none, ((contentSealer dek params).sealFromReader content).1,
          ⟨((contentSealer dek params).sealFromReader content).2⟩⟩ ::
        (sealInputs dek params.fileId FIRST_VERSION params.chunkSize small.inputs).1,
        (sealInput dek params.fileId FIRST_VERSION params.chunkSize (.content, content)).2 ::
        (sealInputs dek params.fileId FIRST_VERSION params.chunkSize small.inputs).2) := by
    rw [sealStreams_eq, small.inputs_withContent]
    unfold sealInputs
    rw [List.map_cons, List.unzip_cons]
    rfl
  unfold buildRecordsInner buildUploadInner
  by_cases hsize : params.chunkSize < CHUNK_SIZE_MIN ∨ params.chunkSize > CHUNK_SIZE_MAX
  · rw [if_pos hsize, if_pos hsize]
    rfl
  · rw [if_neg hsize, if_neg hsize, hsealed]
    simp only
    cases assembleRecords rand dek dek.commit params
      (⟨.content, .none, ((contentSealer dek params).sealFromReader content).1,
          ⟨((contentSealer dek params).sealFromReader content).2⟩⟩ ::
        (sealInputs dek params.fileId FIRST_VERSION params.chunkSize small.inputs).1) with
    | error e => rfl
    | ok assembled => rfl

end Building

section Resuming

variable [Hkdf] [Aes256Gcm] [Hpke] [X25519] [MlKem768]

def recoverDek (selfSecret : EncSecretKey) (wrappedDek : WrappedDek) (ctx : WrapContext) :
    Except CryptoError Dek :=
  unwrapDek selfSecret wrappedDek ctx

def recoverDekHybrid (selfSecret : HybridEncSecretKey) (wrappedDek : WrappedDek)
    (ctx : WrapContext) : Except CryptoError Dek := do
  let hybrid ← unpackHybridWrap wrappedDek
  unwrapDekHybrid selfSecret hybrid ctx

/-- The sealer of a content upload that goes on, with the key from the owner's own wrap. -/
def resumeContentSealer (owner : Identity) (selfWrappedDek : WrappedDek) (ctx : WrapContext)
    (suite : Suite) (fileId : Id) (version : UInt64) (chunkSize : UInt32) :
    Except UploadError ContentStreamSealer := do
  let dek ←
    match suite with
    | .v1 => (recoverDek owner.encSk selfWrappedDek ctx).mapError .crypto
    | .v2 =>
      match owner.mlkemSeed with
      | none => throw (.crypto .wrapOpen)
      | some seed =>
        (recoverDekHybrid ⟨owner.encSk.bytes, seed⟩ selfWrappedDek ctx).mapError .crypto
  pure (.new dek fileId version .content chunkSize.toNat)

lemma WrappedDek.OpensUnder.resumes {owner : Identity} {wrapped : WrappedDek} {suite : Suite}
    {ctx : WrapContext} {dek : Dek}
    (h : wrapped.OpensUnder suite owner.encSk owner.mlkemSeed ctx dek) (fileId : Id)
    (version : UInt64) (chunkSize : UInt32) :
    resumeContentSealer owner wrapped ctx suite fileId version chunkSize =
      .ok (.new dek fileId version .content chunkSize.toNat) := by
  unfold resumeContentSealer
  cases suite with
  | v1 => exact bind_eq_ok.mpr ⟨dek, mapError_eq_ok.mpr h, rfl⟩
  | v2 =>
    obtain ⟨seed, hybrid, hseed, hunpack, hopen⟩ := h
    simp only [hseed]
    refine bind_eq_ok.mpr ⟨dek, mapError_eq_ok.mpr ?_, rfl⟩
    exact bind_eq_ok.mpr ⟨hybrid, hunpack, hopen⟩

end Resuming

end MaxSecu
