import MaxSecu.Client.StreamingUpload
import MaxSecu.Crypto.StreamingSeal

/-!
# Sealing the content of an upload from a reader

The content of an upload that stays on disk is read and sealed twice, and the second time each chunk
may be sealed by itself.  Either way its chunks are those that an upload with the content in memory
has, and so are the records that are signed over their number and digest
(`buildRecordsInner_of_streamed`).
-/

namespace MaxSecu

open ExceptRules

section Sealers

variable [Aes256GcmSeal] {ρ ε σ : Type} (sealer : ContentStreamSealer)

/-- Seal what a reader brings, and hand each chunk to `emit`. -/
def ContentStreamSealer.sealFromReaderStreaming [Sha256]
    (read : ℕ → ρ → Except ε (List UInt8 × ρ))
    (emit : UInt64 → List UInt8 → ExceptT CryptoError (StateM σ) Unit) (fuel : ℕ) (r : ρ) :
    ExceptT CryptoError (StateM σ) (Option (UInt64 × Bytes 32)) :=
  sealStreamStreaming read sealer.subkey sealer.fileId sealer.version sealer.streamType
    sealer.chunkSize emit fuel r

/-- Seal frames one by one, each under its index.  Only the last one is sealed as the last. -/
def ContentStreamSealer.sealEach (frames : List (List UInt8)) : List (List UInt8) :=
  frames.mapIdx fun i frame => sealer.sealChunk (UInt64.ofNat i) frame (i = frames.length - 1)

end Sealers

section Building

variable [Sha256] [Ed25519] [Hkdf] [Aes256Gcm] [Aes256GcmSeal] [Hpke] [HpkeSeal] [X25519]
  [X25519Base] [MlKem768] [MlKem768Encaps]

lemma head?_streams_of_buildUploadInner {rand : ℕ → WrapEntropy} {dek : Dek}
    {params : UploadParams} {streams : PlaintextStreams} {bundle : UploadBundle}
    (h : buildUploadInner rand dek params streams = .ok bundle) :
    bundle.streams.head? = some
      (sealInput dek params.fileId FIRST_VERSION params.chunkSize (.content, streams.content)).2 := by
  obtain ⟨-, wraps, -, rfl⟩ := buildUploadInner_eq_ok.mp h
  show (sealStreams dek params.fileId FIRST_VERSION params.chunkSize streams).2.head? = _
  rw [sealStreams_eq]
  rfl

/-- Whether the content is sealed from a reader, however its reads are split, or frame by frame, its
chunks are those of the upload that holds it in memory, and the records over their number and digest
are that upload's, signatures and wraps included. -/
theorem buildRecordsInner_of_streamed {ρ ε σ : Type} (rand : ℕ → WrapEntropy) (dek : Dek)
    (params : UploadParams) (small : SmallStreams) (content : List UInt8)
    (hsize : 0 < params.chunkSize.toNat) {read : ℕ → ρ → Except ε (List UInt8 × ρ)}
    {rest : ρ → List UInt8} (hread : Splits read rest) {r : ρ} (hrest : rest r = content) :
    ∃ chunks count digest,
      (∀ (emit : UInt64 → List UInt8 → ExceptT CryptoError (StateM σ) Unit) (fuel : ℕ),
        (framesOf params.chunkSize.toNat content).length ≤ fuel → ∀ t,
          runFrom ((contentSealer dek params).sealFromReaderStreaming read emit fuel r) t =
            runFrom (do
              emitAll emit 0 chunks
              pure (some (count, digest))) t) ∧
        (contentSealer dek params).sealEach (framesOf params.chunkSize.toNat content) = chunks ∧
        buildRecordsInner rand dek params small digest count =
          (buildUploadInner rand dek params (small.withContent content)).map
            UploadBundle.records ∧
        ∀ bundle, buildUploadInner rand dek params (small.withContent content) = .ok bundle →
          ∃ out, bundle.streams.head? = some out ∧ out.streamType = .content ∧
            out.chunkCount = count ∧ out.digest = digest ∧ out.chunks = chunks := by
  let sealed := sealStream (dek.streamSubkey .content) params.fileId FIRST_VERSION .content
    params.chunkSize.toNat content
  refine ⟨sealed.chunks, sealed.chunkCount, sealed.digest, ?_, rfl, ?_, ?_⟩
  · intro emit fuel hfuel t
    exact hread.sealStreamStreaming hsize hrest hfuel t
  · exact buildRecordsInner_eq rand dek params small content
  · intro bundle hbundle
    exact ⟨_, head?_streams_of_buildUploadInner hbundle, rfl, rfl, rfl, rfl⟩

end Building

section OneByteReads

open ClosedRuns

/-- An upload from an owner with no ML-KEM keys. -/
def diskUpload : UploadParams where
  owner := ⟨⟨.replicate 32 1⟩, ⟨.replicate 32 1⟩, ⟨.replicate 32 1⟩, none⟩
  ownerId := ⟨.replicate 16 4⟩
  ownerKeyVersion := 1
  fileId := ⟨.replicate 16 5⟩
  fileType := .generic
  chunkSize := CHUNK_SIZE_MIN
  recoveryPub := ⟨.replicate 32 2⟩
  recoveryMlkemPub := none
  createdAt := ⟨0⟩

def diskEntropy : ℕ → WrapEntropy := fun _ => ⟨.replicate 32 0, .replicate 32 0, .replicate 32 0⟩

def diskDek : Dek := ⟨.replicate 32 9⟩

theorem buildRecordsInner_oneByteReads :
    ∃ chunks count digest,
      runFrom ((contentSealer diskDek diskUpload).sealFromReaderStreaming readByte
          (fun index ct => modify fun emitted => emitted ++ [(index, ct)]) 1 [1, 2, 3]) [] =
        runFrom (do
          emitAll (fun index ct => modify fun emitted => emitted ++ [(index, ct)]) 0 chunks
          pure (some (count, digest))) [] ∧
      (contentSealer diskDek diskUpload).sealEach [[1, 2, 3]] = chunks ∧
      buildRecordsInner diskEntropy diskDek diskUpload ⟨none, none, none⟩ digest count =
        (buildUploadInner diskEntropy diskDek diskUpload ⟨[1, 2, 3], none, none, none⟩).map
          UploadBundle.records := by
  have hframes : framesOf diskUpload.chunkSize.toNat [1, 2, 3] = [[1, 2, 3]] :=
    framesOf_of_length_le (by decide)
  obtain ⟨chunks, count, digest, hsealed, heach, hrecords, -⟩ :=
    buildRecordsInner_of_streamed diskEntropy diskDek diskUpload ⟨none, none, none⟩ [1, 2, 3]
      (by decide) readByte_splits rfl
  rw [hframes] at hsealed heach
  exact ⟨chunks, count, digest, hsealed _ 1 le_rfl [], heach, hrecords⟩

end OneByteReads

end MaxSecu
