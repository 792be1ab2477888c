import MaxSecu.Crypto.StreamingSeal
import MaxSecu.App.UploadRoundTrip
import MaxSecu.App.UploadTraces

/-!
# Resumed uploads

The content of an upload from disk is sealed from the staged file by whoever has the owner's keys,
piece by piece, and perhaps in another run of the app than the one that staged it.
-/

namespace MaxSecu

open ExceptRules Framing

lemma getElem?_framesOf {n : ℕ} (hn : 0 < n) {plaintext frame : List UInt8} {i : ℕ}
    (h : (framesOf n plaintext)[i]? = some frame) : (plaintext.drop (i * n)).take n = frame := by
  unfold framesOf at h
  by_cases hempty : (plaintext.toChunks n).isEmpty
  · rw [if_pos hempty] at h
    obtain rfl : plaintext = [] := (toChunks_eq_nil hn).mp (List.isEmpty_iff.mp hempty)
    cases i with
    | zero => simpa using h
    | succ i => cases h
  · rw [if_neg hempty] at h
    exact getElem?_toChunks hn h

lemma StagingRecord.selfWrap_eq_ok [Ed25519] [Hkdf] {rec : StagingRecord} {params : UploadParams}
    {dek : Dek} {own recovery : WrappedDek}
    (hwraps : rec.wraps = (params.wraps dek own recovery).map StagedWrap.ofWrap) :
    rec.selfWrap = .ok (own, ⟨rec.fileId, FIRST_VERSION, params.ownerId⟩) := by
  have henc : own.enc.toList.length = 32 := own.enc.toList_length
  let w : StagedWrap :=
    .ofWrap (wrapOut params.owner.sig (params.request dek dek.commit params.ownerId .user) own)
  have hlength : ¬ w.wrappedDek.length < 32 := by
    show ¬ (own.enc.toList ++ own.ct).length < 32
    rw [List.length_append, henc]
    omega
  have hfirst : (rec.wraps.find? fun w => w.recipientType = .user) = some w := by
    rw [hwraps]
    rfl
  unfold selfWrap
  rw [hfirst]
  dsimp only
  rw [dif_neg hlength, pure_eq_ok]
  refine congr (congrArg Prod.mk (congr (congrArg WrappedDek.mk ?_) (List.drop_left' henc))) rfl
  apply List.Vector.toList_injective
  exact List.take_left' henc

section Resuming

variable [Sha256] [Ed25519] [Hkdf] [Aes256Gcm] [Aes256GcmSeal] [Hpke] [HpkeSeal] [X25519]
  [X25519Base] [MlKem768] [MlKem768Encaps] {rand : ℕ → WrapEntropy} {dek : Dek}
  {item : StreamingItem} {rec rec' : StagingRecord} {owner : Identity}
  (hstage : stageStreamingContent rand dek item = .ok rec)

include hstage

/-- What is sealed from the place of a chunk in the content is this chunk of the signed stream. -/
lemma stageStreamingContent_chunk
    (hcount : (framesOf item.params.chunkSize.toNat item.read).length < 2 ^ 64) {i : UInt64}
    (hi : i < rec.contentChunkCount) :
    (sealInput dek rec.fileId FIRST_VERSION rec.chunkSize (.content, item.read)).2.chunks[i.toNat]? =
      some ((contentSealer dek item.params).sealChunk i
        ((item.read.drop (i.toNat * rec.chunkSize.toNat)).take rec.chunkSize.toNat)
        (i = rec.contentChunkCount - 1)) := by
  obtain ⟨bundle, hbuild, rfl⟩ := stageStreamingContent_eq_ok.mp hstage
  obtain ⟨hsize, wraps, -, rfl⟩ := buildUploadInner_eq_ok.mp hbuild
  set rec := item.staged dek (item.params.bundle dek item.streams wraps)
  set frames := framesOf item.params.chunkSize.toNat item.read
  have hlength : rec.contentChunkCount.toNat = frames.length := by
    show (UInt64.ofNat frames.length).toNat = _
    rw [UInt64.toNat_ofNat', Nat.mod_eq_of_lt hcount]
  have hlt : i.toNat < frames.length := hlength ▸ UInt64.lt_iff_toNat_lt.mp hi
  have hframe := getElem?_framesOf (chunkSize_pos hsize) (List.getElem?_eq_getElem hlt)
  have hlast : (i = rec.contentChunkCount - 1) ↔ i.toNat = frames.length - 1 := by
    have hone : (1 : UInt64) ≤ rec.contentChunkCount := by
      rw [UInt64.le_iff_toNat_le, hlength, UInt64.toNat_one]
      omega
    rw [← UInt64.toNat_inj, UInt64.toNat_sub_of_le _ _ hone, hlength, UInt64.toNat_one]
  have hchunks : (sealInput dek rec.fileId FIRST_VERSION rec.chunkSize
      (.content, item.read)).2.chunks = frames.mapIdx fun i frame =>
        (contentSealer dek item.params).sealChunk (UInt64.ofNat i) frame (i = frames.length - 1) :=
    rfl
  rw [hchunks, List.getElem?_mapIdx, List.getElem?_eq_getElem hlt, Option.map_some,
    UInt64.ofNat_toNat, ← hframe]
  simp only [hlast]
  rfl

variable (haead : AeadOpens) (hkeys : HoldsKeys owner.encSk owner.mlkemSeed
  item.params.owner.encPk item.params.owner.mlkemPubBytes) (hprogress : rec.SameUpload rec')

include haead hkeys hprogress

lemma stageStreamingContent_recovers {sealer : ContentStreamSealer} :
    rec'.Recovers owner sealer ↔ sealer = contentSealer dek item.params := by
  obtain ⟨bundle, hbuild, rfl⟩ := stageStreamingContent_eq_ok.mp hstage
  obtain ⟨-, wraps, hwraps, rfl⟩ := buildUploadInner_eq_ok.mp hbuild
  obtain ⟨own, recovery, hlist, hopens, -⟩ := standingWraps_eq_ok haead hwraps
  obtain rfl : wraps = item.params.wraps dek own recovery := hlist
  have hself : rec'.selfWrap = .ok (own, ⟨rec'.fileId, FIRST_VERSION, item.params.ownerId⟩) :=
    StagingRecord.selfWrap_eq_ok (hprogress.congr StagingRecord.wraps fun _ _ _ => rfl)
  have hsuite : rec'.suite = item.params.suite := by
    have hdecode : decode Manifest (encode (item.params.bundle dek item.streams
        (item.params.wraps dek own recovery)).manifest) = .ok _ :=
      decode_encode (item.params.bundle_wellFormed dek item.streams _)
    unfold StagingRecord.suite
    rw [hprogress.congr StagingRecord.manifest fun _ _ _ => rfl]
    exact hdecode ▸ rfl
  have hresumes := (hopens owner.encSk owner.mlkemSeed hkeys).resumes item.params.fileId
    FIRST_VERSION item.params.chunkSize
  unfold StagingRecord.Recovers
  rw [hself, hsuite, hprogress.fileId, hprogress.chunkSize]
  constructor
  · rintro ⟨wrapped, ctx, hwrap, hresume⟩
    obtain ⟨rfl, rfl⟩ := Prod.mk.inj (Except.ok.inj hwrap)
    exact Except.ok.inj (hresume.symm.trans hresumes)
  · rintro rfl
    exact ⟨_, _, rfl, hresumes⟩

/-- **A resumed upload seals what was signed.**  Of an upload from disk, however far it has come, who
holds the owner's keys recovers exactly one sealer.  What it seals at each place of a staged file with
what the first pass read is the chunk of a stream whose number of chunks and digest are those that
the signed manifest declares, and which opens to what was read. -/
theorem stageStreamingContent_resumes
    (hcount : (framesOf item.params.chunkSize.toNat item.read).length < 2 ^ 64) :
    ∃ manifest declared chunks sealer, decode Manifest rec'.manifest = .ok manifest ∧
      manifest.streams.head? = some declared ∧ declared.streamType = .content ∧
      chunks.length = declared.chunkCount.toNat ∧ streamDigest chunks = declared.digest.bytes ∧
      openStream (dek.streamSubkey .content) rec'.fileId FIRST_VERSION .content chunks =
        .ok item.read ∧
      (∀ s, rec'.Recovers owner s ↔ s = sealer) ∧
      ∀ i : UInt64, i < rec'.contentChunkCount → chunks[i.toNat]? = some (sealer.sealChunk i
        ((item.read.drop (i.toNat * rec'.chunkSize.toNat)).take rec'.chunkSize.toNat)
        (i = rec'.contentChunkCount - 1)) := by
  rw [hprogress.fileId, hprogress.chunkSize, hprogress.contentChunkCount,
    hprogress.congr StagingRecord.manifest fun _ _ _ => rfl]
  obtain ⟨bundle, hbuild, rfl⟩ := stageStreamingContent_eq_ok.mp hstage
  obtain ⟨hsize, wraps, -, rfl⟩ := buildUploadInner_eq_ok.mp hbuild
  refine ⟨_, _, _, contentSealer dek item.params,
    decode_encode (item.params.bundle_wellFormed dek item.streams wraps),
    congrArg List.head? (item.params.bundle_declared dek item.streams wraps), rfl,
    length_sealInput_chunks hcount, rfl, haead.openStream (chunkSize_pos hsize), fun s => ?_,
    fun i hi => ?_⟩
  · exact stageStreamingContent_recovers hstage haead hkeys hprogress
  · exact stageStreamingContent_chunk hstage hcount hi

end Resuming

open ClosedRuns

/-- Two bytes that are staged on disk. -/
def twoBytesItem : StreamingItem :=
  ⟨plainUpload ⟨.replicate 16 1⟩, ⟨none, none, none⟩, "", [1, 2], 2, [1, 2]⟩

/-- Resumed after the only chunk. -/
theorem stageStreamingContent_resumes_afterLast :
    ∃ rec sealer, stageStreamingContent plainEntropy plainDek twoBytesItem = .ok rec ∧
      ∀ s, (rec.advance 1 0).Recovers twoBytesItem.params.owner s ↔ s = sealer := by
  obtain ⟨bundle, hbuild⟩ := exists_buildUploadInner ⟨.replicate 16 1⟩ twoBytesItem.streams
  have hstage : stageStreamingContent plainEntropy plainDek twoBytesItem =
      .ok (twoBytesItem.staged plainDek bundle) :=
    stageStreamingContent_eq_ok.mpr ⟨bundle, hbuild, rfl⟩
  have hcount : (framesOf twoBytesItem.params.chunkSize.toNat [1, 2]).length < 2 ^ 64 := by
    rw [framesOf_of_length_le (by decide)]
    decide
  obtain ⟨_, _, _, sealer, -, -, -, -, -, -, hrecovers, -⟩ := stageStreamingContent_resumes hstage
    aeadOpens (holdsKeys fun _ => rfl) ((StagingRecord.sameUpload_refl _).advance 1 0) hcount
  exact ⟨_, sealer, hstage, hrecovers⟩

end MaxSecu
