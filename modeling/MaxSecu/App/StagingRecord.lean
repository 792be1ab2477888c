import MaxSecu.App.FileViews
import MaxSecu.Client.StreamingUpload

/-!
# Staged uploads on disk

A large upload waits on disk until it is through: the plain content in a file, and beside it a
record with everything that was signed, the sealed small streams, and how far the upload has come.
No key and no sealed content is in the record.
-/

namespace MaxSecu

open ExceptRules

structure StagedWrap where
  recipientId : Id
  recipientType : RecipientType
  wrappedDek : List UInt8
  grantedBy : Id
  grant : List UInt8
  grantSig : Bytes 64

/-- A sealed stream that is not the content. -/
structure StagedSmallStream where
  streamType : StreamType
  chunkSize : UInt32
  chunkCount : UInt64
  totalBytes : UInt64
  digest : Bytes 32
  chunks : List (List UInt8)

structure StagingRecord where
  fileId : Id
  fileType : FileType
  title : String
  manifest : List UInt8
  manifestSig : Bytes 64
  genesis : List UInt8
  genesisSig : Bytes 64
  wraps : List StagedWrap
  chunkSize : UInt32
  contentChunkCount : UInt64
  contentTotalBytes : UInt64
  smallStreams : List StagedSmallStream
  /-- How many chunks of the content, from the first on, have been uploaded. -/
  progress : UInt64
  createdMs : UInt64
  lastProgressMs : UInt64
  finalized : Bool

/-- The staging directory of one upload, which is named after the file. -/
structure StagingDir where
  record : Option StagingRecord
  content : Option (List UInt8)

def StagedWrap.ofWrap (w : WrapOut) : StagedWrap where
  recipientId := w.recipientId
  recipientType := w.recipientType
  wrappedDek := wrapWire w
  grantedBy := w.grantedBy
  grant := encode w.grant
  grantSig := w.grantSig

def StagedSmallStream.ofStream (s : SealedStreamOut) : StagedSmallStream where
  streamType := s.streamType
  chunkSize := s.chunkSize
  chunkCount := s.chunkCount
  totalBytes := s.totalBytes
  digest := s.digest
  chunks := s.chunks

def StagedWrap.input (w : StagedWrap) : WrapInput where
  recipientId := if w.recipientType = .recovery then RECOVERY_ID else w.recipientId
  recipientType := recipientTypeColumn w.recipientType
  wrappedDek := w.wrappedDek
  wrapAlg := 1
  grantedBy := w.grantedBy
  grantBytes := w.grant
  grantSig := w.grantSig

/-- A file that is to be uploaded from disk, with all that staging reads of it. -/
structure StreamingItem where
  params : UploadParams
  small : SmallStreams
  title : String
  /-- The bytes that the first pass over the source read. -/
  read : List UInt8
  /-- The size of the source when that pass began. -/
  size : UInt64
  /-- The bytes that were copied, or moved, to the staging directory after it. -/
  copied : List UInt8

namespace StagingRecord

/-- The record of an upload of which nothing is sent yet. -/
def ofRecords (item : StreamingItem) (records : UploadRecords) (count : UInt64) :
    StagingRecord where
  fileId := item.params.fileId
  fileType := item.params.fileType
  title := item.title
  manifest := encode records.manifest
  manifestSig := records.manifestSig
  genesis := encode records.genesis
  genesisSig := records.genesisSig
  wraps := records.wraps.map .ofWrap
  chunkSize := item.params.chunkSize
  contentChunkCount := count
  contentTotalBytes := item.size
  smallStreams := records.smallStreams.map .ofStream
  progress := 0
  createdMs := item.params.createdAt.millis
  lastProgressMs := item.params.createdAt.millis
  finalized := false

/-- The staging request that the post of the record by `callerId` makes. -/
def stageInput (rec : StagingRecord) (flags : StageFlags) (callerId : Id) : StageInput where
  fileId := rec.fileId
  callerId := callerId
  fileTypeAdvisory := Files.column rec.fileType.codepoint
  genesis := some ⟨rec.genesis, rec.genesisSig⟩
  manifestBytes := rec.manifest
  manifestSig := rec.manifestSig
  wraps := rec.wraps.map StagedWrap.input
  streamTotals := (Files.column StreamType.content.codepoint, rec.contentTotalBytes) ::
    rec.smallStreams.map fun s => (Files.column s.streamType.codepoint, s.totalBytes)
  proposedVersion := 1
  listed := flags.listed
  bundleId := flags.bundleId

def suite (rec : StagingRecord) : Suite :=
  match decode Manifest rec.manifest with
  | .ok m => m.alg
  | .error _ => .v1

/-- The owner's own wrap, and what it is bound to. -/
def selfWrap (rec : StagingRecord) : Except UiError (WrappedDek × WrapContext) :=
  match rec.wraps.find? fun w => w.recipientType = .user with
  | none => throw ⟨"encrypt_failed", "Upload data is corrupt (no self-wrap)."⟩
  | some w =>
    if h : w.wrappedDek.length < 32 then
      throw ⟨"encrypt_failed", "Upload data is corrupt (short wrap)."⟩
    else
      pure (⟨⟨w.wrappedDek.take 32, by rw [List.length_take]; omega⟩, w.wrappedDek.drop 32⟩,
        ⟨rec.fileId, 1, w.recipientId⟩)

def advance (rec : StagingRecord) (progress nowMs : UInt64) : StagingRecord :=
  { rec with progress := progress, lastProgressMs := nowMs }

/-- Two records of one upload differ in how far it has come. -/
def SameUpload (rec rec' : StagingRecord) : Prop :=
  rec'.advance rec.progress rec.lastProgressMs = rec

@[simp] lemma sameUpload_refl (rec : StagingRecord) : rec.SameUpload rec := rfl

lemma SameUpload.advance {rec rec' : StagingRecord} (h : rec.SameUpload rec')
    (progress nowMs : UInt64) : rec.SameUpload (rec'.advance progress nowMs) := h

lemma SameUpload.eq_advance {rec rec' : StagingRecord} (h : rec.SameUpload rec') :
    rec' = rec.advance rec'.progress rec'.lastProgressMs := by
  unfold SameUpload at h
  rw [← h]
  rfl

section SameUpload

variable {rec rec' : StagingRecord} (h : rec.SameUpload rec')

include h

lemma SameUpload.congr {α : Type} (f : StagingRecord → α)
    (hf : ∀ (rec : StagingRecord) progress nowMs, f (rec.advance progress nowMs) = f rec) :
    f rec' = f rec := by
  rw [h.eq_advance, hf]

lemma SameUpload.fileId : rec'.fileId = rec.fileId :=
  h.congr StagingRecord.fileId fun _ _ _ => rfl

lemma SameUpload.chunkSize : rec'.chunkSize = rec.chunkSize :=
  h.congr StagingRecord.chunkSize fun _ _ _ => rfl

lemma SameUpload.contentChunkCount : rec'.contentChunkCount = rec.contentChunkCount :=
  h.congr StagingRecord.contentChunkCount fun _ _ _ => rfl

end SameUpload

end StagingRecord

section Staging

variable [Sha256] [Ed25519] [Hkdf] [Aes256Gcm] [Aes256GcmSeal] [Hpke] [HpkeSeal] [X25519]
  [X25519Base] [MlKem768] [MlKem768Encaps]

/-- Seal what is read to find its digest, sign the records, and make the staging record. -/
def stageStreamingContent (rand : ℕ → WrapEntropy) (dek : Dek) (item : StreamingItem) :
    Except UiError StagingRecord := do
  let (count, digest) := (contentSealer dek item.params).sealFromReader item.read
  let records ← (buildRecordsInner rand dek item.params item.small digest count).mapError fun _ =>
    ⟨"encrypt_failed", "Could not prepare the upload."⟩
  pure (.ofRecords item records count)

/-- All streams of the item, the content as the first pass read it. -/
def StreamingItem.streams (item : StreamingItem) : PlaintextStreams :=
  item.small.withContent item.read

/-- The record of an upload that was built in memory. -/
def StreamingItem.staged (item : StreamingItem) (dek : Dek) (bundle : UploadBundle) :
    StagingRecord :=
  .ofRecords item bundle.records ((contentSealer dek item.params).sealFromReader item.read).1

lemma stageStreamingContent_eq_ok {rand : ℕ → WrapEntropy} {dek : Dek} {item : StreamingItem}
    {rec : StagingRecord} : stageStreamingContent rand dek item = .ok rec ↔
      ∃ bundle, buildUploadInner rand dek item.params item.streams = .ok bundle ∧
        item.staged dek bundle = rec := by
  unfold stageStreamingContent
  simp only [bind_eq_ok, mapError_eq_ok, pure_eq_ok]
  rw [buildRecordsInner_eq]
  constructor
  · intro ⟨records, hrecords, hrec⟩
    cases hbuild : buildUploadInner rand dek item.params (item.small.withContent item.read) with
    | error e =>
      rw [hbuild] at hrecords
      exact absurd hrecords (by simp [Except.map])
    | ok bundle =>
      rw [hbuild] at hrecords
      obtain rfl : bundle.records = records := Except.ok.inj hrecords
      exact ⟨bundle, hbuild, hrec⟩
  · intro ⟨bundle, hbuild, hrec⟩
    refine ⟨bundle.records, ?_, hrec⟩
    rw [show item.small.withContent item.read = item.streams from rfl, hbuild]
    rfl

lemma stageStreamingContent_fileId {rand : ℕ → WrapEntropy} {dek : Dek} {item : StreamingItem}
    {rec : StagingRecord} (h : stageStreamingContent rand dek item = .ok rec) :
    rec.fileId = item.params.fileId := by
  obtain ⟨bundle, hbuild, rfl⟩ := stageStreamingContent_eq_ok.mp h
  obtain ⟨-, wraps, -, rfl⟩ := buildUploadInner_eq_ok.mp hbuild
  rfl

end Staging

end MaxSecu
