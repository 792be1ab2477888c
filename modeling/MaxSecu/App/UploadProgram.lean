import MaxSecu.App.StagingRecord
import MaxSecu.Framework.CutRuns
import MaxSecu.Server.Requests

/-!
# The programs that upload a file

An upload stages the version, sends the chunks and commits.  It goes on from where the staging
record says it came to, and writes the record after every chunk.

The calls of these programs go to the server, to the staging directories and to the registries of
jobs that are kept in memory.  A request may get lost, its answer may get lost, and any access to
the disk may fail (`UploadCall.Step`).
-/

namespace MaxSecu

open Program AssociationList

/-! ## Jobs -/

/-- What a job uploads: an upload in memory, or one that is staged on disk. -/
inductive StagedContent
  | inRam (bundle : UploadBundle)
  | streaming (rec : StagingRecord)

/-- A staged bundle, with its members in order. -/
structure BundleJob where
  bundleId : Id
  /-- Title and tags, as they will be sealed. -/
  metadata : List UInt8
  members : List (StagedContent × BundleMember)
  coverThumbnail : Option (List UInt8)

def StagedContent.fileId : StagedContent → Id
  | inRam bundle => bundle.fileId
  | streaming rec => rec.fileId

def StagedContent.onDisk : StagedContent → Bool
  | inRam _ => false
  | streaming _ => true

/-- What a file id was drawn for. -/
inductive IdUse
  /-- For some file from before the app was started. -/
  | earlier
  | single (jobId : String) (onDisk : Bool)
  | member (bundleId : Id) (onDisk : Bool)
  | bundle
  deriving DecidableEq

/-- What is drawn for a content that is on disk, or in memory. -/
def IdUse.isFor (use : IdUse) (onDisk : Bool) : Prop :=
  (∃ jobId, use = .single jobId onDisk) ∨ ∃ bundleId, use = .member bundleId onDisk

structure UploadWorld where
  server : ServerState
  staging : AList fun _ : Id => StagingDir
  jobs : AList fun _ : String => StagedContent
  bundles : AList fun _ : String => BundleJob
  /-- The file ids that are taken, and for what.  No call reads it. -/
  drawn : AList fun _ : Id => IdUse

/-- The user of the app, who is logged in under this id. -/
structure Uploader where
  userId : Id
  identity : Identity
  chunkSize : UInt32

/-- To whom an upload is wrapped, as the directory answers, and at what time. -/
structure Recipients where
  ownerId : Id
  keyVersion : UInt64
  recoveryPub : EncPublicKey
  recoveryMlkemPub : Option (Bytes MLKEM768_PUB_LEN)
  now : UInt64

/-! ## Calls -/

inductive UploadRequest
  | stage (input : StageInput)
  | putChunk (fileId : Id) (streamType : StreamType) (index : UInt64) (body : List UInt8)
    (callerId : Id)
  | finalize (fileId callerId : Id)
  | discard (fileId callerId : Id)

def UploadRequest.fileRequest (nowMs : UInt64) : UploadRequest → FileRequest
  | stage input => .stage input nowMs
  | putChunk fileId streamType index body callerId =>
    .putChunk fileId FIRST_VERSION streamType index body callerId
  | finalize fileId callerId => .finalize fileId FIRST_VERSION callerId nowMs
  | discard fileId callerId => .discard fileId callerId

inductive Delivery
  | answered (status : Status)
  /-- The server processed the request, and the answer got lost. -/
  | unanswered (status : Status)
  | undelivered

def Delivery.seen : Delivery → Option Status
  | answered status => some status
  | unanswered _ => none
  | undelivered => none

inductive UploadCall
  /-- Open a connection and log in. -/
  | connect
  | resolveRecipients
  | random
  /-- The unlocked identity, if the session has one. -/
  | identity
  | now
  | request (r : UploadRequest)
  | openContent (fileId : Id)
  | readChunk (fileId : Id) (offset size : ℕ)
  | placeContent (fileId : Id) (bytes : List UInt8)
  | persist (rec : StagingRecord)
  | load (fileId : Id)
  | listPending
  | remove (fileId : Id)
  | takeJob (jobId : String)
  | putJob (jobId : String) (job : StagedContent)
  | hasBundle (jobId : String)
  | takeBundle (jobId : String)
  | putBundle (jobId : String) (job : BundleJob)

namespace UploadCall

@[reducible] def Response : UploadCall → Type
  | connect => Bool
  | resolveRecipients => Option Recipients
  | random => Dek × (ℕ → WrapEntropy)
  | identity => Option Identity
  | now => UInt64
  | request _ => Delivery
  | openContent _ => Bool
  | readChunk _ _ _ => Option (List UInt8)
  | placeContent _ _ => Bool
  | persist _ => Bool
  | load _ => Option StagingRecord
  | listPending => List StagingRecord
  | remove _ => Bool
  | takeJob _ => Option StagedContent
  | putJob _ _ => Unit
  | hasBundle _ => Bool
  | takeBundle _ => Option BundleJob
  | putBundle _ _ => Unit

end UploadCall

namespace UploadWorld

variable (w : UploadWorld) (fileId : Id)

/-- The staging directory of the file; one that is not there is empty. -/
def dir : StagingDir := (w.staging.lookup fileId).getD ⟨none, none⟩

def setDir (d : StagingDir) : UploadWorld := { w with staging := w.staging.insert fileId d }

def pending : List StagingRecord := w.staging.entries.filterMap fun e => e.2.record

variable {w fileId} {fileId' : Id} {d : StagingDir}

lemma dir_setDir : (w.setDir fileId d).dir fileId' = if fileId' = fileId then d else w.dir fileId' := by
  unfold dir setDir
  simp only [lookup_insert_eq]
  by_cases hfile : fileId' = fileId
  · simp [hfile]
  · simp [hfile]

lemma dir_erase : ({ w with staging := w.staging.erase fileId } : UploadWorld).dir fileId' =
    if fileId' = fileId then ⟨none, none⟩ else w.dir fileId' := by
  unfold dir
  by_cases hfile : fileId' = fileId
  · rw [if_pos hfile, hfile, AList.lookup_erase]
    rfl
  · rw [if_neg hfile, AList.lookup_erase_ne hfile]

lemma mem_pending {rec : StagingRecord} (h : rec ∈ w.pending) :
    ∃ fileId, (w.dir fileId).record = some rec := by
  obtain ⟨e, he, hrec⟩ := List.mem_filterMap.mp h
  refine ⟨e.1, ?_⟩
  unfold dir
  rw [AList.mem_lookup_iff.mpr he]
  exact hrec

end UploadWorld

/-! ## What calls do -/

/-- A request reaches the server and is answered or not, or it gets lost. -/
def Delivery.Of (faults : Bool) (maxFileBytes : Option UInt64) (r : UploadRequest)
    (s : ServerState) (d : Delivery) (t : ServerState) : Prop :=
  (∃ nowMs status, FileRequest.Runs faults maxFileBytes s (r.fileRequest nowMs, status) t ∧
    (d = .answered status ∨ d = .unanswered status)) ∨ (d = .undelivered ∧ t = s)

/-- Some of what was there may be gone. -/
def StagingDir.PartOf (d d' : StagingDir) : Prop :=
  (d.record = none ∨ d.record = d'.record) ∧ (d.content = none ∨ d.content = d'.content)

/-- The server of the uploads: whether its blob store has faults, and its limit. -/
structure UploadServer where
  faults : Bool
  maxFileBytes : Option UInt64

/-- What a call can do.  Every access to the disk may fail. -/
def UploadCall.Step (u : Uploader) (server : UploadServer) :
    (c : UploadCall) → UploadWorld → c.Response → UploadWorld → Prop
  | connect, w, _, w' => w' = w
  | resolveRecipients, w, r, w' => w' = w ∧ ∀ found, r = some found → found.ownerId = u.userId
  | random, w, _, w' => w' = w
  | identity, w, r, w' => w' = w ∧ (r = none ∨ r = some u.identity)
  | now, w, _, w' => w' = w
  | request req, w, r, w' =>
    ∃ t, Delivery.Of server.faults server.maxFileBytes req w.server r t ∧ w' = { w with server := t }
  | openContent fileId, w, r, w' => w' = w ∧ (r = true → (w.dir fileId).content.isSome)
  | readChunk fileId offset size, w, r, w' =>
    w' = w ∧ ∀ bytes, r = some bytes →
      ∃ content, (w.dir fileId).content = some content ∧ (content.drop offset).take size = bytes
  | placeContent fileId bytes, w, r, w' =>
    (r = true ∧ w' = w.setDir fileId ⟨(w.dir fileId).record, some bytes⟩) ∨
      (r = false ∧ (w' = w ∨ ∃ part, w' = w.setDir fileId ⟨(w.dir fileId).record, part⟩))
  | persist rec, w, r, w' =>
    (r = true ∧ w' = w.setDir rec.fileId ⟨some rec, (w.dir rec.fileId).content⟩) ∨
      (r = false ∧ (w' = w ∨ w' = w.setDir rec.fileId (w.dir rec.fileId)))
  | load fileId, w, r, w' => w' = w ∧ (r = none ∨ r = (w.dir fileId).record)
  | listPending, w, r, w' => w' = w ∧ r.Subperm w.pending
  | remove fileId, w, r, w' =>
    (r = true ∧ w' = { w with staging := w.staging.erase fileId }) ∨
      (r = false ∧ (w' = w ∨ ∃ part : StagingDir, part.PartOf (w.dir fileId) ∧
        w' = w.setDir fileId part))
  | takeJob jobId, w, r, w' => r = w.jobs.lookup jobId ∧ w' = { w with jobs := w.jobs.erase jobId }
  | putJob jobId job, w, _, w' => w' = { w with jobs := w.jobs.insert jobId job }
  | hasBundle jobId, w, r, w' => w' = w ∧ (r = true ↔ jobId ∈ w.bundles)
  | takeBundle jobId, w, r, w' =>
    r = w.bundles.lookup jobId ∧ w' = { w with bundles := w.bundles.erase jobId }
  | putBundle jobId job, w, _, w' => w' = { w with bundles := w.bundles.insert jobId job }

/-! ## Uploading -/

abbrev UploadProgram := Program UploadCall UploadCall.Response

def MAX_CHUNK_RETRY : ℕ := 3

/-- A normal file, which is listed and in no bundle. -/
def StageFlags.default : StageFlags := ⟨true, none⟩

namespace Uploads

variable [Sha256] [Ed25519] [Hkdf] [Aes256Gcm] [Aes256GcmSeal] [Hpke] [HpkeSeal] [X25519]
  [X25519Base] [MlKem768] [MlKem768Encaps]

def send (r : UploadRequest) : UploadProgram (Option Status) := do
  let delivery ← perform (.request r)
  pure (Delivery.seen delivery)

def postJson (r : UploadRequest) : ExceptT UiError UploadProgram Status := do
  let status ← liftM (send r)
  match (status : Option Status) with
  | some status => pure status
  | none => throw ⟨"offline", "The server did not respond."⟩

/-- Send a chunk, and send it again as long as it fails and there are retries left. -/
def putChunkRetried (r : UploadRequest) : ℕ → ExceptT UiError UploadProgram Unit
  | 0 => do
    let status ← liftM (send r)
    if status = some .ok then pure ()
    else throw ⟨"upload_chunk_failed", "A chunk failed to upload."⟩
  | retries + 1 => do
    let status ← liftM (send r)
    if status = some .ok then pure () else putChunkRetried r retries

/-- Send the chunks of a stream in order, from the index on. -/
def putChunks (fileId : Id) (streamType : StreamType) (callerId : Id) :
    UInt64 → List (List UInt8) → ExceptT UiError UploadProgram Unit
  | _, [] => pure ()
  | i, chunk :: chunks => do
    putChunkRetried (.putChunk fileId streamType i chunk callerId) MAX_CHUNK_RETRY
    putChunks fileId streamType callerId (i + 1) chunks

def putStreams (fileId callerId : Id) :
    List (StreamType × List (List UInt8)) → ExceptT UiError UploadProgram Unit
  | [] => pure ()
  | s :: streams => do
    putChunks fileId s.1 callerId 0 s.2
    putStreams fileId callerId streams

def postStage (input : StageInput) : ExceptT UiError UploadProgram Unit := do
  let status ← postJson (.stage input)
  match (status : Status) with
  | .created _ _ => pure ()
  | _ => throw ⟨"stage_failed", "Could not start the upload."⟩

def postFinalize (fileId callerId : Id) : ExceptT UiError UploadProgram Unit := do
  let status ← postJson (.finalize fileId callerId)
  if status = .ok then pure () else throw ⟨"finalize_failed", "Could not finalize the upload."⟩

def runPipeline (u : Uploader) (bundle : UploadBundle) (flags : StageFlags) :
    ExceptT UiError UploadProgram Unit := do
  postStage (bundle.stageInput flags u.userId)
  putStreams bundle.fileId u.userId (bundle.streams.map fun s => (s.streamType, s.chunks))
  postFinalize bundle.fileId u.userId

/-- Post a record and send its small streams, unless chunks of the content are through already. -/
def stageRecord (u : Uploader) (rec : StagingRecord) (fileId : Id) (flags : StageFlags) :
    ExceptT UiError UploadProgram Unit :=
  if rec.progress = 0 then do
    postStage (rec.stageInput flags u.userId)
    putStreams fileId u.userId (rec.smallStreams.map fun s => (s.streamType, s.chunks))
  else
    pure ()

/-- Recover the sealer from the owner's own wrap, and open the staged file. -/
def openStaged (rec : StagingRecord) : ExceptT UiError UploadProgram ContentStreamSealer := do
  let (wrapped, ctx) ← ExceptT.mk (pure rec.selfWrap)
  let session ← liftM (perform UploadCall.identity : UploadProgram (Option Identity))
  match (session : Option Identity) with
  | none => throw ⟨"locked", "Unlock your keystore first."⟩
  | some owner =>
    match resumeContentSealer owner wrapped ctx rec.suite rec.fileId FIRST_VERSION rec.chunkSize with
    | .error _ => throw ⟨"encrypt_failed", "Could not resume upload."⟩
    | .ok sealer => do
      let opened ← liftM (perform (UploadCall.openContent rec.fileId) : UploadProgram Bool)
      if opened then pure sealer
      else throw ⟨"upload_chunk_failed", "Cannot read the staged file."⟩

/-- Seal and send `n` more chunks of the content, from chunk `i` on, and write down each as done.
That the record could not be written does not stop the upload. -/
def sendChunks (u : Uploader) (sealer : ContentStreamSealer) (fileId : Id) :
    ℕ → UInt64 → StagingRecord → UploadProgram (Except UiError Unit × StagingRecord)
  | 0, _, rec => pure (.ok (), rec)
  | n + 1, i, rec => do
    let read ← perform (.readChunk rec.fileId (i.toNat * rec.chunkSize.toNat) rec.chunkSize.toNat)
    match (read : Option (List UInt8)) with
    | none => pure (.error ⟨"upload_chunk_failed", "Cannot read staged file."⟩, rec)
    | some plaintext => do
      let chunk := sealer.sealChunk i plaintext (i = rec.contentChunkCount - 1)
      let put ← (putChunkRetried (.putChunk fileId .content i chunk u.userId)
        MAX_CHUNK_RETRY).run
      match put with
      | .error e => pure (.error e, rec)
      | .ok () => do
        let nowMs ← perform .now
        let rec' := rec.advance (i + 1) nowMs
        let _ ← perform (.persist rec')
        sendChunks u sealer fileId n (i + 1) rec'

/-- Commit, and remove the staging directory. -/
def finishUpload (u : Uploader) (rec : StagingRecord) (fileId : Id) :
    ExceptT UiError UploadProgram Unit := do
  postFinalize fileId u.userId
  let _ ← liftM (perform (UploadCall.remove rec.fileId) : UploadProgram Bool)
  let _ ← liftM (perform (UploadCall.remove rec.fileId) : UploadProgram Bool)
  pure ()

/-- Upload what is staged on disk, from where the record says it came to.  The record that comes
back says how far it is now. -/
def streamingConfirm (u : Uploader) (rec : StagingRecord) (fileId : Id) (flags : StageFlags) :
    UploadProgram (Except UiError Unit × StagingRecord) := do
  let started ← (stageRecord u rec fileId flags).run
  match started with
  | .error e => pure (.error e, rec)
  | .ok () => do
    let opened ← (openStaged rec).run
    match opened with
    | .error e => pure (.error e, rec)
    | .ok sealer => do
      let (sent, rec') ← sendChunks u sealer fileId
        (rec.contentChunkCount.toNat - rec.progress.toNat) rec.progress rec
      match sent with
      | .error e => pure (.error e, rec')
      | .ok () => do
        let finished ← (finishUpload u rec' fileId).run
        pure (finished, rec')

end Uploads

end MaxSecu
