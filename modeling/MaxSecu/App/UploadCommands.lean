import MaxSecu.App.UploadProgram

/-!
# The upload commands

What the user can ask for: stage a post or a bundle of posts, confirm what is staged, try again,
resume what an earlier session left on disk, list that, and drop a job or a pending upload.  Listing
sweeps away what has made no progress for a day.

The commands run one after another.  Each runs to its end or is cut off between two of its calls; then
the app starts again, and the jobs in memory are gone.
-/

namespace MaxSecu

open Program AssociationList

/-- Where the streams of a post come from. -/
inductive StageSource
  | memory (streams : PlaintextStreams)
  /-- What the first pass read, the size found before it, and what was copied after it. -/
  | disk (small : SmallStreams) (read : List UInt8) (size : UInt64) (copied : List UInt8)

def StageSource.onDisk : StageSource → Bool
  | memory _ => false
  | disk _ _ _ _ => true

/-- A post to stage, with the id that is drawn for it. -/
structure StageRequest where
  fileId : Id
  fileType : FileType
  title : String
  source : StageSource

inductive UploadCommand
  | stageUpload (jobId : String) (req : StageRequest)
  | stageBundle (jobId : String) (bundleId : Id) (reqs : List StageRequest)
    (metadata : List UInt8) (cover : Option (List UInt8))
  | confirmUpload (jobId : String)
  | confirmBundle (jobId : String)
  | retryConfirm (jobId : String)
  | resumeUpload (fileId : Id)
  | listPendingUploads
  | dismissPendingUpload (fileId : Id)
  | cancelUpload (jobId : String)
  | cancelBundle (jobId : String)

namespace Uploads

variable [Sha256] [Ed25519] [Hkdf] [Aes256Gcm] [Aes256GcmSeal] [Hpke] [HpkeSeal] [X25519]
  [X25519Base] [MlKem768] [MlKem768Encaps]

/-! ## Staging -/

def notPrepared : UiError := ⟨"encrypt_failed", "Could not prepare the upload."⟩

def locked : UiError := ⟨"locked", "Unlock your keystore first."⟩

def noRecipients : UiError := ⟨"offline", "Could not resolve the recipients."⟩

/-- The parameters of an upload by the owner to these recipients. -/
def uploadParams (u : Uploader) (owner : Identity) (recipients : Recipients) (fileId : Id)
    (fileType : FileType) : UploadParams where
  owner := owner
  ownerId := recipients.ownerId
  ownerKeyVersion := recipients.keyVersion
  fileId := fileId
  fileType := fileType
  chunkSize := u.chunkSize
  recoveryPub := recipients.recoveryPub
  recoveryMlkemPub := recipients.recoveryMlkemPub
  createdAt := ⟨recipients.now⟩

/-- Put the content and the record on disk.  A record that cannot be written takes the directory
with it. -/
def placeStaged (item : StreamingItem) (rec : StagingRecord) :
    ExceptT UiError UploadProgram Unit := do
  let placed ← liftM (perform (UploadCall.placeContent rec.fileId item.copied) :
    UploadProgram Bool)
  if placed = true then do
    let kept ← liftM (perform (UploadCall.persist rec) : UploadProgram Bool)
    if kept = true then pure ()
    else do
      let _ ← liftM (perform (UploadCall.remove rec.fileId) : UploadProgram Bool)
      throw notPrepared
  else throw notPrepared

def stageItem (u : Uploader) (req : StageRequest) : ExceptT UiError UploadProgram StagedContent := do
  let found ← liftM (perform UploadCall.resolveRecipients : UploadProgram (Option Recipients))
  match (found : Option Recipients) with
  | none => throw noRecipients
  | some recipients => do
    let session ← liftM (perform UploadCall.identity : UploadProgram (Option Identity))
    match (session : Option Identity) with
    | none => throw locked
    | some owner => do
      let drawn ← liftM (perform UploadCall.random : UploadProgram (Dek × (ℕ → WrapEntropy)))
      let params := uploadParams u owner recipients req.fileId req.fileType
      match req.source with
      | .memory streams =>
        match buildUploadInner drawn.2 drawn.1 params streams with
        | .error _ => throw notPrepared
        | .ok bundle => pure (.inRam bundle)
      | .disk small read size copied =>
        match stageStreamingContent drawn.2 drawn.1
          ⟨params, small, req.title, read, size, copied⟩ with
        | .error e => throw e
        | .ok rec => do
          placeStaged ⟨params, small, req.title, read, size, copied⟩ rec
          pure (.streaming rec)

def stageUpload (u : Uploader) (jobId : String) (req : StageRequest) :
    ExceptT UiError UploadProgram Unit := do
  let content ← stageItem u req
  let _ ← liftM (perform (UploadCall.putJob jobId content) : UploadProgram Unit)
  pure ()

/-- Remove the staging directory of what a job uploads, if it has one. -/
def removeDir : StagedContent → UploadProgram Unit
  | .inRam _ => pure ()
  | .streaming rec => do
    let _ ← perform (.remove rec.fileId)
    pure ()

def removeDirs : List (StagedContent × BundleMember) → UploadProgram Unit
  | [] => pure ()
  | m :: members => do
    removeDir m.1
    removeDirs members

/-- Stage the members one after another.  If one cannot be staged, those before it are removed. -/
def stageMembers (u : Uploader) : List StageRequest → List (StagedContent × BundleMember) →
    ExceptT UiError UploadProgram (List (StagedContent × BundleMember))
  | [], before => pure before
  | req :: reqs, before => do
    let staged ← liftM (stageItem u req).run
    match (staged : Except UiError StagedContent) with
    | .error e => do
      let _ ← liftM (removeDirs before)
      throw e
    | .ok content => stageMembers u reqs (before ++ [(content, ⟨req.fileId, req.fileType⟩)])

def stageBundle (u : Uploader) (jobId : String) (bundleId : Id) (reqs : List StageRequest)
    (metadata : List UInt8) (cover : Option (List UInt8)) :
    ExceptT UiError UploadProgram Unit :=
  if reqs = [] then
    throw ⟨"bad_request", "A bundle needs at least one item."⟩
  else do
    let members ← stageMembers u reqs []
    let _ ← liftM (perform (UploadCall.putBundle jobId ⟨bundleId, metadata, members, cover⟩) :
      UploadProgram Unit)
    pure ()

/-! ## Confirming -/

def connect : ExceptT UiError UploadProgram Unit := do
  let connected ← liftM (perform UploadCall.connect : UploadProgram Bool)
  if connected = true then pure () else throw ⟨"offline", "Lost connection to the server."⟩

/-- Upload a job.  It is taken out of the registry, and put back if it failed. -/
def confirmUpload (u : Uploader) (jobId : String) : ExceptT UiError UploadProgram Unit := do
  connect
  let job ← liftM (perform (UploadCall.takeJob jobId) : UploadProgram (Option StagedContent))
  match (job : Option StagedContent) with
  | none => throw ⟨"no_such_job", "That upload is no longer staged."⟩
  | some (.inRam bundle) => do
    let result ← liftM (runPipeline u bundle .default).run
    match (result : Except UiError Unit) with
    | .ok () => pure ()
    | .error e => do
      let _ ← liftM (perform (UploadCall.putJob jobId (.inRam bundle)) : UploadProgram Unit)
      throw e
  | some (.streaming rec) => do
    let (result, rec') ← liftM (streamingConfirm u rec rec.fileId .default)
    match (result : Except UiError Unit) with
    | .ok () => liftM (removeDir (.streaming rec'))
    | .error e => do
      let _ ← liftM (perform (UploadCall.putJob jobId (.streaming rec')) : UploadProgram Unit)
      throw e

/-- Upload the members of a bundle, unlisted and under its id, up to the first that fails. -/
def uploadMembers (u : Uploader) (bundleId : Id) : List (StagedContent × BundleMember) →
    UploadProgram (Except UiError Unit × List (StagedContent × BundleMember))
  | [] => pure (.ok (), [])
  | (.inRam bundle, info) :: members => do
    let result ← (runPipeline u bundle ⟨false, some bundleId⟩).run
    match result with
    | .error e => pure (.error e, (.inRam bundle, info) :: members)
    | .ok () => do
      let (rest, members') ← uploadMembers u bundleId members
      pure (rest, (.inRam bundle, info) :: members')
  | (.streaming rec, info) :: members => do
    let (result, rec') ← streamingConfirm u rec info.fileId ⟨false, some bundleId⟩
    match result with
    | .error e => pure (.error e, (.streaming rec', info) :: members)
    | .ok () => do
      let (rest, members') ← uploadMembers u bundleId members
      pure (rest, (.streaming rec', info) :: members')

/-- The file of a bundle itself: its content is the list of the members. -/
def buildBundleFile (u : Uploader) (job : BundleJob) : ExceptT UiError UploadProgram UploadBundle := do
  let found ← liftM (perform UploadCall.resolveRecipients : UploadProgram (Option Recipients))
  match (found : Option Recipients) with
  | none => throw noRecipients
  | some recipients => do
    let session ← liftM (perform UploadCall.identity : UploadProgram (Option Identity))
    match (session : Option Identity) with
    | none => throw locked
    | some owner => do
      let drawn ← liftM (perform UploadCall.random : UploadProgram (Dek × (ℕ → WrapEntropy)))
      match buildUploadInner drawn.2 drawn.1
        (uploadParams u owner recipients job.bundleId .bundle)
        ⟨encode (⟨job.members.map Prod.snd⟩ : BundleBody), some job.metadata, job.coverThumbnail,
          none⟩ with
      | .error _ => throw ⟨"encrypt_failed", "Could not prepare the bundle."⟩
      | .ok bundle => pure bundle

/-- Upload the members, and then the file of the bundle, which is listed. -/
def runBundlePipeline (u : Uploader) (job : BundleJob) :
    UploadProgram (Except UiError Unit × BundleJob) := do
  let built ← (buildBundleFile u job).run
  match built with
  | .error e => pure (.error e, job)
  | .ok bundleFile => do
    let (result, members) ← uploadMembers u job.bundleId job.members
    match result with
    | .error e => pure (.error e, { job with members := members })
    | .ok () => do
      let finished ← (runPipeline u bundleFile .default).run
      pure (finished, { job with members := members })

def confirmBundle (u : Uploader) (jobId : String) : ExceptT UiError UploadProgram Unit := do
  connect
  let job ← liftM (perform (UploadCall.takeBundle jobId) : UploadProgram (Option BundleJob))
  match (job : Option BundleJob) with
  | none => throw ⟨"no_such_job", "That bundle is no longer staged."⟩
  | some job => do
    let (result, job') ← liftM (runBundlePipeline u job)
    match (result : Except UiError Unit) with
    | .ok () => liftM (removeDirs job'.members)
    | .error e => do
      let _ ← liftM (perform (UploadCall.putBundle jobId job') : UploadProgram Unit)
      throw e

/-- Confirm again, whichever of the two kinds the job is. -/
def retryConfirm (u : Uploader) (jobId : String) : ExceptT UiError UploadProgram Unit := do
  let isBundle ← liftM (perform (UploadCall.hasBundle jobId) : UploadProgram Bool)
  if isBundle = true then confirmBundle u jobId else confirmUpload u jobId

/-! ## What is pending -/

/-- Go on with an upload that is staged on disk. -/
def resumeUpload (u : Uploader) (fileId : Id) : ExceptT UiError UploadProgram Unit := do
  let loaded ← liftM (perform (UploadCall.load fileId) : UploadProgram (Option StagingRecord))
  match (loaded : Option StagingRecord) with
  | none => throw ⟨"no_such_job", "No staged upload to resume."⟩
  | some rec =>
    if rec.finalized = true then do
      let _ ← liftM (perform (UploadCall.remove fileId) : UploadProgram Bool)
      pure ()
    else do
      connect
      let (result, _) ← liftM (streamingConfirm u rec fileId .default)
      ExceptT.mk (pure result)

/-- Ask the server to delete the file, if it can be reached.  The answer is not looked at. -/
def discardServerOrphan (u : Uploader) (fileId : Id) : UploadProgram Unit := do
  let connected ← perform .connect
  if connected = true then do
    let _ ← send (.discard fileId u.userId)
    pure ()
  else pure ()

/-- Nothing has been uploaded for more than a day. -/
def shouldSweep (nowMs lastProgressMs : UInt64) : Bool :=
  24 * 60 * 60 * 1000 < nowMs.toNat - lastProgressMs.toNat

def sweep (u : Uploader) (nowMs : UInt64) : List StagingRecord → UploadProgram Unit
  | [] => pure ()
  | rec :: recs => do
    if shouldSweep nowMs rec.lastProgressMs = true then do
      let _ ← perform (.remove rec.fileId)
      discardServerOrphan u rec.fileId
      sweep u nowMs recs
    else sweep u nowMs recs

def listPendingUploads (u : Uploader) : UploadProgram Unit := do
  let nowMs ← perform .now
  let recs ← perform .listPending
  sweep u nowMs recs

def dismissPendingUpload (u : Uploader) (fileId : Id) : UploadProgram Unit := do
  let _ ← perform (.remove fileId)
  discardServerOrphan u fileId

def cancelUpload (u : Uploader) (jobId : String) : UploadProgram Unit := do
  let job ← perform (.takeJob jobId)
  match (job : Option StagedContent) with
  | none => pure ()
  | some (.inRam _) => pure ()
  | some (.streaming rec) => do
    removeDir (.streaming rec)
    discardServerOrphan u rec.fileId

/-- Drop a bundle.  Nothing is deleted on the server. -/
def cancelBundle (jobId : String) : UploadProgram Unit := do
  let job ← perform (.takeBundle jobId)
  match (job : Option BundleJob) with
  | none => pure ()
  | some job => removeDirs job.members

end Uploads

namespace UploadCommand

open Uploads

variable [Sha256] [Ed25519] [Hkdf] [Aes256Gcm] [Aes256GcmSeal] [Hpke] [HpkeSeal] [X25519]
  [X25519Base] [MlKem768] [MlKem768Encaps]

def program (u : Uploader) : UploadCommand → UploadProgram (Except UiError Unit)
  | stageUpload jobId req => (Uploads.stageUpload u jobId req).run
  | stageBundle jobId bundleId reqs metadata cover =>
    (Uploads.stageBundle u jobId bundleId reqs metadata cover).run
  | confirmUpload jobId => (Uploads.confirmUpload u jobId).run
  | confirmBundle jobId => (Uploads.confirmBundle u jobId).run
  | retryConfirm jobId => (Uploads.retryConfirm u jobId).run
  | resumeUpload fileId => (Uploads.resumeUpload u fileId).run
  | listPendingUploads => do
    Uploads.listPendingUploads u
    pure (.ok ())
  | dismissPendingUpload fileId => do
    Uploads.dismissPendingUpload u fileId
    pure (.ok ())
  | cancelUpload jobId => do
    Uploads.cancelUpload u jobId
    pure (.ok ())
  | cancelBundle jobId => do
    Uploads.cancelBundle jobId
    pure (.ok ())

/-- The file ids that the command draws, and for what. -/
def draws : UploadCommand → List (Id × IdUse)
  | stageUpload jobId req => [(req.fileId, .single jobId req.source.onDisk)]
  | stageBundle _ bundleId reqs _ _ =>
    (bundleId, .bundle) :: reqs.map fun req => (req.fileId, .member bundleId req.source.onDisk)
  | _ => []

def drawsJob : UploadCommand → Option String
  | stageUpload jobId _ => some jobId
  | stageBundle jobId _ _ _ _ => some jobId
  | _ => none

/-- What the command draws is not in use. -/
structure May (w : UploadWorld) (command : UploadCommand) : Prop where
  fresh : ∀ d ∈ command.draws, d.1 ∉ w.drawn
  distinct : (command.draws.map Prod.fst).Nodup
  freshJob : ∀ jobId, command.drawsJob = some jobId → jobId ∉ w.jobs ∧ jobId ∉ w.bundles

end UploadCommand

/-- A command that ran, with the calls it made, and its result if it was not cut off. -/
structure UploadTurn where
  command : UploadCommand
  trace : List (Event UploadCall UploadCall.Response)
  result : Option (Except UiError Unit)

namespace UploadWorld

/-- After a crash the jobs in memory are gone. -/
def restart (w : UploadWorld) : UploadWorld := { w with jobs := ∅, bundles := ∅ }

def draw (w : UploadWorld) (draws : List (Id × IdUse)) : UploadWorld :=
  { w with drawn := draws.foldr (fun d drawn => drawn.insert d.1 d.2) w.drawn }

inductive Next [Sha256] [Ed25519] [Hkdf] [Aes256Gcm] [Aes256GcmSeal] [Hpke] [HpkeSeal] [X25519]
    [X25519Base] [MlKem768] [MlKem768Encaps] (u : Uploader) (server : UploadServer) :
    UploadWorld → UploadTurn → UploadWorld → Prop
  | returned {w w' : UploadWorld} {command : UploadCommand}
      {trace : List (Event UploadCall UploadCall.Response)} {result : Except UiError Unit} :
      command.May w →
      Traced (UploadCall.Step u server) (command.program u) (w.draw command.draws) trace
        (some result) w' →
      Next u server w ⟨command, trace, some result⟩ w'
  | crashed {w w' : UploadWorld} {command : UploadCommand}
      {trace : List (Event UploadCall UploadCall.Response)} :
      command.May w →
      Traced (UploadCall.Step u server) (command.program u) (w.draw command.draws) trace none w' →
      Next u server w ⟨command, trace, none⟩ w'.restart

/-- The server knows nothing of the file. -/
def Unknown (w : UploadWorld) (fileId : Id) : Prop :=
  w.server.files.lookup fileId = none ∧ ∀ key : ChunkKey, ∀ streamType,
    key.blobRef = Files.blobRef fileId FIRST_VERSION streamType → w.server.blobs.lookup key = none

/-- The app is new, and the server knows only ids that are taken. -/
structure Start (w : UploadWorld) : Prop where
  reached : w.server.Reached
  taken : ∀ fileId use, w.drawn.lookup fileId = some use → use = .earlier
  unknown : ∀ fileId, fileId ∉ w.drawn → w.Unknown fileId
  staging : w.staging = ∅
  jobs : w.jobs = ∅
  bundles : w.bundles = ∅

end UploadWorld

end MaxSecu
