import MaxSecu.Framework.LabelledRun
import MaxSecu.Framework.Programs
import MaxSecu.Server.BlobRefs
import MaxSecu.Server.BlobStore

/-!
# Requests on files

The handlers that stage a version, upload a chunk of it, commit it and delete the file.  Each is a
program of calls to the file store and to the blob store.  The file store answers every call; a call
to the blob store may fail, and then it has no effect.

`FileRequest.outcome` says what a request that runs alone can do: it is refused and changes nothing,
or it succeeds in one of six ways.
-/

namespace MaxSecu

open Program ExceptRules AssociationList

/-- One stream of a version, as the chunk handlers need it. -/
structure ChunkSlot where
  streamType : Int16
  blobRef : String
  chunkCount : UInt64
  chunkSize : UInt32
  deriving DecidableEq

structure VersionMeta where
  ownerId : Id
  finalized : Bool
  streams : List ChunkSlot
  deriving DecidableEq

def StreamRow.slot (row : StreamRow) : ChunkSlot :=
  ⟨row.streamType, row.blobRef, row.chunkCount, row.chunkSize⟩

/-- What the chunk handlers read of a version, staged or finalized. -/
def FileStore.versionMeta (files : FileStore) (fileId : Id) (version : UInt64) :
    Option VersionMeta := do
  let entry ← files.lookup fileId
  let ver ← entry.versions.lookup version
  some ⟨entry.ownerId, ver.finalized, ver.streams.map StreamRow.slot⟩

/-! ## Calls -/

/-- The file rows and the chunks. -/
structure ServerState where
  files : FileStore
  blobs : ChunkStore

inductive ServerCall
  | versionMeta (fileId : Id) (version : UInt64)
  | stageVersion (st : CheckedStage) (nowMs : UInt64)
  | finalizeVersion (fileId : Id) (version : UInt64) (callerId : Id) (nowMs : UInt64)
  | discardUnfinalized (fileId callerId : Id)
  | deleteFile (fileId ownerId : Id)
  | blob (c : StoreCall)

namespace ServerCall

@[reducible] def Response : ServerCall → Type
  | versionMeta _ _ => Option VersionMeta
  | stageVersion _ _ => Except StageError UInt64
  | finalizeVersion _ _ _ _ => Except FinalizeError Unit
  | discardUnfinalized _ _ => Except DiscardError (List String)
  | deleteFile _ _ => Except DeleteError (List String)
  | blob c => Except BlobError c.Output

def apply : (c : ServerCall) → ServerState → c.Response × ServerState
  | versionMeta fileId version, s => (s.files.versionMeta fileId version, s)
  | stageVersion st nowMs, s =>
    let done := runFrom (FileStore.stageVersion st.parsed nowMs) s.files
    (done.1, { s with files := done.2 })
  | finalizeVersion fileId version callerId nowMs, s =>
    let done := runFrom (FileStore.finalizeVersion fileId version callerId nowMs) s.files
    (done.1, { s with files := done.2 })
  | discardUnfinalized fileId callerId, s =>
    let done := runFrom (FileStore.discardUnfinalized fileId callerId) s.files
    (done.1, { s with files := done.2 })
  | deleteFile fileId ownerId, s =>
    let done := runFrom (FileStore.deleteFile fileId ownerId) s.files
    (done.1, { s with files := done.2 })
  | blob c, s => (.ok (c.apply s.blobs).1, { s with blobs := (c.apply s.blobs).2 })

/-- A call to the blob store that fails. -/
def Fails : (c : ServerCall) → c.Response → Prop
  | blob _, r => ∃ e, r = .error e
  | _, _ => False

/-- What a call can do, where the blob store has faults or has none. -/
def Step (faults : Bool) (c : ServerCall) (s : ServerState) (r : c.Response) (t : ServerState) :
    Prop :=
  c.apply s = (r, t) ∨ (faults = true ∧ c.Fails r ∧ t = s)

end ServerCall

/-! ## Handlers -/

inductive Status
  | ok
  | created (uploadToken : String) (version : UInt64)
  | noContent
  | badRequest
  | forbidden
  | notFound
  | conflict
  | payloadTooLarge
  | internalServerError
  /-- The handler panicked and there is no response. -/
  | panicked
  deriving DecidableEq

abbrev Handler := Program ServerCall ServerCall.Response

namespace Requests

def uploadToken (fileId : Id) (version : UInt64) : String :=
  String.ofList (fileId.bytes.toList.flatMap Files.hexByte) ++ "." ++ toString version

def stageStatus : StageError → Status
  | .sizeBoundExceeded => .payloadTooLarge
  | .notOwner => .forbidden
  | .noSuchFile => .notFound
  | .alreadyFinalized => .conflict
  | .badManifest | .badGenesis | .fileIdMismatch | .chunkSizeOutOfRange | .missingRecoveryWrap
  | .mismatchedRecoveryWrap | .versionMismatch | .genesisRequired | .genesisUnexpected =>
    .badRequest

def finalizeStatus : FinalizeError → Status
  | .notOwner => .forbidden
  | .noSuchVersion => .notFound
  | .versionConflict _ _ | .alreadyFinalized => .conflict
  | .panicked => .panicked

/-- The content stream is larger than the operator's cap. -/
def overQuota (maxFileBytes : Option UInt64) (p : ParsedStage) : Bool :=
  maxFileBytes.any fun limit => (p.streams.find? fun s => s.streamType = 1).any fun s =>
    limit.toNat < min (s.chunkCount.toNat * s.chunkSize.toNat) (2 ^ 64 - 1)

def stageAndRespond (maxFileBytes : Option UInt64) (input : StageInput) (nowMs : UInt64) :
    Handler Status :=
  match h : Files.parseStage input with
  | .error e => pure (stageStatus e)
  | .ok p =>
    if overQuota maxFileBytes p then
      pure .payloadTooLarge
    else do
      let staged ← perform (.stageVersion ⟨input, p, h⟩ nowMs)
      match (staged : Except StageError UInt64) with
      | .ok version => pure (.created (uploadToken input.fileId version) version)
      | .error e => pure (stageStatus e)

/-- The refusal of a version that lacks chunks, if it lacks any. -/
def checkStreams : List ChunkSlot → Handler (Option Status)
  | [] => pure none
  | s :: streams => do
    let counted ← perform (.blob (.chunkCount s.blobRef))
    match (counted : Except BlobError ℕ) with
    | .ok got => if got = s.chunkCount.toNat then checkStreams streams else pure (some .badRequest)
    | .error _ => pure (some .internalServerError)

/-- Delete the streams one after another.  A fault is logged and leaves the chunks behind. -/
def deleteStreams : List String → Handler Unit
  | [] => pure ()
  | ref :: refs => do
    let _ ← perform (.blob (.deleteStream ref))
    deleteStreams refs

/-- The streams of the version before, which the commit will drop. -/
def priorRefs (fileId : Id) (version : UInt64) : Handler (List String) :=
  if 2 ≤ version then do
    let prior ← perform (.versionMeta fileId (version - 1))
    match (prior : Option VersionMeta) with
    | some m => pure (m.streams.map ChunkSlot.blobRef)
    | none => pure []
  else
    pure []

/-- Commit a version, if each of its streams has as many chunks as it should. -/
def finalizeVersion (fileId : Id) (version : UInt64) (callerId : Id) (nowMs : UInt64) :
    Handler Status := do
  let found ← perform (.versionMeta fileId version)
  match (found : Option VersionMeta) with
  | none => pure .notFound
  | some m =>
    let refused ← checkStreams m.streams
    match refused with
    | some status => pure status
    | none =>
      let refs ← priorRefs fileId version
      let committed ← perform (.finalizeVersion fileId version callerId nowMs)
      match (committed : Except FinalizeError Unit) with
      | .ok () =>
        deleteStreams refs
        pure .ok
      | .error e => pure (finalizeStatus e)

def AEAD_TAG_LEN : ℕ := 16

/-- Upload one chunk of a version that is not finalized. -/
def putChunk (fileId : Id) (version : UInt64) (streamType : StreamType) (index : UInt64)
    (body : List UInt8) (callerId : Id) : Handler Status := do
  let found ← perform (.versionMeta fileId version)
  match (found : Option VersionMeta) with
  | none => pure .notFound
  | some m =>
    if m.ownerId ≠ callerId then
      pure .forbidden
    else if m.finalized then
      pure .conflict
    else
      match m.streams.find? fun s => s.streamType = Files.column streamType.codepoint with
      | none => pure .notFound
      | some slot =>
        if slot.chunkCount ≤ index then
          pure .payloadTooLarge
        else if slot.chunkSize.toNat + AEAD_TAG_LEN < body.length then
          pure .payloadTooLarge
        else do
          let stored ← perform (.blob (.putChunk ⟨slot.blobRef, index⟩ body))
          match (stored : Except BlobError Unit) with
          | .ok () => pure .ok
          | .error _ => pure .internalServerError

/-- Delete a file: what is staged of it or, once it has a finalized version, all of it. -/
def discardFile (fileId callerId : Id) : Handler Status := do
  let discarded ← perform (.discardUnfinalized fileId callerId)
  match (discarded : Except DiscardError (List String)) with
  | .ok refs =>
    deleteStreams refs
    pure .noContent
  | .error .notFound => pure .notFound
  | .error .hasFinalizedVersion =>
    let deleted ← perform (.deleteFile fileId callerId)
    match (deleted : Except DeleteError (List String)) with
    | .ok refs =>
      deleteStreams refs
      pure .noContent
    | .error .notFound => pure .notFound

end Requests

/-- A request by an authenticated caller. -/
inductive FileRequest
  | stage (input : StageInput) (nowMs : UInt64)
  | putChunk (fileId : Id) (version : UInt64) (streamType : StreamType) (index : UInt64)
    (body : List UInt8) (callerId : Id)
  | finalize (fileId : Id) (version : UInt64) (callerId : Id) (nowMs : UInt64)
  | discard (fileId callerId : Id)

namespace FileRequest

def program (maxFileBytes : Option UInt64) : FileRequest → Handler Status
  | stage input nowMs => Requests.stageAndRespond maxFileBytes input nowMs
  | putChunk fileId version streamType index body callerId =>
    Requests.putChunk fileId version streamType index body callerId
  | finalize fileId version callerId nowMs =>
    Requests.finalizeVersion fileId version callerId nowMs
  | discard fileId callerId => Requests.discardFile fileId callerId

/-- A request runs alone, from its first call to its response. -/
def Runs (faults : Bool) (maxFileBytes : Option UInt64) (s : ServerState)
    (request : FileRequest × Status) (t : ServerState) : Prop :=
  Exec (ServerCall.Step faults) (request.1.program maxFileBytes) s (some request.2) t

end FileRequest

/-! ## What a request does -/

def Status.isSuccess : Status → Bool
  | .ok | .created _ _ | .noContent => true
  | _ => false

/-- Streams were deleted, except where the deletion failed. -/
def ChunkStore.Purged (faults : Bool) (refs : List String) (store store' : ChunkStore) : Prop :=
  ∀ key, (store'.lookup key = store.lookup key ∧ (key.blobRef ∈ refs → faults = true)) ∨
    (key.blobRef ∈ refs ∧ store'.lookup key = none)

/-- The streams that a commit of the version drops. -/
def FileEntry.priorRefs (entry : FileEntry) (version : UInt64) : List String :=
  if 2 ≤ version then ((entry.versions.lookup (version - 1)).map VersionEntry.blobRefs).getD []
  else []

/-- The outcomes of a request that runs alone. -/
inductive FileRequest.Outcome (faults : Bool) (maxFileBytes : Option UInt64) (s : ServerState) :
    FileRequest × Status → ServerState → Prop
  | refused {request : FileRequest} {status : Status} : status.isSuccess = false →
      Outcome faults maxFileBytes s (request, status) s
  | staged {input : StageInput} {p : ParsedStage} {entry : FileEntry} {nowMs : UInt64} :
      Files.parseStage input = .ok p → Requests.overQuota maxFileBytes p = false →
      FileStore.StageRow s.files p nowMs entry → entry.isFinalized p.version = false →
      Outcome faults maxFileBytes s
        (.stage input nowMs, .created (Requests.uploadToken input.fileId p.version) p.version)
        ⟨s.files.insert p.fileId (entry.stage p), s.blobs⟩
  | put {fileId callerId : Id} {version index : UInt64} {streamType : StreamType}
      {body : List UInt8} {entry : FileEntry} {ver : VersionEntry} {row : StreamRow} :
      s.files.lookup fileId = some entry → entry.versions.lookup version = some ver →
      entry.ownerId = callerId → ver.finalized = false → row ∈ ver.streams →
      row.streamType = Files.column streamType.codepoint → index < row.chunkCount →
      body.length ≤ row.chunkSize.toNat + Requests.AEAD_TAG_LEN →
      Outcome faults maxFileBytes s
        (.putChunk fileId version streamType index body callerId, .ok)
        ⟨s.files, s.blobs.insert ⟨row.blobRef, index⟩ body⟩
  | committed {fileId callerId : Id} {version nowMs : UInt64} {entry : FileEntry}
      {ver : VersionEntry} {blobs : ChunkStore} :
      s.files.lookup fileId = some entry → entry.ownerId = callerId →
      entry.versions.lookup version = some ver → ver.finalized = false →
      version.toNat = entry.currentVersion.toNat + 1 →
      (∀ row ∈ ver.streams, s.blobs.chunkCount row.blobRef = row.chunkCount.toNat) →
      s.blobs.Purged faults (entry.priorRefs version) blobs →
      Outcome faults maxFileBytes s (.finalize fileId version callerId nowMs, .ok)
        ⟨s.files.insert fileId (entry.finalize version nowMs), blobs⟩
  | absent {fileId callerId : Id} : s.files.lookup fileId = none →
      Outcome faults maxFileBytes s (.discard fileId callerId, .noContent) s
  | discarded {fileId callerId : Id} {entry : FileEntry} {blobs : ChunkStore} :
      s.files.lookup fileId = some entry → entry.ownerId = callerId → entry.currentVersion = 0 →
      s.blobs.Purged faults entry.stagedBlobRefs blobs →
      Outcome faults maxFileBytes s (.discard fileId callerId, .noContent)
        ⟨s.files.insert fileId entry.discardStaged, blobs⟩
  | deleted {fileId callerId : Id} {target : FileEntry} {blobs : ChunkStore} :
      s.files.lookup fileId = some target → target.ownerId = callerId →
      target.currentVersion ≠ 0 →
      s.blobs.Purged faults
        (FileStore.removeAll (s.files.deleteTargets fileId callerId target) s.files).1 blobs →
      Outcome faults maxFileBytes s (.discard fileId callerId, .noContent)
        ⟨eraseAll (s.files.deleteTargets fileId callerId target) s.files, blobs⟩

namespace Requests

variable {faults : Bool} {maxFileBytes : Option UInt64} {s : ServerState}

/-! ### Calls -/

lemma wp_perform_store {c : ServerCall} {post : c.Response → ServerState → Prop}
    (hc : ∀ r, ¬ c.Fails r) :
    wp (ServerCall.Step faults) (perform c) post s ↔ post (c.apply s).1 (c.apply s).2 := by
  rw [wp_perform]
  constructor
  · intro h
    exact h _ _ (.inl rfl)
  · intro h r t hstep
    obtain happly | ⟨_, hfails, _⟩ := hstep
    · rw [happly] at h
      exact h
    · exact absurd hfails (hc r)

lemma wp_perform_blob {c : StoreCall} {post : Except BlobError c.Output → ServerState → Prop} :
    wp (ServerCall.Step faults) (perform (.blob c)) post s ↔
      post (.ok (c.apply s.blobs).1) ⟨s.files, (c.apply s.blobs).2⟩ ∧
        (faults = true → ∀ e, post (.error e) s) := by
  rw [wp_perform]
  constructor
  · intro h
    exact ⟨h _ _ (.inl rfl), fun hfaults e => h _ _ (.inr ⟨hfaults, ⟨e, rfl⟩, rfl⟩)⟩
  · intro ⟨hok, herror⟩ r t hstep
    obtain happly | ⟨hfaults, hfails, hsame⟩ := hstep
    · obtain ⟨hr, ht⟩ := Prod.mk.inj happly
      rw [← hr, ← ht]
      exact hok
    · obtain ⟨e, he⟩ := hfails
      rw [he, hsame]
      exact herror hfaults e

/-! ### Parts of handlers -/

lemma wp_checkStreams {streams : List ChunkSlot} {post : Option Status → ServerState → Prop}
    (hnone : (∀ slot ∈ streams, s.blobs.chunkCount slot.blobRef = slot.chunkCount.toNat) →
      post none s)
    (hsome : ∀ status, status.isSuccess = false → post (some status) s) :
    wp (ServerCall.Step faults) (checkStreams streams) post s := by
  induction streams with
  | nil => exact hnone (by simp)
  | cons slot streams ih =>
    rw [checkStreams, wp_bind, wp_perform_blob]
    refine ⟨?_, fun _ e => hsome .internalServerError rfl⟩
    show wp _ (if s.blobs.chunkCount slot.blobRef = slot.chunkCount.toNat then _ else _) post s
    by_cases hcount : s.blobs.chunkCount slot.blobRef = slot.chunkCount.toNat
    · rw [if_pos hcount]
      refine ih fun hall => hnone ?_
      intro slot' hslot'
      obtain rfl | hrest := List.mem_cons.mp hslot'
      · exact hcount
      · exact hall slot' hrest
    · rw [if_neg hcount]
      exact hsome .badRequest rfl

lemma wp_deleteStreams {refs : List String} {post : Unit → ServerState → Prop}
    (h : ∀ blobs, s.blobs.Purged faults refs blobs → post () ⟨s.files, blobs⟩) :
    wp (ServerCall.Step faults) (deleteStreams refs) post s := by
  induction refs generalizing s with
  | nil => exact h s.blobs fun key => .inl ⟨rfl, fun hmem => absurd hmem (by simp)⟩
  | cons ref refs ih =>
    rw [deleteStreams, wp_bind, wp_perform_blob]
    constructor
    · refine ih fun blobs hpurged => h blobs ?_
      intro key
      have hkey := hpurged key
      rw [show ((StoreCall.deleteStream ref).apply s.blobs).2 = s.blobs.deleteStream ref from rfl,
        ChunkStore.lookup_deleteStream] at hkey
      by_cases href : key.blobRef = ref
      · rw [if_pos href] at hkey
        refine .inr ⟨by simp [href], ?_⟩
        obtain ⟨hnone, _⟩ | ⟨_, hnone⟩ := hkey
        · exact hnone
        · exact hnone
      · rw [if_neg href] at hkey
        obtain ⟨hsame, hfaults⟩ | ⟨hmem, hnone⟩ := hkey
        · refine .inl ⟨hsame, fun hmem => hfaults ?_⟩
          exact (List.mem_cons.mp hmem).resolve_left href
        · exact .inr ⟨List.mem_cons_of_mem ref hmem, hnone⟩
    · intro hfaults e
      refine ih fun blobs hpurged => h blobs ?_
      intro key
      obtain ⟨hsame, _⟩ | ⟨hmem, hnone⟩ := hpurged key
      · exact .inl ⟨hsame, fun _ => hfaults⟩
      · exact .inr ⟨List.mem_cons_of_mem ref hmem, hnone⟩

lemma versionMeta_eq_some {files : FileStore} {fileId : Id} {version : UInt64} {m : VersionMeta} :
    files.versionMeta fileId version = some m ↔ ∃ entry ver, files.lookup fileId = some entry ∧
      entry.versions.lookup version = some ver ∧
      ⟨entry.ownerId, ver.finalized, ver.streams.map StreamRow.slot⟩ = m := by
  unfold FileStore.versionMeta
  cases hentry : files.lookup fileId with
  | none => simp
  | some entry =>
    cases hver : entry.versions.lookup version with
    | none => simp [hver]
    | some ver => simp [hver]

lemma wp_priorRefs {fileId : Id} {version : UInt64} {entry : FileEntry}
    {post : List String → ServerState → Prop} (hentry : s.files.lookup fileId = some entry)
    (h : post (entry.priorRefs version) s) :
    wp (ServerCall.Step faults) (priorRefs fileId version) post s := by
  unfold priorRefs
  unfold FileEntry.priorRefs at h
  by_cases hversion : 2 ≤ version
  · rw [if_pos hversion] at h ⊢
    rw [wp_bind, wp_perform_store (c := .versionMeta fileId (version - 1)) fun _ h => h]
    show wp _ (match s.files.versionMeta fileId (version - 1) with
      | some m => pure (m.streams.map ChunkSlot.blobRef)
      | none => pure []) post s
    cases hver : entry.versions.lookup (version - 1) with
    | none =>
      have hnone : s.files.versionMeta fileId (version - 1) = none := by
        simp [FileStore.versionMeta, hentry, hver]
      rw [hver] at h
      rw [hnone]
      exact h
    | some ver =>
      have hsome := versionMeta_eq_some.mpr ⟨entry, ver, hentry, hver, rfl⟩
      rw [hver, Option.map_some, Option.getD_some] at h
      rw [hsome]
      show post ((ver.streams.map StreamRow.slot).map ChunkSlot.blobRef) s
      rw [List.map_map]
      exact h
  · rw [if_neg hversion] at h ⊢
    exact h

/-! ### Handlers -/

lemma outcome_stage {input : StageInput} {nowMs : UInt64} :
    wp (ServerCall.Step faults) (stageAndRespond maxFileBytes input nowMs)
      (fun status t => FileRequest.Outcome faults maxFileBytes s (.stage input nowMs, status) t)
      s := by
  unfold stageAndRespond
  split
  · rename_i e hparse
    refine .refused ?_
    cases e <;> rfl
  · rename_i p hparse
    by_cases hquota : overQuota maxFileBytes p = true
    · rw [if_pos hquota]
      exact .refused rfl
    · rw [if_neg hquota, wp_bind,
        wp_perform_store (c := .stageVersion ⟨input, p, hparse⟩ nowMs) fun _ h => h]
      obtain ⟨hfail, hsame⟩ | ⟨version, files, hrun⟩ :=
        (FileStore.stageVersion_atomic p nowMs).run_cases s.files
      · simp only [ServerCall.apply]
        rw [hsame]
        cases hreply : (runFrom (FileStore.stageVersion p nowMs) s.files).1 with
        | error e =>
          refine .refused ?_
          cases e <;> rfl
        | ok version =>
          rw [hreply] at hfail
          exact absurd hfail (by simp [Except.isOk, Except.toBool])
      · obtain ⟨_, rfl, entry, hrow, hopen, rfl⟩ := FileStore.stageVersion_eq_ok.mp hrun
        simp only [ServerCall.apply, hrun]
        exact .staged hparse (by simpa using hquota) hrow hopen

lemma outcome_put {fileId callerId : Id} {version index : UInt64} {streamType : StreamType}
    {body : List UInt8} :
    wp (ServerCall.Step faults) (putChunk fileId version streamType index body callerId)
      (fun status t => FileRequest.Outcome faults maxFileBytes s
        (.putChunk fileId version streamType index body callerId, status) t) s := by
  unfold putChunk
  rw [wp_bind, wp_perform_store (c := .versionMeta fileId version) fun _ h => h]
  simp only [ServerCall.apply]
  cases hmeta : s.files.versionMeta fileId version with
  | none => exact .refused rfl
  | some m =>
    obtain ⟨entry, ver, hentry, hver, rfl⟩ := versionMeta_eq_some.mp hmeta
    simp only
    by_cases howner : entry.ownerId = callerId
    · by_cases hfinal : ver.finalized = true
      · rw [if_neg (not_not.mpr howner), if_pos hfinal]
        exact .refused rfl
      · rw [if_neg (not_not.mpr howner), if_neg hfinal]
        cases hslot : (ver.streams.map StreamRow.slot).find? fun s =>
            s.streamType = Files.column streamType.codepoint with
        | none => exact .refused rfl
        | some slot =>
          have htype := List.find?_some hslot
          obtain ⟨row, hrow, rfl⟩ := List.mem_map.mp (List.mem_of_find?_eq_some hslot)
          simp only
          by_cases hindex : row.chunkCount ≤ index
          · rw [if_pos (show row.slot.chunkCount ≤ index from hindex)]
            exact .refused rfl
          · rw [if_neg (show ¬ row.slot.chunkCount ≤ index from hindex)]
            by_cases hsize : row.chunkSize.toNat + AEAD_TAG_LEN < body.length
            · rw [if_pos (show row.slot.chunkSize.toNat + AEAD_TAG_LEN < body.length from hsize)]
              exact .refused rfl
            · rw [if_neg (show ¬ row.slot.chunkSize.toNat + AEAD_TAG_LEN < body.length from hsize),
                wp_bind, wp_perform_blob]
              refine ⟨?_, fun _ e => .refused rfl⟩
              exact .put hentry hver howner (by simpa using hfinal) hrow
                (of_decide_eq_true htype)
                (UInt64.not_le.mp hindex) (by omega)
    · rw [if_pos howner]
      exact .refused rfl

lemma outcome_finalize {fileId callerId : Id} {version nowMs : UInt64} :
    wp (ServerCall.Step faults) (finalizeVersion fileId version callerId nowMs)
      (fun status t => FileRequest.Outcome faults maxFileBytes s
        (.finalize fileId version callerId nowMs, status) t) s := by
  unfold finalizeVersion
  rw [wp_bind, wp_perform_store (c := .versionMeta fileId version) fun _ h => h]
  simp only [ServerCall.apply]
  cases hmeta : s.files.versionMeta fileId version with
  | none => exact .refused rfl
  | some m =>
    obtain ⟨entry, ver, hentry, hver, rfl⟩ := versionMeta_eq_some.mp hmeta
    simp only
    rw [wp_bind]
    refine wp_checkStreams ?_ ?_
    · intro hcounts
      simp only
      rw [wp_bind]
      refine wp_priorRefs hentry ?_
      rw [wp_bind, wp_perform_store (c := .finalizeVersion fileId version callerId nowMs)
        fun _ h => h]
      obtain ⟨hfail, hsame⟩ | ⟨_, files, hrun⟩ :=
        (FileStore.finalizeVersion_atomic fileId version callerId nowMs).run_cases s.files
      · simp only [ServerCall.apply]
        rw [hsame]
        cases hreply : (runFrom (FileStore.finalizeVersion fileId version callerId nowMs)
            s.files).1 with
        | error e =>
          refine .refused ?_
          cases e <;> rfl
        | ok _ =>
          rw [hreply] at hfail
          exact absurd hfail (by simp [Except.isOk, Except.toBool])
      · obtain ⟨entry', ver', hentry', howner, hver', hopen, hnext, rfl⟩ :=
          FileStore.finalizeVersion_eq_ok.mp hrun
        obtain rfl : entry = entry' := Option.some.inj (hentry.symm.trans hentry')
        obtain rfl : ver = ver' := Option.some.inj (hver.symm.trans hver')
        simp only [ServerCall.apply, hrun]
        rw [wp_bind]
        refine wp_deleteStreams fun blobs hpurged => ?_
        refine .committed hentry howner hver hopen hnext ?_ hpurged
        intro row hrow
        exact hcounts row.slot (List.mem_map_of_mem hrow)
    · intro status hstatus
      exact .refused hstatus

lemma outcome_discard {fileId callerId : Id} :
    wp (ServerCall.Step faults) (discardFile fileId callerId)
      (fun status t => FileRequest.Outcome faults maxFileBytes s (.discard fileId callerId, status)
        t) s := by
  unfold discardFile
  rw [wp_bind, wp_perform_store (c := .discardUnfinalized fileId callerId) fun _ h => h]
  obtain ⟨hfail, hsame⟩ | ⟨refs, files, hrun⟩ :=
    (FileStore.discardUnfinalized_atomic fileId callerId).run_cases s.files
  · simp only [ServerCall.apply]
    rw [hsame]
    cases hreply : (runFrom (FileStore.discardUnfinalized fileId callerId) s.files).1 with
    | ok _ =>
      rw [hreply] at hfail
      exact absurd hfail (by simp [Except.isOk, Except.toBool])
    | error e =>
      cases e with
      | notFound => exact .refused rfl
      | hasFinalizedVersion =>
        simp only
        rw [wp_bind, wp_perform_store (c := .deleteFile fileId callerId) fun _ h => h]
        obtain ⟨target, htarget, howner, hcurrent⟩ :=
          FileStore.discardUnfinalized_eq_hasFinalizedVersion.mp hreply
        have hdelete := FileStore.deleteFile_eq_ok.mpr ⟨target, htarget, howner, rfl, rfl⟩
        simp only [ServerCall.apply, hdelete]
        rw [wp_bind, FileStore.removeAll_snd]
        exact wp_deleteStreams fun blobs hpurged => .deleted htarget howner hcurrent hpurged
  · simp only [ServerCall.apply, hrun]
    obtain ⟨habsent, rfl, rfl⟩ | ⟨entry, hentry, howner, hcurrent, rfl, rfl⟩ :=
      FileStore.discardUnfinalized_eq_ok.mp hrun
    · exact .absent habsent
    · rw [wp_bind]
      exact wp_deleteStreams fun blobs hpurged => .discarded hentry howner hcurrent hpurged

end Requests

/-- A request that runs alone ends in one of the outcomes. -/
theorem FileRequest.outcome {faults : Bool} {maxFileBytes : Option UInt64} {s t : ServerState}
    {request : FileRequest × Status} (h : Runs faults maxFileBytes s request t) :
    Outcome faults maxFileBytes s request t := by
  have hwp : wp (ServerCall.Step faults) (request.1.program maxFileBytes)
      (fun status t => Outcome faults maxFileBytes s (request.1, status) t) s := by
    obtain ⟨request, _⟩ := request
    cases request with
    | stage input nowMs => exact Requests.outcome_stage
    | putChunk fileId version streamType index body callerId => exact Requests.outcome_put
    | finalize fileId version callerId nowMs => exact Requests.outcome_finalize
    | discard fileId callerId => exact Requests.outcome_discard
  have houtcome := wp_sound h hwp
  exact houtcome

/-! ## Runs -/

/-- The file rows are those after some run of the file store. -/
def ServerState.Reached (s : ServerState) : Prop :=
  ∃ ops, (fileMachine.run ops).1.files = s.files

namespace ServerState

variable {s t : ServerState} {fileId : Id} {entry : FileEntry} {v : UInt64} {ver : VersionEntry}

lemma reached_empty {blobs : ChunkStore} : Reached ⟨∅, blobs⟩ := ⟨[], rfl⟩

lemma Reached.apply (h : s.Reached) (op : FileOp) (ht : (op.apply s.files).2 = t.files) :
    t.Reached := by
  obtain ⟨ops, hops⟩ := h
  refine ⟨ops ++ [op], ?_⟩
  rw [Machine.run_append_singleton, ← ht, ← hops]
  exact Ledger.step_files

lemma Reached.slotted (h : s.Reached) (hentry : s.files.lookup fileId = some entry)
    (hver : entry.versions.lookup v = some ver) : Slotted fileId v ver.streams := by
  obtain ⟨ops, hops⟩ := h
  rw [← hops] at hentry
  exact slotted_run ops hentry hver

lemma Reached.outcome {faults : Bool} {maxFileBytes : Option UInt64}
    {request : FileRequest × Status} (h : s.Reached)
    (houtcome : FileRequest.Outcome faults maxFileBytes s request t) : t.Reached := by
  cases houtcome with
  | refused _ => exact h
  | @staged input p entry nowMs hparse _ hrow hopen =>
    refine h.apply (.stageVersion ⟨input, p, hparse⟩ nowMs) ?_
    have hrun := FileStore.stageVersion_eq_ok.mpr
      ⟨(⟨input, p, hparse⟩ : CheckedStage).not_any_isHalfShape, rfl, entry, hrow, hopen, rfl⟩
    simp only [FileOp.apply, hrun]
  | put _ _ _ _ _ _ _ _ => exact h
  | @committed fileId callerId version nowMs entry ver _ hentry howner hver hopen hnext _ _ =>
    refine h.apply (.finalizeVersion fileId version callerId nowMs) ?_
    have hrun : runFrom (FileStore.finalizeVersion fileId version callerId nowMs) s.files =
        (.ok (), s.files.insert fileId (entry.finalize version nowMs)) :=
      FileStore.finalizeVersion_eq_ok.mpr ⟨entry, ver, hentry, howner, hver, hopen, hnext, rfl⟩
    simp only [FileOp.apply, hrun]
  | absent _ => exact h
  | @discarded fileId callerId entry _ hentry howner hcurrent _ =>
    refine h.apply (.discardUnfinalized fileId callerId) ?_
    have hrun := FileStore.discardUnfinalized_eq_ok.mpr
      (.inr ⟨entry, hentry, howner, hcurrent, rfl, rfl⟩)
    simp only [FileOp.apply, hrun]
  | @deleted fileId callerId target _ htarget howner _ _ =>
    refine h.apply (.deleteFile fileId callerId) ?_
    have hrun := FileStore.deleteFile_eq_ok.mpr ⟨target, htarget, howner, rfl, rfl⟩
    simp only [FileOp.apply, hrun, FileStore.removeAll_snd]

lemma Reached.run {faults : Bool} {maxFileBytes : Option UInt64}
    {path : List (ServerState × FileRequest × Status)} (h : s.Reached)
    (hrun : LabelledRun (FileRequest.Runs faults maxFileBytes) s path t) : t.Reached :=
  @LabelledRun.invariant_of_steps _ _ _ _ _ _ Reached (fun _ _ => True) h
    (fun _ _ _ hinv _ hnext => hinv.outcome (FileRequest.outcome hnext)) hrun
    fun _ _ => trivial

end ServerState

/-- The run of a request in which no call fails. -/
def FileRequest.serve (maxFileBytes : Option UInt64) (s : ServerState) (request : FileRequest) :
    Status × ServerState :=
  eval ServerCall.apply (request.program maxFileBytes) s

lemma FileRequest.runs_serve {faults : Bool} {maxFileBytes : Option UInt64} {s : ServerState}
    {request : FileRequest} :
    Runs faults maxFileBytes s (request, (request.serve maxFileBytes s).1)
      (request.serve maxFileBytes s).2 :=
  exec_eval (fun _ _ => .inl rfl) _ s

namespace ServerState

/-- The state after some requests in which no call fails. -/
def serveAll (maxFileBytes : Option UInt64) (s : ServerState) (requests : List FileRequest) :
    ServerState :=
  requests.foldl (fun s request => (request.serve maxFileBytes s).2) s

def servePath (maxFileBytes : Option UInt64) (s : ServerState) :
    List FileRequest → List (ServerState × FileRequest × Status)
  | [] => []
  | request :: requests =>
    (s, request, (request.serve maxFileBytes s).1) ::
      servePath maxFileBytes (request.serve maxFileBytes s).2 requests

lemma servePath_append {maxFileBytes : Option UInt64} {s : ServerState}
    {requests : List FileRequest} {request : FileRequest} :
    s.servePath maxFileBytes (requests ++ [request]) = s.servePath maxFileBytes requests ++
      [(s.serveAll maxFileBytes requests, request,
        (request.serve maxFileBytes (s.serveAll maxFileBytes requests)).1)] := by
  induction requests generalizing s with
  | nil => rfl
  | cons first requests ih =>
    rw [List.cons_append, servePath, servePath, ih, List.cons_append]
    rfl

lemma run_serveAll {faults : Bool} {maxFileBytes : Option UInt64} {s : ServerState}
    (requests : List FileRequest) :
    LabelledRun (FileRequest.Runs faults maxFileBytes) s (s.servePath maxFileBytes requests)
      (s.serveAll maxFileBytes requests) := by
  induction requests using List.reverseRecOn with
  | nil => exact .start
  | append_singleton requests request ih =>
    have hlast : s.serveAll maxFileBytes (requests ++ [request]) =
        (request.serve maxFileBytes (s.serveAll maxFileBytes requests)).2 :=
      List.foldl_append
    rw [servePath_append, hlast]
    exact .step ih FileRequest.runs_serve

end ServerState

/-- A request of the owner to stage version 1 of a file with so many chunks of content. -/
def FileRequest.stageChunks (fileId callerId : Id) (count : UInt64) : FileRequest :=
  .stage (CheckedStage.authoredInput
    { CheckedStage.plainManifest fileId callerId 1 with
      streams := [⟨.content, .none, count, ⟨.replicate 32 0⟩⟩] }
    [⟨RECOVERY_ID, 2, [], 1, callerId, [], .replicate 64 0⟩] true none) 0

end MaxSecu
