import MaxSecu.App.UploadCommands

/-!
# What the upload commands ask for

`UploadCommand.Permits` says which calls a command makes after which responses: what it uploads is
what a registry or the disk handed to it, a record is written again right after a chunk got through,
a job goes back only while its upload is not committed, a directory is removed after a commit or
when the upload is dropped.  Every command keeps to it (`UploadCommand.keeps`), whatever the server,
the disk and the registries answer, so an invariant of all runs is shown call by call.
-/

namespace MaxSecu

open Program

abbrev UploadTrace := List (Event UploadCall UploadCall.Response)

def UploadTrace.Made (past : UploadTrace) (c : UploadCall) (r : c.Response) : Prop := ⟨c, r⟩ ∈ past

namespace StagedContent

/-- The file that a member of a bundle is uploaded as. -/
def target : StagedContent → BundleMember → Id
  | inRam bundle, _ => bundle.fileId
  | streaming _, info => info.fileId

def stageInput : StagedContent → StageFlags → Id → StageInput
  | inRam bundle, flags, callerId => bundle.stageInput flags callerId
  | streaming rec, flags, callerId => rec.stageInput flags callerId

/-- The streams that are sealed before the upload starts. -/
def sealedStreams : StagedContent → List (StreamType × List (List UInt8))
  | inRam bundle => bundle.streams.map fun s => (s.streamType, s.chunks)
  | streaming rec => rec.smallStreams.map fun s => (s.streamType, s.chunks)

end StagedContent

/-- What was handed to a command to upload, as which file, and how it is to be listed. -/
inductive UploadTrace.Handed (past : UploadTrace) : StagedContent → Id → StageFlags → Prop
  | loaded {fileId : Id} {rec : StagingRecord} : past.Made (.load fileId) (some rec) →
      Handed past (.streaming rec) fileId .default
  | job {jobId : String} {content : StagedContent} : past.Made (.takeJob jobId) (some content) →
      Handed past content content.fileId .default
  | member {jobId : String} {job : BundleJob} {content : StagedContent} {info : BundleMember} :
      past.Made (.takeBundle jobId) (some job) → (content, info) ∈ job.members →
      Handed past content (content.target info) ⟨false, some job.bundleId⟩
  | bundle {jobId : String} {job : BundleJob} {bundle : UploadBundle} :
      past.Made (.takeBundle jobId) (some job) → bundle.fileId = job.bundleId →
      Handed past (.inRam bundle) job.bundleId .default

namespace UploadTrace

def Uploaded (past : UploadTrace) (u : Uploader) (fileId : Id) : Prop :=
  past.Made (.request (.finalize fileId u.userId)) (.answered .ok)

def Sent (past : UploadTrace) (u : Uploader) (fileId : Id) (streamType : StreamType)
    (chunks : List (List UInt8)) : Prop :=
  ∀ k chunk, chunks[k]? = some chunk →
    past.Made (.request (.putChunk fileId streamType (UInt64.ofNat k) chunk u.userId))
      (.answered .ok)

/-- The record was posted and its small streams got through, if no chunk of the content had. -/
def Started (past : UploadTrace) (u : Uploader) (fileId : Id) (rec : StagingRecord) : Prop :=
  rec.progress = 0 →
    (∃ flags token version, past.Made (.request (.stage (rec.stageInput flags u.userId)))
      (.answered (.created token version))) ∧
    ∀ s ∈ rec.smallStreams, past.Sent u fileId s.streamType s.chunks

/-- From one record to the other, chunks of the content got through. -/
structure Advanced (past : UploadTrace) (u : Uploader) (fileId : Id)
    (rec rec' : StagingRecord) : Prop where
  same : rec.SameUpload rec'
  le : rec.progress ≤ rec'.progress
  put : ∀ i, rec.progress ≤ i → i < rec'.progress → ∃ chunk,
    past.Made (.request (.putChunk fileId .content i chunk u.userId)) (.answered .ok)
  started : rec'.progress ≠ 0 → past.Started u fileId rec

/-- What is left of an upload, ended or not. -/
inductive Left (past : UploadTrace) (u : Uploader) (fileId : Id) :
    StagedContent → StagedContent → Prop
  | inRam (bundle : UploadBundle) : Left past u fileId (.inRam bundle) (.inRam bundle)
  | streaming {rec rec' : StagingRecord} : past.Advanced u fileId rec rec' →
      Left past u fileId (.streaming rec) (.streaming rec')

def LeftMember (past : UploadTrace) (u : Uploader) (m m' : StagedContent × BundleMember) : Prop :=
  m'.2 = m.2 ∧ past.Left u (m.1.target m.2) m.1 m'.1

def UploadedJob (past : UploadTrace) (u : Uploader) (jobId : String) : Prop :=
  ∃ content, past.Made (.takeJob jobId) (some content) ∧ past.Uploaded u content.fileId

/-- A bundle was committed with all its members. -/
def UploadedBundle (past : UploadTrace) (u : Uploader) (jobId : String) : Prop :=
  ∃ job, past.Made (.takeBundle jobId) (some job) ∧ past.Uploaded u job.bundleId ∧
    ∀ m ∈ job.members, past.Uploaded u (m.1.target m.2)

end UploadTrace

/-- The owner recovers this sealer from the record. -/
def StagingRecord.Recovers [Sha256] [Hkdf] [Aes256Gcm] [Hpke] [X25519] [MlKem768] (rec : StagingRecord)
    (owner : Identity) (sealer : ContentStreamSealer) : Prop :=
  ∃ wrapped ctx, rec.selfWrap = .ok (wrapped, ctx) ∧
    resumeContentSealer owner wrapped ctx rec.suite rec.fileId FIRST_VERSION rec.chunkSize =
      .ok sealer

namespace UploadTrace

variable {u : Uploader} {past past' past'' : UploadTrace} {fileId : Id} {flags : StageFlags}

/-- Every commit of an upload from disk was followed by the removal of its directory. -/
def Settled (past : UploadTrace) (u : Uploader) : Prop :=
  ∀ fileId, past.Uploaded u fileId →
    (∃ bundle flags, past.Handed (.inRam bundle) fileId flags) ∨
    ∃ rec flags removed, past.Handed (.streaming rec) fileId flags ∧
      past.Made (.remove rec.fileId) removed

/-- More calls were made, and no further commit was answered. -/
structure Quiet (u : Uploader) (past past' : UploadTrace) : Prop where
  grows : past <+: past'
  silent : ∀ fileId, past'.Uploaded u fileId → past.Uploaded u fileId

lemma Made.mono {c : UploadCall} {r : c.Response} (h : past.Made c r) (hgrows : past <+: past') :
    past'.Made c r :=
  hgrows.subset h

lemma made_last (past : UploadTrace) (c : UploadCall) (r : c.Response) :
    (past ++ [⟨c, r⟩] : UploadTrace).Made c r :=
  List.mem_append_right _ (List.mem_singleton_self _)

lemma Handed.mono {content : StagedContent} (h : past.Handed content fileId flags)
    (hgrows : past <+: past') : past'.Handed content fileId flags := by
  cases h with
  | loaded hmade => exact .loaded (hmade.mono hgrows)
  | job hmade => exact .job (hmade.mono hgrows)
  | member hmade hmem => exact .member (hmade.mono hgrows) hmem
  | bundle hmade hfile => exact .bundle (hmade.mono hgrows) hfile

lemma Sent.mono {streamType : StreamType} {chunks : List (List UInt8)}
    (h : past.Sent u fileId streamType chunks) (hgrows : past <+: past') :
    past'.Sent u fileId streamType chunks :=
  fun k chunk hchunk => (h k chunk hchunk).mono hgrows

lemma Started.mono {rec : StagingRecord} (h : past.Started u fileId rec)
    (hgrows : past <+: past') : past'.Started u fileId rec := by
  intro hzero
  obtain ⟨⟨flags, token, version, hstage⟩, hsent⟩ := h hzero
  exact ⟨⟨flags, token, version, hstage.mono hgrows⟩, fun s hs => (hsent s hs).mono hgrows⟩

lemma Advanced.mono {rec rec' : StagingRecord} (h : past.Advanced u fileId rec rec')
    (hgrows : past <+: past') : past'.Advanced u fileId rec rec' where
  same := h.same
  le := h.le
  put i hle hlt := by
    obtain ⟨chunk, hmade⟩ := h.put i hle hlt
    exact ⟨chunk, hmade.mono hgrows⟩
  started hne := (h.started hne).mono hgrows

lemma advanced_refl (rec : StagingRecord) : past.Advanced u fileId rec rec where
  same := rec.sameUpload_refl
  le := UInt64.le_refl _
  put _ hle hlt := absurd hle (UInt64.not_le.mpr hlt)
  started hne hzero := absurd hzero hne

lemma Left.mono {content content' : StagedContent} (h : past.Left u fileId content content')
    (hgrows : past <+: past') : past'.Left u fileId content content' := by
  cases h with
  | inRam bundle => exact .inRam bundle
  | streaming hadvanced => exact .streaming (hadvanced.mono hgrows)

lemma leftMember_refl (members : List (StagedContent × BundleMember)) :
    List.Forall₂ (past.LeftMember u) members members := by
  refine List.forall₂_same.mpr fun m _ => ⟨rfl, ?_⟩
  cases m.1 with
  | inRam bundle => exact .inRam bundle
  | streaming rec => exact .streaming (advanced_refl rec)

lemma quiet_refl : Quiet u past past := ⟨List.prefix_rfl, fun _ h => h⟩

lemma Quiet.trans (h : Quiet u past past') (h' : Quiet u past' past'') : Quiet u past past'' :=
  ⟨h.grows.trans h'.grows, fun fileId hup => h.silent fileId (h'.silent fileId hup)⟩

lemma quiet_call (past : UploadTrace) {c : UploadCall} {r : c.Response}
    (hc : ∀ fileId, (⟨c, r⟩ : Event UploadCall UploadCall.Response) ≠
      ⟨.request (.finalize fileId u.userId), .answered .ok⟩) : Quiet u past (past ++ [⟨c, r⟩]) where
  grows := List.prefix_append _ _
  silent fileId hup := by
    obtain hold | hnew := List.mem_append.mp hup
    · exact hold
    · exact absurd (List.mem_singleton.mp hnew).symm (hc fileId)

lemma quiet_other (past : UploadTrace) {c : UploadCall} {r : c.Response}
    (hc : ∀ fileId callerId, c ≠ .request (.finalize fileId callerId)) :
    Quiet u past (past ++ [⟨c, r⟩]) :=
  quiet_call past fun fileId heq => hc fileId u.userId (congrArg Event.call heq)

lemma Settled.grown (h : past.Settled u) (hgrows : past <+: past') (hup : past.Uploaded u fileId) :
    (∃ bundle flags, past'.Handed (.inRam bundle) fileId flags) ∨
      ∃ rec flags removed, past'.Handed (.streaming rec) fileId flags ∧
        past'.Made (.remove rec.fileId) removed := by
  obtain ⟨bundle, flags, hhanded⟩ | ⟨rec, flags, removed, hhanded, hremoved⟩ := h fileId hup
  · exact .inl ⟨bundle, flags, hhanded.mono hgrows⟩
  · exact .inr ⟨rec, flags, removed, hhanded.mono hgrows, hremoved.mono hgrows⟩

lemma Settled.quiet (h : past.Settled u) (hquiet : Quiet u past past') : past'.Settled u :=
  fun fileId hup => h.grown hquiet.grows (hquiet.silent fileId hup)

end UploadTrace

lemma Delivery.seen_eq_some {d : Delivery} {status : Status} :
    d.seen = some status ↔ d = .answered status := by
  cases d <;> simp [Delivery.seen]

lemma forall₂_exists_left {α β : Type} {R : α → β → Prop} {xs : List α} {ys : List β}
    (h : List.Forall₂ R xs ys) {y : β} (hy : y ∈ ys) : ∃ x ∈ xs, R x y := by
  induction h with
  | nil => exact absurd hy (by simp)
  | cons hxy _ ih =>
    obtain rfl | hrest := List.mem_cons.mp hy
    · exact ⟨_, List.mem_cons_self .., hxy⟩
    · obtain ⟨x, hx, hR⟩ := ih hrest
      exact ⟨x, List.mem_cons_of_mem _ hx, hR⟩

section Rule

variable [Sha256] [Ed25519] [Hkdf] [Aes256Gcm] [Aes256GcmSeal] [Hpke] [HpkeSeal] [X25519]
  [X25519Base] [MlKem768] [MlKem768Encaps]

/-- What a request was staged as, with what the calls before it drew. -/
inductive UploadTrace.Staged (past : UploadTrace) (u : Uploader) (req : StageRequest) :
    StagedContent → Prop
  | inRam {recipients : Recipients} {owner : Identity} {drawn : Dek × (ℕ → WrapEntropy)}
      {streams : PlaintextStreams} {bundle : UploadBundle} :
      past.Made .resolveRecipients (some recipients) → past.Made .identity (some owner) →
      past.Made .random drawn → req.source = .memory streams →
      buildUploadInner drawn.2 drawn.1 (Uploads.uploadParams u owner recipients req.fileId
        req.fileType) streams = .ok bundle →
      Staged past u req (.inRam bundle)
  | streaming {recipients : Recipients} {owner : Identity} {drawn : Dek × (ℕ → WrapEntropy)}
      {small : SmallStreams} {read copied : List UInt8} {size : UInt64} {rec : StagingRecord} :
      past.Made .resolveRecipients (some recipients) → past.Made .identity (some owner) →
      past.Made .random drawn → req.source = .disk small read size copied →
      stageStreamingContent drawn.2 drawn.1 ⟨Uploads.uploadParams u owner recipients req.fileId
        req.fileType, small, req.title, read, size, copied⟩ = .ok rec →
      Staged past u req (.streaming rec)

def UploadTrace.StagedMember (past : UploadTrace) (u : Uploader) (req : StageRequest)
    (m : StagedContent × BundleMember) : Prop :=
  past.Staged u req m.1 ∧ m.2 = ⟨req.fileId, req.fileType⟩

namespace UploadTrace.Staged

variable {past past' : UploadTrace} {u : Uploader} {req : StageRequest} {content : StagedContent}

lemma mono (h : past.Staged u req content) (hgrows : past <+: past') :
    past'.Staged u req content := by
  cases h with
  | inRam hrecipients hidentity hrandom hsource hbuild =>
    exact .inRam (hrecipients.mono hgrows) (hidentity.mono hgrows) (hrandom.mono hgrows) hsource
      hbuild
  | streaming hrecipients hidentity hrandom hsource hstage =>
    exact .streaming (hrecipients.mono hgrows) (hidentity.mono hgrows) (hrandom.mono hgrows)
      hsource hstage

lemma fileId (h : past.Staged u req content) : content.fileId = req.fileId := by
  cases h with
  | inRam _ _ _ _ hbuild =>
    obtain ⟨-, wraps, -, rfl⟩ := buildUploadInner_eq_ok.mp hbuild
    rfl
  | streaming _ _ _ _ hstage => exact stageStreamingContent_fileId hstage

lemma onDisk (h : past.Staged u req content) : content.onDisk = req.source.onDisk := by
  cases h with
  | inRam _ _ _ hsource _ =>
    rw [hsource]
    rfl
  | streaming _ _ _ hsource _ =>
    rw [hsource]
    rfl

end UploadTrace.Staged

namespace UploadCommand

def requests : UploadCommand → List StageRequest
  | stageUpload _ req => [req]
  | stageBundle _ _ reqs _ _ => reqs
  | _ => []

/-- The uploads whose directories the command removes, ended or not. -/
inductive Drops (past : UploadTrace) : UploadCommand → Id → Prop
  | dismiss (fileId : Id) : Drops past (.dismissPendingUpload fileId) fileId
  | sweep {recs : List StagingRecord} {rec : StagingRecord} :
      past.Made .listPending recs → rec ∈ recs → Drops past .listPendingUploads rec.fileId
  | cancel {jobId : String} {rec : StagingRecord} :
      past.Made (.takeJob jobId) (some (.streaming rec)) →
      Drops past (.cancelUpload jobId) rec.fileId
  | cancelMember {jobId : String} {job : BundleJob} {rec : StagingRecord} {info : BundleMember} :
      past.Made (.takeBundle jobId) (some job) → (StagedContent.streaming rec, info) ∈ job.members →
      Drops past (.cancelBundle jobId) rec.fileId

/-- The commands that delete files on the server. -/
def isCleanup : UploadCommand → Bool
  | listPendingUploads | dismissPendingUpload _ | cancelUpload _ => true
  | _ => false

/-- The calls that the command makes after those in `past`. -/
inductive Permits (u : Uploader) (command : UploadCommand) (past : UploadTrace) :
    UploadCall → Prop
  | connect : Permits u command past .connect
  | resolveRecipients : Permits u command past .resolveRecipients
  | random : Permits u command past .random
  | identity : Permits u command past .identity
  | now : Permits u command past .now
  | stage {content : StagedContent} {fileId : Id} {flags : StageFlags} :
      past.Handed content fileId flags →
      Permits u command past (.request (.stage (content.stageInput flags u.userId)))
  | sealedStream {content : StagedContent} {fileId : Id} {flags : StageFlags}
      {s : StreamType × List (List UInt8)} {k : ℕ} {chunk : List UInt8} :
      past.Handed content fileId flags → s ∈ content.sealedStreams → s.2[k]? = some chunk →
      Permits u command past
        (.request (.putChunk fileId s.1 (UInt64.ofNat k) chunk u.userId))
  | contentChunk {rec : StagingRecord} {fileId : Id} {flags : StageFlags} {owner : Identity}
      {sealer : ContentStreamSealer} {i : UInt64} {plaintext : List UInt8} :
      past.Handed (.streaming rec) fileId flags → past.Started u fileId rec →
      past.Made .identity (some owner) → rec.Recovers owner sealer → i < rec.contentChunkCount →
      past.Made (.readChunk rec.fileId (i.toNat * rec.chunkSize.toNat) rec.chunkSize.toNat)
        (some plaintext) →
      Permits u command past (.request (.putChunk fileId .content i
        (sealer.sealChunk i plaintext (i = rec.contentChunkCount - 1)) u.userId))
  | finalize {content : StagedContent} {fileId : Id} {flags : StageFlags} :
      past.Handed content fileId flags →
      Permits u command past (.request (.finalize fileId u.userId))
  | discard {fileId : Id} : command.isCleanup = true → command.Drops past fileId →
      Permits u command past (.request (.discard fileId u.userId))
  | openContent (fileId : Id) : Permits u command past (.openContent fileId)
  | readChunk (fileId : Id) (offset size : ℕ) :
      Permits u command past (.readChunk fileId offset size)
  | placeContent {req : StageRequest} {rec : StagingRecord} {small : SmallStreams}
      {read copied : List UInt8} {size : UInt64} : req ∈ command.requests →
      past.Staged u req (.streaming rec) → req.source = .disk small read size copied →
      Permits u command past (.placeContent rec.fileId copied)
  | persistStaged {req : StageRequest} {rec : StagingRecord} {copied : List UInt8} :
      req ∈ command.requests → past.Staged u req (.streaming rec) →
      past.Made (.placeContent rec.fileId copied) true → Permits u command past (.persist rec)
  | persistAdvanced {rec rec' : StagingRecord} {fileId : Id} {flags : StageFlags}
      {before : UploadTrace} {i nowMs : UInt64} {chunk : List UInt8} :
      past.Handed (.streaming rec) fileId flags → past.Advanced u fileId rec rec' →
      before ++ [⟨.request (.putChunk fileId .content i chunk u.userId), .answered .ok⟩,
        ⟨.now, nowMs⟩] = past →
      Permits u command past (.persist rec')
  | load {fileId : Id} : command = .resumeUpload fileId → Permits u command past (.load fileId)
  | listPending : Permits u command past .listPending
  | removeStaged {req : StageRequest} : req ∈ command.requests →
      Permits u command past (.remove req.fileId)
  | removeUploaded {rec : StagingRecord} {fileId : Id} {flags : StageFlags} :
      past.Handed (.streaming rec) fileId flags → past.Uploaded u fileId →
      Permits u command past (.remove rec.fileId)
  | removeMarked {rec : StagingRecord} {fileId : Id} : past.Made (.load fileId) (some rec) →
      rec.finalized = true → Permits u command past (.remove fileId)
  | removeDropped {fileId : Id} : command.Drops past fileId →
      Permits u command past (.remove fileId)
  | takeJob (jobId : String) : command.draws = [] → Permits u command past (.takeJob jobId)
  | putStaged {jobId : String} {req : StageRequest} {content : StagedContent} :
      command = .stageUpload jobId req → past.Staged u req content →
      Permits u command past (.putJob jobId content)
  | putBack {jobId : String} {content content' : StagedContent} :
      past.Made (.takeJob jobId) (some content) → past.Left u content.fileId content content' →
      ¬ past.Uploaded u content.fileId → Permits u command past (.putJob jobId content')
  | hasBundle (jobId : String) : Permits u command past (.hasBundle jobId)
  | takeBundle (jobId : String) : command.draws = [] → Permits u command past (.takeBundle jobId)
  | putStagedBundle {jobId : String} {bundleId : Id} {reqs : List StageRequest}
      {metadata : List UInt8} {cover : Option (List UInt8)}
      {members : List (StagedContent × BundleMember)} :
      command = .stageBundle jobId bundleId reqs metadata cover →
      List.Forall₂ (past.StagedMember u) reqs members →
      Permits u command past (.putBundle jobId ⟨bundleId, metadata, members, cover⟩)
  | putBackBundle {jobId : String} {job : BundleJob}
      {members : List (StagedContent × BundleMember)} :
      past.Made (.takeBundle jobId) (some job) →
      List.Forall₂ (past.LeftMember u) job.members members →
      Permits u command past (.putBundle jobId { job with members := members })

end UploadCommand

/-! ## The commands keep to it -/

namespace Uploads

open UploadTrace UploadCommand

variable {u : Uploader} {command : UploadCommand} {past : UploadTrace} {fileId : Id}
  {flags : StageFlags}

/-! ### One call -/

lemma keeps_perform {β : Type} (c : UploadCall) {f : c.Response → UploadProgram β}
    {post : UploadTrace → β → Prop}
    (hc : ∀ fileId callerId, c ≠ .request (.finalize fileId callerId))
    (hpermits : Permits u command past c)
    (hnext : ∀ (past' : UploadTrace) r, Quiet u past past' → past'.Made c r →
      Keeps (Permits u command) post (f r) past') :
    Keeps (Permits u command) post (perform c >>= f) past :=
  Keeps.bind ⟨hpermits, fun r => hnext _ r (quiet_other past hc) (made_last past c r)⟩

lemma keeps_ask {β : Type} (c : UploadCall) {f : c.Response → ExceptT UiError UploadProgram β}
    {post : UploadTrace → Except UiError β → Prop}
    (hc : ∀ fileId callerId, c ≠ .request (.finalize fileId callerId))
    (hpermits : Permits u command past c)
    (hnext : ∀ (past' : UploadTrace) r, Quiet u past past' → past'.Made c r →
      Keeps (Permits u command) post (f r).run past') :
    Keeps (Permits u command) post
      ((liftM (perform c) : ExceptT UiError UploadProgram c.Response) >>= f).run past :=
  Keeps.liftBind (p := perform c)
    ⟨hpermits, fun r => hnext _ r (quiet_other past hc) (made_last past c r)⟩

variable {post : UploadTrace → Except UiError Unit → Prop}

/-! ### Sending -/

lemma keeps_putChunkRetried {streamType : StreamType} {i : UInt64} {body : List UInt8} {n : ℕ}
    (hpermits : ∀ past', past <+: past' →
      Permits u command past' (.request (.putChunk fileId streamType i body u.userId)))
    (hpost : ∀ past' result, Quiet u past past' → (result = .ok () → ∃ before, before ++
      [⟨.request (.putChunk fileId streamType i body u.userId), .answered .ok⟩] = past') →
      post past' result) :
    Keeps (Permits u command) post
      (putChunkRetried (.putChunk fileId streamType i body u.userId) n).run past := by
  have hquiet : ∀ past' (d : Delivery), Quiet u past' (past' ++
      [⟨.request (.putChunk fileId streamType i body u.userId), d⟩]) :=
    fun past' d => quiet_other _ fun _ _ => by simp
  induction n generalizing past with
  | zero =>
    unfold putChunkRetried
    refine Keeps.liftBind (Keeps.bind ⟨hpermits past List.prefix_rfl, ?_⟩)
    intro d
    show Keeps _ post (if Delivery.seen d = some .ok then _ else _) _
    by_cases hseen : Delivery.seen d = some .ok
    · rw [if_pos hseen]
      obtain rfl := Delivery.seen_eq_some.mp hseen
      exact hpost _ _ (hquiet past _) fun _ => ⟨past, rfl⟩
    · rw [if_neg hseen]
      exact hpost _ _ (hquiet past d) fun hok => absurd hok (by simp)
  | succ n ih =>
    unfold putChunkRetried
    refine Keeps.liftBind (Keeps.bind ⟨hpermits past List.prefix_rfl, ?_⟩)
    intro d
    show Keeps _ post (ExceptT.run (if Delivery.seen d = some .ok then _ else _)) _
    by_cases hseen : Delivery.seen d = some .ok
    · rw [if_pos hseen]
      obtain rfl := Delivery.seen_eq_some.mp hseen
      exact hpost _ _ (hquiet past _) fun _ => ⟨past, rfl⟩
    · rw [if_neg hseen]
      refine ih (fun past' hgrows => hpermits past' ((hquiet past d).grows.trans hgrows)) ?_
      intro past' result hquiet' hok
      exact hpost past' result ((hquiet past d).trans hquiet') hok

lemma keeps_putChunks {streamType : StreamType} {chunks : List (List UInt8)} {i : UInt64}
    (hpermits : ∀ past', past <+: past' → ∀ k chunk, chunks[k]? = some chunk →
      Permits u command past'
        (.request (.putChunk fileId streamType (i + UInt64.ofNat k) chunk u.userId)))
    (hpost : ∀ past' result, Quiet u past past' → (result = .ok () → ∀ k chunk,
      chunks[k]? = some chunk → past'.Made
        (.request (.putChunk fileId streamType (i + UInt64.ofNat k) chunk u.userId))
        (.answered .ok)) → post past' result) :
    Keeps (Permits u command) post (putChunks fileId streamType u.userId i chunks).run past := by
  induction chunks generalizing i past with
  | nil => exact hpost past _ quiet_refl fun _ k chunk hchunk => absurd hchunk (by simp)
  | cons first chunks ih =>
    have hnext : ∀ k, i + UInt64.ofNat (k + 1) = i + 1 + UInt64.ofNat k := by
      intro k
      rw [UInt64.ofNat_add, UInt64.add_assoc, UInt64.add_comm (UInt64.ofNat k)]
      rfl
    have hfirst : i + UInt64.ofNat 0 = i := UInt64.add_zero i
    refine Keeps.bindExcept (keeps_putChunkRetried ?_ ?_)
    · intro past' hgrows
      have hpermit := hpermits past' hgrows 0 first rfl
      rw [hfirst] at hpermit
      exact hpermit
    · intro past' result hquiet hok
      refine ⟨?_, fun e he => hpost past' _ hquiet fun h => absurd h (by simp)⟩
      intro _ hresult
      obtain ⟨before, rfl⟩ := hok hresult
      refine ih ?_ ?_
      · intro past'' hgrows k chunk hchunk
        rw [← hnext]
        exact hpermits past'' (hquiet.grows.trans hgrows) (k + 1) chunk hchunk
      · intro past'' result' hquiet' hok'
        refine hpost past'' result' (hquiet.trans hquiet') fun h k chunk hchunk => ?_
        cases k with
        | zero =>
          obtain rfl : first = chunk := Option.some.inj hchunk
          rw [hfirst]
          exact (made_last _ _ _).mono hquiet'.grows
        | succ k =>
          rw [hnext]
          exact hok' h k chunk hchunk

lemma keeps_putStreams {streams : List (StreamType × List (List UInt8))}
    (hpermits : ∀ past', past <+: past' → ∀ s ∈ streams, ∀ k chunk, s.2[k]? = some chunk →
      Permits u command past' (.request (.putChunk fileId s.1 (UInt64.ofNat k) chunk u.userId)))
    (hpost : ∀ past' result, Quiet u past past' →
      (result = .ok () → ∀ s ∈ streams, past'.Sent u fileId s.1 s.2) → post past' result) :
    Keeps (Permits u command) post (putStreams fileId u.userId streams).run past := by
  induction streams generalizing past with
  | nil => exact hpost past _ quiet_refl fun _ s hs => absurd hs (by simp)
  | cons s streams ih =>
    refine Keeps.bindExcept (keeps_putChunks ?_ ?_)
    · intro past' hgrows k chunk hchunk
      rw [UInt64.zero_add]
      exact hpermits past' hgrows s (by simp) k chunk hchunk
    · intro past' result hquiet hok
      refine ⟨?_, fun e he => hpost past' _ hquiet fun h => absurd h (by simp)⟩
      intro _ hresult
      refine ih ?_ ?_
      · intro past'' hgrows s' hs'
        exact hpermits past'' (hquiet.grows.trans hgrows) s' (List.mem_cons_of_mem s hs')
      · intro past'' result' hquiet' hok'
        refine hpost past'' result' (hquiet.trans hquiet') fun h s' hs' => ?_
        obtain rfl | hrest := List.mem_cons.mp hs'
        · intro k chunk hchunk
          have hmade := hok hresult k chunk hchunk
          rw [UInt64.zero_add] at hmade
          exact hmade.mono hquiet'.grows
        · exact hok' h s' hrest

lemma keeps_postJson {r : UploadRequest} {post : UploadTrace → Except UiError Status → Prop}
    (hpermits : Permits u command past (.request r))
    (hpost : ∀ d : Delivery, (∀ status, d = .answered status →
        post (past ++ [⟨.request r, d⟩]) (.ok status)) ∧
      ((∀ status, d ≠ .answered status) → ∀ e, post (past ++ [⟨.request r, d⟩]) (.error e))) :
    Keeps (Permits u command) post (postJson r).run past := by
  unfold postJson
  refine Keeps.liftBind (Keeps.bind ⟨hpermits, ?_⟩)
  intro d
  cases d with
  | answered status => exact (hpost (.answered status)).1 status rfl
  | unanswered status => exact (hpost (.unanswered status)).2 (fun _ h => absurd h (by simp)) _
  | undelivered => exact (hpost .undelivered).2 (fun _ h => absurd h (by simp)) _

lemma keeps_postStage {input : StageInput}
    (hpermits : Permits u command past (.request (.stage input)))
    (hpost : ∀ past' result, Quiet u past past' → (result = .ok () → ∃ token version,
      past'.Made (.request (.stage input)) (.answered (.created token version))) →
      post past' result) :
    Keeps (Permits u command) post (postStage input).run past := by
  have hquiet : ∀ d : Delivery, Quiet u past (past ++ [⟨.request (.stage input), d⟩]) :=
    fun d => quiet_other _ fun _ _ => by simp
  unfold postStage
  refine Keeps.bindExcept (keeps_postJson hpermits ?_)
  intro d
  refine ⟨?_, fun _ e => ⟨fun _ h => absurd h (by simp), fun _ _ =>
    hpost _ _ (hquiet d) fun h => absurd h (by simp)⟩⟩
  rintro status rfl
  refine ⟨?_, fun e h => absurd h (by simp)⟩
  intro status' hstatus
  obtain rfl := Except.ok.inj hstatus
  cases status with
  | created token version =>
    exact hpost _ _ (hquiet _) fun _ => ⟨token, version, made_last _ _ _⟩
  | _ => exact hpost _ _ (hquiet _) fun h => absurd h (by simp)

lemma keeps_postFinalize
    (hpermits : Permits u command past (.request (.finalize fileId u.userId)))
    (hok : ∀ past' : UploadTrace, past <+: past' → past'.Uploaded u fileId →
      (∀ g, past'.Uploaded u g → g = fileId ∨ past.Uploaded u g) → post past' (.ok ()))
    (herror : ∀ past' e, Quiet u past past' → post past' (.error e)) :
    Keeps (Permits u command) post (postFinalize fileId u.userId).run past := by
  have hquiet : ∀ d : Delivery, d ≠ .answered .ok →
      Quiet u past (past ++ [⟨.request (.finalize fileId u.userId), d⟩]) := by
    intro d hd
    refine quiet_call _ fun g heq => hd ?_
    cases heq
    rfl
  unfold postFinalize
  refine Keeps.bindExcept (keeps_postJson hpermits ?_)
  intro d
  refine ⟨?_, ?_⟩
  · rintro status rfl
    refine ⟨?_, fun e h => absurd h (by simp)⟩
    intro status' hstatus
    obtain rfl := Except.ok.inj hstatus
    show Keeps _ post (ExceptT.run (if status = .ok then _ else _)) _
    by_cases hdone : status = .ok
    · rw [if_pos hdone]
      subst hdone
      refine hok _ (List.prefix_append _ _) (made_last _ _ _) ?_
      intro g hg
      obtain hold | hnew := List.mem_append.mp hg
      · exact .inr hold
      · refine .inl ?_
        cases List.mem_singleton.mp hnew
        rfl
    · rw [if_neg hdone]
      exact herror _ _ (hquiet _ (by simpa using hdone))
  · intro hnone e
    exact ⟨fun _ h => absurd h (by simp), fun _ _ => herror _ _ (hquiet d (hnone .ok))⟩

/-! ### Uploads from disk -/

lemma keeps_stageRecord {rec : StagingRecord}
    (hhanded : past.Handed (.streaming rec) fileId flags)
    (hpost : ∀ past' result, Quiet u past past' →
      (result = .ok () → past'.Started u fileId rec) → post past' result) :
    Keeps (Permits u command) post (stageRecord u rec fileId flags).run past := by
  unfold stageRecord
  by_cases hzero : rec.progress = 0
  · rw [if_pos hzero]
    refine Keeps.bindExcept (keeps_postStage (.stage hhanded) ?_)
    intro past' result hquiet hstaged
    refine ⟨?_, fun e he => hpost past' _ hquiet fun h => absurd h (by simp)⟩
    intro _ hresult
    obtain ⟨token, version, hmade⟩ := hstaged hresult
    refine keeps_putStreams ?_ ?_
    · intro past'' hgrows s hs k chunk hchunk
      exact .sealedStream (hhanded.mono (hquiet.grows.trans hgrows)) hs hchunk
    · intro past'' result' hquiet' hsent
      refine hpost past'' result' (hquiet.trans hquiet') fun hok _ => ?_
      refine ⟨⟨flags, token, version, hmade.mono hquiet'.grows⟩, ?_⟩
      intro s hs
      exact hsent hok (s.streamType, s.chunks) (List.mem_map_of_mem hs)
  · rw [if_neg hzero]
    exact hpost past _ quiet_refl fun _ h => absurd h hzero

lemma keeps_openStaged {rec : StagingRecord}
    {post : UploadTrace → Except UiError ContentStreamSealer → Prop}
    (hpost : ∀ past' result, Quiet u past past' → (∀ sealer, result = .ok sealer →
      ∃ owner, past'.Made .identity (some owner) ∧ rec.Recovers owner sealer) →
      post past' result) :
    Keeps (Permits u command) post (openStaged rec).run past := by
  have herror : ∀ past' (e : UiError), Quiet u past past' → post past' (.error e) :=
    fun past' e hquiet => hpost past' _ hquiet fun _ h => absurd h (by simp)
  unfold openStaged
  cases hself : rec.selfWrap with
  | error e => exact herror past e quiet_refl
  | ok self =>
    refine keeps_ask .identity (by simp) .identity ?_
    intro past₁ session hquiet howner
    cases session with
    | none => exact herror _ _ hquiet
    | some owner =>
      dsimp only
      cases hresume : resumeContentSealer owner self.1 self.2 rec.suite rec.fileId FIRST_VERSION
          rec.chunkSize with
      | error e =>
        exact herror _ _ hquiet
      | ok sealer =>
        refine keeps_ask (.openContent rec.fileId) (by simp) (.openContent _) ?_
        intro past₂ opened hopened _
        have hquiet' := hquiet.trans hopened
        cases opened with
        | false => exact herror _ _ hquiet'
        | true =>
          refine hpost _ _ hquiet' ?_
          intro sealer' hsealer
          obtain rfl := Except.ok.inj hsealer
          exact ⟨owner, howner.mono hopened.grows, self.1, self.2, hself, hresume⟩

lemma keeps_sendChunks {rec₀ rec : StagingRecord} {owner : Identity}
    {sealer : ContentStreamSealer} {n : ℕ} {i : UInt64}
    {post : UploadTrace → Except UiError Unit × StagingRecord → Prop}
    (hhanded : past.Handed (.streaming rec₀) fileId flags) (hstarted : past.Started u fileId rec₀)
    (howner : past.Made .identity (some owner)) (hrecovers : rec₀.Recovers owner sealer)
    (hadvanced : past.Advanced u fileId rec₀ rec) (hprogress : rec.progress = i)
    (hcount : n ≠ 0 → i.toNat + n = rec₀.contentChunkCount.toNat)
    (hpost : ∀ past' result rec', Quiet u past past' → past'.Advanced u fileId rec₀ rec' →
      post past' (result, rec')) :
    Keeps (Permits u command) post (sendChunks u sealer fileId n i rec) past := by
  induction n generalizing i rec past with
  | zero => exact hpost past _ rec quiet_refl hadvanced
  | succ n ih =>
    have hlt : i.toNat < rec₀.contentChunkCount.toNat := by
      have := hcount (by omega)
      omega
    have hnext : (i + 1).toNat = i.toNat + 1 := by
      have := rec₀.contentChunkCount.toNat_lt
      rw [UInt64.toNat_add, UInt64.toNat_one]
      omega
    have hsame := hadvanced.same
    unfold sendChunks
    refine keeps_perform (.readChunk _ _ _) (by simp) (.readChunk _ _ _) ?_
    intro past₁ read hread hmade
    cases read with
    | none => exact hpost _ _ rec hread (hadvanced.mono hread.grows)
    | some plaintext =>
      rw [hsame.fileId, hsame.chunkSize] at hmade
      refine Keeps.bind (keeps_putChunkRetried ?_ ?_)
      · intro past' hgrows
        rw [hsame.contentChunkCount]
        exact .contentChunk (hhanded.mono (hread.grows.trans hgrows))
          (hstarted.mono (hread.grows.trans hgrows)) (howner.mono (hread.grows.trans hgrows))
          hrecovers (UInt64.lt_iff_toNat_lt.mpr hlt) (hmade.mono hgrows)
      · intro past' put hquiet hput
        have hgrown := hread.trans hquiet
        cases put with
        | error e => exact hpost past' _ rec hgrown (hadvanced.mono hgrown.grows)
        | ok _ =>
          obtain ⟨before, hbefore⟩ := hput rfl
          refine Keeps.bind ⟨.now, ?_⟩
          intro nowMs
          have hnow : Quiet u past' (past' ++ [⟨.now, nowMs⟩]) := quiet_other _ fun _ _ => by simp
          have hadvanced' : UploadTrace.Advanced (past' ++ [⟨.now, nowMs⟩]) u fileId rec₀
              (rec.advance (i + 1) nowMs) := by
            have hall := hadvanced.mono (hgrown.trans hnow).grows
            refine ⟨hsame.advance _ _, ?_, ?_, ?_⟩
            · have hle := UInt64.le_iff_toNat_le.mp hall.le
              refine UInt64.le_iff_toNat_le.mpr ?_
              rw [hprogress] at hle
              show rec₀.progress.toNat ≤ (i + 1).toNat
              omega
            · intro j hle hj
              by_cases hji : j = i
              · subst hji
                have hlast := made_last before (.request (.putChunk fileId .content j
                  (sealer.sealChunk j plaintext (j = rec.contentChunkCount - 1)) u.userId))
                  (.answered .ok)
                rw [hbefore] at hlast
                exact ⟨_, hlast.mono hnow.grows⟩
              · refine hall.put j hle ?_
                rw [hprogress]
                refine UInt64.lt_iff_toNat_lt.mpr ?_
                have hj' : j.toNat < (i + 1).toNat := UInt64.lt_iff_toNat_lt.mp hj
                have hne : j.toNat ≠ i.toNat := fun h => hji (UInt64.toNat_inj.mp h)
                omega
            · intro _
              exact hstarted.mono (hgrown.trans hnow).grows
          refine keeps_perform (.persist _) (by simp) ?_ ?_
          · have hlast : before ++ [⟨.request (.putChunk fileId .content i (sealer.sealChunk i
                plaintext (i = rec.contentChunkCount - 1)) u.userId), .answered .ok⟩,
                ⟨.now, nowMs⟩] = past' ++ [⟨.now, nowMs⟩] := by
              rw [← hbefore, List.append_assoc]
              rfl
            exact .persistAdvanced (hhanded.mono (hgrown.trans hnow).grows) hadvanced' hlast
          · intro past₂ _ hkept _
            have hall := (hgrown.trans hnow).trans hkept
            refine ih (hhanded.mono hall.grows) (hstarted.mono hall.grows)
              (howner.mono hall.grows) (hadvanced'.mono hkept.grows) rfl ?_ ?_
            · intro hn
              have := hcount (by omega)
              omega
            · intro past'' result rec' hquiet' hadvanced''
              exact hpost past'' result rec' (hall.trans hquiet') hadvanced''

lemma keeps_finishUpload {rec rec' : StagingRecord}
    (hhanded : past.Handed (.streaming rec) fileId flags) (hsame : rec.SameUpload rec')
    (hok : ∀ past' : UploadTrace, past <+: past' → past'.Uploaded u fileId →
      (past.Settled u → past'.Settled u) → post past' (.ok ()))
    (herror : ∀ past' e, Quiet u past past' → post past' (.error e)) :
    Keeps (Permits u command) post (finishUpload u rec' fileId).run past := by
  unfold finishUpload
  refine Keeps.bindExcept (keeps_postFinalize (.finalize hhanded) ?_ ?_)
  · intro past' hgrows hup hnew
    refine ⟨?_, fun e h => absurd h (by simp)⟩
    intro _ _
    rw [hsame.fileId]
    refine keeps_ask (.remove rec.fileId) (by simp)
      (.removeUploaded (hhanded.mono hgrows) hup) ?_
    intro past₁ _ hquiet₁ _
    refine keeps_ask (.remove rec.fileId) (by simp) (.removeUploaded
      (hhanded.mono (hgrows.trans hquiet₁.grows)) (hup.mono hquiet₁.grows)) ?_
    intro past₂ removed hquiet₂ hremoved
    have hquiet := hquiet₁.trans hquiet₂
    have hall := hgrows.trans hquiet.grows
    refine hok past₂ hall (hup.mono hquiet.grows) ?_
    intro hsettled g hg
    obtain rfl | hold := hnew g (hquiet.silent g hg)
    · exact .inr ⟨rec, flags, removed, hhanded.mono hall, hremoved⟩
    · exact hsettled.grown hall hold
  · intro past' e hquiet
    exact ⟨fun _ h => absurd h (by simp), fun _ _ => herror past' _ hquiet⟩

lemma keeps_streamingConfirm {rec : StagingRecord}
    {post : UploadTrace → Except UiError Unit × StagingRecord → Prop}
    (hhanded : past.Handed (.streaming rec) fileId flags)
    (hok : ∀ (past' : UploadTrace) rec', past <+: past' → past'.Uploaded u fileId →
      past'.Advanced u fileId rec rec' → (past.Settled u → past'.Settled u) →
      post past' (.ok (), rec'))
    (herror : ∀ past' e rec', Quiet u past past' → past'.Advanced u fileId rec rec' →
      post past' (.error e, rec')) :
    Keeps (Permits u command) post (streamingConfirm u rec fileId flags) past := by
  unfold streamingConfirm
  refine Keeps.bind (keeps_stageRecord hhanded ?_)
  intro past₁ started hquiet₁ hstarted
  cases started with
  | error e => exact herror past₁ e rec hquiet₁ (advanced_refl rec)
  | ok _ =>
    refine Keeps.bind (keeps_openStaged (u := u) ?_)
    intro past₂ opened hquiet₂ hopened
    have hquiet := hquiet₁.trans hquiet₂
    cases opened with
    | error e => exact herror past₂ e rec hquiet (advanced_refl rec)
    | ok sealer =>
      obtain ⟨owner, howner, hrecovers⟩ := hopened sealer rfl
      refine Keeps.bind (keeps_sendChunks (hhanded.mono hquiet.grows)
        ((hstarted rfl).mono hquiet₂.grows) howner hrecovers (advanced_refl rec) rfl ?_ ?_)
      · intro hne
        omega
      · intro past₃ sent rec' hquiet₃ hadvanced
        have hquiet' := hquiet.trans hquiet₃
        cases sent with
        | error e => exact herror past₃ e rec' hquiet' hadvanced
        | ok _ =>
          refine Keeps.bind (keeps_finishUpload (hhanded.mono hquiet'.grows) hadvanced.same ?_ ?_)
          · intro past₄ hgrows hup hsettled
            exact hok past₄ rec' (hquiet'.grows.trans hgrows) hup (hadvanced.mono hgrows)
              fun h => hsettled (h.quiet hquiet')
          · intro past₄ e hquiet₄
            exact herror past₄ e rec' (hquiet'.trans hquiet₄) (hadvanced.mono hquiet₄.grows)

lemma keeps_runPipeline {bundle : UploadBundle}
    (hhanded : past.Handed (.inRam bundle) bundle.fileId flags)
    (hok : ∀ past' : UploadTrace, past <+: past' → past'.Uploaded u bundle.fileId →
      (past.Settled u → past'.Settled u) → post past' (.ok ()))
    (herror : ∀ past' e, Quiet u past past' → post past' (.error e)) :
    Keeps (Permits u command) post (runPipeline u bundle flags).run past := by
  unfold runPipeline
  refine Keeps.bindExcept (keeps_postStage (.stage hhanded) ?_)
  intro past₁ staged hquiet₁ _
  refine ⟨?_, fun e he => herror past₁ e hquiet₁⟩
  intro _ _
  refine Keeps.bindExcept (keeps_putStreams ?_ ?_)
  · intro past₂ hgrows s hs k chunk hchunk
    exact .sealedStream (hhanded.mono (hquiet₁.grows.trans hgrows)) hs hchunk
  · intro past₂ sent hquiet₂ _
    have hquiet := hquiet₁.trans hquiet₂
    refine ⟨?_, fun e he => herror past₂ e hquiet⟩
    intro _ _
    refine keeps_postFinalize (.finalize (hhanded.mono hquiet.grows)) ?_ ?_
    · intro past₃ hgrows hup hnew
      refine hok past₃ (hquiet.grows.trans hgrows) hup ?_
      intro hsettled g hg
      obtain rfl | hold := hnew g hg
      · exact .inl ⟨bundle, flags, hhanded.mono (hquiet.grows.trans hgrows)⟩
      · exact hsettled.grown (hquiet.grows.trans hgrows) (hquiet.silent g hold)
    · intro past₃ e hquiet₃
      exact herror past₃ e (hquiet.trans hquiet₃)

/-! ### Staging -/

lemma keeps_placeStaged (item : StreamingItem) {req : StageRequest} {rec : StagingRecord}
    (hreq : req ∈ command.requests)
    (hstaged : past.Staged u req (.streaming rec))
    (hsource : req.source = .disk item.small item.read item.size item.copied)
    (hfile : rec.fileId = req.fileId)
    (hpost : ∀ past' result, Quiet u past past' → post past' result) :
    Keeps (Permits u command) post (placeStaged item rec).run past := by
  unfold placeStaged
  refine keeps_ask (.placeContent rec.fileId item.copied) (by simp)
    (.placeContent hreq hstaged hsource) ?_
  intro past₁ placed hplaced hmade
  show Keeps _ post (ExceptT.run (if placed = true then _ else _)) _
  by_cases hdone : placed = true
  · rw [if_pos hdone]
    subst hdone
    refine keeps_ask (.persist rec) (by simp)
      (.persistStaged hreq (hstaged.mono hplaced.grows) hmade) ?_
    intro past₂ kept hkept _
    have hquiet := hplaced.trans hkept
    show Keeps _ post (ExceptT.run (if kept = true then _ else _)) _
    by_cases hkeep : kept = true
    · rw [if_pos hkeep]
      exact hpost _ _ hquiet
    · rw [if_neg hkeep, hfile]
      refine keeps_ask (.remove req.fileId) (by simp) (.removeStaged hreq) ?_
      intro past₃ _ hremoved _
      exact hpost _ _ (hquiet.trans hremoved)
  · rw [if_neg hdone]
    exact hpost _ _ hplaced

lemma keeps_stageItem {req : StageRequest} {post : UploadTrace → Except UiError StagedContent → Prop}
    (hreq : req ∈ command.requests)
    (hpost : ∀ past' result, Quiet u past past' →
      (∀ content, result = .ok content → past'.Staged u req content) → post past' result) :
    Keeps (Permits u command) post (stageItem u req).run past := by
  have herror : ∀ past' (e : UiError), Quiet u past past' → post past' (.error e) :=
    fun past' e hquiet => hpost past' _ hquiet fun _ h => absurd h (by simp)
  unfold stageItem
  refine keeps_ask .resolveRecipients (by simp) .resolveRecipients ?_
  intro past₁ found hfound hrecipients
  cases found with
  | none => exact herror _ _ hfound
  | some recipients =>
    refine keeps_ask .identity (by simp) .identity ?_
    intro past₂ session hsession howner
    cases session with
    | none => exact herror _ _ (hfound.trans hsession)
    | some owner =>
      refine keeps_ask .random (by simp) .random ?_
      intro past₃ drawn hdrawn hrandom
      have hquiet := (hfound.trans hsession).trans hdrawn
      have hrecipients' := hrecipients.mono (hsession.trans hdrawn).grows
      have howner' := howner.mono hdrawn.grows
      cases hsource : req.source with
      | memory streams =>
        dsimp only
        cases hbuild : buildUploadInner drawn.2 drawn.1
            (uploadParams u owner recipients req.fileId req.fileType) streams with
        | error e => exact herror _ _ hquiet
        | ok bundle =>
          refine hpost _ _ hquiet fun content hcontent => ?_
          obtain rfl := Except.ok.inj hcontent
          exact .inRam hrecipients' howner' hrandom hsource hbuild
      | disk small read size copied =>
        dsimp only
        cases hstage : stageStreamingContent drawn.2 drawn.1 ⟨uploadParams u owner recipients
            req.fileId req.fileType, small, req.title, read, size, copied⟩ with
        | error e => exact herror _ _ hquiet
        | ok rec =>
          have hstaged : past₃.Staged u req (.streaming rec) :=
            .streaming hrecipients' howner' hrandom hsource hstage
          refine Keeps.bindExcept (keeps_placeStaged ⟨uploadParams u owner recipients
            req.fileId req.fileType, small, req.title, read, size, copied⟩ hreq hstaged hsource
            (stageStreamingContent_fileId hstage) ?_)
          intro past' result hplaced
          refine ⟨?_, fun e _ => herror past' e (hquiet.trans hplaced)⟩
          intro _ _
          refine hpost past' _ (hquiet.trans hplaced) fun content hcontent => ?_
          obtain rfl := Except.ok.inj hcontent
          exact hstaged.mono hplaced.grows

lemma keeps_removeDir {content : StagedContent} {post : UploadTrace → Unit → Prop}
    (hpermits : ∀ rec, content = .streaming rec → Permits u command past (.remove rec.fileId))
    (hpost : ∀ past', Quiet u past past' → post past' ()) :
    Keeps (Permits u command) post (removeDir content) past := by
  cases content with
  | inRam bundle => exact hpost past quiet_refl
  | streaming rec => exact ⟨hpermits rec rfl, fun _ => hpost _ (quiet_other _ fun _ _ => by simp)⟩

lemma keeps_removeDirs {members : List (StagedContent × BundleMember)}
    {post : UploadTrace → Unit → Prop}
    (hpermits : ∀ past', past <+: past' → ∀ m ∈ members, ∀ rec, m.1 = .streaming rec →
      Permits u command past' (.remove rec.fileId))
    (hpost : ∀ past', Quiet u past past' → post past' ()) :
    Keeps (Permits u command) post (removeDirs members) past := by
  induction members generalizing past with
  | nil => exact hpost past quiet_refl
  | cons m members ih =>
    refine Keeps.bind (keeps_removeDir (hpermits past List.prefix_rfl m (by simp)) ?_)
    intro past' hquiet
    refine ih ?_ fun past'' hquiet' => hpost past'' (hquiet.trans hquiet')
    intro past'' hgrows m' hm'
    exact hpermits past'' (hquiet.grows.trans hgrows) m' (List.mem_cons_of_mem m hm')

lemma keeps_stageMembers (earlier : List StageRequest) {reqs : List StageRequest}
    {before : List (StagedContent × BundleMember)}
    {post : UploadTrace → Except UiError (List (StagedContent × BundleMember)) → Prop}
    (hreqs : ∀ req ∈ earlier ++ reqs, req ∈ command.requests)
    (hbefore : List.Forall₂ (past.StagedMember u) earlier before)
    (hpost : ∀ past' result, Quiet u past past' → (∀ members, result = .ok members →
      List.Forall₂ (past'.StagedMember u) (earlier ++ reqs) members) → post past' result) :
    Keeps (Permits u command) post (stageMembers u reqs before).run past := by
  induction reqs generalizing past earlier before with
  | nil =>
    refine hpost past _ quiet_refl fun members hmembers => ?_
    obtain rfl := Except.ok.inj hmembers
    rw [List.append_nil]
    exact hbefore
  | cons req reqs ih =>
    unfold stageMembers
    refine Keeps.liftBind (keeps_stageItem (hreqs req (by simp)) ?_)
    intro past' result hquiet hstaged
    have hbefore' : List.Forall₂ (past'.StagedMember u) earlier before :=
      hbefore.imp fun _ _ hm => ⟨hm.1.mono hquiet.grows, hm.2⟩
    cases result with
    | error e =>
      refine Keeps.liftBind (keeps_removeDirs ?_ ?_)
      · intro past'' hgrows m hm rec hrec
        obtain ⟨req', hreq', hstaged', -⟩ := forall₂_exists_left hbefore' hm
        have hfile := hstaged'.fileId
        rw [hrec] at hfile
        rw [show rec.fileId = req'.fileId from hfile]
        exact .removeStaged (hreqs req' (List.mem_append_left _ hreq'))
      · intro past'' hquiet'
        exact hpost past'' _ (hquiet.trans hquiet') fun _ h => absurd h (by simp)
    | ok content =>
      refine ih (earlier ++ [req]) ?_ ?_ ?_
      · intro req' hreq'
        refine hreqs req' ?_
        rw [List.append_assoc] at hreq'
        exact hreq'
      · exact List.rel_append hbefore' (.cons ⟨hstaged content rfl, rfl⟩ .nil)
      · intro past'' result' hquiet' hmembers
        refine hpost past'' result' (hquiet.trans hquiet') ?_
        rw [List.append_assoc] at hmembers
        exact hmembers

/-! ### Confirming -/

lemma keeps_connect
    (hpost : ∀ past' result, Quiet u past past' → post past' result) :
    Keeps (Permits u command) post connect.run past := by
  unfold connect
  refine keeps_ask .connect (by simp) .connect ?_
  intro past' connected hquiet _
  cases connected with
  | false => exact hpost _ _ hquiet
  | true => exact hpost _ _ hquiet

lemma keeps_confirmUpload {jobId : String}
    (hdraws : command.draws = []) (hsettled : past.Settled u) (hnone : ∀ fileId, ¬ past.Uploaded u fileId)
    (hpost : ∀ past' : UploadTrace, past <+: past' → ∀ result, past'.Settled u →
      (result = .ok () → past'.UploadedJob u jobId) → post past' result) :
    Keeps (Permits u command) post (confirmUpload u jobId).run past := by
  unfold confirmUpload
  refine Keeps.bindExcept (keeps_connect ?_)
  intro past₁ connected hquiet₁
  refine ⟨?_, fun e _ => hpost past₁ hquiet₁.grows _ (hsettled.quiet hquiet₁)
    fun h => absurd h (by simp)⟩
  intro _ _
  refine keeps_ask (.takeJob jobId) (by simp) (.takeJob jobId hdraws) ?_
  intro past₀ job htook htaken
  have hquiet := hquiet₁.trans htook
  have hfailed : ∀ past' e, Quiet u past past' → post past' (.error e) :=
    fun past' e hquiet' => hpost past' hquiet'.grows _ (hsettled.quiet hquiet')
      fun h => absurd h (by simp)
  have hputBack : ∀ {past' : UploadTrace} {content content' : StagedContent} (e : UiError),
      past'.Made (.takeJob jobId) (some content) → past'.Left u content.fileId content content' →
      Quiet u past past' → Keeps (Permits u command) post
        (do let _ ← liftM (perform (UploadCall.putJob jobId content') : UploadProgram Unit)
            throw e : ExceptT UiError UploadProgram Unit).run past' := by
    intro past' content content' e htaken hleft hquiet'
    refine keeps_ask (.putJob jobId content') (by simp) ?_ ?_
    · exact .putBack htaken hleft fun hup => hnone _ (hquiet'.silent _ hup)
    · intro past'' _ hput _
      exact hfailed _ e (hquiet'.trans hput)
  cases job with
  | none => exact hfailed _ _ hquiet
  | some content =>
    cases content with
    | inRam bundle =>
      refine Keeps.liftBind (keeps_runPipeline (.job htaken) ?_ ?_)
      · intro past₂ hgrows hup hkeeps
        exact hpost past₂ (hquiet.grows.trans hgrows) _ (hkeeps (hsettled.quiet hquiet))
          fun _ => ⟨.inRam bundle, htaken.mono hgrows, hup⟩
      · intro past₂ e hquiet₂
        exact hputBack e (htaken.mono hquiet₂.grows) (.inRam bundle) (hquiet.trans hquiet₂)
    | streaming rec =>
      refine Keeps.liftBind (keeps_streamingConfirm (.job htaken) ?_ ?_)
      · intro past₂ rec' hgrows hup hadvanced hkeeps
        refine Keeps.lift (keeps_removeDir ?_ ?_)
        · intro rec'' hrec''
          obtain rfl := StagedContent.streaming.inj hrec''
          rw [hadvanced.same.fileId]
          exact .removeUploaded ((Handed.job htaken).mono hgrows) hup
        · intro past₃ hquiet₃
          exact hpost past₃ ((hquiet.grows.trans hgrows).trans hquiet₃.grows) _
            ((hkeeps (hsettled.quiet hquiet)).quiet hquiet₃) fun _ =>
            ⟨.streaming rec, htaken.mono (hgrows.trans hquiet₃.grows), hup.mono hquiet₃.grows⟩
      · intro past₂ e rec' hquiet₂ hadvanced
        exact hputBack e (htaken.mono hquiet₂.grows) (.streaming hadvanced)
          (hquiet.trans hquiet₂)

lemma keeps_uploadMembers {jobId : String} {job : BundleJob}
    {members : List (StagedContent × BundleMember)}
    {post : UploadTrace → Except UiError Unit × List (StagedContent × BundleMember) → Prop}
    (htaken : past.Made (.takeBundle jobId) (some job)) (hmembers : members ⊆ job.members)
    (hpost : ∀ (past' : UploadTrace) result members', past <+: past' →
      (past.Settled u → past'.Settled u) →
      List.Forall₂ (past'.LeftMember u) members members' →
      (result = .ok () → ∀ m ∈ members, past'.Uploaded u (m.1.target m.2)) →
      post past' (result, members')) :
    Keeps (Permits u command) post (uploadMembers u job.bundleId members) past := by
  induction members generalizing past post with
  | nil =>
    exact hpost past _ [] List.prefix_rfl (fun h => h) .nil fun _ m hm => absurd hm (by simp)
  | cons m members ih =>
    obtain ⟨content, info⟩ := m
    have hrest : members ⊆ job.members := fun m hm => hmembers (List.mem_cons_of_mem _ hm)
    have hhanded : past.Handed content (content.target info) ⟨false, some job.bundleId⟩ :=
      .member htaken (hmembers (by simp))
    -- What follows a member that got through, and what a member that did not leaves.
    have hnext : ∀ (past₁ : UploadTrace) content', past <+: past₁ →
        past₁.Uploaded u (content.target info) →
        past₁.Left u (content.target info) content content' →
        (past.Settled u → past₁.Settled u) →
        Keeps (Permits u command) (fun past' r => post past' (r.1, (content', info) :: r.2))
          (uploadMembers u job.bundleId members) past₁ := by
      intro past₁ content' hgrows hup hleft hsettled
      refine ih (htaken.mono hgrows) hrest ?_
      intro past' result members' hgrows' hsettled' hleft' hall
      refine hpost past' result _ (hgrows.trans hgrows') (fun h => hsettled' (hsettled h))
        (.cons ⟨rfl, hleft.mono hgrows'⟩ hleft') fun hok m hm => ?_
      obtain rfl | hm := List.mem_cons.mp hm
      · exact hup.mono hgrows'
      · exact hall hok m hm
    have hstop : ∀ past₁ e content', Quiet u past past₁ →
        past₁.Left u (content.target info) content content' →
        post past₁ (.error e, (content', info) :: members) := by
      intro past₁ e content' hquiet hleft
      exact hpost past₁ _ _ hquiet.grows (fun h => h.quiet hquiet)
        (.cons ⟨rfl, hleft⟩ (leftMember_refl members)) fun h => absurd h (by simp)
    cases content with
    | inRam bundle =>
      refine Keeps.bind (keeps_runPipeline hhanded ?_ ?_)
      · intro past₁ hgrows hup hsettled
        exact Keeps.bind (hnext past₁ _ hgrows hup (.inRam bundle) hsettled)
      · intro past₁ e hquiet
        exact hstop past₁ e _ hquiet (.inRam bundle)
    | streaming rec =>
      refine Keeps.bind (keeps_streamingConfirm hhanded ?_ ?_)
      · intro past₁ rec' hgrows hup hadvanced hsettled
        exact Keeps.bind (hnext past₁ _ hgrows hup (.streaming hadvanced) hsettled)
      · intro past₁ e rec' hquiet hadvanced
        exact hstop past₁ e _ hquiet (.streaming hadvanced)

lemma keeps_buildBundleFile {job : BundleJob}
    {post : UploadTrace → Except UiError UploadBundle → Prop}
    (hpost : ∀ past' result, Quiet u past past' →
      (∀ bundle, result = .ok bundle → bundle.fileId = job.bundleId) → post past' result) :
    Keeps (Permits u command) post (buildBundleFile u job).run past := by
  have herror : ∀ past' (e : UiError), Quiet u past past' → post past' (.error e) :=
    fun past' e hquiet => hpost past' _ hquiet fun _ h => absurd h (by simp)
  unfold buildBundleFile
  refine keeps_ask .resolveRecipients (by simp) .resolveRecipients ?_
  intro past₁ found hfound _
  cases found with
  | none => exact herror _ _ hfound
  | some recipients =>
    refine keeps_ask .identity (by simp) .identity ?_
    intro past₂ session hsession _
    cases session with
    | none => exact herror _ _ (hfound.trans hsession)
    | some owner =>
      refine keeps_ask .random (by simp) .random ?_
      intro past₃ drawn hdrawn _
      have hquiet := (hfound.trans hsession).trans hdrawn
      cases hbuild : buildUploadInner drawn.2 drawn.1
          (uploadParams u owner recipients job.bundleId .bundle)
          ⟨encode (⟨job.members.map Prod.snd⟩ : BundleBody), some job.metadata,
            job.coverThumbnail, none⟩ with
      | error e => exact herror _ _ hquiet
      | ok bundle =>
        refine hpost _ _ hquiet fun bundle' hbundle => ?_
        obtain rfl := Except.ok.inj hbundle
        obtain ⟨-, wraps, -, rfl⟩ := buildUploadInner_eq_ok.mp hbuild
        rfl

lemma keeps_runBundlePipeline {jobId : String} {job : BundleJob}
    {post : UploadTrace → Except UiError Unit × BundleJob → Prop}
    (htaken : past.Made (.takeBundle jobId) (some job))
    (hpost : ∀ (past' : UploadTrace) result members, past <+: past' →
      (past.Settled u → past'.Settled u) →
      List.Forall₂ (past'.LeftMember u) job.members members →
      (result = .ok () → past'.Uploaded u job.bundleId ∧
        ∀ m ∈ job.members, past'.Uploaded u (m.1.target m.2)) →
      post past' (result, { job with members := members })) :
    Keeps (Permits u command) post (runBundlePipeline u job) past := by
  unfold runBundlePipeline
  refine Keeps.bind (keeps_buildBundleFile (u := u) ?_)
  intro past₁ built hquiet₁ hbuilt
  cases built with
  | error e =>
    exact hpost past₁ _ job.members hquiet₁.grows (fun h => h.quiet hquiet₁)
      (leftMember_refl job.members) fun h => absurd h (by simp)
  | ok bundleFile =>
    refine Keeps.bind (keeps_uploadMembers (htaken.mono hquiet₁.grows) (fun _ h => h) ?_)
    intro past₂ result members hgrows₂ hsettled₂ hleft hall
    cases result with
    | error e =>
      exact hpost past₂ _ members (hquiet₁.grows.trans hgrows₂)
        (fun h => hsettled₂ (h.quiet hquiet₁)) hleft fun h => absurd h (by simp)
    | ok _ =>
      have hfile := hbuilt bundleFile rfl
      have hhanded : past₂.Handed (.inRam bundleFile) bundleFile.fileId .default := by
        rw [hfile]
        exact .bundle (htaken.mono (hquiet₁.grows.trans hgrows₂)) hfile
      refine Keeps.bind (keeps_runPipeline hhanded ?_ ?_)
      · intro past₃ hgrows₃ hup hsettled₃
        refine hpost past₃ _ members ((hquiet₁.grows.trans hgrows₂).trans hgrows₃)
          (fun h => hsettled₃ (hsettled₂ (h.quiet hquiet₁)))
          (hleft.imp fun _ _ h => ⟨h.1, h.2.mono hgrows₃⟩) fun _ => ⟨?_, ?_⟩
        · rw [← hfile]
          exact hup
        · intro m hm
          exact (hall rfl m hm).mono hgrows₃
      · intro past₃ e hquiet₃
        exact hpost past₃ _ members ((hquiet₁.grows.trans hgrows₂).trans hquiet₃.grows)
          (fun h => (hsettled₂ (h.quiet hquiet₁)).quiet hquiet₃)
          (hleft.imp fun _ _ h => ⟨h.1, h.2.mono hquiet₃.grows⟩) fun h => absurd h (by simp)

lemma keeps_confirmBundle {jobId : String}
    (hdraws : command.draws = []) (hsettled : past.Settled u)
    (hpost : ∀ past' : UploadTrace, past <+: past' → ∀ result, past'.Settled u →
      (result = .ok () → past'.UploadedBundle u jobId) → post past' result) :
    Keeps (Permits u command) post (confirmBundle u jobId).run past := by
  unfold confirmBundle
  refine Keeps.bindExcept (keeps_connect ?_)
  intro past₁ connected hquiet₁
  refine ⟨?_, fun e _ => hpost past₁ hquiet₁.grows _ (hsettled.quiet hquiet₁)
    fun h => absurd h (by simp)⟩
  intro _ _
  refine keeps_ask (.takeBundle jobId) (by simp) (.takeBundle jobId hdraws) ?_
  intro past₀ job htook htaken
  have hquiet := hquiet₁.trans htook
  cases job with
  | none =>
    exact hpost _ hquiet.grows _ (hsettled.quiet hquiet) fun h => absurd h (by simp)
  | some job =>
    refine Keeps.liftBind (keeps_runBundlePipeline htaken ?_)
    intro past₂ result members hgrows hkeeps hleft hall
    have hsettled₂ := hkeeps (hsettled.quiet hquiet)
    cases result with
    | error e =>
      refine keeps_ask (.putBundle jobId { job with members := members }) (by simp)
        (.putBackBundle (htaken.mono hgrows) hleft) ?_
      intro past₃ _ hput _
      exact hpost _ ((hquiet.grows.trans hgrows).trans hput.grows) _ (hsettled₂.quiet hput)
        fun h => absurd h (by simp)
    | ok _ =>
      obtain ⟨hbundle, hmembers⟩ := hall rfl
      refine Keeps.lift (keeps_removeDirs ?_ ?_)
      · intro past' hgrows' m' hm' rec' hrec'
        obtain ⟨m, hm, hinfo, hleft'⟩ := forall₂_exists_left hleft hm'
        have hup := hmembers m hm
        have hhanded : past₂.Handed m.1 (m.1.target m.2) ⟨false, some job.bundleId⟩ :=
          .member (htaken.mono hgrows) hm
        rw [hrec'] at hleft'
        generalize m.1.target m.2 = fileId at hleft' hup hhanded
        generalize m.1 = content at hleft' hhanded
        cases hleft' with
        | streaming hadvanced =>
          rw [hadvanced.same.fileId]
          exact .removeUploaded (hhanded.mono hgrows') (hup.mono hgrows')
      · intro past₃ hquiet₃
        refine hpost past₃ ((hquiet.grows.trans hgrows).trans hquiet₃.grows) _
          (hsettled₂.quiet hquiet₃) fun _ => ?_
        exact ⟨job, htaken.mono (hgrows.trans hquiet₃.grows), hbundle.mono hquiet₃.grows,
          fun m hm => (hmembers m hm).mono hquiet₃.grows⟩

/-! ### What is pending -/

lemma keeps_resumeUpload
    (hcommand : command = .resumeUpload fileId) (hsettled : past.Settled u)
    (hpost : ∀ (past' : UploadTrace) result, past'.Settled u → (result = .ok () →
      ∃ rec, past'.Made (.load fileId) (some rec) ∧
        (rec.finalized = true ∨ past'.Uploaded u fileId)) → post past' result) :
    Keeps (Permits u command) post (resumeUpload u fileId).run past := by
  unfold resumeUpload
  refine keeps_ask (.load fileId) (by simp) (.load hcommand) ?_
  intro past₀ loaded hquiet hmade
  cases loaded with
  | none => exact hpost _ _ (hsettled.quiet hquiet) fun h => absurd h (by simp)
  | some rec =>
    show Keeps _ post (ExceptT.run (if rec.finalized = true then _ else _)) _
    by_cases hmarked : rec.finalized = true
    · rw [if_pos hmarked]
      refine keeps_ask (.remove fileId) (by simp) (.removeMarked hmade hmarked) ?_
      intro past₁ _ hremoved _
      exact hpost _ _ ((hsettled.quiet hquiet).quiet hremoved)
        fun _ => ⟨rec, hmade.mono hremoved.grows, .inl hmarked⟩
    · rw [if_neg hmarked]
      refine Keeps.bindExcept (keeps_connect ?_)
      intro past₁ connected hquiet₁
      have hsettled₁ := (hsettled.quiet hquiet).quiet hquiet₁
      refine ⟨?_, fun e _ => hpost past₁ _ hsettled₁ fun h => absurd h (by simp)⟩
      intro _ _
      refine Keeps.liftBind (keeps_streamingConfirm ((Handed.loaded hmade).mono hquiet₁.grows)
        ?_ ?_)
      · intro past₂ rec' hgrows hup _ hkeeps
        exact hpost past₂ _ (hkeeps hsettled₁)
          fun _ => ⟨rec, hmade.mono (hquiet₁.grows.trans hgrows), .inr hup⟩
      · intro past₂ e rec' hquiet₂ _
        exact hpost past₂ _ (hsettled₁.quiet hquiet₂) fun h => absurd h (by simp)

lemma keeps_discardServerOrphan {post : UploadTrace → Unit → Prop}
    (hpermits : ∀ past', past <+: past' →
      Permits u command past' (.request (.discard fileId u.userId)))
    (hpost : ∀ past', Quiet u past past' → post past' ()) :
    Keeps (Permits u command) post (discardServerOrphan u fileId) past := by
  unfold discardServerOrphan
  refine keeps_perform .connect (by simp) .connect ?_
  intro past₁ connected hquiet _
  cases connected with
  | false => exact hpost _ hquiet
  | true =>
    refine Keeps.bind (Keeps.bind ⟨hpermits _ hquiet.grows, ?_⟩)
    intro d
    exact hpost _ (hquiet.trans (quiet_other _ fun _ _ => by simp))

lemma keeps_sweep {nowMs : UInt64} {all recs : List StagingRecord}
    {post : UploadTrace → Unit → Prop} (hcommand : command = .listPendingUploads)
    (hlisted : past.Made .listPending all) (hrecs : recs ⊆ all)
    (hpost : ∀ past', Quiet u past past' → post past' ()) :
    Keeps (Permits u command) post (sweep u nowMs recs) past := by
  induction recs generalizing past with
  | nil => exact hpost past quiet_refl
  | cons rec recs ih =>
    subst hcommand
    have hrest : recs ⊆ all := fun rec' h => hrecs (List.mem_cons_of_mem _ h)
    have hdrops : ∀ past' : UploadTrace, past <+: past' →
        UploadCommand.listPendingUploads.Drops past' rec.fileId :=
      fun past' hgrows => .sweep (hlisted.mono hgrows) (hrecs (by simp))
    unfold sweep
    by_cases hdue : shouldSweep nowMs rec.lastProgressMs = true
    · rw [if_pos hdue]
      refine keeps_perform (.remove rec.fileId) (by simp)
        (.removeDropped (hdrops past List.prefix_rfl)) ?_
      intro past₁ _ hremoved _
      refine Keeps.bind (keeps_discardServerOrphan ?_ ?_)
      · intro past' hgrows
        exact .discard rfl (hdrops past' (hremoved.grows.trans hgrows))
      · intro past' hquiet
        have hall := hremoved.trans hquiet
        exact ih (hlisted.mono hall.grows) hrest fun past'' h => hpost past'' (hall.trans h)
    · rw [if_neg hdue]
      exact ih hlisted hrest hpost

lemma keeps_cancelUpload {jobId : String} {post : UploadTrace → Unit → Prop}
    (hcommand : command = .cancelUpload jobId) (hpost : ∀ past', Quiet u past past' → post past' ()) :
    Keeps (Permits u command) post (cancelUpload u jobId) past := by
  subst hcommand
  unfold cancelUpload
  refine keeps_perform (.takeJob jobId) (by simp) (.takeJob jobId rfl) ?_
  intro past₀ job hquiet htaken
  cases job with
  | none => exact hpost _ hquiet
  | some content =>
    cases content with
    | inRam bundle => exact hpost _ hquiet
    | streaming rec =>
      refine Keeps.bind (keeps_removeDir ?_ ?_)
      · intro rec' hrec'
        obtain rfl := StagedContent.streaming.inj hrec'
        exact .removeDropped (.cancel htaken)
      · intro past₁ hquiet₁
        refine keeps_discardServerOrphan ?_ fun past' h => hpost past' ((hquiet.trans hquiet₁).trans h)
        intro past' hgrows
        exact .discard rfl (.cancel (htaken.mono (hquiet₁.grows.trans hgrows)))

lemma keeps_cancelBundle {jobId : String} {post : UploadTrace → Unit → Prop}
    (hcommand : command = .cancelBundle jobId) (hpost : ∀ past', Quiet u past past' → post past' ()) :
    Keeps (Permits u command) post (cancelBundle jobId) past := by
  subst hcommand
  unfold cancelBundle
  refine keeps_perform (.takeBundle jobId) (by simp) (.takeBundle jobId rfl) ?_
  intro past₀ job hquiet htaken
  cases job with
  | none => exact hpost _ hquiet
  | some job =>
    refine keeps_removeDirs ?_ fun past' h => hpost past' (hquiet.trans h)
    intro past' hgrows m hm rec hrec
    have hmem : (StagedContent.streaming rec, m.2) ∈ job.members := by
      rw [← hrec]
      exact hm
    exact .removeDropped (.cancelMember (htaken.mono hgrows) hmem)

end Uploads

namespace UploadCommand

open UploadTrace Uploads

variable {u : Uploader}

/-- What a command that says it is done has done. -/
def Answers (u : Uploader) (trace : UploadTrace) : UploadCommand → Prop
  | confirmUpload jobId => trace.UploadedJob u jobId
  | confirmBundle jobId => trace.UploadedBundle u jobId
  | retryConfirm jobId => trace.UploadedBundle u jobId ∨ trace.UploadedJob u jobId
  | resumeUpload fileId => ∃ rec, trace.Made (.load fileId) (some rec) ∧
      (rec.finalized = true ∨ trace.Uploaded u fileId)
  | _ => True

/-- How a command that was not cut off ends. -/
structure Ends (u : Uploader) (command : UploadCommand) (trace : UploadTrace)
    (result : Except UiError Unit) : Prop where
  settled : trace.Settled u
  answers : result = .ok () → command.Answers u trace

/-- Every command makes only the calls that it may. -/
theorem keeps (command : UploadCommand) :
    Keeps (Permits u command) (Ends u command) (command.program u) [] := by
  have hnone : ∀ fileId, ¬ UploadTrace.Uploaded [] u fileId := fun _ h => absurd h (by simp [Uploaded, Made])
  have hinit : UploadTrace.Settled [] u := fun fileId hup => absurd hup (hnone fileId)
  cases hcommand : command with
  | stageUpload jobId req =>
    refine Keeps.bindExcept (keeps_stageItem (by simp [requests]) ?_)
    intro past result hquiet hstaged
    refine ⟨?_, fun e _ => ⟨hinit.quiet hquiet, fun _ => trivial⟩⟩
    intro content hcontent
    refine keeps_ask (.putJob jobId content) (by simp)
      (.putStaged rfl (hstaged content hcontent)) ?_
    intro past' _ hput _
    exact ⟨hinit.quiet (hquiet.trans hput), fun _ => trivial⟩
  | stageBundle jobId bundleId reqs metadata cover =>
    show Keeps _ _ (Uploads.stageBundle u jobId bundleId reqs metadata cover).run _
    unfold Uploads.stageBundle
    by_cases hempty : reqs = []
    · rw [if_pos hempty]
      exact ⟨hinit, fun _ => trivial⟩
    · rw [if_neg hempty]
      refine Keeps.bindExcept (keeps_stageMembers [] (fun req h => h) .nil ?_)
      intro past result hquiet hstaged
      refine ⟨?_, fun e _ => ⟨hinit.quiet hquiet, fun _ => trivial⟩⟩
      intro members hmembers
      refine keeps_ask (.putBundle jobId ⟨bundleId, metadata, members, cover⟩) (by simp)
        (.putStagedBundle rfl (hstaged members hmembers)) ?_
      intro past' _ hput _
      exact ⟨hinit.quiet (hquiet.trans hput), fun _ => trivial⟩
  | confirmUpload jobId =>
    exact keeps_confirmUpload rfl hinit hnone fun _ _ _ hsettled hall => ⟨hsettled, hall⟩
  | confirmBundle jobId =>
    exact keeps_confirmBundle rfl hinit fun _ _ _ hsettled hall => ⟨hsettled, hall⟩
  | retryConfirm jobId =>
    refine keeps_ask (.hasBundle jobId) (by simp) (.hasBundle jobId) ?_
    intro past isBundle hquiet _
    cases isBundle with
    | false =>
      exact keeps_confirmUpload rfl (hinit.quiet hquiet) (fun fileId h => hnone _ (hquiet.silent _ h))
        fun _ _ _ hsettled hall => ⟨hsettled, fun hok => .inr (hall hok)⟩
    | true =>
      exact keeps_confirmBundle rfl (hinit.quiet hquiet)
        fun _ _ _ hsettled hall => ⟨hsettled, fun hok => .inl (hall hok)⟩
  | resumeUpload fileId =>
    exact keeps_resumeUpload rfl hinit fun _ _ hsettled hall => ⟨hsettled, hall⟩
  | listPendingUploads =>
    refine Keeps.bind (Keeps.bind ⟨.now, ?_⟩)
    intro nowMs
    refine Keeps.bind ⟨.listPending, ?_⟩
    intro recs
    have hquiet := (quiet_other (u := u) [] (c := .now) (r := nowMs) fun _ _ => by simp).trans
      (quiet_other _ (c := .listPending) (r := recs) fun _ _ => by simp)
    refine keeps_sweep rfl (made_last _ _ _) (fun _ h => h) fun past hquiet' => ?_
    exact ⟨hinit.quiet (hquiet.trans hquiet'), fun _ => trivial⟩
  | dismissPendingUpload fileId =>
    refine Keeps.bind (Keeps.bind ⟨.removeDropped (.dismiss fileId), ?_⟩)
    intro removed
    have hquiet := quiet_other (u := u) [] (c := .remove fileId) (r := removed) fun _ _ => by simp
    refine keeps_discardServerOrphan (fun past _ => .discard rfl (.dismiss fileId))
      fun past hquiet' => ?_
    exact ⟨hinit.quiet (hquiet.trans hquiet'), fun _ => trivial⟩
  | cancelUpload jobId =>
    exact Keeps.bind (keeps_cancelUpload rfl fun past h => ⟨hinit.quiet h, fun _ => trivial⟩)
  | cancelBundle jobId =>
    exact Keeps.bind (keeps_cancelBundle rfl fun past h => ⟨hinit.quiet h, fun _ => trivial⟩)

end UploadCommand

end Rule

end MaxSecu
