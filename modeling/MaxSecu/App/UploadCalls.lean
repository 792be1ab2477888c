import MaxSecu.App.UploadRuns

/-!
# Which calls an upload command makes

Commits come before a job goes back to the registry, what stages commits nothing, and what cleans up
asks the server for nothing but discards (`UploadCommand.keeps_order`).
-/

namespace MaxSecu

open Program

namespace UploadCall

/-- The call puts no job into the registry. -/
def PutsNoJob (c : UploadCall) : Prop := ∀ jobId job, c ≠ .putJob jobId job

def CommitsNothing (c : UploadCall) : Prop := ∀ fileId callerId, c ≠ .request (.finalize fileId callerId)

def CleansUp : UploadCall → Prop
  | connect | now | listPending | remove _ | takeJob _ | request (.discard _ _) => True
  | _ => False

end UploadCall

namespace Uploads

open UploadCall

/-! ## Uploads put no job back -/

variable {allowed : UploadCall → Prop}

lemma calls_send {r : UploadRequest} (h : allowed (.request r)) : Calls allowed (send r) :=
  (calls_perform h).bind fun _ => trivial

lemma calls_postJson {r : UploadRequest} (h : allowed (.request r)) :
    Calls allowed (postJson r).run := by
  refine (calls_send h).liftBind ?_
  intro status
  cases status <;> trivial

lemma calls_putChunkRetried {r : UploadRequest} (h : allowed (.request r)) (retries : ℕ) :
    Calls allowed (putChunkRetried r retries).run := by
  induction retries with
  | zero =>
    refine (calls_send h).liftBind ?_
    intro status
    split_ifs <;> trivial
  | succ retries ih =>
    refine (calls_send h).liftBind ?_
    intro status
    split_ifs
    · trivial
    · exact ih

lemma calls_putChunks {fileId callerId : Id} {streamType : StreamType}
    (h : ∀ i body, allowed (.request (.putChunk fileId streamType i body callerId)))
    (chunks : List (List UInt8)) (i : UInt64) :
    Calls allowed (putChunks fileId streamType callerId i chunks).run := by
  induction chunks generalizing i with
  | nil => trivial
  | cons chunk chunks ih =>
    exact (calls_putChunkRetried (h i chunk) _).bindExcept fun _ => ih (i + 1)

lemma calls_putStreams {fileId callerId : Id}
    (h : ∀ streamType i body, allowed (.request (.putChunk fileId streamType i body callerId)))
    (streams : List (StreamType × List (List UInt8))) :
    Calls allowed (putStreams fileId callerId streams).run := by
  induction streams with
  | nil => trivial
  | cons s streams ih => exact (calls_putChunks (h s.1) s.2 0).bindExcept fun _ => ih

lemma putsNoJob_request (r : UploadRequest) : PutsNoJob (.request r) := fun _ _ h => by simp at h

lemma calls_postStage (input : StageInput) : Calls PutsNoJob (postStage input).run := by
  refine (calls_postJson (putsNoJob_request _)).bindExcept ?_
  intro status
  cases status <;> trivial

lemma calls_postFinalize (fileId callerId : Id) :
    Calls PutsNoJob (postFinalize fileId callerId).run := by
  refine (calls_postJson (putsNoJob_request _)).bindExcept ?_
  intro status
  split_ifs <;> trivial

variable (u : Uploader)

lemma calls_runPipeline (bundle : UploadBundle) (flags : StageFlags) :
    Calls PutsNoJob (runPipeline u bundle flags).run := by
  refine (calls_postStage _).bindExcept fun _ => ?_
  refine (calls_putStreams (fun _ _ _ => putsNoJob_request _) _).bindExcept fun _ => ?_
  exact calls_postFinalize _ _

lemma calls_stageRecord (rec : StagingRecord) (fileId : Id) (flags : StageFlags) :
    Calls PutsNoJob (stageRecord u rec fileId flags).run := by
  unfold stageRecord
  split_ifs
  · exact (calls_postStage _).bindExcept fun _ =>
      calls_putStreams (fun _ _ _ => putsNoJob_request _) _
  · trivial

lemma calls_finishUpload (rec : StagingRecord) (fileId : Id) :
    Calls PutsNoJob (finishUpload u rec fileId).run := by
  refine (calls_postFinalize _ _).bindExcept fun _ => ?_
  refine (calls_perform fun _ _ h => by simp at h).liftBind fun _ => ?_
  exact (calls_perform fun _ _ h => by simp at h).liftBind fun _ => trivial

lemma calls_openStaged [Hkdf] [Aes256Gcm] [Hpke] [X25519] [MlKem768] (rec : StagingRecord) :
    Calls PutsNoJob (openStaged rec).run := by
  unfold openStaged
  cases rec.selfWrap with
  | error e => trivial
  | ok wrap =>
    refine (calls_perform fun _ _ h => by simp at h).liftBind fun session => ?_
    cases session with
    | none => trivial
    | some owner =>
      dsimp only
      cases resumeContentSealer owner wrap.1 wrap.2 rec.suite rec.fileId FIRST_VERSION
          rec.chunkSize with
      | error e => trivial
      | ok sealer =>
        refine (calls_perform fun _ _ h => by simp at h).liftBind fun opened => ?_
        split_ifs <;> trivial

lemma calls_sendChunks [Aes256GcmSeal] (sealer : ContentStreamSealer) (fileId : Id) (n : ℕ)
    (i : UInt64) (rec : StagingRecord) : Calls PutsNoJob (sendChunks u sealer fileId n i rec) := by
  induction n generalizing i rec with
  | zero => trivial
  | succ n ih =>
    refine (calls_perform fun _ _ h => by simp at h).bind fun read => ?_
    cases read with
    | none => trivial
    | some plaintext =>
      refine (calls_putChunkRetried (putsNoJob_request _) _).bind fun put => ?_
      cases put with
      | error e => trivial
      | ok done =>
        refine (calls_perform fun _ _ h => by simp at h).bind fun nowMs => ?_
        exact (calls_perform fun _ _ h => by simp at h).bind fun _ => ih _ _

lemma calls_streamingConfirm [Hkdf] [Aes256Gcm] [Aes256GcmSeal] [Hpke] [X25519] [MlKem768]
    (rec : StagingRecord) (fileId : Id) (flags : StageFlags) :
    Calls PutsNoJob (streamingConfirm u rec fileId flags) := by
  refine (calls_stageRecord u rec fileId flags).bind fun started => ?_
  cases started with
  | error e => trivial
  | ok done =>
    refine (calls_openStaged rec).bind fun opened => ?_
    cases opened with
    | error e => trivial
    | ok sealer =>
      refine (calls_sendChunks u sealer fileId _ _ rec).bind fun sent => ?_
      obtain ⟨result, rec'⟩ := sent
      cases result with
      | error e => trivial
      | ok done => exact (calls_finishUpload u rec' fileId).bind fun _ => trivial

/-! ## Bundles -/

lemma calls_removeDir (h : ∀ fileId, allowed (.remove fileId)) (content : StagedContent) :
    Calls allowed (removeDir content) := by
  cases content with
  | inRam bundle => trivial
  | streaming rec => exact (calls_perform (h rec.fileId)).bind fun _ => trivial

lemma calls_removeDirs (h : ∀ fileId, allowed (.remove fileId))
    (members : List (StagedContent × BundleMember)) : Calls allowed (removeDirs members) := by
  induction members with
  | nil => trivial
  | cons m members ih => exact (calls_removeDir h m.1).bind fun _ => ih

lemma putsNoJob_remove (fileId : Id) : PutsNoJob (.remove fileId) := fun _ _ h => by simp at h

lemma calls_connect : Calls PutsNoJob connect.run := by
  refine (calls_perform fun _ _ h => by simp at h).liftBind fun connected => ?_
  split_ifs <;> trivial

lemma calls_placeStaged (item : StreamingItem) (rec : StagingRecord) :
    Calls CommitsNothing (placeStaged item rec).run := by
  refine (calls_perform fun _ _ h => by simp at h).liftBind fun placed => ?_
  split_ifs
  · refine (calls_perform fun _ _ h => by simp at h).liftBind fun kept => ?_
    split_ifs
    · trivial
    · exact (calls_perform fun _ _ h => by simp at h).liftBind fun _ => trivial
  · trivial

section Opening

variable [Hkdf] [Aes256Gcm] [Aes256GcmSeal] [Hpke] [X25519] [MlKem768]

lemma calls_uploadMembers (bundleId : Id) (members : List (StagedContent × BundleMember)) :
    Calls PutsNoJob (uploadMembers u bundleId members) := by
  induction members with
  | nil => trivial
  | cons m members ih =>
    obtain ⟨content, info⟩ := m
    cases content with
    | inRam bundle =>
      refine (calls_runPipeline u bundle _).bind fun result => ?_
      cases result with
      | error e => trivial
      | ok done => exact ih.bind fun _ => trivial
    | streaming rec =>
      refine (calls_streamingConfirm u rec info.fileId _).bind fun sent => ?_
      obtain ⟨result, rec'⟩ := sent
      cases result with
      | error e => trivial
      | ok done => exact ih.bind fun _ => trivial

lemma calls_resumeUpload (fileId : Id) : Calls PutsNoJob (resumeUpload u fileId).run := by
  refine (calls_perform fun _ _ h => by simp at h).liftBind fun loaded => ?_
  cases loaded with
  | none => trivial
  | some rec =>
    dsimp only
    split_ifs
    · exact (calls_perform fun _ _ h => by simp at h).liftBind fun _ => trivial
    · refine calls_connect.bindExcept fun _ => ?_
      refine (calls_streamingConfirm u rec fileId .default).liftBind fun sent => ?_
      obtain ⟨result, rec'⟩ := sent
      cases result <;> trivial

end Opening

section Sealing

variable [Sha256] [Ed25519] [Hkdf] [Aes256Gcm] [Aes256GcmSeal] [Hpke] [HpkeSeal] [X25519]
  [X25519Base] [MlKem768] [MlKem768Encaps]

lemma calls_buildBundleFile (job : BundleJob) : Calls PutsNoJob (buildBundleFile u job).run := by
  refine (calls_perform fun _ _ h => by simp at h).liftBind fun found => ?_
  cases found with
  | none => trivial
  | some recipients =>
    refine (calls_perform fun _ _ h => by simp at h).liftBind fun session => ?_
    cases session with
    | none => trivial
    | some owner =>
      refine (calls_perform fun _ _ h => by simp at h).liftBind fun drawn => ?_
      split <;> trivial

lemma calls_confirmBundle (jobId : String) : Calls PutsNoJob (confirmBundle u jobId).run := by
  refine calls_connect.bindExcept fun _ => ?_
  refine (calls_perform fun _ _ h => by simp at h).liftBind fun job => ?_
  cases job with
  | none => trivial
  | some job =>
    have hrun : Calls PutsNoJob (runBundlePipeline u job) := by
      refine (calls_buildBundleFile u job).bind fun built => ?_
      cases built with
      | error e => trivial
      | ok bundleFile =>
        refine (calls_uploadMembers u job.bundleId job.members).bind fun sent => ?_
        obtain ⟨result, members⟩ := sent
        cases result with
        | error e => trivial
        | ok done => exact (calls_runPipeline u bundleFile .default).bind fun _ => trivial
    refine hrun.liftBind fun sent => ?_
    obtain ⟨result, job'⟩ := sent
    cases result with
    | error e => exact (calls_perform fun _ _ h => by simp at h).liftBind fun _ => trivial
    | ok done => exact (calls_removeDirs putsNoJob_remove job'.members).lift

/-! ## Staging commits nothing -/

lemma calls_stageItem (req : StageRequest) : Calls CommitsNothing (stageItem u req).run := by
  refine (calls_perform fun _ _ h => by simp at h).liftBind fun found => ?_
  cases found with
  | none => trivial
  | some recipients =>
    refine (calls_perform fun _ _ h => by simp at h).liftBind fun session => ?_
    cases session with
    | none => trivial
    | some owner =>
      refine (calls_perform fun _ _ h => by simp at h).liftBind fun drawn => ?_
      dsimp only
      cases req.source with
      | memory streams =>
        dsimp only
        split <;> trivial
      | disk small read size copied =>
        dsimp only
        split
        · trivial
        · exact (calls_placeStaged _ _).bindExcept fun _ => trivial

lemma calls_stageMembers (reqs : List StageRequest) (before : List (StagedContent × BundleMember)) :
    Calls CommitsNothing (stageMembers u reqs before).run := by
  induction reqs generalizing before with
  | nil => trivial
  | cons req reqs ih =>
    refine (calls_stageItem u req).liftBind fun staged => ?_
    cases staged with
    | error e => exact (calls_removeDirs (fun _ _ _ h => by simp at h) before).liftBind fun _ => trivial
    | ok content => exact ih _

end Sealing

/-! ## Cleaning up -/

lemma calls_discardServerOrphan (fileId : Id) : Calls CleansUp (discardServerOrphan u fileId) := by
  refine (calls_perform trivial).bind fun connected => ?_
  split_ifs
  · exact (calls_send trivial).bind fun _ => trivial
  · trivial

lemma calls_sweep (nowMs : UInt64) (recs : List StagingRecord) :
    Calls CleansUp (sweep u nowMs recs) := by
  induction recs with
  | nil => trivial
  | cons rec recs ih =>
    unfold sweep
    split_ifs
    · refine (calls_perform trivial).bind fun _ => ?_
      exact (calls_discardServerOrphan u rec.fileId).bind fun _ => ih
    · exact ih

lemma calls_cancelUpload (jobId : String) : Calls CleansUp (cancelUpload u jobId) := by
  refine (calls_perform trivial).bind fun job => ?_
  cases job with
  | none => trivial
  | some content =>
    cases content with
    | inRam bundle => trivial
    | streaming rec =>
      refine Calls.bind ?_ fun _ => calls_discardServerOrphan u rec.fileId
      exact (calls_perform trivial).bind fun _ => trivial

lemma calls_cancelBundle (jobId : String) : Calls PutsNoJob (cancelBundle jobId) := by
  refine (calls_perform fun _ _ h => by simp at h).bind fun job => ?_
  cases job with
  | none => trivial
  | some job => exact calls_removeDirs putsNoJob_remove job.members

end Uploads

/-- No job has gone back to the registry. -/
def UploadTrace.NoJobPut (past : UploadTrace) : Prop :=
  ∀ jobId job, ¬ past.Made (.putJob jobId job) ()

namespace UploadCommand

open Uploads UploadCall

/-- What comes when: no commit after a job went back, and in a cleanup no request but discards. -/
def InOrder (command : UploadCommand) (past : UploadTrace) (c : UploadCall) : Prop :=
  (command.isCleanup = true → c.CleansUp) ∧
    (¬ past.NoJobPut → c.CommitsNothing)

variable {u : Uploader} {command : UploadCommand}

section Rules

variable {α : Type} {p : UploadProgram α} {past : UploadTrace}

lemma inOrder_of_putsNoJob (h : Calls PutsNoJob p) (hcommand : command.isCleanup = false)
    (hpast : past.NoJobPut) :
    Keeps command.InOrder (fun past' _ => UploadTrace.NoJobPut past') p past := by
  refine h.keeps UploadTrace.NoJobPut hpast ?_ ?_
  · intro past' c hnone _
    refine ⟨fun hcleanup => ?_, ?_⟩
    · rw [hcommand] at hcleanup
      exact absurd hcleanup (by simp)
    · intro hput
      exact absurd hnone hput
  · intro past' c r hnone hc jobId job hmade
    obtain hold | hnew := List.mem_append.mp hmade
    · exact hnone jobId job hold
    · exact hc jobId job (congrArg Event.call (List.mem_singleton.mp hnew)).symm

lemma inOrder_of_commitsNothing (h : Calls CommitsNothing p) (hcommand : command.isCleanup = false) :
    Keeps command.InOrder (fun _ _ => True) p past := by
  refine h.keeps (fun _ => True) trivial ?_ fun _ _ _ _ _ => trivial
  intro past' c _ hc
  refine ⟨fun hcleanup => ?_, fun _ => hc⟩
  rw [hcommand] at hcleanup
  exact absurd hcleanup (by simp)

lemma inOrder_of_cleansUp (h : Calls CleansUp p) : Keeps command.InOrder (fun _ _ => True) p past := by
  refine h.keeps (fun _ => True) trivial ?_ fun _ _ _ _ _ => trivial
  intro past' c _ hc
  refine ⟨fun _ => hc, fun _ fileId callerId heq => ?_⟩
  rw [heq] at hc
  exact hc

end Rules

variable [Sha256] [Ed25519] [Hkdf] [Aes256Gcm] [Aes256GcmSeal] [Hpke] [HpkeSeal] [X25519]
  [X25519Base] [MlKem768] [MlKem768Encaps]

omit [Sha256] [Ed25519] [HpkeSeal] [X25519Base] [MlKem768Encaps] in
lemma inOrder_confirmUpload {past : UploadTrace} (jobId : String)
    (hcommand : command.isCleanup = false)
    (hpast : past.NoJobPut) :
    Keeps command.InOrder (fun _ _ => True) (Uploads.confirmUpload u jobId).run past := by
  have hput : ∀ {past : UploadTrace} (job : StagedContent) (e : UiError),
      Keeps command.InOrder (fun _ _ => True)
        (do
          let _ ← liftM (perform (UploadCall.putJob jobId job) : UploadProgram Unit)
          throw e : ExceptT UiError UploadProgram Unit).run past := by
    intro past job e
    exact inOrder_of_commitsNothing
      ((calls_perform fun _ _ h => by simp at h).liftBind fun _ => trivial) hcommand
  refine Keeps.bindExcept ((inOrder_of_putsNoJob calls_connect hcommand hpast).mono ?_)
  intro past₁ connected hpast₁
  refine ⟨fun _ _ => ?_, fun _ _ => trivial⟩
  refine Keeps.liftBind ((inOrder_of_putsNoJob
    (calls_perform fun _ _ h => by simp at h) hcommand hpast₁).mono ?_)
  intro past₂ job hpast₂
  cases job with
  | none => trivial
  | some content =>
    cases content with
    | inRam bundle =>
      refine Keeps.liftBind ((inOrder_of_putsNoJob
        (calls_runPipeline u bundle .default) hcommand hpast₂).mono ?_)
      intro past₃ result _
      cases result with
      | ok done => trivial
      | error e => exact hput _ e
    | streaming rec =>
      refine Keeps.liftBind ((inOrder_of_putsNoJob
        (calls_streamingConfirm u rec rec.fileId .default) hcommand hpast₂).mono ?_)
      intro past₃ sent hpast₃
      obtain ⟨result, rec'⟩ := sent
      cases result with
      | ok done =>
        exact (inOrder_of_putsNoJob (calls_removeDir putsNoJob_remove (.streaming rec')).lift hcommand
          hpast₃).mono fun _ _ _ => trivial
      | error e => exact hput _ e

/-- Every command makes its calls in this order. -/
theorem keeps_order (command : UploadCommand) :
    Keeps command.InOrder (fun _ _ => True) (command.program u) [] := by
  have hnone : UploadTrace.NoJobPut [] := fun _ _ h => absurd h (by simp [UploadTrace.Made])
  cases command with
  | stageUpload jobId req =>
    exact inOrder_of_commitsNothing ((calls_stageItem u req).bindExcept fun _ =>
      (calls_perform fun _ _ h => by simp at h).liftBind fun _ => trivial) rfl
  | stageBundle jobId bundleId reqs metadata cover =>
    refine inOrder_of_commitsNothing ?_ rfl
    show Calls _ (Uploads.stageBundle u jobId bundleId reqs metadata cover).run
    unfold Uploads.stageBundle
    split_ifs
    · trivial
    · exact (calls_stageMembers u reqs []).bindExcept fun _ =>
        (calls_perform fun _ _ h => by simp at h).liftBind fun _ => trivial
  | confirmUpload jobId => exact inOrder_confirmUpload jobId rfl hnone
  | confirmBundle jobId =>
    exact (inOrder_of_putsNoJob (calls_confirmBundle u jobId) rfl hnone).mono fun _ _ _ => trivial
  | retryConfirm jobId =>
    refine Keeps.liftBind ((inOrder_of_putsNoJob
      (calls_perform fun _ _ h => by simp at h) rfl hnone).mono ?_)
    intro past isBundle hpast
    split_ifs
    · exact (inOrder_of_putsNoJob (calls_confirmBundle u jobId) rfl hpast).mono
        fun _ _ _ => trivial
    · exact inOrder_confirmUpload jobId rfl hpast
  | resumeUpload fileId =>
    exact (inOrder_of_putsNoJob (calls_resumeUpload u fileId) rfl hnone).mono fun _ _ _ => trivial
  | listPendingUploads =>
    refine inOrder_of_cleansUp (Calls.bind ?_ fun _ => trivial)
    exact (calls_perform trivial).bind fun nowMs => (calls_perform trivial).bind fun recs =>
      calls_sweep u nowMs recs
  | dismissPendingUpload fileId =>
    refine inOrder_of_cleansUp (Calls.bind ?_ fun _ => trivial)
    exact (calls_perform trivial).bind fun _ => calls_discardServerOrphan u fileId
  | cancelUpload jobId =>
    exact inOrder_of_cleansUp ((calls_cancelUpload u jobId).bind fun _ => trivial)
  | cancelBundle jobId =>
    have hcalls : Calls PutsNoJob ((cancelBundle jobId).program u) :=
      (calls_cancelBundle jobId).bind fun _ => trivial
    exact (inOrder_of_putsNoJob hcalls rfl hnone).mono fun _ _ _ => trivial

end UploadCommand

end MaxSecu
