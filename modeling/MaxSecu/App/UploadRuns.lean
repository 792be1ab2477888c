import MaxSecu.App.UploadTraces
import MaxSecu.Server.Deletion

/-!
# Runs of the upload commands

Every file id in use was drawn once, for one purpose: a record on disk is kept under the id in it,
a job holds the content its id was drawn for, a bundle its members, and the server has never heard of
an id that was not drawn (`UploadWorld.Ordered`).  The commands keep that (`UploadWorld.Next.ordered`).

An invariant of a command is shown call by call (`UploadWorld.Next.induct`).
-/

namespace MaxSecu

open Program AssociationList

/-! ## What the ids were drawn for -/

/-- A record on disk is kept under its own id, which was drawn for something on disk. -/
def HoldsRecord (drawn : AList fun _ : Id => IdUse) (fileId : Id) (rec : StagingRecord) : Prop :=
  rec.fileId = fileId ∧ ∃ use, drawn.lookup fileId = some use ∧ use.isFor true

def HoldsJob (drawn : AList fun _ : Id => IdUse) (jobId : String) (content : StagedContent) :
    Prop :=
  drawn.lookup content.fileId = some (.single jobId content.onDisk)

def HoldsMember (drawn : AList fun _ : Id => IdUse) (bundleId : Id)
    (m : StagedContent × BundleMember) : Prop :=
  m.2.fileId = m.1.fileId ∧ drawn.lookup m.1.fileId = some (.member bundleId m.1.onDisk)

def HoldsBundle (drawn : AList fun _ : Id => IdUse) (job : BundleJob) : Prop :=
  drawn.lookup job.bundleId = some .bundle ∧ ∀ m ∈ job.members, HoldsMember drawn job.bundleId m

/-- Every id is used as it was drawn. -/
structure UploadWorld.Ordered (w : UploadWorld) : Prop where
  reached : w.server.Reached
  unknown : ∀ fileId, fileId ∉ w.drawn → w.Unknown fileId
  records : ∀ fileId rec, (w.dir fileId).record = some rec → HoldsRecord w.drawn fileId rec
  jobs : ∀ jobId content, w.jobs.lookup jobId = some content → HoldsJob w.drawn jobId content
  bundles : ∀ jobId job, w.bundles.lookup jobId = some job → HoldsBundle w.drawn job

namespace UploadCommand

/-- What a response that handed something to the command says of it. -/
def Notes (command : UploadCommand) (drawn : AList fun _ : Id => IdUse) :
    (c : UploadCall) → c.Response → Prop
  | .load fileId, r => ∀ rec, r = some rec →
      HoldsRecord drawn fileId rec ∧ command = .resumeUpload fileId
  | .takeJob jobId, r => ∀ content, r = some content →
      HoldsJob drawn jobId content ∧ command.draws = []
  | .takeBundle _, r => ∀ job, r = some job → HoldsBundle drawn job ∧ command.draws = []
  | .listPending, r => ∀ rec ∈ r, HoldsRecord drawn rec.fileId rec
  | _, _ => True

/-- While a command runs: what it drew is its own, and what was handed to it is as it should be. -/
structure During (command : UploadCommand) (past : UploadTrace) (w : UploadWorld) : Prop where
  ordered : w.Ordered
  drew : ∀ d ∈ command.draws, w.drawn.lookup d.1 = some d.2
  fresh : ∀ d ∈ command.draws, w.Unknown d.1
  notes : ∀ e ∈ past, command.Notes w.drawn e.call e.response

end UploadCommand

/-! ## What the server knows -/

namespace UploadRequest

def fileId : UploadRequest → Id
  | stage input => input.fileId
  | putChunk fileId _ _ _ _ => fileId
  | finalize fileId _ => fileId
  | discard fileId _ => fileId

def isDiscard : UploadRequest → Bool
  | discard _ _ => true
  | _ => false

end UploadRequest

lemma Delivery.Of.outcome {faults : Bool} {maxFileBytes : Option UInt64} {r : UploadRequest}
    {s t : ServerState} {d : Delivery} (h : Delivery.Of faults maxFileBytes r s d t) :
    (∃ nowMs status, FileRequest.Outcome faults maxFileBytes s (r.fileRequest nowMs, status) t ∧
      (d = .answered status ∨ d = .unanswered status)) ∨ (d = .undelivered ∧ t = s) := by
  obtain ⟨nowMs, status, hruns, hd⟩ | hlost := h
  · exact .inl ⟨nowMs, status, FileRequest.outcome hruns, hd⟩
  · exact .inr hlost

lemma Delivery.Of.reached {faults : Bool} {maxFileBytes : Option UInt64} {r : UploadRequest}
    {s t : ServerState} {d : Delivery} (h : Delivery.Of faults maxFileBytes r s d t)
    (hs : s.Reached) : t.Reached := by
  obtain ⟨nowMs, status, houtcome, -⟩ | ⟨-, rfl⟩ := h.outcome
  · exact hs.outcome houtcome
  · exact hs

namespace UploadWorld

variable {w w' : UploadWorld} {fileId g : Id}

lemma purged_none {faults : Bool} {refs : List String} {store store' : ChunkStore}
    (h : store.Purged faults refs store') {key : ChunkKey} (hnone : store.lookup key = none) :
    store'.lookup key = none := by
  obtain ⟨hsame, -⟩ | ⟨-, hgone⟩ := h key
  · rw [hsame]
    exact hnone
  · exact hgone

lemma Unknown.request {faults : Bool} {maxFileBytes : Option UInt64} {r : UploadRequest}
    {t : ServerState} {d : Delivery} (h : w.Unknown g) (hreached : w.server.Reached)
    (hrequest : Delivery.Of faults maxFileBytes r w.server d t)
    (hother : r.isDiscard = true ∨ r.fileId ≠ g) : Unknown { w with server := t } g := by
  obtain ⟨hfile, hblobs⟩ := h
  have hinsert : ∀ (files : FileStore) f entry, f ≠ g → files.lookup g = none →
      (files.insert f entry).lookup g = none := by
    intro files f entry hne hnone
    rw [lookup_insert_eq, if_neg (Ne.symm hne)]
    exact hnone
  have hpresent : ∀ {f : Id} {entry : FileEntry}, w.server.files.lookup f = some entry → f ≠ g := by
    rintro f entry hentry rfl
    exact absurd (hentry.symm.trans hfile) (by simp)
  obtain ⟨nowMs, status, houtcome, -⟩ | ⟨-, rfl⟩ := hrequest.outcome
  · cases r with
    | stage input =>
      have hne : input.fileId ≠ g := hother.resolve_left (by simp [UploadRequest.isDiscard])
      cases houtcome with
      | refused _ => exact ⟨hfile, hblobs⟩
      | staged hparse _ _ _ =>
        have hp := (Files.parseStage_spec hparse).fileId
        exact ⟨hinsert _ _ _ (by rw [hp]; exact hne) hfile, hblobs⟩
    | putChunk f streamType index body callerId =>
      cases houtcome with
      | refused _ => exact ⟨hfile, hblobs⟩
      | put hentry hver _ _ hrow _ _ _ =>
        refine ⟨hfile, ?_⟩
        intro key st hkey
        obtain ⟨st', -, hslot⟩ := (hreached.slotted hentry hver).slot _ hrow
        show (w.server.blobs.insert _ _).lookup key = none
        rw [lookup_insert_eq, if_neg ?_]
        · exact hblobs key st hkey
        · rintro rfl
          rw [hslot, Files.blobRef_inj] at hkey
          exact hpresent hentry hkey.1
    | finalize f callerId =>
      cases houtcome with
      | refused _ => exact ⟨hfile, hblobs⟩
      | committed hentry _ _ _ _ _ hpurged =>
        exact ⟨hinsert _ _ _ (hpresent hentry) hfile,
          fun key st hkey => purged_none hpurged (hblobs key st hkey)⟩
    | discard f callerId =>
      cases houtcome with
      | refused _ => exact ⟨hfile, hblobs⟩
      | absent _ => exact ⟨hfile, hblobs⟩
      | discarded hentry _ _ hpurged =>
        exact ⟨hinsert _ _ _ (hpresent hentry) hfile,
          fun key st hkey => purged_none hpurged (hblobs key st hkey)⟩
      | deleted hentry _ _ hpurged =>
        refine ⟨?_, fun key st hkey => purged_none hpurged (hblobs key st hkey)⟩
        show (eraseAll _ w.server.files).lookup g = none
        rw [lookup_eraseAll, hfile, ite_self]
  · exact ⟨hfile, hblobs⟩

end UploadWorld

/-! ## Calls on directories -/

/-- Two worlds differ in the staging directory of one file. -/
structure UploadWorld.DiffersAt (w w' : UploadWorld) (fileId : Id) : Prop where
  server : w'.server = w.server
  jobs : w'.jobs = w.jobs
  bundles : w'.bundles = w.bundles
  drawn : w'.drawn = w.drawn
  dir : ∀ g, g ≠ fileId → w'.dir g = w.dir g

namespace UploadWorld

variable {w w' : UploadWorld} {fileId : Id}

lemma differsAt_refl : w.DiffersAt w fileId := ⟨rfl, rfl, rfl, rfl, fun _ _ => rfl⟩

lemma differsAt_setDir (d : StagingDir) : w.DiffersAt (w.setDir fileId d) fileId where
  server := rfl
  jobs := rfl
  bundles := rfl
  drawn := rfl
  dir g hne := by rw [dir_setDir, if_neg hne]

lemma dir_setDir_self (d : StagingDir) : (w.setDir fileId d).dir fileId = d := by
  rw [dir_setDir, if_pos rfl]

lemma differsAt_erase :
    w.DiffersAt { w with staging := w.staging.erase fileId } fileId where
  server := rfl
  jobs := rfl
  bundles := rfl
  drawn := rfl
  dir g hne := by rw [dir_erase, if_neg hne]

end UploadWorld

namespace UploadCall

variable {u : Uploader} {server : UploadServer} {w w' : UploadWorld} {fileId : Id}

lemma Step.placeContent {bytes : List UInt8} {r : Bool}
    (h : Step u server (.placeContent fileId bytes) w r w') :
    w.DiffersAt w' fileId ∧ (w'.dir fileId).record = (w.dir fileId).record ∧
      (r = true → (w'.dir fileId).content = some bytes) := by
  obtain ⟨-, rfl⟩ | ⟨rfl, rfl | ⟨part, rfl⟩⟩ := h
  · refine ⟨UploadWorld.differsAt_setDir _, ?_, fun _ => ?_⟩
    · rw [UploadWorld.dir_setDir_self]
    · rw [UploadWorld.dir_setDir_self]
  · exact ⟨UploadWorld.differsAt_refl, rfl, fun hr => absurd hr (by simp)⟩
  · refine ⟨UploadWorld.differsAt_setDir _, ?_, fun hr => absurd hr (by simp)⟩
    rw [UploadWorld.dir_setDir_self]

lemma Step.persist {rec : StagingRecord} {r : Bool} (h : Step u server (.persist rec) w r w') :
    w.DiffersAt w' rec.fileId ∧ (w'.dir rec.fileId).content = (w.dir rec.fileId).content ∧
      ((w'.dir rec.fileId).record = some rec ∨
        r = false ∧ (w'.dir rec.fileId).record = (w.dir rec.fileId).record) := by
  obtain ⟨-, rfl⟩ | ⟨hr, rfl | rfl⟩ := h
  · refine ⟨UploadWorld.differsAt_setDir _, ?_, .inl ?_⟩
    · rw [UploadWorld.dir_setDir_self]
    · rw [UploadWorld.dir_setDir_self]
  · exact ⟨UploadWorld.differsAt_refl, rfl, .inr ⟨hr, rfl⟩⟩
  · refine ⟨UploadWorld.differsAt_setDir _, ?_, .inr ⟨hr, ?_⟩⟩
    · rw [UploadWorld.dir_setDir_self]
    · rw [UploadWorld.dir_setDir_self]

lemma Step.remove {r : Bool} (h : Step u server (.remove fileId) w r w') :
    w.DiffersAt w' fileId ∧ (w'.dir fileId).PartOf (w.dir fileId) ∧
      (r = true → w'.dir fileId = ⟨none, none⟩) := by
  obtain ⟨-, rfl⟩ | ⟨rfl, rfl | ⟨part, hpart, rfl⟩⟩ := h
  · refine ⟨UploadWorld.differsAt_erase, ?_, fun _ => ?_⟩
    · rw [UploadWorld.dir_erase, if_pos rfl]
      exact ⟨.inl rfl, .inl rfl⟩
    · rw [UploadWorld.dir_erase, if_pos rfl]
  · exact ⟨UploadWorld.differsAt_refl, ⟨.inr rfl, .inr rfl⟩, fun hr => absurd hr (by simp)⟩
  · refine ⟨UploadWorld.differsAt_setDir _, ?_, fun hr => absurd hr (by simp)⟩
    rw [UploadWorld.dir_setDir_self]
    exact hpart

/-- The call asks for something and changes nothing. -/
def onlyAsks : UploadCall → Bool
  | request _ | placeContent _ _ | persist _ | remove _ => false
  | takeJob _ | putJob _ _ | takeBundle _ | putBundle _ _ => false
  | _ => true

lemma Step.eq_of_onlyAsks {c : UploadCall} {r : c.Response} (h : Step u server c w r w')
    (hc : c.onlyAsks = true) : w' = w := by
  cases c with
  | connect => exact h
  | random => exact h
  | now => exact h
  | resolveRecipients => exact h.1
  | identity => exact h.1
  | openContent fileId => exact h.1
  | readChunk fileId offset size => exact h.1
  | load fileId => exact h.1
  | listPending => exact h.1
  | hasBundle jobId => exact h.1
  | _ => exact absurd hc (by simp [onlyAsks])

lemma Step.server_eq {c : UploadCall} {r : c.Response} (h : Step u server c w r w')
    (hc : ∀ req, c ≠ .request req) : w'.server = w.server := by
  cases c with
  | request req => exact absurd rfl (hc req)
  | placeContent fileId bytes => exact h.placeContent.1.server
  | persist rec => exact h.persist.1.server
  | remove fileId => exact h.remove.1.server
  | takeJob jobId =>
    obtain ⟨-, rfl⟩ := h
    rfl
  | putJob jobId job =>
    obtain rfl := h
    rfl
  | takeBundle jobId =>
    obtain ⟨-, rfl⟩ := h
    rfl
  | putBundle jobId job =>
    obtain rfl := h
    rfl
  | _ => rw [h.eq_of_onlyAsks rfl]

end UploadCall

lemma UploadTrace.Left.holds {u : Uploader} {past : UploadTrace} {fileId : Id}
    {content content' : StagedContent} (h : past.Left u fileId content content') :
    content'.fileId = content.fileId ∧ content'.onDisk = content.onDisk := by
  cases h with
  | inRam bundle => exact ⟨rfl, rfl⟩
  | streaming hadvanced => exact ⟨hadvanced.same.fileId, rfl⟩

lemma UploadTrace.LeftMember.holds {u : Uploader} {past : UploadTrace}
    {drawn : AList fun _ : Id => IdUse} {bundleId : Id} {m m' : StagedContent × BundleMember}
    (h : past.LeftMember u m m') (hm : HoldsMember drawn bundleId m) :
    HoldsMember drawn bundleId m' := by
  obtain ⟨hfile, hdisk⟩ := h.2.holds
  unfold HoldsMember
  rw [h.1, hfile, hdisk]
  exact hm

/-! ## The ids stay in order -/

namespace UploadWorld.Ordered

variable {w w' : UploadWorld}

lemma keep (h : w.Ordered) (hserver : w'.server = w.server) (hdrawn : w'.drawn = w.drawn)
    (hrecords : ∀ f rec, (w'.dir f).record = some rec → HoldsRecord w.drawn f rec)
    (hjobs : ∀ jobId content, w'.jobs.lookup jobId = some content →
      HoldsJob w.drawn jobId content)
    (hbundles : ∀ jobId job, w'.bundles.lookup jobId = some job → HoldsBundle w.drawn job) :
    w'.Ordered where
  reached := by
    rw [hserver]
    exact h.reached
  unknown f hf := by
    unfold Unknown
    rw [hdrawn] at hf
    rw [hserver]
    exact h.unknown f hf
  records := by
    rw [hdrawn]
    exact hrecords
  jobs := by
    rw [hdrawn]
    exact hjobs
  bundles := by
    rw [hdrawn]
    exact hbundles

lemma differsAt {fileId : Id} (h : w.Ordered) (hdiffers : w.DiffersAt w' fileId)
    (hrecord : ∀ rec, (w'.dir fileId).record = some rec → HoldsRecord w.drawn fileId rec) :
    w'.Ordered := by
  refine h.keep hdiffers.server hdiffers.drawn ?_ ?_ ?_
  · intro f rec hrec
    by_cases hf : f = fileId
    · rw [hf] at hrec ⊢
      exact hrecord rec hrec
    · rw [hdiffers.dir f hf] at hrec
      exact h.records f rec hrec
  · rw [hdiffers.jobs]
    exact h.jobs
  · rw [hdiffers.bundles]
    exact h.bundles

lemma restart (h : w.Ordered) : w.restart.Ordered :=
  h.keep rfl rfl h.records (fun _ _ hnone => absurd hnone (by simp [UploadWorld.restart]))
    fun _ _ hnone => absurd hnone (by simp [UploadWorld.restart])

end UploadWorld.Ordered

namespace UploadWorld

variable {w : UploadWorld}

lemma lookup_draw_of_mem {draws : List (Id × IdUse)} (hdistinct : (draws.map Prod.fst).Nodup)
    {d : Id × IdUse} (hd : d ∈ draws) : (w.draw draws).drawn.lookup d.1 = some d.2 := by
  induction draws with
  | nil => exact absurd hd (by simp)
  | cons first draws ih =>
    obtain ⟨hfirst, hrest⟩ := List.nodup_cons.mp hdistinct
    show ((w.draw draws).drawn.insert first.1 first.2).lookup d.1 = some d.2
    rw [lookup_insert_eq]
    obtain rfl | hd := List.mem_cons.mp hd
    · rw [if_pos rfl]
    · rw [if_neg fun heq => hfirst (by rw [← heq]; exact List.mem_map_of_mem hd)]
      exact ih hrest hd

lemma lookup_draw {draws : List (Id × IdUse)} (hfresh : ∀ d ∈ draws, d.1 ∉ w.drawn) {f : Id}
    {use : IdUse} (hf : w.drawn.lookup f = some use) : (w.draw draws).drawn.lookup f = some use := by
  induction draws with
  | nil => exact hf
  | cons first draws ih =>
    show ((w.draw draws).drawn.insert first.1 first.2).lookup f = some use
    have hne : f ≠ first.1 := by
      rintro rfl
      exact hfresh first (by simp) (mem_iff_lookup.mpr ⟨use, hf⟩)
    rw [lookup_insert_eq, if_neg hne]
    exact ih fun d hd => hfresh d (List.mem_cons_of_mem first hd)

lemma Ordered.during {command : UploadCommand} (h : w.Ordered) (hmay : command.May w) :
    command.During [] (w.draw command.draws) where
  ordered := by
    have huse : ∀ {f : Id} {use : IdUse}, w.drawn.lookup f = some use →
        (w.draw command.draws).drawn.lookup f = some use := fun hf => lookup_draw hmay.fresh hf
    refine ⟨h.reached, ?_, ?_, ?_, ?_⟩
    · intro f hf
      refine h.unknown f fun hin => hf ?_
      obtain ⟨use, hlookup⟩ := mem_iff_lookup.mp hin
      exact mem_iff_lookup.mpr ⟨use, huse hlookup⟩
    · intro f rec hrec
      obtain ⟨hfile, use, hlookup, hfor⟩ := h.records f rec hrec
      exact ⟨hfile, use, huse hlookup, hfor⟩
    · intro jobId content hcontent
      exact huse (h.jobs jobId content hcontent)
    · intro jobId job hjob
      obtain ⟨hid, hmembers⟩ := h.bundles jobId job hjob
      exact ⟨huse hid, fun m hm => ⟨(hmembers m hm).1, huse (hmembers m hm).2⟩⟩
  drew _ hd := lookup_draw_of_mem hmay.distinct hd
  fresh d hd := h.unknown d.1 (hmay.fresh d hd)
  notes e he := absurd he (by simp)

lemma Start.ordered (h : w.Start) : w.Ordered where
  reached := h.reached
  unknown := h.unknown
  records f rec hrec := by
    unfold dir at hrec
    rw [h.staging] at hrec
    exact absurd hrec (by simp)
  jobs jobId content hcontent := by
    rw [h.jobs] at hcontent
    exact absurd hcontent (by simp)
  bundles jobId job hjob := by
    rw [h.bundles] at hjob
    exact absurd hjob (by simp)

end UploadWorld

section Runs

/-! ## Single calls -/

namespace UploadCommand.During

variable {u : Uploader} {server : UploadServer} {command : UploadCommand} {past : UploadTrace}
  {w w' : UploadWorld} {fileId : Id} {flags : StageFlags} {content : StagedContent}

/-- What is handed to a command is uploaded under its own id, and not by a command that stages. -/
lemma handed (h : command.During past w) (hhanded : past.Handed content fileId flags) :
    content.fileId = fileId ∧ command.draws = [] ∧ ∃ use, w.drawn.lookup fileId = some use ∧
      (use.isFor content.onDisk ∨ use = .bundle ∧ content.onDisk = false) := by
  cases hhanded with
  | loaded hmade =>
    obtain ⟨⟨hfile, use, huse, hfor⟩, hcommand⟩ := h.notes _ hmade _ rfl
    refine ⟨hfile, ?_, use, huse, .inl hfor⟩
    rw [hcommand]
    rfl
  | job hmade =>
    obtain ⟨hjob, hdraws⟩ := h.notes _ hmade _ rfl
    exact ⟨rfl, hdraws, _, hjob, .inl (.inl ⟨_, rfl⟩)⟩
  | @member jobId job content info hmade hmem =>
    obtain ⟨⟨-, hmembers⟩, hdraws⟩ := h.notes _ hmade _ rfl
    obtain ⟨hsame, huse⟩ := hmembers _ hmem
    have htarget : content.target info = content.fileId := by
      cases content with
      | inRam bundle => rfl
      | streaming rec => exact hsame
    rw [htarget]
    exact ⟨rfl, hdraws, _, huse, .inl (.inr ⟨_, rfl⟩)⟩
  | bundle hmade hfile =>
    obtain ⟨⟨hbundle, -⟩, hdraws⟩ := h.notes _ hmade _ rfl
    exact ⟨hfile, hdraws, _, hbundle, .inr ⟨rfl, rfl⟩⟩

lemma drawn_request (h : command.During past w) {req : StageRequest}
    (hreq : req ∈ command.requests) : (∃ use, w.drawn.lookup req.fileId = some use ∧
      use.isFor req.source.onDisk) ∧ w.Unknown req.fileId := by
  cases command with
  | stageUpload jobId req' =>
    obtain rfl := List.mem_singleton.mp hreq
    have hdraw : (req.fileId, .single jobId req.source.onDisk) ∈
        (stageUpload jobId req).draws := List.mem_singleton_self _
    exact ⟨⟨_, h.drew _ hdraw, .inl ⟨_, rfl⟩⟩, h.fresh _ hdraw⟩
  | stageBundle jobId bundleId reqs metadata cover =>
    have hdraw : (req.fileId, .member bundleId req.source.onDisk) ∈
        (stageBundle jobId bundleId reqs metadata cover).draws :=
      List.mem_cons_of_mem _ (List.mem_map_of_mem hreq)
    exact ⟨⟨_, h.drew _ hdraw, .inr ⟨_, rfl⟩⟩, h.fresh _ hdraw⟩
  | _ => exact absurd hreq (by simp [requests])

variable [Sha256] [Ed25519] [Hkdf] [Aes256Gcm] [Aes256GcmSeal] [Hpke] [HpkeSeal] [X25519]
  [X25519Base] [MlKem768] [MlKem768Encaps]

/-- The server comes to know only files that were drawn, and none that the command just drew. -/
lemma unknown_request (h : command.During past w) {r : UploadRequest} {d : Delivery}
    {t : ServerState} (hpermits : command.Permits u past (.request r))
    (hrequest : Delivery.Of server.faults server.maxFileBytes r w.server d t) {g : Id}
    (hg : w.Unknown g) (hnew : g ∉ w.drawn ∨ command.draws ≠ []) :
    UploadWorld.Unknown { w with server := t } g := by
  refine hg.request h.ordered.reached hrequest ?_
  have hother : ∀ {content : StagedContent} {fileId : Id} {flags : StageFlags},
      past.Handed content fileId flags → fileId ≠ g := by
    rintro content fileId flags hhanded rfl
    obtain ⟨-, hdraws, use, huse, -⟩ := h.handed hhanded
    refine hnew.elim (fun hout => hout ?_) fun hne => hne hdraws
    exact mem_iff_lookup.mpr ⟨use, huse⟩
  cases hpermits with
  | stage hhanded =>
    refine .inr ?_
    have hfile := (h.handed hhanded).1
    intro heq
    refine hother hhanded ?_
    rw [← hfile, ← heq]
    rename_i content fileId flags
    cases content with
    | inRam bundle => rfl
    | streaming rec => rfl
  | sealedStream hhanded _ _ => exact .inr (hother hhanded)
  | contentChunk hhanded _ _ _ _ _ => exact .inr (hother hhanded)
  | finalize hhanded => exact .inr (hother hhanded)
  | discard _ _ => exact .inl rfl

lemma ordered_step (h : command.During past w) {c : UploadCall} {r : c.Response}
    (hpermits : command.Permits u past c) (hstep : UploadCall.Step u server c w r w') :
    w'.Ordered ∧ w'.drawn = w.drawn := by
  have hremove : ∀ {f : Id} {removed : Bool},
      UploadCall.Step u server (.remove f) w removed w' → w'.Ordered ∧ w'.drawn = w.drawn := by
    intro f removed hstep
    obtain ⟨hdiffers, hpart, -⟩ := hstep.remove
    refine ⟨h.ordered.differsAt hdiffers fun rec hrec => ?_, hdiffers.drawn⟩
    obtain hnone | hold := hpart.1
    · exact absurd (hnone.symm.trans hrec) (by simp)
    · exact h.ordered.records f rec (hold.symm.trans hrec)
  have hpersist : ∀ {rec : StagingRecord} {kept : Bool},
      UploadCall.Step u server (.persist rec) w kept w' → HoldsRecord w.drawn rec.fileId rec →
      w'.Ordered ∧ w'.drawn = w.drawn := by
    intro rec kept hstep hrec
    obtain ⟨hdiffers, -, hrecord⟩ := hstep.persist
    refine ⟨h.ordered.differsAt hdiffers fun rec' hrec' => ?_, hdiffers.drawn⟩
    obtain hnew | ⟨-, hold⟩ := hrecord
    · obtain rfl := Option.some.inj (hnew.symm.trans hrec')
      exact hrec
    · exact h.ordered.records _ rec' (hold.symm.trans hrec')
  have hjob : ∀ {jobId : String} {content : StagedContent},
      w' = { w with jobs := w.jobs.insert jobId content } → HoldsJob w.drawn jobId content →
      w'.Ordered ∧ w'.drawn = w.drawn := by
    rintro jobId content rfl hcontent
    refine ⟨h.ordered.keep rfl rfl h.ordered.records ?_ h.ordered.bundles, rfl⟩
    intro jobId' content' hcontent'
    obtain ⟨rfl, rfl⟩ | ⟨-, hold⟩ := lookup_insert_cases hcontent'
    · exact hcontent
    · exact h.ordered.jobs jobId' content' hold
  have hbundle : ∀ {jobId : String} {job : BundleJob},
      w' = { w with bundles := w.bundles.insert jobId job } → HoldsBundle w.drawn job →
      w'.Ordered ∧ w'.drawn = w.drawn := by
    rintro jobId job rfl hjob
    refine ⟨h.ordered.keep rfl rfl h.ordered.records h.ordered.jobs ?_, rfl⟩
    intro jobId' job' hjob'
    obtain ⟨-, rfl⟩ | ⟨-, hold⟩ := lookup_insert_cases hjob'
    · exact hjob
    · exact h.ordered.bundles jobId' job' hold
  cases c with
  | request req =>
    obtain ⟨t, hrequest, rfl⟩ := hstep
    refine ⟨⟨hrequest.reached h.ordered.reached, ?_, h.ordered.records, h.ordered.jobs,
      h.ordered.bundles⟩, rfl⟩
    intro f hf
    exact h.unknown_request hpermits hrequest (h.ordered.unknown f hf) (.inl hf)
  | placeContent fileId bytes =>
    obtain ⟨hdiffers, hrecord, -⟩ := hstep.placeContent
    refine ⟨h.ordered.differsAt hdiffers fun rec hrec => ?_, hdiffers.drawn⟩
    exact h.ordered.records fileId rec (hrecord.symm.trans hrec)
  | persist rec =>
    refine hpersist hstep ?_
    cases hpermits with
    | persistStaged hreq hstaged _ =>
      have hfor := (h.drawn_request hreq).1
      rw [← hstaged.onDisk, ← hstaged.fileId] at hfor
      exact ⟨rfl, hfor⟩
    | persistAdvanced hhanded hadvanced _ =>
      obtain ⟨hfile, -, use, huse, hfor⟩ := h.handed hhanded
      refine ⟨rfl, use, ?_, hfor.resolve_right fun hbad => ?_⟩
      · rw [hadvanced.same.fileId]
        rw [← hfile] at huse
        exact huse
      · exact absurd hbad.2 (by simp [StagedContent.onDisk])
  | remove fileId => exact hremove hstep
  | takeJob jobId =>
    obtain ⟨-, rfl⟩ := hstep
    refine ⟨h.ordered.keep rfl rfl h.ordered.records ?_ h.ordered.bundles, rfl⟩
    intro jobId' content hcontent
    exact h.ordered.jobs jobId' content (lookup_of_erase hcontent)
  | putJob jobId content =>
    refine hjob hstep ?_
    cases hpermits with
    | @putStaged _ req _ hcommand hstaged =>
      unfold HoldsJob
      rw [hstaged.fileId, hstaged.onDisk]
      refine h.drew (req.fileId, .single jobId req.source.onDisk) ?_
      rw [hcommand]
      exact List.mem_singleton_self _
    | putBack hmade hleft _ =>
      obtain ⟨hfile, hdisk⟩ := hleft.holds
      unfold HoldsJob
      rw [hfile, hdisk]
      exact (h.notes _ hmade _ rfl).1
  | takeBundle jobId =>
    obtain ⟨-, rfl⟩ := hstep
    refine ⟨h.ordered.keep rfl rfl h.ordered.records h.ordered.jobs ?_, rfl⟩
    intro jobId' job hjob
    exact h.ordered.bundles jobId' job (lookup_of_erase hjob)
  | putBundle jobId job =>
    refine hbundle hstep ?_
    cases hpermits with
    | @putStagedBundle _ bundleId reqs metadata cover members hcommand hmembers =>
      refine ⟨h.drew (bundleId, .bundle) ?_, ?_⟩
      · rw [hcommand]
        exact List.mem_cons_self ..
      · intro m hm
        obtain ⟨req, hreq, hstaged, hinfo⟩ := forall₂_exists_left hmembers hm
        unfold HoldsMember
        rw [hstaged.fileId, hstaged.onDisk, hinfo]
        refine ⟨rfl, h.drew (req.fileId, .member bundleId req.source.onDisk) ?_⟩
        rw [hcommand]
        exact List.mem_cons_of_mem _ (List.mem_map_of_mem hreq)
    | @putBackBundle _ job members hmade hleft =>
      obtain ⟨hid, hmembers⟩ := (h.notes _ hmade _ rfl).1
      refine ⟨hid, fun m' hm' => ?_⟩
      obtain ⟨m, hm, hm''⟩ := forall₂_exists_left hleft hm'
      exact hm''.holds (hmembers m hm)
  | _ =>
    obtain rfl := hstep.eq_of_onlyAsks rfl
    exact ⟨h.ordered, rfl⟩

lemma notes_step (h : command.During past w) {c : UploadCall} {r : c.Response}
    (hpermits : command.Permits u past c) (hstep : UploadCall.Step u server c w r w') :
    command.Notes w.drawn c r := by
  cases c with
  | load fileId =>
    intro rec hrec
    cases hpermits with
    | load hcommand =>
      obtain hnone | hrecord := hstep.2
      · exact absurd (hnone.symm.trans hrec) (by simp)
      · exact ⟨h.ordered.records fileId rec (hrecord.symm.trans hrec), hcommand⟩
  | takeJob jobId =>
    intro content hcontent
    cases hpermits with
    | takeJob _ hdraws => exact ⟨h.ordered.jobs jobId content (hstep.1.symm.trans hcontent), hdraws⟩
  | takeBundle jobId =>
    intro job hjob
    cases hpermits with
    | takeBundle _ hdraws => exact ⟨h.ordered.bundles jobId job (hstep.1.symm.trans hjob), hdraws⟩
  | listPending =>
    intro rec hrec
    obtain ⟨f, hf⟩ := UploadWorld.mem_pending (hstep.2.subset hrec)
    obtain ⟨rfl, huse⟩ := h.ordered.records f rec hf
    exact ⟨rfl, huse⟩
  | _ => trivial

lemma step (h : command.During past w) {c : UploadCall} {r : c.Response}
    (hpermits : command.Permits u past c) (hstep : UploadCall.Step u server c w r w') :
    command.During (past ++ [⟨c, r⟩]) w' := by
  obtain ⟨hordered, hdrawn⟩ := h.ordered_step hpermits hstep
  refine ⟨hordered, ?_, ?_, ?_⟩
  · rw [hdrawn]
    exact h.drew
  · intro d hd
    have hfresh := h.fresh d hd
    by_cases hrequest : ∃ req, c = .request req
    · obtain ⟨req, rfl⟩ := hrequest
      obtain ⟨t, hrequest, rfl⟩ := hstep
      exact h.unknown_request hpermits hrequest hfresh (.inr (List.ne_nil_of_mem hd))
    · unfold UploadWorld.Unknown
      rw [hstep.server_eq fun req hreq => hrequest ⟨req, hreq⟩]
      exact hfresh
  · rw [hdrawn]
    intro e he
    obtain hold | hnew := List.mem_append.mp he
    · exact h.notes e hold
    · obtain rfl := List.mem_singleton.mp hnew
      exact h.notes_step hpermits hstep

end UploadCommand.During

/-! ## Runs -/

variable [Sha256] [Ed25519] [Hkdf] [Aes256Gcm] [Aes256GcmSeal] [Hpke] [HpkeSeal] [X25519]
  [X25519Base] [MlKem768] [MlKem768Encaps]

namespace UploadWorld

variable {u : Uploader} {server : UploadServer} {w w' : UploadWorld} {turn : UploadTurn}

/-- What every permitted call of a command keeps, if it is also one by another rule that the command
keeps to, holds where the command ends or is cut off. -/
theorem Next.induct_rule (hnext : Next u server w turn w') (hordered : w.Ordered)
    {rule : UploadTrace → UploadCall → Prop} {post : UploadTrace → Except UiError Unit → Prop}
    (hrule : Keeps rule post (turn.command.program u) [])
    (inv : UploadTrace → UploadWorld → Prop) (hinit : inv [] (w.draw turn.command.draws))
    (hstep : ∀ past (c : UploadCall) (r : c.Response) v v', turn.command.Permits u past c →
      rule past c → turn.command.During past v → inv past v → UploadCall.Step u server c v r v' →
      inv (past ++ [⟨c, r⟩]) v') :
    ∃ v, turn.command.During turn.trace v ∧ inv turn.trace v ∧
      ((w' = v ∧ ∃ result, turn.result = some result ∧ turn.command.Ends u turn.trace result) ∨
        (w' = v.restart ∧ turn.result = none)) := by
  have hall : ∀ {v : UploadWorld} {o : Option (Except UiError Unit)}, turn.command.May w →
      Traced (UploadCall.Step u server) (turn.command.program u) (w.draw turn.command.draws)
        turn.trace o v → turn.command.During turn.trace v ∧ inv turn.trace v ∧
          ∀ result, o = some result → turn.command.Ends u turn.trace result := by
    intro v o hmay hrun
    have hinv := hrun.invariant (fun past v => turn.command.During past v ∧ inv past v)
      ((turn.command.keeps (u := u)).and hrule) ⟨hordered.during hmay, hinit⟩
      fun past c v r v' hpermits hboth hcall =>
        ⟨hboth.1.step hpermits.1 hcall,
          hstep past c r v v' hpermits.1 hpermits.2 hboth.1 hboth.2 hcall⟩
    rw [List.nil_append] at hinv
    exact ⟨hinv.1.1, hinv.1.2, fun result hresult => (hinv.2 result hresult).1⟩
  cases hnext with
  | returned hmay hrun =>
    obtain ⟨hduring, hinv, hends⟩ := hall hmay hrun
    exact ⟨w', hduring, hinv, .inl ⟨rfl, _, rfl, hends _ rfl⟩⟩
  | @crashed v command trace hmay hrun =>
    obtain ⟨hduring, hinv, -⟩ := hall hmay hrun
    exact ⟨v, hduring, hinv, .inr ⟨rfl, rfl⟩⟩

/-- What every permitted call of a command keeps holds where the command ends or is cut off. -/
theorem Next.induct (hnext : Next u server w turn w') (hordered : w.Ordered)
    (inv : UploadTrace → UploadWorld → Prop) (hinit : inv [] (w.draw turn.command.draws))
    (hstep : ∀ past (c : UploadCall) (r : c.Response) v v', turn.command.Permits u past c →
      turn.command.During past v → inv past v → UploadCall.Step u server c v r v' →
      inv (past ++ [⟨c, r⟩]) v') :
    ∃ v, turn.command.During turn.trace v ∧ inv turn.trace v ∧
      ((w' = v ∧ ∃ result, turn.result = some result ∧ turn.command.Ends u turn.trace result) ∨
        (w' = v.restart ∧ turn.result = none)) :=
  hnext.induct_rule hordered (turn.command.keeps (u := u)) inv hinit
    fun past c r v v' hpermits _ => hstep past c r v v' hpermits

lemma Next.ordered (hnext : Next u server w turn w') (hordered : w.Ordered) : w'.Ordered := by
  obtain ⟨v, hduring, -, ⟨rfl, -⟩ | ⟨rfl, -⟩⟩ := hnext.induct hordered
    (fun _ _ => True) trivial fun _ _ _ _ _ _ _ _ _ => trivial
  · exact hduring.ordered
  · exact hduring.ordered.restart

end UploadWorld

end Runs

end MaxSecu
