import MaxSecu.App.UploadCalls
import MaxSecu.App.UploadTurns

/-!
# What cleaning up deletes

A cancelled job, a dismissed upload and one that the sweep finds are deleted on the server, which
deletes for good what is committed.  The app drops a job and a directory once it knows of the commit; so
what it has left is not committed, as long as it learns of every commit, its removals succeed, and it
does not resume what it has a job for (`UploadWorld.Careful`).

`cleanup_keeps` says that then no run cleans up a committed file.
-/

namespace MaxSecu

open Program AssociationList

/-- Some version of the file was committed. -/
def ServerState.Committed (s : ServerState) (fileId : Id) : Prop :=
  ∃ entry, s.files.lookup fileId = some entry ∧ entry.currentVersion ≠ 0

/-- Every committed file of `s` is the same on `t`, and so are its chunks. -/
def ServerState.KeptBy (s t : ServerState) : Prop :=
  ∀ fileId entry, s.files.lookup fileId = some entry → entry.currentVersion ≠ 0 →
    t.files.lookup fileId = some entry ∧ ∀ key version streamType,
      key.blobRef = Files.blobRef fileId version streamType →
        t.blobs.lookup key = s.blobs.lookup key

/-! ## What requests do to committed files -/

section Requests

variable {faults : Bool} {maxFileBytes : Option UInt64} {s t : ServerState} {d : Delivery}
  {fileId f callerId : Id} {r : UploadRequest}

lemma Delivery.Of.committed (h : Delivery.Of faults maxFileBytes r s d t) (hf : t.Committed f) :
    s.Committed f ∨ ∃ callerId, r = .finalize f callerId ∧ (d = .answered .ok ∨ d = .unanswered .ok) := by
  obtain ⟨entry', hentry', hcurrent⟩ := hf
  have hold : t.files = s.files → s.Committed f := fun hsame => ⟨entry', hsame ▸ hentry', hcurrent⟩
  obtain ⟨nowMs, status, houtcome, hd⟩ | ⟨-, rfl⟩ := h.outcome
  · cases r with
    | stage input =>
      cases houtcome with
      | refused _ => exact .inl (hold rfl)
      | @staged _ p entry _ hparse _ hrow hopen =>
        refine .inl ?_
        obtain ⟨rfl, rfl⟩ | ⟨-, hbefore⟩ := lookup_insert_cases hentry'
        · cases hrow with
          | create _ _ => exact absurd rfl hcurrent
          | restage _ hentry => exact ⟨entry, hentry, hcurrent⟩
          | rotate _ hentry _ => exact ⟨entry, hentry, hcurrent⟩
        · exact ⟨entry', hbefore, hcurrent⟩
    | putChunk g streamType index body callerId =>
      cases houtcome with
      | refused _ => exact .inl (hold rfl)
      | put _ _ _ _ _ _ _ _ => exact .inl (hold rfl)
    | finalize g callerId =>
      cases houtcome with
      | refused _ => exact .inl (hold rfl)
      | committed hentry _ _ _ _ _ _ =>
        obtain ⟨rfl, -⟩ | ⟨-, hbefore⟩ := lookup_insert_cases hentry'
        · exact .inr ⟨callerId, rfl, hd⟩
        · exact .inl ⟨entry', hbefore, hcurrent⟩
    | discard g callerId =>
      cases houtcome with
      | refused _ => exact .inl (hold rfl)
      | absent _ => exact .inl (hold rfl)
      | discarded hentry _ hzero _ =>
        obtain ⟨-, rfl⟩ | ⟨-, hbefore⟩ := lookup_insert_cases hentry'
        · exact absurd hzero hcurrent
        · exact .inl ⟨entry', hbefore, hcurrent⟩
      | deleted _ _ _ _ =>
        rw [lookup_eraseAll] at hentry'
        split_ifs at hentry' with hgone
        exact .inl ⟨entry', hentry', hcurrent⟩
  · exact .inl ⟨entry', hentry', hcurrent⟩

lemma Delivery.Of.discard_keeps (h : Delivery.Of faults maxFileBytes (.discard fileId callerId) s d t)
    (hreached : s.Reached) (hopen : ¬ s.Committed fileId) : s.KeptBy t := by
  intro f entry hentry hcurrent
  have hne : f ≠ fileId := by
    rintro rfl
    exact hopen ⟨entry, hentry, hcurrent⟩
  obtain ⟨nowMs, status, houtcome, -⟩ | ⟨-, rfl⟩ := h.outcome
  · cases houtcome with
    | refused _ => exact ⟨hentry, fun _ _ _ _ => rfl⟩
    | absent _ => exact ⟨hentry, fun _ _ _ _ => rfl⟩
    | discarded hstaged _ _ hpurged =>
      constructor
      · show (s.files.insert _ _).lookup f = some entry
        rw [lookup_insert_eq, if_neg hne]
        exact hentry
      · intro key version streamType hkey
        obtain ⟨hsame, -⟩ | ⟨hgone, -⟩ := hpurged key
        · exact hsame
        · obtain ⟨v, ver, hver, -, row, hrow, href⟩ := FileEntry.mem_stagedBlobRefs.mp hgone
          obtain ⟨st, -, hslot⟩ := (hreached.slotted hstaged hver).slot row hrow
          have hsame : Files.blobRef fileId v st.codepoint = Files.blobRef f version streamType :=
            hslot.symm.trans (href.trans hkey)
          exact absurd (Files.blobRef_inj.mp hsame).1.symm hne
    | deleted htarget _ hdeleted _ => exact absurd ⟨_, htarget, hdeleted⟩ hopen
  · exact ⟨hentry, fun _ _ _ _ => rfl⟩

lemma Delivery.Of.put_open {streamType : StreamType} {index : UInt64} {body : List UInt8}
    (h : Delivery.Of faults maxFileBytes (.putChunk fileId streamType index body callerId) s
      (.answered .ok) t) (hreached : s.Reached) : ¬ t.Committed fileId := by
  obtain ⟨nowMs, status, houtcome, hd⟩ | ⟨hlost, -⟩ := h.outcome
  · obtain rfl : Status.ok = status := by
      rcases hd with hd | hd
      · exact Delivery.answered.inj hd
      · cases hd
    cases houtcome with
    | refused hrefused => exact absurd hrefused (by decide)
    | put hentry hver _ hstaged _ _ _ _ =>
      rintro ⟨entry', hentry', hcurrent⟩
      obtain rfl := Option.some.inj (hentry'.symm.trans hentry)
      obtain ⟨ops, hops⟩ := hreached
      rw [← hops] at hentry
      have hfinal := (recorded_run ops fileId _ hentry).isFinalized_iff FIRST_VERSION
      rw [FileEntry.isFinalized, hver, Option.any_some, hstaged] at hfinal
      have hpos : FIRST_VERSION.toNat = 1 := rfl
      have hzero : ¬ (1 ≤ FIRST_VERSION.toNat ∧ FIRST_VERSION.toNat ≤ entry'.currentVersion.toNat) :=
        fun hbounds => absurd (hfinal.mpr hbounds) (by decide)
      refine hcurrent (UInt64.toNat_inj.mp ?_)
      show entry'.currentVersion.toNat = 0
      omega
  · cases hlost

end Requests

/-! ## Single calls -/

namespace UploadCall.Step

variable {u : Uploader} {server : UploadServer} {w w' : UploadWorld} {c : UploadCall} {r : c.Response}
  {f : Id}

lemma committed (h : UploadCall.Step u server c w r w') (hf : w'.server.Committed f) :
    w.server.Committed f ∨ ∃ callerId d,
      (⟨c, r⟩ : Event UploadCall UploadCall.Response) = ⟨.request (.finalize f callerId), d⟩ ∧
        (d = .answered .ok ∨ d = .unanswered .ok) := by
  by_cases hrequest : ∃ req, c = .request req
  · obtain ⟨req, rfl⟩ := hrequest
    obtain ⟨t, hsent, rfl⟩ := h
    obtain hold | ⟨callerId, rfl, hd⟩ := hsent.committed hf
    · exact .inl hold
    · exact .inr ⟨callerId, r, rfl, hd⟩
  · rw [h.server_eq fun req hreq => hrequest ⟨req, hreq⟩] at hf
    exact .inl hf

lemma record (h : UploadCall.Step u server c w r w') (f : Id) :
    (w'.dir f).record = none ∨ (w'.dir f).record = (w.dir f).record ∨
      ∃ rec, c = .persist rec ∧ rec.fileId = f := by
  cases c with
  | request req =>
    obtain ⟨t, -, rfl⟩ := h
    exact .inr (.inl rfl)
  | placeContent fileId bytes =>
    obtain ⟨hdiffers, hrecord, -⟩ := h.placeContent
    refine .inr (.inl ?_)
    by_cases hf : f = fileId
    · rw [hf]
      exact hrecord
    · rw [hdiffers.dir f hf]
  | persist rec =>
    by_cases hf : rec.fileId = f
    · exact .inr (.inr ⟨rec, rfl, hf⟩)
    · exact .inr (.inl (by rw [h.persist.1.dir f (Ne.symm hf)]))
  | remove fileId =>
    obtain ⟨hdiffers, hpart, -⟩ := h.remove
    by_cases hf : f = fileId
    · rw [hf]
      exact hpart.1.imp_right .inl
    · exact .inr (.inl (by rw [hdiffers.dir f hf]))
  | takeJob jobId =>
    obtain ⟨-, rfl⟩ := h
    exact .inr (.inl rfl)
  | putJob jobId job =>
    obtain rfl := h
    exact .inr (.inl rfl)
  | takeBundle jobId =>
    obtain ⟨-, rfl⟩ := h
    exact .inr (.inl rfl)
  | putBundle jobId job =>
    obtain rfl := h
    exact .inr (.inl rfl)
  | _ => exact .inr (.inl (by rw [h.eq_of_onlyAsks rfl]))

lemma job (h : UploadCall.Step u server c w r w') {jobId : String} {content : StagedContent}
    (hjob : w'.jobs.lookup jobId = some content) :
    (w.jobs.lookup jobId = some content ∧ c ≠ .takeJob jobId) ∨ c = .putJob jobId content := by
  have hsame : w'.jobs = w.jobs → c ≠ .takeJob jobId →
      (w.jobs.lookup jobId = some content ∧ c ≠ .takeJob jobId) ∨ c = .putJob jobId content := by
    intro hjobs hc
    rw [hjobs] at hjob
    exact .inl ⟨hjob, hc⟩
  cases c with
  | request req =>
    obtain ⟨t, -, rfl⟩ := h
    exact hsame rfl (by simp)
  | placeContent fileId bytes => exact hsame h.placeContent.1.jobs (by simp)
  | persist rec => exact hsame h.persist.1.jobs (by simp)
  | remove fileId => exact hsame h.remove.1.jobs (by simp)
  | takeJob jobId' =>
    obtain ⟨-, rfl⟩ := h
    by_cases hid : jobId = jobId'
    · have hgone : (w.jobs.erase jobId').lookup jobId = some content := hjob
      rw [hid, AList.lookup_erase] at hgone
      exact absurd hgone (by simp)
    · exact .inl ⟨lookup_of_erase hjob, fun hc => hid (UploadCall.takeJob.inj hc).symm⟩
  | putJob jobId' job =>
    obtain rfl := h
    obtain ⟨rfl, rfl⟩ | ⟨-, hold⟩ := lookup_insert_cases hjob
    · exact .inr rfl
    · exact .inl ⟨hold, by simp⟩
  | takeBundle jobId =>
    obtain ⟨-, rfl⟩ := h
    exact hsame rfl (by simp)
  | putBundle jobId job =>
    obtain rfl := h
    exact hsame rfl (by simp)
  | _ => exact hsame (by rw [h.eq_of_onlyAsks rfl]) (by simp)

end UploadCall.Step

/-! ## What a careful command leaves -/

namespace UploadTrace

variable {u : Uploader} {past : UploadTrace} {f : Id}

/-- A file was committed from disk, and its directory was not removed after that. -/
def Uncleared (past : UploadTrace) (u : Uploader) (f : Id) : Prop :=
  ∃ before after : UploadTrace,
    before ++ ⟨.request (.finalize f u.userId), .answered .ok⟩ :: after = past ∧
      (∃ rec flags, before.Handed (.streaming rec) f flags) ∧ ¬ after.Made (.remove f) true

/-- The answer to a commit got lost. -/
def Unanswered (past : UploadTrace) (u : Uploader) : Prop :=
  ∃ f, past.Made (.request (.finalize f u.userId)) (.unanswered .ok)

lemma uncleared_commit {rec : StagingRecord} {flags : StageFlags}
    (hhanded : past.Handed (.streaming rec) f flags) :
    UploadTrace.Uncleared (past ++ [⟨.request (.finalize f u.userId), .answered .ok⟩]) u f :=
  ⟨past, [], rfl, ⟨rec, flags, hhanded⟩, List.not_mem_nil⟩

lemma Uncleared.call (h : past.Uncleared u f) {c : UploadCall} {r : c.Response}
    (hne : (⟨c, r⟩ : Event UploadCall UploadCall.Response) ≠ ⟨.remove f, true⟩) :
    UploadTrace.Uncleared (past ++ [⟨c, r⟩]) u f := by
  obtain ⟨before, after, rfl, hhanded, hkept⟩ := h
  refine ⟨before, after ++ [⟨c, r⟩], by rw [List.append_assoc, List.cons_append], hhanded, ?_⟩
  intro hmade
  obtain hold | hnew := List.mem_append.mp hmade
  · exact hkept hold
  · exact hne (List.mem_singleton.mp hnew).symm

end UploadTrace

/-- What the command resumes is no job in the registry. -/
def UploadCommand.ResumesFree (w : UploadWorld) (command : UploadCommand) : Prop :=
  ∀ f jobId rec, command = .resumeUpload f → w.jobs.lookup jobId = some (.streaming rec) →
    rec.fileId ≠ f

/-- A command that learns of its commits and removes what it committed, and that is given for what is
pending only. -/
structure UploadTurn.Careful (u : Uploader) (w : UploadWorld) (turn : UploadTurn) : Prop where
  answered : ¬ UploadTrace.Unanswered turn.trace u
  cleared : ∀ f, ¬ UploadTrace.Uncleared turn.trace u f
  resumed : turn.command.ResumesFree w
  dismissed : ∀ f, turn.command = .dismissPendingUpload f → (w.dir f).record ≠ none

namespace UploadWorld

/-- Nothing is left to upload or to clean up of a file that is committed. -/
structure Apart (w : UploadWorld) : Prop where
  records : ∀ f, w.server.Committed f → (w.dir f).record = none
  jobs : ∀ jobId rec, w.jobs.lookup jobId = some (.streaming rec) → ¬ w.server.Committed rec.fileId

/-- While a command runs from `w₀`: what is left of a committed file is what the command has still to
remove. -/
structure Clean (u : Uploader) (w₀ : UploadWorld) (past : UploadTrace) (w : UploadWorld) : Prop where
  records : ∀ f, w.server.Committed f → (w.dir f).record = none ∨ past.Uncleared u f
  jobs : ∀ jobId rec, w.jobs.lookup jobId = some (.streaming rec) → ¬ w.server.Committed rec.fileId
  held : past.NoJobPut → ∀ jobId content, w.jobs.lookup jobId = some content →
    w₀.jobs.lookup jobId = some content ∧ ∀ job, ¬ past.Made (.takeJob jobId) job
  taken : ∀ jobId rec, past.Made (.takeJob jobId) (some (.streaming rec)) →
    past.Uploaded u rec.fileId ∨ ¬ w.server.Committed rec.fileId
  sent : ∀ (before after : UploadTrace) f i chunk,
    before ++ ⟨.request (.putChunk f .content i chunk u.userId), .answered .ok⟩ :: after = past →
    (∀ e ∈ after, e.call = .now) → ¬ w.server.Committed f

namespace Clean

variable {u : Uploader} {server : UploadServer} {command : UploadCommand} {past : UploadTrace}
  {w₀ w w' : UploadWorld} {c : UploadCall} {r : c.Response} {f : Id}

lemma start (h : w.Apart) (draws : List (Id × IdUse)) : Clean u w [] (w.draw draws) where
  records f hf := .inl (h.records f hf)
  jobs := h.jobs
  held _ jobId content hjob := ⟨hjob, fun _ hmade => absurd hmade List.not_mem_nil⟩
  taken _ _ hmade := absurd hmade List.not_mem_nil
  sent _ _ _ _ _ hpast _ := absurd hpast (by simp)

lemma commit_free (h : Clean u w₀ past w) (hduring : command.During past w)
    (hresumed : command.ResumesFree w₀) (hput : past.NoJobPut) {content : StagedContent}
    {flags : StageFlags} (hhanded : past.Handed content f flags) {jobId : String}
    {rec : StagingRecord} (hjob : w.jobs.lookup jobId = some (.streaming rec)) : rec.fileId ≠ f := by
  rintro rfl
  obtain ⟨hheld, hleft⟩ := h.held hput jobId _ hjob
  have huse : w.drawn.lookup rec.fileId = some (.single jobId true) :=
    hduring.ordered.jobs jobId _ hjob
  generalize hfile : rec.fileId = f at hhanded huse
  cases hhanded with
  | loaded hmade =>
    obtain ⟨-, hcommand⟩ := hduring.notes _ hmade _ rfl
    exact hresumed f jobId rec hcommand hheld hfile
  | @job jobId' content hmade =>
    obtain ⟨hsingle, -⟩ := hduring.notes _ hmade _ rfl
    have hsame := huse.symm.trans hsingle
    obtain ⟨rfl, -⟩ := IdUse.single.inj (Option.some.inj hsame)
    exact hleft _ hmade
  | @member jobId' job content info hmade hmem =>
    obtain ⟨⟨-, hmembers⟩, -⟩ := hduring.notes _ hmade _ rfl
    obtain ⟨hinfo, hmember⟩ := hmembers _ hmem
    have htarget : content.target info = content.fileId := by
      cases content with
      | inRam bundle => rfl
      | streaming rec => exact hinfo
    rw [htarget] at huse
    exact absurd (huse.symm.trans hmember) (by simp)
  | bundle hmade _ =>
    obtain ⟨⟨hbundle, -⟩, -⟩ := hduring.notes _ hmade _ rfl
    exact absurd (huse.symm.trans hbundle) (by simp)

lemma commit_record (hduring : command.During past w) {content : StagedContent} {flags : StageFlags}
    (hhanded : past.Handed content f flags) :
    (w.dir f).record = none ∨ ∃ rec, content = .streaming rec := by
  cases content with
  | streaming rec => exact .inr ⟨rec, rfl⟩
  | inRam bundle =>
    left
    obtain ⟨-, -, use, huse, hfor⟩ := hduring.handed hhanded
    cases hrecord : (w.dir f).record with
    | none => rfl
    | some rec =>
      obtain ⟨-, use', huse', hfor'⟩ := hduring.ordered.records f rec hrecord
      obtain rfl := Option.some.inj (huse.symm.trans huse')
      obtain ⟨jobId, rfl⟩ | ⟨bundleId, rfl⟩ := hfor'
      · exact absurd hfor (by simp [IdUse.isFor, StagedContent.onDisk])
      · exact absurd hfor (by simp [IdUse.isFor, StagedContent.onDisk])

lemma held_step (h : Clean u w₀ past w) (hstep : UploadCall.Step u server c w r w')
    (hput : UploadTrace.NoJobPut (past ++ [⟨c, r⟩])) {jobId : String} {content : StagedContent}
    (hjob : w'.jobs.lookup jobId = some content) :
    w₀.jobs.lookup jobId = some content ∧
      ∀ job, ¬ UploadTrace.Made (past ++ [⟨c, r⟩]) (.takeJob jobId) job := by
  obtain ⟨hold, hkept⟩ | rfl := hstep.job hjob
  · have hbefore : past.NoJobPut := fun jobId' job hmade =>
      hput jobId' job (hmade.mono (List.prefix_append _ _))
    obtain ⟨hheld, hleft⟩ := h.held hbefore jobId content hold
    refine ⟨hheld, fun job hmade => ?_⟩
    obtain hmade | hnew := List.mem_append.mp hmade
    · exact hleft job hmade
    · exact hkept (congrArg Event.call (List.mem_singleton.mp hnew)).symm
  · exact absurd (UploadTrace.made_last past _ r) (hput jobId content)

lemma sent_step (h : Clean u w₀ past w) (hduring : command.During past w)
    (hstep : UploadCall.Step u server c w r w') {before after : UploadTrace} {i : UInt64}
    {chunk : List UInt8}
    (hpast : before ++ ⟨.request (.putChunk f .content i chunk u.userId), .answered .ok⟩ :: after =
      past ++ [⟨c, r⟩]) (hnow : ∀ e ∈ after, e.call = .now) : ¬ w'.server.Committed f := by
  obtain rfl | ⟨after', last, rfl⟩ := List.eq_nil_or_concat after
  · obtain ⟨-, hlast⟩ := List.append_inj' hpast rfl
    have hevent := List.singleton_inj.mp hlast
    obtain rfl : .request (.putChunk f .content i chunk u.userId) = c := congrArg Event.call hevent
    obtain rfl : Delivery.answered .ok = r := eq_of_heq (Event.mk.inj hevent).2
    obtain ⟨t, hsent, rfl⟩ := hstep
    exact hsent.put_open hduring.ordered.reached
  · rw [List.concat_eq_append] at hpast hnow
    rw [← List.cons_append, ← List.append_assoc] at hpast
    obtain ⟨hbefore, hlast⟩ := List.append_inj' hpast rfl
    obtain rfl := List.singleton_inj.mp hlast
    obtain rfl : c = .now := hnow ⟨c, r⟩ (List.mem_append_right _ (List.mem_singleton_self _))
    obtain rfl : w' = w := hstep
    exact h.sent before after' f i chunk hbefore fun e he => hnow e (List.mem_append_left _ he)

variable [Sha256] [Ed25519] [Hkdf] [Aes256Gcm] [Aes256GcmSeal] [Hpke] [HpkeSeal] [X25519]
  [X25519Base] [MlKem768] [MlKem768Encaps]

lemma committed_step (hpermits : command.Permits u past c)
    (hstep : UploadCall.Step u server c w r w')
    (hanswered : ¬ UploadTrace.Unanswered (past ++ [⟨c, r⟩]) u) (hf : w'.server.Committed f) :
    w.server.Committed f ∨ (⟨c, r⟩ : Event UploadCall UploadCall.Response) =
      ⟨.request (.finalize f u.userId), .answered .ok⟩ := by
  obtain hold | ⟨callerId, d, hevent, hd⟩ := hstep.committed hf
  · exact .inl hold
  · right
    have hcaller : callerId = u.userId := by
      have hcall : c = .request (.finalize f callerId) := congrArg Event.call hevent
      rw [hcall] at hpermits
      cases hpermits with
      | finalize _ => rfl
    rw [hcaller] at hevent
    obtain rfl | rfl := hd
    · exact hevent
    · refine absurd ⟨f, ?_⟩ hanswered
      rw [hevent]
      exact UploadTrace.made_last _ _ _

lemma persist_open (h : Clean u w₀ past w) (hduring : command.During past w) {rec : StagingRecord}
    (hpermits : command.Permits u past (.persist rec)) : ¬ w.server.Committed rec.fileId := by
  cases hpermits with
  | persistStaged hreq hstaged _ =>
    rintro ⟨entry, hentry, -⟩
    have hnone := (hduring.drawn_request hreq).2.1
    have hfile : rec.fileId = _ := hstaged.fileId
    rw [hfile, hnone] at hentry
    exact absurd hentry (by simp)
  | @persistAdvanced rec₀ _ fileId flags before i nowMs chunk hhanded hadvanced hpast =>
    have hfile : rec₀.fileId = fileId := (hduring.handed hhanded).1
    rw [hadvanced.same.fileId, hfile]
    refine h.sent before [⟨.now, nowMs⟩] fileId i chunk hpast ?_
    intro e he
    obtain rfl := List.mem_singleton.mp he
    rfl

lemma records_step (h : Clean u w₀ past w) (hduring : command.During past w)
    (hpermits : command.Permits u past c) (hstep : UploadCall.Step u server c w r w')
    (hanswered : ¬ UploadTrace.Unanswered (past ++ [⟨c, r⟩]) u) (hf : w'.server.Committed f) :
    (w'.dir f).record = none ∨ UploadTrace.Uncleared (past ++ [⟨c, r⟩]) u f := by
  obtain hold | hcommit := committed_step hpermits hstep hanswered hf
  · obtain hnone | hsame | ⟨rec, rfl, rfl⟩ := hstep.record f
    · exact .inl hnone
    · obtain hnone | huncleared := h.records f hold
      · exact .inl (hsame.trans hnone)
      · by_cases hremove : (⟨c, r⟩ : Event UploadCall UploadCall.Response) = ⟨.remove f, true⟩
        · obtain rfl : c = .remove f := congrArg Event.call hremove
          obtain rfl : r = true := eq_of_heq (Event.mk.inj hremove).2
          exact .inl (congrArg StagingDir.record (hstep.remove.2.2 rfl))
        · exact .inr (huncleared.call hremove)
    · exact absurd hold (h.persist_open hduring hpermits)
  · obtain rfl : c = .request (.finalize f u.userId) := congrArg Event.call hcommit
    obtain rfl : r = .answered .ok := eq_of_heq (Event.mk.inj hcommit).2
    obtain ⟨t, -, rfl⟩ := hstep
    cases hpermits with
    | finalize hhanded =>
      obtain hnone | ⟨rec, rfl⟩ := commit_record hduring hhanded
      · exact .inl hnone
      · exact .inr (UploadTrace.uncleared_commit hhanded)

lemma putJob_open (h : Clean u w₀ past w) (hduring : command.During past w) {jobId : String}
    {rec : StagingRecord} (hpermits : command.Permits u past (.putJob jobId (.streaming rec))) :
    ¬ w.server.Committed rec.fileId := by
  cases hpermits with
  | @putStaged _ req _ hcommand hstaged =>
    rintro ⟨entry, hentry, -⟩
    have hreq : req ∈ command.requests := by
      rw [hcommand]
      exact List.mem_singleton_self _
    have hnone := (hduring.drawn_request hreq).2.1
    have hfile : rec.fileId = req.fileId := hstaged.fileId
    rw [hfile, hnone] at hentry
    exact absurd hentry (by simp)
  | @putBack _ content _ hmade hleft hopen =>
    have hfile : rec.fileId = content.fileId := hleft.holds.1
    cases hleft with
    | streaming hadvanced =>
      rw [hfile]
      exact (h.taken jobId _ hmade).resolve_left hopen

lemma jobs_step (h : Clean u w₀ past w) (hduring : command.During past w)
    (hpermits : command.Permits u past c) (horder : command.InOrder past c)
    (hresumed : command.ResumesFree w₀) (hstep : UploadCall.Step u server c w r w')
    (hanswered : ¬ UploadTrace.Unanswered (past ++ [⟨c, r⟩]) u) {jobId : String}
    {rec : StagingRecord} (hjob : w'.jobs.lookup jobId = some (.streaming rec)) :
    ¬ w'.server.Committed rec.fileId := by
  intro hf
  obtain ⟨hold, -⟩ | rfl := hstep.job hjob
  · obtain hcommitted | hcommit := committed_step hpermits hstep hanswered hf
    · exact h.jobs jobId rec hold hcommitted
    · obtain rfl : c = .request (.finalize rec.fileId u.userId) := congrArg Event.call hcommit
      have hput : past.NoJobPut := by
        by_contra hput
        exact horder.2 hput rec.fileId u.userId rfl
      cases hpermits with
      | finalize hhanded => exact h.commit_free hduring hresumed hput hhanded hold rfl
  · obtain rfl := hstep
    exact h.putJob_open hduring hpermits hf

lemma taken_step (h : Clean u w₀ past w) (hpermits : command.Permits u past c)
    (hstep : UploadCall.Step u server c w r w')
    (hanswered : ¬ UploadTrace.Unanswered (past ++ [⟨c, r⟩]) u) {jobId : String}
    {rec : StagingRecord}
    (hmade : UploadTrace.Made (past ++ [⟨c, r⟩]) (.takeJob jobId) (some (.streaming rec))) :
    UploadTrace.Uploaded (past ++ [⟨c, r⟩]) u rec.fileId ∨ ¬ w'.server.Committed rec.fileId := by
  obtain hold | hnew := List.mem_append.mp hmade
  · obtain hup | hopen := h.taken jobId rec hold
    · exact .inl (hup.mono (List.prefix_append _ _))
    · by_cases hf : w'.server.Committed rec.fileId
      · obtain hcommitted | hcommit := committed_step hpermits hstep hanswered hf
        · exact absurd hcommitted hopen
        · left
          rw [hcommit]
          exact UploadTrace.made_last _ _ _
      · exact .inr hf
  · have hevent := List.mem_singleton.mp hnew
    obtain rfl : .takeJob jobId = c := congrArg Event.call hevent
    obtain rfl : some (.streaming rec) = r := eq_of_heq (Event.mk.inj hevent).2
    obtain ⟨hjob, rfl⟩ := hstep
    exact .inr (h.jobs jobId rec hjob.symm)

lemma step (h : Clean u w₀ past w) (hduring : command.During past w)
    (hpermits : command.Permits u past c) (horder : command.InOrder past c)
    (hresumed : command.ResumesFree w₀) (hstep : UploadCall.Step u server c w r w')
    (hanswered : ¬ UploadTrace.Unanswered (past ++ [⟨c, r⟩]) u) :
    Clean u w₀ (past ++ [⟨c, r⟩]) w' where
  records _ hf := h.records_step hduring hpermits hstep hanswered hf
  jobs _ _ hjob := h.jobs_step hduring hpermits horder hresumed hstep hanswered hjob
  held hput _ _ hjob := h.held_step hstep hput hjob
  taken _ _ hmade := h.taken_step hpermits hstep hanswered hmade
  sent _ _ _ _ _ hpast hnow := h.sent_step hduring hstep hpast hnow

end Clean

section Turns

variable {u : Uploader} {server : UploadServer} {w w' : UploadWorld} {turn : UploadTurn}

lemma Start.apart (h : w.Start) : w.Apart where
  records f _ := by
    unfold dir
    rw [h.staging]
    rfl
  jobs jobId rec hjob := by
    rw [h.jobs] at hjob
    exact absurd hjob (by simp)

/-! ## What a cleanup keeps -/

/-- While a command cleans up from `w₀`: what is committed is kept, and no more is committed, staged or
waiting than before. -/
structure Cleaned (command : UploadCommand) (w₀ : UploadWorld) (past : UploadTrace)
    (w : UploadWorld) : Prop where
  kept : w₀.server.KeptBy w.server
  committed : ∀ f, w.server.Committed f → w₀.server.Committed f
  records : ∀ f, (w.dir f).record = none ∨ (w.dir f).record = (w₀.dir f).record
  jobs : ∀ jobId content, w.jobs.lookup jobId = some content → w₀.jobs.lookup jobId = some content
  dropped : ∀ f, command.Drops past f → ¬ w₀.server.Committed f

variable {command : UploadCommand} {past : UploadTrace} {w₀ : UploadWorld} {c : UploadCall}
  {r : c.Response}

/-- What is dropped was dismissed while it was pending, or read from the disk or the registry. -/
lemma Cleaned.dropped_step (h : Cleaned command w₀ past w) (hapart : w₀.Apart)
    (hordered : w₀.Ordered) (hcleanup : command.isCleanup = true)
    (hdismissed : ∀ f, command = .dismissPendingUpload f → (w₀.dir f).record ≠ none)
    (hstep : UploadCall.Step u server c w r w') {f : Id} (hdrops : command.Drops (past ++ [⟨c, r⟩]) f) :
    ¬ w₀.server.Committed f := by
  intro hf
  cases hdrops with
  | dismiss f => exact hdismissed f rfl (hapart.records f hf)
  | @sweep recs rec hmade hmem =>
    obtain hold | hnew := List.mem_append.mp hmade
    · exact h.dropped _ (.sweep hold hmem) hf
    · have hevent := List.mem_singleton.mp hnew
      obtain rfl : .listPending = c := congrArg Event.call hevent
      obtain rfl : recs = r := eq_of_heq (Event.mk.inj hevent).2
      obtain ⟨g, hg⟩ := mem_pending (hstep.2.subset hmem)
      obtain hnone | hsame := h.records g
      · exact absurd (hnone.symm.trans hg) (by simp)
      · have hbefore : (w₀.dir g).record = some rec := hsame.symm.trans hg
        obtain ⟨rfl, -⟩ := hordered.records g rec hbefore
        exact absurd (hbefore.symm.trans (hapart.records _ hf)) (by simp)
  | @cancel jobId rec hmade =>
    obtain hold | hnew := List.mem_append.mp hmade
    · exact h.dropped _ (.cancel hold) hf
    · have hevent := List.mem_singleton.mp hnew
      obtain rfl : .takeJob jobId = c := congrArg Event.call hevent
      obtain rfl : some (.streaming rec) = r := eq_of_heq (Event.mk.inj hevent).2
      exact hapart.jobs jobId rec (h.jobs jobId _ hstep.1.symm) hf
  | cancelMember _ _ => exact absurd hcleanup (by simp [UploadCommand.isCleanup])

lemma KeptBy.trans {s t v : ServerState} (h : s.KeptBy t) (h' : t.KeptBy v) : s.KeptBy v := by
  intro f entry hentry hcurrent
  obtain ⟨hlookup, hblobs⟩ := h f entry hentry hcurrent
  obtain ⟨hlookup', hblobs'⟩ := h' f entry hlookup hcurrent
  exact ⟨hlookup', fun key version streamType hkey =>
    (hblobs' key version streamType hkey).trans (hblobs key version streamType hkey)⟩

lemma Cleaned.start (h : w.Apart)
    (hdismissed : ∀ f, command = .dismissPendingUpload f → (w.dir f).record ≠ none)
    (draws : List (Id × IdUse)) : Cleaned command w [] (w.draw draws) where
  kept _ _ hentry _ := ⟨hentry, fun _ _ _ _ => rfl⟩
  committed _ hf := hf
  records _ := .inr rfl
  jobs _ _ hjob := hjob
  dropped f hdrops hf := by
    cases hdrops with
    | dismiss f => exact hdismissed f rfl (h.records f hf)
    | sweep hmade _ => exact absurd hmade List.not_mem_nil
    | cancel hmade => exact absurd hmade List.not_mem_nil
    | cancelMember hmade _ => exact absurd hmade List.not_mem_nil

variable [Sha256] [Ed25519] [Hkdf] [Aes256Gcm] [Aes256GcmSeal] [Hpke] [HpkeSeal] [X25519]
  [X25519Base] [MlKem768] [MlKem768Encaps]

lemma Apart.next (h : w.Apart) (hordered : w.Ordered) (hcareful : turn.Careful u w)
    (hnext : Next u server w turn w') : w'.Apart := by
  have hstep : ∀ past (c : UploadCall) (r : c.Response) v v', turn.command.Permits u past c →
      turn.command.InOrder past c → turn.command.During past v →
      (¬ past.Unanswered u → Clean u w past v) → UploadCall.Step u server c v r v' →
      ¬ UploadTrace.Unanswered (past ++ [⟨c, r⟩]) u → Clean u w (past ++ [⟨c, r⟩]) v' := by
    intro past c r v v' hpermits horder hduring hclean hcall hanswered
    have hbefore : ¬ past.Unanswered u := by
      rintro ⟨f, hmade⟩
      exact hanswered ⟨f, hmade.mono (List.prefix_append _ _)⟩
    exact (hclean hbefore).step hduring hpermits horder hcareful.resumed hcall hanswered
  obtain ⟨v, -, hclean, hend⟩ := hnext.induct_rule hordered turn.command.keeps_order
    (fun past v => ¬ past.Unanswered u → Clean u w past v) (fun _ => Clean.start h _) hstep
  have hv := hclean hcareful.answered
  have hrecords : ∀ f, v.server.Committed f → (v.dir f).record = none := fun f hf =>
    (hv.records f hf).resolve_right (hcareful.cleared f)
  obtain ⟨rfl, -⟩ | ⟨rfl, -⟩ := hend
  · exact ⟨hrecords, hv.jobs⟩
  · exact ⟨hrecords, fun jobId rec hjob => absurd hjob (by simp [restart])⟩

lemma Cleaned.step (h : Cleaned command w₀ past w) (hapart : w₀.Apart) (hordered : w₀.Ordered)
    (hcleanup : command.isCleanup = true)
    (hdismissed : ∀ f, command = .dismissPendingUpload f → (w₀.dir f).record ≠ none)
    (hduring : command.During past w) (hpermits : command.Permits u past c)
    (horder : command.InOrder past c) (hstep : UploadCall.Step u server c w r w') :
    Cleaned command w₀ (past ++ [⟨c, r⟩]) w' where
  kept := by
    by_cases hrequest : ∃ req, c = .request req
    · obtain ⟨req, rfl⟩ := hrequest
      obtain ⟨t, hsent, rfl⟩ := hstep
      have hclean := horder.1 hcleanup
      cases hpermits with
      | @discard fileId _ hdrops =>
        refine KeptBy.trans h.kept (hsent.discard_keeps hduring.ordered.reached fun hf => ?_)
        exact h.dropped fileId hdrops (h.committed fileId hf)
      | stage _ => exact hclean.elim
      | sealedStream _ _ _ => exact hclean.elim
      | contentChunk _ _ _ _ _ _ => exact hclean.elim
      | finalize _ => exact hclean.elim
    · rw [hstep.server_eq fun req hreq => hrequest ⟨req, hreq⟩]
      exact h.kept
  committed f hf := by
    obtain hold | ⟨callerId, d, hevent, -⟩ := hstep.committed hf
    · exact h.committed f hold
    · have hclean := horder.1 hcleanup
      rw [show c = .request (.finalize f callerId) from congrArg Event.call hevent] at hclean
      exact hclean.elim
  records f := by
    obtain hnone | hsame | ⟨rec, rfl, -⟩ := hstep.record f
    · exact .inl hnone
    · rw [hsame]
      exact h.records f
    · exact (horder.1 hcleanup).elim
  jobs jobId content hjob := by
    obtain ⟨hold, -⟩ | rfl := hstep.job hjob
    · exact h.jobs jobId content hold
    · exact (horder.1 hcleanup).elim
  dropped _ hdrops := h.dropped_step hapart hordered hcleanup hdismissed hstep hdrops

lemma Apart.cleanup (h : w.Apart) (hordered : w.Ordered) (hcareful : turn.Careful u w)
    (hcleanup : turn.command.isCleanup = true) (hnext : Next u server w turn w') :
    w.server.KeptBy w'.server := by
  obtain ⟨v, -, hcleaned, hend⟩ := hnext.induct_rule hordered turn.command.keeps_order
    (fun past v => Cleaned turn.command w past v) (Cleaned.start h hcareful.dismissed _)
    fun past c r v v' hpermits horder hduring hcleaned hcall =>
      hcleaned.step h hordered hcleanup hcareful.dismissed hduring hpermits horder hcall
  obtain ⟨rfl, -⟩ | ⟨rfl, -⟩ := hend
  · exact hcleaned.kept
  · exact hcleaned.kept

end Turns

end UploadWorld

section Runs

variable [Sha256] [Ed25519] [Hkdf] [Aes256Gcm] [Aes256GcmSeal] [Hpke] [HpkeSeal] [X25519]
  [X25519Base] [MlKem768] [MlKem768Encaps]

/-- **Cleaning up deletes no committed file**, and none of its chunks, where every command was
careful. -/
theorem cleanup_keeps {u : Uploader} {server : UploadServer} {w₀ w w' : UploadWorld}
    {path : List (UploadWorld × UploadTurn)} {turn : UploadTurn} (hstart : w₀.Start)
    (hrun : LabelledRun (UploadWorld.Next u server) w₀ path w)
    (hcareful : ∀ x ∈ path, x.2.Careful u x.1) (hnext : UploadWorld.Next u server w turn w')
    (hturn : turn.Careful u w) (hcleanup : turn.command.isCleanup = true) :
    w.server.KeptBy w'.server := by
  have hstep : ∀ (v : UploadWorld) turn v', (v.Apart ∧ v.Ordered) → turn.Careful u v →
      UploadWorld.Next u server v turn v' → v'.Apart ∧ v'.Ordered := by
    intro v turn v' h hok hnext
    exact ⟨h.1.next h.2 hok hnext, hnext.ordered h.2⟩
  obtain ⟨hapart, hordered⟩ := @LabelledRun.invariant_of_steps _ _ _ _ _ _
    (fun v => v.Apart ∧ v.Ordered) (fun v turn => turn.Careful u v)
    ⟨hstart.apart, hstart.ordered⟩ hstep hrun hcareful
  exact hapart.cleanup hordered hturn hcleanup hnext

end Runs

section ClosedRuns

open ClosedRuns

/-- The event takes the directory of the file away. -/
def Removes (f : Id) : Event UploadCall UploadCall.Response → Bool
  | ⟨.remove g, removed⟩ => decide (g = f) && removed
  | _ => false

def Delivery.isAnswered : Delivery → Bool
  | answered _ => true
  | _ => false

/-- Every commit was answered, and followed by the removal of the directory. -/
def UploadTrace.isClear : UploadTrace → Bool
  | [] => true
  | ⟨.request (.finalize f _), d⟩ :: after =>
    Delivery.isAnswered d && after.any (Removes f) && isClear after
  | _ :: after => isClear after

lemma removes_eq {f : Id} {e : Event UploadCall UploadCall.Response} (h : Removes f e = true) :
    e = ⟨.remove f, true⟩ := by
  unfold Removes at h
  split at h
  · rw [Bool.and_eq_true, decide_eq_true_eq] at h
    obtain ⟨rfl, hremoved⟩ := h
    rw [hremoved]
  · exact absurd h (by simp)

namespace UploadTrace

lemma isClear_of_append {before after : UploadTrace} (h : isClear (before ++ after) = true) :
    isClear after = true := by
  induction before with
  | nil => exact h
  | cons e before ih =>
    refine ih ?_
    rw [List.cons_append] at h
    unfold isClear at h
    split at h
    · exact absurd ‹_ = []› (by simp)
    · rename_i heq
      obtain ⟨-, rfl⟩ := List.cons.inj heq
      rw [Bool.and_eq_true] at h
      exact h.2
    · rename_i heq
      obtain ⟨-, rfl⟩ := List.cons.inj heq
      exact h

lemma not_unanswered_of_isClear {past : UploadTrace} {u : Uploader} (h : past.isClear = true) :
    ¬ past.Unanswered u := by
  rintro ⟨f, hmade⟩
  obtain ⟨before, after, rfl⟩ := List.append_of_mem hmade
  have hrest := isClear_of_append h
  unfold isClear at hrest
  exact absurd hrest (by simp [Delivery.isAnswered])

lemma not_uncleared_of_isClear {past : UploadTrace} {u : Uploader} (h : past.isClear = true) (f : Id) :
    ¬ past.Uncleared u f := by
  rintro ⟨before, after, rfl, -, hkept⟩
  have hrest := isClear_of_append h
  unfold isClear at hrest
  rw [Bool.and_eq_true, Bool.and_eq_true] at hrest
  obtain ⟨e, he, hremoves⟩ := List.any_eq_true.mp hrest.1.2
  rw [removes_eq hremoves] at he
  exact hkept he

end UploadTrace

/-- The command is given for no pending upload. -/
def UploadCommand.namesNoFile : UploadCommand → Bool
  | resumeUpload _ | dismissPendingUpload _ => false
  | _ => true

lemma UploadTurn.careful_of_isClear {u : Uploader} {w : UploadWorld} {turn : UploadTurn}
    (h : UploadTrace.isClear turn.trace = true) (hcommand : turn.command.namesNoFile = true) :
    turn.Careful u w where
  answered := UploadTrace.not_unanswered_of_isClear h
  cleared := UploadTrace.not_uncleared_of_isClear h
  resumed f _ _ heq _ := by
    rw [heq] at hcommand
    exact absurd hcommand (by simp [UploadCommand.namesNoFile])
  dismissed f heq := by
    rw [heq] at hcommand
    exact absurd hcommand (by simp [UploadCommand.namesNoFile])

def otherPost : StageRequest :=
  ⟨⟨.replicate 16 6⟩, .generic, "", .disk ⟨none, none, none⟩ [3, 4] 2 [3, 4]⟩

def stagedPost : UploadWorld := UploadWorld.empty.after false (.stageUpload "J" diskPost)

/-- It is uploaded, and another one is staged. -/
def stagedOther : UploadWorld :=
  (stagedPost.after false (.confirmUpload "J")).after false (.stageUpload "K" otherPost)

/-- The answer to its commit gets lost. -/
def unansweredPost : UploadWorld := stagedPost.after true (.confirmUpload "J")

lemma may_stagePost : (UploadCommand.stageUpload "J" diskPost).May UploadWorld.empty := by
  constructor
  · decide +kernel
  · decide +kernel
  · intro jobId h
    exact ⟨AList.notMem_empty _, AList.notMem_empty _⟩

lemma may_stageOther : (UploadCommand.stageUpload "K" otherPost).May
    (stagedPost.after false (.confirmUpload "J")) := by
  constructor
  · decide +kernel
  · decide +kernel
  · intro jobId h
    obtain rfl := Option.some.inj h
    decide +kernel

/-- The other post is cancelled, and the first one stays. -/
theorem cleanup_keeps_firstPost : ∃ path turn,
    LabelledRun (UploadWorld.Next plainUploader plainServer) UploadWorld.empty path stagedOther ∧
    UploadWorld.Next plainUploader plainServer stagedOther turn
      (stagedOther.after false (.cancelUpload "K")) ∧
    stagedOther.server.Committed ⟨.replicate 16 5⟩ ∧
    stagedOther.server.KeptBy (stagedOther.after false (.cancelUpload "K")).server := by
  have hconfirm : (UploadCommand.confirmUpload "J").May stagedPost :=
    UploadCommand.may_of_draws_nil rfl rfl
  have hcancel : (UploadCommand.cancelUpload "K").May stagedOther :=
    UploadCommand.may_of_draws_nil rfl rfl
  have hrun := ((LabelledRun.start.step (UploadWorld.next_turn false may_stagePost)).step
    (UploadWorld.next_turn false hconfirm)).step (UploadWorld.next_turn false may_stageOther)
  have hlast := UploadWorld.next_turn false hcancel
  have hcurrent : (stagedOther.server.files.lookup ⟨.replicate 16 5⟩).map
      FileEntry.currentVersion = some 1 := by
    decide +kernel
  refine ⟨_, _, hrun, hlast, ?_, cleanup_keeps UploadWorld.start_empty hrun ?_ hlast ?_ rfl⟩
  · obtain ⟨entry, hentry, hone⟩ := Option.map_eq_some_iff.mp hcurrent
    refine ⟨entry, hentry, ?_⟩
    rw [hone]
    decide
  · intro x hx
    simp only [List.nil_append, List.cons_append, List.mem_cons, List.not_mem_nil, or_false] at hx
    obtain rfl | rfl | rfl := hx
    · exact UploadTurn.careful_of_isClear (by decide +kernel) (by decide +kernel)
    · exact UploadTurn.careful_of_isClear (by decide +kernel) (by decide +kernel)
    · exact UploadTurn.careful_of_isClear (by decide +kernel) (by decide +kernel)
  · exact UploadTurn.careful_of_isClear (by decide +kernel) (by decide +kernel)

/-- **A cancelled upload deletes a committed file** whose commit was not answered. -/
theorem cancel_deletes_committed : ∃ path w turn w',
    LabelledRun (UploadWorld.Next plainUploader plainServer) UploadWorld.empty path w ∧
    UploadWorld.empty.Start ∧ UploadWorld.Next plainUploader plainServer w turn w' ∧
    turn.command.isCleanup = true ∧ ¬ w.server.KeptBy w'.server := by
  have hconfirm : (UploadCommand.confirmUpload "J").May stagedPost :=
    UploadCommand.may_of_draws_nil rfl rfl
  have hcancel : (UploadCommand.cancelUpload "J").May unansweredPost :=
    UploadCommand.may_of_draws_nil rfl rfl
  have hrun := (LabelledRun.start.step (UploadWorld.next_turn false may_stagePost)).step
    (UploadWorld.next_turn true hconfirm)
  have hcurrent : (unansweredPost.server.files.lookup ⟨.replicate 16 5⟩).map
      FileEntry.currentVersion = some 1 := by
    decide +kernel
  have hgone : ((unansweredPost.after false (.cancelUpload "J")).server.files.lookup
      ⟨.replicate 16 5⟩).map FileEntry.currentVersion = none := by
    decide +kernel
  refine ⟨_, unansweredPost, _, _, hrun, UploadWorld.start_empty,
    UploadWorld.next_turn false hcancel, rfl, ?_⟩
  intro hkept
  obtain ⟨entry, hentry, hone⟩ := Option.map_eq_some_iff.mp hcurrent
  have hne : entry.currentVersion ≠ 0 := by
    rw [hone]
    decide
  rw [(hkept _ entry hentry hne).1] at hgone
  exact absurd hgone (by simp)

end ClosedRuns

end MaxSecu
