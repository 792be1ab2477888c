import MaxSecu.App.UploadTurns

/-!
# Members of a bundle

The members of a bundle are uploaded unlisted and under the id of the bundle.  Whether a file is
listed is settled when the server creates its row, and the record on disk does not say it: a member
that is resumed from disk before its bundle was confirmed is created as a file of its own
(`membersHidden_of_run`).
-/

namespace MaxSecu

open Program AssociationList

namespace UploadWorld

/-- The server has no member of a bundle but unlisted and under the bundle's id. -/
def MembersHidden (w : UploadWorld) : Prop :=
  ∀ fileId bundleId onDisk entry, w.drawn.lookup fileId = some (.member bundleId onDisk) →
    w.server.files.lookup fileId = some entry →
      entry.listed = false ∧ entry.bundleId = some bundleId

end UploadWorld

/-- A member of a bundle is resumed only when the server has it already. -/
def UploadCommand.ResumesCreated (w : UploadWorld) (command : UploadCommand) : Prop :=
  ∀ fileId bundleId onDisk, command = .resumeUpload fileId →
    w.drawn.lookup fileId = some (.member bundleId onDisk) → fileId ∈ w.server.files

/-! ## Requests -/

lemma Files.parseStage_flags {input : StageInput} {p : ParsedStage}
    (h : Files.parseStage input = .ok p) : p.listed = input.listed ∧ p.bundleId = input.bundleId := by
  unfold Files.parseStage at h
  simp only [ExceptRules.bind_eq_ok, ExceptRules.guard_eq_ok, ExceptRules.pure_eq_ok] at h
  obtain ⟨manifest, -, -, -, -, -, -, -, -, genesis, -, rfl⟩ := h
  exact ⟨rfl, rfl⟩

lemma StagedContent.stageInput_flags (content : StagedContent) (flags : StageFlags) (callerId : Id) :
    (content.stageInput flags callerId).fileId = content.fileId ∧
      (content.stageInput flags callerId).listed = flags.listed ∧
      (content.stageInput flags callerId).bundleId = flags.bundleId := by
  cases content with
  | inRam bundle => exact ⟨rfl, rfl, rfl⟩
  | streaming rec => exact ⟨rfl, rfl, rfl⟩

namespace Delivery.Of

variable {faults : Bool} {maxFileBytes : Option UInt64} {r : UploadRequest} {s t : ServerState}
  {d : Delivery} {g : Id}

lemma flags (h : Delivery.Of faults maxFileBytes r s d t) {entry : FileEntry}
    (hentry : t.files.lookup g = some entry) :
    (∃ old, s.files.lookup g = some old ∧ entry.listed = old.listed ∧
      entry.bundleId = old.bundleId) ∨
    (s.files.lookup g = none ∧ ∃ input, r = .stage input ∧ input.fileId = g ∧
      entry.listed = input.listed ∧ entry.bundleId = input.bundleId) := by
  have hold : s.files.lookup g = some entry → (∃ old, s.files.lookup g = some old ∧
      entry.listed = old.listed ∧ entry.bundleId = old.bundleId) :=
    fun hlookup => ⟨entry, hlookup, rfl, rfl⟩
  have hinsert : ∀ {f : Id} {old new : FileEntry}, s.files.lookup f = some old →
      (s.files.insert f new).lookup g = some entry → new.listed = old.listed →
      new.bundleId = old.bundleId → (∃ old, s.files.lookup g = some old ∧
        entry.listed = old.listed ∧ entry.bundleId = old.bundleId) := by
    intro f old new hlookup hg hlisted hbundle
    obtain ⟨rfl, rfl⟩ | ⟨-, hbefore⟩ := lookup_insert_cases hg
    · exact ⟨old, hlookup, hlisted, hbundle⟩
    · exact hold hbefore
  obtain ⟨nowMs, status, houtcome, -⟩ | ⟨-, rfl⟩ := h.outcome
  · cases r with
    | stage input =>
      cases houtcome with
      | refused _ => exact .inl (hold hentry)
      | @staged _ p old _ hparse _ hrow _ =>
        cases hrow with
        | @create genesis hgenesis hnone =>
          obtain ⟨rfl, rfl⟩ | ⟨-, hbefore⟩ := lookup_insert_cases hentry
          · obtain ⟨hlisted, hbundle⟩ := Files.parseStage_flags hparse
            exact .inr ⟨hnone, input, rfl, (Files.parseStage_spec hparse).fileId.symm, hlisted,
              hbundle⟩
          · exact .inl (hold hbefore)
        | restage _ hlookup => exact .inl (hinsert hlookup hentry rfl rfl)
        | rotate _ hlookup _ => exact .inl (hinsert hlookup hentry rfl rfl)
    | putChunk f streamType index body callerId =>
      cases houtcome with
      | refused _ => exact .inl (hold hentry)
      | put _ _ _ _ _ _ _ _ => exact .inl (hold hentry)
    | finalize f callerId =>
      cases houtcome with
      | refused _ => exact .inl (hold hentry)
      | committed hlookup _ _ _ _ _ _ => exact .inl (hinsert hlookup hentry rfl rfl)
    | discard f callerId =>
      cases houtcome with
      | refused _ => exact .inl (hold hentry)
      | absent _ => exact .inl (hold hentry)
      | discarded hlookup _ _ _ => exact .inl (hinsert hlookup hentry rfl rfl)
      | @deleted _ _ target blobs _ _ _ _ =>
        have hentry' : (eraseAll (s.files.deleteTargets f callerId target) s.files).lookup g =
          some entry := hentry
        rw [lookup_eraseAll] at hentry'
        split_ifs at hentry'
        exact .inl (hold hentry')
  · exact .inl (hold hentry)

lemma mem_files (h : Delivery.Of faults maxFileBytes r s d t) (hr : r.isDiscard = false)
    (hg : g ∈ s.files) : g ∈ t.files := by
  have hinsert : ∀ {f : Id} {entry : FileEntry}, g ∈ s.files.insert f entry :=
    fun {f entry} => (AList.mem_insert _).mpr (.inr hg)
  obtain ⟨nowMs, status, houtcome, -⟩ | ⟨-, rfl⟩ := h.outcome
  · cases r with
    | stage input =>
      cases houtcome with
      | refused _ => exact hg
      | staged _ _ _ _ => exact hinsert
    | putChunk f streamType index body callerId =>
      cases houtcome with
      | refused _ => exact hg
      | put _ _ _ _ _ _ _ _ => exact hg
    | finalize f callerId =>
      cases houtcome with
      | refused _ => exact hg
      | committed _ _ _ _ _ _ _ => exact hinsert
    | discard f callerId => exact absurd hr (by simp [UploadRequest.isDiscard])
  · exact hg

end Delivery.Of

section Runs

variable {u : Uploader} {server : UploadServer} {w w' : UploadWorld} {turn : UploadTurn}

namespace UploadWorld

lemma lookup_of_draw {draws : List (Id × IdUse)} {f : Id} {use : IdUse}
    (h : (w.draw draws).drawn.lookup f = some use) :
    w.drawn.lookup f = some use ∨ f ∈ draws.map Prod.fst := by
  induction draws with
  | nil => exact .inl h
  | cons first draws ih =>
    obtain ⟨rfl, -⟩ | ⟨-, hold⟩ := lookup_insert_cases h
    · exact .inr List.mem_cons_self
    · exact (ih hold).imp_right (List.mem_cons_of_mem _)

lemma MembersHidden.draw {command : UploadCommand} (h : w.MembersHidden) (hordered : w.Ordered)
    (hmay : command.May w) : (w.draw command.draws).MembersHidden := by
  intro f bundleId onDisk entry huse hentry
  obtain hold | hnew := lookup_of_draw huse
  · exact h f bundleId onDisk entry hold hentry
  · obtain ⟨d, hd, rfl⟩ := List.mem_map.mp hnew
    have hnone := (hordered.unknown d.1 (hmay.fresh d hd)).1
    have hentry' : w.server.files.lookup d.1 = some entry := hentry
    rw [hnone] at hentry'
    exact absurd hentry' (by simp)

end UploadWorld

lemma UploadCommand.During.stage_flags {command : UploadCommand} {past : UploadTrace}
    {content : StagedContent} {fileId bundleId : Id} {flags : StageFlags} {onDisk : Bool}
    (h : command.During past w) (hhanded : past.Handed content fileId flags)
    (huse : w.drawn.lookup content.fileId = some (.member bundleId onDisk))
    (hresumed : command ≠ .resumeUpload content.fileId) :
    flags.listed = false ∧ flags.bundleId = some bundleId := by
  cases hhanded with
  | loaded hmade =>
    obtain ⟨⟨hfile, -⟩, hcommand⟩ := h.notes _ hmade _ rfl
    refine absurd ?_ hresumed
    rw [hcommand]
    exact congrArg _ hfile.symm
  | job hmade =>
    obtain ⟨hjob, -⟩ := h.notes _ hmade _ rfl
    have hsingle := huse.symm.trans hjob
    exact absurd hsingle (by simp)
  | @member jobId job content info hmade hmem =>
    obtain ⟨⟨-, hmembers⟩, -⟩ := h.notes _ hmade _ rfl
    have hsame := huse.symm.trans (hmembers _ hmem).2
    obtain ⟨rfl, -⟩ := IdUse.member.inj (Option.some.inj hsame)
    exact ⟨rfl, rfl⟩
  | @bundle jobId job bundle hmade hfile =>
    obtain ⟨⟨hbundle, -⟩, -⟩ := h.notes _ hmade _ rfl
    have hfile' : (StagedContent.inRam bundle).fileId = job.bundleId := hfile
    rw [hfile', hbundle] at huse
    exact absurd huse (by simp)

variable [Sha256] [Ed25519] [Hkdf] [Aes256Gcm] [Aes256GcmSeal] [Hpke] [HpkeSeal] [X25519]
  [X25519Base] [MlKem768] [MlKem768Encaps]

lemma UploadWorld.Next.may (h : UploadWorld.Next u server w turn w') : turn.command.May w := by
  cases h with
  | returned hmay _ => exact hmay
  | crashed hmay _ => exact hmay

lemma UploadWorld.MembersHidden.next (h : w.MembersHidden) (hordered : w.Ordered)
    (hok : turn.command.ResumesCreated w) (hnext : UploadWorld.Next u server w turn w') :
    w'.MembersHidden := by
  have hinv := hnext.induct hordered
    (fun _ v => v.MembersHidden ∧ turn.command.ResumesCreated v)
    ⟨h.draw hordered hnext.may, ?_⟩ ?_
  · obtain ⟨v, -, ⟨hhidden, -⟩, ⟨rfl, -⟩ | ⟨rfl, -⟩⟩ := hinv
    · exact hhidden
    · exact hhidden
  · intro f bundleId onDisk hcommand huse
    have hdraws : turn.command.draws = [] := by rw [hcommand]; rfl
    rw [hdraws] at huse
    exact hok f bundleId onDisk hcommand huse
  · intro past c r v v' hpermits hduring hboth hcall
    obtain ⟨hhidden, hcreated⟩ := hboth
    have hdrawn := (hduring.ordered_step hpermits hcall).2
    by_cases hrequest : ∃ req, c = .request req
    · obtain ⟨req, rfl⟩ := hrequest
      obtain ⟨t, hsent, rfl⟩ := hcall
      constructor
      · intro f bundleId onDisk entry huse hentry
        obtain ⟨old, hold, hlisted, hbundle⟩ | ⟨hnone, input, rfl, hfile, hlisted, hbundle⟩ :=
          hsent.flags hentry
        · rw [hlisted, hbundle]
          exact hhidden f bundleId onDisk old huse hold
        · cases hpermits with
          | @stage content fileId flags hhanded =>
            obtain ⟨hsame, hlisted', hbundle'⟩ := content.stageInput_flags flags u.userId
            rw [hlisted, hbundle, hlisted', hbundle']
            obtain rfl : content.fileId = f := hsame.symm.trans hfile
            refine hduring.stage_flags hhanded huse ?_
            intro hcommand
            obtain ⟨old, hold⟩ := mem_iff_lookup.mp
              (hcreated content.fileId bundleId onDisk hcommand huse)
            rw [hnone] at hold
            exact absurd hold (by simp)
      · intro f bundleId onDisk hcommand huse
        refine hsent.mem_files ?_ (hcreated f bundleId onDisk hcommand huse)
        cases hpermits with
        | discard hcleanup _ =>
          rw [hcommand] at hcleanup
          exact absurd hcleanup (by simp [UploadCommand.isCleanup])
        | _ => rfl
    · have hserver := hcall.server_eq fun req hreq => hrequest ⟨req, hreq⟩
      constructor
      · intro f bundleId onDisk entry huse hentry
        rw [hdrawn] at huse
        rw [hserver] at hentry
        exact hhidden f bundleId onDisk entry huse hentry
      · intro f bundleId onDisk hcommand huse
        rw [hdrawn] at huse
        rw [hserver]
        exact hcreated f bundleId onDisk hcommand huse

/-- In every run in which no member is resumed before the server has it, the members that the server
has are unlisted and in their bundles. -/
theorem membersHidden_of_run {w₀ : UploadWorld} {path : List (UploadWorld × UploadTurn)}
    (hstart : w₀.Start) (hrun : LabelledRun (UploadWorld.Next u server) w₀ path w)
    (hok : ∀ x ∈ path, x.2.command.ResumesCreated x.1) : w.MembersHidden := by
  have hinit : w₀.MembersHidden := by
    intro f bundleId onDisk entry huse _
    exact absurd (hstart.taken f _ huse) (by simp)
  have hstep : ∀ (v : UploadWorld) turn v', (v.MembersHidden ∧ v.Ordered) →
      turn.command.ResumesCreated v → UploadWorld.Next u server v turn v' →
      v'.MembersHidden ∧ v'.Ordered := by
    intro v turn v' h hresumes hnext
    exact ⟨h.1.next h.2 hresumes hnext, hnext.ordered h.2⟩
  have hinv := @LabelledRun.invariant_of_steps _ _ _ _ _ _
    (fun v => v.MembersHidden ∧ v.Ordered) (fun v turn => turn.command.ResumesCreated v)
    ⟨hinit, hstart.ordered⟩ hstep hrun hok
  exact hinv.1

end Runs

section ClosedRuns

open ClosedRuns

def stagePair : UploadCommand := .stageBundle "J" ⟨.replicate 16 7⟩ [diskPost] [] none

lemma may_stagePair : stagePair.May UploadWorld.empty := by
  constructor
  · decide +kernel
  · decide +kernel
  · intro jobId h
    exact ⟨AList.notMem_empty _, AList.notMem_empty _⟩

/-- A bundle that is staged and confirmed. -/
theorem membersHidden_confirmed : ∃ path, LabelledRun
      (UploadWorld.Next plainUploader plainServer) UploadWorld.empty path
      ((UploadWorld.empty.after false stagePair).after false (.confirmBundle "J")) ∧
    ((UploadWorld.empty.after false stagePair).after false (.confirmBundle "J")).MembersHidden := by
  obtain ⟨turn₁, hturn₁, hnext₁⟩ := UploadWorld.exists_next false may_stagePair
  have hmay : (UploadCommand.confirmBundle "J").May (UploadWorld.empty.after false stagePair) :=
    UploadCommand.may_of_draws_nil rfl rfl
  obtain ⟨turn₂, hturn₂, hnext₂⟩ := UploadWorld.exists_next false hmay
  have hrun := (LabelledRun.start.step hnext₁).step hnext₂
  refine ⟨_, hrun, membersHidden_of_run UploadWorld.start_empty hrun ?_⟩
  intro x hx fileId bundleId onDisk hcommand
  obtain hx | hx := List.mem_append.mp hx
  · obtain rfl := List.mem_singleton.mp hx
    rw [hturn₁] at hcommand
    exact absurd hcommand (by simp [stagePair])
  · obtain rfl := List.mem_singleton.mp hx
    rw [hturn₂] at hcommand
    exact absurd hcommand (by simp)

/-- A member that is resumed before its bundle is confirmed is committed as a listed file. -/
theorem exists_run_member_listed : ∃ (w : UploadWorld) (path : _) (fileId bundleId : Id) (entry : _),
    LabelledRun (UploadWorld.Next plainUploader plainServer) UploadWorld.empty path w ∧
    UploadWorld.empty.Start ∧ w.drawn.lookup fileId = some (.member bundleId true) ∧
    w.server.files.lookup fileId = some entry ∧ entry.currentVersion = 1 ∧
    ¬ (entry.listed = false ∧ entry.bundleId = some bundleId) := by
  obtain ⟨turn₁, -, hnext₁⟩ := UploadWorld.exists_next false may_stagePair
  have hmay : (UploadCommand.resumeUpload ⟨.replicate 16 5⟩).May
      (UploadWorld.empty.after false stagePair) := UploadCommand.may_of_draws_nil rfl rfl
  obtain ⟨turn₂, -, hnext₂⟩ := UploadWorld.exists_next false hmay
  have hrun := (LabelledRun.start.step hnext₁).step hnext₂
  have hentry : (((UploadWorld.empty.after false stagePair).after false
      (.resumeUpload ⟨.replicate 16 5⟩)).server.files.lookup ⟨.replicate 16 5⟩).map
        (fun entry => (entry.currentVersion, entry.listed)) = some (1, true) := by
    decide +kernel
  have huse : ((UploadWorld.empty.after false stagePair).after false
      (.resumeUpload ⟨.replicate 16 5⟩)).drawn.lookup ⟨.replicate 16 5⟩ =
        some (.member ⟨.replicate 16 7⟩ true) := by
    decide +kernel
  obtain ⟨entry, hlookup, hflags⟩ := Option.map_eq_some_iff.mp hentry
  obtain ⟨hcurrent, hlisted⟩ := Prod.mk.inj hflags
  refine ⟨_, _, _, _, entry, hrun, UploadWorld.start_empty, huse, hlookup, hcurrent, ?_⟩
  intro h
  rw [hlisted] at h
  exact absurd h.1 (by simp)

end ClosedRuns

end MaxSecu
