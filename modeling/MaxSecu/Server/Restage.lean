import MaxSecu.Server.Queries
import MaxSecu.Server.VersionPhases

/-!
# What a file serves after several attempts to create it

Until version 1 of a file is finalized it can be staged again, and discarded.  The rows of the
version are those of the last stage.  The row of the file is written once, by the stage that created
it, and a discard leaves it (`restage_overwrites`).  So what is served after the commit comes from
one request exactly if these two stages agree on what the row of the file holds
(`serves_last_iff`).
-/

namespace MaxSecu

open ExceptRules AssociationList GuardedUpdate

/-! ## The stage that created a file -/

/-- The stage, if the call creates a file by it. -/
def FileOp.creates (files : FileStore) (op : FileOp) : Option CheckedStage :=
  match op with
  | stageVersion st _ =>
    if (op.apply files).1.isOk ∧ files.lookup st.parsed.fileId = none then some st else none
  | _ => none

/-- The file store, which tells by which stages it created files. -/
def creationMachine : Machine Ledger FileOp CheckedStage where
  init := fileMachine.init
  step := fun l op => ((l.step op).1, (op.creates l.files).toList)

/-- The stage of the run that created the file last. -/
def created (ops : List FileOp) (fileId : Id) : Option CheckedStage :=
  ((creationMachine.run ops).2.filter fun st => st.parsed.fileId = fileId).getLast?

/-! ## What is served -/

/-- What the row of a file holds besides the owner: genesis, type, visibility and bundle. -/
def ParsedStage.fileRow (p : ParsedStage) :
    Option (List UInt8 × Bytes 64) × Int16 × Bool × Option Id :=
  (p.genesis.map fun g => (g.genesisBytes, g.genesisSig), p.fileType, p.listed, p.bundleId)

namespace ParsedStage

variable (p : ParsedStage) (ownerId : Id)

/-- What the caller reads of a file with this one version. -/
def view (genesis : GenesisRow) (callerId : Id) : Option FileView :=
  (p.wraps.find? fun w => w.recipientId = callerId).map fun my =>
    { version := p.version
      manifestBytes := p.manifestBytes
      manifestSig := p.manifestSig
      genesisBytes := genesis.genesisBytes
      genesisSig := genesis.genesisSig
      myWrap := ⟨my.wrappedDek, my.grantBytes, my.grantSig, ancestorChain p.wraps my ownerId⟩
      recoveryGrant := (p.wraps.find? fun w => w.recipientType = 2).map fun w =>
        (w.grantBytes, w.grantSig)
      streams := p.streams.map fun s => ⟨s.streamType, s.chunkCount, s.chunkSize, s.blobRef⟩ }

def listing (nowMs : UInt64) (filter : ListFilter) : Option FileListEntry :=
  if p.listed = true ∧ (p.wraps.any fun w => w.recipientId = filter.callerId) ∧
      (filter.fileType.all fun t => t = p.fileType) ∧
      (filter.ownerOnly = true → ownerId = filter.callerId) then
    some
      { fileId := p.fileId
        fileType := p.fileType
        version := p.version
        updatedAtMs := nowMs
        smallStreams := (p.streams.filter fun s => s.streamType ≠ 1).map fun s =>
          (s.streamType, s.totalBytes) }
  else
    none

end ParsedStage

/-- All reads of the file show what this one stage posted. -/
structure FileStore.Serves (files : FileStore) (ownerId : Id) (nowMs : UInt64) (p : ParsedStage) :
    Prop where
  file : ∃ g, p.genesis = some g ∧ ∀ callerId,
    files.getFile p.fileId .latest callerId = p.view ownerId g callerId ∧
      files.getFile p.fileId (.specific p.version) callerId = p.view ownerId g callerId
  fileMeta : files.getFileMeta p.fileId = some ⟨ownerId, p.fileType, p.listed, p.bundleId⟩
  listing : ∀ filter e, e.fileId = p.fileId →
    (e ∈ files.listing filter ↔ p.listing ownerId nowMs filter = some e)

namespace Restage

variable {ops : List FileOp} {fileId : Id} {entry : FileEntry}

/-- The row of a file, as the stage created it. -/
structure CreatedBy (fileId : Id) (entry : FileEntry) (st : CheckedStage) : Prop where
  sameFile : st.parsed.fileId = fileId
  fileRow : st.parsed.fileRow =
    (some (entry.genesisBytes, entry.genesisSig), entry.fileType, entry.listed, entry.bundleId)

lemma ledger_creations (ops : List FileOp) :
    (creationMachine.run ops).1 = (fileMachine.run ops).1 := by
  induction ops using List.reverseRecOn with
  | nil => rfl
  | append_singleton ops op ih =>
    rw [Machine.run_append_singleton, Machine.run_append_singleton, ih]
    rfl

lemma created_append {op : FileOp} : created (ops ++ [op]) fileId =
    match op.creates (fileMachine.run ops).1.files with
    | some st => if st.parsed.fileId = fileId then some st else created ops fileId
    | none => created ops fileId := by
  unfold created
  rw [Machine.run_append_singleton, ledger_creations]
  show (List.filter _ (_ ++ (op.creates _).toList)).getLast? = _
  rw [List.filter_append]
  cases op.creates (fileMachine.run ops).1.files with
  | none => simp
  | some st =>
    by_cases hfile : st.parsed.fileId = fileId
    · simp [hfile]
    · simp [hfile]

lemma rowChange_fileRow {files : FileStore} {op : FileOp} {entry' : FileEntry}
    (hrow : RowChange files op entry entry') :
    (entry'.genesisBytes, entry'.genesisSig, entry'.fileType, entry'.listed, entry'.bundleId) =
      (entry.genesisBytes, entry.genesisSig, entry.fileType, entry.listed, entry.bundleId) := by
  cases hrow <;> rfl

lemma creates_eq_some {files : FileStore} {op : FileOp} {st : CheckedStage} :
    op.creates files = some st ↔ ∃ nowMs, op = .stageVersion st nowMs ∧
      (op.apply files).1.isOk = true ∧ files.lookup st.parsed.fileId = none := by
  unfold FileOp.creates
  cases op with
  | stageVersion st' nowMs =>
    simp only [Option.ite_none_right_eq_some, Option.some.injEq, FileOp.stageVersion.injEq]
    constructor
    · intro ⟨hok, hst⟩
      subst hst
      exact ⟨nowMs, ⟨rfl, rfl⟩, hok⟩
    · intro ⟨_, ⟨hst, _⟩, hok⟩
      subst hst
      exact ⟨hok, rfl⟩
  | _ => simp

/-- After every run, the row of a file is the one it was created with. -/
theorem createdBy_run (ops : List FileOp) {fileId : Id} {entry : FileEntry}
    (hentry : (fileMachine.run ops).1.files.lookup fileId = some entry) :
    ∃ st, created ops fileId = some st ∧ CreatedBy fileId entry st := by
  induction ops using List.reverseRecOn generalizing entry with
  | nil => exact absurd hentry (by simp [fileMachine])
  | append_singleton ops op ih =>
    rw [Machine.run_append_singleton] at hentry
    -- a file that has a row is not created again
    have hold : ∀ before, (fileMachine.run ops).1.files.lookup fileId = some before →
        created (ops ++ [op]) fileId = created ops fileId := by
      intro before hbefore
      rw [created_append]
      cases hcreates : op.creates (fileMachine.run ops).1.files with
      | none => rfl
      | some st =>
        obtain ⟨_, _, _, hnone⟩ := creates_eq_some.mp hcreates
        have hother : st.parsed.fileId ≠ fileId := by
          intro hfile
          rw [hfile, hbefore] at hnone
          exact absurd hnone (by simp)
        exact if_neg hother
    obtain ⟨hsame, _⟩ | ⟨hid, before, files, hrow, _⟩ := Ledger.step_row hentry
    · obtain ⟨st, hcreated, hrow⟩ := ih hsame
      exact ⟨st, (hold entry hsame).trans hcreated, hrow⟩
    · obtain hbefore | ⟨hnone, _⟩ := rowChange_before hrow
      · rw [hid] at hbefore
        obtain ⟨st, hcreated, hfirst⟩ := ih hbefore
        refine ⟨st, (hold before hbefore).trans hcreated, hfirst.sameFile, ?_⟩
        rw [hfirst.fileRow]
        have hkept := rowChange_fileRow hrow
        simp only [Prod.mk.injEq] at hkept ⊢
        obtain ⟨hbytes, hsig, htype, hlisted, hbundle⟩ := hkept
        exact ⟨by rw [hbytes, hsig], htype.symm, hlisted.symm, hbundle.symm⟩
      · cases hrow with
        | @stage st nowMs _ hstage hopen =>
          have hrun := FileStore.stageVersion_eq_ok.mpr
            ⟨st.not_any_isHalfShape, rfl, before, hstage, hopen, rfl⟩
          have hcreates : (FileOp.stageVersion st nowMs).creates
              (fileMachine.run ops).1.files = some st := by
            refine creates_eq_some.mpr ⟨nowMs, rfl, ?_, hnone⟩
            simp only [FileOp.apply, hrun]
            rfl
          refine ⟨st, ?_, hid, ?_⟩
          · rw [created_append, hcreates]
            exact if_pos hid
          · cases hstage with
            | create hgenesis _ =>
              unfold ParsedStage.fileRow
              rw [hgenesis]
              rfl
            | restage _ hfound => exact absurd (hnone.symm.trans hfound) (by simp)
            | rotate _ hfound _ => exact absurd (hnone.symm.trans hfound) (by simp)
        | finalize hfound _ _ _ _ => exact absurd (hnone.symm.trans hfound) (by simp)
        | addWrap _ hfound _ _ _ _ => exact absurd (hnone.symm.trans hfound) (by simp)
        | deleteWrap _ hfound _ _ _ _ _ => exact absurd (hnone.symm.trans hfound) (by simp)
        | discard hfound _ _ => exact absurd (hnone.symm.trans hfound) (by simp)

/-- The row of a file whose version 1, just committed, is as this stage posted it. -/
structure Committed (entry : FileEntry) (ownerId : Id) (nowMs : UInt64) (p : ParsedStage) : Prop
    where
  owner : entry.ownerId = ownerId
  current : entry.currentVersion = p.version
  updated : entry.updatedAtMs = nowMs
  version : entry.versions.lookup p.version = some (VersionEntry.ofStage p).finalize

/-- Such a file shows what the stage posted exactly if the row of the file holds what it posted. -/
lemma serves_iff {files : FileStore} {ownerId : Id} {nowMs : UInt64} {p : ParsedStage}
    (hentry : files.lookup p.fileId = some entry) (h : Committed entry ownerId nowMs p)
    (hversion : p.version = 1) (hwraps : p.wraps ≠ []) {g : GenesisRow}
    (hgenesis : p.genesis = some g) :
    files.Serves ownerId nowMs p ↔
      (some (entry.genesisBytes, entry.genesisSig), entry.fileType, entry.listed, entry.bundleId) =
        p.fileRow := by
  have hcurrent : entry.currentVersion = 1 := h.current.trans hversion
  have hlookup : entry.versions.lookup entry.currentVersion =
      some (VersionEntry.ofStage p).finalize := by
    rw [h.current]
    exact h.version
  have hfile : ∀ selector, selector = .latest ∨ selector = .specific p.version → ∀ callerId,
      files.getFile p.fileId selector callerId =
        p.view ownerId ⟨g.ownerId, g.ownerKeyVersion, entry.genesisBytes, entry.genesisSig⟩
          callerId := by
    intro selector hselector callerId
    unfold FileStore.getFile ParsedStage.view
    rw [hentry]
    obtain rfl | rfl := hselector
    · cases hfind : p.wraps.find? fun w => w.recipientId = callerId with
      | none => simp [hlookup, VersionEntry.finalize, VersionEntry.ofStage, hfind]
      | some my =>
        simp [hlookup, hcurrent, VersionEntry.finalize, VersionEntry.ofStage, hfind, h.owner,
          hversion]
    · cases hfind : p.wraps.find? fun w => w.recipientId = callerId with
      | none => simp [h.version, VersionEntry.finalize, VersionEntry.ofStage, hfind]
      | some my =>
        simp [h.version, hversion, VersionEntry.finalize, VersionEntry.ofStage, hfind, h.owner]
  have hlisting : ∀ filter, FileEntry.listing filter p.fileId entry =
      ParsedStage.listing { p with fileType := entry.fileType, listed := entry.listed } ownerId
        nowMs filter := by
    intro filter
    unfold FileEntry.listing ParsedStage.listing
    rw [hlookup, Option.bind_some, hcurrent]
    simp [VersionEntry.finalize, VersionEntry.ofStage, h.owner, h.updated, hversion]
  have hfileMeta : files.getFileMeta p.fileId =
      some ⟨ownerId, entry.fileType, entry.listed, entry.bundleId⟩ := by
    unfold FileStore.getFileMeta
    rw [hentry, Option.map_some, h.owner]
  obtain ⟨my, hmy⟩ := List.exists_mem_of_ne_nil _ hwraps
  unfold ParsedStage.fileRow
  rw [hgenesis, Option.map_some]
  constructor
  · intro hserves
    have hattributes := hserves.fileMeta
    rw [hfileMeta] at hattributes
    obtain ⟨-, htype, hlisted, hbundle⟩ := FileMeta.mk.inj (Option.some.inj hattributes)
    -- the recipient of some wrap reads the genesis
    obtain ⟨g', hg', hreads⟩ := hserves.file
    obtain rfl : g = g' := Option.some.inj (hgenesis.symm.trans hg')
    have hread := (hreads my.recipientId).1
    rw [hfile .latest (.inl rfl)] at hread
    unfold ParsedStage.view at hread
    cases hfind : p.wraps.find? fun w => w.recipientId = my.recipientId with
    | none => exact absurd (List.find?_eq_none.mp hfind my hmy) (by simp)
    | some found =>
      rw [hfind] at hread
      obtain ⟨-, -, -, hbytes, hsig, -⟩ := FileView.mk.inj (Option.some.inj hread)
      simp only at hbytes hsig
      rw [hbytes, hsig, htype, hlisted, hbundle]
  · intro hrow
    obtain ⟨hgenesisRow, htype, hlisted, hbundle⟩ : (entry.genesisBytes, entry.genesisSig) =
        (g.genesisBytes, g.genesisSig) ∧ entry.fileType = p.fileType ∧ entry.listed = p.listed ∧
          entry.bundleId = p.bundleId := by
      simpa only [Prod.mk.injEq, Option.some.injEq] using hrow
    obtain ⟨hbytes, hsig⟩ := Prod.mk.inj hgenesisRow
    refine ⟨⟨g, hgenesis, ?_⟩, ?_, ?_⟩
    · intro callerId
      have hview : p.view ownerId ⟨g.ownerId, g.ownerKeyVersion, entry.genesisBytes,
          entry.genesisSig⟩ callerId = p.view ownerId g callerId := by
        rw [hbytes, hsig]
      rw [← hview]
      exact ⟨hfile _ (.inl rfl) callerId, hfile _ (.inr rfl) callerId⟩
    · rw [hfileMeta, htype, hlisted, hbundle]
    · intro filter e he
      rw [FileStore.mem_listing, he, hentry, Option.bind_some, hlisting, htype, hlisted]

lemma create_serves {files : FileStore} {p : ParsedStage} {g : GenesisRow}
    (hnew : files.lookup p.fileId = none) (hversion : p.version = 1) (hgenesis : p.genesis = some g)
    (hwhole : p.wraps.any WrapInput.isHalfShape = false) (hwraps : p.wraps ≠ [])
    (stagedMs finalizedMs : UInt64) :
    ∃ staged committed, runFrom (FileStore.stageVersion p stagedMs) files = (.ok 1, staged) ∧
      runFrom (FileStore.finalizeVersion p.fileId 1 g.ownerId finalizedMs) staged =
        (.ok (), committed) ∧ committed.Serves g.ownerId finalizedMs p := by
  set entry := (FileEntry.create p g stagedMs).stage p with hentry
  set staged := files.insert p.fileId entry with hstaged
  have hlookup : staged.lookup p.fileId = some entry := AList.lookup_insert _
  have hver : entry.versions.lookup 1 = some (VersionEntry.ofStage p) := by
    rw [hentry, ← hversion]
    exact AList.lookup_insert _
  have hnext : (1 : UInt64).toNat = entry.currentVersion.toNat + 1 := rfl
  refine ⟨staged, staged.insert p.fileId (entry.finalize 1 finalizedMs), ?_, ?_, ?_⟩
  · exact FileStore.stageVersion_eq_ok.mpr ⟨hwhole, hversion, _, .create hgenesis hnew,
      by simp [FileEntry.isFinalized, FileEntry.create], rfl⟩
  · exact FileStore.finalizeVersion_eq_ok.mpr ⟨entry, _, hlookup, rfl, hver, rfl, hnext, rfl⟩
  · have hcommitted : Committed (entry.finalize 1 finalizedMs) g.ownerId finalizedMs p := by
      refine ⟨rfl, hversion.symm, rfl, ?_⟩
      rw [hversion, FileEntry.lookup_finalize hnext, if_pos rfl, hver]
      rfl
    refine (serves_iff (AList.lookup_insert _) hcommitted hversion hwraps hgenesis).mpr ?_
    unfold ParsedStage.fileRow
    rw [hgenesis]
    rfl

lemma committed_run (ops : List FileOp) {fileId ownerId : Id} {nowMs : UInt64}
    (hfinal : ((FileOp.finalizeVersion fileId 1 ownerId nowMs).apply
      (fileMachine.run ops).1.files).1.isOk = true) :
    ∃ first last entry, created ops fileId = some first ∧
      (fileMachine.run ops).1.staged fileId 1 = some last ∧ CreatedBy fileId entry first ∧
      last.parsed.version = 1 ∧ Committed entry ownerId nowMs last.parsed ∧
      ((FileOp.finalizeVersion fileId 1 ownerId nowMs).apply
        (fileMachine.run ops).1.files).2.lookup last.parsed.fileId = some entry := by
  rcases hrun : runFrom (FileStore.finalizeVersion fileId 1 ownerId nowMs)
    (fileMachine.run ops).1.files with ⟨r, files⟩
  have hresult : (FileOp.finalizeVersion fileId 1 ownerId nowMs).apply
      (fileMachine.run ops).1.files = (.finalizeVersion r, files) := by
    unfold FileOp.apply
    simp only [hrun]
  rw [hresult] at hfinal ⊢
  cases r with
  | error e => exact absurd hfinal (by simp [FileReply.isOk, Except.isOk, Except.toBool])
  | ok _ =>
    obtain ⟨entry, ver, hentry, howner, hver, hopen, hnext, hfiles⟩ :=
      FileStore.finalizeVersion_eq_ok.mp hrun
    obtain ⟨first, hcreated, hfirst⟩ := createdBy_run ops hentry
    obtain ⟨last, hrecord⟩ := (recorded_run ops fileId entry hentry).version 1 ver hver
    have hcommitted : Committed (entry.finalize 1 nowMs) ownerId nowMs last.parsed := by
      refine ⟨howner, hrecord.sameVersion.symm, rfl, ?_⟩
      rw [hrecord.sameVersion, FileEntry.lookup_finalize hnext, if_pos rfl, hver,
        hrecord.phase.eq_ofStage hopen, Option.map_some]
    have hlookup : files.lookup last.parsed.fileId = some (entry.finalize 1 nowMs) := by
      rw [hrecord.sameFile, ← hfiles]
      exact AList.lookup_insert _
    -- the commit leaves what the row holds of the stage that created it
    have hkept : CreatedBy fileId (entry.finalize 1 nowMs) first :=
      ⟨hfirst.sameFile, hfirst.fileRow⟩
    exact ⟨first, last, _, hcreated, hrecord.staged, hkept, hrecord.sameVersion, hcommitted,
      hlookup⟩

end Restage

/-- After every run, once version 1 of a file is committed: manifest, wraps and streams that the
file serves are those of its last stage.  Genesis, visibility and bundle are those of the stage that
created the file. -/
theorem restage_overwrites (ops : List FileOp) {fileId ownerId : Id} {nowMs : UInt64}
    (hfinal : ((FileOp.finalizeVersion fileId 1 ownerId nowMs).apply
      (fileMachine.run ops).1.files).1.isOk = true) :
    ∃ first last, created ops fileId = some first ∧
      (fileMachine.run ops).1.staged fileId 1 = some last ∧
      ∃ fileType, ((FileOp.finalizeVersion fileId 1 ownerId nowMs).apply
        (fileMachine.run ops).1.files).2.Serves ownerId nowMs
          { last.parsed with
            genesis := first.parsed.genesis
            fileType := fileType
            listed := first.parsed.listed
            bundleId := first.parsed.bundleId } := by
  obtain ⟨first, last, entry, hcreated, hstaged, hfirst, hversion, hcommitted, hlookup⟩ :=
    Restage.committed_run ops hfinal
  have hrow := hfirst.fileRow
  unfold ParsedStage.fileRow at hrow
  simp only [Prod.mk.injEq] at hrow
  obtain ⟨hgenesisRow, -, hlisted, hbundle⟩ := hrow
  obtain ⟨g, hgenesis, -⟩ := Option.map_eq_some_iff.mp hgenesisRow
  refine ⟨first, last, hcreated, hstaged, entry.fileType, ?_⟩
  generalize hmixed : { last.parsed with
    genesis := first.parsed.genesis
    fileType := entry.fileType
    listed := first.parsed.listed
    bundleId := first.parsed.bundleId } = p
  have hcommitted' : Restage.Committed entry ownerId nowMs p := by
    subst hmixed
    exact ⟨hcommitted.owner, hcommitted.current, hcommitted.updated, hcommitted.version⟩
  refine (Restage.serves_iff (g := g) ?_ hcommitted' ?_ ?_ ?_).mpr ?_
  · subst hmixed
    exact hlookup
  · subst hmixed
    exact hversion
  · subst hmixed
    exact last.wraps_ne_nil
  · subst hmixed
    exact hgenesis
  · subst hmixed
    unfold ParsedStage.fileRow
    simp only [hgenesisRow, hlisted, hbundle]

/-- A file is staged as listed, discarded, and staged again as one that is not. -/
def unlistsByRestage : List FileOp :=
  [.stageVersion (.plain ⟨.replicate 16 2⟩ ⟨.replicate 16 1⟩ 1) 0,
    .discardUnfinalized ⟨.replicate 16 2⟩ ⟨.replicate 16 1⟩,
    .stageVersion (.authored false none
      (CheckedStage.plain_admissible ⟨.replicate 16 2⟩ ⟨.replicate 16 1⟩ 1)) 0]

/-- The commit makes it a listed file, with the version of the second stage. -/
theorem restage_overwrites_unlistsByRestage :
    ∃ first last, created unlistsByRestage ⟨.replicate 16 2⟩ = some first ∧
      (fileMachine.run unlistsByRestage).1.staged ⟨.replicate 16 2⟩ 1 = some last ∧
      ∃ fileType, ((FileOp.finalizeVersion ⟨.replicate 16 2⟩ 1 ⟨.replicate 16 1⟩ 5).apply
        (fileMachine.run unlistsByRestage).1.files).2.Serves ⟨.replicate 16 1⟩ 5
          { last.parsed with
            genesis := first.parsed.genesis
            fileType := fileType
            listed := first.parsed.listed
            bundleId := first.parsed.bundleId } :=
  restage_overwrites unlistsByRestage (by decide +kernel)

/-- So it does not show what its last stage posted. -/
theorem restage_overwrites_keepsListed :
    ¬ ∀ (ops : List FileOp) (fileId ownerId : Id) (nowMs : UInt64),
      ((FileOp.finalizeVersion fileId 1 ownerId nowMs).apply
        (fileMachine.run ops).1.files).1.isOk = true →
      ∀ last, (fileMachine.run ops).1.staged fileId 1 = some last →
        ((FileOp.finalizeVersion fileId 1 ownerId nowMs).apply
          (fileMachine.run ops).1.files).2.Serves ownerId nowMs last.parsed := by
  intro h
  have hlast : (fileMachine.run unlistsByRestage).1.staged ⟨.replicate 16 2⟩ 1 =
      some (.authored false none
        (CheckedStage.plain_admissible ⟨.replicate 16 2⟩ ⟨.replicate 16 1⟩ 1)) := by rfl
  have hserves := h unlistsByRestage ⟨.replicate 16 2⟩ ⟨.replicate 16 1⟩ 5 (by decide +kernel) _
    hlast
  have hlisted : ((FileOp.finalizeVersion ⟨.replicate 16 2⟩ 1 ⟨.replicate 16 1⟩ 5).apply
      (fileMachine.run unlistsByRestage).1.files).2.getFileMeta ⟨.replicate 16 2⟩ =
        some ⟨⟨.replicate 16 1⟩, Files.column FileType.generic.codepoint, true, none⟩ := by
    decide +kernel
  exact absurd (hlisted.symm.trans hserves.fileMeta) (by decide +kernel)

/-- The file shows exactly what its last stage posted if and only if the stage that created it
posted the same genesis, type, visibility and bundle. -/
theorem serves_last_iff (ops : List FileOp) {fileId ownerId : Id} {nowMs : UInt64}
    (hfinal : ((FileOp.finalizeVersion fileId 1 ownerId nowMs).apply
      (fileMachine.run ops).1.files).1.isOk = true) :
    ∃ first last, created ops fileId = some first ∧
      (fileMachine.run ops).1.staged fileId 1 = some last ∧
      (((FileOp.finalizeVersion fileId 1 ownerId nowMs).apply
        (fileMachine.run ops).1.files).2.Serves ownerId nowMs last.parsed ↔
          first.parsed.fileRow = last.parsed.fileRow) := by
  obtain ⟨first, last, entry, hcreated, hstaged, hfirst, hversion, hcommitted, hlookup⟩ :=
    Restage.committed_run ops hfinal
  obtain ⟨g, hgenesis⟩ := last.wellParsed.genesis.mp hversion
  refine ⟨first, last, hcreated, hstaged, ?_⟩
  rw [hfirst.fileRow]
  exact Restage.serves_iff hlookup hcommitted hversion last.wraps_ne_nil hgenesis

theorem serves_last_iff_unlistsByRestage :
    ∃ first last, created unlistsByRestage ⟨.replicate 16 2⟩ = some first ∧
      (fileMachine.run unlistsByRestage).1.staged ⟨.replicate 16 2⟩ 1 = some last ∧
      (((FileOp.finalizeVersion ⟨.replicate 16 2⟩ 1 ⟨.replicate 16 1⟩ 5).apply
        (fileMachine.run unlistsByRestage).1.files).2.Serves ⟨.replicate 16 1⟩ 5 last.parsed ↔
          first.parsed.fileRow = last.parsed.fileRow) :=
  serves_last_iff unlistsByRestage (by decide +kernel)

end MaxSecu
