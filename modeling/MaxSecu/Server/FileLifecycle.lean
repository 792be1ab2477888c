import MaxSecu.Server.VersionPhases

/-!
# The life of a file on the server

A file's finalized versions are numbered without a gap, versions below the current one keep only
their manifests, a finalized manifest stays until its file is deleted, a call on one file leaves the
others alone, and a call that fails leaves everything alone.

All of this holds after every run, except for what happens below version 1: nothing refuses a stage
of version 0, and no finalize ever drops it.  `lifecycle_iff` says which runs that spoils.
-/

namespace MaxSecu

open AssociationList

namespace FileStore

/-- The finalized versions of each file are 1 up to its current version. -/
def Numbered (files : FileStore) : Prop :=
  ∀ fileId entry, files.lookup fileId = some entry →
    ∀ v, entry.isFinalized v = true ↔ 1 ≤ v ∧ v ≤ entry.currentVersion

/-- Versions below the current one have no streams and no wraps. -/
def Emptied (files : FileStore) : Prop :=
  ∀ fileId entry v ver, files.lookup fileId = some entry → entry.versions.lookup v = some ver →
    v < entry.currentVersion → ver.streams = [] ∧ ver.wraps = []

end FileStore

namespace FileOp

/-- The call deletes the file: by name, or as a member of a bundle that its owner deletes. -/
def Deletes (files : FileStore) (fileId : Id) (entry : FileEntry) : FileOp → Prop
  | deleteFile targetId ownerId =>
    ∃ target, files.lookup targetId = some target ∧ target.ownerId = ownerId ∧
      (fileId = targetId ∨
        (target.fileType = BUNDLE_FILE_TYPE ∧ entry.bundleId = some targetId ∧
          entry.ownerId = ownerId))
  | _ => False

/-- The call leaves a staged version 0 below the current version of its file. -/
def StrandsVersionZero (files : FileStore) : FileOp → Prop
  | stageVersion st _ => st.parsed.version = 0 ∧
    ∃ entry, files.lookup st.parsed.fileId = some entry ∧ entry.ownerId = st.input.callerId ∧
      1 ≤ entry.currentVersion
  | finalizeVersion fileId version callerId _ => version = 1 ∧
    ∃ entry, files.lookup fileId = some entry ∧ entry.ownerId = callerId ∧
      entry.currentVersion = 0 ∧ 1 ∈ entry.versions ∧ 0 ∈ entry.versions
  | _ => False

end FileOp

structure Ledger.StepKept (l : Ledger) (op : FileOp) : Prop where
  immutable : ∀ fileId entry v ver, l.files.lookup fileId = some entry →
    entry.versions.lookup v = some ver → ver.finalized = true →
    (op.Deletes l.files fileId entry ∧ (l.step op).1.files.lookup fileId = none) ∨
      ∃ entry' ver', (l.step op).1.files.lookup fileId = some entry' ∧
        entry'.versions.lookup v = some ver' ∧ ver'.finalized = true ∧
        ver'.manifestBytes = ver.manifestBytes ∧ ver'.manifestSig = ver.manifestSig
  framed : ∀ fileId, fileId ≠ op.fileId →
    (l.step op).1.files.lookup fileId = l.files.lookup fileId ∨
      ∃ entry, l.files.lookup fileId = some entry ∧ op.Deletes l.files fileId entry ∧
        (l.step op).1.files.lookup fileId = none
  atomic : (op.apply l.files).1.isOk = false → (l.step op).1.files = l.files

/-- The life of the files through a run. -/
structure Lifecycle (ops : List FileOp) : Prop where
  numbered : ∀ done, done <+: ops → (fileMachine.run done).1.files.Numbered
  emptied : ∀ done, done <+: ops → (fileMachine.run done).1.files.Emptied
  kept : ∀ done op, done ++ [op] <+: ops → (fileMachine.run done).1.StepKept op

namespace FileLifecycle

variable {ops : List FileOp} {l : Ledger} {op : FileOp} {fileId : Id} {entry entry' : FileEntry}
  {v : UInt64} {ver : VersionEntry}

/-! ## What always holds -/

lemma numbered_of_recorded (h : AllRecorded ops l) : l.files.Numbered := by
  intro fileId entry hentry v
  rw [(h fileId entry hentry).isFinalized_iff v, UInt64.le_iff_toNat_le, UInt64.le_iff_toNat_le]
  exact Iff.rfl

lemma manifest_of_rowChange (hrow : RowChange l.files op entry entry')
    (hver : entry.versions.lookup v = some ver) (hfinal : ver.finalized = true) :
    ∃ ver', entry'.versions.lookup v = some ver' ∧ ver'.finalized = true ∧
      ver'.manifestBytes = ver.manifestBytes ∧ ver'.manifestSig = ver.manifestSig := by
  cases hrow with
  | @stage st nowMs _ _ hopen =>
    have hother : v ≠ st.parsed.version := by
      intro heq
      rw [FileEntry.isFinalized, ← heq, hver, Option.any_some] at hopen
      exact absurd hfinal (by simp [hopen])
    exact ⟨ver, by rw [FileEntry.lookup_stage, if_neg hother]; exact hver, hfinal, rfl, rfl⟩
  | @finalize fileId callerId version nowMs _ staged _ _ hstaged hopen hnext =>
    have hother : v ≠ version := by
      intro heq
      rw [heq, hstaged] at hver
      obtain rfl : staged = ver := Option.some.inj hver
      exact absurd hfinal (by simp [hopen])
    rw [FileEntry.lookup_finalize hnext, if_neg hother]
    by_cases hprior : 1 ≤ v.toNat ∧ v = entry.currentVersion
    · rw [if_pos hprior, ← hprior.2, hver]
      exact ⟨ver.supersede, rfl, hfinal, rfl, rfl⟩
    · rw [if_neg hprior]
      exact ⟨ver, hver, hfinal, rfl, rfl⟩
  | addWrap _ _ _ _ _ _ =>
    rw [FileEntry.lookup_addWrap]
    by_cases hv : v = entry.currentVersion
    · rw [if_pos hv, ← hv, hver]
      exact ⟨_, rfl, hfinal, rfl, rfl⟩
    · rw [if_neg hv]
      exact ⟨ver, hver, hfinal, rfl, rfl⟩
  | deleteWrap _ _ _ _ _ _ _ =>
    rw [FileEntry.lookup_deleteWrap]
    by_cases hv : v = entry.currentVersion
    · rw [if_pos hv, ← hv, hver]
      exact ⟨_, rfl, hfinal, rfl, rfl⟩
    · rw [if_neg hv]
      exact ⟨ver, hver, hfinal, rfl, rfl⟩
  | discard _ _ _ =>
    refine ⟨ver, ?_, hfinal, rfl, rfl⟩
    rw [FileEntry.lookup_discardStaged, hver]
    exact Option.filter_eq_some_iff.mpr ⟨rfl, hfinal⟩

lemma mem_deleteTargets {files : FileStore} {targetId ownerId : Id} {target : FileEntry}
    (hentry : files.lookup fileId = some entry) :
    fileId ∈ files.deleteTargets targetId ownerId target ↔
      fileId = targetId ∨ (target.fileType = BUNDLE_FILE_TYPE ∧
        entry.bundleId = some targetId ∧ entry.ownerId = ownerId) := by
  unfold FileStore.deleteTargets
  rw [List.mem_cons]
  refine or_congr_right ?_
  by_cases hbundle : target.fileType = BUNDLE_FILE_TYPE
  · rw [if_pos hbundle]
    simp only [List.mem_map, List.mem_filter, decide_eq_true_eq, hbundle, true_and]
    constructor
    · intro ⟨f, ⟨hf, hmember⟩, hid⟩
      have hrow : files.lookup fileId = some f.2 := by
        rw [← hid]
        exact AList.mem_lookup_iff.mpr hf
      obtain rfl : entry = f.2 := Option.some.inj (hentry.symm.trans hrow)
      exact hmember
    · intro hmember
      exact ⟨⟨fileId, entry⟩, ⟨AList.mem_lookup_iff.mp hentry, hmember⟩, rfl⟩
  · simp [hbundle]

/-- A row before a step is there after it, or is the row that the call changed, or is deleted. -/
lemma step_forward (op : FileOp) (hentry : l.files.lookup fileId = some entry) :
    (l.step op).1.files.lookup fileId = some entry ∨
      (op.fileId = fileId ∧ ∃ entry', RowChange l.files op entry entry' ∧
        (l.step op).1.files.lookup fileId = some entry') ∨
      (op.Deletes l.files fileId entry ∧ (l.step op).1.files.lookup fileId = none) := by
  obtain ⟨_, hsame⟩ | ⟨_, files, hchange, hstep⟩ := l.step_cases op
  · rw [hsame]
    exact .inl hentry
  · rw [hstep, Ledger.record_files]
    cases hchange with
    | @row op before after hrow =>
      rw [lookup_insert_eq]
      by_cases hid : fileId = op.fileId
      · obtain hbefore | ⟨hnone, _⟩ := rowChange_before hrow
        · rw [← hid, hentry] at hbefore
          obtain rfl : entry = before := Option.some.inj hbefore
          exact .inr (.inl ⟨hid.symm, after, hrow, if_pos hid⟩)
        · rw [← hid, hentry] at hnone
          exact absurd hnone (by simp)
      · rw [if_neg hid]
        exact .inl hentry
    | absent _ => exact .inl hentry
    | @deleted targetId ownerId target htarget howner =>
      rw [lookup_eraseAll]
      by_cases hmem : fileId ∈ l.files.deleteTargets targetId ownerId target
      · rw [if_pos hmem]
        exact .inr (.inr ⟨⟨target, htarget, howner, (mem_deleteTargets hentry).mp hmem⟩, rfl⟩)
      · rw [if_neg hmem]
        exact .inl hentry

/-- Every call keeps what it should. -/
theorem stepKept (l : Ledger) (op : FileOp) : l.StepKept op where
  immutable := by
    intro fileId entry v ver hentry hver hfinal
    obtain hsame | ⟨_, entry', hrow, hafter⟩ | hdeleted := step_forward op hentry
    · exact .inr ⟨entry, ver, hsame, hver, hfinal, rfl, rfl⟩
    · obtain ⟨ver', hver'⟩ := manifest_of_rowChange hrow hver hfinal
      exact .inr ⟨entry', ver', hafter, hver'⟩
    · exact .inl hdeleted
  framed := by
    intro fileId hother
    cases hentry : l.files.lookup fileId with
    | none =>
      left
      by_contra hne
      obtain ⟨entry', hafter⟩ := Option.ne_none_iff_exists'.mp hne
      obtain ⟨hbefore, _⟩ | ⟨hid, _⟩ := Ledger.step_row hafter
      · exact absurd (hentry.symm.trans hbefore) (by simp)
      · exact hother hid.symm
    | some entry =>
      obtain hsame | ⟨hid, _⟩ | ⟨hdeletes, hgone⟩ := step_forward op hentry
      · exact .inl hsame
      · exact absurd hid.symm hother
      · exact .inr ⟨entry, rfl, hdeletes, hgone⟩
  atomic := by
    intro hfail
    obtain ⟨_, hsame⟩ | ⟨hok, _⟩ := l.step_cases op
    · rw [hsame]
    · exact absurd hfail (by simp [hok])

/-! ## Version 0 -/

lemma eq_zero_of_not_finalized (h : Recorded ops l fileId entry)
    (hopen : entry.isFinalized v = false) (hlt : v < entry.currentVersion) : v = 0 := by
  have hnot := (h.isFinalized_iff v).not.mp (by simp [hopen])
  have hlt' := UInt64.lt_iff_toNat_lt.mp hlt
  rw [← UInt64.toNat_inj, UInt64.toNat_zero]
  omega

lemma strands_of_stage {st : CheckedStage} {nowMs : UInt64} (h : AllRecorded ops l)
    (hstage : FileStore.StageRow l.files st.parsed nowMs entry)
    (hopen : entry.isFinalized st.parsed.version = false)
    (hlt : st.parsed.version < entry.currentVersion) :
    FileOp.StrandsVersionZero l.files (.stageVersion st nowMs) := by
  have hcurrent : 1 ≤ entry.currentVersion := by
    have hlt' := UInt64.lt_iff_toNat_lt.mp hlt
    rw [UInt64.le_iff_toNat_le, UInt64.toNat_one]
    omega
  cases hstage with
  | create _ _ => exact absurd hcurrent (by simp [FileEntry.create])
  | restage hgenesis hentry =>
    have hzero := eq_zero_of_not_finalized (h _ _ hentry) hopen hlt
    have hone := st.wellParsed.genesis.mpr ⟨_, hgenesis⟩
    exact absurd (hzero.symm.trans hone) (by simp)
  | rotate _ hentry howner =>
    have hzero := eq_zero_of_not_finalized (h _ _ hentry) hopen hlt
    exact ⟨hzero, entry, hentry, howner.trans st.wellParsed.author, hcurrent⟩

/-- A commit leaves the versions below it empty, unless it is the first and version 0 is staged. -/
lemma emptied_finalize {callerId : Id} {version nowMs : UInt64} {staged : VersionEntry}
    (hemptied : l.files.Emptied) (hentry : l.files.lookup fileId = some entry)
    (howner : entry.ownerId = callerId) (hstaged : entry.versions.lookup version = some staged)
    (hnext : version.toNat = entry.currentVersion.toNat + 1)
    (hok : ¬ FileOp.StrandsVersionZero l.files (.finalizeVersion fileId version callerId nowMs))
    (hver : (entry.finalize version nowMs).versions.lookup v = some ver) (hlt : v < version) :
    ver.streams = [] ∧ ver.wraps = [] := by
  have hlt' := UInt64.lt_iff_toNat_lt.mp hlt
  have hself : v ≠ version := by
    intro heq
    rw [heq] at hlt'
    omega
  rw [FileEntry.lookup_finalize hnext, if_neg hself] at hver
  by_cases hprior : 1 ≤ v.toNat ∧ v = entry.currentVersion
  · rw [if_pos hprior] at hver
    obtain ⟨old, _, rfl⟩ := Option.map_eq_some_iff.mp hver
    exact ⟨rfl, rfl⟩
  · rw [if_neg hprior] at hver
    by_cases hbelow : v < entry.currentVersion
    · exact hemptied fileId entry v ver hentry hver hbelow
    · have hge := UInt64.lt_iff_toNat_lt.not.mp hbelow
      have heq : v = entry.currentVersion := UInt64.toNat_inj.mp (by omega)
      have hzero : v = 0 := by
        rw [← UInt64.toNat_inj, UInt64.toNat_zero]
        by_contra hne
        exact hprior ⟨by omega, heq⟩
      subst hzero
      have hone : version = 1 := by
        rw [← heq, UInt64.toNat_zero] at hnext
        exact UInt64.toNat_inj.mp hnext
      refine absurd ⟨hone, entry, hentry, howner, heq.symm, ?_, mem_iff_lookup.mpr ⟨ver, hver⟩⟩ hok
      rw [← hone]
      exact mem_iff_lookup.mpr ⟨staged, hstaged⟩

lemma emptied_step (h : AllRecorded ops l) (hemptied : l.files.Emptied)
    (hok : ¬ op.StrandsVersionZero l.files) :
    (l.step op).1.files.Emptied := by
  intro fileId entry' v ver hentry' hver hlt
  obtain ⟨hbefore, _⟩ | ⟨_, entry, files, hrow, _⟩ := Ledger.step_row hentry'
  · exact hemptied fileId entry' v ver hbefore hver hlt
  · cases hrow with
    | @stage st nowMs _ hstage hopen =>
      rw [FileEntry.lookup_stage] at hver
      by_cases hv : v = st.parsed.version
      · subst hv
        exact absurd (strands_of_stage h hstage hopen hlt) hok
      · rw [if_neg hv] at hver
        cases hstage with
        | create _ _ => exact absurd hver (by simp [FileEntry.create])
        | restage _ hentry => exact hemptied _ entry v ver hentry hver hlt
        | rotate _ hentry _ => exact hemptied _ entry v ver hentry hver hlt
    | finalize hentry howner hstaged _ hnext =>
      exact emptied_finalize hemptied hentry howner hstaged hnext hok hver hlt
    | addWrap _ hentry _ _ _ _ =>
      have hbelow : v < entry.currentVersion := hlt
      rw [FileEntry.lookup_addWrap, if_neg (UInt64.ne_of_lt hbelow)] at hver
      exact hemptied _ entry v ver hentry hver hbelow
    | deleteWrap _ hentry _ _ _ _ _ =>
      have hbelow : v < entry.currentVersion := hlt
      rw [FileEntry.lookup_deleteWrap, if_neg (UInt64.ne_of_lt hbelow)] at hver
      exact hemptied _ entry v ver hentry hver hbelow
    | discard hentry _ _ =>
      rw [FileEntry.lookup_discardStaged] at hver
      obtain ⟨hold, _⟩ := Option.filter_eq_some_iff.mp hver
      exact hemptied _ entry v ver hentry hold hlt

lemma not_emptied_of_stage {st : CheckedStage} {nowMs : UInt64} (h : AllRecorded ops l)
    (hstrands : FileOp.StrandsVersionZero l.files (.stageVersion st nowMs)) :
    ¬ (l.step (.stageVersion st nowMs)).1.files.Emptied := by
  obtain ⟨hzero, entry, hentry, howner, hcurrent⟩ := hstrands
  have hrotation : st.parsed.genesis = none := by
    by_contra hne
    have hone := st.wellParsed.genesis.mpr (Option.ne_none_iff_exists'.mp hne)
    exact absurd (hzero.symm.trans hone) (by simp)
  have hopen : entry.isFinalized st.parsed.version = false :=
    (h _ _ hentry).not_finalized (.inl (by rw [hzero]; rfl))
  have hstage : FileStore.StageRow l.files st.parsed nowMs entry :=
    .rotate hrotation hentry (howner.trans st.wellParsed.author.symm)
  have hver : (entry.stage st.parsed).versions.lookup 0 = some (.ofStage st.parsed) := by
    rw [FileEntry.lookup_stage, if_pos hzero.symm]
  have hlt : (0 : UInt64) < (entry.stage st.parsed).currentVersion := by
    have hpos := UInt64.le_iff_toNat_le.mp hcurrent
    rw [UInt64.lt_iff_toNat_lt, UInt64.toNat_zero]
    exact hpos
  intro hemptied
  rw [Ledger.step_stageVersion hstage hopen] at hemptied
  exact st.wraps_ne_nil (hemptied _ _ 0 _ (AList.lookup_insert _) hver hlt).2

lemma not_emptied_of_finalize {callerId : Id} {version nowMs : UInt64} (h : AllRecorded ops l)
    (hstrands : FileOp.StrandsVersionZero l.files
      (.finalizeVersion fileId version callerId nowMs)) :
    ¬ (l.step (.finalizeVersion fileId version callerId nowMs)).1.files.Emptied := by
  obtain ⟨rfl, entry, hentry, howner, hcurrent, hone, hzero⟩ := hstrands
  obtain ⟨staged, hstaged⟩ := mem_iff_lookup.mp hone
  obtain ⟨old, hold⟩ := mem_iff_lookup.mp hzero
  have hopen : ∀ v ver, entry.versions.lookup v = some ver → ver.finalized = false := by
    intro v ver hver
    have hnot : entry.isFinalized v = false := by
      apply (h _ _ hentry).not_finalized
      rw [hcurrent, UInt64.toNat_zero]
      omega
    rwa [FileEntry.isFinalized, hver, Option.any_some] at hnot
  have hnext : (1 : UInt64).toNat = entry.currentVersion.toNat + 1 := by
    rw [hcurrent]
    rfl
  have hver : (entry.finalize 1 nowMs).versions.lookup 0 = some old := by
    rw [FileEntry.lookup_finalize hnext, if_neg (by simp), if_neg (by simp)]
    exact hold
  have hlt : (0 : UInt64) < (entry.finalize 1 nowMs).currentVersion := UInt64.zero_lt_one
  intro hemptied
  rw [Ledger.step_finalizeVersion hentry howner hstaged (hopen 1 staged hstaged) hnext]
    at hemptied
  have hwraps := (hemptied _ _ 0 _ (AList.lookup_insert _) hver hlt).2
  obtain ⟨st, hrecord⟩ := (h _ _ hentry).version 0 old hold
  rw [hrecord.phase.eq_ofStage (hopen 0 old hold)] at hwraps
  exact st.wraps_ne_nil hwraps

lemma not_strands_of_emptied (h : AllRecorded ops l)
    (hemptied : (l.step op).1.files.Emptied) : ¬ op.StrandsVersionZero l.files := by
  intro hstrands
  cases op with
  | stageVersion st nowMs => exact not_emptied_of_stage h hstrands hemptied
  | finalizeVersion fileId version callerId nowMs =>
    exact not_emptied_of_finalize h hstrands hemptied
  | _ => exact hstrands

/-- All states of a run have empty superseded versions exactly if no call strands version 0. -/
lemma emptied_iff (ops : List FileOp) :
    (∀ done, done <+: ops → (fileMachine.run done).1.files.Emptied) ↔
      ∀ done op, done ++ [op] <+: ops →
        ¬ op.StrandsVersionZero (fileMachine.run done).1.files := by
  have hinit : fileMachine.init.files.Emptied := by
    intro fileId entry v ver hentry
    exact absurd hentry (by simp [fileMachine])
  refine @Machine.run_iff _ _ _ fileMachine
    (fun ops l => AllRecorded ops l ∧ l.files.Emptied)
    (fun _ l => l.files.Emptied) (fun l op => ¬ op.StrandsVersionZero l.files)
    ⟨recorded_run [], hinit⟩ (fun _ _ h => h.2) ?_ ?_ ops
  · intro ops l op hinv hok
    obtain ⟨h, hemptied⟩ := hinv
    exact ⟨fun _ _ hentry => recorded_step h hentry, emptied_step h hemptied hok⟩
  · intro ops l op hinv hemptied
    exact not_strands_of_emptied hinv.1 hemptied

end FileLifecycle

/-- The life of the files goes as it should through a run, if and only if no call of the run leaves
a staged version 0 below a current version: no owner stages version 0 of a file that has a finalized
version, and none finalizes version 1 while version 0 is staged. -/
theorem lifecycle_iff (ops : List FileOp) :
    Lifecycle ops ↔ ∀ done op, done ++ [op] <+: ops →
      ¬ op.StrandsVersionZero (fileMachine.run done).1.files := by
  rw [← FileLifecycle.emptied_iff ops]
  constructor
  · intro h
    exact h.emptied
  · intro hemptied
    exact
      { numbered := fun done _ => FileLifecycle.numbered_of_recorded (recorded_run done)
        emptied := hemptied
        kept := fun done op _ => FileLifecycle.stepKept (fileMachine.run done).1 op }

/-- An owner creates a file, finalizes it, and stages version 0 of it. -/
def stagesVersionZero : List FileOp :=
  [.stageVersion (.plain ⟨.replicate 16 2⟩ ⟨.replicate 16 1⟩ 1) 0,
    .finalizeVersion ⟨.replicate 16 2⟩ 1 ⟨.replicate 16 1⟩ 0,
    .stageVersion (.plain ⟨.replicate 16 2⟩ ⟨.replicate 16 1⟩ 0) 0]

/-- Version 0 is staged below the current version 1, with its wrap. -/
theorem lifecycle_versionZero : ¬ Lifecycle stagesVersionZero := by
  intro h
  have hrow : ((fileMachine.run stagesVersionZero).1.files.lookup ⟨.replicate 16 2⟩).map
      (fun entry => (entry.currentVersion, (entry.versions.lookup 0).map fun ver =>
        ver.wraps.length)) = some (1, some 1) := by
    decide +kernel
  obtain ⟨entry, hentry, hfields⟩ := Option.map_eq_some_iff.mp hrow
  obtain ⟨hcurrent, hzero⟩ := Prod.mk.inj hfields
  obtain ⟨ver, hver, hwraps⟩ := Option.map_eq_some_iff.mp hzero
  have hlt : 0 < entry.currentVersion := by
    rw [hcurrent]
    exact UInt64.zero_lt_one
  have hnone := (h.emptied _ List.prefix_rfl _ entry 0 ver hentry hver hlt).2
  rw [hnone] at hwraps
  exact absurd hwraps (by simp)

end MaxSecu
