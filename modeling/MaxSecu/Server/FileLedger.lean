import MaxSecu.Framework.Machine
import MaxSecu.Server.MemoryStore

/-!
# Runs of the file store

The store as a machine that takes one call at a time from any caller.  Beside the store runs a
ledger that no call reads: the last stage that each version was put there by, and the stage that it
was finalized from.

What a call does to a row is said once, by `RowChange`, and to the store by `Change`.
`Ledger.step_row` is the view of a step through lookups.
-/

namespace MaxSecu

open ExceptRules GuardedUpdate AssociationList

/-- A stage whose request passed the checks. -/
structure CheckedStage where
  input : StageInput
  parsed : ParsedStage
  checked : Files.parseStage input = .ok parsed

namespace CheckedStage

lemma wellParsed (st : CheckedStage) : Files.WellParsed st.input st.parsed :=
  Files.parseStage_spec st.checked

lemma not_any_isHalfShape (st : CheckedStage) :
    st.parsed.wraps.any WrapInput.isHalfShape = false := by
  rw [List.any_eq_false]
  intro w hw
  simp [st.wellParsed.wraps w hw]

lemma wraps_ne_nil (st : CheckedStage) : st.parsed.wraps ≠ [] := by
  obtain ⟨w, hw, _⟩ := st.wellParsed.recovery
  exact List.ne_nil_of_mem hw

/-- What a manifest and its wraps must satisfy for the checks of a stage to pass. -/
structure Admissible (m : Manifest) (wraps : List WrapInput) : Prop where
  wellFormed : m.WellFormed
  size : ¬ (m.chunkSize < Files.CHUNK_SIZE_MIN ∨ m.chunkSize > Files.CHUNK_SIZE_MAX)
  bound : m.streams.any (Files.oversized m.chunkSize) = false
  whole : wraps.any WrapInput.isHalfShape = false
  recovery : wraps.any WrapInput.isRecovery = true

section Authored

variable (m : Manifest) (wraps : List WrapInput) (listed : Bool) (bundleId : Option Id)

/-- The request of a manifest's author to stage it. -/
def authoredInput : StageInput where
  fileId := m.fileId
  callerId := m.authorId
  fileTypeAdvisory := 0
  genesis :=
    if m.version = 1 then
      some ⟨encode (⟨m.fileId, m.authorId, 1, ⟨0⟩⟩ : Genesis), .replicate 64 0⟩
    else none
  manifestBytes := encode m
  manifestSig := .replicate 64 0
  wraps := wraps
  streamTotals := []
  proposedVersion := m.version
  listed := listed
  bundleId := bundleId

def authoredParsed : ParsedStage where
  fileId := m.fileId
  fileType := Files.column m.fileType.codepoint
  version := m.version
  authorId := m.authorId
  alg := Files.suiteColumn m.alg
  manifestBytes := encode m
  manifestSig := .replicate 64 0
  genesis :=
    if m.version = 1 then
      some ⟨m.authorId, 1, encode (⟨m.fileId, m.authorId, 1, ⟨0⟩⟩ : Genesis), .replicate 64 0⟩
    else none
  streams := m.streams.map (Files.streamRow (authoredInput m wraps listed bundleId) m)
  wraps := wraps
  recoveryPresent := m.recoveryPresent
  listed := listed
  bundleId := bundleId

variable {m wraps} in
lemma parseStage_authoredInput (h : Admissible m wraps) :
    Files.parseStage (authoredInput m wraps listed bundleId) =
      .ok (authoredParsed m wraps listed bundleId) := by
  have hmanifest : decode Manifest (authoredInput m wraps listed bundleId).manifestBytes = .ok m :=
    decode_encode h.wellFormed
  have hgenesis : decode Genesis (encode (⟨m.fileId, m.authorId, 1, ⟨0⟩⟩ : Genesis)) =
      .ok ⟨m.fileId, m.authorId, 1, ⟨0⟩⟩ := decode_encode trivial
  have hparsed : Files.parseGenesis (authoredInput m wraps listed bundleId) m.version =
      .ok (authoredParsed m wraps listed bundleId).genesis := by
    unfold Files.parseGenesis
    by_cases hversion : m.version = 1
    · have hinput : (authoredInput m wraps listed bundleId).genesis =
          some ⟨encode (⟨m.fileId, m.authorId, 1, ⟨0⟩⟩ : Genesis), .replicate 64 0⟩ :=
        if_pos hversion
      have hrow : (authoredParsed m wraps listed bundleId).genesis = some ⟨m.authorId, 1,
          encode (⟨m.fileId, m.authorId, 1, ⟨0⟩⟩ : Genesis), .replicate 64 0⟩ :=
        if_pos hversion
      rw [hinput, hrow, Option.elim_some]
      simp only [guard_eq_ok, bind_eq_ok, mapError_eq_ok, pure_eq_ok, not_not]
      exact ⟨hversion, _, hgenesis, rfl, rfl, rfl⟩
    · have hinput : (authoredInput m wraps listed bundleId).genesis = none := if_neg hversion
      have hrow : (authoredParsed m wraps listed bundleId).genesis = none := if_neg hversion
      rw [hinput, hrow, Option.elim_none, if_neg hversion]
      rfl
  unfold Files.parseStage
  simp only [bind_eq_ok, guard_eq_ok, pure_eq_ok, mapError_eq_ok, not_not]
  exact ⟨m, hmanifest, rfl, h.size, by rw [h.bound]; simp, rfl,
    by show ¬ wraps.any WrapInput.isHalfShape = true; rw [h.whole]; simp, h.recovery, rfl, _,
    hparsed, rfl⟩

variable {m wraps} in
def authored (h : Admissible m wraps) : CheckedStage :=
  ⟨authoredInput m wraps listed bundleId, _, parseStage_authoredInput listed bundleId h⟩

end Authored

section Plain

variable (fileId callerId : Id) (version : UInt64)

/-- The manifest of a file with one chunk of content. -/
def plainManifest : Manifest where
  fileId := fileId
  version := version
  fileType := .generic
  alg := .v1
  chunkSize := Files.CHUNK_SIZE_MIN
  dekCommit := ⟨.replicate 32 0⟩
  streams := [⟨.content, .none, 1, ⟨.replicate 32 0⟩⟩]
  recoveryPresent := true
  authorId := callerId
  createdAt := ⟨0⟩

def plainGenesis : Genesis := ⟨fileId, callerId, 1, ⟨0⟩⟩

/-- A request to stage such a file, with a wrap for recovery and no other. -/
def plainInput : StageInput where
  fileId := fileId
  callerId := callerId
  fileTypeAdvisory := 0
  genesis :=
    if version = 1 then some ⟨encode (plainGenesis fileId callerId), .replicate 64 0⟩ else none
  manifestBytes := encode (plainManifest fileId callerId version)
  manifestSig := .replicate 64 0
  wraps := [⟨RECOVERY_ID, 2, [], 1, callerId, [], .replicate 64 0⟩]
  streamTotals := []
  proposedVersion := version
  listed := true
  bundleId := none

def plainParsed : ParsedStage where
  fileId := fileId
  fileType := Files.column FileType.generic.codepoint
  version := version
  authorId := callerId
  alg := 1
  manifestBytes := encode (plainManifest fileId callerId version)
  manifestSig := .replicate 64 0
  genesis :=
    if version = 1 then
      some ⟨callerId, 1, encode (plainGenesis fileId callerId), .replicate 64 0⟩
    else
      none
  streams := (plainManifest fileId callerId version).streams.map
    (Files.streamRow (plainInput fileId callerId version)
      (plainManifest fileId callerId version))
  wraps := (plainInput fileId callerId version).wraps
  recoveryPresent := true
  listed := true
  bundleId := none

lemma plain_admissible : Admissible (plainManifest fileId callerId version)
    [⟨RECOVERY_ID, 2, [], 1, callerId, [], .replicate 64 0⟩] where
  wellFormed := List.pairwise_singleton _ _
  size := by
    show ¬ (Files.CHUNK_SIZE_MIN < Files.CHUNK_SIZE_MIN ∨
      Files.CHUNK_SIZE_MIN > Files.CHUNK_SIZE_MAX)
    decide
  bound := by
    show ([⟨.content, .none, 1, ⟨.replicate 32 0⟩⟩] : List Stream).any
      (Files.oversized Files.CHUNK_SIZE_MIN) = false
    decide
  whole := by simp [WrapInput.isHalfShape]
  recovery := by simp [WrapInput.isRecovery]

lemma parseStage_plainInput : Files.parseStage (plainInput fileId callerId version) =
    .ok (plainParsed fileId callerId version) :=
  parseStage_authoredInput true none (plain_admissible fileId callerId version)

def plain : CheckedStage :=
  ⟨plainInput fileId callerId version, _, parseStage_plainInput fileId callerId version⟩

end Plain

end CheckedStage

/-- A call that may change the file rows. -/
inductive FileOp
  | stageVersion (st : CheckedStage) (nowMs : UInt64)
  | finalizeVersion (fileId : Id) (version : UInt64) (callerId : Id) (nowMs : UInt64)
  | addWrap (fileId : Id) (wrap : WrapInput) (callerId : Id) (nowMs : UInt64)
  | deleteWrap (fileId recipientId callerId : Id)
  | discardUnfinalized (fileId callerId : Id)
  | deleteFile (fileId ownerId : Id)

inductive FileReply
  | stageVersion (r : Except StageError UInt64)
  | finalizeVersion (r : Except FinalizeError Unit)
  | addWrap (r : Except AddWrapError Unit)
  | deleteWrap (r : Except DeleteWrapError Unit)
  | discardUnfinalized (r : Except DiscardError (List String))
  | deleteFile (r : Except DeleteError (List String))

namespace FileReply

def isOk : FileReply → Bool
  | stageVersion r => r.isOk
  | finalizeVersion r => r.isOk
  | addWrap r => r.isOk
  | deleteWrap r => r.isOk
  | discardUnfinalized r => r.isOk
  | deleteFile r => r.isOk

end FileReply

namespace FileOp

def fileId : FileOp → Id
  | stageVersion st _ => st.parsed.fileId
  | finalizeVersion fileId _ _ _ => fileId
  | addWrap fileId _ _ _ => fileId
  | deleteWrap fileId _ _ => fileId
  | discardUnfinalized fileId _ => fileId
  | deleteFile fileId _ => fileId

/-- The reply of the call, and the rows it leaves. -/
def apply (files : FileStore) : FileOp → FileReply × FileStore
  | stageVersion st nowMs =>
    let done := runFrom (FileStore.stageVersion st.parsed nowMs) files
    (.stageVersion done.1, done.2)
  | finalizeVersion fileId version callerId nowMs =>
    let done := runFrom (FileStore.finalizeVersion fileId version callerId nowMs) files
    (.finalizeVersion done.1, done.2)
  | addWrap fileId wrap callerId nowMs =>
    let done := runFrom (FileStore.addWrap fileId wrap callerId nowMs) files
    (.addWrap done.1, done.2)
  | deleteWrap fileId recipientId callerId =>
    let done := runFrom (FileStore.deleteWrap fileId recipientId callerId) files
    (.deleteWrap done.1, done.2)
  | discardUnfinalized fileId callerId =>
    let done := runFrom (FileStore.discardUnfinalized fileId callerId) files
    (.discardUnfinalized done.1, done.2)
  | deleteFile fileId ownerId =>
    let done := runFrom (FileStore.deleteFile fileId ownerId) files
    (.deleteFile done.1, done.2)

end FileOp

/-- The file rows, with the stages on record for each version of each file. -/
structure Ledger where
  files : FileStore
  /-- The last stage of the version that succeeded. -/
  staged : Id → UInt64 → Option CheckedStage
  /-- The stage that was in place when the version was last finalized. -/
  committed : Id → UInt64 → Option CheckedStage

namespace Ledger

def record (l : Ledger) (files : FileStore) : FileOp → Ledger
  | .stageVersion st _ =>
    { files := files
      staged := Function.update l.staged st.parsed.fileId
        (Function.update (l.staged st.parsed.fileId) st.parsed.version (some st))
      committed := l.committed }
  | .finalizeVersion fileId version _ _ =>
    { files := files
      staged := l.staged
      committed := Function.update l.committed fileId
        (Function.update (l.committed fileId) version (l.staged fileId version)) }
  | _ => { l with files := files }

def step (l : Ledger) (op : FileOp) : Ledger × List FileReply :=
  let done := op.apply l.files
  (if done.1.isOk then l.record done.2 op else { l with files := done.2 }, [done.1])

end Ledger

def fileMachine : Machine Ledger FileOp FileReply where
  init := ⟨∅, fun _ _ => none, fun _ _ => none⟩
  step := Ledger.step

/-! ## What one call does -/

/-- The row of the file a successful call names, before and after. -/
inductive RowChange (files : FileStore) : FileOp → FileEntry → FileEntry → Prop
  | stage {st : CheckedStage} {nowMs : UInt64} {entry : FileEntry} :
      FileStore.StageRow files st.parsed nowMs entry →
      entry.isFinalized st.parsed.version = false →
      RowChange files (.stageVersion st nowMs) entry (entry.stage st.parsed)
  | finalize {fileId callerId : Id} {version nowMs : UInt64} {entry : FileEntry}
      {ver : VersionEntry} :
      files.lookup fileId = some entry → entry.ownerId = callerId →
      entry.versions.lookup version = some ver → ver.finalized = false →
      version.toNat = entry.currentVersion.toNat + 1 →
      RowChange files (.finalizeVersion fileId version callerId nowMs) entry
        (entry.finalize version nowMs)
  | addWrap {fileId callerId : Id} {wrap : WrapInput} {nowMs : UInt64} {entry : FileEntry}
      {ver : VersionEntry} :
      wrap.isReshareBy callerId = true → files.lookup fileId = some entry →
      entry.currentVersion ≠ 0 → entry.versions.lookup entry.currentVersion = some ver →
      ver.finalized = true → (∃ w ∈ ver.wraps, w.recipientId = callerId) →
      RowChange files (.addWrap fileId wrap callerId nowMs) entry (entry.addWrap wrap nowMs)
  | deleteWrap {fileId recipientId callerId : Id} {entry : FileEntry} {ver : VersionEntry}
      {target : WrapInput} :
      recipientId ≠ RECOVERY_ID → files.lookup fileId = some entry → entry.currentVersion ≠ 0 →
      entry.versions.lookup entry.currentVersion = some ver →
      (ver.wraps.find? fun w => w.recipientId = recipientId) = some target →
      target.recipientType ≠ 2 → callerId = entry.ownerId ∨ callerId = target.grantedBy →
      RowChange files (.deleteWrap fileId recipientId callerId) entry
        (entry.deleteWrap recipientId)
  | discard {fileId callerId : Id} {entry : FileEntry} :
      files.lookup fileId = some entry → entry.ownerId = callerId → entry.currentVersion = 0 →
      RowChange files (.discardUnfinalized fileId callerId) entry entry.discardStaged

lemma rowChange_before {files : FileStore} {op : FileOp} {entry entry' : FileEntry}
    (hrow : RowChange files op entry entry') :
    files.lookup op.fileId = some entry ∨
      (files.lookup op.fileId = none ∧ entry.versions = ∅) := by
  cases hrow with
  | stage hstage _ =>
    cases hstage with
    | create _ hnew => exact .inr ⟨hnew, rfl⟩
    | restage _ hentry => exact .inl hentry
    | rotate _ hentry _ => exact .inl hentry
  | finalize hentry _ _ _ _ => exact .inl hentry
  | addWrap _ hentry _ _ _ _ => exact .inl hentry
  | deleteWrap _ hentry _ _ _ _ _ => exact .inl hentry
  | discard hentry _ _ => exact .inl hentry

/-- The rows after a successful call. -/
inductive Change (files : FileStore) : FileOp → FileStore → Prop
  | row {op : FileOp} {entry entry' : FileEntry} : RowChange files op entry entry' →
      Change files op (files.insert op.fileId entry')
  | absent {fileId callerId : Id} : files.lookup fileId = none →
      Change files (.discardUnfinalized fileId callerId) files
  | deleted {fileId ownerId : Id} {target : FileEntry} : files.lookup fileId = some target →
      target.ownerId = ownerId →
      Change files (.deleteFile fileId ownerId)
        (eraseAll (files.deleteTargets fileId ownerId target) files)

/-- A call fails and leaves the rows as they were, or it succeeds and changes them. -/
theorem FileOp.apply_cases (files : FileStore) (op : FileOp) :
    ((op.apply files).1.isOk = false ∧ (op.apply files).2 = files) ∨
      ((op.apply files).1.isOk = true ∧ Change files op (op.apply files).2) := by
  cases op with
  | stageVersion st nowMs =>
    obtain hfail | ⟨v, files', hrun⟩ :=
      (FileStore.stageVersion_atomic st.parsed nowMs).run_cases files
    · exact .inl hfail
    · obtain ⟨_, _, entry, hrow, hopen, rfl⟩ := FileStore.stageVersion_eq_ok.mp hrun
      simp only [apply, hrun]
      exact .inr ⟨rfl, .row (.stage hrow hopen)⟩
  | finalizeVersion fileId version callerId nowMs =>
    obtain hfail | ⟨v, files', hrun⟩ :=
      (FileStore.finalizeVersion_atomic fileId version callerId nowMs).run_cases files
    · exact .inl hfail
    · obtain ⟨entry, ver, hentry, howner, hver, hstaged, hversion, rfl⟩ :=
        FileStore.finalizeVersion_eq_ok.mp hrun
      simp only [apply, hrun]
      exact .inr ⟨rfl, .row (.finalize hentry howner hver hstaged hversion)⟩
  | addWrap fileId wrap callerId nowMs =>
    obtain hfail | ⟨v, files', hrun⟩ :=
      (FileStore.addWrap_atomic fileId wrap callerId nowMs).run_cases files
    · exact .inl hfail
    · obtain ⟨hreshare, entry, hentry, hcurrent, ver, hver, hfinal, hholds, rfl⟩ :=
        FileStore.addWrap_eq_ok.mp hrun
      simp only [apply, hrun]
      exact .inr ⟨rfl, .row (.addWrap hreshare hentry hcurrent hver hfinal hholds)⟩
  | deleteWrap fileId recipientId callerId =>
    obtain hfail | ⟨v, files', hrun⟩ :=
      (FileStore.deleteWrap_atomic fileId recipientId callerId).run_cases files
    · exact .inl hfail
    · obtain ⟨hid, entry, hentry, hcurrent, ver, hver, target, htarget, htype, hmay, rfl⟩ :=
        FileStore.deleteWrap_eq_ok.mp hrun
      simp only [apply, hrun]
      exact .inr ⟨rfl, .row (.deleteWrap hid hentry hcurrent hver htarget htype hmay)⟩
  | discardUnfinalized fileId callerId =>
    obtain hfail | ⟨refs, files', hrun⟩ :=
      (FileStore.discardUnfinalized_atomic fileId callerId).run_cases files
    · exact .inl hfail
    · simp only [apply, hrun]
      obtain ⟨habsent, _, rfl⟩ | ⟨entry, hentry, howner, hcurrent, _, rfl⟩ :=
        FileStore.discardUnfinalized_eq_ok.mp hrun
      · exact .inr ⟨rfl, .absent habsent⟩
      · exact .inr ⟨rfl, .row (.discard hentry howner hcurrent)⟩
  | deleteFile fileId ownerId =>
    obtain hfail | ⟨refs, files', hrun⟩ :=
      (FileStore.deleteFile_atomic fileId ownerId).run_cases files
    · exact .inl hfail
    · obtain ⟨target, htarget, howner, _, rfl⟩ := FileStore.deleteFile_eq_ok.mp hrun
      simp only [apply, hrun, FileStore.removeAll_snd]
      exact .inr ⟨rfl, .deleted htarget howner⟩

namespace FileEntry

variable {entry : FileEntry} {p : ParsedStage} {version nowMs v : UInt64} {wrap : WrapInput}
  {recipientId : Id}

lemma lookup_stage : (entry.stage p).versions.lookup v =
    if v = p.version then some (.ofStage p) else entry.versions.lookup v :=
  lookup_insert_eq

lemma lookup_finalize (h : version.toNat = entry.currentVersion.toNat + 1) :
    (entry.finalize version nowMs).versions.lookup v =
      if v = version then (entry.versions.lookup version).map .finalize
      else if 1 ≤ v.toNat ∧ v = entry.currentVersion then
        (entry.versions.lookup entry.currentVersion).map .supersede
      else entry.versions.lookup v := by
  have hne : entry.currentVersion ≠ version := by
    intro heq
    rw [heq] at h
    omega
  show AList.lookup v (if 1 ≤ entry.currentVersion then _ else _) = _
  by_cases hfirst : 1 ≤ entry.currentVersion
  · have hpos : 1 ≤ entry.currentVersion.toNat := UInt64.le_iff_toNat_le.mp hfirst
    rw [if_pos hfirst, lookup_adjust, lookup_adjust, lookup_adjust, if_neg hne]
    by_cases hprior : v = entry.currentVersion
    · rw [if_pos hprior, if_neg (by rw [hprior]; exact hne), if_pos (by rw [hprior]; simp [hpos])]
    · rw [if_neg hprior]
      simp [hprior]
  · have hzero : ¬ (1 ≤ v.toNat ∧ v = entry.currentVersion) := by
      rintro ⟨hpos, rfl⟩
      exact hfirst (UInt64.le_iff_toNat_le.mpr hpos)
    rw [if_neg hfirst, lookup_adjust, if_neg hzero]

lemma lookup_addWrap : (entry.addWrap wrap nowMs).versions.lookup v =
    if v = entry.currentVersion then
      (entry.versions.lookup entry.currentVersion).map (.addWrap wrap)
    else entry.versions.lookup v :=
  lookup_adjust

lemma lookup_deleteWrap : (entry.deleteWrap recipientId).versions.lookup v =
    if v = entry.currentVersion then
      (entry.versions.lookup entry.currentVersion).map (.deleteWrap recipientId)
    else entry.versions.lookup v :=
  lookup_adjust

lemma mem_stagedKeys :
    v ∈ entry.stagedKeys ↔ ∃ ver, entry.versions.lookup v = some ver ∧ ver.finalized = false := by
  unfold stagedKeys
  simp only [List.mem_map, List.mem_filter, Bool.not_eq_true, decide_eq_true_eq]
  constructor
  · intro ⟨x, ⟨hx, hstaged⟩, hv⟩
    exact ⟨x.2, by rw [← hv]; exact AList.mem_lookup_iff.mpr hx, hstaged⟩
  · intro ⟨ver, hver, hstaged⟩
    exact ⟨⟨v, ver⟩, ⟨AList.mem_lookup_iff.mp hver, hstaged⟩, rfl⟩

lemma lookup_discardStaged : entry.discardStaged.versions.lookup v =
    (entry.versions.lookup v).filter VersionEntry.finalized := by
  show (eraseAll entry.stagedKeys entry.versions).lookup v = _
  rw [lookup_eraseAll]
  cases hver : entry.versions.lookup v with
  | none => simp
  | some ver =>
    cases hfinal : ver.finalized with
    | true =>
      have hkept : v ∉ entry.stagedKeys := by
        rw [mem_stagedKeys]
        rintro ⟨ver', hver', hstaged⟩
        obtain rfl : ver = ver' := Option.some.inj (hver.symm.trans hver')
        exact absurd hfinal (by simp [hstaged])
      simp [hkept, Option.filter, hfinal]
    | false =>
      have hgone : v ∈ entry.stagedKeys := mem_stagedKeys.mpr ⟨ver, hver, hfinal⟩
      simp [hgone, Option.filter, hfinal]

end FileEntry

namespace Ledger

variable {l : Ledger} {op : FileOp} {fileId : Id} {entry entry' : FileEntry}

lemma step_cases (l : Ledger) (op : FileOp) :
    ((op.apply l.files).1.isOk = false ∧ (l.step op).1 = l) ∨
      ((op.apply l.files).1.isOk = true ∧
        ∃ files, Change l.files op files ∧ (l.step op).1 = l.record files op) := by
  obtain ⟨hfail, hfiles⟩ | ⟨hok, hchange⟩ := op.apply_cases l.files
  · left
    refine ⟨hfail, ?_⟩
    show (if (op.apply l.files).1.isOk then _ else _) = l
    rw [hfail, if_neg (by simp), hfiles]
  · right
    refine ⟨hok, _, hchange, ?_⟩
    show (if (op.apply l.files).1.isOk then _ else _) = _
    rw [hok, if_pos rfl]

lemma record_files {files : FileStore} : (l.record files op).files = files := by
  cases op <;> rfl

lemma step_files : (l.step op).1.files = (op.apply l.files).2 := by
  show (if (op.apply l.files).1.isOk then _ else _ : Ledger).files = _
  by_cases hok : (op.apply l.files).1.isOk = true
  · rw [if_pos hok, record_files]
  · rw [if_neg hok]

lemma record_of_ne {files : FileStore} (h : op.fileId ≠ fileId) :
    (l.record files op).staged fileId = l.staged fileId ∧
      (l.record files op).committed fileId = l.committed fileId := by
  cases op with
  | stageVersion st nowMs => exact ⟨Function.update_of_ne (Ne.symm h) _ _, rfl⟩
  | finalizeVersion f version callerId nowMs =>
    exact ⟨rfl, Function.update_of_ne (Ne.symm h) _ _⟩
  | _ => exact ⟨rfl, rfl⟩

lemma staged_record {files : FileStore} {st : CheckedStage} {nowMs : UInt64} :
    (l.record files (.stageVersion st nowMs)).staged st.parsed.fileId st.parsed.version =
      some st := by
  show Function.update l.staged _ _ _ _ = _
  rw [Function.update_self, Function.update_self]

lemma staged_record_of_ne {files : FileStore} {v : UInt64}
    (h : ¬ ∃ st nowMs, op = .stageVersion st nowMs ∧ v = st.parsed.version) :
    (l.record files op).staged fileId v = l.staged fileId v := by
  cases op with
  | stageVersion st nowMs =>
    have hv : v ≠ st.parsed.version := fun heq => h ⟨st, nowMs, rfl, heq⟩
    show Function.update l.staged _ _ _ _ = _
    by_cases hid : fileId = st.parsed.fileId
    · rw [hid, Function.update_self, Function.update_of_ne hv]
    · rw [Function.update_of_ne hid]
  | _ => rfl

lemma committed_record {files : FileStore} {callerId : Id} {version nowMs v : UInt64} :
    (l.record files (.finalizeVersion fileId version callerId nowMs)).committed fileId v =
      if v = version then l.staged fileId version else l.committed fileId v := by
  show Function.update l.committed _ _ _ _ = _
  rw [Function.update_self]
  by_cases hv : v = version
  · rw [if_pos hv, hv, Function.update_self]
  · rw [if_neg hv, Function.update_of_ne hv]

lemma step_stageVersion {st : CheckedStage} {nowMs : UInt64}
    (hstage : FileStore.StageRow l.files st.parsed nowMs entry)
    (hopen : entry.isFinalized st.parsed.version = false) :
    (l.step (.stageVersion st nowMs)).1 =
      l.record (l.files.insert st.parsed.fileId (entry.stage st.parsed))
        (.stageVersion st nowMs) := by
  have hrun := FileStore.stageVersion_eq_ok.mpr
    ⟨st.not_any_isHalfShape, rfl, entry, hstage, hopen, rfl⟩
  simp only [step, FileOp.apply, hrun]
  rfl

lemma step_finalizeVersion {callerId : Id} {version nowMs : UInt64} {ver : VersionEntry}
    (hentry : l.files.lookup fileId = some entry) (howner : entry.ownerId = callerId)
    (hver : entry.versions.lookup version = some ver) (hstaged : ver.finalized = false)
    (hnext : version.toNat = entry.currentVersion.toNat + 1) :
    (l.step (.finalizeVersion fileId version callerId nowMs)).1 =
      l.record (l.files.insert fileId (entry.finalize version nowMs))
        (.finalizeVersion fileId version callerId nowMs) := by
  have hrun : runFrom (FileStore.finalizeVersion fileId version callerId nowMs) l.files =
      (.ok (), l.files.insert fileId (entry.finalize version nowMs)) :=
    FileStore.finalizeVersion_eq_ok.mpr
      ⟨entry, ver, hentry, howner, hver, hstaged, hnext, rfl⟩
  simp only [step, FileOp.apply, hrun]
  rfl

/-- A row after a step was there before it, with the same stages on record, or it is the row that
the call changed. -/
theorem step_row (h : (l.step op).1.files.lookup fileId = some entry') :
    (l.files.lookup fileId = some entry' ∧ (l.step op).1.staged fileId = l.staged fileId ∧
        (l.step op).1.committed fileId = l.committed fileId) ∨
      (op.fileId = fileId ∧ ∃ entry files, RowChange l.files op entry entry' ∧
        (l.step op).1 = l.record files op) := by
  obtain ⟨_, hsame⟩ | ⟨_, files, hchange, hstep⟩ := l.step_cases op
  · rw [hsame] at h ⊢
    exact .inl ⟨h, rfl, rfl⟩
  · rw [hstep, record_files] at h
    rw [hstep]
    cases hchange with
    | @row op entry after hrow =>
      obtain ⟨hid, rfl⟩ | ⟨hid, hold⟩ := lookup_insert_cases h
      · exact .inr ⟨hid.symm, entry, _, hrow, rfl⟩
      · exact .inl ⟨hold, record_of_ne (Ne.symm hid)⟩
    | absent hnone => exact .inl ⟨h, rfl, rfl⟩
    | deleted htarget howner =>
      rw [lookup_eraseAll] at h
      split at h
      · exact absurd h (by simp)
      · exact .inl ⟨h, rfl, rfl⟩

end Ledger

end MaxSecu
