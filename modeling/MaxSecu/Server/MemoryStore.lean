import MaxSecu.Framework.AssociationList
import MaxSecu.Framework.GuardedUpdate
import MaxSecu.Server.Files

/-!
# The file store in memory

The file rows of the store: each file with its owner, its genesis and its versions, and each version
with its manifest, streams and wraps.  A version is staged first and finalized later; the current
version is the last one finalized, 0 before the first.

Every operation checks first and writes last.  For each there is a lemma on when it succeeds and
what it leaves behind, and one that a failure leaves the store as it was.
-/

namespace MaxSecu

open ExceptRules GuardedUpdate AssociationList

/-- A version of a file, with its streams and wraps. -/
structure VersionEntry where
  manifestBytes : List UInt8
  manifestSig : Bytes 64
  finalized : Bool
  streams : List StreamRow
  wraps : List WrapInput
  deriving DecidableEq

/-- A file, with its genesis and its versions. -/
structure FileEntry where
  ownerId : Id
  fileType : Int16
  listed : Bool
  bundleId : Option Id
  /-- 0 while no version is finalized. -/
  currentVersion : UInt64
  updatedAtMs : UInt64
  genesisBytes : List UInt8
  genesisSig : Bytes 64
  versions : AList fun _ : UInt64 => VersionEntry

abbrev FileStore := AList fun _ : Id => FileEntry

inductive FinalizeError
  | notOwner
  | noSuchVersion
  | versionConflict (expected got : UInt64)
  | alreadyFinalized
  /-- There is no next version number: the addition overflows and the call panics. -/
  | panicked
  deriving DecidableEq

inductive AddWrapError
  | noAccess
  | badRequest
  deriving DecidableEq

inductive DeleteWrapError
  | notFound
  | notAuthorized
  | recoveryProtected
  deriving DecidableEq

inductive DiscardError
  | notFound
  | hasFinalizedVersion
  deriving DecidableEq

inductive DeleteError
  | notFound
  deriving DecidableEq

inductive VersionSelector
  | latest
  | specific (version : UInt64)
  deriving DecidableEq

/-- The caller's own wrap and read grant, with the grants it descends from. -/
structure WrapView where
  wrappedDek : List UInt8
  grantBytes : List UInt8
  grantSig : Bytes 64
  ancestorGrants : List (List UInt8 × Bytes 64)
  deriving DecidableEq

structure StreamView where
  streamType : Int16
  chunkCount : UInt64
  chunkSize : UInt32
  blobRef : String
  deriving DecidableEq

/-- What a reader of one file version is served. -/
structure FileView where
  version : UInt64
  manifestBytes : List UInt8
  manifestSig : Bytes 64
  genesisBytes : List UInt8
  genesisSig : Bytes 64
  myWrap : WrapView
  recoveryGrant : Option (List UInt8 × Bytes 64)
  streams : List StreamView
  deriving DecidableEq

def BUNDLE_FILE_TYPE : Int16 := Files.column FileType.bundle.codepoint

def MAX_ANCESTOR_CHAIN : ℕ := 32

/-- The walk along `granted_by`, with the rounds left to it and the granters it has seen. -/
def ancestorWalk (wraps : List WrapInput) (author : Id) :
    ℕ → List Id → Id → List (List UInt8 × Bytes 64)
  | 0, _, _ => []
  | rounds + 1, seen, grantedBy =>
    if grantedBy = author ∨ grantedBy ∈ seen then
      []
    else
      match wraps.find? fun w => w.recipientId = grantedBy with
      | none => []
      | some anc =>
        (anc.grantBytes, anc.grantSig) ::
          ancestorWalk wraps author rounds (grantedBy :: seen) anc.grantedBy

/-- The grants from a leaf up to the author, nearest first.  The walk stops at the author, at a
missing edge, at a granter it has seen, and at the depth cap. -/
def ancestorChain (wraps : List WrapInput) (leaf : WrapInput) (author : Id) :
    List (List UInt8 × Bytes 64) :=
  ancestorWalk wraps author MAX_ANCESTOR_CHAIN [] leaf.grantedBy

/-! ## Versions and files -/

namespace VersionEntry

def ofStage (p : ParsedStage) : VersionEntry where
  manifestBytes := p.manifestBytes
  manifestSig := p.manifestSig
  finalized := false
  streams := p.streams
  wraps := p.wraps

def finalize (ver : VersionEntry) : VersionEntry := { ver with finalized := true }

/-- The streams and wraps of a superseded version are dropped; its manifest is kept. -/
def supersede (ver : VersionEntry) : VersionEntry := { ver with streams := [], wraps := [] }

/-- A re-share replaces any wrap of its recipient. -/
def addWrap (wrap : WrapInput) (ver : VersionEntry) : VersionEntry :=
  { ver with wraps := (ver.wraps.filter fun w => w.recipientId ≠ wrap.recipientId) ++ [wrap] }

def deleteWrap (recipientId : Id) (ver : VersionEntry) : VersionEntry :=
  { ver with wraps := ver.wraps.filter fun w => w.recipientId ≠ recipientId }

def blobRefs (ver : VersionEntry) : List String := ver.streams.map StreamRow.blobRef

end VersionEntry

namespace FileEntry

/-- A new file: the caller of its first stage is the owner. -/
def create (p : ParsedStage) (g : GenesisRow) (nowMs : UInt64) : FileEntry where
  ownerId := g.ownerId
  fileType := p.fileType
  listed := p.listed
  bundleId := p.bundleId
  currentVersion := 0
  updatedAtMs := nowMs
  genesisBytes := g.genesisBytes
  genesisSig := g.genesisSig
  versions := ∅

def isFinalized (entry : FileEntry) (version : UInt64) : Bool :=
  (entry.versions.lookup version).any VersionEntry.finalized

/-- Put a staged version in place of an earlier stage of it. -/
def stage (entry : FileEntry) (p : ParsedStage) : FileEntry :=
  { entry with versions := entry.versions.insert p.version (.ofStage p) }

/-- Commit a staged version: it becomes the current one, and the one before it is superseded. -/
def finalize (entry : FileEntry) (version nowMs : UInt64) : FileEntry :=
  let versions := adjust version .finalize entry.versions
  { entry with
    currentVersion := version
    updatedAtMs := nowMs
    versions := if 1 ≤ entry.currentVersion then adjust entry.currentVersion .supersede versions
      else versions }

def addWrap (entry : FileEntry) (wrap : WrapInput) (nowMs : UInt64) : FileEntry :=
  { entry with
    updatedAtMs := nowMs
    versions := adjust entry.currentVersion (.addWrap wrap) entry.versions }

def deleteWrap (entry : FileEntry) (recipientId : Id) : FileEntry :=
  { entry with versions := adjust entry.currentVersion (.deleteWrap recipientId) entry.versions }

/-- The versions that are staged and not finalized. -/
def stagedKeys (entry : FileEntry) : List UInt64 :=
  (entry.versions.entries.filter fun v => ¬ v.2.finalized).map Sigma.fst

def discardStaged (entry : FileEntry) : FileEntry :=
  { entry with versions := eraseAll entry.stagedKeys entry.versions }

def stagedBlobRefs (entry : FileEntry) : List String :=
  (entry.versions.entries.filter fun v => ¬ v.2.finalized).flatMap fun v => v.2.blobRefs

def blobRefs (entry : FileEntry) : List String :=
  entry.versions.entries.flatMap fun v => v.2.blobRefs

end FileEntry

namespace WrapInput

/-- A re-share to a user, signed by the caller as themselves. -/
def isReshareBy (wrap : WrapInput) (callerId : Id) : Bool :=
  wrap.grantedBy = callerId ∧ wrap.recipientType = 1 ∧ wrap.recipientId ≠ RECOVERY_ID

end WrapInput

/-! ## The operations -/

namespace FileStore

/-- Stage a version.  A genesis creates the file, or stages its first version again; without one the
file must exist and the author own it. -/
def stageVersion (p : ParsedStage) (nowMs : UInt64) :
    ExceptT StageError (StateM FileStore) UInt64 := do
  failIf (p.wraps.any WrapInput.isHalfShape) .mismatchedRecoveryWrap
  let files ← get
  match p.genesis with
  | some g =>
    failIf ((files.lookup p.fileId).any fun entry => entry.isFinalized p.version) .alreadyFinalized
    let entry := (files.lookup p.fileId).getD (.create p g nowMs)
    set (files.insert p.fileId (entry.stage p))
    return p.version
  | none =>
    let entry ← orFail (files.lookup p.fileId) .noSuchFile
    failIf (entry.ownerId ≠ p.authorId) .notOwner
    failIf (entry.isFinalized p.version) .alreadyFinalized
    set (files.insert p.fileId (entry.stage p))
    return p.version

/-- Commit a staged version, if it is the next one. -/
def finalizeVersion (fileId : Id) (version : UInt64) (callerId : Id) (nowMs : UInt64) :
    ExceptT FinalizeError (StateM FileStore) Unit := do
  let files ← get
  let entry ← orFail (files.lookup fileId) .noSuchVersion
  failIf (entry.ownerId ≠ callerId) .notOwner
  let ver ← orFail (entry.versions.lookup version) .noSuchVersion
  failIf ver.finalized .alreadyFinalized
  failIf (entry.currentVersion.toNat + 1 = 2 ^ 64) .panicked
  failIf (version ≠ entry.currentVersion + 1)
    (.versionConflict (entry.currentVersion + 1) version)
  set (files.insert fileId (entry.finalize version nowMs))
  return ()

/-- What the caller may read of a version: nothing without a wrap of their own. -/
def getFile (files : FileStore) (fileId : Id) (selector : VersionSelector) (callerId : Id) :
    Option FileView := do
  let entry ← files.lookup fileId
  let version :=
    match selector with
    | .latest => entry.currentVersion
    | .specific v => v
  if version = 0 then
    none
  else
    let ver ← entry.versions.lookup version
    if ver.finalized then
      let my ← ver.wraps.find? fun w => w.recipientId = callerId
      some
        { version := version
          manifestBytes := ver.manifestBytes
          manifestSig := ver.manifestSig
          genesisBytes := entry.genesisBytes
          genesisSig := entry.genesisSig
          myWrap := ⟨my.wrappedDek, my.grantBytes, my.grantSig,
            ancestorChain ver.wraps my entry.ownerId⟩
          recoveryGrant := (ver.wraps.find? fun w => w.recipientType = 2).map fun w =>
            (w.grantBytes, w.grantSig)
          streams := ver.streams.map fun s =>
            ⟨s.streamType, s.chunkCount, s.chunkSize, s.blobRef⟩ }
    else
      none

/-- Share the current version with a further user.  The caller must hold a wrap of it. -/
def addWrap (fileId : Id) (wrap : WrapInput) (callerId : Id) (nowMs : UInt64) :
    ExceptT AddWrapError (StateM FileStore) Unit := do
  failIf (¬ wrap.isReshareBy callerId) .badRequest
  let files ← get
  let entry ← orFail (files.lookup fileId) .noAccess
  failIf (entry.currentVersion = 0) .noAccess
  let ver ← orFail (entry.versions.lookup entry.currentVersion) .noAccess
  failIf (¬ ver.finalized) .noAccess
  failIf (¬ ver.wraps.any fun w => w.recipientId = callerId) .noAccess
  set (files.insert fileId (entry.addWrap wrap nowMs))
  return ()

/-- Take a user's wrap of the current version away.  The recovery wrap is refused by its id, and
again by the type of the stored row. -/
def deleteWrap (fileId recipientId callerId : Id) :
    ExceptT DeleteWrapError (StateM FileStore) Unit := do
  failIf (recipientId = RECOVERY_ID) .recoveryProtected
  let files ← get
  let entry ← orFail (files.lookup fileId) .notFound
  failIf (entry.currentVersion = 0) .notFound
  let ver ← orFail (entry.versions.lookup entry.currentVersion) .notFound
  let target ← orFail (ver.wraps.find? fun w => w.recipientId = recipientId) .notFound
  failIf (target.recipientType = 2) .recoveryProtected
  failIf (callerId ≠ entry.ownerId ∧ callerId ≠ target.grantedBy) .notAuthorized
  set (files.insert fileId (entry.deleteWrap recipientId))
  return ()

/-- Drop the staged versions of a file that was never finalized. -/
def discardUnfinalized (fileId callerId : Id) :
    ExceptT DiscardError (StateM FileStore) (List String) := do
  let files ← get
  match files.lookup fileId with
  | none => return []
  | some entry =>
    failIf (entry.ownerId ≠ callerId) .notFound
    failIf (1 ≤ entry.currentVersion) .hasFinalizedVersion
    set (files.insert fileId entry.discardStaged)
    return entry.stagedBlobRefs

/-- The file, and for a bundle the members of it that its owner owns. -/
def deleteTargets (files : FileStore) (fileId ownerId : Id) (target : FileEntry) : List Id :=
  fileId ::
    if target.fileType = BUNDLE_FILE_TYPE then
      (files.entries.filter fun f =>
        f.2.bundleId = some fileId ∧ f.2.ownerId = ownerId).map Sigma.fst
    else
      []

/-- Remove the files one after another, collecting their blobs. -/
def removeAll : List Id → FileStore → List String × FileStore
  | [], files => ([], files)
  | id :: ids, files =>
    let rest := removeAll ids (files.erase id)
    (((files.lookup id).map FileEntry.blobRefs).getD [] ++ rest.1, rest.2)

/-- Delete a file for good, with the members of a bundle. -/
def deleteFile (fileId ownerId : Id) :
    ExceptT DeleteError (StateM FileStore) (List String) := do
  let files ← get
  let target ← orFail (files.lookup fileId) .notFound
  failIf (target.ownerId ≠ ownerId) .notFound
  let removed := removeAll (files.deleteTargets fileId ownerId target) files
  set removed.2
  return removed.1

/-! ## When an operation succeeds -/

inductive StageRow (files : FileStore) (p : ParsedStage) (nowMs : UInt64) : FileEntry → Prop
  | create {g : GenesisRow} : p.genesis = some g → files.lookup p.fileId = none →
      StageRow files p nowMs (.create p g nowMs)
  | restage {g : GenesisRow} {entry : FileEntry} : p.genesis = some g →
      files.lookup p.fileId = some entry → StageRow files p nowMs entry
  | rotate {entry : FileEntry} : p.genesis = none → files.lookup p.fileId = some entry →
      entry.ownerId = p.authorId → StageRow files p nowMs entry

section Success

variable {files files' : FileStore} {fileId recipientId callerId ownerId : Id} {wrap : WrapInput}
  {version v nowMs : UInt64} {p : ParsedStage} {refs : List String}

lemma stageVersion_eq_ok :
    runFrom (stageVersion p nowMs) files = (.ok v, files') ↔
      p.wraps.any WrapInput.isHalfShape = false ∧ p.version = v ∧
        ∃ entry, StageRow files p nowMs entry ∧ entry.isFinalized p.version = false ∧
          files.insert p.fileId (entry.stage p) = files' := by
  unfold stageVersion
  rw [failIf_bind_eq_ok, get_bind_eq_ok, Bool.not_eq_true]
  refine and_congr_right fun _ => ?_
  cases hgenesis : p.genesis with
  | some g =>
    simp only [failIf_bind_eq_ok, set_pure_eq_ok]
    cases hlookup : files.lookup p.fileId with
    | none =>
      constructor
      · intro ⟨_, hversion, hfiles⟩
        exact ⟨hversion, _, .create hgenesis hlookup, rfl, hfiles⟩
      · intro ⟨hversion, entry, hrow, _, hfiles⟩
        cases hrow with
        | create hg _ =>
          obtain rfl : g = _ := Option.some.inj (hgenesis.symm.trans hg)
          exact ⟨by simp, hversion, hfiles⟩
        | restage _ hl => exact absurd (hlookup.symm.trans hl) (by simp)
        | rotate hg _ _ => exact absurd (hgenesis.symm.trans hg) (by simp)
    | some entry =>
      constructor
      · intro ⟨hopen, hversion, hfiles⟩
        exact ⟨hversion, entry, .restage hgenesis hlookup, by simpa using hopen, hfiles⟩
      · intro ⟨hversion, entry', hrow, hopen, hfiles⟩
        cases hrow with
        | create _ hl => exact absurd (hlookup.symm.trans hl) (by simp)
        | restage _ hl =>
          obtain rfl : entry = entry' := Option.some.inj (hlookup.symm.trans hl)
          exact ⟨by simpa using hopen, hversion, hfiles⟩
        | rotate hg _ _ => exact absurd (hgenesis.symm.trans hg) (by simp)
  | none =>
    simp only [orFail_bind_eq_ok, failIf_bind_eq_ok, set_pure_eq_ok, not_not, Bool.not_eq_true]
    constructor
    · intro ⟨entry, hlookup, howner, hopen, hversion, hfiles⟩
      exact ⟨hversion, entry, .rotate hgenesis hlookup howner, hopen, hfiles⟩
    · intro ⟨hversion, entry, hrow, hopen, hfiles⟩
      cases hrow with
      | create hg _ => exact absurd (hgenesis.symm.trans hg) (by simp)
      | restage hg _ => exact absurd (hgenesis.symm.trans hg) (by simp)
      | rotate _ hlookup howner => exact ⟨entry, hlookup, howner, hopen, hversion, hfiles⟩

lemma finalizeVersion_eq_ok :
    runFrom (finalizeVersion fileId version callerId nowMs) files = (.ok (), files') ↔
      ∃ entry ver, files.lookup fileId = some entry ∧ entry.ownerId = callerId ∧
        entry.versions.lookup version = some ver ∧ ver.finalized = false ∧
        version.toNat = entry.currentVersion.toNat + 1 ∧
        files.insert fileId (entry.finalize version nowMs) = files' := by
  unfold finalizeVersion
  simp only [get_bind_eq_ok, orFail_bind_eq_ok, failIf_bind_eq_ok, set_pure_eq_ok, not_not,
    Bool.not_eq_true, true_and]
  have hnext : ∀ current : UInt64, (¬ current.toNat + 1 = 2 ^ 64 ∧ version = current + 1) ↔
      version.toNat = current.toNat + 1 := by
    intro current
    have hlt := current.toNat_lt
    have hlt' := version.toNat_lt
    rw [← UInt64.toNat_inj, UInt64.toNat_add, UInt64.toNat_one]
    omega
  constructor
  · intro ⟨entry, hentry, howner, ver, hver, hstaged, hmax, hversion, hfiles⟩
    exact ⟨entry, ver, hentry, howner, hver, hstaged, (hnext _).mp ⟨hmax, hversion⟩, hfiles⟩
  · intro ⟨entry, ver, hentry, howner, hver, hstaged, hversion, hfiles⟩
    obtain ⟨hmax, hversion⟩ := (hnext _).mpr hversion
    exact ⟨entry, hentry, howner, ver, hver, hstaged, hmax, hversion, hfiles⟩

lemma addWrap_eq_ok :
    runFrom (addWrap fileId wrap callerId nowMs) files = (.ok (), files') ↔
      wrap.isReshareBy callerId = true ∧ ∃ entry, files.lookup fileId = some entry ∧
        entry.currentVersion ≠ 0 ∧ ∃ ver, entry.versions.lookup entry.currentVersion = some ver ∧
          ver.finalized = true ∧ (∃ w ∈ ver.wraps, w.recipientId = callerId) ∧
          files.insert fileId (entry.addWrap wrap nowMs) = files' := by
  unfold addWrap
  simp only [get_bind_eq_ok, orFail_bind_eq_ok, failIf_bind_eq_ok, set_pure_eq_ok, not_not,
    true_and, List.any_eq_true, decide_eq_true_eq]

lemma deleteWrap_eq_ok :
    runFrom (deleteWrap fileId recipientId callerId) files = (.ok (), files') ↔
      recipientId ≠ RECOVERY_ID ∧ ∃ entry, files.lookup fileId = some entry ∧
        entry.currentVersion ≠ 0 ∧ ∃ ver, entry.versions.lookup entry.currentVersion = some ver ∧
          ∃ target, (ver.wraps.find? fun w => w.recipientId = recipientId) = some target ∧
            target.recipientType ≠ 2 ∧
            (callerId = entry.ownerId ∨ callerId = target.grantedBy) ∧
            files.insert fileId (entry.deleteWrap recipientId) = files' := by
  unfold deleteWrap
  simp only [get_bind_eq_ok, orFail_bind_eq_ok, failIf_bind_eq_ok, set_pure_eq_ok, true_and,
    not_and_or, not_not]

lemma discardUnfinalized_eq_ok :
    runFrom (discardUnfinalized fileId callerId) files = (.ok refs, files') ↔
      (files.lookup fileId = none ∧ [] = refs ∧ files = files') ∨
        ∃ entry, files.lookup fileId = some entry ∧ entry.ownerId = callerId ∧
          entry.currentVersion = 0 ∧ entry.stagedBlobRefs = refs ∧
          files.insert fileId entry.discardStaged = files' := by
  unfold discardUnfinalized
  rw [get_bind_eq_ok]
  cases hlookup : files.lookup fileId with
  | none => simp [runFrom_pure]
  | some entry =>
    have hzero : (¬ 1 ≤ entry.currentVersion) ↔ entry.currentVersion = 0 := by
      rw [← UInt64.toNat_inj, UInt64.le_iff_toNat_le, UInt64.toNat_one, UInt64.toNat_zero]
      omega
    simp only [failIf_bind_eq_ok, set_pure_eq_ok, hzero, not_not]
    simp

lemma discardUnfinalized_eq_hasFinalizedVersion :
    (runFrom (discardUnfinalized fileId callerId) files).1 = .error .hasFinalizedVersion ↔
      ∃ entry, files.lookup fileId = some entry ∧ entry.ownerId = callerId ∧
        entry.currentVersion ≠ 0 := by
  unfold discardUnfinalized
  rw [runFrom_bind_ok (runFrom_get files)]
  cases hlookup : files.lookup fileId with
  | none => simp [runFrom_pure]
  | some entry =>
    have hzero : 1 ≤ entry.currentVersion ↔ entry.currentVersion ≠ 0 := by
      rw [ne_eq, ← UInt64.toNat_inj, UInt64.le_iff_toNat_le, UInt64.toNat_one, UInt64.toNat_zero]
      omega
    simp only [runFrom_failIf_bind]
    by_cases howner : entry.ownerId = callerId
    · rw [if_neg (not_not.mpr howner)]
      by_cases hfirst : 1 ≤ entry.currentVersion
      · rw [if_pos hfirst]
        simp [howner, hzero.mp hfirst]
      · rw [if_neg hfirst, set_pure_eq_ok.mpr ⟨rfl, rfl⟩]
        simp [not_not.mp (hzero.not.mp hfirst)]
    · rw [if_pos howner]
      simp [howner]

lemma deleteFile_eq_ok :
    runFrom (deleteFile fileId ownerId) files = (.ok refs, files') ↔
      ∃ target, files.lookup fileId = some target ∧ target.ownerId = ownerId ∧
        (removeAll (files.deleteTargets fileId ownerId target) files).1 = refs ∧
        (removeAll (files.deleteTargets fileId ownerId target) files).2 = files' := by
  unfold deleteFile
  simp only [get_bind_eq_ok, orFail_bind_eq_ok, failIf_bind_eq_ok, set_pure_eq_ok, not_not]

lemma removeAll_snd (ids : List Id) (files : FileStore) :
    (removeAll ids files).2 = eraseAll ids files := by
  induction ids generalizing files with
  | nil => exact eraseAll_nil files
  | cons id ids ih => exact ih (files.erase id)

end Success

/-! ## Failures -/

lemma stageVersion_atomic (p : ParsedStage) (nowMs : UInt64) : Atomic (stageVersion p nowMs) := by
  apply Atomic.failIf_bind
  apply Atomic.get_bind
  intro files
  cases p.genesis with
  | some g => exact Atomic.failIf_bind Atomic.set_pure
  | none =>
    apply Atomic.orFail_bind
    intro entry _
    exact Atomic.failIf_bind (Atomic.failIf_bind Atomic.set_pure)

lemma finalizeVersion_atomic (fileId : Id) (version : UInt64) (callerId : Id) (nowMs : UInt64) :
    Atomic (finalizeVersion fileId version callerId nowMs) := by
  apply Atomic.get_bind
  intro files
  apply Atomic.orFail_bind
  intro entry _
  apply Atomic.failIf_bind
  apply Atomic.orFail_bind
  intro ver _
  exact Atomic.failIf_bind (Atomic.failIf_bind (Atomic.failIf_bind Atomic.set_pure))

lemma addWrap_atomic (fileId : Id) (wrap : WrapInput) (callerId : Id) (nowMs : UInt64) :
    Atomic (addWrap fileId wrap callerId nowMs) := by
  apply Atomic.failIf_bind
  apply Atomic.get_bind
  intro files
  apply Atomic.orFail_bind
  intro entry _
  apply Atomic.failIf_bind
  apply Atomic.orFail_bind
  intro ver _
  exact Atomic.failIf_bind (Atomic.failIf_bind Atomic.set_pure)

lemma deleteWrap_atomic (fileId recipientId callerId : Id) :
    Atomic (deleteWrap fileId recipientId callerId) := by
  apply Atomic.failIf_bind
  apply Atomic.get_bind
  intro files
  apply Atomic.orFail_bind
  intro entry _
  apply Atomic.failIf_bind
  apply Atomic.orFail_bind
  intro ver _
  apply Atomic.orFail_bind
  intro target _
  exact Atomic.failIf_bind (Atomic.failIf_bind Atomic.set_pure)

lemma discardUnfinalized_atomic (fileId callerId : Id) :
    Atomic (discardUnfinalized fileId callerId) := by
  apply Atomic.get_bind
  intro files
  cases files.lookup fileId with
  | none => exact Atomic.pure []
  | some entry => exact Atomic.failIf_bind (Atomic.failIf_bind Atomic.set_pure)

lemma deleteFile_atomic (fileId ownerId : Id) : Atomic (deleteFile fileId ownerId) := by
  apply Atomic.get_bind
  intro files
  apply Atomic.orFail_bind
  intro target _
  exact Atomic.failIf_bind Atomic.set_pure

end FileStore

end MaxSecu
