import Mathlib.Data.Fintype.Basic
import MaxSecu.Server.BackupMerge
import MaxSecu.Server.Queries
import MaxSecu.Server.Requests

/-!
# The file store in Postgres

The file operations as statements over the tables.  Each is one transaction: it is refused, or
it commits the rows it computes, or the database refuses those rows and nothing changes.
-/

namespace MaxSecu.Backup

open Table

def Table.all : List Table :=
  [users, directoryBindings, registrationKeys, firstAdminClaim, recoveryAccount, sessions,
    authNonces, files, fileGenesis, fileVersions, fileStreams, fileKeyWraps, fileTombstones,
    wrapRevocations]

lemma Table.mem_all (t : Table) : t ∈ all := by
  cases t <;> decide

instance : Fintype Table := Fintype.ofList Table.all Table.mem_all

/-- The rows of all tables, before a commit. -/
abbrev Tables := (t : Table) → List t.Row

/-- Why a call fails: refused by its own checks, or by the database. -/
inductive PgError (ε : Type)
  | refused (e : ε)
  | store

variable {ε : Type}

/-- The constraints that the database enforces. -/
def Tables.Hold (rows : Tables) : Prop :=
  (∀ t, ∀ r ∈ rows t, t.Checks r) ∧ (∀ t, (rows t).Pairwise fun r s => ¬ t.Conflicts r s) ∧
    ∀ t, ∀ r ∈ rows t, Refers rows t r

instance (rows : Tables) : Decidable rows.Hold := by
  unfold Tables.Hold
  infer_instance

/-- Ends a transaction that would leave these rows. -/
def commit (rows : Tables) : Except (PgError ε) Database :=
  if h : rows.Hold then .ok ⟨rows, h.1, h.2.1, h.2.2⟩ else .error .store

lemma commit_eq_ok {rows : Tables} {db : Database} :
    commit rows = (.ok db : Except (PgError ε) Database) → db.rows = rows := by
  intro h
  unfold commit at h
  by_cases hold : rows.Hold
  · rw [dif_pos hold] at h
    obtain rfl := Except.ok.inj h
    rfl
  · rw [dif_neg hold] at h
    exact absurd h (by simp)

namespace Database

def findFile (db : Database) (fileId : Id) : Option FileRow :=
  (db.rows files).find? fun f => f.fileId = fileId

def findVersion (db : Database) (fileId : Id) (version : Int64) : Option VersionRow :=
  (db.rows fileVersions).find? fun v => v.fileId = fileId ∧ v.version = version

def streamsOf (db : Database) (fileId : Id) (version : Int64) : List StreamRow :=
  (db.rows fileStreams).filter fun s => s.fileId = fileId ∧ s.version = version

def wrapsOf (db : Database) (fileId : Id) (version : Int64) : List WrapRow :=
  (db.rows fileKeyWraps).filter fun w => w.fileId = fileId ∧ w.fileVersion = version

end Database

/-! ## Rows -/

namespace WrapRow

def ofInput (fileId : Id) (version : Int64) (w : WrapInput) (now : Timestamptz) : WrapRow where
  fileId := fileId
  fileVersion := version
  recipientId := w.recipientId
  recipientType := w.recipientType
  wrappedDek := w.wrappedDek
  wrapAlg := w.wrapAlg
  grantedBy := w.grantedBy
  grantBytes := w.grantBytes
  grantSig := w.grantSig
  createdAt := now

def toInput (w : WrapRow) : WrapInput where
  recipientId := w.recipientId
  recipientType := w.recipientType
  wrappedDek := w.wrappedDek
  wrapAlg := 1
  grantedBy := w.grantedBy
  grantBytes := w.grantBytes
  grantSig := w.grantSig

end WrapRow

def StreamRow.ofStage (fileId : Id) (version : Int64) (s : MaxSecu.StreamRow) : StreamRow where
  fileId := fileId
  version := version
  streamType := s.streamType
  compression := s.compression
  chunkSize := s.chunkSize.toInt32
  chunkCount := s.chunkCount.toInt64
  totalBytes := s.totalBytes.toInt64
  digest := s.digest
  blobRef := s.blobRef

/-- `INSERT … ON CONFLICT DO NOTHING` of one row. -/
def insertOr (t : Table) (r : t.Row) (rows : List t.Row) : List t.Row :=
  rows ++ KeyedRows.missing t.Conflicts rows [r]

namespace Tables

/-- The file and its genesis, unless they are there. -/
def createFile (rows : Tables) (p : ParsedStage) (g : MaxSecu.GenesisRow) (now : Timestamptz) :
    Tables
  | files => insertOr files ⟨p.fileId, g.ownerId, p.fileType, 0, p.listed, p.bundleId, now, now⟩
      (rows files)
  | fileGenesis => insertOr fileGenesis ⟨p.fileId, g.ownerId.bytes.toList,
      g.ownerKeyVersion.toInt64, g.genesisBytes, g.genesisSig, now⟩ (rows fileGenesis)
  | t => rows t

/-- The staged version, in the place of an earlier stage of it with its streams and wraps. -/
def putVersion (rows : Tables) (p : ParsedStage) (now : Timestamptz) : Tables
  | fileVersions =>
    ((rows fileVersions).filter fun v =>
      ¬ (v.fileId = p.fileId ∧ v.version = p.version.toInt64 ∧ v.finalized = false)) ++
    [⟨p.fileId, p.version.toInt64, p.manifestBytes, p.manifestSig, p.authorId.bytes.toList, p.alg,
      false, now⟩]
  | fileStreams =>
    ((rows fileStreams).filter fun s =>
      ¬ (s.fileId = p.fileId ∧ s.version = p.version.toInt64)) ++
    p.streams.map (StreamRow.ofStage p.fileId p.version.toInt64)
  | fileKeyWraps =>
    ((rows fileKeyWraps).filter fun w =>
      ¬ (w.fileId = p.fileId ∧ w.fileVersion = p.version.toInt64)) ++
    p.wraps.map fun w => WrapRow.ofInput p.fileId p.version.toInt64 w now
  | t => rows t

/-- The version is finalized and current; the streams and wraps of the one before it go. -/
def finalize (rows : Tables) (fileId : Id) (version current : Int64) (now : Timestamptz) : Tables
  | fileVersions => (rows fileVersions).map fun v =>
      if v.fileId = fileId ∧ v.version = version then { v with finalized := true } else v
  | files => (rows files).map fun f =>
      if f.fileId = fileId then { f with currentVersion := version, updatedAt := now } else f
  | fileStreams => if 1 ≤ current then (rows fileStreams).filter fun s =>
        ¬ (s.fileId = fileId ∧ s.version = current)
      else rows fileStreams
  | fileKeyWraps => if 1 ≤ current then (rows fileKeyWraps).filter fun w =>
        ¬ (w.fileId = fileId ∧ w.fileVersion = current)
      else rows fileKeyWraps
  | t => rows t

/-- A wrap put in the place of the recipient's wrap, if there is one. -/
def putWrap (rows : Tables) (fileId : Id) (version : Int64) (wrap : WrapInput)
    (now updatedAt : Timestamptz) : Tables
  | fileKeyWraps =>
    if (rows fileKeyWraps).any fun w =>
        w.fileId = fileId ∧ w.fileVersion = version ∧ w.recipientId = wrap.recipientId then
      (rows fileKeyWraps).map fun w =>
        if w.fileId = fileId ∧ w.fileVersion = version ∧ w.recipientId = wrap.recipientId then
          WrapRow.ofInput fileId version wrap w.createdAt
        else w
    else rows fileKeyWraps ++ [WrapRow.ofInput fileId version wrap now]
  | files => (rows files).map fun f =>
      if f.fileId = fileId then { f with updatedAt := updatedAt } else f
  | t => rows t

/-- The wrap goes, and the revocation is recorded. -/
def revokeWrap (rows : Tables) (fileId : Id) (version : Int64) (recipientId : Id)
    (now : Timestamptz) : Tables
  | fileKeyWraps => (rows fileKeyWraps).filter fun w =>
      ¬ (w.fileId = fileId ∧ w.fileVersion = version ∧ w.recipientId = recipientId)
  | wrapRevocations => insertOr wrapRevocations ⟨fileId, version, recipientId, now⟩
      (rows wrapRevocations)
  | t => rows t

/-- The unfinalized versions of a file go, with their streams and wraps. -/
def dropStaged (rows : Tables) (fileId : Id) : Tables
  | fileVersions => (rows fileVersions).filter fun v =>
      ¬ (v.fileId = fileId ∧ v.finalized = false)
  | fileStreams => (rows fileStreams).filter fun s =>
      ¬ (s.fileId = fileId ∧ (rows fileVersions).any fun v =>
        v.fileId = fileId ∧ v.version = s.version ∧ v.finalized = false)
  | fileKeyWraps => (rows fileKeyWraps).filter fun w =>
      ¬ (w.fileId = fileId ∧ (rows fileVersions).any fun v =>
        v.fileId = fileId ∧ v.version = w.fileVersion ∧ v.finalized = false)
  | t => rows t

def dropFiles (rows : Tables) (ids : List Id) : Tables
  | files => (rows files).filter fun f => f.fileId ∉ ids
  | fileGenesis => (rows fileGenesis).filter fun g => g.fileId ∉ ids
  | fileVersions => (rows fileVersions).filter fun v => v.fileId ∉ ids
  | fileStreams => (rows fileStreams).filter fun s => s.fileId ∉ ids
  | fileKeyWraps => (rows fileKeyWraps).filter fun w => w.fileId ∉ ids
  | t => rows t

/-- The deletion of the files is recorded. -/
def bury (rows : Tables) (ids : List Id) (now : Timestamptz) : Tables
  | fileTombstones => rows fileTombstones ++ KeyedRows.missing fileTombstones.Conflicts
      (rows fileTombstones) (ids.map fun id => ⟨id, now⟩)
  | t => rows t

end Tables

/-! ## The operations -/

namespace PgStore

def stageVersion (p : ParsedStage) (now : Timestamptz) (db : Database) :
    Except (PgError StageError) Database :=
  let existingOwner := (db.findFile p.fileId).map FileRow.ownerId
  if (db.findVersion p.fileId p.version.toInt64).any VersionRow.finalized then
    .error (.refused .alreadyFinalized)
  else
    match p.genesis with
    | some g =>
      if existingOwner.any (· ≠ g.ownerId) then .error (.refused .notOwner)
      else commit (Tables.putVersion (Tables.createFile db.rows p g now) p now)
    | none =>
      match existingOwner with
      | none => .error (.refused .noSuchFile)
      | some owner =>
        if owner ≠ p.authorId then .error (.refused .notOwner)
        else commit (Tables.putVersion db.rows p now)

def finalizeVersion (fileId : Id) (version : UInt64) (callerId : Id) (now : Timestamptz)
    (db : Database) : Except (PgError FinalizeError) Database :=
  match db.findFile fileId with
  | none => .error (.refused .noSuchVersion)
  | some f =>
    if f.ownerId ≠ callerId then .error (.refused .notOwner)
    else
      match (db.findVersion fileId version.toInt64).map VersionRow.finalized with
      | none => .error (.refused .noSuchVersion)
      | some true => .error (.refused .alreadyFinalized)
      | some false =>
        let expected := f.currentVersion.toUInt64 + 1
        if version ≠ expected then .error (.refused (.versionConflict expected version))
        else commit (Tables.finalize db.rows fileId version.toInt64 f.currentVersion now)

def msToTs (ms : UInt64) : Timestamptz := ms.toNat * 1000

def addWrap (fileId : Id) (wrap : WrapInput) (callerId : Id) (nowMs : UInt64) (now : Timestamptz)
    (db : Database) : Except (PgError AddWrapError) Database :=
  if ¬ wrap.isReshareBy callerId then .error (.refused .badRequest)
  else
    match db.findFile fileId with
    | none => .error (.refused .noAccess)
    | some f =>
      if f.currentVersion = 0 then .error (.refused .noAccess)
      else if ¬ (db.wrapsOf fileId f.currentVersion).any fun w => w.recipientId = callerId then
        .error (.refused .noAccess)
      else commit (Tables.putWrap db.rows fileId f.currentVersion wrap now (msToTs nowMs))

def deleteWrap (fileId recipientId callerId : Id) (now : Timestamptz) (db : Database) :
    Except (PgError DeleteWrapError) Database :=
  if recipientId = RECOVERY_ID then .error (.refused .recoveryProtected)
  else
    match db.findFile fileId with
    | none => .error (.refused .notFound)
    | some f =>
      if f.currentVersion = 0 then .error (.refused .notFound)
      else
        match (db.wrapsOf fileId f.currentVersion).find? fun w => w.recipientId = recipientId with
        | none => .error (.refused .notFound)
        | some w =>
          if w.recipientType = 2 then .error (.refused .recoveryProtected)
          else if callerId ≠ f.ownerId ∧ callerId ≠ w.grantedBy then
            .error (.refused .notAuthorized)
          else commit (Tables.revokeWrap db.rows fileId f.currentVersion recipientId now)

def discardUnfinalized (fileId callerId : Id) (db : Database) :
    Except (PgError DiscardError) Database :=
  match db.findFile fileId with
  | none => .ok db
  | some f =>
    if f.ownerId ≠ callerId then .error (.refused .notFound)
    else if 1 ≤ f.currentVersion then .error (.refused .hasFinalizedVersion)
    else commit (Tables.dropStaged db.rows fileId)

/-- The file, and for a bundle the members that its owner owns. -/
def deleteTargets (db : Database) (f : FileRow) : List Id :=
  f.fileId ::
    if f.fileType = BUNDLE_FILE_TYPE then
      ((db.rows files).filter fun g => g.bundleId = some f.fileId ∧ g.ownerId = f.ownerId).map
        FileRow.fileId
    else []

def deleteFile (fileId ownerId : Id) (now : Timestamptz) (db : Database) :
    Except (PgError DeleteError) Database :=
  match db.findFile fileId with
  | none => .error (.refused .notFound)
  | some f =>
    if f.ownerId ≠ ownerId then .error (.refused .notFound)
    else
      let targets := deleteTargets db f
      commit (Tables.bury (Tables.dropFiles db.rows targets) targets now)

/-- What the caller may read of a version: nothing without a wrap of their own. -/
def getFile (db : Database) (fileId : Id) (selector : VersionSelector) (callerId : Id) :
    Option FileView := do
  let version ← match selector with
    | .specific v => some v.toInt64
    | .latest => (db.findFile fileId).map FileRow.currentVersion
  if version = 0 then none
  else
    let ver ← (db.findVersion fileId version).filter VersionRow.finalized
    let wraps := (db.wrapsOf fileId version).map WrapRow.toInput
    let my ← wraps.find? fun w => w.recipientId = callerId
    let f ← db.findFile fileId
    let genesis ← (db.rows fileGenesis).find? fun g => g.fileId = fileId
    some
      { version := version.toUInt64
        manifestBytes := ver.manifestBytes
        manifestSig := ver.manifestSig
        genesisBytes := genesis.genesisBytes
        genesisSig := genesis.genesisSig
        myWrap := ⟨my.wrappedDek, my.grantBytes, my.grantSig,
          ancestorChain wraps my f.ownerId⟩
        recoveryGrant := (wraps.find? fun w => w.recipientType = 2).map fun w =>
          (w.grantBytes, w.grantSig)
        streams := ((db.streamsOf fileId version).insertionSort
            fun a b => a.streamType ≤ b.streamType).map fun s =>
          ⟨s.streamType, s.chunkCount.toUInt64, s.chunkSize.toUInt32, s.blobRef⟩ }

def tsToMs (ts : Timestamptz) : UInt64 := UInt64.ofInt (ts.tdiv 1000)

/-- The condition of a listing, which its count shares with its page. -/
def matchesFilter (db : Database) (filter : ListFilter) (f : FileRow) : Bool :=
  1 ≤ f.currentVersion ∧ f.listed = true ∧ (filter.fileType.all fun t => t = f.fileType) ∧
    (filter.ownerOnly = true → f.ownerId = filter.callerId) ∧
    (db.wrapsOf f.fileId f.currentVersion).any fun w => w.recipientId = filter.callerId

/-- The order of a listing; the file id breaks ties. -/
def listedBefore (sort : ListSort) (f g : FileRow) : Prop :=
  match sort with
  | .newest => g.updatedAt < f.updatedAt ∨
      f.updatedAt = g.updatedAt ∧ f.fileId.sortKey ≤ g.fileId.sortKey
  | .oldest => f.updatedAt < g.updatedAt ∨
      f.updatedAt = g.updatedAt ∧ f.fileId.sortKey ≤ g.fileId.sortKey

instance (sort : ListSort) : DecidableRel (listedBefore sort) := fun f g => by
  cases sort <;> unfold listedBefore <;> infer_instance

def listEntry (db : Database) (f : FileRow) : FileListEntry where
  fileId := f.fileId
  fileType := f.fileType
  version := f.currentVersion.toUInt64
  updatedAtMs := tsToMs f.updatedAt
  smallStreams := (((db.streamsOf f.fileId f.currentVersion).filter fun s =>
    s.streamType ≠ 1).insertionSort fun a b => a.streamType ≤ b.streamType).map fun s =>
      (s.streamType, s.totalBytes.toUInt64)

/-- One page; an offset past the range of its column is a fault of the store. -/
def listFiles (db : Database) (filter : ListFilter) : Except (PgError Empty) FileListPage :=
  if filter.offset.toInt64 < 0 then .error .store
  else
    let found := (db.rows files).filter (matchesFilter db filter)
    let rows := found.insertionSort (listedBefore filter.sort)
    .ok ⟨((rows.drop filter.offset.toNat).take filter.limit).map (listEntry db), found.length⟩

def versionMeta (db : Database) (fileId : Id) (version : UInt64) : Option VersionMeta := do
  let ver ← db.findVersion fileId version.toInt64
  let f ← db.findFile fileId
  some ⟨f.ownerId, ver.finalized,
    ((db.streamsOf fileId version.toInt64).insertionSort
      fun a b => a.streamType ≤ b.streamType).map fun s =>
        ⟨s.streamType, s.blobRef, s.chunkCount.toUInt64, s.chunkSize.toUInt32⟩⟩

/-- The users that hold a wrap of the current version, for the owner. -/
def listRecipients (db : Database) (fileId callerId : Id) : Option (List RecipientView) := do
  let f ← db.findFile fileId
  if f.ownerId ≠ callerId then none
  else if f.currentVersion = 0 then none
  else
    let wraps := (db.wrapsOf fileId f.currentVersion).map WrapRow.toInput
    some ((wraps.filter fun w => w.recipientType = 1).map fun w =>
      ⟨w.recipientId, w.grantedBy, w.grantBytes, w.grantSig, ancestorChain wraps w f.ownerId⟩)

end PgStore

/-! ## Runs -/

/-- A call that writes, with the database's clock. -/
inductive PgCall
  | stageVersion (st : CheckedStage) (now : Timestamptz)
  | finalizeVersion (fileId : Id) (version : UInt64) (callerId : Id) (now : Timestamptz)
  | addWrap (fileId : Id) (wrap : WrapInput) (callerId : Id) (nowMs : UInt64) (now : Timestamptz)
  | deleteWrap (fileId recipientId callerId : Id) (now : Timestamptz)
  | discardUnfinalized (fileId callerId : Id)
  | deleteFile (fileId ownerId : Id) (now : Timestamptz)

/-- The database after a call: a call that fails is rolled back. -/
def settle (db : Database) : Except (PgError ε) Database → Database
  | .ok after => after
  | .error _ => db

namespace PgCall

def apply : PgCall → Database → Database
  | stageVersion st now, db => settle db (PgStore.stageVersion st.parsed now db)
  | finalizeVersion fileId version callerId now, db =>
    settle db (PgStore.finalizeVersion fileId version callerId now db)
  | addWrap fileId wrap callerId nowMs now, db =>
    settle db (PgStore.addWrap fileId wrap callerId nowMs now db)
  | deleteWrap fileId recipientId callerId now, db =>
    settle db (PgStore.deleteWrap fileId recipientId callerId now db)
  | discardUnfinalized fileId callerId, db =>
    settle db (PgStore.discardUnfinalized fileId callerId db)
  | deleteFile fileId ownerId now, db => settle db (PgStore.deleteFile fileId ownerId now db)

/-- One call takes the database from one state to the next. -/
def Next (db : Database) (call : PgCall) (after : Database) : Prop := after = call.apply db

end PgCall

/-- A database in which no file was ever stored. -/
structure Database.FileFree (db : Database) : Prop where
  files : db.rows files = []
  genesis : db.rows fileGenesis = []
  versions : db.rows fileVersions = []
  streams : db.rows fileStreams = []
  wraps : db.rows fileKeyWraps = []
  tombstones : db.rows fileTombstones = []
  revocations : db.rows wrapRevocations = []

/-! ## What a call can do -/

/-- The rows that a call may leave, and what held before. -/
inductive Effect (db : Database) : PgCall → Tables → Prop
  | create (st : CheckedStage) (g : MaxSecu.GenesisRow) (now : Timestamptz) :
      st.parsed.genesis = some g →
      (∀ v ∈ db.rows fileVersions, v.fileId = st.parsed.fileId →
        v.version = st.parsed.version.toInt64 → v.finalized = false) →
      Effect db (.stageVersion st now)
        (Tables.putVersion (Tables.createFile db.rows st.parsed g now) st.parsed now)
  | rotate (st : CheckedStage) (now : Timestamptz) (f : FileRow) :
      f ∈ db.rows files → f.fileId = st.parsed.fileId →
      (∀ v ∈ db.rows fileVersions, v.fileId = st.parsed.fileId →
        v.version = st.parsed.version.toInt64 → v.finalized = false) →
      Effect db (.stageVersion st now) (Tables.putVersion db.rows st.parsed now)
  | finalize (f : FileRow) (version : UInt64) (callerId : Id) (now : Timestamptz) :
      f ∈ db.rows files → version = f.currentVersion.toUInt64 + 1 →
      (∃ v ∈ db.rows fileVersions, v.fileId = f.fileId ∧ v.version = version.toInt64) →
      Effect db (.finalizeVersion f.fileId version callerId now)
        (Tables.finalize db.rows f.fileId version.toInt64 f.currentVersion now)
  | addWrap (f : FileRow) (wrap : WrapInput) (callerId : Id) (nowMs : UInt64)
      (now : Timestamptz) : wrap.isReshareBy callerId = true → f ∈ db.rows files →
      Effect db (.addWrap f.fileId wrap callerId nowMs now)
        (Tables.putWrap db.rows f.fileId f.currentVersion wrap now (PgStore.msToTs nowMs))
  | deleteWrap (f : FileRow) (recipientId callerId : Id) (now : Timestamptz) :
      recipientId ≠ RECOVERY_ID → f ∈ db.rows files →
      Effect db (.deleteWrap f.fileId recipientId callerId now)
        (Tables.revokeWrap db.rows f.fileId f.currentVersion recipientId now)
  | discard (f : FileRow) (callerId : Id) : f ∈ db.rows files → ¬ 1 ≤ f.currentVersion →
      Effect db (.discardUnfinalized f.fileId callerId) (Tables.dropStaged db.rows f.fileId)
  | delete (f : FileRow) (ownerId : Id) (now : Timestamptz) (ids : List Id) :
      f ∈ db.rows files → f.fileId ∈ ids →
      Effect db (.deleteFile f.fileId ownerId now)
        (Tables.bury (Tables.dropFiles db.rows ids) ids now)

section Effects

variable {db after : Database} {call : PgCall} {fileId : Id} {version : Int64}

lemma Database.findFile_eq_some {f : FileRow} (h : db.findFile fileId = some f) :
    f ∈ db.rows files ∧ f.fileId = fileId :=
  ⟨List.mem_of_find?_eq_some h, by simpa using List.find?_some h⟩

lemma Database.findVersion_eq_some {v : VersionRow} (h : db.findVersion fileId version = some v) :
    v ∈ db.rows fileVersions ∧ v.fileId = fileId ∧ v.version = version :=
  ⟨List.mem_of_find?_eq_some h, by simpa using List.find?_some h⟩

lemma settle_commit {rows : Tables} :
    settle db (commit rows : Except (PgError ε) Database) = db ∨
      (settle db (commit rows : Except (PgError ε) Database)).rows = rows := by
  cases h : (commit rows : Except (PgError ε) Database) with
  | error e => exact Or.inl rfl
  | ok after => exact Or.inr (commit_eq_ok h)

lemma Effect.of_settle {rows : Tables} (h : Effect db call rows) :
    settle db (commit rows : Except (PgError ε) Database) = db ∨
      Effect db call (settle db (commit rows : Except (PgError ε) Database)).rows := by
  refine settle_commit.imp_right ?_
  intro hrows
  rwa [hrows]

lemma Database.versionRow_eq {v w : VersionRow} (hv : v ∈ db.rows fileVersions)
    (hw : w ∈ db.rows fileVersions) (hid : v.fileId = w.fileId) (hversion : v.version = w.version) :
    v = w := by
  by_contra hne
  have hsymm : Std.Symm fun r s : VersionRow => ¬ fileVersions.Conflicts r s :=
    ⟨fun r s h h' => h ⟨h'.1.symm, h'.2.symm⟩⟩
  exact (db.unique fileVersions).forall hv hw hne ⟨hid, hversion⟩

lemma Database.not_finalized
    (h : ¬ (db.findVersion fileId version).any VersionRow.finalized = true) {v : VersionRow}
    (hv : v ∈ db.rows fileVersions) (hid : v.fileId = fileId) (hversion : v.version = version) :
    v.finalized = false := by
  cases hfind : db.findVersion fileId version with
  | none =>
    have := List.find?_eq_none.mp hfind v hv
    simp [hid, hversion] at this
  | some w =>
    obtain ⟨hw, hwid, hwversion⟩ := findVersion_eq_some hfind
    have hsame : v = w :=
      versionRow_eq hv hw (hid.trans hwid.symm) (hversion.trans hwversion.symm)
    rw [hfind] at h
    simpa [hsame] using h

lemma stageVersion_effect (st : CheckedStage) (now : Timestamptz) :
    settle db (PgStore.stageVersion st.parsed now db) = db ∨
      Effect db (.stageVersion st now) (settle db (PgStore.stageVersion st.parsed now db)).rows := by
  unfold PgStore.stageVersion
  dsimp only
  by_cases hfinal : (db.findVersion st.parsed.fileId st.parsed.version.toInt64).any VersionRow.finalized = true
  · rw [if_pos hfinal]
    exact Or.inl rfl
  · have hopen := fun v hv hid hversion => Database.not_finalized (v := v) hfinal hv hid hversion
    rw [if_neg hfinal]
    cases hgenesis : st.parsed.genesis with
    | some g =>
      dsimp only
      split_ifs with howner
      · exact Or.inl rfl
      · exact Effect.of_settle (.create st g now hgenesis hopen)
    | none =>
      cases hfind : db.findFile st.parsed.fileId with
      | none => exact Or.inl rfl
      | some f =>
        obtain ⟨hf, hid⟩ := Database.findFile_eq_some hfind
        simp only [Option.map_some]
        split_ifs with howner
        · exact Or.inl rfl
        · exact Effect.of_settle (.rotate st now f hf hid hopen)

lemma finalizeVersion_effect (version : UInt64) (callerId : Id) (now : Timestamptz) :
    settle db (PgStore.finalizeVersion fileId version callerId now db) = db ∨
      Effect db (.finalizeVersion fileId version callerId now)
        (settle db (PgStore.finalizeVersion fileId version callerId now db)).rows := by
  unfold PgStore.finalizeVersion
  cases hfind : db.findFile fileId with
  | none => exact Or.inl rfl
  | some f =>
    obtain ⟨hf, rfl⟩ := Database.findFile_eq_some hfind
    dsimp only
    by_cases howner : f.ownerId ≠ callerId
    · rw [if_pos howner]
      exact Or.inl rfl
    · rw [if_neg howner]
      cases hversion : db.findVersion f.fileId version.toInt64 with
      | none => exact Or.inl rfl
      | some v =>
        obtain ⟨hv, hid, hvversion⟩ := Database.findVersion_eq_some hversion
        rw [Option.map_some]
        cases v.finalized with
        | true => exact Or.inl rfl
        | false =>
          dsimp only
          by_cases hnext : version ≠ f.currentVersion.toUInt64 + 1
          · rw [if_pos hnext]
            exact Or.inl rfl
          · rw [if_neg hnext]
            exact Effect.of_settle (.finalize f version callerId now hf (not_not.mp hnext)
              ⟨v, hv, hid, hvversion⟩)

lemma addWrap_effect (wrap : WrapInput) (callerId : Id) (nowMs : UInt64) (now : Timestamptz) :
    settle db (PgStore.addWrap fileId wrap callerId nowMs now db) = db ∨
      Effect db (.addWrap fileId wrap callerId nowMs now)
        (settle db (PgStore.addWrap fileId wrap callerId nowMs now db)).rows := by
  unfold PgStore.addWrap
  by_cases hbody : ¬ wrap.isReshareBy callerId = true
  · rw [if_pos hbody]
    exact Or.inl rfl
  · rw [if_neg hbody]
    cases hfind : db.findFile fileId with
    | none => exact Or.inl rfl
    | some f =>
      obtain ⟨hf, rfl⟩ := Database.findFile_eq_some hfind
      dsimp only
      split_ifs with hcur hheld
      · exact Or.inl rfl
      · exact Effect.of_settle (.addWrap f wrap callerId nowMs now (not_not.mp hbody) hf)
      · exact Or.inl rfl

lemma deleteWrap_effect (recipientId callerId : Id) (now : Timestamptz) :
    settle db (PgStore.deleteWrap fileId recipientId callerId now db) = db ∨
      Effect db (.deleteWrap fileId recipientId callerId now)
        (settle db (PgStore.deleteWrap fileId recipientId callerId now db)).rows := by
  unfold PgStore.deleteWrap
  by_cases hrecovery : recipientId = RECOVERY_ID
  · rw [if_pos hrecovery]
    exact Or.inl rfl
  · rw [if_neg hrecovery]
    cases hfind : db.findFile fileId with
    | none => exact Or.inl rfl
    | some f =>
      obtain ⟨hf, rfl⟩ := Database.findFile_eq_some hfind
      dsimp only
      by_cases hcur : f.currentVersion = 0
      · rw [if_pos hcur]
        exact Or.inl rfl
      · rw [if_neg hcur]
        cases (db.wrapsOf f.fileId f.currentVersion).find?
            fun w => w.recipientId = recipientId with
        | none => exact Or.inl rfl
        | some w =>
          dsimp only
          split_ifs with htype hcaller
          · exact Or.inl rfl
          · exact Or.inl rfl
          · exact Effect.of_settle (.deleteWrap f recipientId callerId now hrecovery hf)

lemma discardUnfinalized_effect (callerId : Id) :
    settle db (PgStore.discardUnfinalized fileId callerId db) = db ∨
      Effect db (.discardUnfinalized fileId callerId)
        (settle db (PgStore.discardUnfinalized fileId callerId db)).rows := by
  unfold PgStore.discardUnfinalized
  cases hfind : db.findFile fileId with
  | none => exact Or.inl rfl
  | some f =>
    obtain ⟨hf, rfl⟩ := Database.findFile_eq_some hfind
    dsimp only
    split_ifs with howner hcur
    · exact Or.inl rfl
    · exact Or.inl rfl
    · exact Effect.of_settle (.discard f callerId hf hcur)

lemma deleteFile_effect (ownerId : Id) (now : Timestamptz) :
    settle db (PgStore.deleteFile fileId ownerId now db) = db ∨
      Effect db (.deleteFile fileId ownerId now)
        (settle db (PgStore.deleteFile fileId ownerId now db)).rows := by
  unfold PgStore.deleteFile
  cases hfind : db.findFile fileId with
  | none => exact Or.inl rfl
  | some f =>
    obtain ⟨hf, rfl⟩ := Database.findFile_eq_some hfind
    dsimp only
    split_ifs with howner
    · exact Or.inl rfl
    · exact Effect.of_settle (.delete f ownerId now _ hf List.mem_cons_self)

/-- A call leaves the database as it is, or does what its statements say. -/
theorem PgCall.apply_cases (call : PgCall) (db : Database) :
    call.apply db = db ∨ Effect db call (call.apply db).rows := by
  cases call with
  | stageVersion st now => exact stageVersion_effect st now
  | finalizeVersion fileId version callerId now =>
    exact finalizeVersion_effect version callerId now
  | addWrap fileId wrap callerId nowMs now => exact addWrap_effect wrap callerId nowMs now
  | deleteWrap fileId recipientId callerId now => exact deleteWrap_effect recipientId callerId now
  | discardUnfinalized fileId callerId => exact discardUnfinalized_effect callerId
  | deleteFile fileId ownerId now => exact deleteFile_effect ownerId now

end Effects

end MaxSecu.Backup
