import MaxSecu.Server.BackupTables

/-!
# Merging a backup

The merge of a backup, restored into a staged database, into the live one.  It reads the absence
records and the current versions from the live database, and then inserts what the backup holds
and the live database lost, table by table, yielding to a live row on every conflict.  A dry run
is the same pass, rolled back.
-/

namespace MaxSecu.Backup

open Table

/-- The facts the gate reads from the live database. -/
structure LiveFacts where
  tombstoned : Finset Id
  liveFiles : Finset Id
  currentVersion : Id → Option Int64
  revoked : Finset (Id × Int64 × Id)

/-- What a merge did, or would do. -/
structure MergePreview where
  perTableInserts : String → Option ℕ := fun _ => none
  subtreesSkippedTombstoned : ℕ := 0
  wrapsSkippedRevoked : ℕ := 0
  wrapsSkippedSuperseded : ℕ := 0
  filesRestoredWhole : ℕ := 0

def MergePreview.inserted (preview : MergePreview) (t : Table) : ℕ :=
  (preview.perTableInserts t.name).getD 0

namespace Gate

inductive WrapVerdict
  | keep
  | skipSuperseded
  | skipRevoked
  deriving DecidableEq

structure FileGate where
  survivors : Id → Option Int64 := fun _ => none
  skippedTombstoned : ℕ := 0
  restoredWhole : ℕ := 0

/-- The version a surviving file's streams and wraps are gated on. -/
def FileGate.survivorCur (gate : FileGate) (fileId : Id) : Option Int64 := gate.survivors fileId

/-- The gate after one more file of the backup. -/
def FileGate.plan (live : LiveFacts) (gate : FileGate) (file : Id × Int64) : FileGate :=
  if file.1 ∈ live.tombstoned ∧ file.1 ∉ live.liveFiles then
    { gate with skippedTombstoned := gate.skippedTombstoned + 1 }
  else
    let cur := (live.currentVersion file.1).getD file.2
    { gate with
      survivors := Function.update gate.survivors file.1 (some cur)
      restoredWhole :=
        if file.1 ∈ live.liveFiles then gate.restoredWhole else gate.restoredWhole + 1 }

def planFileGate (stagedFiles : List (Id × Int64)) (live : LiveFacts) : FileGate :=
  stagedFiles.foldl (FileGate.plan live) {}

/-- The rows of a file table that belong to a surviving file. -/
def FileGate.surviving {R : Type} (gate : FileGate) (fileId : R → Id) (rows : List R) : List R :=
  rows.filter fun r => (gate.survivorCur (fileId r)).isSome

def keepStream (survivorCur version : Int64) : Bool := version = survivorCur

def wrapVerdict (live : LiveFacts) (fileId : Id) (survivorCur fileVersion : Int64)
    (recipientId : Id) : WrapVerdict :=
  if fileVersion ≠ survivorCur then .skipSuperseded
  else if (fileId, fileVersion, recipientId) ∈ live.revoked then .skipRevoked
  else .keep

end Gate

open Gate

/-- The live database inside the merge's transaction, and the account of the merge so far. -/
structure Merging where
  live : Database
  preview : MergePreview

def recordInserts (preview : MergePreview) (table : String) (n : ℕ) : MergePreview :=
  if n > 0 then
    { preview with
      perTableInserts := Function.update preview.perTableInserts table
        (some ((preview.perTableInserts table).getD 0 + n)) }
  else preview

namespace Merging

/-- One table's insert, with its count recorded. -/
def insert (m : Merging) (t : Table) (batch : List t.Row) : Except BackupError Merging := do
  let (live, n) ← m.live.insertMissing t batch
  pure ⟨live, recordInserts m.preview t.name n⟩

end Merging

def readLiveFacts (live : Database) : LiveFacts where
  tombstoned := ((live.rows fileTombstones).map TombstoneRow.fileId).toFinset
  liveFiles := ((live.rows files).map FileRow.fileId).toFinset
  currentVersion fileId :=
    ((live.rows files).find? fun f => f.fileId = fileId).map FileRow.currentVersion
  revoked := ((live.rows wrapRevocations).map fun r =>
    (r.fileId, r.fileVersion, r.recipientId)).toFinset

/-- Merges the staged users, and returns those the insert did not add. -/
def mergeUsers (m : Merging) (staged : Database) :
    Except BackupError (Merging × List (Id × String)) := do
  let rows := staged.rows users
  let suppressed := KeyedRows.skipped users.Conflicts (m.live.rows users) rows
  let m ← m.insert users rows
  pure (m, suppressed.map fun r => (r.userId, r.username))

/-- The suppressed users that the live database genuinely does not have. -/
def unmergedUsers (live : Database) (suppressed : List (Id × String)) : List (Id × String) :=
  suppressed.filter fun u => u.1 ∉ (live.rows users).map UserRow.userId

def mergeDirectoryBindings (m : Merging) (staged : Database) : Except BackupError Merging :=
  m.insert directoryBindings (staged.rows directoryBindings)

def mergeRegistrationKeys (m : Merging) (staged : Database) : Except BackupError Merging :=
  m.insert registrationKeys (staged.rows registrationKeys)

def mergeFirstAdminClaim (m : Merging) (staged : Database) : Except BackupError Merging :=
  m.insert firstAdminClaim (staged.rows firstAdminClaim)

def mergeRecoveryAccount (m : Merging) (staged : Database) : Except BackupError Merging :=
  m.insert recoveryAccount (staged.rows recoveryAccount)

def mergeSessions (m : Merging) (staged : Database) : Except BackupError Merging :=
  m.insert sessions (staged.rows sessions)

def mergeAuthNonces (m : Merging) (staged : Database) : Except BackupError Merging :=
  m.insert authNonces (staged.rows authNonces)

/-- Merges the files that survive.  A file whose owner the live database has under another id
refuses the whole merge. -/
def mergeFiles (m : Merging) (staged : Database) (live : LiveFacts)
    (unmergedOwners : List (Id × String)) : Except BackupError (Merging × FileGate) := do
  let rows := staged.rows files
  let gate := planFileGate (rows.map fun r => (r.fileId, r.currentVersion)) live
  let survivors := gate.surviving FileRow.fileId rows
  let orphaned := survivors.filterMap fun r => unmergedOwners.lookup r.ownerId
  if orphaned ≠ [] then
    throw (.ownerUsernameCollision (orphaned.dedup.insertionSort (· ≤ ·)))
  let m ← m.insert files survivors
  pure (m, gate)

def mergeFileGenesis (m : Merging) (staged : Database) (gate : FileGate) :
    Except BackupError Merging :=
  m.insert fileGenesis (gate.surviving GenesisRow.fileId (staged.rows fileGenesis))

def mergeFileVersions (m : Merging) (staged : Database) (gate : FileGate) :
    Except BackupError Merging :=
  let rows := (staged.rows fileVersions).filter VersionRow.finalized
  m.insert fileVersions (gate.surviving VersionRow.fileId rows)

/-- The staged database holds the version, finalized. -/
def Database.finalizes (staged : Database) (fileId : Id) (version : Int64) : Bool :=
  (staged.rows fileVersions).any fun v =>
    v.fileId = fileId ∧ v.version = version ∧ v.finalized

/-- The staged streams of the version that each survivor is gated on. -/
def keptStreams (staged : Database) (gate : FileGate) : List StreamRow :=
  let rows := (staged.rows fileStreams).filter fun r => staged.finalizes r.fileId r.version
  rows.filter fun r => match gate.survivorCur r.fileId with
    | none => false
    | some cur => keepStream cur r.version

def mergeFileStreams (m : Merging) (staged : Database) (gate : FileGate) :
    Except BackupError Merging :=
  m.insert fileStreams (keptStreams staged gate)

/-- The staged wraps of surviving files, each with its verdict. -/
def judgedWraps (staged : Database) (gate : FileGate) (live : LiveFacts) :
    List (WrapRow × WrapVerdict) :=
  let rows := (staged.rows fileKeyWraps).filter fun r => staged.finalizes r.fileId r.fileVersion
  rows.filterMap fun r => (gate.survivorCur r.fileId).map fun cur =>
    (r, wrapVerdict live r.fileId cur r.fileVersion r.recipientId)

def keptWraps (staged : Database) (gate : FileGate) (live : LiveFacts) : List WrapRow :=
  ((judgedWraps staged gate live).filter fun j => j.2 = .keep).map Prod.fst

def mergeFileKeyWraps (m : Merging) (staged : Database) (gate : FileGate) (live : LiveFacts) :
    Except BackupError Merging :=
  let judged := judgedWraps staged gate live
  let preview := { m.preview with
    wrapsSkippedSuperseded :=
      m.preview.wrapsSkippedSuperseded + judged.countP fun j => j.2 = .skipSuperseded
    wrapsSkippedRevoked :=
      m.preview.wrapsSkippedRevoked + judged.countP fun j => j.2 = .skipRevoked }
  Merging.insert ⟨m.live, preview⟩ fileKeyWraps (keptWraps staged gate live)

-- A bundle older than the absence records has neither table: its staged rows are then none.
def mergeFileTombstones (m : Merging) (staged : Database) : Except BackupError Merging :=
  m.insert fileTombstones (staged.rows fileTombstones)

def mergeWrapRevocations (m : Merging) (staged : Database) : Except BackupError Merging :=
  m.insert wrapRevocations (staged.rows wrapRevocations)

/-- The tables after `users` that no gate watches. -/
def mergeNeverGated (m : Merging) (staged : Database) : Except BackupError Merging := do
  let m ← mergeDirectoryBindings m staged
  let m ← mergeRegistrationKeys m staged
  let m ← mergeFirstAdminClaim m staged
  let m ← mergeRecoveryAccount m staged
  let m ← mergeSessions m staged
  mergeAuthNonces m staged

/-- The tables below `files`. -/
def mergeSubtrees (m : Merging) (staged : Database) (gate : FileGate) (live : LiveFacts) :
    Except BackupError Merging := do
  let m ← mergeFileGenesis m staged gate
  let m ← mergeFileVersions m staged gate
  let m ← mergeFileStreams m staged gate
  mergeFileKeyWraps m staged gate live

/-- The bundle's own absence records, which cannot gate the merge that carries them. -/
def mergeAbsences (m : Merging) (staged : Database) : Except BackupError Merging := do
  let m ← mergeFileTombstones m staged
  mergeWrapRevocations m staged

/-- The statements of the merge's transaction, up to its commit or rollback. -/
def mergeTables (live staged : Database) : Except BackupError Merging := do
  let facts := readLiveFacts live
  let (m, suppressed) ← mergeUsers ⟨live, {}⟩ staged
  let unmergedOwners := unmergedUsers m.live suppressed
  let m ← mergeNeverGated m staged
  let (m, gate) ← mergeFiles m staged facts unmergedOwners
  let preview := { m.preview with
    subtreesSkippedTombstoned := gate.skippedTombstoned
    filesRestoredWhole := gate.restoredWhole }
  let m ← mergeSubtrees ⟨m.live, preview⟩ staged gate facts
  mergeAbsences m staged

/-- One merge: its answer, and the live database after it. -/
def runMerge (live staged : Database) (others : ℕ) (apply : Bool) :
    Except BackupError MergePreview × Database :=
  if others > 0 then (.error (.serverStillConnected others), live)
  else match mergeTables live staged with
    | .error e => (.error e, live)
    | .ok m => (.ok m.preview, if apply then m.live else live)

end MaxSecu.Backup
