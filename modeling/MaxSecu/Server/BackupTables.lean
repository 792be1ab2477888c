import MaxSecu.Encoding.Structs
import MaxSecu.Framework.KeyedRows

/-!
# The tables a backup holds

The rows of the server's database as the schema has them, the checks and the unique keys of each
table and the references between them.  `control_log` and `auth_events` are left out: a merge never reads or
writes them.
-/

namespace MaxSecu

/-- Microseconds since the epoch, as `timestamptz` keeps them. -/
abbrev Timestamptz := ℤ

namespace Backup

inductive AccountStatus
  | active
  | revoked
  | suspended
  deriving DecidableEq

structure UserRow where
  userId : Id
  username : String
  encPub : Bytes 32
  sigPub : Bytes 32
  keyVersion : Int64
  roles : List String
  status : AccountStatus
  enrolledAt : Timestamptz
  signedAt : Option Timestamptz

structure BindingRow where
  userId : Id
  keyVersion : Int64
  encPub : Bytes 32
  sigPub : Bytes 32
  roles : List String
  notBefore : Timestamptz
  notAfter : Timestamptz
  bindingBytes : List UInt8
  directorySignature : Bytes 64
  createdAt : Timestamptz

structure RegistrationKeyRow where
  keyHash : Bytes 32
  issuedAt : Timestamptz
  expiresAt : Timestamptz
  usedAt : Option Timestamptz

structure FirstAdminRow where
  id : Bool
  claimedAt : Timestamptz

structure RecoveryAccountRow where
  id : Bool
  encPub : Bytes 32
  sigPub : Bytes 32
  mlkemPub : Option (Bytes 1184)
  registeredAt : Timestamptz

structure SessionRow where
  tokenHash : Bytes 32
  userId : List UInt8
  tlsExporter : Bytes 32
  issuedAt : Timestamptz
  expiresAt : Timestamptz
  revokedAt : Option Timestamptz

structure NonceRow where
  nonce : Bytes 32
  username : String
  issuedAt : Timestamptz
  expiresAt : Timestamptz
  usedAt : Option Timestamptz

structure FileRow where
  fileId : Id
  ownerId : Id
  fileType : Int16
  currentVersion : Int64
  listed : Bool
  bundleId : Option Id
  createdAt : Timestamptz
  updatedAt : Timestamptz

structure GenesisRow where
  fileId : Id
  ownerId : List UInt8
  ownerKeyVersion : Int64
  genesisBytes : List UInt8
  genesisSig : Bytes 64
  createdAt : Timestamptz

structure VersionRow where
  fileId : Id
  version : Int64
  manifestBytes : List UInt8
  manifestSig : Bytes 64
  authorId : List UInt8
  alg : Int32
  finalized : Bool
  createdAt : Timestamptz

structure StreamRow where
  fileId : Id
  version : Int64
  streamType : Int16
  compression : Int16
  chunkSize : Int32
  chunkCount : Int64
  totalBytes : Int64
  digest : Bytes 32
  blobRef : String

structure WrapRow where
  fileId : Id
  fileVersion : Int64
  recipientId : Id
  recipientType : Int16
  wrappedDek : List UInt8
  wrapAlg : Int32
  grantedBy : Id
  grantBytes : List UInt8
  grantSig : Bytes 64
  createdAt : Timestamptz

structure TombstoneRow where
  fileId : Id
  deletedAt : Timestamptz

structure RevocationRow where
  fileId : Id
  fileVersion : Int64
  recipientId : Id
  revokedAt : Timestamptz

inductive Table
  | users
  | directoryBindings
  | registrationKeys
  | firstAdminClaim
  | recoveryAccount
  | sessions
  | authNonces
  | files
  | fileGenesis
  | fileVersions
  | fileStreams
  | fileKeyWraps
  | fileTombstones
  | wrapRevocations
  deriving DecidableEq

namespace Table

def name : Table → String
  | users => "users"
  | directoryBindings => "directory_bindings"
  | registrationKeys => "registration_keys"
  | firstAdminClaim => "first_admin_claim"
  | recoveryAccount => "recovery_account"
  | sessions => "sessions"
  | authNonces => "auth_nonces"
  | files => "files"
  | fileGenesis => "file_genesis"
  | fileVersions => "file_versions"
  | fileStreams => "file_streams"
  | fileKeyWraps => "file_key_wraps"
  | fileTombstones => "file_tombstones"
  | wrapRevocations => "wrap_revocations"

lemma name_inj {t u : Table} : t.name = u.name ↔ t = u := by
  constructor
  · intro h
    cases t <;> cases u <;> first | rfl | exact absurd h (by decide)
  · intro h
    rw [h]

abbrev Row : Table → Type
  | users => UserRow
  | directoryBindings => BindingRow
  | registrationKeys => RegistrationKeyRow
  | firstAdminClaim => FirstAdminRow
  | recoveryAccount => RecoveryAccountRow
  | sessions => SessionRow
  | authNonces => NonceRow
  | files => FileRow
  | fileGenesis => GenesisRow
  | fileVersions => VersionRow
  | fileStreams => StreamRow
  | fileKeyWraps => WrapRow
  | fileTombstones => TombstoneRow
  | wrapRevocations => RevocationRow

/-- Two rows of a table share its primary key or another unique key of it. -/
def Conflicts : (t : Table) → t.Row → t.Row → Prop
  | users, r, s => r.userId = s.userId ∨ r.username = s.username
  | directoryBindings, r, s => r.userId = s.userId ∧ r.keyVersion = s.keyVersion
  | registrationKeys, r, s => r.keyHash = s.keyHash
  | firstAdminClaim, r, s => r.id = s.id
  | recoveryAccount, r, s => r.id = s.id
  | sessions, r, s => r.tokenHash = s.tokenHash
  | authNonces, r, s => r.nonce = s.nonce
  | files, r, s => r.fileId = s.fileId
  | fileGenesis, r, s => r.fileId = s.fileId
  | fileVersions, r, s => r.fileId = s.fileId ∧ r.version = s.version
  | fileStreams, r, s => r.fileId = s.fileId ∧ r.version = s.version ∧ r.streamType = s.streamType
  | fileKeyWraps, r, s => r.fileId = s.fileId ∧ r.fileVersion = s.fileVersion ∧
      r.recipientId = s.recipientId
  | fileTombstones, r, s => r.fileId = s.fileId
  | wrapRevocations, r, s => r.fileId = s.fileId ∧ r.fileVersion = s.fileVersion ∧
      r.recipientId = s.recipientId

instance (t : Table) : DecidableRel t.Conflicts := fun r s => by
  cases t <;> unfold Conflicts <;> infer_instance

lemma conflicts_refl {t : Table} (r : t.Row) : t.Conflicts r r := by
  cases t <;> simp [Conflicts]

/-- The `CHECK` constraints of a table, as far as the types of its columns do not say them. -/
def Checks : (t : Table) → t.Row → Prop
  | users, r => 1 ≤ r.keyVersion
  | directoryBindings, r => 1 ≤ r.keyVersion
  | firstAdminClaim, r => r.id = true
  | recoveryAccount, r => r.id = true
  | files, r => r.fileType ∈ [1, 2, 3, 4, 5] ∧ 0 ≤ r.currentVersion
  | fileGenesis, r => 1 ≤ r.ownerKeyVersion
  | fileVersions, r => 1 ≤ r.version
  | fileStreams, r => r.streamType ∈ [1, 2, 3, 4] ∧ r.compression ∈ [0, 1] ∧
      4096 ≤ r.chunkSize ∧ r.chunkSize ≤ 8388608 ∧ 0 ≤ r.chunkCount ∧ 0 ≤ r.totalBytes
  | fileKeyWraps, r => r.recipientType ∈ [1, 2] ∧
      (r.recipientType = 2 ↔ r.recipientId = RECOVERY_ID)
  | _, _ => True

instance (t : Table) : DecidablePred t.Checks := fun r => by
  cases t <;> unfold Checks <;> infer_instance

/-- The row that a row refers to is in its table. -/
def Refers (rows : (t : Table) → List t.Row) : (t : Table) → t.Row → Prop
  | files, r => ∃ u ∈ rows users, u.userId = r.ownerId
  | fileGenesis, r => ∃ f ∈ rows files, f.fileId = r.fileId
  | fileVersions, r => ∃ f ∈ rows files, f.fileId = r.fileId
  | fileStreams, r => ∃ v ∈ rows fileVersions, v.fileId = r.fileId ∧ v.version = r.version
  | fileKeyWraps, r => ∃ v ∈ rows fileVersions, v.fileId = r.fileId ∧ v.version = r.fileVersion
  | _, _ => True

instance (rows : (t : Table) → List t.Row) (t : Table) : DecidablePred (Refers rows t) := fun r => by
  cases t <;> unfold Refers <;> infer_instance

lemma Refers.mono {rows rows' : (t : Table) → List t.Row} (h : ∀ t, rows t ⊆ rows' t) {t : Table}
    {r : t.Row} (hr : Refers rows t r) : Refers rows' t r := by
  cases t <;> simp only [Refers] at hr ⊢ <;>
    (obtain ⟨s, hs, heq⟩ := hr; exact ⟨s, h _ hs, heq⟩)

end Table

open Table

/-- A database whose rows pass their checks, whose keys are unique and whose references stand. -/
structure Database where
  rows : (t : Table) → List t.Row
  checks : ∀ t, ∀ r ∈ rows t, t.Checks r
  unique : ∀ t, (rows t).Pairwise fun r s => ¬ t.Conflicts r s
  referential : ∀ t, ∀ r ∈ rows t, Refers rows t r

inductive BackupError
  | serverStillConnected (others : ℕ)
  | ownerUsernameCollision (usernames : List String)
  /-- The database refused a row that fails a check or whose reference does not stand. -/
  | constraint (t : Table)
  deriving DecidableEq

namespace Database

/-- The rows after `added` has been appended to one table. -/
def append (db : Database) (t : Table) (added : List t.Row) : (u : Table) → List u.Row :=
  Function.update db.rows t (db.rows t ++ added)

variable {db db' : Database} {t u : Table} {added batch : List t.Row}

lemma eq_of_rows (h : db.rows = db'.rows) : db = db' := by
  cases db
  cases db'
  congr

lemma subset_append : db.rows u ⊆ db.append t added u := by
  unfold append
  by_cases hu : u = t
  · subst hu
    rw [Function.update_self]
    exact List.subset_append_left _ _
  · rw [Function.update_of_ne hu]
    exact List.Subset.refl _

lemma append_unique :
    (db.append t (KeyedRows.missing t.Conflicts (db.rows t) batch) u).Pairwise
      fun r s => ¬ u.Conflicts r s := by
  unfold append
  by_cases hu : u = t
  · subst hu
    rw [Function.update_self]
    exact KeyedRows.pairwise_append_missing (db.unique u)
  · rw [Function.update_of_ne hu]
    exact db.unique u

lemma append_checks (hadded : ∀ r ∈ added, t.Checks r) {r : u.Row} (hr : r ∈ db.append t added u) :
    u.Checks r := by
  unfold append at hr
  by_cases hu : u = t
  · subst hu
    rw [Function.update_self] at hr
    obtain hr | hr := List.mem_append.mp hr
    · exact db.checks u r hr
    · exact hadded r hr
  · rw [Function.update_of_ne hu] at hr
    exact db.checks u r hr

lemma append_referential (hadded : ∀ r ∈ added, Refers db.rows t r) {r : u.Row}
    (hr : r ∈ db.append t added u) : Refers (db.append t added) u r := by
  refine Refers.mono (fun _ => subset_append) ?_
  unfold append at hr
  by_cases hu : u = t
  · subst hu
    rw [Function.update_self] at hr
    obtain hr | hr := List.mem_append.mp hr
    · exact db.referential u r hr
    · exact hadded r hr
  · rw [Function.update_of_ne hu] at hr
    exact db.referential u r hr

/-- `INSERT … ON CONFLICT DO NOTHING`: the database after it, and the rows affected. -/
def insertMissing (db : Database) (t : Table) (batch : List t.Row) :
    Except BackupError (Database × ℕ) :=
  let added := KeyedRows.missing t.Conflicts (db.rows t) batch
  if h : (∀ r ∈ added, t.Checks r) ∧ ∀ r ∈ added, Refers db.rows t r then
    .ok (⟨db.append t added, fun _ _ => append_checks h.1, fun _ => append_unique,
      fun _ _ => append_referential h.2⟩, added.length)
  else .error (.constraint t)

lemma insertMissing_eq_ok
    (hchecks : ∀ r ∈ KeyedRows.missing t.Conflicts (db.rows t) batch, t.Checks r)
    (hrefers : ∀ r ∈ KeyedRows.missing t.Conflicts (db.rows t) batch, Refers db.rows t r) :
    ∃ after, db.insertMissing t batch =
        .ok (after, (KeyedRows.missing t.Conflicts (db.rows t) batch).length) ∧
      after.rows = db.append t (KeyedRows.missing t.Conflicts (db.rows t) batch) := by
  unfold insertMissing
  exact ⟨_, dif_pos ⟨hchecks, hrefers⟩, rfl⟩

/-- Two scans of one state of the database: the same rows in any order. -/
def SameRows (db db' : Database) : Prop := ∀ t, (db.rows t).Perm (db'.rows t)

end Database

end Backup

end MaxSecu
