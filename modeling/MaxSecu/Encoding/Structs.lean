import MaxSecu.Encoding.Types

/-!
# The signed and hashed structures

Each of the 14 canonical structures is a `u16` type id followed by its fields in declared order.
`encode` and `decode` are the two entry points: `decode` reads the structure, demands that nothing
is left, and re-encodes what it read as a last guard.
-/

namespace MaxSecu

open PrefixReader AscendingList

/-- The recovery recipient's id: 16 zero bytes. -/
def RECOVERY_ID : Id := ⟨List.Vector.replicate 16 0⟩

/-- `prev_head` seed of the first record in the anchored control-log: 32 zero bytes. -/
def GENESIS_HEAD : Hash := ⟨List.Vector.replicate 32 0⟩

/-! ## The canonical struct class and its codec -/

/-- A top-level structure: a type id, and a codec for the body that follows it. -/
class Canonical (T : Type) where
  TYPE_ID : UInt16
  encodeBody : T → List UInt8
  decodeBody : Reader T

/-- Is `id` a defined struct codepoint?  `0x0004` is reserved and not registered. -/
def isRegistered (id : UInt16) : Bool :=
  id ∈ ([0x0001, 0x0002, 0x0003, 0x0005, 0x0006, 0x0007, 0x0008, 0x0009, 0x000A, 0x000B, 0x000C,
    0x000D, 0x000E, 0x000F] : List UInt16)

/-- Read a tagged structure, at the top level or embedded in another one. -/
def readStruct (T : Type) [Canonical T] : Reader T := do
  let id ← Reader.u16
  if id ≠ Canonical.TYPE_ID T then
    throw (if isRegistered id then .wrongTypeId (Canonical.TYPE_ID T) id else .unknownTypeId id)
  else
    Canonical.decodeBody

/-- Encode a structure to its one canonical byte string. -/
def encode {T : Type} [Canonical T] (v : T) : List UInt8 :=
  Writer.u16 (Canonical.TYPE_ID T) ++ Canonical.encodeBody v

/-- Read a structure that must fill the whole input. -/
def readWhole (T : Type) [Canonical T] : Reader T := do
  let v ← readStruct T
  Reader.finish
  pure v

/-- Strictly decode a structure: every field rule, no trailing bytes, and the re-encode guard. -/
def decode (T : Type) [Canonical T] (bytes : List UInt8) : Except DecodeError T := do
  let (v, _) ← (readWhole T).run bytes
  if encode v ≠ bytes then
    throw .nonCanonical
  else
    pure v

/-! ## The structures -/

variable [UnicodeNormalization]

/-- The directory's binding of a user to the two public keys. -/
structure DirBinding where
  username : Text
  userId : Id
  encPub : X25519Pub
  sigPub : Ed25519Pub
  keyVersion : UInt64
  roles : RoleSet
  notBefore : Timestamp
  notAfter : Timestamp
  mlkemPub : Option MlKemPub
  deriving DecidableEq

instance : Canonical DirBinding where
  TYPE_ID := 0x0001
  encodeBody v :=
    [Field.put v.username, Field.put v.userId, Field.put v.encPub, Field.put v.sigPub,
      Field.put v.keyVersion, Field.put v.roles, Field.put v.notBefore, Field.put v.notAfter,
      Field.put v.mlkemPub].flatten
  decodeBody := do
    let username ← Field.get
    let userId ← Field.get
    let encPub ← Field.get
    let sigPub ← Field.get
    let keyVersion ← Field.get
    let roles ← Field.get
    let notBefore ← Field.get
    let notAfter ← Field.get
    let mlkemPub ← Field.get
    pure ⟨username, userId, encPub, sigPub, keyVersion, roles, notBefore, notAfter, mlkemPub⟩

structure Stream where
  streamType : StreamType
  compression : Compression
  chunkCount : UInt64
  digest : Hash
  deriving DecidableEq

instance : Canonical Stream where
  TYPE_ID := 0x000D
  encodeBody v :=
    [Field.put v.streamType, Field.put v.compression, Field.put v.chunkCount,
      Field.put v.digest].flatten
  decodeBody := do
    let streamType ← Field.get
    let compression ← Field.get
    let chunkCount ← Field.get
    let digest ← Field.get
    pure ⟨streamType, compression, chunkCount, digest⟩

/-- What an author signs for one version of a file.  `streams` ascends by stream type on the wire;
the type does not say so. -/
structure Manifest where
  fileId : Id
  version : UInt64
  fileType : FileType
  alg : Suite
  chunkSize : UInt32
  dekCommit : Hash
  streams : List Stream
  recoveryPresent : Bool
  authorId : Id
  createdAt : Timestamp
  deriving DecidableEq

/-- The counted loop of the manifest reader, before its result is sorted. -/
def Manifest.getStreams (count : ℕ) : Reader (List Stream) :=
  readAscending (readStruct Stream) (fun s => s.streamType.codepoint.toNat) .streamsNotAscending
    count none

instance : Canonical Manifest where
  TYPE_ID := 0x0002
  encodeBody v :=
    [Field.put v.fileId, Field.put v.version, Field.put v.fileType, Field.put v.alg,
      Field.put v.chunkSize, Field.put v.dekCommit, Writer.u8 (UInt8.ofNat v.streams.length),
      v.streams.flatMap encode, Field.put v.recoveryPresent, Field.put v.authorId,
      Field.put v.createdAt].flatten
  decodeBody := do
    let fileId ← Field.get
    let version ← Field.get
    let fileType ← Field.get
    let alg ← Field.get
    let chunkSize ← Field.get
    let dekCommit ← Field.get
    let count ← Reader.u8
    let accepted ← Manifest.getStreams count.toNat
    -- Sorting the accepted list backs the order check up; on what reaches it, it does nothing.
    let streams := sortDedupBy (fun s => s.streamType.codepoint.toNat) accepted
    let recoveryPresent ← Field.get
    let authorId ← Field.get
    let createdAt ← Field.get
    pure ⟨fileId, version, fileType, alg, chunkSize, dekCommit, streams, recoveryPresent, authorId,
      createdAt⟩

/-- A read-grant of one file version to one recipient. -/
structure Grant where
  fileId : Id
  fileVersion : UInt64
  recipientId : Id
  recipientType : RecipientType
  dekCommit : Hash
  grantedBy : Id
  createdAt : Timestamp
  deriving DecidableEq

instance : Canonical Grant where
  TYPE_ID := 0x0003
  encodeBody v :=
    [Field.put v.fileId, Field.put v.fileVersion, Field.put v.recipientId,
      Field.put v.recipientType, Field.put v.dekCommit, Field.put v.grantedBy,
      Field.put v.createdAt].flatten
  decodeBody := do
    let fileId ← Field.get
    let fileVersion ← Field.get
    let recipientId ← Field.get
    let recipientType ← Field.get
    if recipientType = .recovery ∧ recipientId ≠ RECOVERY_ID then
      throw .recoveryIdMismatch
    else
      let dekCommit ← Field.get
      let grantedBy ← Field.get
      let createdAt ← Field.get
      pure ⟨fileId, fileVersion, recipientId, recipientType, dekCommit, grantedBy, createdAt⟩

/-- The ownership record of a file. -/
structure Genesis where
  fileId : Id
  ownerId : Id
  ownerKeyVersion : UInt64
  createdAt : Timestamp
  deriving DecidableEq

instance : Canonical Genesis where
  TYPE_ID := 0x0005
  encodeBody v :=
    [Field.put v.fileId, Field.put v.ownerId, Field.put v.ownerKeyVersion,
      Field.put v.createdAt].flatten
  decodeBody := do
    let fileId ← Field.get
    let ownerId ← Field.get
    let ownerKeyVersion ← Field.get
    let createdAt ← Field.get
    pure ⟨fileId, ownerId, ownerKeyVersion, createdAt⟩

/-- A tombstone.  Without a capability it revokes all access; with one it narrows a role. -/
structure Revocation where
  scope : FileScope
  revokedUserId : Id
  revokedCapability : Option Role
  fromVersion : UInt64
  revocationEpoch : UInt64
  prevHead : Hash
  issuedBy : Id
  coSignedBy : Option Id
  createdAt : Timestamp
  deriving DecidableEq

instance : Canonical Revocation where
  TYPE_ID := 0x0006
  encodeBody v :=
    [Field.put v.scope, Field.put v.revokedUserId, Field.put v.revokedCapability,
      Field.put v.fromVersion, Field.put v.revocationEpoch, Field.put v.prevHead,
      Field.put v.issuedBy, Field.put v.coSignedBy, Field.put v.createdAt].flatten
  decodeBody := do
    let scope ← Field.get
    let revokedUserId ← Field.get
    let revokedCapability ← Field.get
    let fromVersion ← Field.get
    let revocationEpoch ← Field.get
    let prevHead ← Field.get
    let issuedBy ← Field.get
    let coSignedBy ← Field.get
    let createdAt ← Field.get
    pure ⟨scope, revokedUserId, revokedCapability, fromVersion, revocationEpoch, prevHead, issuedBy,
      coSignedBy, createdAt⟩

structure Reinstatement where
  scope : FileScope
  reinstatedUserId : Id
  supersedesEpoch : UInt64
  reinstatementEpoch : UInt64
  prevHead : Hash
  issuedBy : Id
  coSignedBy : Id
  createdAt : Timestamp
  deriving DecidableEq

instance : Canonical Reinstatement where
  TYPE_ID := 0x0007
  encodeBody v :=
    [Field.put v.scope, Field.put v.reinstatedUserId, Field.put v.supersedesEpoch,
      Field.put v.reinstatementEpoch, Field.put v.prevHead, Field.put v.issuedBy,
      Field.put v.coSignedBy, Field.put v.createdAt].flatten
  decodeBody := do
    let scope ← Field.get
    let reinstatedUserId ← Field.get
    let supersedesEpoch ← Field.get
    let reinstatementEpoch ← Field.get
    let prevHead ← Field.get
    let issuedBy ← Field.get
    let coSignedBy ← Field.get
    let createdAt ← Field.get
    pure ⟨scope, reinstatedUserId, supersedesEpoch, reinstatementEpoch, prevHead, issuedBy,
      coSignedBy, createdAt⟩

structure KeyCompromise where
  userId : Id
  keyVersion : UInt64
  effectiveFrom : Timestamp
  prevHead : Hash
  issuedBy : Id
  coSignedBy : Id
  createdAt : Timestamp
  deriving DecidableEq

instance : Canonical KeyCompromise where
  TYPE_ID := 0x0008
  encodeBody v :=
    [Field.put v.userId, Field.put v.keyVersion, Field.put v.effectiveFrom, Field.put v.prevHead,
      Field.put v.issuedBy, Field.put v.coSignedBy, Field.put v.createdAt].flatten
  decodeBody := do
    let userId ← Field.get
    let keyVersion ← Field.get
    let effectiveFrom ← Field.get
    let prevHead ← Field.get
    let issuedBy ← Field.get
    let coSignedBy ← Field.get
    let createdAt ← Field.get
    pure ⟨userId, keyVersion, effectiveFrom, prevHead, issuedBy, coSignedBy, createdAt⟩

structure AuthProofContext where
  serverId : Text
  tlsExporter : Bytes32
  nonce : Bytes32
  timestamp : Timestamp
  deriving DecidableEq

instance : Canonical AuthProofContext where
  TYPE_ID := 0x0009
  encodeBody v :=
    [Field.put v.serverId, Field.put v.tlsExporter, Field.put v.nonce,
      Field.put v.timestamp].flatten
  decodeBody := do
    let serverId ← Field.get
    let tlsExporter ← Field.get
    let nonce ← Field.get
    let timestamp ← Field.get
    pure ⟨serverId, tlsExporter, nonce, timestamp⟩

/-- The HPKE `info` a wrapped key is bound to. -/
structure WrapContext where
  fileId : Id
  version : UInt64
  recipientId : Id
  deriving DecidableEq

instance : Canonical WrapContext where
  TYPE_ID := 0x000A
  encodeBody v :=
    [Field.put v.fileId, Field.put v.version, Field.put v.recipientId].flatten
  decodeBody := do
    let fileId ← Field.get
    let version ← Field.get
    let recipientId ← Field.get
    pure ⟨fileId, version, recipientId⟩

/-- The associated data of one encrypted chunk. -/
structure ChunkAad where
  fileId : Id
  version : UInt64
  streamType : StreamType
  chunkIndex : UInt64
  isLast : Bool
  deriving DecidableEq

instance : Canonical ChunkAad where
  TYPE_ID := 0x000B
  encodeBody v :=
    [Field.put v.fileId, Field.put v.version, Field.put v.streamType, Field.put v.chunkIndex,
      Field.put v.isLast].flatten
  decodeBody := do
    let fileId ← Field.get
    let version ← Field.get
    let streamType ← Field.get
    let chunkIndex ← Field.get
    let isLast ← Field.get
    pure ⟨fileId, version, streamType, chunkIndex, isLast⟩

structure FingerprintInput where
  encPub : X25519Pub
  sigPub : Ed25519Pub
  deriving DecidableEq

instance : Canonical FingerprintInput where
  TYPE_ID := 0x000C
  encodeBody v :=
    [Field.put v.encPub, Field.put v.sigPub].flatten
  decodeBody := do
    let encPub ← Field.get
    let sigPub ← Field.get
    pure ⟨encPub, sigPub⟩

/-- One entry of a bundle body, emitted inline and without a type id. -/
structure BundleMember where
  fileId : Id
  fileType : FileType
  deriving DecidableEq

instance : Field BundleMember where
  put v := [Field.put v.fileId, Field.put v.fileType].flatten
  get := do
    let fileId ← Field.get
    let fileType ← Field.get
    pure ⟨fileId, fileType⟩

/-- The content of a bundle file: its members, in the order the author gave them. -/
structure BundleBody where
  members : List BundleMember
  deriving DecidableEq

instance : Canonical BundleBody where
  TYPE_ID := 0x000E
  encodeBody v :=
    [Writer.u16 (UInt16.ofNat v.members.length), v.members.flatMap Field.put].flatten
  decodeBody := do
    let count ← Reader.u16
    let members ← readMany Field.get count.toNat
    pure ⟨members⟩

/-- One file of a backup bundle, emitted inline. -/
structure BackupEntry where
  path : Text
  len : UInt64
  digest : Hash
  deriving DecidableEq

instance : Field BackupEntry where
  put v := [Field.put v.path, Field.put v.len, Field.put v.digest].flatten
  get := do
    let path ← Field.get
    let len ← Field.get
    let digest ← Field.get
    pure ⟨path, len, digest⟩

/-- One sealed part of a backup bundle, emitted inline. -/
structure BackupPart where
  len : UInt64
  digest : Hash
  deriving DecidableEq

instance : Field BackupPart where
  put v := [Field.put v.len, Field.put v.digest].flatten
  get := do
    let len ← Field.get
    let digest ← Field.get
    pure ⟨len, digest⟩

/-- The authenticated table of contents of one sealed backup bundle. -/
structure BackupIndex where
  gitSha : Text
  entries : List BackupEntry
  parts : List BackupPart
  createdAt : Timestamp
  deriving DecidableEq

instance : Canonical BackupIndex where
  TYPE_ID := 0x000F
  encodeBody v :=
    [Field.put v.gitSha, Writer.u32 (UInt32.ofNat v.entries.length), v.entries.flatMap Field.put,
      Writer.u32 (UInt32.ofNat v.parts.length), v.parts.flatMap Field.put,
      Field.put v.createdAt].flatten
  decodeBody := do
    let gitSha ← Field.get
    let entryCount ← Reader.u32
    let entries ← readMany Field.get entryCount.toNat
    let partCount ← Reader.u32
    let parts ← readMany Field.get partCount.toNat
    let createdAt ← Field.get
    pure ⟨gitSha, entries, parts, createdAt⟩

end MaxSecu
