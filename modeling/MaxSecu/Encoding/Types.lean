import Mathlib.Data.Vector.Basic
import MaxSecu.Framework.AscendingList
import MaxSecu.Encoding.Primitives

/-!
# Domain and identifier types

The field types of the signed and hashed structures, and the `Field` class that composes them.
Each field is responsible for its own strict decode rules: unknown enum codepoints, a set that
does not ascend, a malformed presence byte.

`LawfulField` is the fact the structures rest on: a field has exactly one canonical byte form, and
its reader accepts that form alone.
-/

namespace MaxSecu

open PrefixReader AscendingList

/-- A field that has exactly one canonical byte form. -/
class Field (α : Type) where
  put : α → List UInt8
  get : Reader α

/-- The reader of a field accepts exactly what its writer emits, and leaves `nonCanonical` to the
re-encode guard. -/
class LawfulField (α : Type) [Field α] : Prop where
  get_reads : Reads (Field.get : Reader α) (fun _ => True) Field.put
  get_rejectsWithin : RejectsWithin (Field.get : Reader α) (· ≠ .nonCanonical)

lemma Field.run_get_eq_ok {α : Type} [Field α] [LawfulField α] {buf rest : List UInt8} {a : α} :
    (Field.get : Reader α).run buf = .ok (a, rest) ↔ buf = Field.put a ++ rest := by
  rw [LawfulField.get_reads _ _ _, true_and]

lemma Field.exact_seq {α γ : Type} [Field α] [LawfulField α] {f : α → Reader γ} {wf : γ → Prop}
    {put : γ → List UInt8} {proj : γ → α}
    (hf : ∀ a, Exact (f a) (fun c => wf c ∧ proj c = a) put (· ≠ .nonCanonical)) :
    Exact (Field.get >>= f) wf (fun c => Field.put (proj c) ++ put c) (· ≠ .nonCanonical) :=
  Exact.seq proj ⟨LawfulField.get_reads, LawfulField.get_rejectsWithin⟩ (fun a _ => hf a)
    fun _ _ => trivial

/-! ## Integers and `bool` -/

instance : Field UInt8 := ⟨Writer.u8, Reader.u8⟩

instance : Field UInt16 := ⟨Writer.u16, Reader.u16⟩

instance : Field UInt32 := ⟨Writer.u32, Reader.u32⟩

instance : Field UInt64 := ⟨Writer.u64, Reader.u64⟩

instance : Field Bool := ⟨Writer.bool, Reader.bool⟩

instance : LawfulField UInt8 := ⟨Reader.u8_reads, Reader.u8_rejectsWithin⟩

instance : LawfulField UInt16 := ⟨Reader.u16_reads, Reader.u16_rejectsWithin⟩

instance : LawfulField UInt32 := ⟨Reader.u32_reads, Reader.u32_rejectsWithin⟩

instance : LawfulField UInt64 := ⟨Reader.u64_reads, Reader.u64_rejectsWithin⟩

instance : LawfulField Bool := ⟨Reader.bool_reads, Reader.bool_rejectsWithin⟩

/-! ## Options -/

section Option

variable {α : Type} [Field α]

/-- A presence byte, then the value when there is one. -/
instance : Field (Option α) where
  put
    | none => Writer.u8 0x00
    | some v => Writer.u8 0x01 ++ Field.put v
  get := do
    match ← Reader.u8 with
    | 0x00 => pure none
    | 0x01 => do
      let v ← Field.get
      pure (some v)
    | other => throw (.invalidPresenceByte other)

instance [LawfulField α] : LawfulField (Option α) where
  get_reads := by
    intro buf o rest
    simp only [Field.get, run_bind_eq_ok, Reader.u8_reads _ _ _, true_and]
    constructor
    · rintro ⟨tag, mid, rfl, h⟩
      split at h
      · obtain ⟨rfl, rfl⟩ := run_pure_eq_ok.mp h
        rfl
      · simp only [run_bind_eq_ok, run_pure_eq_ok, Field.run_get_eq_ok] at h
        obtain ⟨v, _, rfl, rfl, rfl⟩ := h
        simp [Field.put]
      · exact (run_throw_eq_ok.mp h).elim
    · rintro rfl
      cases o with
      | none => exact ⟨0x00, rest, rfl, rfl⟩
      | some v =>
        refine ⟨0x01, Field.put v ++ rest, by simp [Field.put], ?_⟩
        simp only [run_bind_eq_ok, run_pure_eq_ok, Field.run_get_eq_ok]
        exact ⟨v, rest, rfl, rfl, rfl⟩
  get_rejectsWithin := by
    refine Reader.u8_rejectsWithin.bind fun tag => ?_
    split
    · exact .pure _
    · exact LawfulField.get_rejectsWithin.bind fun v => .pure _
    · exact .throw (by simp)

end Option

/-! ## Identifiers and fixed byte strings -/

/-- 128-bit identifier. -/
structure Id where
  bytes : Bytes 16
  deriving DecidableEq

/-- A raw 32-byte value: a public key, a SHA-256 hash, or a nonce. -/
structure Bytes32 where
  bytes : Bytes 32
  deriving DecidableEq

def MLKEM768_PUB_LEN : ℕ := 1184

/-- An ML-KEM-768 encapsulation key. -/
structure MlKemPub where
  bytes : Bytes MLKEM768_PUB_LEN
  deriving DecidableEq

abbrev X25519Pub := Bytes32

abbrev Ed25519Pub := Bytes32

abbrev Hash := Bytes32

/-- Milliseconds since the Unix epoch. -/
structure Timestamp where
  millis : UInt64
  deriving DecidableEq

instance : Field Id where
  put v := Writer.fixed v.bytes.toList
  get := do
    let b ← Reader.fixed 16
    pure ⟨b⟩

instance : Field Bytes32 where
  put v := Writer.fixed v.bytes.toList
  get := do
    let b ← Reader.fixed 32
    pure ⟨b⟩

instance : Field MlKemPub where
  put v := Writer.fixed v.bytes.toList
  get := do
    let b ← Reader.fixed MLKEM768_PUB_LEN
    pure ⟨b⟩

instance : Field Timestamp where
  put v := Writer.u64 v.millis
  get := do
    let v ← Reader.u64
    pure ⟨v⟩

instance [UnicodeNormalization] : Field Text where
  put v := Writer.text v.str
  get := Reader.text

instance : LawfulField Id where
  get_reads := (Reader.fixed_reads 16).equiv ⟨Id.mk, Id.bytes, fun _ => rfl, fun _ => rfl⟩
  get_rejectsWithin := (Reader.fixed_rejectsWithin 16).bind fun _ => .pure _

instance : LawfulField Bytes32 where
  get_reads := (Reader.fixed_reads 32).equiv ⟨Bytes32.mk, Bytes32.bytes, fun _ => rfl, fun _ => rfl⟩
  get_rejectsWithin := (Reader.fixed_rejectsWithin 32).bind fun _ => .pure _

instance : LawfulField MlKemPub where
  get_reads :=
    (Reader.fixed_reads _).equiv ⟨MlKemPub.mk, MlKemPub.bytes, fun _ => rfl, fun _ => rfl⟩
  get_rejectsWithin := (Reader.fixed_rejectsWithin _).bind fun _ => .pure _

instance : LawfulField Timestamp where
  get_reads := Reader.u64_reads.equiv ⟨Timestamp.mk, Timestamp.millis, fun _ => rfl, fun _ => rfl⟩
  get_rejectsWithin := Reader.u64_rejectsWithin.bind fun _ => .pure _

instance [UnicodeNormalization] : LawfulField Text :=
  ⟨Reader.text_reads, Reader.text_rejectsWithin⟩

/-- Build a `Text`, normalizing to NFC and enforcing `MAX_TEXT`. -/
def Text.new [UnicodeNormalization] (s : String) : Except DecodeError Text :=
  if h : (UnicodeNormalization.nfc s).utf8ByteSize > MAX_TEXT then
    .error (.textTooLong (UnicodeNormalization.nfc s).utf8ByteSize MAX_TEXT)
  else
    .ok ⟨UnicodeNormalization.nfc s, UnicodeNormalization.isNfc_nfc s, not_lt.mp h⟩

/-! ## Enumerations

An enumeration is a codepoint registry: the reader looks the tag up, and an unknown one is rejected
under the registry's name. -/

section Enum

variable {α β : Type}

/-- Read a tag and look it up in the registry `kind`. -/
def Reader.enum (tag : Reader β) (kind : String) (value : β → UInt32) (ofCodepoint : β → Option α) :
    Reader α := do
  let cp ← tag
  match ofCodepoint cp with
  | some v => pure v
  | none => throw (.unknownEnum kind (value cp))

variable {tag : Reader β} {putTag : β → List UInt8} {kind : String} {value : β → UInt32}
  {ofCodepoint : β → Option α} {codepoint : α → β}

lemma Reader.enum_reads (htag : Reads tag (fun _ => True) putTag)
    (hcode : ∀ cp v, ofCodepoint cp = some v ↔ codepoint v = cp) :
    Reads (Reader.enum tag kind value ofCodepoint) (fun _ => True)
      fun v => putTag (codepoint v) := by
  intro buf v rest
  simp only [Reader.enum, run_bind_eq_ok, htag _ _ _, true_and]
  constructor
  · rintro ⟨cp, mid, rfl, h⟩
    split at h
    · rename_i v' hv'
      obtain ⟨rfl, rfl⟩ := run_pure_eq_ok.mp h
      rw [(hcode _ _).mp hv']
    · exact (run_throw_eq_ok.mp h).elim
  · rintro rfl
    refine ⟨codepoint v, rest, rfl, ?_⟩
    rw [(hcode _ v).mpr rfl]
    exact run_pure_eq_ok.mpr ⟨rfl, rfl⟩

lemma Reader.enum_rejectsWithin (htag : RejectsWithin tag (· ≠ .nonCanonical)) :
    RejectsWithin (Reader.enum tag kind value ofCodepoint) (· ≠ .nonCanonical) := by
  refine htag.bind fun cp => ?_
  split
  · exact .pure _
  · exact .throw (by simp)

end Enum

/-- The algorithm-agility identifier: the classical suite, and the PQ-hybrid wrap suite. -/
inductive Suite
  | v1
  | v2
  deriving DecidableEq

def Suite.codepoint : Suite → UInt16
  | .v1 => 0x0001
  | .v2 => 0x0002

def Suite.ofCodepoint : UInt16 → Option Suite
  | 0x0001 => some .v1
  | 0x0002 => some .v2
  | _ => none

inductive Role
  | user
  | admin
  deriving DecidableEq

instance : Fintype Role := ⟨{.user, .admin}, fun r => by cases r <;> simp⟩

def Role.codepoint : Role → UInt8
  | .user => 0x01
  | .admin => 0x02

def Role.ofCodepoint : UInt8 → Option Role
  | 0x01 => some .user
  | 0x02 => some .admin
  | _ => none

inductive RecipientType
  | user
  | recovery
  deriving DecidableEq

def RecipientType.codepoint : RecipientType → UInt8
  | .user => 0x01
  | .recovery => 0x02

def RecipientType.ofCodepoint : UInt8 → Option RecipientType
  | 0x01 => some .user
  | 0x02 => some .recovery
  | _ => none

inductive StreamType
  | content
  | metadata
  | thumbnail
  | preview
  deriving DecidableEq

instance : Fintype StreamType :=
  ⟨{.content, .metadata, .thumbnail, .preview}, fun s => by cases s <;> simp⟩

def StreamType.codepoint : StreamType → UInt8
  | .content => 0x01
  | .metadata => 0x02
  | .thumbnail => 0x03
  | .preview => 0x04

def StreamType.ofCodepoint : UInt8 → Option StreamType
  | 0x01 => some .content
  | 0x02 => some .metadata
  | 0x03 => some .thumbnail
  | 0x04 => some .preview
  | _ => none

inductive Compression
  | none
  | zstd
  deriving DecidableEq

def Compression.codepoint : Compression → UInt8
  | .none => 0x00
  | .zstd => 0x01

def Compression.ofCodepoint : UInt8 → Option Compression
  | 0x00 => some .none
  | 0x01 => some .zstd
  | _ => Option.none

/-- The server-visible and authenticated listing key. -/
inductive FileType
  | video
  | image
  | blog
  | generic
  | bundle
  deriving DecidableEq

def FileType.codepoint : FileType → UInt8
  | .video => 0x01
  | .image => 0x02
  | .blog => 0x03
  | .generic => 0x04
  | .bundle => 0x05

def FileType.ofCodepoint : UInt8 → Option FileType
  | 0x01 => some .video
  | 0x02 => some .image
  | 0x03 => some .blog
  | 0x04 => some .generic
  | 0x05 => some .bundle
  | _ => none

lemma Suite.ofCodepoint_eq_some (cp : UInt16) (v : Suite) :
    Suite.ofCodepoint cp = some v ↔ v.codepoint = cp := by
  fun_cases Suite.ofCodepoint cp <;> cases v <;> simp_all [Suite.codepoint, eq_comm]

lemma Role.ofCodepoint_eq_some (cp : UInt8) (v : Role) :
    Role.ofCodepoint cp = some v ↔ v.codepoint = cp := by
  fun_cases Role.ofCodepoint cp <;> cases v <;> simp_all [Role.codepoint, eq_comm]

lemma RecipientType.ofCodepoint_eq_some (cp : UInt8) (v : RecipientType) :
    RecipientType.ofCodepoint cp = some v ↔ v.codepoint = cp := by
  fun_cases RecipientType.ofCodepoint cp <;> cases v <;> simp_all [RecipientType.codepoint, eq_comm]

lemma StreamType.ofCodepoint_eq_some (cp : UInt8) (v : StreamType) :
    StreamType.ofCodepoint cp = some v ↔ v.codepoint = cp := by
  fun_cases StreamType.ofCodepoint cp <;> cases v <;> simp_all [StreamType.codepoint, eq_comm]

lemma Compression.ofCodepoint_eq_some (cp : UInt8) (v : Compression) :
    Compression.ofCodepoint cp = some v ↔ v.codepoint = cp := by
  fun_cases Compression.ofCodepoint cp <;> cases v <;> simp_all [Compression.codepoint, eq_comm]

lemma FileType.ofCodepoint_eq_some (cp : UInt8) (v : FileType) :
    FileType.ofCodepoint cp = some v ↔ v.codepoint = cp := by
  fun_cases FileType.ofCodepoint cp <;> cases v <;> simp_all [FileType.codepoint, eq_comm]

instance : Field Suite where
  put v := Writer.u16 v.codepoint
  get := Reader.enum Reader.u16 "Suite" UInt16.toUInt32 Suite.ofCodepoint

instance : Field Role where
  put v := Writer.u8 v.codepoint
  get := Reader.enum Reader.u8 "Role" UInt8.toUInt32 Role.ofCodepoint

instance : Field RecipientType where
  put v := Writer.u8 v.codepoint
  get := Reader.enum Reader.u8 "RecipientType" UInt8.toUInt32 RecipientType.ofCodepoint

instance : Field StreamType where
  put v := Writer.u8 v.codepoint
  get := Reader.enum Reader.u8 "StreamType" UInt8.toUInt32 StreamType.ofCodepoint

instance : Field Compression where
  put v := Writer.u8 v.codepoint
  get := Reader.enum Reader.u8 "Compression" UInt8.toUInt32 Compression.ofCodepoint

instance : Field FileType where
  put v := Writer.u8 v.codepoint
  get := Reader.enum Reader.u8 "FileType" UInt8.toUInt32 FileType.ofCodepoint

instance : LawfulField Suite :=
  ⟨Reader.enum_reads Reader.u16_reads Suite.ofCodepoint_eq_some,
    Reader.enum_rejectsWithin Reader.u16_rejectsWithin⟩

instance : LawfulField Role :=
  ⟨Reader.enum_reads Reader.u8_reads Role.ofCodepoint_eq_some,
    Reader.enum_rejectsWithin Reader.u8_rejectsWithin⟩

instance : LawfulField RecipientType :=
  ⟨Reader.enum_reads Reader.u8_reads RecipientType.ofCodepoint_eq_some,
    Reader.enum_rejectsWithin Reader.u8_rejectsWithin⟩

instance : LawfulField StreamType :=
  ⟨Reader.enum_reads Reader.u8_reads StreamType.ofCodepoint_eq_some,
    Reader.enum_rejectsWithin Reader.u8_rejectsWithin⟩

instance : LawfulField Compression :=
  ⟨Reader.enum_reads Reader.u8_reads Compression.ofCodepoint_eq_some,
    Reader.enum_rejectsWithin Reader.u8_rejectsWithin⟩

instance : LawfulField FileType :=
  ⟨Reader.enum_reads Reader.u8_reads FileType.ofCodepoint_eq_some,
    Reader.enum_rejectsWithin Reader.u8_rejectsWithin⟩

/-! ## File scopes -/

/-- A specific file or the account-wide `*` sentinel. -/
inductive FileScope
  | specific (id : Id)
  | accountWide
  deriving DecidableEq

instance : Field FileScope where
  put
    | .specific id => Writer.u8 0x01 ++ Field.put id
    | .accountWide => Writer.u8 0x02
  get := do
    match ← Reader.u8 with
    | 0x01 => do
      let id ← Field.get
      pure (.specific id)
    | 0x02 => pure .accountWide
    | other => throw (.unknownEnum "FileScope" other.toUInt32)

instance : LawfulField FileScope where
  get_reads := by
    intro buf scope rest
    simp only [Field.get, run_bind_eq_ok, Reader.u8_reads _ _ _, true_and]
    constructor
    · rintro ⟨tag, mid, rfl, h⟩
      split at h
      · obtain ⟨id, _, hid, hpure⟩ := run_bind_eq_ok.mp h
        obtain rfl := Field.run_get_eq_ok.mp hid
        obtain ⟨rfl, rfl⟩ := run_pure_eq_ok.mp hpure
        simp [Field.put]
      · obtain ⟨rfl, rfl⟩ := run_pure_eq_ok.mp h
        rfl
      · exact (run_throw_eq_ok.mp h).elim
    · rintro rfl
      cases scope with
      | specific id =>
        refine ⟨0x01, Field.put id ++ rest, by simp [Field.put], ?_⟩
        exact run_bind_eq_ok.mpr
          ⟨id, rest, Field.run_get_eq_ok.mpr rfl, run_pure_eq_ok.mpr ⟨rfl, rfl⟩⟩
      | accountWide => exact ⟨0x02, rest, rfl, rfl⟩
  get_rejectsWithin := by
    refine Reader.u8_rejectsWithin.bind fun tag => ?_
    split
    · exact LawfulField.get_rejectsWithin.bind fun id => .pure _
    · exact .pure _
    · exact .throw (by simp)

/-! ## Role sets -/

/-- A set of roles in ascending codepoint order.  The list is private in the source; here the order
is a field. -/
@[ext]
structure RoleSet where
  roles : List Role
  ascending : Ascending (fun r : Role => r.codepoint.toNat) roles
  deriving DecidableEq

/-- Sort and de-duplicate any list of roles. -/
def RoleSet.new (roles : List Role) : RoleSet :=
  ⟨sortDedupBy (fun r => r.codepoint.toNat) roles, sortDedupBy_ascending _ roles⟩

/-- The registry holds `User` and `Admin`. -/
def RoleSet.REGISTRY_SIZE : ℕ := 2

/-- The counted loop of the role-set reader, before its result is sorted. -/
def RoleSet.getRoles (count : ℕ) : Reader (List Role) :=
  readAscending Field.get (fun r => r.codepoint.toNat) .setNotAscending count none

instance : Field RoleSet where
  put v := Writer.u8 (UInt8.ofNat v.roles.length) ++ v.roles.flatMap Field.put
  get := do
    let count ← Reader.u8
    if count.toNat > RoleSet.REGISTRY_SIZE then
      throw (.setTooLong count.toNat RoleSet.REGISTRY_SIZE)
    else
      let roles ← RoleSet.getRoles count.toNat
      -- Sorting the accepted list backs the order check up; on what reaches it, it does nothing.
      pure (RoleSet.new roles)

@[simp] lemma RoleSet.new_roles (v : RoleSet) : RoleSet.new v.roles = v :=
  RoleSet.ext (sortDedupBy_of_ascending v.ascending)

lemma RoleSet.length_roles_le (v : RoleSet) : v.roles.length ≤ REGISTRY_SIZE :=
  length_le_card_of_ascending v.ascending

lemma RoleSet.getRoles_reads (count : ℕ) :
    Reads (RoleSet.getRoles count)
      (fun l => l.length = count ∧ Ascending (fun r : Role => r.codepoint.toNat) l)
      (fun l => l.flatMap Field.put) := by
  intro buf l rest
  rw [RoleSet.getRoles, readAscending_reads LawfulField.get_reads _ _ _ _ _ _ _]
  simp [AscendsFrom]

lemma RoleSet.roles_new_of_getRoles {count : ℕ} {buf rest : List UInt8} {l : List Role}
    (h : (RoleSet.getRoles count).run buf = .ok (l, rest)) : (RoleSet.new l).roles = l :=
  sortDedupBy_of_ascending ((RoleSet.getRoles_reads count _ _ _).mp h).1.2

instance : LawfulField RoleSet where
  get_reads := by
    intro buf v rest
    simp only [Field.get, run_bind_eq_ok, Reader.u8_reads _ _ _, true_and]
    constructor
    · rintro ⟨count, _, rfl, h⟩
      split at h
      · exact (run_throw_eq_ok.mp h).elim
      · obtain ⟨l, _, hl, hpure⟩ := run_bind_eq_ok.mp h
        obtain ⟨rfl, rfl⟩ := run_pure_eq_ok.mp hpure
        have hroles := RoleSet.roles_new_of_getRoles hl
        obtain ⟨⟨hlen, -⟩, rfl⟩ := (RoleSet.getRoles_reads _ _ _ _).mp hl
        simp [Field.put, hroles, hlen]
    · rintro rfl
      have hmax := v.length_roles_le
      have hcount : (UInt8.ofNat v.roles.length).toNat = v.roles.length := by
        rw [UInt8.toNat_ofNat']
        exact Nat.mod_eq_of_lt (hmax.trans_lt (by decide))
      refine ⟨UInt8.ofNat v.roles.length, v.roles.flatMap Field.put ++ rest,
        by simp [Field.put], ?_⟩
      rw [hcount, if_neg (not_lt.mpr hmax)]
      refine run_bind_eq_ok.mpr ⟨v.roles, rest, ?_, run_pure_eq_ok.mpr ⟨v.new_roles, rfl⟩⟩
      exact (RoleSet.getRoles_reads _ _ _ _).mpr ⟨⟨rfl, v.ascending⟩, rfl⟩
  get_rejectsWithin := by
    refine Reader.u8_rejectsWithin.bind fun count => .ite (.throw (by simp)) ?_
    refine RejectsWithin.bind ?_ fun l => .pure _
    exact readAscending_rejectsWithin LawfulField.get_rejectsWithin (by simp) _ _

end MaxSecu
