import MaxSecu.Framework.BigEndian
import MaxSecu.Framework.PrefixReader

/-!
# Primitive encodings

The byte-level layer of the canonical encoding: fixed-width big-endian integers, the two-valued
`bool`, fixed and length-prefixed byte strings, and NFC-checked text.

A `Writer` function returns the bytes it appends; it emits the one canonical form.  A `Reader` is
a prefix reader over bytes, and every deviation is a hard reject with a `DecodeError`.

Each primitive comes with two laws.  Its `_reads` lemma says the reader accepts exactly what the
writer emits, and its `_rejectsWithin` lemma says it never raises `DecodeError.nonCanonical`,
which is left to the re-encode guard of the top-level decoder.
-/

namespace MaxSecu

/-- Why a byte string was rejected by the strict decoder. -/
inductive DecodeError
  /-- Fewer bytes remained than a fixed-width field required. -/
  | shortInput (needed remaining : ℕ)
  /-- Input was not fully consumed after the top-level struct. -/
  | trailingBytes (remaining : ℕ)
  | invalidBool (byte : UInt8)
  /-- A length prefix exceeded the remaining input. -/
  | lengthOverrun (len : UInt64) (remaining : ℕ)
  | invalidUtf8
  | nonNfcText
  | textTooLong (len max : ℕ)
  | unknownEnum (kind : String) (value : UInt32)
  | setNotAscending
  | setTooLong (count max : ℕ)
  | invalidPresenceByte (byte : UInt8)
  | unknownTypeId (id : UInt16)
  | wrongTypeId (expected got : UInt16)
  | fileScopeMalformed
  | recoveryIdMismatch
  | streamsNotAscending
  /-- The value decoded, but it re-encodes to other bytes. -/
  | nonCanonical
  deriving DecidableEq, Repr

def MAX_TEXT : ℕ := 1024

abbrev Bytes (n : ℕ) := List.Vector UInt8 n

/-- The Unicode normalisation crate: the NFC test the reader runs and the normaliser the `Text`
constructor runs.  Only the fact that the normaliser's output passes the test is relied on. -/
class UnicodeNormalization where
  isNfc : String → Bool
  nfc : String → String
  isNfc_nfc : ∀ s, isNfc (nfc s) = true

/-- NFC-normalized, length-bounded UTF-8 text.  The source keeps the string private, so that every
value has passed one of the two constructors; here the bounds are fields. -/
@[ext]
structure Text [UnicodeNormalization] where
  str : String
  isNfc : UnicodeNormalization.isNfc str = true
  size_le : str.utf8ByteSize ≤ MAX_TEXT
  deriving DecidableEq

/-! ## The writer -/

namespace Writer

def u8 (v : UInt8) : List UInt8 := [v]

def u16 (v : UInt16) : List UInt8 := BigEndian.toBytes 2 v.toNat

def u32 (v : UInt32) : List UInt8 := BigEndian.toBytes 4 v.toNat

def u64 (v : UInt64) : List UInt8 := BigEndian.toBytes 8 v.toNat

def bool (v : Bool) : List UInt8 := [if v then 0x01 else 0x00]

/-- A raw fixed-width field carries no prefix. -/
def fixed (b : List UInt8) : List UInt8 := b

/-- A `u32` length, then the bytes.  The length is truncated to 32 bits, as the cast is. -/
def var (b : List UInt8) : List UInt8 := u32 (UInt32.ofNat b.length) ++ b

def text (s : String) : List UInt8 := var s.toByteArray.data.toList

@[simp] lemma length_u8 (v : UInt8) : (u8 v).length = 1 := rfl

@[simp] lemma length_u16 (v : UInt16) : (u16 v).length = 2 := BigEndian.length_toBytes _ _

@[simp] lemma length_u32 (v : UInt32) : (u32 v).length = 4 := BigEndian.length_toBytes _ _

@[simp] lemma length_u64 (v : UInt64) : (u64 v).length = 8 := BigEndian.length_toBytes _ _

@[simp] lemma length_bool (v : Bool) : (bool v).length = 1 := rfl

@[simp] lemma length_fixed (b : List UInt8) : (fixed b).length = b.length := rfl

@[simp] lemma length_var (b : List UInt8) : (var b).length = 4 + b.length := by
  simp [var]

@[simp] lemma length_text (s : String) : (text s).length = 4 + s.utf8ByteSize := by
  simp [text]

lemma u32_inj {v w : UInt32} (h : u32 v = u32 w) : v = w := by
  have hread := congrArg BigEndian.ofBytes h
  unfold u32 at hread
  rw [BigEndian.ofBytes_toBytes_of_lt v.toNat_lt, BigEndian.ofBytes_toBytes_of_lt w.toNat_lt] at hread
  exact UInt32.toNat_inj.mp hread

end Writer

/-! ## The reader -/

/-- Strict, fail-closed cursor over a byte string. -/
abbrev Reader (α : Type) := PrefixReader UInt8 DecodeError α

namespace Reader

open PrefixReader

def remaining : Reader ℕ := do
  let buf ← get
  pure buf.length

def take (n : ℕ) : Reader (List UInt8) := PrefixReader.take DecodeError.shortInput n

/-- The shared body of the integer reads: take `n` bytes and convert them from big-endian. -/
def bigEndian {α : Type} (n : ℕ) (ofNat : ℕ → α) : Reader α := do
  let b ← take n
  pure (ofNat (BigEndian.ofBytes b))

def u8 : Reader UInt8 := bigEndian 1 UInt8.ofNat

def u16 : Reader UInt16 := bigEndian 2 UInt16.ofNat

def u32 : Reader UInt32 := bigEndian 4 UInt32.ofNat

def u64 : Reader UInt64 := bigEndian 8 UInt64.ofNat

def bool : Reader Bool := do
  match ← u8 with
  | 0x00 => pure false
  | 0x01 => pure true
  | other => throw (.invalidBool other)

def fixed (n : ℕ) : Reader (Bytes n) := fun buf =>
  if h : buf.length < n then
    .error (.shortInput n buf.length)
  else
    .ok (⟨buf.take n, by rw [List.length_take]; omega⟩, buf.drop n)

/-- Read a `u32` length, then that many bytes; an overrun is rejected before the read. -/
def var : Reader (List UInt8) := do
  let len ← u32
  let left ← remaining
  if len.toNat > left then
    throw (.lengthOverrun len.toUInt64 left)
  else
    take len.toNat

lemma toByteArray_of_fromUTF8? {bytes : List UInt8} {s : String}
    (h : String.fromUTF8? ⟨bytes.toArray⟩ = some s) : s.toByteArray.data.toList = bytes := by
  rw [String.fromUTF8?] at h
  split at h
  · cases h
    rfl
  · cases h

lemma fromUTF8?_toByteArray (s : String) :
    String.fromUTF8? ⟨s.toByteArray.data.toList.toArray⟩ = some s := by
  have hvalid : s.toByteArray.IsValidUTF8 := s.isValidUTF8
  simp [String.fromUTF8?, hvalid, String.fromUTF8]

/-- A length-prefixed byte string of at most `MAX_TEXT` bytes, valid UTF-8 and in NFC. -/
def text [UnicodeNormalization] : Reader Text := do
  let bytes ← var
  if hmax : bytes.length > MAX_TEXT then
    throw (.textTooLong bytes.length MAX_TEXT)
  else
    match hutf8 : String.fromUTF8? ⟨bytes.toArray⟩ with
    | none => throw .invalidUtf8
    | some s =>
      if hnfc : UnicodeNormalization.isNfc s = true then
        have hsize : s.utf8ByteSize ≤ MAX_TEXT := by
          have hlen := congrArg List.length (toByteArray_of_fromUTF8? hutf8)
          simp at hlen
          omega
        pure ⟨s, hnfc, hsize⟩
      else
        throw .nonNfcText

/-- After the top-level struct nothing may be left. -/
def finish : Reader Unit := do
  let left ← remaining
  if left ≠ 0 then
    throw (.trailingBytes left)
  else
    pure ()

/-! ## Exactness of the primitives -/

lemma run_remaining_eq_ok {n : ℕ} {buf rest : List UInt8} :
    remaining.run buf = .ok (n, rest) ↔ buf.length = n ∧ buf = rest := by
  change Except.ok (buf.length, buf) = .ok (n, rest) ↔ _
  simp

lemma remaining_rejectsWithin (E : DecodeError → Prop) : RejectsWithin remaining E := by
  intro buf e h
  change Except.ok (buf.length, buf) = .error e at h
  cases h

lemma take_reads (n : ℕ) : Reads (take n) (fun s => s.length = n) id :=
  PrefixReader.take_reads _ n

lemma take_rejectsWithin (n : ℕ) : RejectsWithin (take n) (· ≠ .nonCanonical) :=
  PrefixReader.take_rejectsWithin fun _ _ => by simp

lemma bigEndian_reads {α : Type} {n : ℕ} {ofNat : ℕ → α} {toNat : α → ℕ}
    (hlt : ∀ a, toNat a < 256 ^ n) (hleft : ∀ a, ofNat (toNat a) = a)
    (hright : ∀ k, k < 256 ^ n → toNat (ofNat k) = k) :
    Reads (bigEndian n ofNat) (fun _ => True) (fun a => BigEndian.toBytes n (toNat a)) := by
  intro buf a rest
  simp only [bigEndian, run_bind_eq_ok, run_pure_eq_ok, take_reads n _ _ _, id, true_and]
  constructor
  · rintro ⟨b, mid, ⟨rfl, rfl⟩, rfl, rfl⟩
    rw [hright _ (BigEndian.ofBytes_lt b), BigEndian.toBytes_ofBytes]
  · rintro rfl
    refine ⟨_, rest, ⟨BigEndian.length_toBytes n _, rfl⟩, ?_, rfl⟩
    rw [BigEndian.ofBytes_toBytes_of_lt (hlt a), hleft]

lemma bigEndian_rejectsWithin {α : Type} (n : ℕ) (ofNat : ℕ → α) :
    RejectsWithin (bigEndian n ofNat) (· ≠ .nonCanonical) :=
  (take_rejectsWithin n).bind fun _ => .pure _

lemma u8_reads : Reads u8 (fun _ => True) Writer.u8 := by
  have h : Reads u8 (fun _ => True) fun v : UInt8 => BigEndian.toBytes 1 v.toNat :=
    bigEndian_reads (fun v => v.toNat_lt) (fun v => by simp)
      (fun k hk => by simpa using Nat.mod_eq_of_lt hk)
  have hput : (fun v : UInt8 => BigEndian.toBytes 1 v.toNat) = Writer.u8 := by
    funext v
    simp [BigEndian.toBytes, Writer.u8]
  rwa [hput] at h

lemma u16_reads : Reads u16 (fun _ => True) Writer.u16 :=
  bigEndian_reads (fun v => v.toNat_lt) (fun v => by simp)
    (fun k hk => by simpa using Nat.mod_eq_of_lt hk)

lemma u32_reads : Reads u32 (fun _ => True) Writer.u32 :=
  bigEndian_reads (fun v => v.toNat_lt) (fun v => by simp)
    (fun k hk => by simpa using Nat.mod_eq_of_lt hk)

lemma u64_reads : Reads u64 (fun _ => True) Writer.u64 :=
  bigEndian_reads (fun v => v.toNat_lt) (fun v => by simp)
    (fun k hk => by simpa using Nat.mod_eq_of_lt hk)

lemma u8_rejectsWithin : RejectsWithin u8 (· ≠ .nonCanonical) := bigEndian_rejectsWithin _ _

lemma u16_rejectsWithin : RejectsWithin u16 (· ≠ .nonCanonical) := bigEndian_rejectsWithin _ _

lemma u32_rejectsWithin : RejectsWithin u32 (· ≠ .nonCanonical) := bigEndian_rejectsWithin _ _

lemma u64_rejectsWithin : RejectsWithin u64 (· ≠ .nonCanonical) := bigEndian_rejectsWithin _ _

lemma bool_reads : Reads bool (fun _ => True) Writer.bool := by
  intro buf v rest
  simp only [bool, run_bind_eq_ok, u8_reads _ _ _, true_and]
  constructor
  · rintro ⟨tag, mid, rfl, h⟩
    split at h
    · obtain ⟨rfl, rfl⟩ := run_pure_eq_ok.mp h
      rfl
    · obtain ⟨rfl, rfl⟩ := run_pure_eq_ok.mp h
      rfl
    · exact (run_throw_eq_ok.mp h).elim
  · rintro rfl
    cases v
    · exact ⟨0x00, rest, rfl, rfl⟩
    · exact ⟨0x01, rest, rfl, rfl⟩

lemma bool_rejectsWithin : RejectsWithin bool (· ≠ .nonCanonical) := by
  refine u8_rejectsWithin.bind fun tag => ?_
  split
  · exact .pure _
  · exact .pure _
  · exact .throw (by simp)

lemma fixed_reads (n : ℕ) : Reads (fixed n) (fun _ => True) fun v => Writer.fixed v.toList := by
  intro buf v rest
  simp only [fixed, StateT.run, Writer.fixed, true_and]
  split
  · rename_i hshort
    constructor
    · rintro ⟨⟩
    · rintro rfl
      simp at hshort
  · rename_i hlong
    constructor
    · rintro ⟨⟩
      exact (List.take_append_drop n buf).symm
    · rintro rfl
      have hlen : v.toList.length = n := v.toList_length
      exact congrArg Except.ok
        (Prod.ext (List.Vector.eq _ _ (List.take_left' hlen)) (List.drop_left' hlen))

lemma fixed_rejectsWithin (n : ℕ) : RejectsWithin (fixed n) (· ≠ .nonCanonical) := by
  intro buf e h
  simp only [fixed, StateT.run] at h
  split at h
  · cases h
    simp
  · cases h

lemma var_reads : Reads var (fun b => b.length < 2 ^ 32) Writer.var := by
  intro buf b rest
  simp only [var, run_bind_eq_ok, u32_reads _ _ _, run_remaining_eq_ok, true_and]
  constructor
  · rintro ⟨len, _, rfl, _, mid, ⟨rfl, rfl⟩, h⟩
    split at h
    · exact (run_throw_eq_ok.mp h).elim
    · obtain ⟨hlen, rfl⟩ := (take_reads _ _ _ _).mp h
      refine ⟨hlen ▸ len.toNat_lt, ?_⟩
      rw [Writer.var, hlen]
      simp
  · rintro ⟨hlen, rfl⟩
    have hcast : (UInt32.ofNat b.length).toNat = b.length := by
      simpa using Nat.mod_eq_of_lt hlen
    refine ⟨UInt32.ofNat b.length, b ++ rest, by simp [Writer.var], _, _, ⟨rfl, rfl⟩, ?_⟩
    rw [hcast, if_neg (by simp)]
    exact (take_reads _ _ _ _).mpr ⟨rfl, rfl⟩

lemma var_rejectsWithin : RejectsWithin var (· ≠ .nonCanonical) :=
  u32_rejectsWithin.bind fun len => (remaining_rejectsWithin _).bind fun _ =>
    .ite (.throw (by simp)) (take_rejectsWithin len.toNat)

lemma text_reads [UnicodeNormalization] :
    Reads text (fun _ => True) fun t => Writer.text t.str := by
  intro buf t rest
  simp only [text, run_bind_eq_ok, var_reads _ _ _, true_and]
  constructor
  · rintro ⟨bytes, mid, ⟨-, rfl⟩, h⟩
    split at h
    · exact (run_throw_eq_ok.mp h).elim
    split at h
    · exact (run_throw_eq_ok.mp h).elim
    rename_i s hutf8
    split at h
    · obtain ⟨rfl, rfl⟩ := run_pure_eq_ok.mp h
      rw [Writer.text, toByteArray_of_fromUTF8? hutf8]
    · exact (run_throw_eq_ok.mp h).elim
  · rintro rfl
    have hlen : t.str.toByteArray.data.toList.length = t.str.utf8ByteSize := by simp
    refine ⟨t.str.toByteArray.data.toList, rest,
      ⟨hlen ▸ t.size_le.trans_lt (by decide), rfl⟩, ?_⟩
    rw [dif_neg (by rw [hlen]; exact not_lt.mpr t.size_le)]
    split
    · rename_i hutf8
      rw [fromUTF8?_toByteArray] at hutf8
      cases hutf8
    · rename_i s hutf8
      rw [fromUTF8?_toByteArray] at hutf8
      cases hutf8
      rw [dif_pos t.isNfc]
      rfl

lemma text_rejectsWithin [UnicodeNormalization] : RejectsWithin text (· ≠ .nonCanonical) := by
  refine var_rejectsWithin.bind fun bytes => ?_
  split
  · exact .throw (by simp)
  split
  · exact .throw (by simp)
  split
  · exact .pure _
  · exact .throw (by simp)

lemma run_finish_eq_ok {buf rest : List UInt8} {u : Unit} :
    finish.run buf = .ok (u, rest) ↔ buf = [] ∧ rest = [] := by
  simp only [finish, run_bind_eq_ok, run_remaining_eq_ok]
  constructor
  · rintro ⟨_, _, ⟨rfl, rfl⟩, h⟩
    split at h
    · exact (run_throw_eq_ok.mp h).elim
    · rename_i hlen
      have hnil : buf = [] := List.length_eq_zero_iff.mp (not_not.mp hlen)
      obtain ⟨-, rfl⟩ := run_pure_eq_ok.mp h
      exact ⟨hnil, hnil⟩
  · rintro ⟨rfl, rfl⟩
    exact ⟨0, [], ⟨rfl, rfl⟩, rfl⟩

lemma finish_rejectsWithin : RejectsWithin finish (· ≠ .nonCanonical) :=
  (remaining_rejectsWithin _).bind fun _ => .ite (.throw (by simp)) (.pure _)

end Reader

end MaxSecu
