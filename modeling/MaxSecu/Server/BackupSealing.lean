import MaxSecu.Server.Mxbu
import MaxSecu.Server.Pruning

/-!
# Sealed components

A component of a backup is cut into frames, which are sealed one by one, and an index with the digests
of the sealed parts is sealed and written last.  To open it the index is opened first and then each part
that it names (`openComponent_sealComponent`).
-/

namespace MaxSecu

namespace Bundles

open ExceptRules Framing
open Mxbu (MxbuSealer MxbuOpener)

inductive BackupError
  | blob (e : BlobError)
  | mxbu (e : MxbuError)
  | decode (e : DecodeError)
  | badStamp (stamp : String)
  | badPartSize (partSize : ℕ)
  | tooManyParts
  | missingPart (component : Component) (index : UInt32)
  | partDigestMismatch (component : Component) (index : UInt32)
  | entryDigestMismatch (path : String)
  | unsafeEntryPath (path : String)
  | payloadLenMismatch (declared actual : UInt64)
  | malformedPayload
  | io

/-- The index is written last, but it is not the last frame of the payload. -/
def PART0_IS_LAST : Bool := false

def MAX_PART_SIZE : ℕ := 8 * 1024 * 1024

def isStampChar (c : Char) : Bool := c.isAlphanum || c == '-'

def validateStamp (stamp : String) : Except BackupError Unit :=
  if stamp ≠ "" ∧ stamp.utf8ByteSize ≤ 32 ∧ stamp.toList.all isStampChar then pure ()
  else throw (.badStamp stamp)

def checkPartSize (partSize : ℕ) : Except BackupError Unit :=
  if partSize = 0 ∨ partSize > MAX_PART_SIZE then throw (.badPartSize partSize) else pure ()

section Sealing

variable [UnicodeNormalization]

/-- What is known of a component of a backup. -/
structure BundleMeta where
  component : Component
  stamp : String
  gitSha : Option String
  createdAt : UInt64
  entries : List BackupEntry
  parts : List BackupPart

def optToText (gitSha : Option String) : Except BackupError Text :=
  (Text.new (gitSha.getD "")).mapError .decode

def textToOpt (t : Text) : Option String := if t.str = "" then none else some t.str

def putChunk (c : Content) (ref : String) (index : ℕ) (bytes : List UInt8) : Content := fun r i =>
  if r = ref ∧ i = index then some bytes else c r i

variable [Sha256]

/-- What the index says of a sealed part. -/
def partOf (sealedPart : List UInt8) : BackupPart :=
  ⟨UInt64.ofNat sealedPart.length, ⟨sha256 sealedPart⟩⟩

variable [Aes256GcmSeal]

/-- Seal the frames from the given index on.  Some chunk may not be written. -/
def sealFrames (sealer : MxbuSealer) (ref : String) (put : UInt32 → Option BlobError) :
    UInt32 → List (List UInt8) → Content → Except BackupError (List BackupPart) × Content
  | _, [], c => (.ok [], c)
  | idx, cur :: pending, c =>
    let sealedPart := sealer.sealPart idx pending.isEmpty cur
    match put idx with
    | some e => (.error (.blob e), c)
    | none =>
      if idx.toNat + 1 = 2 ^ 32 then (.error .tooManyParts, putChunk c ref idx.toNat sealedPart)
      else
        match sealFrames sealer ref put (idx + 1) pending (putChunk c ref idx.toNat sealedPart) with
        | (.error e, c) => (.error e, c)
        | (.ok parts, c) => (.ok (partOf sealedPart :: parts), c)

structure SealRequest where
  passphrase : String
  stamp : String
  gitSha : Option String
  component : Component
  entries : List BackupEntry
  payload : List UInt8
  argon : Argon2Params
  partSize : ℕ
  createdAt : UInt64

def SealRequest.sealer [Argon2id] (req : SealRequest) (rand : SealEntropy) :
    Except BackupError MxbuSealer := do
  validateStamp req.stamp
  checkPartSize req.partSize
  (MxbuSealer.new req.passphrase req.argon rand).mapError .mxbu

/-- Seal a component: its parts from index 1 on, and its index at 0, last. -/
def sealComponent [Argon2id] (req : SealRequest) (rand : SealEntropy) (put : UInt32 → Option BlobError)
    (c : Content) : Except BackupError BundleMeta × Content :=
  match req.sealer rand with
  | .error e => (.error e, c)
  | .ok sealer =>
    match sealFrames sealer (componentRef req.stamp req.component) put 1
        (req.payload.toChunks req.partSize) c with
    | (.error e, c) => (.error e, c)
    | (.ok parts, c) =>
      let declared := (req.entries.map (·.len)).foldl (· + ·) 0
      let total := UInt64.ofNat req.payload.length
      if req.entries ≠ [] ∧ declared ≠ total then (.error (.payloadLenMismatch declared total), c)
      else
        match optToText req.gitSha with
        | .error e => (.error e, c)
        | .ok gitSha =>
          let index : BackupIndex := ⟨gitSha, req.entries, parts, ⟨req.createdAt⟩⟩
          match put 0 with
          | some e => (.error (.blob e), c)
          | none =>
            (.ok ⟨req.component, req.stamp, textToOpt gitSha, req.createdAt, req.entries, parts⟩,
              putChunk c (componentRef req.stamp req.component) 0
                (sealer.sealPart 0 PART0_IS_LAST (encode index)))

end Sealing

section Opening

variable [UnicodeNormalization] [Sha256] [Aes256Gcm]

/-- What a tier answers when a chunk is read. -/
abbrev Reads := String → ℕ → Except BlobError (Option (List UInt8))

def readIndex [Argon2id] (read : Reads) (passphrase stamp : String) (component : Component) :
    Except BackupError (MxbuOpener × BundleMeta) := do
  validateStamp stamp
  let found ← (read (componentRef stamp component) 0).mapError BackupError.blob
  let part0 ← found.elim (throw (.missingPart component 0)) pure
  let opener ← (MxbuOpener.fromPart passphrase part0).mapError BackupError.mxbu
  let body ← (opener.openPart 0 PART0_IS_LAST part0).mapError BackupError.mxbu
  let index ← (decode BackupIndex body).mapError BackupError.decode
  pure (opener, ⟨component, stamp, textToOpt index.gitSha, index.createdAt.millis, index.entries,
    index.parts⟩)

/-- Open the parts from a position on.  Each is checked against the index before it is opened. -/
def openParts (read : Reads) (opener : MxbuOpener) (component : Component) (ref : String)
    (total : ℕ) : ℕ → List BackupPart → Except BackupError (List UInt8)
  | _, [] => pure []
  | pos, part :: parts => do
    let index := UInt32.ofNat (pos + 1)
    let found ← (read ref index.toNat).mapError BackupError.blob
    let bytes ← found.elim (throw (.missingPart component index)) pure
    if UInt64.ofNat bytes.length ≠ part.len ∨ sha256 bytes ≠ part.digest.bytes then
      throw (.partDigestMismatch component index)
    else do
      let plaintext ← (opener.openPart index (pos + 1 = total) bytes).mapError BackupError.mxbu
      let rest ← openParts read opener component ref total (pos + 1) parts
      pure (plaintext ++ rest)

def openPayload (read : Reads) (opener : MxbuOpener) (bundle : BundleMeta) :
    Except BackupError (List UInt8) :=
  openParts read opener bundle.component (componentRef bundle.stamp bundle.component)
    bundle.parts.length 0 bundle.parts

def openComponent [Argon2id] (read : Reads) (passphrase stamp : String) (component : Component) :
    Except BackupError (BundleMeta × List UInt8) := do
  let (opener, bundle) ← readIndex read passphrase stamp component
  let payload ← openPayload read opener bundle
  pure (bundle, payload)

end Opening

/-! ## What was sealed opens -/

section RoundTrip

variable [UnicodeNormalization] [Sha256] [Argon2id] [Aes256Gcm] [Aes256GcmSeal] {sealer : MxbuSealer}
  {ref : String} {put : UInt32 → Option BlobError} {c c' : Content} {frames : List (List UInt8)}
  {parts : List BackupPart} {idx : UInt32} {req : SealRequest} {rand : SealEntropy}
  {bundle : BundleMeta}

/-- The frames are held sealed from an index on, and the parts are theirs. -/
def SealedParts (sealer : MxbuSealer) (ref : String) (c : Content) :
    ℕ → List (List UInt8) → List BackupPart → Prop
  | _, [], parts => parts = []
  | i, cur :: pending, parts => ∃ rest,
      parts = partOf (sealer.sealPart (UInt32.ofNat i) pending.isEmpty cur) :: rest ∧
      c ref i = some (sealer.sealPart (UInt32.ofNat i) pending.isEmpty cur) ∧
      SealedParts sealer ref c (i + 1) pending rest

omit [UnicodeNormalization] [Argon2id] [Aes256Gcm] in
lemma SealedParts.congr {i : ℕ} (h : SealedParts sealer ref c i frames parts)
    (hsame : ∀ j, i ≤ j → c' ref j = c ref j) : SealedParts sealer ref c' i frames parts := by
  induction frames generalizing i parts with
  | nil => exact h
  | cons cur pending ih =>
    obtain ⟨rest, hparts, hheld, hrest⟩ := h
    refine ⟨rest, hparts, ?_, ih hrest fun j hj => hsame j (by omega)⟩
    rw [hsame i le_rfl, hheld]

omit [UnicodeNormalization] [Argon2id] [Aes256Gcm] in
lemma SealedParts.length_eq {i : ℕ} (h : SealedParts sealer ref c i frames parts) :
    parts.length = frames.length := by
  induction frames generalizing i parts with
  | nil =>
    obtain rfl := h
    rfl
  | cons cur pending ih =>
    obtain ⟨rest, rfl, -, hrest⟩ := h
    rw [List.length_cons, List.length_cons, ih hrest]

omit [UnicodeNormalization] [Sha256] [Argon2id] [Aes256Gcm] [Aes256GcmSeal] in
lemma putChunk_of_ne {r : String} {i index : ℕ} {bytes : List UInt8} (h : i ≠ index) :
    putChunk c ref index bytes r i = c r i :=
  if_neg fun heq => h heq.2

omit [UnicodeNormalization] [Argon2id] [Aes256Gcm] in
lemma sealFrames_ok (h : sealFrames sealer ref put idx frames c = (.ok parts, c')) :
    (frames ≠ [] → idx.toNat + frames.length < 2 ^ 32) ∧ (∀ r, ∀ i < idx.toNat, c' r i = c r i) ∧
      SealedParts sealer ref c' idx.toNat frames parts := by
  induction frames generalizing idx c parts with
  | nil =>
    obtain ⟨hparts, rfl⟩ := Prod.mk.inj h
    refine ⟨fun hne => absurd rfl hne, fun _ _ _ => rfl, ?_⟩
    exact (Except.ok.inj hparts).symm
  | cons cur pending ih =>
    unfold sealFrames at h
    dsimp only at h
    cases hput : put idx with
    | some e =>
      rw [hput] at h
      cases (Prod.mk.inj h).1
    | none =>
      rw [hput] at h
      dsimp only at h
      by_cases hlast : idx.toNat + 1 = 2 ^ 32
      · rw [if_pos hlast] at h
        cases (Prod.mk.inj h).1
      · rw [if_neg hlast] at h
        have hnext : (idx + 1).toNat = idx.toNat + 1 := by
          have hlt := idx.toNat_lt
          rw [UInt32.toNat_add, UInt32.toNat_one]
          omega
        cases hrest : sealFrames sealer ref put (idx + 1) pending
            (putChunk c ref idx.toNat (sealer.sealPart idx pending.isEmpty cur)) with
        | mk result c'' =>
          rw [hrest] at h
          cases result with
          | error e => cases (Prod.mk.inj h).1
          | ok rest =>
            obtain ⟨hparts, rfl⟩ := Prod.mk.inj h
            obtain rfl := Except.ok.inj hparts
            obtain ⟨hroom, hbefore, hsealed⟩ := ih hrest
            rw [hnext] at hroom hbefore hsealed
            refine ⟨fun _ => ?_, fun r i hi => ?_, ?_⟩
            · have hlt := idx.toNat_lt
              cases pending with
              | nil =>
                rw [List.length_singleton]
                omega
              | cons next pending =>
                have hmore := hroom (List.cons_ne_nil _ _)
                simp only [List.length_cons] at hmore ⊢
                omega
            · rw [hbefore r i (by omega)]
              exact putChunk_of_ne hi.ne
            · refine ⟨rest, ?_, ?_, hsealed⟩
              · rw [UInt32.ofNat_toNat]
              · rw [hbefore ref idx.toNat (Nat.lt_succ_self _), UInt32.ofNat_toNat]
                exact if_pos ⟨rfl, rfl⟩

omit [UnicodeNormalization] [Argon2id] in
lemma openParts_sealed (haead : AeadOpens) {read : Reads} {component : Component} {total pos : ℕ}
    (hread : ∀ i, read ref i = .ok (c ref i)) (hsealed : SealedParts sealer ref c (pos + 1) frames parts)
    (htotal : pos + frames.length = total) (hroom : total < 2 ^ 32) :
    openParts read sealer.opener component ref total pos parts = .ok frames.flatten := by
  induction frames generalizing pos parts with
  | nil =>
    obtain rfl := hsealed
    rfl
  | cons cur pending ih =>
    obtain ⟨rest, rfl, hheld, hrest⟩ := hsealed
    rw [List.length_cons] at htotal
    have hindex : (UInt32.ofNat (pos + 1)).toNat = pos + 1 :=
      UInt32.toNat_ofNat_of_lt' (by show pos + 1 < 2 ^ 32; omega)
    have hlast : decide (pos + 1 = total) = pending.isEmpty := by
      cases pending with
      | nil => simpa using htotal
      | cons next pending =>
        rw [List.length_cons] at htotal
        rw [List.isEmpty_cons, decide_eq_false_iff_not]
        omega
    unfold openParts
    dsimp only
    rw [hindex, hread, hheld, hlast]
    refine bind_eq_ok.mpr ⟨_, rfl, bind_eq_ok.mpr ⟨_, rfl, ?_⟩⟩
    rw [guard_eq_ok]
    refine ⟨fun hdiffers => hdiffers.elim (fun h => h rfl) fun h => h rfl, ?_⟩
    refine bind_eq_ok.mpr ⟨cur, ?_, bind_eq_ok.mpr ⟨pending.flatten, ?_, rfl⟩⟩
    · rw [Mxbu.openPart_sealPart haead]
      rfl
    · exact ih hrest (by omega)

omit [Sha256] [Aes256Gcm] [Aes256GcmSeal] in
lemma partSize_pos (h : req.sealer rand = .ok sealer) : 0 < req.partSize := by
  unfold SealRequest.sealer at h
  obtain ⟨⟨⟩, -, h⟩ := bind_eq_ok.mp h
  obtain ⟨⟨⟩, hsize, -⟩ := bind_eq_ok.mp h
  unfold checkPartSize at hsize
  rw [guard_eq_ok] at hsize
  omega

omit [Aes256Gcm] in
lemma sealComponent_ok (h : sealComponent req rand put c = (.ok bundle, c')) :
    ∃ sealer gitSha parts, req.sealer rand = .ok sealer ∧ optToText req.gitSha = .ok gitSha ∧
      bundle = ⟨req.component, req.stamp, textToOpt gitSha, req.createdAt, req.entries, parts⟩ ∧
      (req.payload.toChunks req.partSize).length + 1 < 2 ^ 32 ∧
      SealedParts sealer (componentRef req.stamp req.component) c' 1
        (req.payload.toChunks req.partSize) parts ∧
      c' (componentRef req.stamp req.component) 0 = some (sealer.sealPart 0 PART0_IS_LAST
        (encode (⟨gitSha, req.entries, parts, ⟨req.createdAt⟩⟩ : BackupIndex))) := by
  unfold sealComponent at h
  cases hsealer : req.sealer rand with
  | error e =>
    rw [hsealer] at h
    cases (Prod.mk.inj h).1
  | ok sealer =>
    rw [hsealer] at h
    dsimp only at h
    cases hframes : sealFrames sealer (componentRef req.stamp req.component) put 1
        (req.payload.toChunks req.partSize) c with
    | mk result c'' =>
      rw [hframes] at h
      cases result with
      | error e => cases (Prod.mk.inj h).1
      | ok parts =>
        dsimp only at h
        by_cases hdeclared : req.entries ≠ [] ∧
            (req.entries.map (·.len)).foldl (· + ·) 0 ≠ UInt64.ofNat req.payload.length
        · rw [if_pos hdeclared] at h
          cases (Prod.mk.inj h).1
        · rw [if_neg hdeclared] at h
          cases hsha : optToText req.gitSha with
          | error e =>
            rw [hsha] at h
            cases (Prod.mk.inj h).1
          | ok gitSha =>
            rw [hsha] at h
            cases hput : put 0 with
            | some e =>
              rw [hput] at h
              cases (Prod.mk.inj h).1
            | none =>
              rw [hput] at h
              obtain ⟨hbundle, rfl⟩ := Prod.mk.inj h
              obtain ⟨hroom, -, hsealed⟩ := sealFrames_ok hframes
              refine ⟨sealer, gitSha, parts, rfl, rfl, (Except.ok.inj hbundle).symm, ?_,
                hsealed.congr fun i hi => putChunk_of_ne (Nat.ne_of_gt hi), if_pos ⟨rfl, rfl⟩⟩
              by_cases hempty : req.payload.toChunks req.partSize = []
              · rw [hempty]
                decide
              · have hlt := hroom hempty
                rw [UInt32.toNat_one] at hlt
                omega

omit [Sha256] in
lemma readIndex_sealed (haead : AeadOpens) (hargon : req.argon.BelowCeiling)
    (hentries : req.entries.length < 2 ^ 32) {sealer : MxbuSealer} {gitSha : Text}
    (hsealer : req.sealer rand = .ok sealer) (hparts : parts.length < 2 ^ 32)
    (hindex : c (componentRef req.stamp req.component) 0 = some (sealer.sealPart 0 PART0_IS_LAST
      (encode (⟨gitSha, req.entries, parts, ⟨req.createdAt⟩⟩ : BackupIndex)))) :
    readIndex (fun r i => .ok (c r i)) req.passphrase req.stamp req.component =
      .ok (sealer.opener, ⟨req.component, req.stamp, textToOpt gitSha, req.createdAt, req.entries,
        parts⟩) := by
  unfold SealRequest.sealer at hsealer
  obtain ⟨⟨⟩, hstamp, hsealer⟩ := bind_eq_ok.mp hsealer
  obtain ⟨⟨⟩, -, hsealer⟩ := bind_eq_ok.mp hsealer
  have hnew := mapError_eq_ok.mp hsealer
  have hwf : BackupIndex.WellFormed (⟨gitSha, req.entries, parts, ⟨req.createdAt⟩⟩ : BackupIndex) :=
    ⟨hentries, hparts⟩
  unfold readIndex
  refine bind_eq_ok.mpr ⟨(), hstamp, bind_eq_ok.mpr ⟨_, congrArg _ (congrArg _ hindex), ?_⟩⟩
  refine bind_eq_ok.mpr ⟨_, rfl, ?_⟩
  refine bind_eq_ok.mpr ⟨sealer.opener, mapError_eq_ok.mpr
    (Mxbu.fromPart_sealPart haead hnew hargon _ _ _), ?_⟩
  refine bind_eq_ok.mpr ⟨_, mapError_eq_ok.mpr (Mxbu.openPart_sealPart haead _ _ _ _), ?_⟩
  exact bind_eq_ok.mpr ⟨_, mapError_eq_ok.mpr (decode_encode hwf), rfl⟩

lemma openComponent_sealed (haead : AeadOpens) (hargon : req.argon.BelowCeiling)
    (hentries : req.entries.length < 2 ^ 32)
    (h : sealComponent req rand put c = (.ok bundle, c')) :
    bundle.entries = req.entries ∧
      openComponent (fun r i => .ok (c' r i)) req.passphrase req.stamp req.component =
        .ok (bundle, req.payload) := by
  obtain ⟨sealer, gitSha, parts, hsealer, -, rfl, hroom, hsealed, hindex⟩ := sealComponent_ok h
  have hlength : parts.length = (req.payload.toChunks req.partSize).length := hsealed.length_eq
  refine ⟨rfl, ?_⟩
  have hread := readIndex_sealed haead hargon hentries hsealer (by omega) hindex
  have hopen : openParts (fun r i => .ok (c' r i)) sealer.opener req.component
      (componentRef req.stamp req.component) parts.length 0 parts =
        .ok (req.payload.toChunks req.partSize).flatten :=
    openParts_sealed haead (fun _ => rfl) hsealed ((Nat.zero_add _).trans hlength.symm) (by omega)
  rw [flatten_toChunks (partSize_pos hsealer)] at hopen
  unfold openComponent
  exact bind_eq_ok.mpr ⟨_, hread, bind_eq_ok.mpr ⟨req.payload, hopen, rfl⟩⟩

end RoundTrip

end Bundles

end MaxSecu
