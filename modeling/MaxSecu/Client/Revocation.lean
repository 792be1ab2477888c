import MaxSecu.Framework.ExceptRules
import MaxSecu.Framework.HashChain
import MaxSecu.Crypto.Primitives

/-!
# The control log as the client verifies it

Revocations, reinstatements and key-compromise records share one hash chain.  The client decodes
the served records, checks that they link from `GENESIS_HEAD` to the anchored head, and, in the
authenticated form, that each record was issued by an admin, where being an admin is judged on the
records before it.

The three constructors of a `TombstoneSet` run one loop, `chainLoop`, with different checks.
`chainLoop_eq_ok` is its specification: the records decode, they link, and each passes its check
against the records before it.
-/

namespace MaxSecu

open ExceptRules

/-- Why a served control log was rejected. -/
inductive TombstoneError
  /-- The chain did not reach the anchored head. -/
  | gap
  /-- A record's `prevHead` did not match the running head. -/
  | brokenChain
  | malformed
  /-- The issuer or co-signer could not be resolved to a directory binding. -/
  | unknownIssuer
  /-- The issuer or co-signer signature did not verify. -/
  | badAuthority
  /-- The issuer or co-signer was not an admin at the prefix before the record. -/
  | notAdmin
  /-- A dual-controlled record lacked a distinct second admin. -/
  | dualControlMissing
  deriving DecidableEq, Repr

/-- What the caller resolves for a record's issuer: the key, and the role ceiling. -/
structure IssuerInfo where
  sigPub : Bytes 32
  roles : List Role
  keyVersion : UInt64

/-- One served record: its bytes, the issuer signature, and the optional co-signature. -/
structure ControlRecordIn where
  bytes : List UInt8
  sig : Bytes 64
  coSig : Option (Bytes 64)

/-! ## Decoded records -/

inductive Decoded
  | revocation (r : Revocation)
  | reinstatement (r : Reinstatement)
  | keyCompromise (r : KeyCompromise)
  deriving DecidableEq

namespace Decoded

def prevHead : Decoded → Bytes 32
  | .revocation r => r.prevHead.bytes
  | .reinstatement r => r.prevHead.bytes
  | .keyCompromise r => r.prevHead.bytes

/-- The admin that issued and signed the record. -/
def issuedBy : Decoded → Id
  | .revocation r => r.issuedBy
  | .reinstatement r => r.issuedBy
  | .keyCompromise r => r.issuedBy

/-- The second admin, if the record names one. -/
def coSignedBy : Decoded → Option Id
  | .revocation r => r.coSignedBy
  | .reinstatement r => some r.coSignedBy
  | .keyCompromise r => some r.coSignedBy

/-- Does the record need a distinct second admin? -/
def requiresDualControl : Decoded → Bool
  | .revocation r => r.scope = .accountWide
  | .reinstatement _ => true
  | .keyCompromise _ => true

/-- Verify a signature over the record under its domain label. -/
def verifySig [Ed25519] (d : Decoded) (pubkey : Bytes 32) (sig : Bytes 64) : Bool :=
  match VerifyingKey.fromBytes pubkey with
  | .error _ => false
  | .ok vk =>
    match d with
    | .revocation r => (vk.verifyCanonical Label.revocation.text r sig).isOk
    | .reinstatement r => (vk.verifyCanonical Label.reinstatement.text r sig).isOk
    | .keyCompromise r => (vk.verifyCanonical Label.keyCompromise.text r sig).isOk

/-- Decode by the type id at the front. -/
def fromBytes (b : List UInt8) : Except TombstoneError Decoded :=
  match b with
  | hi :: lo :: _ =>
    match UInt16.ofNat (BigEndian.ofBytes [hi, lo]) with
    | 0x0006 => .revocation <$> (decode Revocation b).mapError fun _ => .malformed
    | 0x0007 => .reinstatement <$> (decode Reinstatement b).mapError fun _ => .malformed
    | 0x0008 => .keyCompromise <$> (decode KeyCompromise b).mapError fun _ => .malformed
    | _ => .error .malformed
  | _ => .error .malformed

/-- The bytes an issuer serves for a record. -/
def encode : Decoded → List UInt8
  | .revocation r => MaxSecu.encode r
  | .reinstatement r => MaxSecu.encode r
  | .keyCompromise r => MaxSecu.encode r

lemma fromBytes_encode (d : Decoded) : fromBytes d.encode = .ok d := by
  cases d with
  | revocation r =>
    change Decoded.revocation <$> (decode Revocation (MaxSecu.encode r)).mapError _ = _
    rw [decode_encode trivial]
    rfl
  | reinstatement r =>
    change Decoded.reinstatement <$> (decode Reinstatement (MaxSecu.encode r)).mapError _ = _
    rw [decode_encode trivial]
    rfl
  | keyCompromise r =>
    change Decoded.keyCompromise <$> (decode KeyCompromise (MaxSecu.encode r)).mapError _ = _
    rw [decode_encode trivial]
    rfl

end Decoded

/-! ## Evaluation over a list of records -/

def revocationsIn (records : List Decoded) : List Revocation :=
  records.filterMap fun d =>
    match d with
    | .revocation r => some r
    | _ => none

/-- Does a reinstatement name the revocation by its scope, user and epoch? -/
def isSupersededIn (records : List Decoded) (rev : Revocation) : Bool :=
  records.any fun d =>
    match d with
    | .reinstatement r =>
      r.scope = rev.scope ∧ r.reinstatedUserId = rev.revokedUserId ∧
        r.supersedesEpoch = rev.revocationEpoch
    | _ => false

/-- The role ceiling minus the active role-narrowing revocations of the user. -/
def effectiveRolesIn (records : List Decoded) (userId : Id) (ceiling : List Role) : List Role :=
  ceiling.filter fun role =>
    !(revocationsIn records).any fun r =>
      r.revokedUserId = userId ∧ r.revokedCapability = some role ∧ ¬ isSupersededIn records r

def prefixIsAdmin (records : List Decoded) (userId : Id) (ceiling : List Role) : Bool :=
  (effectiveRolesIn records userId ceiling).contains .admin

def scopeMatchesFile (scope : FileScope) (fileId : Id) : Bool :=
  match scope with
  | .accountWide => true
  | .specific id => id = fileId

/-- A record set proven contiguous up to a head. -/
structure TombstoneSet where
  records : List Decoded
  deriving DecidableEq

namespace TombstoneSet

/-- Is the user under an active account-wide access revocation? -/
def isAccountRevoked (set : TombstoneSet) (userId : Id) : Bool :=
  (revocationsIn set.records).any fun r =>
    r.scope = .accountWide ∧ r.revokedUserId = userId ∧ r.revokedCapability = none ∧
      ¬ isSupersededIn set.records r

/-- Is the user revoked from the file at the version, account-wide or per file? -/
def isRevoked (set : TombstoneSet) (userId fileId : Id) (version : UInt64) : Bool :=
  (revocationsIn set.records).any fun r =>
    r.revokedUserId = userId ∧ r.revokedCapability = none ∧ r.fromVersion ≤ version ∧
      scopeMatchesFile r.scope fileId ∧ ¬ isSupersededIn set.records r

def effectiveRoles (set : TombstoneSet) (userId : Id) (ceiling : List Role) : List Role :=
  effectiveRolesIn set.records userId ceiling

/-- The first key-compromise record for a user's key. -/
def keyCompromiseFor (set : TombstoneSet) (userId : Id) (keyVersion : UInt64) :
    Option KeyCompromise :=
  set.records.findSome? fun d =>
    match d with
    | .keyCompromise kc =>
      if kc.userId = userId ∧ kc.keyVersion = keyVersion then some kc else none
    | _ => none

end TombstoneSet

/-! ## Verification -/

section Verification

variable [Sha256] [Ed25519]

/-- Authenticate one record's issuer, and its co-signer under dual control, against the records
before it. -/
def authenticateAuthority (d : Decoded) (rec : ControlRecordIn) (before : List Decoded)
    (issuer : Id → Option IssuerInfo) : Except TombstoneError Unit := do
  let info ← (issuer d.issuedBy).elim (throw .unknownIssuer) pure
  if ¬ d.verifySig info.sigPub rec.sig then
    throw .badAuthority
  else if ¬ prefixIsAdmin before d.issuedBy info.roles then
    throw .notAdmin
  else if d.requiresDualControl then
    let coId ← d.coSignedBy.elim (throw .dualControlMissing) pure
    let coSig ← rec.coSig.elim (throw .dualControlMissing) pure
    if coId = d.issuedBy then
      throw .dualControlMissing
    else
      let coInfo ← (issuer coId).elim (throw .unknownIssuer) pure
      if ¬ d.verifySig coInfo.sigPub coSig then
        throw .badAuthority
      else if ¬ prefixIsAdmin before coId coInfo.roles then
        throw .notAdmin
      else
        pure ()
  else
    pure ()

/-- The loop the constructors share: it carries the running head and the records decoded so far. -/
def chainLoop {R : Type} (bytes : R → List UInt8)
    (check : Decoded → R → List Decoded → Except TombstoneError Unit) :
    List R → Bytes 32 → List Decoded → Except TombstoneError (Bytes 32 × List Decoded)
  | [], head, decoded => pure (head, decoded)
  | rec :: records, head, decoded => do
    let d ← Decoded.fromBytes (bytes rec)
    if d.prevHead ≠ head then
      throw .brokenChain
    else
      check d rec decoded
      chainLoop bytes check records (sha256 (bytes rec)) (decoded ++ [d])

namespace TombstoneSet

/-- The records form a chain from the genesis head to the anchored one. -/
def verify (records : List (List UInt8)) (anchoredHead : Bytes 32) :
    Except TombstoneError TombstoneSet := do
  let (head, decoded) ← chainLoop id (fun _ _ _ => pure ()) records GENESIS_HEAD.bytes []
  if head ≠ anchoredHead then
    throw .gap
  else
    pure ⟨decoded⟩

/-- Additionally authenticate every record's issuer. -/
def verifyAuthenticated (records : List ControlRecordIn) (anchoredHead : Bytes 32)
    (issuer : Id → Option IssuerInfo) : Except TombstoneError TombstoneSet := do
  let (head, decoded) ← chainLoop ControlRecordIn.bytes
    (fun d rec before => authenticateAuthority d rec before issuer) records GENESIS_HEAD.bytes []
  if head ≠ anchoredHead then
    throw .gap
  else
    pure ⟨decoded⟩

/-- Authenticate without an anchor: the head is whatever the records reach. -/
def verifyAuthenticatedUnanchored (records : List ControlRecordIn)
    (issuer : Id → Option IssuerInfo) : Except TombstoneError TombstoneSet := do
  let (_, decoded) ← chainLoop ControlRecordIn.bytes
    (fun d rec before => authenticateAuthority d rec before issuer) records GENESIS_HEAD.bytes []
  pure ⟨decoded⟩

end TombstoneSet

/-! ## What the loop accepts -/

/-- The head a served record names, if it decodes. -/
def recordPrev (b : List UInt8) : Option (Bytes 32) :=
  match Decoded.fromBytes b with
  | .ok d => some d.prevHead
  | .error _ => none

omit [Sha256] [Ed25519] in
lemma recordPrev_encode (d : Decoded) : recordPrev d.encode = some d.prevHead := by
  rw [recordPrev, Decoded.fromBytes_encode]

/-- The records decode, in order, to the given list. -/
abbrev DecodesTo (records : List (List UInt8)) (ds : List Decoded) : Prop :=
  List.Forall₂ (fun b d => Decoded.fromBytes b = .ok d) records ds

/-- The records link from the genesis head. -/
abbrev ChainLinked (records : List (List UInt8)) : Prop :=
  HashChain.Linked recordPrev sha256 GENESIS_HEAD.bytes records

/-- The head the records reach from the genesis head. -/
abbrev chainHead (records : List (List UInt8)) : Bytes 32 :=
  HashChain.head sha256 GENESIS_HEAD.bytes records

omit [Ed25519] in
lemma chainLoop_eq_ok {R : Type} {bytes : R → List UInt8}
    {check : Decoded → R → List Decoded → Except TombstoneError Unit} {records : List R}
    {head head' : Bytes 32} {decoded decoded' : List Decoded} :
    chainLoop bytes check records head decoded = .ok (head', decoded') ↔
      ∃ ds, decoded' = decoded ++ ds ∧ DecodesTo (records.map bytes) ds ∧
        HashChain.Linked recordPrev sha256 head (records.map bytes) ∧
        head' = HashChain.head sha256 head (records.map bytes) ∧
        ∀ i rec d, records[i]? = some rec → ds[i]? = some d →
          check d rec (decoded ++ ds.take i) = .ok () := by
  induction records generalizing head decoded with
  | nil =>
    rw [chainLoop]
    constructor
    · intro h
      cases h
      exact ⟨[], by simp, by simp, by simp, rfl, by simp⟩
    · rintro ⟨ds, rfl, hdecode, -, rfl, -⟩
      obtain rfl : ds = [] := by simpa using hdecode
      simp [pure, Except.pure]
  | cons rec records ih =>
    rw [chainLoop]
    simp only [bind_eq_ok, guard_eq_ok, not_not, ih]
    constructor
    · rintro ⟨d, hd, hlink, u, hcheck, ds, rfl, hdecode, hlinked, rfl, hchecks⟩
      have hprev : recordPrev (bytes rec) = some head := by rw [recordPrev, hd, ← hlink]
      refine ⟨d :: ds, by simp, .cons hd hdecode, ⟨hprev, hlinked⟩, rfl, ?_⟩
      rintro (_ | i) rec' d' hrec hd'
      · cases hrec
        cases hd'
        rw [List.take_zero, List.append_nil]
        exact hcheck
      · simpa using hchecks i rec' d' hrec hd'
    · rintro ⟨ds, rfl, hdecode, ⟨hprev, hlinked⟩, rfl, hchecks⟩
      cases hdecode with
      | @cons _ d _ ds hd hdecode =>
        rw [recordPrev, hd] at hprev
        have hcheck := hchecks 0 rec d rfl rfl
        rw [List.take_zero, List.append_nil] at hcheck
        refine ⟨d, hd, Option.some.inj hprev, (), hcheck, ds, by simp, hdecode, hlinked, rfl, ?_⟩
        intro i rec' d' hrec hd'
        simpa using hchecks (i + 1) rec' d' hrec hd'

omit [Ed25519] in
lemma TombstoneSet.verify_eq_ok {records : List (List UInt8)} {h : Bytes 32} {set : TombstoneSet} :
    verify records h = .ok set ↔
      DecodesTo records set.records ∧ ChainLinked records ∧ chainHead records = h := by
  unfold verify
  simp only [bind_eq_ok, guard_eq_ok, pure_eq_ok, not_not, Prod.exists, chainLoop_eq_ok,
    List.nil_append, List.map_id]
  constructor
  · rintro ⟨_, _, ⟨ds, rfl, hdecode, hlinked, rfl, -⟩, hhead, rfl⟩
    exact ⟨hdecode, hlinked, hhead⟩
  · rintro ⟨hdecode, hlinked, hhead⟩
    exact ⟨_, _, ⟨set.records, rfl, hdecode, hlinked, rfl, by simp⟩, hhead, rfl⟩

/-- Every record passes the authority check against the records before it. -/
def AllAuthenticated (issuer : Id → Option IssuerInfo) (records : List ControlRecordIn)
    (ds : List Decoded) : Prop :=
  ∀ i rec d, records[i]? = some rec → ds[i]? = some d →
    authenticateAuthority d rec (ds.take i) issuer = .ok ()

lemma TombstoneSet.verifyAuthenticatedUnanchored_eq_ok {records : List ControlRecordIn}
    {issuer : Id → Option IssuerInfo} {set : TombstoneSet} :
    verifyAuthenticatedUnanchored records issuer = .ok set ↔
      DecodesTo (records.map ControlRecordIn.bytes) set.records ∧
        ChainLinked (records.map ControlRecordIn.bytes) ∧
        AllAuthenticated issuer records set.records := by
  unfold verifyAuthenticatedUnanchored
  simp only [bind_eq_ok, pure_eq_ok, Prod.exists, chainLoop_eq_ok, List.nil_append]
  constructor
  · rintro ⟨_, _, ⟨ds, rfl, hdecode, hlinked, rfl, hauth⟩, rfl⟩
    exact ⟨hdecode, hlinked, hauth⟩
  · rintro ⟨hdecode, hlinked, hauth⟩
    exact ⟨_, _, ⟨set.records, rfl, hdecode, hlinked, rfl, hauth⟩, rfl⟩

lemma TombstoneSet.verifyAuthenticated_eq_ok_iff_unanchored {records : List ControlRecordIn}
    {h : Bytes 32} {issuer : Id → Option IssuerInfo} {set : TombstoneSet} :
    verifyAuthenticated records h issuer = .ok set ↔
      verifyAuthenticatedUnanchored records issuer = .ok set ∧
        chainHead (records.map ControlRecordIn.bytes) = h := by
  unfold verifyAuthenticated verifyAuthenticatedUnanchored
  simp only [bind_eq_ok, guard_eq_ok, pure_eq_ok, not_not, Prod.exists, chainLoop_eq_ok,
    List.nil_append]
  constructor
  · rintro ⟨_, ds, ⟨_, rfl, hdecode, hlinked, rfl, hauth⟩, hhead, rfl⟩
    exact ⟨⟨_, _, ⟨ds, rfl, hdecode, hlinked, rfl, hauth⟩, rfl⟩, hhead⟩
  · rintro ⟨⟨_, ds, ⟨_, rfl, hdecode, hlinked, rfl, hauth⟩, rfl⟩, hhead⟩
    exact ⟨_, _, ⟨ds, rfl, hdecode, hlinked, rfl, hauth⟩, hhead, rfl⟩

lemma TombstoneSet.verifyAuthenticated_eq_ok {records : List ControlRecordIn} {h : Bytes 32}
    {issuer : Id → Option IssuerInfo} {set : TombstoneSet} :
    verifyAuthenticated records h issuer = .ok set ↔
      DecodesTo (records.map ControlRecordIn.bytes) set.records ∧
        ChainLinked (records.map ControlRecordIn.bytes) ∧
        AllAuthenticated issuer records set.records ∧
        chainHead (records.map ControlRecordIn.bytes) = h := by
  rw [verifyAuthenticated_eq_ok_iff_unanchored, verifyAuthenticatedUnanchored_eq_ok, and_assoc,
    and_assoc]

/-! ## The anchored head pins the records -/

/-- `R` is the record bytes of a set accepted at the head `h`, by either anchored constructor. -/
def AcceptedAt (h : Bytes 32) (R : List (List UInt8)) : Prop :=
  (∃ set, TombstoneSet.verify R h = .ok set) ∨
    ∃ records issuer set, records.map ControlRecordIn.bytes = R ∧
      TombstoneSet.verifyAuthenticated records h issuer = .ok set

lemma AcceptedAt.linked {h : Bytes 32} {R : List (List UInt8)} (hR : AcceptedAt h R) :
    ChainLinked R ∧ chainHead R = h := by
  rcases hR with ⟨set, hset⟩ | ⟨records, issuer, set, rfl, hset⟩
  · obtain ⟨-, hlinked, hhead⟩ := TombstoneSet.verify_eq_ok.mp hset
    exact ⟨hlinked, hhead⟩
  · obtain ⟨-, hlinked, -, hhead⟩ := TombstoneSet.verifyAuthenticated_eq_ok.mp hset
    exact ⟨hlinked, hhead⟩

/-- **The anchored head pins the record set.**  If SHA-256 has no collision between the two lists
and does not give the genesis head on them, two lists accepted at one head are equal.  The anchored
constructor accepts what the unanchored one accepts and what reaches the anchor. -/
theorem acceptedAt_unique {h : Bytes 32} {R₁ R₂ : List (List UInt8)}
    (hinj : ∀ a ∈ R₁, ∀ b ∈ R₂, sha256 a = sha256 b → a = b)
    (hgenesis : ∀ a, a ∈ R₁ ∨ a ∈ R₂ → sha256 a ≠ GENESIS_HEAD.bytes)
    (h₁ : AcceptedAt h R₁) (h₂ : AcceptedAt h R₂) :
    R₁ = R₂ ∧ ∀ records anchor issuer set,
      TombstoneSet.verifyAuthenticated records anchor issuer = .ok set ↔
        TombstoneSet.verifyAuthenticatedUnanchored records issuer = .ok set ∧
          chainHead (records.map ControlRecordIn.bytes) = anchor := by
  obtain ⟨hlinked₁, hhead₁⟩ := h₁.linked
  obtain ⟨hlinked₂, hhead₂⟩ := h₂.linked
  have hhead : chainHead R₁ = chainHead R₂ := hhead₁.trans hhead₂.symm
  exact ⟨HashChain.eq_of_head_eq hinj hgenesis hlinked₁ hlinked₂ hhead,
    fun _ _ _ _ => TombstoneSet.verifyAuthenticated_eq_ok_iff_unanchored⟩

end Verification

/-- A log of one key-compromise record. -/
def oneRecordLog : List (List UInt8) :=
  [(Decoded.keyCompromise
    { userId := ⟨.replicate 16 1⟩, keyVersion := 1, effectiveFrom := ⟨0⟩,
      prevHead := GENESIS_HEAD, issuedBy := ⟨.replicate 16 2⟩,
      coSignedBy := ⟨.replicate 16 3⟩, createdAt := ⟨0⟩ }).encode]

theorem acceptedAt_unique_oneRecord :
    letI := tailSha256
    letI := acceptingEd25519
    oneRecordLog = oneRecordLog ∧ ∀ records anchor issuer set,
      TombstoneSet.verifyAuthenticated records anchor issuer = .ok set ↔
        TombstoneSet.verifyAuthenticatedUnanchored records issuer = .ok set ∧
          chainHead (records.map ControlRecordIn.bytes) = anchor :=
  letI := tailSha256
  letI := acceptingEd25519
  have haccepted : AcceptedAt (chainHead oneRecordLog) oneRecordLog :=
    .inl ⟨_, TombstoneSet.verify_eq_ok.mpr
      ⟨.cons (Decoded.fromBytes_encode _) .nil, ⟨recordPrev_encode _, trivial⟩, rfl⟩⟩
  have hgenesis : ∀ a ∈ oneRecordLog, sha256 a ≠ GENESIS_HEAD.bytes := by decide +kernel
  acceptedAt_unique (by decide +kernel) (fun a ha => hgenesis a (or_self_iff.mp ha))
    haccepted haccepted

end MaxSecu
