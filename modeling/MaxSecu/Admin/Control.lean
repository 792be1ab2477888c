import Mathlib.Logic.Function.Basic
import MaxSecu.Client.Revocation

/-!
# The control log as the admin tooling issues it

A `ControlChain` carries the running head and, for each scope, the last epoch it gave out.  Each
call issues one signed record linked to the head, or fails and leaves the chain as it was.
`ControlCall.step_cases` says once what a call can do.
-/

namespace MaxSecu

inductive CeremonyError
  | fingerprintMismatch
  | dualControlRequired
  deriving DecidableEq, Repr

/-- How a call ends without a record: a refusal, or the overflow of an epoch counter, which stops
the program. -/
inductive CallFailure
  | refused (e : CeremonyError)
  | overflow
  deriving DecidableEq, Repr

/-- A second admin authorising a dual-controlled action. -/
structure CoSign where
  adminId : Id
  key : SigningKey

/-- Inputs of a revocation; the chain fills `prevHead` and the epoch. -/
structure RevokeParams where
  scope : FileScope
  revokedUserId : Id
  /-- `some role` narrows a capability; `none` revokes access from `fromVersion` on. -/
  revokedCapability : Option Role
  fromVersion : UInt64
  issuedBy : Id
  createdAt : Timestamp

structure ReinstateParams where
  scope : FileScope
  reinstatedUserId : Id
  /-- The epoch of the revocation this reinstatement clears. -/
  supersedesEpoch : UInt64
  issuedBy : Id
  createdAt : Timestamp

structure KeyCompromiseParams where
  userId : Id
  keyVersion : UInt64
  effectiveFrom : Timestamp
  issuedBy : Id
  createdAt : Timestamp

/-- One of the three record families that share the chain. -/
inductive ControlRecord
  | revocation (r : Revocation)
  | reinstatement (r : Reinstatement)
  | keyCompromise (r : KeyCompromise)
  deriving DecidableEq

namespace ControlRecord

def prevHead : ControlRecord → Bytes 32
  | .revocation r => r.prevHead.bytes
  | .reinstatement r => r.prevHead.bytes
  | .keyCompromise r => r.prevHead.bytes

def canonical : ControlRecord → List UInt8
  | .revocation r => encode r
  | .reinstatement r => encode r
  | .keyCompromise r => encode r

def sign [Ed25519] (record : ControlRecord) (key : SigningKey) : Bytes 64 :=
  match record with
  | .revocation r => key.signCanonical Label.revocation.text r
  | .reinstatement r => key.signCanonical Label.reinstatement.text r
  | .keyCompromise r => key.signCanonical Label.keyCompromise.text r

/-- The record as a client holds it once decoded. -/
def toDecoded : ControlRecord → Decoded
  | .revocation r => .revocation r
  | .reinstatement r => .reinstatement r
  | .keyCompromise r => .keyCompromise r

@[simp] lemma prevHead_toDecoded (record : ControlRecord) :
    record.toDecoded.prevHead = record.prevHead := by
  cases record <;> rfl

@[simp] lemma encode_toDecoded (record : ControlRecord) :
    record.toDecoded.encode = record.canonical := by
  cases record <;> rfl

end ControlRecord

/-- A signed record, and the head the chain advances to. -/
structure SignedControlRecord where
  record : ControlRecord
  /-- The signed bytes, which are also what `head` hashes. -/
  bytes : List UInt8
  head : Bytes 32
  sig : Bytes 64
  /-- The second admin's signature, for dual-controlled records. -/
  coSig : Option (Bytes 64)

/-- The running head, and the last epoch given out for each scope.  The key of the account-wide
scope is `none`, and a scope without an entry stands at zero. -/
structure ControlChain where
  head : Bytes 32
  revokeEpochs : Option Id → UInt64
  reinstateEpochs : Option Id → UInt64

def scopeKey : FileScope → Option Id
  | .specific id => some id
  | .accountWide => none

lemma scopeKey_injective : Function.Injective scopeKey := by
  intro s t h
  cases s with
  | specific id =>
    cases t with
    | specific id' => rw [Option.some.inj h]
    | accountWide => cases h
  | accountWide =>
    cases t with
    | specific id' => cases h
    | accountWide => rfl

/-- Allocate the next epoch of a scope, starting at one.  Incrementing the largest one panics. -/
def nextEpoch (epochs : Option Id → UInt64) (scope : FileScope) :
    Except CallFailure (UInt64 × (Option Id → UInt64)) :=
  let key := scopeKey scope
  if epochs key = 0xFFFFFFFFFFFFFFFF then
    throw .overflow
  else
    pure (epochs key + 1, Function.update epochs key (epochs key + 1))

section NextEpoch

variable {epochs : Option Id → UInt64} {scope : FileScope}

lemma nextEpoch_of_full (hfull : epochs (scopeKey scope) = 0xFFFFFFFFFFFFFFFF) :
    nextEpoch epochs scope = .error .overflow :=
  if_pos hfull

lemma nextEpoch_of_not_full (hroom : epochs (scopeKey scope) ≠ 0xFFFFFFFFFFFFFFFF) :
    nextEpoch epochs scope = .ok (epochs (scopeKey scope) + 1,
      Function.update epochs (scopeKey scope) (epochs (scopeKey scope) + 1)) :=
  if_neg hroom

end NextEpoch

namespace ControlChain

/-- Continue from a known head.  The counters start empty. -/
def resume (head : Bytes 32) : ControlChain :=
  ⟨head, fun _ => 0, fun _ => 0⟩

def new : ControlChain := resume GENESIS_HEAD.bytes

variable [Sha256] [Ed25519]

/-- Canonicalize, hash into the chain head, sign and co-sign, and advance. -/
def finish (chain : ControlChain) (record : ControlRecord) (issuer : SigningKey)
    (coKey : Option SigningKey) : SignedControlRecord × ControlChain :=
  let bytes := record.canonical
  let head := sha256 bytes
  (⟨record, bytes, head, record.sign issuer, coKey.map record.sign⟩, { chain with head := head })

/-- Issue a revocation.  An account-wide one needs a co-signer. -/
def revoke (chain : ControlChain) (issuer : SigningKey) (params : RevokeParams)
    (coSign : Option CoSign) : Except CallFailure (SignedControlRecord × ControlChain) :=
  if params.scope = .accountWide ∧ coSign.isNone then
    throw (.refused .dualControlRequired)
  else do
    let (epoch, revokeEpochs) ← nextEpoch chain.revokeEpochs params.scope
    let record := ControlRecord.revocation
      { scope := params.scope
        revokedUserId := params.revokedUserId
        revokedCapability := params.revokedCapability
        fromVersion := params.fromVersion
        revocationEpoch := epoch
        prevHead := ⟨chain.head⟩
        issuedBy := params.issuedBy
        coSignedBy := coSign.map CoSign.adminId
        createdAt := params.createdAt }
    pure (finish { chain with revokeEpochs := revokeEpochs } record issuer (coSign.map CoSign.key))

/-- Issue a reinstatement, always under dual control. -/
def reinstate (chain : ControlChain) (issuer : SigningKey) (params : ReinstateParams)
    (coSign : CoSign) : Except CallFailure (SignedControlRecord × ControlChain) := do
  let (epoch, reinstateEpochs) ← nextEpoch chain.reinstateEpochs params.scope
  let record := ControlRecord.reinstatement
    { scope := params.scope
      reinstatedUserId := params.reinstatedUserId
      supersedesEpoch := params.supersedesEpoch
      reinstatementEpoch := epoch
      prevHead := ⟨chain.head⟩
      issuedBy := params.issuedBy
      coSignedBy := coSign.adminId
      createdAt := params.createdAt }
  pure (finish { chain with reinstateEpochs := reinstateEpochs } record issuer (some coSign.key))

/-- Issue a key-compromise cutoff, always under dual control. -/
def keyCompromise (chain : ControlChain) (issuer : SigningKey) (params : KeyCompromiseParams)
    (coSign : CoSign) : SignedControlRecord × ControlChain :=
  let record := ControlRecord.keyCompromise
    { userId := params.userId
      keyVersion := params.keyVersion
      effectiveFrom := params.effectiveFrom
      prevHead := ⟨chain.head⟩
      issuedBy := params.issuedBy
      coSignedBy := coSign.adminId
      createdAt := params.createdAt }
  finish chain record issuer (some coSign.key)

end ControlChain

/-! ## Calls -/

inductive ControlCall
  | revoke (issuer : SigningKey) (params : RevokeParams) (coSign : Option CoSign)
  | reinstate (issuer : SigningKey) (params : ReinstateParams) (coSign : CoSign)
  | keyCompromise (issuer : SigningKey) (params : KeyCompromiseParams) (coSign : CoSign)

/-- The call revokes in the scope and is not refused for want of a co-signer. -/
def ControlCall.Revokes (call : ControlCall) (scope : FileScope) : Prop :=
  ∃ issuer params coSign, call = .revoke issuer params coSign ∧ params.scope = scope ∧
    ¬ (scope = .accountWide ∧ coSign.isNone)

lemma ControlCall.revokes_revoke_iff {issuer : SigningKey} {params : RevokeParams}
    {coSign : Option CoSign} {scope : FileScope} :
    (ControlCall.revoke issuer params coSign).Revokes scope ↔
      params.scope = scope ∧ ¬ (params.scope = .accountWide ∧ coSign.isNone) := by
  constructor
  · rintro ⟨_, _, _, hcall, rfl, hallowed⟩
    cases hcall
    exact ⟨rfl, hallowed⟩
  · rintro ⟨rfl, hallowed⟩
    exact ⟨issuer, params, coSign, rfl, rfl, hallowed⟩

section Calls

variable [Sha256] [Ed25519]

def ControlCall.perform (call : ControlCall) (chain : ControlChain) :
    Except CallFailure (SignedControlRecord × ControlChain) :=
  match call with
  | .revoke issuer params coSign => chain.revoke issuer params coSign
  | .reinstate issuer params coSign => chain.reinstate issuer params coSign
  | .keyCompromise issuer params coSign => pure (chain.keyCompromise issuer params coSign)

/-- The chain after a call, and what the call issued. -/
def ControlCall.step (call : ControlCall) (chain : ControlChain) :
    ControlChain × List SignedControlRecord :=
  match call.perform chain with
  | .ok (signed, chain') => (chain', [signed])
  | .error _ => (chain, [])

/-- The record is served as its encoding and links to the head it was issued at. -/
def SignedControlRecord.Extends (signed : SignedControlRecord) (chain chain' : ControlChain) :
    Prop :=
  signed.bytes = signed.record.canonical ∧ signed.record.prevHead = chain.head ∧
    chain'.head = sha256 signed.bytes

lemma ControlChain.finish_extends {chain : ControlChain} {record : ControlRecord}
    {issuer : SigningKey} {coKey : Option SigningKey} (hprev : record.prevHead = chain.head) :
    (chain.finish record issuer coKey).1.Extends chain (chain.finish record issuer coKey).2 :=
  ⟨rfl, hprev, rfl⟩

lemma ControlChain.revoke_issues (chain : ControlChain) (issuer : SigningKey)
    {params : RevokeParams} {coSign : Option CoSign}
    (hallowed : ¬ (params.scope = .accountWide ∧ coSign.isNone))
    (hroom : chain.revokeEpochs (scopeKey params.scope) ≠ 0xFFFFFFFFFFFFFFFF) :
    ∃ signed chain' r, chain.revoke issuer params coSign = .ok (signed, chain') ∧
      signed.Extends chain chain' ∧ signed.record = .revocation r ∧ r.scope = params.scope ∧
      r.revocationEpoch = chain.revokeEpochs (scopeKey params.scope) + 1 ∧
      chain'.revokeEpochs =
        Function.update chain.revokeEpochs (scopeKey params.scope) r.revocationEpoch := by
  unfold revoke
  rw [if_neg hallowed, nextEpoch_of_not_full hroom]
  exact ⟨_, _, _, rfl, finish_extends rfl, rfl, rfl, rfl, rfl⟩

lemma ControlChain.reinstate_issues (chain : ControlChain) (issuer : SigningKey)
    {params : ReinstateParams} (coSign : CoSign)
    (hroom : chain.reinstateEpochs (scopeKey params.scope) ≠ 0xFFFFFFFFFFFFFFFF) :
    ∃ signed chain' r, chain.reinstate issuer params coSign = .ok (signed, chain') ∧
      signed.Extends chain chain' ∧ signed.record = .reinstatement r ∧
      chain'.revokeEpochs = chain.revokeEpochs := by
  unfold reinstate
  rw [nextEpoch_of_not_full hroom]
  exact ⟨_, _, _, rfl, finish_extends rfl, rfl, rfl⟩

lemma ControlCall.step_of_error {call : ControlCall} {chain : ControlChain} {e : CallFailure}
    (h : call.perform chain = .error e) : call.step chain = (chain, []) := by
  unfold step
  rw [h]

lemma ControlCall.step_of_ok {call : ControlCall} {chain chain' : ControlChain}
    {signed : SignedControlRecord} (h : call.perform chain = .ok (signed, chain')) :
    call.step chain = (chain', [signed]) := by
  unfold step
  rw [h]

/-- What a call can do: nothing, issue a revocation under the next epoch of its scope, or issue a
record of another family. -/
lemma ControlCall.step_cases (call : ControlCall) (chain : ControlChain) :
    (call.step chain = (chain, []) ∧
      ∀ scope, call.Revokes scope → chain.revokeEpochs (scopeKey scope) = 0xFFFFFFFFFFFFFFFF) ∨
    (∃ signed chain', call.step chain = (chain', [signed]) ∧ signed.Extends chain chain' ∧
      ∃ r, signed.record = .revocation r ∧ call.Revokes r.scope ∧
        (∀ scope, call.Revokes scope → scope = r.scope) ∧
        chain.revokeEpochs (scopeKey r.scope) ≠ 0xFFFFFFFFFFFFFFFF ∧
        r.revocationEpoch = chain.revokeEpochs (scopeKey r.scope) + 1 ∧
        chain'.revokeEpochs =
          Function.update chain.revokeEpochs (scopeKey r.scope) r.revocationEpoch) ∨
    (∃ signed chain', call.step chain = (chain', [signed]) ∧ signed.Extends chain chain' ∧
      chain'.revokeEpochs = chain.revokeEpochs ∧ (∀ scope, ¬ call.Revokes scope) ∧
      ∀ r, signed.record ≠ .revocation r) := by
  cases call with
  | revoke issuer params coSign =>
    by_cases hco : params.scope = .accountWide ∧ coSign.isNone
    · have hrefused : chain.revoke issuer params coSign = .error (.refused .dualControlRequired) := by
        unfold ControlChain.revoke
        exact if_pos hco
      refine .inl ⟨step_of_error hrefused, fun scope hrevokes => ?_⟩
      obtain ⟨rfl, hallowed⟩ := revokes_revoke_iff.mp hrevokes
      exact absurd hco hallowed
    by_cases hfull : chain.revokeEpochs (scopeKey params.scope) = 0xFFFFFFFFFFFFFFFF
    · have hoverflow : chain.revoke issuer params coSign = .error .overflow := by
        unfold ControlChain.revoke
        rw [if_neg hco, nextEpoch_of_full hfull]
        rfl
      refine .inl ⟨step_of_error hoverflow, fun scope hrevokes => ?_⟩
      rw [← (revokes_revoke_iff.mp hrevokes).1]
      exact hfull
    · obtain ⟨signed, chain', r, hissued, hextends, hrecord, hscope, hepoch, hupdate⟩ :=
        chain.revoke_issues issuer hco hfull
      rw [← hscope] at hfull hepoch hupdate
      refine .inr (.inl ⟨signed, chain', step_of_ok hissued, hextends, r, hrecord, ?_, ?_, hfull,
        hepoch, hupdate⟩)
      · exact revokes_revoke_iff.mpr ⟨hscope.symm, hco⟩
      · intro scope hrevokes
        rw [hscope]
        exact (revokes_revoke_iff.mp hrevokes).1.symm
  | reinstate issuer params coSign =>
    have hnone : ∀ scope, ¬ (ControlCall.reinstate issuer params coSign).Revokes scope := by
      rintro scope ⟨_, _, _, hcall, -⟩
      cases hcall
    by_cases hfull : chain.reinstateEpochs (scopeKey params.scope) = 0xFFFFFFFFFFFFFFFF
    · have hoverflow : chain.reinstate issuer params coSign = .error .overflow := by
        unfold ControlChain.reinstate
        rw [nextEpoch_of_full hfull]
        rfl
      exact .inl ⟨step_of_error hoverflow, fun scope hrevokes => absurd hrevokes (hnone scope)⟩
    · obtain ⟨signed, chain', r, hissued, hextends, hrecord, hsame⟩ :=
        chain.reinstate_issues issuer coSign hfull
      refine .inr (.inr ⟨signed, chain', step_of_ok hissued, hextends, hsame, hnone, ?_⟩)
      intro r' hrevocation
      cases hrecord.symm.trans hrevocation
  | keyCompromise issuer params coSign =>
    have hnone : ∀ scope, ¬ (ControlCall.keyCompromise issuer params coSign).Revokes scope := by
      rintro scope ⟨_, _, _, hcall, -⟩
      cases hcall
    refine .inr (.inr ⟨_, _, step_of_ok rfl, ControlChain.finish_extends rfl, rfl, hnone, ?_⟩)
    intro r hrecord
    cases hrecord

end Calls

end MaxSecu
