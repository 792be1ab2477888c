import MaxSecu.Framework.GuardedUpdate
import MaxSecu.Server.Auth

/-!
# The control log of the server

Revocations, reinstatements and key compromises are appended to one log.  The server keeps the bytes
as they are and decodes them for the link, which has to continue from the head of the log, and for
the columns it indexes.  The handler works in two steps: `postControlAppend` appends the record, and
then the record is published to the sink.
-/

namespace MaxSecu

open ExceptRules GuardedUpdate

/-- The link of a record, and the columns that are projected from it. -/
structure DecodedControl where
  kind : Int16
  prevHead : Bytes 32
  head : Bytes 32
  subjectUserId : Id
  isAccountWide : Bool
  scopeFileId : Option Id
  revokedCapability : Option Int16
  fromVersion : Option Int64
  scopeEpoch : Option Int64
  supersedesEpoch : Option Int64
  compromisedKeyVersion : Option Int64
  effectiveFromMs : Option UInt64
  issuedBy : Id
  coSignedBy : Option Id
  deriving DecidableEq

def scopeFile : FileScope → Option Id
  | .specific id => some id
  | .accountWide => none

structure StoredControlRecord where
  kind : Int16
  recordBytes : List UInt8
  sig : Bytes 64
  coSig : Option (Bytes 64)
  head : Bytes 32
  deriving DecidableEq

inductive ControlAppendError
  | conflict
  | malformed
  | store (e : StoreError)
  deriving DecidableEq

/-- The part of the store that keeps the control log. -/
structure ControlLog where
  controlLog : List StoredControlRecord
  controlHead : Bytes 32
  deriving DecidableEq

section

variable [Sha256]

def decodeControl (bytes : List UInt8) : Option DecodedControl :=
  match bytes with
  | hi :: lo :: _ =>
    match UInt16.ofNat (BigEndian.ofBytes [hi, lo]) with
    | 0x0006 => (decode Revocation bytes).toOption.map fun r =>
      { kind := 6
        prevHead := r.prevHead.bytes
        head := sha256 bytes
        subjectUserId := r.revokedUserId
        isAccountWide := r.scope = .accountWide
        scopeFileId := scopeFile r.scope
        revokedCapability := r.revokedCapability.map fun c => c.codepoint.toUInt16.toInt16
        fromVersion := some r.fromVersion.toInt64
        scopeEpoch := some r.revocationEpoch.toInt64
        supersedesEpoch := none
        compromisedKeyVersion := none
        effectiveFromMs := none
        issuedBy := r.issuedBy
        coSignedBy := r.coSignedBy }
    | 0x0007 => (decode Reinstatement bytes).toOption.map fun r =>
      { kind := 7
        prevHead := r.prevHead.bytes
        head := sha256 bytes
        subjectUserId := r.reinstatedUserId
        isAccountWide := r.scope = .accountWide
        scopeFileId := scopeFile r.scope
        revokedCapability := none
        fromVersion := none
        scopeEpoch := some r.reinstatementEpoch.toInt64
        supersedesEpoch := some r.supersedesEpoch.toInt64
        compromisedKeyVersion := none
        effectiveFromMs := none
        issuedBy := r.issuedBy
        coSignedBy := some r.coSignedBy }
    | 0x0008 => (decode KeyCompromise bytes).toOption.map fun r =>
      { kind := 8
        prevHead := r.prevHead.bytes
        head := sha256 bytes
        subjectUserId := r.userId
        isAccountWide := false
        scopeFileId := none
        revokedCapability := none
        fromVersion := none
        scopeEpoch := none
        supersedesEpoch := none
        compromisedKeyVersion := some r.keyVersion.toInt64
        effectiveFromMs := some r.effectiveFrom.millis
        issuedBy := r.issuedBy
        coSignedBy := some r.coSignedBy }
    | _ => none
  | _ => none

namespace ControlLog

def empty : ControlLog := ⟨[], GENESIS_HEAD.bytes⟩

/-- Append a record that continues from the head, and return the new head. -/
def appendControl (recordBytes : List UInt8) (sig : Bytes 64) (coSig : Option (Bytes 64)) :
    ExceptT ControlAppendError (StateM ControlLog) (Bytes 32) := do
  let d ← orFail (decodeControl recordBytes) .malformed
  let s ← get
  failIf (d.prevHead ≠ s.controlHead) .conflict
  set { s with
    controlHead := d.head
    controlLog := s.controlLog ++ [StoredControlRecord.mk d.kind recordBytes sig coSig d.head] }
  pure d.head

/-- The bytes that are served, in the order of the log. -/
def controlRecords (s : ControlLog) : List (List UInt8) :=
  s.controlLog.map StoredControlRecord.recordBytes

end ControlLog

/-- A request to append a record.  What does not decode from base64 is `none`. -/
structure ControlReq where
  record : Option (List UInt8)
  sig : Option (Bytes 64)
  coSig : Option (Option (Bytes 64))

inductive PostControlError
  | badRequest
  | conflict
  | internal (e : StoreError)
  deriving DecidableEq

def PostControlError.ofAppend : ControlAppendError → PostControlError
  | .conflict => .conflict
  | .malformed => .badRequest
  | .store e => .internal e

/-- The first step of the handler: the record, appended and to be published, and the head to answer
with. -/
def postControlAppend (req : ControlReq) :
    ExceptT PostControlError (StateM ControlLog) (List UInt8 × Bytes 32) := do
  let record ← orFail req.record .badRequest
  let sig ← orFail req.sig .badRequest
  let coSig ← orFail (req.coSig.elim (some none) fun s => s.map some) .badRequest
  let head ← ExceptT.adapt PostControlError.ofAppend (ControlLog.appendControl record sig coSig)
  pure (record, head)

/-! ### What an append does -/

lemma decodeControl_link (bytes : List UInt8) :
    (decodeControl bytes).map (fun d => (d.prevHead, d.head)) =
      (recordPrev bytes).map fun prevHead => (prevHead, sha256 bytes) := by
  unfold decodeControl recordPrev Decoded.fromBytes
  rcases bytes with _ | ⟨hi, _ | ⟨lo, rest⟩⟩
  · rfl
  · rfl
  · simp only
    generalize UInt16.ofNat (BigEndian.ofBytes [hi, lo]) = id
    split
    · cases decode Revocation (hi :: lo :: rest) with
      | error e => rfl
      | ok r => rfl
    · cases decode Reinstatement (hi :: lo :: rest) with
      | error e => rfl
      | ok r => rfl
    · cases decode KeyCompromise (hi :: lo :: rest) with
      | error e => rfl
      | ok r => rfl
    · simp

lemma decodeControl_eq_none {bytes : List UInt8} :
    decodeControl bytes = none ↔ recordPrev bytes = none := by
  rw [← Option.map_eq_none_iff, decodeControl_link, Option.map_eq_none_iff]

lemma decodeControl_eq_some {bytes : List UInt8} {d : DecodedControl}
    (h : decodeControl bytes = some d) :
    recordPrev bytes = some d.prevHead ∧ d.head = sha256 bytes := by
  have hlink := decodeControl_link bytes
  rw [h] at hlink
  obtain ⟨prevHead, hprev, hpair⟩ := Option.map_eq_some_iff.mp hlink.symm
  obtain ⟨rfl, hhead⟩ := Prod.mk.inj hpair
  exact ⟨hprev, hhead.symm⟩

namespace ControlLog

variable {s t : ControlLog} {recordBytes : List UInt8} {sig : Bytes 64} {coSig : Option (Bytes 64)}

lemma atomic_appendControl : Atomic (appendControl recordBytes sig coSig) :=
  .orFail_bind fun _ _ => .get_bind fun _ => .failIf_bind .set_pure

lemma appendControl_ok {head : Bytes 32}
    (h : runFrom (appendControl recordBytes sig coSig) s = (.ok head, t)) :
    recordPrev recordBytes = some s.controlHead ∧ head = sha256 recordBytes ∧
      t.controlHead = head ∧ t.controlRecords = s.controlRecords ++ [recordBytes] := by
  unfold appendControl at h
  obtain ⟨d, hd, h⟩ := orFail_bind_eq_ok.mp h
  rw [get_bind_eq_ok] at h
  obtain ⟨hlink, h⟩ := failIf_bind_eq_ok.mp h
  obtain ⟨rfl, rfl⟩ := set_pure_eq_ok.mp h
  obtain ⟨hprev, hhead⟩ := decodeControl_eq_some hd
  refine ⟨?_, hhead, rfl, ?_⟩
  · rw [hprev, not_not.mp hlink]
  · simp [controlRecords]

lemma appendControl_error {e : ControlAppendError}
    (h : runFrom (appendControl recordBytes sig coSig) s = (.error e, t)) :
    t = s ∧ ((e = .malformed ∧ recordPrev recordBytes = none) ∨
      (e = .conflict ∧ ∃ prevHead, recordPrev recordBytes = some prevHead ∧
        prevHead ≠ s.controlHead)) := by
  refine ⟨atomic_appendControl s e t h, ?_⟩
  unfold appendControl at h
  rw [runFrom_orFail_bind] at h
  cases hd : decodeControl recordBytes with
  | none =>
    rw [hd] at h
    obtain ⟨he, _⟩ := Prod.mk.inj h
    exact .inl ⟨(Except.error.inj he).symm, decodeControl_eq_none.mp hd⟩
  | some d =>
    obtain ⟨hprev, _⟩ := decodeControl_eq_some hd
    rw [hd, Option.elim_some, runFrom_get_bind, runFrom_bind, runFrom_failIf] at h
    by_cases hlink : d.prevHead ≠ s.controlHead
    · rw [if_pos hlink] at h
      obtain ⟨he, _⟩ := Prod.mk.inj h
      exact .inr ⟨(Except.error.inj he).symm, d.prevHead, hprev, hlink⟩
    · rw [if_neg hlink] at h
      exact absurd (Prod.mk.inj h).1 (by simp)

/-- The records are a chain, and the head is its head. -/
structure IsChain (s : ControlLog) : Prop where
  linked : ChainLinked s.controlRecords
  head_eq : s.controlHead = chainHead s.controlRecords

lemma isChain_empty : empty.IsChain := ⟨trivial, rfl⟩

lemma IsChain.append {head : Bytes 32} (hs : s.IsChain)
    (h : runFrom (appendControl recordBytes sig coSig) s = (.ok head, t)) : t.IsChain := by
  obtain ⟨hprev, rfl, hhead, hrecords⟩ := appendControl_ok h
  constructor
  · rw [hrecords]
    refine (HashChain.linked_append_singleton _ _).mpr ⟨hs.linked, ?_⟩
    rw [hprev, hs.head_eq]
  · rw [hhead, hrecords]
    exact (HashChain.head_append_singleton _ _ _ _).symm

end ControlLog

variable {s t : ControlLog} {req : ControlReq}

lemma postControlAppend_ok {record : List UInt8} {head : Bytes 32}
    (h : runFrom (postControlAppend req) s = (.ok (record, head), t)) :
    ∃ sig coSig, runFrom (ControlLog.appendControl record sig coSig) s = (.ok head, t) := by
  unfold postControlAppend at h
  obtain ⟨_, _, h⟩ := orFail_bind_eq_ok.mp h
  obtain ⟨sig, _, h⟩ := orFail_bind_eq_ok.mp h
  obtain ⟨coSig, _, h⟩ := orFail_bind_eq_ok.mp h
  obtain ⟨_, _, happend, h⟩ := adapt_bind_eq_ok.mp h
  obtain ⟨hpair, rfl⟩ := Prod.mk.inj h
  obtain ⟨rfl, rfl⟩ := Prod.mk.inj (Except.ok.inj hpair)
  exact ⟨sig, coSig, happend⟩

lemma atomic_postControlAppend : Atomic (postControlAppend req) :=
  .orFail_bind fun _ _ => .orFail_bind fun _ _ => .orFail_bind fun _ _ =>
    .bind_pure <| .adapt ControlLog.atomic_appendControl

end

end MaxSecu
