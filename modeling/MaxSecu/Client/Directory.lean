import MaxSecu.Crypto.Dek
import MaxSecu.Client.Transparency
import MaxSecu.Client.Revocation

/-!
# Directory bindings and trust-on-last-use memory

Before the client uses a user's keys it verifies the signed binding, compares it with what it
remembers of the user, and checks the validity window.  The first binding of a user is pinned;
afterwards only `acceptKeyChange` replaces a pin, after the user has confirmed the new fingerprint.

`acceptKeyChange` does not look at the remembered version, and `authorizeRecipient` pins before it
looks at the tombstones.  `directory_rollbackProof_iff` says that these are the only two ways in
which a run departs from the rules.
-/

namespace MaxSecu

open ExceptRules

/-- The highest version of a user's keys that the client has accepted, and their fingerprint. -/
structure TrustRecord where
  keyVersion : UInt64
  fingerprint : Bytes 32
  deriving DecidableEq

abbrev TrustStore := Id → Option TrustRecord

/-- Keys that passed the binding checks.  `roles` is the signed ceiling. -/
structure VerifiedBinding where
  userId : Id
  encPub : X25519Pub
  sigPub : Ed25519Pub
  keyVersion : UInt64
  roles : List Role
  fingerprint : Bytes 32
  mlkemPub : Option MlKemPub

/-- Keys that also passed the revocation check. -/
structure AuthorizedRecipient where
  userId : Id
  encPub : X25519Pub
  sigPub : Ed25519Pub
  keyVersion : UInt64
  effectiveRoles : List Role
  fingerprint : Bytes 32
  mlkemPub : Option MlKemPub

/-- Why a binding was not accepted.  Each means that the binding is treated as absent. -/
inductive VerifyError
  | badSignature
  | rollback (rememberedKeyVersion servedKeyVersion : UInt64)
  | keyChanged (fingerprint : Bytes 32)
  | notYetValid
  | expired
  | revoked
  | notInLog (cause : KtError)
  deriving DecidableEq

/-- Bindings are verified against the key that signs them. -/
structure DirectoryVerifier where
  dirPub : Bytes 32

/-- What the first-contact log check is given.  The checkpoint store is part of the state. -/
structure KtContext where
  inclusion : InclusionProof (Bytes 32)
  checkpoint : KtCheckpoint (Bytes 32)
  consistency : List (Bytes 32)
  logPubs : List (Bytes 32)

section Verification

variable [UnicodeNormalization] [Sha256]

def DirBinding.trustRecord (binding : DirBinding) : TrustRecord :=
  ⟨binding.keyVersion, fingerprint binding.encPub binding.sigPub⟩

/-- Compare a served binding with what is remembered: is this the first contact?  A higher version,
or other keys under the remembered version, must first be confirmed. -/
def checkRemembered (remembered : Option TrustRecord) (servedKv : UInt64) (fp : Bytes 32) :
    Except VerifyError Bool :=
  match remembered with
  | none => pure true
  | some prev =>
    if servedKv < prev.keyVersion then
      throw (.rollback prev.keyVersion servedKv)
    else if servedKv > prev.keyVersion ∨ fp ≠ prev.fingerprint then
      throw (.keyChanged fp)
    else
      pure false

def checkValidity (binding : DirBinding) (nowMs : UInt64) : Except VerifyError Unit :=
  if nowMs < binding.notBefore.millis then
    throw .notYetValid
  else if nowMs > binding.notAfter.millis then
    throw .expired
  else
    pure ()

def verified (binding : DirBinding) (fp : Bytes 32) : VerifiedBinding :=
  { userId := binding.userId
    encPub := binding.encPub
    sigPub := binding.sigPub
    keyVersion := binding.keyVersion
    roles := binding.roles.roles
    fingerprint := fp
    mlkemPub := binding.mlkemPub }

namespace DirectoryVerifier

variable [Ed25519] (v : DirectoryVerifier)

def checkSignature (binding : DirBinding) (signature : Bytes 64) : Except VerifyError Unit :=
  (do
    let vk ← VerifyingKey.fromBytes v.dirPub
    vk.verifyCanonical Label.dirbinding.text binding signature).mapError fun _ => .badSignature

/-- Verify a served binding: its signature, what is remembered of the user, and its validity
window.  A first contact is pinned once everything has passed. -/
def verifyBinding (binding : DirBinding) (signature : Bytes 64) (nowMs : UInt64) :
    ExceptT VerifyError (StateM TrustStore) VerifiedBinding := do
  liftM (v.checkSignature binding signature)
  let fp := fingerprint binding.encPub binding.sigPub
  let trust ← get
  let firstContact ← liftM (checkRemembered (trust binding.userId) binding.keyVersion fp)
  liftM (checkValidity binding nowMs)
  if firstContact then
    modify fun trust => Function.update trust binding.userId (some ⟨binding.keyVersion, fp⟩)
    pure (verified binding fp)
  else
    pure (verified binding fp)

/-- A computation on the trust store, on a state that also holds the checkpoint store. -/
def onTrust {α : Type} (x : ExceptT VerifyError (StateM TrustStore) α) :
    ExceptT VerifyError (StateM (TrustStore × KtCheckpointStore (Bytes 32))) α :=
  .mk fun s => ((runFrom x s.1).1, ((runFrom x s.1).2, s.2))

/-- The log check on a binding's canonical bytes. -/
def checkLog (binding : DirBinding) (kt : KtContext) :
    ExceptT VerifyError (StateM (TrustStore × KtCheckpointStore (Bytes 32))) Unit :=
  .mk fun s =>
    let (result, store) := verifyBindingInLog sha256Log (encode binding) kt.inclusion kt.checkpoint
      kt.consistency kt.logPubs s.2
    (result.mapError .notInLog, (s.1, store))

/-- `verifyBinding` behind the optional log check, which is made at first contact only.  The
checkpoint store advances even if the binding fails afterwards. -/
def verifyBindingWithKt (binding : DirBinding) (signature : Bytes 64) (nowMs : UInt64)
    (kt : Option KtContext) :
    ExceptT VerifyError (StateM (TrustStore × KtCheckpointStore (Bytes 32))) VerifiedBinding := do
  let (trust, _) ← get
  match kt with
  | some kt =>
    if (trust binding.userId).isNone then
      checkLog binding kt
      onTrust (v.verifyBinding binding signature nowMs)
    else
      onTrust (v.verifyBinding binding signature nowMs)
  | none => onTrust (v.verifyBinding binding signature nowMs)

/-- `verifyBinding`, and then the account-wide tombstones. -/
def authorizeRecipient (binding : DirBinding) (signature : Bytes 64) (nowMs : UInt64)
    (tombstones : TombstoneSet) : ExceptT VerifyError (StateM TrustStore) AuthorizedRecipient := do
  let b ← v.verifyBinding binding signature nowMs
  if tombstones.isAccountRevoked b.userId then
    throw .revoked
  else
    pure
      { userId := b.userId
        encPub := b.encPub
        sigPub := b.sigPub
        keyVersion := b.keyVersion
        effectiveRoles := tombstones.effectiveRoles b.userId b.roles
        fingerprint := b.fingerprint
        mlkemPub := b.mlkemPub }

/-- Replace the pin by a binding that the user has confirmed out of band.  The signature and the
validity window are checked again; the remembered version is not looked at. -/
def acceptKeyChange (binding : DirBinding) (signature : Bytes 64) (nowMs : UInt64) :
    ExceptT VerifyError (StateM TrustStore) VerifiedBinding := do
  liftM (v.checkSignature binding signature)
  liftM (checkValidity binding nowMs)
  let fp := fingerprint binding.encPub binding.sigPub
  modify fun trust => Function.update trust binding.userId (some ⟨binding.keyVersion, fp⟩)
  pure (verified binding fp)

/-- The checks that do not depend on the memory. -/
def Passes (binding : DirBinding) (signature : Bytes 64) (nowMs : UInt64) : Prop :=
  v.checkSignature binding signature = .ok () ∧ checkValidity binding nowMs = .ok ()

end DirectoryVerifier

end Verification

/-! ## What one operation does -/

section Operations

open DirectoryVerifier

lemma checkRemembered_eq_ok {remembered : Option TrustRecord} {servedKv : UInt64} {fp : Bytes 32}
    {firstContact : Bool} :
    checkRemembered remembered servedKv fp = .ok firstContact ↔
      (remembered = none ∧ firstContact = true) ∨
        remembered = some ⟨servedKv, fp⟩ ∧ firstContact = false := by
  cases remembered with
  | none =>
    rw [checkRemembered, pure_eq_ok]
    simp [eq_comm]
  | some prev =>
    simp only [checkRemembered, guard_eq_ok, pure_eq_ok, reduceCtorEq, false_and, false_or,
      Option.some.injEq]
    constructor
    · rintro ⟨hge, hsame, rfl⟩
      obtain ⟨hle, hfp⟩ := not_or.mp hsame
      have hkv : prev.keyVersion = servedKv :=
        UInt64.le_antisymm (UInt64.not_lt.mp hge) (UInt64.not_lt.mp hle)
      refine ⟨?_, rfl⟩
      rw [← hkv, not_not.mp hfp]
    · rintro ⟨rfl, rfl⟩
      simp

variable [UnicodeNormalization] [Sha256] [Ed25519] {v : DirectoryVerifier} {binding : DirBinding}
  {signature : Bytes 64}
  {nowMs : UInt64} {trust trust' : TrustStore}

/-- A verified binding passed the checks, and its user was new or remembered by the same record;
afterwards the user is remembered by it.  A failure leaves the memory alone. -/
lemma verifyBinding_cases {r : Except VerifyError VerifiedBinding}
    (h : runFrom (v.verifyBinding binding signature nowMs) trust = (r, trust')) :
    (∃ e, r = .error e ∧ trust' = trust ∧
        (trust binding.userId = none → ¬ v.Passes binding signature nowMs)) ∨
      r = .ok (verified binding binding.trustRecord.fingerprint) ∧
        v.Passes binding signature nowMs ∧
        (trust binding.userId = none ∨ trust binding.userId = some binding.trustRecord) ∧
        trust' = Function.update trust binding.userId (some binding.trustRecord) := by
  unfold verifyBinding at h
  simp only [runFrom_bind_eq, runFrom_get, runFrom_liftM, Prod.mk.injEq, reduceCtorEq, false_and,
    exists_false, false_or, Except.ok.injEq] at h
  rcases h with ⟨e, ⟨hsig, rfl⟩, rfl⟩ | ⟨_, _, ⟨hsig, rfl⟩, _, _, ⟨rfl, rfl⟩, h⟩
  · refine .inl ⟨e, rfl, rfl, fun _ hpasses => ?_⟩
    rw [hpasses.1] at hsig
    cases hsig
  rcases h with ⟨e, ⟨hremembered, rfl⟩, rfl⟩ | ⟨firstContact, _, ⟨hremembered, rfl⟩, h⟩
  · refine .inl ⟨e, rfl, rfl, fun hnew _ => ?_⟩
    rw [hnew] at hremembered
    cases hremembered
  rcases h with ⟨e, ⟨hvalid, rfl⟩, rfl⟩ | ⟨_, _, ⟨hvalid, rfl⟩, h⟩
  · refine .inl ⟨e, rfl, rfl, fun _ hpasses => ?_⟩
    rw [hpasses.2] at hvalid
    cases hvalid
  right
  rcases checkRemembered_eq_ok.mp hremembered with ⟨hnew, rfl⟩ | ⟨hknown, rfl⟩
  · rw [if_pos rfl, runFrom_bind_ok (runFrom_modify _ _), runFrom_pure, Prod.mk.injEq] at h
    exact ⟨h.1.symm, ⟨hsig, hvalid⟩, .inl hnew, h.2.symm⟩
  · rw [if_neg Bool.false_ne_true, runFrom_pure, Prod.mk.injEq] at h
    have hsame : Function.update trust binding.userId (some binding.trustRecord) = trust := by
      have hrecord : trust binding.userId = some binding.trustRecord := hknown
      rw [← hrecord]
      exact Function.update_eq_self _ _
    exact ⟨h.1.symm, ⟨hsig, hvalid⟩, .inr hknown, by rw [hsame]; exact h.2.symm⟩

/-- A binding that passes the checks is accepted from a user who is new, or remembered by it. -/
lemma verifyBinding_of_passes (hpasses : v.Passes binding signature nowMs)
    (hknown : trust binding.userId = none ∨ trust binding.userId = some binding.trustRecord) :
    runFrom (v.verifyBinding binding signature nowMs) trust =
      (.ok (verified binding binding.trustRecord.fingerprint),
        Function.update trust binding.userId (some binding.trustRecord)) := by
  have hremembered : ∃ firstContact, checkRemembered (trust binding.userId) binding.keyVersion
      binding.trustRecord.fingerprint = .ok firstContact := by
    rcases hknown with hnew | hknown
    · exact ⟨true, checkRemembered_eq_ok.mpr (.inl ⟨hnew, rfl⟩)⟩
    · exact ⟨false, checkRemembered_eq_ok.mpr (.inr ⟨hknown, rfl⟩)⟩
  obtain ⟨firstContact, hremembered⟩ := hremembered
  rcases hrun : runFrom (v.verifyBinding binding signature nowMs) trust with ⟨r, trust'⟩
  rcases verifyBinding_cases hrun with ⟨e, rfl, -⟩ | ⟨rfl, -, -, rfl⟩
  · unfold verifyBinding at hrun
    rw [runFrom_bind_ok (by rw [runFrom_liftM, hpasses.1]), runFrom_bind_ok (runFrom_get _),
      runFrom_bind_ok (by rw [runFrom_liftM]; exact congrArg (·, trust) hremembered),
      runFrom_bind_ok (by rw [runFrom_liftM, hpasses.2])] at hrun
    cases firstContact with
    | true => cases hrun
    | false => cases hrun
  · rfl

lemma verifyBindingWithKt_cases {kt : Option KtContext}
    {store store' : KtCheckpointStore (Bytes 32)} {r : Except VerifyError VerifiedBinding}
    (h : runFrom (v.verifyBindingWithKt binding signature nowMs kt) (trust, store) =
      (r, trust', store')) :
    (∃ e, r = .error e ∧ trust' = trust) ∨
      runFrom (v.verifyBinding binding signature nowMs) trust = (r, trust') := by
  have hplain : ∀ {store₀}, runFrom (onTrust (v.verifyBinding binding signature nowMs))
      (trust, store₀) = (r, trust', store') →
      runFrom (v.verifyBinding binding signature nowMs) trust = (r, trust') := by
    intro store₀ h
    rw [onTrust, runFrom_mk, Prod.mk.injEq, Prod.mk.injEq] at h
    exact Prod.ext h.1 h.2.1
  unfold verifyBindingWithKt at h
  rw [runFrom_bind_ok (runFrom_get _)] at h
  cases kt with
  | none => exact .inr (hplain h)
  | some kt =>
    dsimp only at h
    by_cases hfirst : (trust binding.userId).isNone = true
    · rw [if_pos hfirst, runFrom_bind_eq] at h
      rcases h with ⟨e, hlog, rfl⟩ | ⟨_, ⟨trust₀, store₀⟩, hlog, h⟩
      · rw [checkLog, runFrom_mk] at hlog
        exact .inl ⟨e, rfl, (congrArg (·.2.1) hlog).symm⟩
      · rw [checkLog, runFrom_mk] at hlog
        obtain rfl : trust = trust₀ := congrArg (·.2.1) hlog
        exact .inr (hplain h)
    · rw [if_neg hfirst] at h
      exact .inr (hplain h)

lemma authorizeRecipient_cases {tombstones : TombstoneSet}
    {r : Except VerifyError AuthorizedRecipient}
    (h : runFrom (v.authorizeRecipient binding signature nowMs tombstones) trust = (r, trust')) :
    (∃ e, r = .error e ∧ trust' = trust ∧
        (trust binding.userId = none → ¬ v.Passes binding signature nowMs)) ∨
      v.Passes binding signature nowMs ∧
        (trust binding.userId = none ∨ trust binding.userId = some binding.trustRecord) ∧
        trust' = Function.update trust binding.userId (some binding.trustRecord) ∧
        (tombstones.isAccountRevoked binding.userId = true ∧ r = .error .revoked ∨
          tombstones.isAccountRevoked binding.userId = false ∧
            ∃ a, r = .ok a ∧ a.keyVersion = binding.keyVersion ∧
              a.fingerprint = binding.trustRecord.fingerprint) := by
  unfold authorizeRecipient at h
  rw [runFrom_bind_eq] at h
  rcases h with ⟨e, hverify, rfl⟩ | ⟨b, u, hverify, h⟩
  · rcases verifyBinding_cases hverify with ⟨e', -, hrest⟩ | ⟨hok, -⟩
    · exact .inl ⟨e, rfl, hrest⟩
    · cases hok
  · rcases verifyBinding_cases hverify with ⟨e', hbad, -⟩ | ⟨hok, hpasses, hknown, rfl⟩
    · cases hbad
    · obtain rfl := Except.ok.inj hok
      refine .inr ⟨hpasses, hknown, ?_⟩
      by_cases hrevoked : tombstones.isAccountRevoked binding.userId = true
      · have hset : tombstones.isAccountRevoked
            (verified binding binding.trustRecord.fingerprint).userId = true := hrevoked
        rw [if_pos hset, runFrom_throw, Prod.mk.injEq] at h
        exact ⟨h.2.symm, .inl ⟨hrevoked, h.1.symm⟩⟩
      · have hset : ¬ tombstones.isAccountRevoked
            (verified binding binding.trustRecord.fingerprint).userId = true := hrevoked
        rw [if_neg hset, runFrom_pure, Prod.mk.injEq] at h
        exact ⟨h.2.symm, .inr ⟨by simpa using hrevoked, _, h.1.symm, rfl, rfl⟩⟩

lemma acceptKeyChange_cases {r : Except VerifyError VerifiedBinding}
    (h : runFrom (v.acceptKeyChange binding signature nowMs) trust = (r, trust')) :
    (∃ e, r = .error e ∧ trust' = trust ∧ ¬ v.Passes binding signature nowMs) ∨
      r = .ok (verified binding binding.trustRecord.fingerprint) ∧
        v.Passes binding signature nowMs ∧
        trust' = Function.update trust binding.userId (some binding.trustRecord) := by
  unfold acceptKeyChange at h
  simp only [runFrom_bind_eq, runFrom_liftM, runFrom_modify, runFrom_pure, Prod.mk.injEq,
    reduceCtorEq, false_and, exists_false, false_or] at h
  rcases h with ⟨e, ⟨hsig, rfl⟩, rfl⟩ | ⟨_, _, ⟨hsig, rfl⟩, h⟩
  · refine .inl ⟨e, rfl, rfl, fun hpasses => ?_⟩
    rw [hpasses.1] at hsig
    cases hsig
  rcases h with ⟨e, ⟨hvalid, rfl⟩, rfl⟩ | ⟨_, _, ⟨hvalid, rfl⟩, _, _, ⟨-, rfl⟩, hr, htrust⟩
  · refine .inl ⟨e, rfl, rfl, fun hpasses => ?_⟩
    rw [hpasses.2] at hvalid
    cases hvalid
  · exact .inr ⟨hr.symm, ⟨hsig, hvalid⟩, htrust.symm⟩

end Operations

/-! ## Runs -/

section Runs

variable [UnicodeNormalization] [Sha256] [Ed25519] (v : DirectoryVerifier)

/-- One call of a run, with everything it is given.  The checkpoint store is the call's own: whatever
other clients of it have done is in it. -/
inductive DirectoryCall
  | verifyBinding (binding : DirBinding) (signature : Bytes 64) (nowMs : UInt64)
  | verifyBindingWithKt (binding : DirBinding) (signature : Bytes 64) (nowMs : UInt64)
      (kt : Option KtContext) (store : KtCheckpointStore (Bytes 32))
  | authorizeRecipient (binding : DirBinding) (signature : Bytes 64) (nowMs : UInt64)
      (tombstones : TombstoneSet)
  | acceptKeyChange (binding : DirBinding) (signature : Bytes 64) (nowMs : UInt64)

namespace DirectoryCall

def binding : DirectoryCall → DirBinding
  | verifyBinding b .. | verifyBindingWithKt b .. | authorizeRecipient b .. | acceptKeyChange b .. =>
    b

/-- Is it the out-of-band confirmation? -/
def isAcceptKeyChange : DirectoryCall → Bool
  | acceptKeyChange .. => true
  | _ => false

/-- Make a call: the version and fingerprint of the keys it accepts, and the memory afterwards. -/
def run (call : DirectoryCall) (trust : TrustStore) : Except VerifyError TrustRecord × TrustStore :=
  match call with
  | verifyBinding b sig now =>
    let (r, trust') := runFrom (v.verifyBinding b sig now) trust
    (r.map fun b => ⟨b.keyVersion, b.fingerprint⟩, trust')
  | verifyBindingWithKt b sig now kt store =>
    let (r, trust', _) := runFrom (v.verifyBindingWithKt b sig now kt) (trust, store)
    (r.map fun b => ⟨b.keyVersion, b.fingerprint⟩, trust')
  | authorizeRecipient b sig now tombstones =>
    let (r, trust') := runFrom (v.authorizeRecipient b sig now tombstones) trust
    (r.map fun a => ⟨a.keyVersion, a.fingerprint⟩, trust')
  | acceptKeyChange b sig now =>
    let (r, trust') := runFrom (v.acceptKeyChange b sig now) trust
    (r.map fun b => ⟨b.keyVersion, b.fingerprint⟩, trust')

/-- A call keeps the rules of the memory: versions never decrease, a fingerprint changes only in an
accepted `acceptKeyChange`, verified keys are the remembered ones, and a failure changes nothing. -/
structure Respects (call : DirectoryCall) (trust : TrustStore) : Prop where
  neverLowers : ∀ user prior, trust user = some prior →
    ∃ record, (call.run v trust).2 user = some record ∧ prior.keyVersion ≤ record.keyVersion
  changesOnConfirmation : ∀ user prior record, trust user = some prior →
    (call.run v trust).2 user = some record → record.fingerprint ≠ prior.fingerprint →
    call.isAcceptKeyChange ∧ ∃ accepted, (call.run v trust).1 = .ok accepted
  verifiesRemembered : ¬ call.isAcceptKeyChange → ∀ accepted, (call.run v trust).1 = .ok accepted →
    accepted = call.binding.trustRecord ∧
      (call.run v trust).2 call.binding.userId = some accepted ∧
      ∀ prior, trust call.binding.userId = some prior → prior = accepted
  failsCleanly : ∀ e, (call.run v trust).1 = .error e → (call.run v trust).2 = trust

/-- The condition: a confirmed key change does not carry a version below the remembered one, and a
first contact through `authorizeRecipient` is not with a user revoked account-wide. -/
def Guarded (trust : TrustStore) : DirectoryCall → Prop
  | authorizeRecipient b sig now tombstones =>
    trust b.userId = none → v.Passes b sig now → tombstones.isAccountRevoked b.userId = false
  | acceptKeyChange b sig now =>
    v.Passes b sig now → ∀ prior, trust b.userId = some prior → prior.keyVersion ≤ b.keyVersion
  | _ => True

variable {v} {call : DirectoryCall} {trust : TrustStore}

lemma Respects.of_error {e : VerifyError} (hresult : (call.run v trust).1 = .error e)
    (hafter : (call.run v trust).2 = trust) : call.Respects v trust := by
  constructor
  · intro user prior hprior
    rw [hafter]
    exact ⟨prior, hprior, UInt64.le_refl _⟩
  · intro user prior record hprior hrecord hchanged
    rw [hafter] at hrecord
    have hsame : prior = record := Option.some.inj (hprior.symm.trans hrecord)
    exact absurd (congrArg _ hsame.symm) hchanged
  · intro _ accepted haccepted
    rw [hresult] at haccepted
    cases haccepted
  · intro _ _
    exact hafter

/-- A call that remembers the record of the binding it accepts keeps the rules, where the user was
new, or known by that record, or the version confirmed is not below the remembered one. -/
lemma Respects.of_accepted (hresult : (call.run v trust).1 = .ok call.binding.trustRecord)
    (hafter : (call.run v trust).2 =
      Function.update trust call.binding.userId (some call.binding.trustRecord))
    (hknown : ∀ prior, trust call.binding.userId = some prior →
      prior = call.binding.trustRecord ∨
        call.isAcceptKeyChange ∧ prior.keyVersion ≤ call.binding.keyVersion) :
    call.Respects v trust := by
  constructor
  · intro user prior hprior
    rw [hafter]
    by_cases huser : user = call.binding.userId
    · subst huser
      refine ⟨_, Function.update_self .., ?_⟩
      rcases hknown prior hprior with rfl | ⟨-, hle⟩
      · exact UInt64.le_refl _
      · exact hle
    · exact ⟨prior, by rwa [Function.update_of_ne huser], UInt64.le_refl _⟩
  · intro user prior record hprior hrecord hchanged
    rw [hafter] at hrecord
    by_cases huser : user = call.binding.userId
    · subst huser
      rw [Function.update_self] at hrecord
      obtain rfl := Option.some.inj hrecord
      rcases hknown prior hprior with rfl | ⟨hconfirm, -⟩
      · exact absurd rfl hchanged
      · exact ⟨hconfirm, _, hresult⟩
    · rw [Function.update_of_ne huser, hprior] at hrecord
      exact absurd (congrArg _ (Option.some.inj hrecord).symm) hchanged
  · intro hverify accepted haccepted
    rw [hresult] at haccepted
    obtain rfl := Except.ok.inj haccepted
    refine ⟨rfl, ?_, fun prior hprior => ?_⟩
    · rw [hafter]
      exact Function.update_self ..
    · rcases hknown prior hprior with hsame | ⟨hconfirm, -⟩
      · exact hsame
      · exact absurd hconfirm hverify
  · intro e he
    rw [hresult] at he
    cases he

omit [Ed25519] in
lemma known_of_verified {binding : DirBinding} (hknown : trust binding.userId = none ∨
      trust binding.userId = some binding.trustRecord) :
    ∀ prior, trust binding.userId = some prior → prior = binding.trustRecord := by
  intro prior hprior
  rcases hknown with hnew | hknown
  · rw [hnew] at hprior
    cases hprior
  · exact Option.some.inj (hprior.symm.trans hknown)

lemma respects_verifyBinding {b : DirBinding} {sig : Bytes 64} {now : UInt64} :
    (verifyBinding b sig now).Respects v trust := by
  rcases hrun : runFrom (v.verifyBinding b sig now) trust with ⟨r, trust'⟩
  rcases verifyBinding_cases hrun with ⟨e, rfl, rfl, -⟩ | ⟨rfl, -, hknown, rfl⟩
  · exact .of_error (e := e) (by rw [run, hrun]; rfl) (by rw [run, hrun])
  · exact .of_accepted (by rw [run, hrun]; rfl) (by rw [run, hrun]; rfl)
      fun prior hprior => .inl (known_of_verified hknown prior hprior)

lemma respects_verifyBindingWithKt {b : DirBinding} {sig : Bytes 64} {now : UInt64}
    {kt : Option KtContext} {store : KtCheckpointStore (Bytes 32)} :
    (verifyBindingWithKt b sig now kt store).Respects v trust := by
  rcases hrun : runFrom (v.verifyBindingWithKt b sig now kt) (trust, store) with ⟨r, trust', s'⟩
  rcases verifyBindingWithKt_cases hrun with ⟨e, rfl, rfl⟩ | hplain
  · exact .of_error (e := e) (by rw [run, hrun]; rfl) (by rw [run, hrun])
  · rcases verifyBinding_cases hplain with ⟨e, rfl, rfl, -⟩ | ⟨rfl, -, hknown, rfl⟩
    · exact .of_error (e := e) (by rw [run, hrun]; rfl) (by rw [run, hrun])
    · exact .of_accepted (by rw [run, hrun]; rfl) (by rw [run, hrun]; rfl)
        fun prior hprior => .inl (known_of_verified hknown prior hprior)

lemma respects_authorizeRecipient_iff {b : DirBinding} {sig : Bytes 64} {now : UInt64}
    {tombstones : TombstoneSet} :
    (authorizeRecipient b sig now tombstones).Respects v trust ↔
      (authorizeRecipient b sig now tombstones).Guarded v trust := by
  rcases hrun : runFrom (v.authorizeRecipient b sig now tombstones) trust with ⟨r, trust'⟩
  have hresult : ((authorizeRecipient b sig now tombstones).run v trust).1 =
      r.map fun a => ⟨a.keyVersion, a.fingerprint⟩ := by
    rw [run, hrun]
  have hafter : ((authorizeRecipient b sig now tombstones).run v trust).2 = trust' := by
    rw [run, hrun]
  rcases authorizeRecipient_cases hrun with ⟨e, rfl, rfl, hfails⟩ |
    ⟨hpasses, hknown, rfl, ⟨hrevoked, rfl⟩ | ⟨hactive, a, rfl, hkv, hfp⟩⟩
  · exact ⟨fun _ hnew hpasses => absurd hpasses (hfails hnew), fun _ => .of_error hresult hafter⟩
  · constructor
    · intro hrespects hnew _
      have hpinned := congrFun (hafter.symm.trans (hrespects.failsCleanly _ hresult)) b.userId
      rw [Function.update_self, hnew] at hpinned
      cases hpinned
    · intro hguarded
      have hsame : trust b.userId = some b.trustRecord := by
        rcases hknown with hnew | hsame
        · have hactive := hguarded hnew hpasses
          rw [hrevoked] at hactive
          cases hactive
        · exact hsame
      refine .of_error hresult ?_
      rw [hafter, ← hsame, Function.update_eq_self]
  · refine ⟨fun _ _ _ => hactive, fun _ => .of_accepted ?_ hafter
      fun prior hprior => .inl (known_of_verified hknown prior hprior)⟩
    have hrecord : (⟨a.keyVersion, a.fingerprint⟩ : TrustRecord) = b.trustRecord := by
      rw [hkv, hfp]
      rfl
    exact hresult.trans (congrArg Except.ok hrecord)

lemma respects_acceptKeyChange_iff {b : DirBinding} {sig : Bytes 64} {now : UInt64} :
    (acceptKeyChange b sig now).Respects v trust ↔ (acceptKeyChange b sig now).Guarded v trust := by
  rcases hrun : runFrom (v.acceptKeyChange b sig now) trust with ⟨r, trust'⟩
  have hresult : ((acceptKeyChange b sig now).run v trust).1 =
      r.map fun b => ⟨b.keyVersion, b.fingerprint⟩ := by
    rw [run, hrun]
  have hafter : ((acceptKeyChange b sig now).run v trust).2 = trust' := by
    rw [run, hrun]
  rcases acceptKeyChange_cases hrun with ⟨e, rfl, rfl, hfails⟩ | ⟨rfl, hpasses, rfl⟩
  · exact ⟨fun _ hpasses => absurd hpasses hfails, fun _ => .of_error hresult hafter⟩
  · constructor
    · intro hrespects _ prior hprior
      obtain ⟨record, hrecord, hle⟩ := hrespects.neverLowers _ _ hprior
      rw [hafter, Function.update_self] at hrecord
      obtain rfl := Option.some.inj hrecord
      exact hle
    · intro hguarded
      exact .of_accepted hresult hafter fun prior hprior => .inr ⟨rfl, hguarded hpasses prior hprior⟩

lemma respects_iff_guarded : call.Respects v trust ↔ call.Guarded v trust := by
  cases call with
  | verifyBinding b sig now => exact ⟨fun _ => trivial, fun _ => respects_verifyBinding⟩
  | verifyBindingWithKt b sig now kt store =>
    exact ⟨fun _ => trivial, fun _ => respects_verifyBindingWithKt⟩
  | authorizeRecipient b sig now tombstones => exact respects_authorizeRecipient_iff
  | acceptKeyChange b sig now => exact respects_acceptKeyChange_iff

end DirectoryCall

/-- A client from an empty memory.  Its inputs are the calls, its output their results. -/
def directory : Machine TrustStore DirectoryCall (Except VerifyError TrustRecord) where
  init := fun _ => none
  step trust call := ((call.run v trust).2, [(call.run v trust).1])

def trustAfter (calls : List DirectoryCall) : TrustStore := ((directory v).run calls).1

/-- Trust memory over a run: every call keeps the rules, and between any two moments no user's
remembered version has decreased. -/
structure RollbackProof (calls : List DirectoryCall) : Prop where
  respects : ∀ earlier call rest, calls = earlier ++ call :: rest →
    call.Respects v (trustAfter v earlier)
  neverLowers : ∀ earlier later rest, calls = earlier ++ later ++ rest →
    ∀ user prior, trustAfter v earlier user = some prior →
      ∃ record, trustAfter v (earlier ++ later) user = some record ∧
        prior.keyVersion ≤ record.keyVersion

/-- **Directory trust memory, exactly.**  A run from an empty memory is rollback-proof if and only
if no confirmed key change carries a version below the remembered one, and no first contact through
`authorizeRecipient` is with a user revoked account-wide. -/
theorem directory_rollbackProof_iff (calls : List DirectoryCall) :
    RollbackProof v calls ↔ ∀ earlier call rest, calls = earlier ++ call :: rest →
      call.Guarded v (trustAfter v earlier) := by
  constructor
  · intro hproof earlier call rest hcalls
    exact DirectoryCall.respects_iff_guarded.mp (hproof.respects earlier call rest hcalls)
  · intro hguarded
    have hrespects : ∀ earlier call rest, calls = earlier ++ call :: rest →
        call.Respects v (trustAfter v earlier) := fun earlier call rest hcalls =>
      DirectoryCall.respects_iff_guarded.mpr (hguarded earlier call rest hcalls)
    refine ⟨hrespects, fun earlier later => ?_⟩
    induction later using List.reverseRecOn with
    | nil =>
      intro rest _ user prior hprior
      rw [List.append_nil]
      exact ⟨prior, hprior, UInt64.le_refl _⟩
    | append_singleton later call ih =>
      intro rest hcalls user prior hprior
      obtain ⟨record, hrecord, hle⟩ := ih (call :: rest) (by simp [hcalls]) user prior hprior
      have hstep := (hrespects (earlier ++ later) call rest (by simp [hcalls])).neverLowers
      obtain ⟨record', hrecord', hle'⟩ := hstep user record hrecord
      refine ⟨record', ?_, UInt64.le_trans hle hle'⟩
      rw [trustAfter, ← List.append_assoc, Machine.run_append_singleton]
      exact hrecord'

end Runs

/-- A binding of one user under version `kv`, valid at all times. -/
def alwaysValid (kv : UInt64) : @DirBinding asciiNormalization :=
  letI := asciiNormalization
  { username := ⟨"alice", by decide, by decide⟩
    userId := ⟨.replicate 16 1⟩
    encPub := ⟨.replicate 32 2⟩
    sigPub := ⟨.replicate 32 3⟩
    keyVersion := kv
    roles := .new []
    notBefore := ⟨0⟩
    notAfter := ⟨0xFFFFFFFFFFFFFFFF⟩
    mlkemPub := none }

/-- A user is pinned under version 2, and a confirmed change to the binding of version 1 is
accepted. -/
theorem directory_rollsBack :
    letI := asciiNormalization
    letI := tailSha256
    letI := acceptingEd25519
    ¬ RollbackProof ⟨.replicate 32 0⟩
      [.verifyBinding (alwaysValid 2) (.replicate 64 0) 0,
        .acceptKeyChange (alwaysValid 1) (.replicate 64 0) 0] := by
  let _ := asciiNormalization
  let _ := tailSha256
  let _ := acceptingEd25519
  intro hproof
  set v : DirectoryVerifier := ⟨.replicate 32 0⟩
  set pin : DirectoryCall := .verifyBinding (alwaysValid 2) (.replicate 64 0) 0
  set replace : DirectoryCall := .acceptKeyChange (alwaysValid 1) (.replicate 64 0) 0
  have hpinned : trustAfter v [pin] (alwaysValid 2).userId =
      some (alwaysValid 2).trustRecord := rfl
  have hreplaced : trustAfter v [pin, replace] (alwaysValid 2).userId =
      some (alwaysValid 1).trustRecord := rfl
  obtain ⟨record, hrecord, hle⟩ := hproof.neverLowers [pin] [replace] [] rfl _ _ hpinned
  obtain rfl := Option.some.inj (hreplaced.symm.trans hrecord)
  exact absurd hle (by decide)

end MaxSecu
