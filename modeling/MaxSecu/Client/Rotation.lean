import MaxSecu.Client.GrantChain
import MaxSecu.Client.Upload

/-!
# Rotating a file to its next version

The owner draws a fresh key, seals every stream under it, and grants it to itself, to the recovery
recipient, and to each prior recipient that survives: one whose grant chains to the prior author
and who is not revoked.

The candidates come from the server and are not checked for repeats.
`carriesForward_iff` says that this is the only way in which a rotation departs from its rule.
-/

namespace MaxSecu

open ExceptRules

/-- A prior recipient as the server reports it, with its grant and the grants it chains through. -/
structure CarryForwardCandidate where
  recipientId : Id
  recipientEncPub : EncPublicKey
  recipientMlkemPub : Option (Bytes MLKEM768_PUB_LEN)
  leafGrantBytes : List UInt8
  leafGrantSig : Bytes 64
  ancestorGrants : List (List UInt8 × Bytes 64)

/-- What the owner rotates, and from which version. -/
structure RotateParams where
  owner : Identity
  ownerId : Id
  fileId : Id
  fileType : FileType
  newVersion : UInt64
  chunkSize : UInt32
  recoveryPub : EncPublicKey
  suite : Suite
  recoveryMlkemPub : Option (Bytes MLKEM768_PUB_LEN)
  createdAt : Timestamp
  priorVersion : UInt64
  priorDekCommit : Bytes 32
  priorAuthorId : Id
  priorAuthorSigPub : Bytes 32

/-- The records of the next version. -/
structure RotationBundle where
  fileId : Id
  fileType : FileType
  manifest : Manifest
  manifestSig : Bytes 64
  streams : List SealedStreamOut
  wraps : List WrapOut

/-- Why a rotation could not be built.  Leaving out a candidate is not an error. -/
inductive RotateError
  | chunkSizeOutOfRange (chunkSize : UInt32)
  | priorDekMismatch
  | upload (e : UploadError)
  | pqKeyMissing
  deriving DecidableEq

section Survival

variable [Ed25519]

/-- Is a prior recipient carried into the next version?  Its grant must bind the prior version and
name this recipient, chain to the prior author without an admin, and not be revoked. -/
def candidateSurvives (c : CarryForwardCandidate) (params : RotateParams)
    (tombstones : TombstoneSet) (granterSigPub : Id → Option (Bytes 32)) : Bool :=
  match decode Grant c.leafGrantBytes with
  | .error _ => false
  | .ok leaf =>
    if leaf.fileId ≠ params.fileId ∨ leaf.fileVersion ≠ params.priorVersion ∨
        leaf.dekCommit ≠ ⟨params.priorDekCommit⟩ ∨ leaf.recipientId ≠ c.recipientId ∨
        leaf.recipientType ≠ .user then
      false
    else if ¬ (verifyGrantChain leaf c.leafGrantSig c.ancestorGrants params.fileId
        params.priorVersion ⟨params.priorDekCommit⟩ params.priorAuthorId params.priorAuthorSigPub
        granterSigPub none).isOk then
      false
    else
      ¬ (tombstones.isAccountRevoked c.recipientId ∨
        tombstones.isRevoked c.recipientId params.fileId params.newVersion)

end Survival

section Building

variable [Sha256] [Ed25519] [Hkdf] [Aes256Gcm] [Aes256GcmSeal] [Hpke] [HpkeSeal] [X25519]
  [X25519Base] [MlKem768] [MlKem768Encaps]

/-- Wrap the key to a standing recipient under the file's suite, without opening it again. -/
def wrapUnderSuite (rand : WrapEntropy) (suite : Suite) (signer : SigningKey) (req : WrapRequest)
    (encPub : EncPublicKey) (mlkemPub : Option (Bytes MLKEM768_PUB_LEN)) :
    Except RotateError WrapOut :=
  match suite with
  | .v1 => (wrapAndGrant rand signer req encPub none).mapError .upload
  | .v2 => do
    let mlkem ← mlkemPub.elim (throw .pqKeyMissing) pure
    (wrapAndGrantHybrid rand signer req ⟨encPub.bytes, mlkem⟩ none).mapError .upload

/-- Wrap the key to the owner under the file's suite, and open it again. -/
def wrapToOwner (rand : WrapEntropy) (suite : Suite) (owner : Identity) (req : WrapRequest) :
    Except RotateError WrapOut :=
  match suite with
  | .v1 =>
    (wrapAndGrant rand owner.sig req ⟨owner.encPubBytes⟩ (some owner.encSk)).mapError .upload
  | .v2 => do
    let ownerMlkem ← owner.mlkemPubBytes.elim (throw .pqKeyMissing) pure
    let ownerSeed ← owner.mlkemSeed.elim (throw .pqKeyMissing) pure
    (wrapAndGrantHybrid rand owner.sig req ⟨owner.encPubBytes, ownerMlkem⟩
      (some ⟨owner.encSk.bytes, ownerSeed⟩)).mapError .upload

/-- A wrap of the next version to one recipient. -/
def RotateParams.request (params : RotateParams) (dek : Dek) (recipientId : Id)
    (recipientType : RecipientType) : WrapRequest :=
  { fileId := params.fileId
    version := params.newVersion
    recipientId := recipientId
    recipientType := recipientType
    dek := dek
    dekCommit := dek.commit
    grantedBy := params.ownerId
    createdAt := params.createdAt }

/-- One round of the carry-forward loop.  Wrap number `n` draws `rand n`. -/
def carryForward (rand : ℕ → WrapEntropy) (dek : Dek) (params : RotateParams)
    (tombstones : TombstoneSet) (granterSigPub : Id → Option (Bytes 32)) (wraps : List WrapOut)
    (c : CarryForwardCandidate) : Except RotateError (List WrapOut) :=
  -- The owner and the recovery recipient are there already.
  if c.recipientId = params.ownerId ∨ c.recipientId = RECOVERY_ID then
    pure wraps
  else if ¬ candidateSurvives c params tombstones granterSigPub then
    pure wraps
  else do
    let wrap ← wrapUnderSuite (rand wraps.length) params.suite params.owner.sig
      (params.request dek c.recipientId .user) c.recipientEncPub c.recipientMlkemPub
    pure (wraps ++ [wrap])

/-- Author the next version of a file under the fresh key `dek`. -/
def buildNextVersion (rand : ℕ → WrapEntropy) (dek : Dek) (params : RotateParams)
    (streams : PlaintextStreams) (priorDek : Dek) (candidates : List CarryForwardCandidate)
    (tombstones : TombstoneSet) (granterSigPub : Id → Option (Bytes 32)) :
    Except RotateError RotationBundle :=
  if params.chunkSize < CHUNK_SIZE_MIN ∨ params.chunkSize > CHUNK_SIZE_MAX then
    throw (.chunkSizeOutOfRange params.chunkSize)
  else if priorDek.commit ≠ params.priorDekCommit then
    throw .priorDekMismatch
  else do
    let (manifestStreams, sealedOut) :=
      sealStreams dek params.fileId params.newVersion params.chunkSize streams
    let ownerWrap ← wrapToOwner (rand 0) params.suite params.owner
      (params.request dek params.ownerId .user)
    let recoveryWrap ← wrapUnderSuite (rand 1) params.suite params.owner.sig
      (params.request dek RECOVERY_ID .recovery) params.recoveryPub params.recoveryMlkemPub
    let wraps ← candidates.foldlM (carryForward rand dek params tombstones granterSigPub)
      [ownerWrap, recoveryWrap]
    let manifest : Manifest :=
      { fileId := params.fileId
        version := params.newVersion
        fileType := params.fileType
        alg := params.suite
        chunkSize := params.chunkSize
        dekCommit := ⟨dek.commit⟩
        streams := manifestStreams
        recoveryPresent := true
        authorId := params.ownerId
        createdAt := params.createdAt }
    pure
      { fileId := params.fileId
        fileType := params.fileType
        manifest := manifest
        manifestSig := params.owner.sig.signCanonical Label.manifest.text manifest
        streams := sealedOut
        wraps := wraps }

end Building

/-! ## Who is entitled -/

section Entitlement

variable [Ed25519] (params : RotateParams) (tombstones : TombstoneSet)
  (granterSigPub : Id → Option (Bytes 32))

/-- The candidate's grant binds the prior version and names it, chains to the prior author through
author and re-share edges only, and is not revoked. -/
def Entitled (c : CarryForwardCandidate) : Prop :=
  ∃ leaf byRecipient through, decode Grant c.leafGrantBytes = .ok leaf ∧
    (leaf.fileId = params.fileId ∧ leaf.fileVersion = params.priorVersion ∧
      leaf.dekCommit = ⟨params.priorDekCommit⟩ ∧ leaf.recipientId = c.recipientId ∧
      leaf.recipientType = .user) ∧
    ancestorsByRecipient c.ancestorGrants params.fileId params.priorVersion
      ⟨params.priorDekCommit⟩ = .ok byRecipient ∧
    PossessionChain byRecipient params.priorAuthorId params.priorAuthorSigPub granterSigPub through
      leaf c.leafGrantSig ∧
    through.length ≤ MAX_GRANT_CHAIN_DEPTH ∧ through.Nodup ∧
    tombstones.isAccountRevoked c.recipientId = false ∧
    tombstones.isRevoked c.recipientId params.fileId params.newVersion = false

variable {params tombstones granterSigPub} {c : CarryForwardCandidate}

lemma candidateSurvives_iff :
    candidateSurvives c params tombstones granterSigPub = true ↔
      Entitled params tombstones granterSigPub c := by
  unfold candidateSurvives
  constructor
  · intro h
    cases hleaf : decode Grant c.leafGrantBytes with
    | error e =>
      rw [hleaf] at h
      cases h
    | ok leaf =>
      simp only [hleaf] at h
      split at h
      · cases h
      · rename_i hfields
        split at h
        · cases h
        · rename_i hchain
          obtain ⟨byRecipient, through, hancestors, hchain, hlength, hnodup⟩ :=
            verifyGrantChain_isOk_iff.mp (not_not.mp hchain)
          simp only [ne_eq, not_or, not_not] at hfields
          simp only [not_or, Bool.not_eq_true, Bool.decide_and, Bool.and_eq_true,
            decide_eq_true_eq] at h
          exact ⟨leaf, byRecipient, through, hleaf, hfields, hancestors, hchain, hlength, hnodup,
            h.1, h.2⟩
  · rintro ⟨leaf, byRecipient, through, hleaf, hfields, hancestors, hchain, hlength, hnodup,
      haccount, hfile⟩
    have hverified := verifyGrantChain_isOk_iff.mpr
      ⟨byRecipient, through, hancestors, hchain, hlength, hnodup⟩
    simp only [hleaf]
    rw [if_neg (by simpa only [ne_eq, not_or, not_not] using hfields),
      if_neg (not_not.mpr hverified)]
    simp [haccount, hfile]

variable {candidates : List CarryForwardCandidate}

variable (params tombstones granterSigPub candidates) in
/-- The candidates that the loop wraps to. -/
def carried : List CarryForwardCandidate :=
  candidates.filter fun c => c.recipientId ≠ params.ownerId ∧ c.recipientId ≠ RECOVERY_ID ∧
    candidateSurvives c params tombstones granterSigPub

lemma mem_carried {c : CarryForwardCandidate} :
    c ∈ carried params tombstones granterSigPub candidates ↔ c ∈ candidates ∧
      c.recipientId ≠ params.ownerId ∧ c.recipientId ≠ RECOVERY_ID ∧
        Entitled params tombstones granterSigPub c := by
  rw [carried, List.mem_filter, decide_eq_true_eq, candidateSurvives_iff]

end Entitlement

/-! ## What a rotation produces -/

section Result

variable [Sha256] [Ed25519] [Hkdf] [Aes256Gcm] [Aes256GcmSeal] [Hpke] [HpkeSeal] [X25519]
  [X25519Base] [MlKem768] [MlKem768Encaps]

variable {rand : ℕ → WrapEntropy} {dek priorDek : Dek} {params : RotateParams}
  {streams : PlaintextStreams} {candidates : List CarryForwardCandidate}
  {tombstones : TombstoneSet} {granterSigPub : Id → Option (Bytes 32)} {bundle : RotationBundle}

omit [Sha256] in
lemma wrapUnderSuite_answers {r : WrapEntropy} {suite : Suite} {signer : SigningKey}
    {req : WrapRequest} {encPub : EncPublicKey} {mlkemPub : Option (Bytes MLKEM768_PUB_LEN)}
    {w : WrapOut} (h : wrapUnderSuite r suite signer req encPub mlkemPub = .ok w) :
    w.Answers signer req := by
  cases suite with
  | v1 => exact wrapAndGrant_answers (mapError_eq_ok.mp h)
  | v2 =>
    obtain ⟨mlkem, -, h⟩ := bind_eq_ok.mp h
    exact wrapAndGrantHybrid_answers (mapError_eq_ok.mp h)

omit [Sha256] in
lemma wrapToOwner_answers {r : WrapEntropy} {suite : Suite} {owner : Identity} {req : WrapRequest}
    {w : WrapOut} (h : wrapToOwner r suite owner req = .ok w) : w.Answers owner.sig req := by
  cases suite with
  | v1 => exact wrapAndGrant_answers (mapError_eq_ok.mp h)
  | v2 =>
    obtain ⟨mlkem, -, h⟩ := bind_eq_ok.mp h
    obtain ⟨seed, -, h⟩ := bind_eq_ok.mp h
    exact wrapAndGrantHybrid_answers (mapError_eq_ok.mp h)

omit [Sha256] in
lemma foldlM_carryForward {wraps wraps' : List WrapOut}
    (h : candidates.foldlM (carryForward rand dek params tombstones granterSigPub) wraps =
      .ok wraps') :
    ∃ new, wraps' = wraps ++ new ∧
      List.Forall₂ (fun c w => w.Answers params.owner.sig (params.request dek c.recipientId .user))
        (carried params tombstones granterSigPub candidates) new := by
  induction candidates generalizing wraps with
  | nil =>
    obtain rfl := foldlM_nil_eq_ok.mp h
    exact ⟨[], by simp, .nil⟩
  | cons c candidates ih =>
    obtain ⟨between, hround, hrest⟩ := foldlM_cons_eq_ok.mp h
    obtain ⟨new, rfl, hnew⟩ := ih hrest
    unfold carryForward at hround
    unfold carried at hnew ⊢
    by_cases hpresent : c.recipientId = params.ownerId ∨ c.recipientId = RECOVERY_ID
    · rw [if_pos hpresent] at hround
      obtain rfl := pure_eq_ok.mp hround
      refine ⟨new, rfl, ?_⟩
      rw [List.filter_cons_of_neg]
      · exact hnew
      · rw [decide_eq_true_eq]
        tauto
    · rw [if_neg hpresent] at hround
      by_cases hsurvives : candidateSurvives c params tombstones granterSigPub = true
      · rw [if_neg (not_not.mpr hsurvives)] at hround
        obtain ⟨w, hw, hround⟩ := bind_eq_ok.mp hround
        obtain rfl := pure_eq_ok.mp hround
        refine ⟨w :: new, by simp, ?_⟩
        rw [List.filter_cons_of_pos]
        · exact .cons (wrapUnderSuite_answers hw) hnew
        · rw [decide_eq_true_eq]
          tauto
      · rw [if_pos hsurvives] at hround
        obtain rfl := pure_eq_ok.mp hround
        refine ⟨new, rfl, ?_⟩
        rw [List.filter_cons_of_neg]
        · exact hnew
        · rw [decide_eq_true_eq]
          tauto

/-- The requests that the wraps of a rotation answer. -/
def RotateParams.requests (params : RotateParams) (dek : Dek)
    (carried : List CarryForwardCandidate) : List WrapRequest :=
  params.request dek params.ownerId .user :: params.request dek RECOVERY_ID .recovery ::
    carried.map fun c => params.request dek c.recipientId .user

lemma buildNextVersion_wraps
    (h : buildNextVersion rand dek params streams priorDek candidates tombstones granterSigPub =
      .ok bundle) :
    bundle.manifest.dekCommit = ⟨dek.commit⟩ ∧
      List.Forall₂ (fun req w => w.Answers params.owner.sig req)
        (params.requests dek (carried params tombstones granterSigPub candidates))
        bundle.wraps := by
  unfold buildNextVersion at h
  simp only [guard_eq_ok, bind_eq_ok, pure_eq_ok] at h
  obtain ⟨-, -, ownerWrap, howner, recoveryWrap, hrecovery, wraps, hloop, rfl⟩ := h
  obtain ⟨new, rfl, hnew⟩ := foldlM_carryForward hloop
  refine ⟨rfl, .cons (wrapToOwner_answers howner) (.cons (wrapUnderSuite_answers hrecovery) ?_)⟩
  exact List.forall₂_map_left_iff.mpr hnew

lemma buildNextVersion_recipients
    (h : buildNextVersion rand dek params streams priorDek candidates tombstones granterSigPub =
      .ok bundle) :
    bundle.wraps.map (·.recipientId) = params.ownerId :: RECOVERY_ID ::
      (carried params tombstones granterSigPub candidates).map (·.recipientId) := by
  rw [answers_recipients (buildNextVersion_wraps h).2]
  simp [RotateParams.requests, RotateParams.request, Function.comp_def]

variable (params candidates tombstones granterSigPub bundle) in
/-- A rotation carries exactly the entitled recipients forward: each has one wrap, under a grant of
the owner for the new version and key; and no candidate comes in through a chain that leaves the
served grants before it reaches the author, as a recovery operator's does. -/
structure CarriesForward : Prop where
  recipients : ∀ id, id ∈ bundle.wraps.map (·.recipientId) ↔ id = params.ownerId ∨
    id = RECOVERY_ID ∨ ∃ c ∈ candidates, c.recipientId = id ∧
      Entitled params tombstones granterSigPub c
  once : (bundle.wraps.map (·.recipientId)).Nodup
  grants : ∀ w ∈ bundle.wraps, w.grant.fileId = params.fileId ∧
    w.grant.fileVersion = params.newVersion ∧ w.grant.recipientId = w.recipientId ∧
    w.grant.dekCommit = bundle.manifest.dekCommit ∧ w.grant.grantedBy = params.ownerId ∧
    w.grantSig = params.owner.sig.signCanonical Label.grant.text w.grant
  noOperator : ∀ c ∈ candidates, ∀ leaf byRecipient, decode Grant c.leafGrantBytes = .ok leaf →
    ancestorsByRecipient c.ancestorGrants params.fileId params.priorVersion
      ⟨params.priorDekCommit⟩ = .ok byRecipient →
    LeavesGrants byRecipient params.priorAuthorId leaf → ¬ Entitled params tombstones granterSigPub c

lemma buildNextVersion_mem_recipients
    (h : buildNextVersion rand dek params streams priorDek candidates tombstones granterSigPub =
      .ok bundle) (id : Id) :
    id ∈ bundle.wraps.map (·.recipientId) ↔ id = params.ownerId ∨ id = RECOVERY_ID ∨
      ∃ c ∈ candidates, c.recipientId = id ∧ Entitled params tombstones granterSigPub c := by
  rw [buildNextVersion_recipients h]
  simp only [List.mem_cons, List.mem_map, mem_carried]
  constructor
  · rintro (howner | hrecovery | ⟨c, ⟨hc, -, -, hentitled⟩, rfl⟩)
    · exact .inl howner
    · exact .inr (.inl hrecovery)
    · exact .inr (.inr ⟨c, hc, rfl, hentitled⟩)
  · rintro (howner | hrecovery | ⟨c, hc, rfl, hentitled⟩)
    · exact .inl howner
    · exact .inr (.inl hrecovery)
    · by_cases howner : c.recipientId = params.ownerId
      · exact .inl howner
      · by_cases hrecovery : c.recipientId = RECOVERY_ID
        · exact .inr (.inl hrecovery)
        · exact .inr (.inr ⟨c, ⟨hc, howner, hrecovery, hentitled⟩, rfl⟩)

lemma buildNextVersion_grants
    (h : buildNextVersion rand dek params streams priorDek candidates tombstones granterSigPub =
      .ok bundle) {w : WrapOut} (hw : w ∈ bundle.wraps) :
    w.grant.fileId = params.fileId ∧ w.grant.fileVersion = params.newVersion ∧
      w.grant.recipientId = w.recipientId ∧ w.grant.dekCommit = bundle.manifest.dekCommit ∧
      w.grant.grantedBy = params.ownerId ∧
      w.grantSig = params.owner.sig.signCanonical Label.grant.text w.grant := by
  obtain ⟨hcommit, hanswers⟩ := buildNextVersion_wraps h
  obtain ⟨req, hreq, hrecipient, hgrant, hsig⟩ := exists_answered hanswers hw
  have hrequest : ∃ recipientId recipientType,
      req = params.request dek recipientId recipientType := by
    simp only [RotateParams.requests, List.mem_cons, List.mem_map] at hreq
    rcases hreq with rfl | rfl | ⟨c, -, rfl⟩
    · exact ⟨_, _, rfl⟩
    · exact ⟨_, _, rfl⟩
    · exact ⟨_, _, rfl⟩
  obtain ⟨recipientId, recipientType, rfl⟩ := hrequest
  rw [hgrant, hsig, hcommit, hrecipient]
  exact ⟨rfl, rfl, rfl, rfl, rfl, rfl⟩

/-- **Carry-forward, exactly.**  A rotation that succeeds carries exactly the entitled recipients
forward if and only if the owner is not the recovery recipient and no two of the entitled candidates
other than these have one id. -/
theorem carriesForward_iff
    (h : buildNextVersion rand dek params streams priorDek candidates tombstones granterSigPub =
      .ok bundle) :
    CarriesForward params candidates tombstones granterSigPub bundle ↔
      params.ownerId ≠ RECOVERY_ID ∧ candidates.Pairwise fun c d =>
        (c.recipientId ≠ params.ownerId ∧ c.recipientId ≠ RECOVERY_ID ∧
          Entitled params tombstones granterSigPub c) →
        (d.recipientId ≠ params.ownerId ∧ d.recipientId ≠ RECOVERY_ID ∧
          Entitled params tombstones granterSigPub d) → c.recipientId ≠ d.recipientId := by
  have honce : (bundle.wraps.map (·.recipientId)).Nodup ↔
      params.ownerId ≠ RECOVERY_ID ∧ candidates.Pairwise fun c d =>
        (c.recipientId ≠ params.ownerId ∧ c.recipientId ≠ RECOVERY_ID ∧
          Entitled params tombstones granterSigPub c) →
        (d.recipientId ≠ params.ownerId ∧ d.recipientId ≠ RECOVERY_ID ∧
          Entitled params tombstones granterSigPub d) → c.recipientId ≠ d.recipientId := by
    have hnot : ∀ {id}, (∀ c ∈ carried params tombstones granterSigPub candidates,
        c.recipientId ≠ id) →
        id ∉ (carried params tombstones granterSigPub candidates).map (·.recipientId) := by
      intro id hother hid
      obtain ⟨c, hc, rfl⟩ := List.mem_map.mp hid
      exact hother c hc rfl
    have hrecovery := hnot fun c hc => (mem_carried.mp hc).2.2.1
    have howner := hnot fun c hc => (mem_carried.mp hc).2.1
    rw [buildNextVersion_recipients h, List.nodup_cons, List.nodup_cons, List.mem_cons, not_or]
    simp only [howner, hrecovery, not_false_eq_true, and_true, true_and, ne_eq]
    rw [List.Nodup, List.pairwise_map, carried, List.pairwise_filter]
    simp only [decide_eq_true_eq, candidateSurvives_iff, ne_eq]
  constructor
  · intro hforward
    exact honce.mp hforward.once
  · intro hdistinct
    constructor
    · exact buildNextVersion_mem_recipients h
    · exact honce.mpr hdistinct
    · exact fun w hw => buildNextVersion_grants h hw
    · rintro c - leaf byRecipient hleaf hancestors hleaves
        ⟨leaf', byRecipient', through, hleaf', -, hancestors', hchain, -⟩
      obtain rfl := Except.ok.inj (hleaf.symm.trans hleaf')
      obtain rfl := Except.ok.inj (hancestors.symm.trans hancestors')
      exact hchain.not_leavesGrants hleaves

end Result

/-! ## A candidate served twice -/

/-- A grant of the owner to one reader, of version 1. -/
def readerGrant : Grant :=
  { fileId := ⟨.replicate 16 9⟩
    fileVersion := 1
    recipientId := ⟨.replicate 16 2⟩
    recipientType := .user
    dekCommit := ⟨.replicate 32 2⟩
    grantedBy := ⟨.replicate 16 1⟩
    createdAt := ⟨0⟩ }

def servedReader : CarryForwardCandidate :=
  { recipientId := ⟨.replicate 16 2⟩
    recipientEncPub := ⟨.replicate 32 0⟩
    recipientMlkemPub := none
    leafGrantBytes := encode readerGrant
    leafGrantSig := .replicate 64 0
    ancestorGrants := [] }

def toVersionTwo : RotateParams :=
  { owner := ⟨⟨.replicate 32 0⟩, ⟨.replicate 32 0⟩, ⟨.replicate 32 0⟩, none⟩
    ownerId := ⟨.replicate 16 1⟩
    fileId := ⟨.replicate 16 9⟩
    fileType := .blog
    newVersion := 2
    chunkSize := 4096
    recoveryPub := ⟨.replicate 32 0⟩
    suite := .v1
    recoveryMlkemPub := none
    createdAt := ⟨0⟩
    priorVersion := 1
    priorDekCommit := .replicate 32 2
    priorAuthorId := ⟨.replicate 16 1⟩
    priorAuthorSigPub := .replicate 32 0 }

/-- Rotate to version 2 over ciphers that accept everything. -/
def rotateToTwo (candidates : List CarryForwardCandidate) : Except RotateError RotationBundle :=
  letI := constantSha256
  letI := acceptingEd25519
  letI := constantHkdf
  letI := tagStrippingAead
  letI := tagAppendingAeadSeal
  letI := tagStrippingHpke
  letI := showingHpkeSeal
  letI := constantX25519
  letI := constantX25519Base
  letI := constantMlKem768
  letI := constantMlKem768Encaps
  buildNextVersion (fun _ => ⟨.replicate 32 0, .replicate 32 0, .replicate 32 0⟩)
    ⟨.replicate 32 0⟩ toVersionTwo ⟨[1], none, none, none⟩ ⟨.replicate 32 0⟩ candidates ⟨[]⟩
    (fun _ => none)

/-- A reader served once is carried forward once. -/
theorem carriesForward_iff_servedOnce :
    letI := acceptingEd25519
    ∃ bundle, rotateToTwo [servedReader] = .ok bundle ∧
      CarriesForward toVersionTwo [servedReader] ⟨[]⟩ (fun _ => none) bundle := by
  let _ := constantSha256
  let _ := acceptingEd25519
  let _ := constantHkdf
  let _ := tagStrippingAead
  let _ := tagAppendingAeadSeal
  let _ := tagStrippingHpke
  let _ := showingHpkeSeal
  let _ := constantX25519
  let _ := constantX25519Base
  let _ := constantMlKem768
  let _ := constantMlKem768Encaps
  have hok : (rotateToTwo [servedReader]).isOk = true := by decide +kernel
  cases hbundle : rotateToTwo [servedReader] with
  | error e =>
    rw [hbundle] at hok
    cases hok
  | ok bundle =>
    have howner : toVersionTwo.ownerId ≠ RECOVERY_ID := by decide
    exact ⟨bundle, rfl,
      (carriesForward_iff hbundle).mpr ⟨howner, List.pairwise_singleton _ _⟩⟩

/-- A reader served twice gets two wraps. -/
theorem carriesForward_fails :
    letI := acceptingEd25519
    ∃ bundle, rotateToTwo [servedReader, servedReader] = .ok bundle ∧
      ¬ CarriesForward toVersionTwo [servedReader, servedReader] ⟨[]⟩ (fun _ => none) bundle := by
  let _ := acceptingEd25519
  have hrecipients : (rotateToTwo [servedReader, servedReader]).map
      (fun bundle => bundle.wraps.map (·.recipientId)) =
        .ok [⟨.replicate 16 1⟩, RECOVERY_ID, ⟨.replicate 16 2⟩, ⟨.replicate 16 2⟩] := by
    decide +kernel
  cases hbundle : rotateToTwo [servedReader, servedReader] with
  | error e =>
    rw [hbundle] at hrecipients
    cases hrecipients
  | ok bundle =>
    rw [hbundle] at hrecipients
    have hwraps : bundle.wraps.map (·.recipientId) =
        [⟨.replicate 16 1⟩, RECOVERY_ID, ⟨.replicate 16 2⟩, ⟨.replicate 16 2⟩] :=
      Except.ok.inj hrecipients
    refine ⟨bundle, rfl, fun hforward => ?_⟩
    have honce := hforward.once
    rw [hwraps] at honce
    exact absurd honce (by decide)

end MaxSecu
