import MaxSecu.Client.ContentSealing
import MaxSecu.Client.HeaderChecks
import MaxSecu.Client.Rotation

/-!
# Recovery by an operator

Where no recipient is left who could re-share a file, an admin opens the recovery wrap offline, wraps
the key to a new recipient and signs the grant.  No downloader can try a recovery wrap, so a sweep
over all of them finds beforehand which ones do not open.

The grant of an operator, and what is re-shared from it, is good wherever admins are resolved, and
lasts for one version: a rotation carries none of it (`recoveryGrant_lastsOneVersion`).
-/

namespace MaxSecu

open ExceptRules

/-! ## Grants -/

structure RecoveryGrantParams where
  adminSig : SigningKey
  adminId : Id
  fileId : Id
  version : UInt64
  dekCommit : Bytes 32
  recipientId : Id
  recipientEncPub : EncPublicKey
  createdAt : Timestamp

structure RecoveryGrantOut where
  recipientId : Id
  wrappedDek : WrappedDek
  grant : Grant
  grantSig : Bytes 64

inductive Recovery.RecoveryError
  /-- The operator does not hold the key of this version. -/
  | dekCommitMismatch
  | wrapFailed
  deriving DecidableEq

/-- Grant the key, which the recovery key has opened, to a new recipient. -/
def buildRecoveryGrant [Ed25519] [Hkdf] [HpkeSeal] (rand : WrapEntropy)
    (params : RecoveryGrantParams) (dek : Dek) :
    Except Recovery.RecoveryError RecoveryGrantOut :=
  if dek.commit ≠ params.dekCommit then
    throw .dekCommitMismatch
  else do
    let ctx : WrapContext := ⟨params.fileId, params.version, params.recipientId⟩
    let wrappedDek ← (wrapDek rand params.recipientEncPub dek ctx).mapError fun _ => .wrapFailed
    let grant : Grant :=
      { fileId := params.fileId
        fileVersion := params.version
        recipientId := params.recipientId
        recipientType := .user
        dekCommit := ⟨params.dekCommit⟩
        grantedBy := params.adminId
        createdAt := params.createdAt }
    pure
      { recipientId := params.recipientId
        wrappedDek := wrappedDek
        grant := grant
        grantSig := params.adminSig.signCanonical Label.grant.text grant }

lemma buildRecoveryGrant_eq_ok [Ed25519] [Hkdf] [HpkeSeal] {rand : WrapEntropy}
    {params : RecoveryGrantParams} {dek : Dek} {out : RecoveryGrantOut}
    (h : buildRecoveryGrant rand params dek = .ok out) :
    dek.commit = params.dekCommit ∧ out.grant.grantedBy = params.adminId ∧
      out.grantSig = params.adminSig.signCanonical Label.grant.text out.grant ∧
      wrapDek rand params.recipientEncPub dek ⟨params.fileId, params.version, out.recipientId⟩ =
        .ok out.wrappedDek := by
  unfold buildRecoveryGrant at h
  obtain ⟨hcommit, h⟩ := guard_eq_ok.mp h
  obtain ⟨wrappedDek, hwrap, h⟩ := bind_eq_ok.mp h
  obtain rfl := pure_eq_ok.mp h
  exact ⟨not_not.mp hcommit, rfl, rfl, mapError_eq_ok.mp hwrap⟩

/-! ## What becomes of a grant -/

section Reshared

variable [Ed25519] (byRecipient : Id → Option (Grant × Bytes 64)) (authorId : Id)
  (granterSigPub : Id → Option (Bytes 32)) (top : Grant) (topSig : Bytes 64)

/-- A sequence of re-shares, each signed by its granter, goes down from the grant `top`.  The list is
of the re-sharers. -/
inductive ResharedFrom : List Id → Grant → Bytes 64 → Prop
  | top : ResharedFrom [] top topSig
  | reshare {g next : Grant} {sig nextSig : Bytes 64} {pub : Bytes 32} {through : List Id}
      (hgranter : g.grantedBy ≠ authorId) (hnext : byRecipient g.grantedBy = some (next, nextSig))
      (hpub : granterSigPub g.grantedBy = some pub)
      (hsig : verify pub Label.grant.text g sig = true)
      (hrest : ResharedFrom through next nextSig) : ResharedFrom (g.grantedBy :: through) g sig

variable {byRecipient authorId granterSigPub top topSig} {through : List Id} {leaf : Grant}
  {leafSig : Bytes 64}

lemma ResharedFrom.leavesGrants
    (h : ResharedFrom byRecipient authorId granterSigPub top topSig through leaf leafSig)
    (hauthor : top.grantedBy ≠ authorId) (hnone : byRecipient top.grantedBy = none) :
    LeavesGrants byRecipient authorId leaf := by
  induction h with
  | top => exact .outside hauthor hnone
  | reshare hgranter hnext _ _ _ ih => exact .reshare hgranter hnext ih

lemma ResharedFrom.grantPath {pub : Bytes 32} {adminSigPub : Id → Option (Bytes 32)}
    (h : ResharedFrom byRecipient authorId granterSigPub top topSig through leaf leafSig)
    (authorSigPub : Bytes 32)
    (hauthor : top.grantedBy ≠ authorId) (hnone : byRecipient top.grantedBy = none)
    (hadmin : adminSigPub top.grantedBy = some pub)
    (hsig : verify pub Label.grant.text top topSig = true) :
    GrantPath (Indexed byRecipient) authorId authorSigPub granterSigPub (some adminSigPub) through
      top.grantedBy leaf leafSig := by
  induction h with
  | top =>
    refine .admin hauthor (fun next nextSig hnext => ?_) hadmin hsig
    exact absurd (hnone.symm.trans hnext) (by simp)
  | reshare hgranter hnext hpub hsig _ ih => exact .reshare hgranter hnext hpub hsig ih

end Reshared

/-- **An operator's grant lasts for one version.**  The recipient opens the key of the version with
it.  The grant, and whatever is re-shared from it over at most `MAX_GRANT_CHAIN_DEPTH` users, is
accepted with a resolver for the operator's key; it is not accepted without one, and a rotation of
the file carries none of it forward. -/
theorem recoveryGrant_lastsOneVersion [Ed25519] [Hkdf] [Hpke] [HpkeSeal] {rand : WrapEntropy}
    {params : RecoveryGrantParams} {dek : Dek} {out : RecoveryGrantOut}
    (hbuild : buildRecoveryGrant rand params dek = .ok out) (hkey : params.adminSig.Verifies)
    {sk : EncSecretKey} (hpair : EncPair sk params.recipientEncPub)
    {ancestors : List (List UInt8 × Bytes 64)} {byRecipient : Id → Option (Grant × Bytes 64)}
    (hancestors : ancestorsByRecipient ancestors params.fileId params.version ⟨params.dekCommit⟩ =
      .ok byRecipient)
    {authorId : Id} (hauthor : params.adminId ≠ authorId)
    (hoperator : byRecipient params.adminId = none) {granterSigPub : Id → Option (Bytes 32)}
    {through : List Id} {leaf : Grant} {leafSig : Bytes 64}
    (hleaf : ResharedFrom byRecipient authorId granterSigPub out.grant out.grantSig through leaf
      leafSig)
    (hlength : through.length ≤ MAX_GRANT_CHAIN_DEPTH) (hnodup : through.Nodup)
    (authorSigPub : Bytes 32) :
    unwrapDek sk out.wrappedDek ⟨params.fileId, params.version, out.recipientId⟩ = .ok dek ∧
    dek.commit = params.dekCommit ∧
    (∀ adminSigPub : Id → Option (Bytes 32),
      adminSigPub params.adminId = some params.adminSig.verifyingKey →
        verifyGrantChain leaf leafSig ancestors params.fileId params.version ⟨params.dekCommit⟩
          authorId authorSigPub granterSigPub (some adminSigPub) = .ok ()) ∧
    (verifyGrantChain leaf leafSig ancestors params.fileId params.version ⟨params.dekCommit⟩
      authorId authorSigPub granterSigPub none).isOk = false ∧
    ∀ (c : CarryForwardCandidate) (rotation : RotateParams) (tombstones : TombstoneSet)
      (granters : Id → Option (Bytes 32)), rotation.fileId = params.fileId →
      rotation.priorVersion = params.version → rotation.priorDekCommit = params.dekCommit →
      rotation.priorAuthorId = authorId → decode Grant c.leafGrantBytes = .ok leaf →
      c.ancestorGrants = ancestors → candidateSurvives c rotation tombstones granters = false := by
  obtain ⟨hcommit, hgranter, hsig, hwrap⟩ := buildRecoveryGrant_eq_ok hbuild
  rw [← hgranter] at hauthor hoperator
  have hleaves := hleaf.leavesGrants hauthor hoperator
  refine ⟨hpair.unwrapDek hwrap, hcommit, ?_, ?_, ?_⟩
  · intro adminSigPub hadmin
    rw [← hgranter] at hadmin
    have hverify : verify params.adminSig.verifyingKey Label.grant.text out.grant out.grantSig :=
      hsig ▸ hkey.verify _ _
    have hpath := hleaf.grantPath authorSigPub hauthor hoperator hadmin hverify
    rw [verifyGrantChain, bind_eq_ok]
    exact ⟨byRecipient, hancestors,
      walkGrantChain_path.mpr ⟨through, _, hpath, hlength, hnodup, by simp⟩⟩
  · rw [Bool.eq_false_iff, ne_eq, verifyGrantChain_isOk_iff]
    rintro ⟨byRecipient', through', hancestors', hchain, -⟩
    obtain rfl := Except.ok.inj (hancestors.symm.trans hancestors')
    exact hchain.not_leavesGrants hleaves
  · intro c rotation tombstones granters hfile hversion hdek hprior hdecode hserved
    rw [Bool.eq_false_iff, ne_eq, candidateSurvives_iff]
    rintro ⟨leaf', byRecipient', through', hdecode', -, hancestors', hchain, -⟩
    obtain rfl := Except.ok.inj (hdecode.symm.trans hdecode')
    rw [hserved, hfile, hversion, hdek] at hancestors'
    obtain rfl := Except.ok.inj (hancestors.symm.trans hancestors')
    rw [hprior] at hchain
    exact hchain.not_leavesGrants hleaves

section Operator

open ClosedRuns

/-- An operator grants user 2 the key of the file. -/
def operatorGrants : RecoveryGrantParams where
  adminSig := ⟨.replicate 32 7⟩
  adminId := ⟨.replicate 16 7⟩
  fileId := ⟨.replicate 16 9⟩
  version := 1
  dekCommit := .replicate 32 2
  recipientId := ⟨.replicate 16 2⟩
  recipientEncPub := ⟨.replicate 32 0⟩
  createdAt := ⟨0⟩

/-- User 2 re-shares the file with user 3. -/
theorem recoveryGrant_lastsOneVersion_reshared :
    ∃ out, buildRecoveryGrant ⟨.replicate 32 0, .replicate 32 0, .replicate 32 0⟩ operatorGrants
        ⟨.replicate 32 0⟩ = .ok out ∧
      verifyGrantChain (oneFileGrant 2 3) (.replicate 64 0) (oneAncestor 7 2) ⟨.replicate 16 9⟩ 1
          ⟨.replicate 32 2⟩ ⟨.replicate 16 1⟩ (.replicate 32 0) (fun _ => some (.replicate 32 1))
          (some fun _ => some (.replicate 32 7)) = .ok () ∧
      (verifyGrantChain (oneFileGrant 2 3) (.replicate 64 0) (oneAncestor 7 2) ⟨.replicate 16 9⟩ 1
          ⟨.replicate 32 2⟩ ⟨.replicate 16 1⟩ (.replicate 32 0) (fun _ => some (.replicate 32 1))
          none).isOk = false := by
  have hbuild : buildRecoveryGrant ⟨.replicate 32 0, .replicate 32 0, .replicate 32 0⟩
      operatorGrants ⟨.replicate 32 0⟩ = .ok ⟨⟨.replicate 16 2⟩,
        ⟨.replicate 32 0, (List.Vector.replicate 32 0).toList⟩, oneFileGrant 7 2,
        .replicate 64 0⟩ := rfl
  let served : Id → Option (Grant × Bytes 64) :=
    Function.update (fun _ => none) ⟨.replicate 16 2⟩ (some (oneFileGrant 7 2, .replicate 64 0))
  have hround : indexAncestor ⟨.replicate 16 9⟩ 1 ⟨.replicate 32 2⟩ (fun _ => none)
      (encode (oneFileGrant 7 2), .replicate 64 0) = .ok served :=
    indexAncestor_eq_ok.mpr
      ⟨oneFileGrant 7 2, decode_oneFileGrant 7 2, ⟨rfl, rfl, rfl, rfl⟩, rfl⟩
  have hindex : ancestorsByRecipient (oneAncestor 7 2) operatorGrants.fileId
      operatorGrants.version ⟨operatorGrants.dekCommit⟩ = .ok served :=
    foldlM_cons_eq_ok.mpr ⟨_, hround, rfl⟩
  have hauthor : operatorGrants.adminId ≠ ⟨.replicate 16 1⟩ := by decide
  have hgranter : (oneFileGrant 2 3).grantedBy ≠ ⟨.replicate 16 1⟩ := by decide
  have hleaf : ResharedFrom served ⟨.replicate 16 1⟩ (fun _ => some (.replicate 32 1))
      (oneFileGrant 7 2) (.replicate 64 0) [⟨.replicate 16 2⟩] (oneFileGrant 2 3)
      (.replicate 64 0) := .reshare hgranter rfl rfl rfl .top
  have hpair : EncPair ⟨.replicate 32 0⟩ operatorGrants.recipientEncPub :=
    ⟨rfl, fun _ _ pt _ ct hseal => ⟨rfl, congrArg (some ·.2) (Option.some.inj hseal).symm⟩⟩
  have hlasts := recoveryGrant_lastsOneVersion hbuild (verifies _) hpair hindex hauthor rfl hleaf
    (by decide) (List.nodup_singleton _) (.replicate 32 0)
  exact ⟨_, hbuild, hlasts.2.2.1 _ rfl, hlasts.2.2.2.1⟩

end Operator

/-! ## The sweep -/

/-- Which recovery wrap is under test. -/
structure RecoveryWrapCtx where
  fileId : Id
  version : UInt64
  deriving DecidableEq

inductive SweepError
  | wrapUndecryptable
  /-- The wrap is of another key than the manifest's. -/
  | wrapMismatch
  deriving DecidableEq

/-- Open one recovery wrap and check the key against its commitment. -/
def validateRecoveryWrap [Hkdf] [Hpke] (recoveryPriv : EncSecretKey) (wrap : List UInt8)
    (dekCommit : Bytes 32) (ctx : RecoveryWrapCtx) : Except SweepError Unit :=
  if hlen : 32 ≤ wrap.length then do
    let wrapped : WrappedDek := ⟨⟨wrap.take 32, List.length_take_of_le hlen⟩, wrap.drop 32⟩
    let wrapCtx : WrapContext := ⟨ctx.fileId, ctx.version, RECOVERY_ID⟩
    let dek ← (unwrapDek recoveryPriv wrapped wrapCtx).mapError fun _ => .wrapUndecryptable
    if dek.commit ≠ dekCommit then
      throw .wrapMismatch
    else
      pure ()
  else
    throw .wrapUndecryptable

/-- The recovery wrap of one version, as it was collected from storage. -/
structure RecoverySample where
  fileId : Id
  version : UInt64
  wrap : List UInt8
  dekCommit : Bytes 32

structure SweepReport where
  checked : ℕ
  bad : List RecoveryWrapCtx

/-- Try every wrap, and list the versions whose wrap fails. -/
def runSweep [Hkdf] [Hpke] (recoveryPriv : EncSecretKey) (samples : List RecoverySample) :
    SweepReport :=
  let bad := samples.foldl (fun bad s =>
    let ctx : RecoveryWrapCtx := ⟨s.fileId, s.version⟩
    if (validateRecoveryWrap recoveryPriv s.wrap s.dekCommit ctx).isOk then bad
    else bad ++ [ctx]) []
  ⟨samples.length, bad⟩

section Sweep

variable [Hkdf] [Hpke] {recoveryPriv : EncSecretKey} {wrapped : WrappedDek}

lemma validateRecoveryWrap_eq_ok {dekCommit : Bytes 32} {ctx : RecoveryWrapCtx} :
    validateRecoveryWrap recoveryPriv (wrapped.enc.toList ++ wrapped.ct) dekCommit ctx = .ok () ↔
      ∃ dek, unwrapDek recoveryPriv wrapped ⟨ctx.fileId, ctx.version, RECOVERY_ID⟩ = .ok dek ∧
        dek.commit = dekCommit := by
  have henc : wrapped.enc.toList.length = 32 := wrapped.enc.toList_length
  have hlen : 32 ≤ (wrapped.enc.toList ++ wrapped.ct).length := by
    rw [List.length_append]
    omega
  have hwrapped : (⟨⟨(wrapped.enc.toList ++ wrapped.ct).take 32, List.length_take_of_le hlen⟩,
      (wrapped.enc.toList ++ wrapped.ct).drop 32⟩ : WrappedDek) = wrapped := by
    obtain ⟨enc, ct⟩ := wrapped
    congr 1
    · exact List.Vector.toList_injective (List.take_left' henc)
    · exact List.drop_left' henc
  unfold validateRecoveryWrap
  rw [dif_pos hlen]
  simp only [hwrapped, bind_eq_ok, mapError_eq_ok, guard_eq_ok, pure_eq_ok, and_true, not_not]

omit [Hkdf] in
lemma length_of_unwrapDek (htag : ∀ sk enc info ct pt,
      Hpke.singleShotOpen sk enc info ct = some pt → ct.length = pt.length + TAG_LEN)
    {ctx : WrapContext} {dek : Dek} (h : unwrapDek recoveryPriv wrapped ctx = .ok dek) :
    wrapped.ct.length = 48 := by
  unfold unwrapDek at h
  obtain ⟨-, h⟩ := guard_eq_ok.mp h
  obtain ⟨-, h⟩ := guard_eq_ok.mp h
  obtain ⟨pt, hopen, h⟩ := bind_eq_ok.mp h
  unfold keyOfLength32 at h
  by_cases hpt : pt.length = 32
  · rw [htag _ _ _ _ _ (elim_eq_ok.mp hopen), hpt, TAG_LEN]
  · rw [dif_neg hpt] at h
    cases h

variable [Sha256] [Ed25519] [Aes256Gcm] [Aes256GcmSeal] [HpkeSeal] [X25519] [X25519Base]
  [MlKem768] [MlKem768Encaps]

/-- The sample is the recovery wrap of an upload of this suite, made to the recovery keys. -/
def RecoverySample.Uploaded (recoveryPriv : EncSecretKey) (seed : Option (Bytes 64))
    (s : RecoverySample) (suite : Suite) : Prop :=
  ∃ rand dek params streams bundle, buildUploadInner rand dek params streams = .ok bundle ∧
    HoldsKeys recoveryPriv seed params.recoveryPub params.recoveryMlkemPub ∧
    bundle.manifest.alg = suite ∧ ∃ w ∈ bundle.wraps, w.recipientType = .recovery ∧
      s = ⟨bundle.fileId, bundle.manifest.version, w.wrappedDek.enc.toList ++ w.wrappedDek.ct,
        bundle.manifest.dekCommit.bytes⟩

variable {seed : Option (Bytes 64)}

/-- The recovery wrap of an upload opens in the sweep exactly if it is a classical one. -/
lemma RecoverySample.Uploaded.validate_iff (haead : AeadOpens) (htag : ∀ sk enc info ct pt,
      Hpke.singleShotOpen sk enc info ct = some pt → ct.length = pt.length + TAG_LEN)
    {s : RecoverySample} {suite : Suite} (h : s.Uploaded recoveryPriv seed suite) :
    validateRecoveryWrap recoveryPriv s.wrap s.dekCommit ⟨s.fileId, s.version⟩ = .ok () ↔
      suite = .v1 := by
  obtain ⟨rand, dek, params, streams, bundle, hbuild, hkeys, rfl, w, hw, htype, rfl⟩ := h
  obtain ⟨-, wraps, hwraps, rfl⟩ := buildUploadInner_eq_ok.mp hbuild
  obtain ⟨own, recovery, rfl, -, hopens⟩ := standingWraps_eq_ok haead hwraps
  have hopens := hopens recoveryPriv seed hkeys
  -- The owner's wrap is to a user.
  obtain rfl | rfl : w = _ ∨ w = _ := by simpa [UploadParams.bundle] using hw
  · cases htype
  show validateRecoveryWrap recoveryPriv (recovery.enc.toList ++ recovery.ct) dek.commit
    ⟨params.fileId, FIRST_VERSION⟩ = .ok () ↔ params.suite = .v1
  rw [validateRecoveryWrap_eq_ok]
  cases hsuite : params.suite with
  | v1 =>
    rw [hsuite] at hopens
    exact iff_of_true ⟨dek, hopens, rfl⟩ rfl
  | v2 =>
    rw [hsuite] at hopens
    obtain ⟨-, hybrid, -, hunpack, -⟩ := hopens
    refine iff_of_false ?_ (by simp)
    rintro ⟨dek', hunwrap, -⟩
    have hct := length_of_unwrapDek htag hunwrap
    have henc : recovery.enc.toList.length = 32 := recovery.enc.toList_length
    unfold unpackHybridWrap deserializeHybridWrap at hunpack
    rw [dif_neg (by simp [hct, HYBRID_WRAP_LEN, X25519_LEN, MLKEM_CT_LEN, AEAD_CT_LEN])] at hunpack
    cases hunpack

/-- **The sweep finds exactly the hybrid uploads.**  Of any collection of uploads to the recovery
keys it reports those of the hybrid suite, in order, as it opens classical wraps only; no other
upload is reported. -/
theorem runSweep_uploads (haead : AeadOpens) (htag : ∀ sk enc info ct pt,
      Hpke.singleShotOpen sk enc info ct = some pt → ct.length = pt.length + TAG_LEN)
    (samples : List (RecoverySample × Suite))
    (huploaded : ∀ s ∈ samples, s.1.Uploaded recoveryPriv seed s.2) :
    runSweep recoveryPriv (samples.map Prod.fst) =
      ⟨samples.length, (samples.filter (·.2 = .v2)).map fun s => ⟨s.1.fileId, s.1.version⟩⟩ := by
  have hbad : ∀ bad : List RecoveryWrapCtx, (samples.map Prod.fst).foldl (fun bad s =>
      if (validateRecoveryWrap recoveryPriv s.wrap s.dekCommit ⟨s.fileId, s.version⟩).isOk then bad
      else bad ++ [⟨s.fileId, s.version⟩]) bad =
        bad ++ (samples.filter (·.2 = .v2)).map fun s => ⟨s.1.fileId, s.1.version⟩ := by
    induction samples with
    | nil => simp
    | cons s samples ih =>
      intro bad
      have hvalid := (huploaded s (List.mem_cons_self ..)).validate_iff haead htag
      rw [List.map_cons, List.foldl_cons,
        ih fun s' hs' => huploaded s' (List.mem_cons_of_mem _ hs')]
      cases hsuite : s.2 with
      | v1 =>
        rw [if_pos (isOk_iff.mpr (hvalid.mpr hsuite)), List.filter_cons_of_neg (by simp [hsuite])]
      | v2 =>
        have hreported : ¬ (validateRecoveryWrap recoveryPriv s.1.wrap s.1.dekCommit
            ⟨s.1.fileId, s.1.version⟩).isOk = true := by
          rw [isOk_iff, hvalid, hsuite]
          simp
        rw [if_neg hreported, List.filter_cons_of_pos (by simp [hsuite]), List.map_cons,
          List.append_assoc]
        rfl
  unfold runSweep
  rw [hbad, List.nil_append, List.length_map]

end Sweep

section TwoUploads

/-- Wraps with a tag, as long as the one of the AEAD. -/
abbrev tagAppendingHpkeSeal : HpkeSeal where
  validPublicKey _ := true
  singleShotSeal _ _ _ pt := some (.replicate 32 0, pt ++ List.replicate 16 0)

/-- Opening such a wrap takes the tag off. -/
abbrev untaggingHpke : Hpke where
  validPrivateKey _ := true
  validEncappedKey _ := true
  singleShotOpen _ _ _ ct := if 16 ≤ ct.length then some (ct.take (ct.length - 16)) else none

open ClosedRuns

attribute [local instance] tagAppendingHpkeSeal untaggingHpke

/-- An upload of which both the owner and the recovery recipient have an ML-KEM key. -/
def hybridUpload : UploadParams :=
  { diskUpload with
    owner := { diskUpload.owner with mlkem := some ⟨.replicate 64 0, .replicate 1184 0⟩ }
    fileId := ⟨.replicate 16 6⟩
    recoveryMlkemPub := some (.replicate 1184 0) }

lemma holdsKeys_tagged (mlkemPub : Option (Bytes MLKEM768_PUB_LEN)) :
    HoldsKeys ⟨.replicate 32 2⟩ (some (.replicate 64 0)) ⟨.replicate 32 2⟩ mlkemPub where
  classical := by
    refine ⟨rfl, fun rand info pt enc ct hseal => ⟨rfl, ?_⟩⟩
    obtain ⟨rfl, rfl⟩ := Prod.mk.inj (Option.some.inj hseal)
    simp [Hpke.singleShotOpen]
  hybrid pk hpk :=
    ⟨_, rfl, fun _ => rfl, fun _ => List.length_replicate, fun _ => rfl⟩

lemma exists_uploaded (params : UploadParams) {suite : Suite}
    (hpub : params.recoveryPub = ⟨.replicate 32 2⟩) (hsuite : params.suite = suite)
    (hok : (buildUploadInner diskEntropy diskDek params ⟨[1], none, none, none⟩).isOk = true) :
    ∃ s : RecoverySample, s.fileId = params.fileId ∧ s.version = FIRST_VERSION ∧
      s.Uploaded ⟨.replicate 32 2⟩ (some (.replicate 64 0)) suite := by
  cases hbuild : buildUploadInner diskEntropy diskDek params ⟨[1], none, none, none⟩ with
  | error e =>
    rw [hbuild] at hok
    cases hok
  | ok bundle =>
    obtain ⟨-, wraps, hwraps, rfl⟩ := buildUploadInner_eq_ok.mp hbuild
    obtain ⟨own, recovery, rfl, -, -⟩ := standingWraps_eq_ok aeadOpens hwraps
    exact ⟨_, rfl, rfl, _, _, _, _, _, hbuild, hpub ▸ holdsKeys_tagged _, hsuite, _,
      List.mem_cons_of_mem _ (List.mem_singleton_self _), rfl, rfl⟩

/-- Of one upload of each suite the hybrid one is reported. -/
theorem runSweep_uploads_bothSuites :
    ∃ classical hybrid, runSweep ⟨.replicate 32 2⟩ [classical, hybrid] =
      ⟨2, [⟨hybridUpload.fileId, FIRST_VERSION⟩]⟩ := by
  obtain ⟨classical, -, -, hclassical⟩ := exists_uploaded diskUpload rfl rfl (by decide +kernel)
  obtain ⟨hybrid, hfile, hversion, hhybrid⟩ :=
    exists_uploaded hybridUpload rfl rfl (by decide +kernel)
  have htag : ∀ (sk enc : Bytes 32) (info ct pt : List UInt8),
      Hpke.singleShotOpen sk enc info ct = some pt → ct.length = pt.length + TAG_LEN := by
    intro sk enc info ct pt hopen
    by_cases hlen : 16 ≤ ct.length
    · obtain rfl := Option.some.inj ((if_pos hlen).symm.trans hopen)
      rw [List.length_take, TAG_LEN]
      omega
    · cases (if_neg hlen).symm.trans hopen
  have huploaded : ∀ s ∈ [(classical, Suite.v1), (hybrid, .v2)],
      s.1.Uploaded ⟨.replicate 32 2⟩ (some (.replicate 64 0)) s.2 := by
    simpa using ⟨hclassical, hhybrid⟩
  rw [← hfile, ← hversion]
  exact ⟨classical, hybrid, runSweep_uploads aeadOpens htag _ huploaded⟩

end TwoUploads

end MaxSecu
