import MaxSecu.Client.Tombstones

/-!
# Who authorised a record

A record of the control log is accepted when its issuer was an admin as of the records before it,
and, for the kinds under dual control, when a second admin was too.  `Authorized` says this without
the order of the checks, and `verifyAuthenticated_iff` shows that a served list is accepted exactly
when it is a chain to the anchor whose every record is authorised at its prefix.

Dual control goes by the scope of a record, while `effectiveRoles` drops a role for a narrowing of
any scope.  `droppedRoles_byTwoAdmins_iff` says when a dropped role nevertheless had two admins
behind it.
-/

namespace MaxSecu

open ExceptRules

section Authority

variable [Ed25519]

/-- The id resolves to a key that verifies the signature and to an admin ceiling, and no revocation
in force among the records before narrows that role. -/
def AdminVerified (issuer : Id → Option IssuerInfo) (before : List Decoded) (d : Decoded) (id : Id)
    (sig : Bytes 64) : Prop :=
  ∃ info, issuer id = some info ∧ d.verifySig info.sigPub sig = true ∧ Role.admin ∈ info.roles ∧
    ∀ r, InForce before r → r.revokedUserId = id → r.revokedCapability ≠ some .admin

/-- The issuer is a verified admin, and so is a co-signer of a different id. -/
def TwoAdmins (issuer : Id → Option IssuerInfo) (before : List Decoded) (d : Decoded)
    (rec : ControlRecordIn) : Prop :=
  AdminVerified issuer before d d.issuedBy rec.sig ∧
    ∃ coId coSig, d.coSignedBy = some coId ∧ rec.coSig = some coSig ∧ coId ≠ d.issuedBy ∧
      AdminVerified issuer before d coId coSig

/-- The kinds that need a second admin: account-wide revocations, reinstatements and
key-compromises. -/
def DualControlled (d : Decoded) : Prop :=
  (∃ r, d = .revocation r ∧ r.scope = .accountWide) ∨ (∃ r, d = .reinstatement r) ∨
    ∃ r, d = .keyCompromise r

/-- One admin, and two under dual control. -/
def Authorized (issuer : Id → Option IssuerInfo) (before : List Decoded) (d : Decoded)
    (rec : ControlRecordIn) : Prop :=
  AdminVerified issuer before d d.issuedBy rec.sig ∧
    (DualControlled d → TwoAdmins issuer before d rec)

omit [Ed25519] in
lemma requiresDualControl_iff {d : Decoded} :
    d.requiresDualControl = true ↔ DualControlled d := by
  unfold Decoded.requiresDualControl DualControlled
  cases d with
  | revocation r => simp
  | reinstatement r => simp
  | keyCompromise r => simp

omit [Ed25519] in
lemma prefixIsAdmin_iff {before : List Decoded} {id : Id} {ceiling : List Role} :
    prefixIsAdmin before id ceiling = true ↔
      Role.admin ∈ ceiling ∧
        ∀ r, InForce before r → r.revokedUserId = id → r.revokedCapability ≠ some .admin := by
  unfold prefixIsAdmin
  rw [List.contains_iff_mem]
  by_cases hadmin : Role.admin ∈ ceiling
  · have hdropped : Role.admin ∉ effectiveRolesIn before id ceiling ↔ _ :=
      not_mem_effectiveRolesIn_iff hadmin
    constructor
    · intro hmem
      refine ⟨hadmin, fun r hr huser hcap => ?_⟩
      exact hdropped.mpr ⟨r, hr, huser, hcap⟩ hmem
    · rintro ⟨-, hnone⟩
      by_contra hmem
      obtain ⟨r, hr, huser, hcap⟩ := hdropped.mp hmem
      exact hnone r hr huser hcap
  · constructor
    · intro hmem
      exact absurd (List.mem_filter.mp hmem).1 hadmin
    · rintro ⟨hmem, -⟩
      exact absurd hmem hadmin

lemma authenticateAuthority_eq_ok {d : Decoded} {rec : ControlRecordIn} {before : List Decoded}
    {issuer : Id → Option IssuerInfo} :
    authenticateAuthority d rec before issuer = .ok () ↔ Authorized issuer before d rec := by
  have hissuer : (∃ info, issuer d.issuedBy = some info ∧ d.verifySig info.sigPub rec.sig = true ∧
      prefixIsAdmin before d.issuedBy info.roles = true) ↔
        AdminVerified issuer before d d.issuedBy rec.sig := by
    simp only [prefixIsAdmin_iff, AdminVerified]
  unfold authenticateAuthority Authorized
  by_cases hdual : d.requiresDualControl = true
  · have htwo : (∃ coId, d.coSignedBy = some coId ∧ ∃ coSig, rec.coSig = some coSig ∧
        coId ≠ d.issuedBy ∧ ∃ info, issuer coId = some info ∧
          d.verifySig info.sigPub coSig = true ∧ prefixIsAdmin before coId info.roles = true) ↔
        ∃ coId coSig, d.coSignedBy = some coId ∧ rec.coSig = some coSig ∧ coId ≠ d.issuedBy ∧
          AdminVerified issuer before d coId coSig := by
      simp only [prefixIsAdmin_iff, AdminVerified, exists_and_left]
    simp only [bind_eq_ok, guard_eq_ok, elim_eq_ok, pure_eq_ok, not_not, hdual, if_true, htwo,
      requiresDualControl_iff.mp hdual, true_implies, TwoAdmins, and_true]
    constructor
    · rintro ⟨info, hinfo, hsig, hadmin, hco⟩
      have hverified := hissuer.mp ⟨info, hinfo, hsig, hadmin⟩
      exact ⟨hverified, hverified, hco⟩
    · rintro ⟨hverified, -, hco⟩
      obtain ⟨info, hinfo, hsig, hadmin⟩ := hissuer.mpr hverified
      exact ⟨info, hinfo, hsig, hadmin, hco⟩
  · simp only [bind_eq_ok, guard_eq_ok, elim_eq_ok, pure_eq_ok, not_not, hdual,
      Bool.false_eq_true, if_false, and_true]
    rw [hissuer]
    constructor
    · intro hverified
      exact ⟨hverified, fun hcontrolled => absurd (requiresDualControl_iff.mpr hcontrolled) hdual⟩
    · exact fun hauth => hauth.1

variable [Sha256]

/-- **Authority is judged at the prefix.**  A served list is accepted exactly when its records
decode, link from the genesis head to the anchor, and are each authorised by the records before
them. -/
theorem verifyAuthenticated_iff (records : List ControlRecordIn) (h : Bytes 32)
    (issuer : Id → Option IssuerInfo) (set : TombstoneSet) :
    TombstoneSet.verifyAuthenticated records h issuer = .ok set ↔
      DecodesTo (records.map ControlRecordIn.bytes) set.records ∧
        ChainLinked (records.map ControlRecordIn.bytes) ∧
        (∀ i rec d, records[i]? = some rec → set.records[i]? = some d →
          Authorized issuer (set.records.take i) d rec) ∧
        chainHead (records.map ControlRecordIn.bytes) = h := by
  rw [TombstoneSet.verifyAuthenticated_eq_ok]
  simp only [AllAuthenticated, authenticateAuthority_eq_ok]

/-! ## Two admins behind a dropped role -/

/-- Some revocation in force drops the user's role and was issued by one verified admin and
co-signed by another. -/
def NarrowedByTwoAdmins (issuer : Id → Option IssuerInfo) (records : List ControlRecordIn)
    (ds : List Decoded) (userId : Id) (role : Role) : Prop :=
  ∃ i rec r, records[i]? = some rec ∧ ds[i]? = some (.revocation r) ∧ InForce ds r ∧
    r.revokedUserId = userId ∧ r.revokedCapability = some role ∧
      TwoAdmins issuer (ds.take i) (.revocation r) rec

/-- Every role that is dropped from a ceiling has two admins behind it. -/
def DroppedByTwoAdmins (issuer : Id → Option IssuerInfo) (records : List ControlRecordIn)
    (set : TombstoneSet) : Prop :=
  ∀ userId ceiling role, role ∈ ceiling → role ∉ set.effectiveRoles userId ceiling →
    NarrowedByTwoAdmins issuer records set.records userId role

/-- Whatever role a file-scoped revocation narrows is also narrowed account-wide, or by a
revocation that two admins did sign. -/
def FileNarrowingsBacked (issuer : Id → Option IssuerInfo) (records : List ControlRecordIn)
    (ds : List Decoded) : Prop :=
  ∀ r fileId role, InForce ds r → r.scope = .specific fileId → r.revokedCapability = some role →
    (∃ r', InForce ds r' ∧ r'.scope = .accountWide ∧ r'.revokedUserId = r.revokedUserId ∧
      r'.revokedCapability = some role) ∨
    NarrowedByTwoAdmins issuer records ds r.revokedUserId role

lemma narrowedByTwoAdmins_of_accountWide {records : List ControlRecordIn} {h : Bytes 32}
    {issuer : Id → Option IssuerInfo} {set : TombstoneSet}
    (haccepted : TombstoneSet.verifyAuthenticated records h issuer = .ok set) {r : Revocation}
    {role : Role} (hr : InForce set.records r) (hscope : r.scope = .accountWide)
    (hcap : r.revokedCapability = some role) :
    NarrowedByTwoAdmins issuer records set.records r.revokedUserId role := by
  obtain ⟨hdecode, -, hauthorized, -⟩ := (verifyAuthenticated_iff _ _ _ _).mp haccepted
  obtain ⟨i, hi⟩ := List.mem_iff_getElem?.mp hr.1
  obtain ⟨rec, hrec, -⟩ := (servedAt_iff hdecode).mpr hi
  have htwo := (hauthorized i rec _ hrec hi).2 (.inl ⟨r, rfl, hscope⟩)
  exact ⟨i, rec, r, hrec, hi, hr, rfl, hcap, htwo⟩

/-- **When no single admin strips a role.**  In an accepted chain every dropped role has two admins
behind it exactly when no role hangs on a file-scoped narrowing that only one admin signed. -/
theorem droppedRoles_byTwoAdmins_iff {records : List ControlRecordIn} {h : Bytes 32}
    {issuer : Id → Option IssuerInfo} {set : TombstoneSet}
    (haccepted : TombstoneSet.verifyAuthenticated records h issuer = .ok set) :
    DroppedByTwoAdmins issuer records set ↔ FileNarrowingsBacked issuer records set.records := by
  constructor
  · intro hdropped r fileId role hr _ hcap
    have hmem : role ∈ [role] := List.mem_singleton_self role
    have hnot : role ∉ set.effectiveRoles r.revokedUserId [role] :=
      (not_mem_effectiveRolesIn_iff hmem).mpr ⟨r, hr, rfl, hcap⟩
    exact .inr (hdropped r.revokedUserId [role] role hmem hnot)
  · intro hbacked userId ceiling role hrole hdropped
    obtain ⟨r, hr, rfl, hcap⟩ := (not_mem_effectiveRolesIn_iff hrole).mp hdropped
    cases hscope : r.scope with
    | accountWide => exact narrowedByTwoAdmins_of_accountWide haccepted hr hscope hcap
    | specific fileId =>
      rcases hbacked r fileId role hr hscope hcap with ⟨r', hr', hscope', huser, hcap'⟩ | htwo
      · rw [← huser]
        exact narrowedByTwoAdmins_of_accountWide haccepted hr' hscope' hcap'
      · exact htwo

end Authority

/-- An admin and a co-signer take the admin role from a third. -/
def dualNarrowing [Sha256] : List Decoded :=
  chainFrom GENESIS_HEAD.bytes [fun prevHead => .revocation ⟨.accountWide, ⟨.replicate 16 7⟩,
    some .admin, 0, 1, prevHead, ⟨.replicate 16 1⟩, some ⟨.replicate 16 2⟩, ⟨0⟩⟩]

theorem droppedRoles_byTwoAdmins_iff_dualNarrowing :
    letI := tailSha256
    letI := acceptingEd25519
    DroppedByTwoAdmins everyoneAdmin (serve dualNarrowing) ⟨dualNarrowing⟩ := by
  let _ := tailSha256
  let _ := acceptingEd25519
  have haccepted : TombstoneSet.verifyAuthenticated (serve dualNarrowing)
      (chainHead ((serve dualNarrowing).map ControlRecordIn.bytes)) everyoneAdmin =
        .ok ⟨dualNarrowing⟩ := by
    decide +kernel
  refine (droppedRoles_byTwoAdmins_iff haccepted).mpr fun r fileId role hr hscope _ => ?_
  have hmem : Decoded.revocation r ∈ dualNarrowing := hr.1
  unfold dualNarrowing chainFrom at hmem
  cases List.mem_singleton.mp hmem
  cases hscope

/-- One admin takes the admin role from another, in a record about a single file. -/
def loneNarrowing [Sha256] : List Decoded :=
  chainFrom GENESIS_HEAD.bytes [fun prevHead => .revocation ⟨.specific ⟨.replicate 16 9⟩,
    ⟨.replicate 16 7⟩, some .admin, 0, 1, prevHead, ⟨.replicate 16 1⟩, none, ⟨0⟩⟩]

/-- The chain is accepted without a co-signature, and the other admin is no longer one. -/
theorem droppedRoles_byOneAdmin :
    letI := tailSha256
    letI := acceptingEd25519
    ¬ ∀ records h issuer set, TombstoneSet.verifyAuthenticated records h issuer = .ok set →
      DroppedByTwoAdmins issuer records set := by
  let _ := tailSha256
  let _ := acceptingEd25519
  intro hclaim
  have haccepted : TombstoneSet.verifyAuthenticated
      (loneNarrowing.map fun d => ⟨d.encode, .replicate 64 0, none⟩)
      (chainHead (loneNarrowing.map Decoded.encode)) everyoneAdmin = .ok ⟨loneNarrowing⟩ := by
    decide +kernel
  have hdropped : Role.admin ∉
      TombstoneSet.effectiveRoles ⟨loneNarrowing⟩ ⟨.replicate 16 7⟩ [.user, .admin] := by
    decide +kernel
  obtain ⟨i, rec, r, hrec, -, -, -, -, -, coId, coSig, -, hcoSig, -⟩ :=
    hclaim _ _ _ _ haccepted _ _ _ (by decide) hdropped
  rw [List.getElem?_map, Option.map_eq_some_iff] at hrec
  obtain ⟨d, -, rfl⟩ := hrec
  cases hcoSig

end MaxSecu
