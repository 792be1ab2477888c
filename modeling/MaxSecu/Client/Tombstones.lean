import MaxSecu.Framework.Supersession
import MaxSecu.Client.Revocation

/-!
# Which revocations are in force

A reinstatement names the one revocation it takes back by scope, user and epoch.  The three
evaluations of a `TombstoneSet` count the revocations that no reinstatement of the set names,
wherever it stands in the chain.  So a revocation issued again under an epoch that was already
reinstated is born dead, and this is the only way to lose one (`laterRevocation_inForce_iff`).
-/

namespace MaxSecu

/-- What a reinstatement names a revocation by. -/
structure RevocationName where
  scope : FileScope
  userId : Id
  epoch : UInt64
  deriving DecidableEq

def Revocation.name (r : Revocation) : RevocationName :=
  ⟨r.scope, r.revokedUserId, r.revocationEpoch⟩

/-- The revocation a reinstatement takes back. -/
def Reinstatement.supersedes (r : Reinstatement) : RevocationName :=
  ⟨r.scope, r.reinstatedUserId, r.supersedesEpoch⟩

/-- Revocations raise their name and reinstatements clear one. -/
def tombstoneMarking : Marking Decoded RevocationName where
  raises d :=
    match d with
    | .revocation r => some r.name
    | _ => none
  clears d :=
    match d with
    | .reinstatement r => some r.supersedes
    | _ => none
  disjoint d k l hraises := by
    cases d with
    | revocation r => simp
    | reinstatement r => simp at hraises
    | keyCompromise r => simp

section Marks

variable {records : List Decoded}

lemma raisedAt_iff {j : ℕ} {k : RevocationName} :
    tombstoneMarking.RaisedAt records j k ↔
      ∃ r, records[j]? = some (.revocation r) ∧ r.name = k := by
  constructor
  · rintro ⟨d, hd, hraises⟩
    cases d with
    | revocation r => exact ⟨r, hd, Option.some.inj hraises⟩
    | reinstatement r => cases hraises
    | keyCompromise r => cases hraises
  · rintro ⟨r, hr, rfl⟩
    exact ⟨_, hr, rfl⟩

lemma clearedAt_iff {i : ℕ} {k : RevocationName} :
    tombstoneMarking.ClearedAt records i k ↔
      ∃ r, records[i]? = some (.reinstatement r) ∧ r.supersedes = k := by
  constructor
  · rintro ⟨d, hd, hclears⟩
    cases d with
    | revocation r => cases hclears
    | reinstatement r => exact ⟨r, hd, Option.some.inj hclears⟩
    | keyCompromise r => cases hclears
  · rintro ⟨r, hr, rfl⟩
    exact ⟨_, hr, rfl⟩

lemma isSupersededIn_eq_false_iff {rev : Revocation} :
    isSupersededIn records rev = false ↔ tombstoneMarking.Stands records rev.name := by
  unfold isSupersededIn Marking.Stands
  rw [List.any_eq_false]
  apply forall₂_congr
  intro d _
  cases d with
  | revocation r => simp [tombstoneMarking]
  | reinstatement r =>
    simp only [tombstoneMarking, Reinstatement.supersedes, Revocation.name, ne_eq,
      Option.some.injEq, RevocationName.mk.injEq, decide_eq_true_eq]
  | keyCompromise r => simp [tombstoneMarking]

end Marks

/-- The revocation is among the records and no reinstatement among them names it. -/
def InForce (records : List Decoded) (r : Revocation) : Prop :=
  .revocation r ∈ records ∧ isSupersededIn records r = false

lemma mem_revocationsIn {records : List Decoded} {r : Revocation} :
    r ∈ revocationsIn records ↔ .revocation r ∈ records := by
  unfold revocationsIn
  rw [List.mem_filterMap]
  constructor
  · rintro ⟨d, hd, hr⟩
    cases d with
    | revocation s =>
      obtain rfl : s = r := Option.some.inj hr
      exact hd
    | reinstatement s => cases hr
    | keyCompromise s => cases hr
  · intro hr
    exact ⟨_, hr, rfl⟩

/-! ## The three evaluations count the revocations in force -/

namespace TombstoneSet

variable {set : TombstoneSet} {userId fileId : Id} {version : UInt64}

lemma isAccountRevoked_iff :
    set.isAccountRevoked userId = true ↔
      ∃ r, InForce set.records r ∧ r.scope = .accountWide ∧ r.revokedUserId = userId ∧
        r.revokedCapability = none := by
  unfold isAccountRevoked InForce
  simp only [List.any_eq_true, mem_revocationsIn, decide_eq_true_eq, Bool.not_eq_true]
  constructor
  · rintro ⟨r, hr, hscope, huser, hcap, hforce⟩
    exact ⟨r, ⟨hr, hforce⟩, hscope, huser, hcap⟩
  · rintro ⟨r, ⟨hr, hforce⟩, hscope, huser, hcap⟩
    exact ⟨r, hr, hscope, huser, hcap, hforce⟩

lemma isRevoked_iff :
    set.isRevoked userId fileId version = true ↔
      ∃ r, InForce set.records r ∧ r.revokedUserId = userId ∧ r.revokedCapability = none ∧
        r.fromVersion ≤ version ∧ scopeMatchesFile r.scope fileId := by
  unfold isRevoked InForce
  simp only [List.any_eq_true, mem_revocationsIn, decide_eq_true_eq, Bool.not_eq_true]
  constructor
  · rintro ⟨r, hr, huser, hcap, hversion, hscope, hforce⟩
    exact ⟨r, ⟨hr, hforce⟩, huser, hcap, hversion, hscope⟩
  · rintro ⟨r, ⟨hr, hforce⟩, huser, hcap, hversion, hscope⟩
    exact ⟨r, hr, huser, hcap, hversion, hscope, hforce⟩

end TombstoneSet

lemma not_mem_effectiveRolesIn_iff {records : List Decoded} {userId : Id} {ceiling : List Role}
    {role : Role} (hrole : role ∈ ceiling) :
    role ∉ effectiveRolesIn records userId ceiling ↔
      ∃ r, InForce records r ∧ r.revokedUserId = userId ∧ r.revokedCapability = some role := by
  unfold effectiveRolesIn InForce
  rw [List.mem_filter, not_and]
  simp only [hrole, true_implies, Bool.not_eq_true', Bool.not_eq_false, List.any_eq_true,
    mem_revocationsIn, decide_eq_true_eq, Bool.not_eq_true]
  constructor
  · rintro ⟨r, hr, huser, hcap, hforce⟩
    exact ⟨r, ⟨hr, hforce⟩, huser, hcap⟩
  · rintro ⟨r, ⟨hr, hforce⟩, huser, hcap⟩
    exact ⟨r, hr, huser, hcap, hforce⟩

/-- What a revocation is for: an access revocation bars its user, a narrowing drops the role. -/
def TakesEffect (set : TombstoneSet) (r : Revocation) : Prop :=
  (r.revokedCapability = none → r.scope = .accountWide →
      set.isAccountRevoked r.revokedUserId = true) ∧
    (r.revokedCapability = none → ∀ fileId version, scopeMatchesFile r.scope fileId →
      r.fromVersion ≤ version → set.isRevoked r.revokedUserId fileId version = true) ∧
    ∀ role, r.revokedCapability = some role → ∀ ceiling,
      role ∉ set.effectiveRoles r.revokedUserId ceiling

lemma InForce.takesEffect {set : TombstoneSet} {r : Revocation} (hr : InForce set.records r) :
    TakesEffect set r := by
  refine ⟨fun hcap hscope => ?_, fun hcap fileId version hscope hversion => ?_,
    fun role hcap ceiling => ?_⟩
  · exact TombstoneSet.isAccountRevoked_iff.mpr ⟨r, hr, hscope, rfl, hcap⟩
  · exact TombstoneSet.isRevoked_iff.mpr ⟨r, hr, rfl, hcap, hversion, hscope⟩
  · by_cases hrole : role ∈ ceiling
    · exact (not_mem_effectiveRolesIn_iff hrole).mpr ⟨r, hr, rfl, hcap⟩
    · exact fun hmem => hrole (List.mem_filter.mp hmem).1

/-! ## Positions in the served chain -/

/-- The `j`-th served record decodes to `d`. -/
def ServedAt (records : List ControlRecordIn) (j : ℕ) (d : Decoded) : Prop :=
  ∃ rec, records[j]? = some rec ∧ Decoded.fromBytes rec.bytes = .ok d

/-- A reinstatement after position `j` names the revocation. -/
def ReinstatedAfter (records : List ControlRecordIn) (j : ℕ) (r : Revocation) : Prop :=
  ∃ i s, j < i ∧ ServedAt records i (.reinstatement s) ∧ s.supersedes = r.name

/-- A reinstatement before position `j` names the revocation. -/
def ReinstatedBefore (records : List ControlRecordIn) (j : ℕ) (r : Revocation) : Prop :=
  ∃ i s, i < j ∧ ServedAt records i (.reinstatement s) ∧ s.supersedes = r.name

section Served

variable {records : List ControlRecordIn} {ds : List Decoded}

lemma servedAt_iff (hdecode : DecodesTo (records.map ControlRecordIn.bytes) ds) {j : ℕ}
    {d : Decoded} : ServedAt records j d ↔ ds[j]? = some d := by
  unfold ServedAt
  rw [DecodesTo, List.forall₂_map_left_iff] at hdecode
  induction hdecode generalizing j with
  | nil => simp
  | cons hd _ ih =>
    cases j with
    | zero => simp [hd]
    | succ j => simpa using ih

lemma reinstatedAfter_iff (hdecode : DecodesTo (records.map ControlRecordIn.bytes) ds) {j : ℕ}
    {r : Revocation} :
    ReinstatedAfter records j r ↔ tombstoneMarking.ClearedAfter ds j r.name := by
  unfold ReinstatedAfter Marking.ClearedAfter
  simp only [clearedAt_iff, servedAt_iff hdecode, exists_and_left]

lemma reinstatedBefore_iff (hdecode : DecodesTo (records.map ControlRecordIn.bytes) ds) {j : ℕ}
    {r : Revocation} :
    ReinstatedBefore records j r ↔ tombstoneMarking.ClearedBefore ds j r.name := by
  unfold ReinstatedBefore Marking.ClearedBefore
  simp only [clearedAt_iff, servedAt_iff hdecode, exists_and_left]

end Served

/-- No revocation that stays is named by a reinstatement before it. -/
def NoStaleReinstatement (records : List ControlRecordIn) : Prop :=
  ∀ j r, ServedAt records j (.revocation r) → ¬ ReinstatedAfter records j r →
    ¬ ReinstatedBefore records j r

/-- Every revocation that no later reinstatement names is in force. -/
def UnreinstatedInForce (records : List ControlRecordIn) (set : TombstoneSet) : Prop :=
  ∀ j r, ServedAt records j (.revocation r) → ¬ ReinstatedAfter records j r → InForce set.records r

section Accepted

variable [Sha256] [Ed25519]

/-- **When a stale reinstatement clears nothing.**  In an accepted chain every revocation that no
later reinstatement names is in force, and so takes effect, exactly when no such revocation is named
by a reinstatement before it. -/
theorem laterRevocation_inForce_iff {records : List ControlRecordIn} {h : Bytes 32}
    {issuer : Id → Option IssuerInfo} {set : TombstoneSet}
    (haccepted : TombstoneSet.verifyAuthenticated records h issuer = .ok set) :
    (UnreinstatedInForce records set ↔ NoStaleReinstatement records) ∧
      ∀ r, InForce set.records r → TakesEffect set r := by
  obtain ⟨hdecode, -⟩ := TombstoneSet.verifyAuthenticated_eq_ok.mp haccepted
  refine ⟨?_, fun r hr => hr.takesEffect⟩
  have hsearch := @Marking.stands_of_not_clearedAfter_iff _ _ tombstoneMarking set.records
  simp only [raisedAt_iff] at hsearch
  constructor
  · intro hforce j r hserved hafter
    rw [reinstatedAfter_iff hdecode] at hafter
    rw [reinstatedBefore_iff hdecode]
    rw [servedAt_iff hdecode] at hserved
    refine hsearch.mp ?_ j r.name ⟨r, hserved, rfl⟩ hafter
    rintro j' _ ⟨r', hr', rfl⟩ hafter'
    rw [← reinstatedAfter_iff hdecode] at hafter'
    rw [← isSupersededIn_eq_false_iff]
    exact (hforce j' r' ((servedAt_iff hdecode).mpr hr') hafter').2
  · intro hbefore j r hserved hafter
    have hr := (servedAt_iff hdecode).mp hserved
    refine ⟨List.mem_of_getElem? hr, isSupersededIn_eq_false_iff.mpr ?_⟩
    refine hsearch.mpr ?_ j r.name ⟨r, hr, rfl⟩ ((reinstatedAfter_iff hdecode).not.mp hafter)
    rintro j' _ ⟨r', hr', rfl⟩ hafter'
    have hserved' := (servedAt_iff hdecode).mpr hr'
    exact (reinstatedBefore_iff hdecode).not.mp
      (hbefore j' r' hserved' ((reinstatedAfter_iff hdecode).not.mpr hafter'))

end Accepted

/-! ## A chain that revokes under a reinstated epoch -/

/-- The records of a chain, each made from the head it links to. -/
def chainFrom [Sha256] : Bytes 32 → List (Hash → Decoded) → List Decoded
  | _, [] => []
  | g, make :: makes => make ⟨g⟩ :: chainFrom (sha256 (make ⟨g⟩).encode) makes

/-- A chain with a signature and a co-signature on every record. -/
def serve (ds : List Decoded) : List ControlRecordIn :=
  ds.map fun d => ⟨d.encode, .replicate 64 0, some (.replicate 64 0)⟩

/-- A directory in which everyone is an admin. -/
def everyoneAdmin : Id → Option IssuerInfo :=
  fun _ => some ⟨.replicate 32 0, [.user, .admin], 1⟩

/-- A user is revoked, reinstated, and revoked again under the epoch of the first revocation. -/
def reissuedEpoch [Sha256] : List Decoded :=
  let user : Id := ⟨.replicate 16 7⟩
  let revoke prevHead : Decoded := .revocation ⟨.accountWide, user, none, 0, 1, prevHead,
    ⟨.replicate 16 1⟩, some ⟨.replicate 16 2⟩, ⟨0⟩⟩
  let reinstate prevHead : Decoded := .reinstatement ⟨.accountWide, user, 1, 1, prevHead,
    ⟨.replicate 16 1⟩, ⟨.replicate 16 2⟩, ⟨0⟩⟩
  chainFrom GENESIS_HEAD.bytes [revoke, reinstate, revoke]

lemma reissuedEpoch_accepted :
    letI := tailSha256
    letI := acceptingEd25519
    TombstoneSet.verifyAuthenticated (serve reissuedEpoch)
      (chainHead ((serve reissuedEpoch).map ControlRecordIn.bytes)) everyoneAdmin =
        .ok ⟨reissuedEpoch⟩ := by
  decide +kernel

theorem laterRevocation_inForce_iff_reissuedEpoch :
    letI := tailSha256
    (UnreinstatedInForce (serve reissuedEpoch) ⟨reissuedEpoch⟩ ↔
        NoStaleReinstatement (serve reissuedEpoch)) ∧
      ∀ r, InForce reissuedEpoch r → TakesEffect ⟨reissuedEpoch⟩ r :=
  letI := tailSha256
  letI := acceptingEd25519
  laterRevocation_inForce_iff reissuedEpoch_accepted

/-- The second revocation of the user is the last record, and the user counts as not revoked. -/
theorem laterRevocation_not_inForce :
    letI := tailSha256
    letI := acceptingEd25519
    ¬ ∀ records h issuer set, TombstoneSet.verifyAuthenticated records h issuer = .ok set →
      ∀ j r, ServedAt records j (.revocation r) → ¬ ReinstatedAfter records j r →
        TakesEffect set r := by
  let _ := tailSha256
  let _ := acceptingEd25519
  intro hclaim
  have hdecode := (TombstoneSet.verifyAuthenticated_eq_ok.mp reissuedEpoch_accepted).1
  obtain ⟨r, hr, huser, hscope, hcap⟩ : ∃ r : Revocation,
      reissuedEpoch[2]? = some (.revocation r) ∧ r.revokedUserId = ⟨.replicate 16 7⟩ ∧
        r.scope = .accountWide ∧ r.revokedCapability = none :=
    ⟨_, rfl, rfl, rfl, rfl⟩
  have hlast : ¬ ReinstatedAfter (serve reissuedEpoch) 2 r := by
    rintro ⟨i, s, hi, hserved, -⟩
    rw [servedAt_iff hdecode] at hserved
    have hbound : i < 3 := (List.getElem?_eq_some_iff.mp hserved).1
    omega
  have heffect := hclaim _ _ _ _ reissuedEpoch_accepted 2 r ((servedAt_iff hdecode).mpr hr) hlast
  have hrevoked := heffect.1 hcap hscope
  rw [huser] at hrevoked
  have hnot : TombstoneSet.isAccountRevoked ⟨reissuedEpoch⟩ ⟨.replicate 16 7⟩ = false := by
    decide +kernel
  rw [hnot] at hrevoked
  cases hrevoked

end MaxSecu
