import MaxSecu.Framework.Machine
import MaxSecu.Client.Tombstones
import MaxSecu.Admin.Control

/-!
# Issuing over many ceremonies, and what clients make of it

A run is a list of ceremonies.  The first starts a new chain and each later one resumes at the head
the one before it reached, with empty counters.  The issued records always form one chain that a
client accepts; within a ceremony the epochs of a scope are all different, and the first is one.
So two ceremonies that revoke in one scope both issue epoch one there, and this is the only way to
repeat an epoch (`freshEpochs_iff`).
-/

namespace MaxSecu

def issued (out : List SignedControlRecord) : List Decoded :=
  out.map fun signed => signed.record.toDecoded

/-- No two revocations of one scope carry the same epoch. -/
def FreshEpochs (ds : List Decoded) : Prop :=
  (revocationsIn ds).Pairwise fun r s => r.scope = s.scope → r.revocationEpoch ≠ s.revocationEpoch

lemma revocationsIn_append (ds es : List Decoded) :
    revocationsIn (ds ++ es) = revocationsIn ds ++ revocationsIn es :=
  List.filterMap_append

lemma issued_append (out out' : List SignedControlRecord) :
    issued (out ++ out') = issued out ++ issued out' :=
  List.map_append

lemma FreshEpochs.append_revocation {ds : List Decoded} (hfresh : FreshEpochs ds) {r : Revocation}
    (habove : ∀ s ∈ revocationsIn ds, s.scope = r.scope →
      s.revocationEpoch < r.revocationEpoch) : FreshEpochs (ds ++ [.revocation r]) := by
  have hrevs : revocationsIn (ds ++ [.revocation r]) = revocationsIn ds ++ [r] :=
    revocationsIn_append ds _
  unfold FreshEpochs
  rw [hrevs, List.pairwise_append]
  refine ⟨hfresh, List.pairwise_singleton _ _, ?_⟩
  intro s hs r' hr' hscope
  rw [List.mem_singleton.mp hr'] at hscope ⊢
  exact UInt64.ne_of_lt (habove s hs hscope)

section Ceremonies

variable [Sha256] [Ed25519]

/-- A ceremony on a chain resumed at the head `g`. -/
def ceremony (g : Bytes 32) : Machine ControlChain ControlCall SignedControlRecord where
  init := ControlChain.resume g
  step chain call := call.step chain

/-- Run the ceremonies one after the other: the head reached, and what each one issued. -/
def runCeremonies : Bytes 32 → List (List ControlCall) → Bytes 32 × List (List SignedControlRecord)
  | g, [] => (g, [])
  | g, calls :: ceremonies =>
    let (chain, out) := (ceremony g).run calls
    let (h, outs) := runCeremonies chain.head ceremonies
    (h, out :: outs)

def RevokesIn (calls : List ControlCall) (scope : FileScope) : Prop :=
  ∃ call ∈ calls, call.Revokes scope

/-- What a ceremony has issued so far: a chain from its first head to its running one, revocations
with pairwise different epochs up to the counter of their scope, and an epoch one for each scope
revoked in. -/
structure CeremonyInvariant (g : Bytes 32) (calls : List ControlCall) (chain : ControlChain)
    (out : List SignedControlRecord) : Prop where
  canonical : ∀ signed ∈ out, signed.bytes = signed.record.canonical
  linked : HashChain.Linked recordPrev sha256 g (out.map SignedControlRecord.bytes)
  head : chain.head = HashChain.head sha256 g (out.map SignedControlRecord.bytes)
  fresh : FreshEpochs (issued out)
  bounded : ∀ r ∈ revocationsIn (issued out),
    r.revocationEpoch ≤ chain.revokeEpochs (scopeKey r.scope)
  first : ∀ scope, chain.revokeEpochs (scopeKey scope) ≠ 0 →
    ∃ r ∈ revocationsIn (issued out), r.scope = scope ∧ r.revocationEpoch = 1
  counted : ∀ scope, RevokesIn calls scope → chain.revokeEpochs (scopeKey scope) ≠ 0
  intended : ∀ r ∈ revocationsIn (issued out), RevokesIn calls r.scope

omit [Sha256] [Ed25519] in
lemma revokesIn_append_singleton {calls : List ControlCall} {call : ControlCall}
    {scope : FileScope} :
    RevokesIn (calls ++ [call]) scope ↔ RevokesIn calls scope ∨ call.Revokes scope := by
  simp [RevokesIn, or_and_right, exists_or]

lemma CeremonyInvariant.init (g : Bytes 32) :
    CeremonyInvariant g [] (ceremony g).init [] := by
  have hnil : revocationsIn (issued []) = [] := rfl
  refine ⟨by simp, trivial, rfl, .nil, by simp [hnil], ?_, by simp [RevokesIn], by simp [hnil]⟩
  intro scope hscope
  exact absurd rfl hscope

omit [Ed25519] in
lemma SignedControlRecord.Extends.linked {g : Bytes 32} {chain chain' : ControlChain}
    {out : List SignedControlRecord} {signed : SignedControlRecord}
    (hextends : signed.Extends chain chain')
    (hlinked : HashChain.Linked recordPrev sha256 g (out.map SignedControlRecord.bytes))
    (hhead : chain.head = HashChain.head sha256 g (out.map SignedControlRecord.bytes)) :
    HashChain.Linked recordPrev sha256 g ((out ++ [signed]).map SignedControlRecord.bytes) ∧
      chain'.head = HashChain.head sha256 g ((out ++ [signed]).map SignedControlRecord.bytes) := by
  obtain ⟨hbytes, hprev, hhead'⟩ := hextends
  rw [List.map_append, List.map_singleton, HashChain.linked_append_singleton,
    HashChain.head_append_singleton]
  refine ⟨⟨hlinked, ?_⟩, hhead'⟩
  rw [hbytes, ← ControlRecord.encode_toDecoded, recordPrev_encode, ControlRecord.prevHead_toDecoded,
    hprev, hhead]

omit [Ed25519] in
lemma SignedControlRecord.Extends.canonical {chain chain' : ControlChain}
    {out : List SignedControlRecord} {signed : SignedControlRecord}
    (hextends : signed.Extends chain chain')
    (hcanonical : ∀ signed ∈ out, signed.bytes = signed.record.canonical) :
    ∀ signed' ∈ out ++ [signed], signed'.bytes = signed'.record.canonical := by
  intro signed' hmem
  rcases List.mem_append.mp hmem with hold | hnew
  · exact hcanonical signed' hold
  · rw [List.mem_singleton.mp hnew]
    exact hextends.1

section Step

variable {g : Bytes 32} {calls : List ControlCall} {chain chain' : ControlChain}
  {out : List SignedControlRecord} {signed : SignedControlRecord} {call : ControlCall}

omit [Ed25519] in
lemma CeremonyInvariant.step_refused (h : CeremonyInvariant g calls chain out)
    (hfull : ∀ scope, call.Revokes scope →
      chain.revokeEpochs (scopeKey scope) = 0xFFFFFFFFFFFFFFFF) :
    CeremonyInvariant g (calls ++ [call]) chain out := by
  refine { h with counted := ?_, intended := ?_ }
  · intro scope hscope
    rcases revokesIn_append_singleton.mp hscope with hold | hnew
    · exact h.counted scope hold
    · rw [hfull scope hnew]
      decide
  · intro r hr
    have hold := h.intended r hr
    exact revokesIn_append_singleton.mpr (.inl hold)

omit [Ed25519] in
lemma CeremonyInvariant.step_revocation (h : CeremonyInvariant g calls chain out)
    (hextends : signed.Extends chain chain') {r : Revocation} (hr : signed.record = .revocation r)
    (hrevokes : call.Revokes r.scope) (honly : ∀ scope, call.Revokes scope → scope = r.scope)
    (hepoch : r.revocationEpoch = chain.revokeEpochs (scopeKey r.scope) + 1)
    (hlt : chain.revokeEpochs (scopeKey r.scope) < r.revocationEpoch)
    (hupdate : chain'.revokeEpochs =
      Function.update chain.revokeEpochs (scopeKey r.scope) r.revocationEpoch) :
    CeremonyInvariant g (calls ++ [call]) chain' (out ++ [signed]) := by
  obtain ⟨hlinked, hhead⟩ := hextends.linked h.linked h.head
  have hissued : issued (out ++ [signed]) = issued out ++ [.revocation r] := by
    rw [issued_append]
    simp [issued, hr, ControlRecord.toDecoded]
  have hrevs : revocationsIn (issued (out ++ [signed])) = revocationsIn (issued out) ++ [r] := by
    rw [hissued, revocationsIn_append]
    rfl
  have hself : chain'.revokeEpochs (scopeKey r.scope) = r.revocationEpoch := by
    rw [hupdate, Function.update_self]
  have hother : ∀ scope, scope ≠ r.scope →
      chain'.revokeEpochs (scopeKey scope) = chain.revokeEpochs (scopeKey scope) := by
    intro scope hne
    rw [hupdate, Function.update_of_ne fun hkey => hne (scopeKey_injective hkey)]
  refine ⟨hextends.canonical h.canonical, hlinked, hhead, ?_, ?_, ?_, ?_, ?_⟩
  · rw [hissued]
    apply h.fresh.append_revocation
    intro s hs hscope
    have hle := h.bounded s hs
    rw [hscope] at hle
    exact UInt64.lt_of_le_of_lt hle hlt
  · intro s hs
    rw [hrevs, List.mem_append, List.mem_singleton] at hs
    rcases hs with hold | rfl
    · have hle := h.bounded s hold
      by_cases hscope : s.scope = r.scope
      · rw [hscope] at hle ⊢
        rw [hself]
        exact UInt64.le_trans hle (UInt64.le_of_lt hlt)
      · rw [hother s.scope hscope]
        exact hle
    · rw [hself]
      exact UInt64.le_refl _
  · intro scope hcounter
    rw [hrevs]
    by_cases hzero : chain.revokeEpochs (scopeKey scope) = 0
    · by_cases hscope : scope = r.scope
      · -- the first revocation in the scope
        have hone : r.revocationEpoch = 1 := by
          rw [hepoch, ← hscope, hzero]
          rfl
        exact ⟨r, by simp, hscope.symm, hone⟩
      · rw [hother scope hscope] at hcounter
        exact absurd hzero hcounter
    · obtain ⟨s, hs, hsame, hone⟩ := h.first scope hzero
      exact ⟨s, List.mem_append_left _ hs, hsame, hone⟩
  · intro scope hscope
    by_cases hsame : scope = r.scope
    · have hpos : 0 < r.revocationEpoch := UInt64.lt_of_le_of_lt UInt64.zero_le hlt
      rw [hsame, hself]
      exact (UInt64.ne_of_lt hpos).symm
    · rw [hother scope hsame]
      rcases revokesIn_append_singleton.mp hscope with hold | hnew
      · exact h.counted scope hold
      · exact absurd (honly scope hnew) hsame
  · intro s hs
    rw [hrevs, List.mem_append, List.mem_singleton] at hs
    rw [revokesIn_append_singleton]
    rcases hs with hold | rfl
    · exact .inl (h.intended s hold)
    · exact .inr hrevokes

omit [Ed25519] in
lemma CeremonyInvariant.step_other (h : CeremonyInvariant g calls chain out)
    (hextends : signed.Extends chain chain') (hsame : chain'.revokeEpochs = chain.revokeEpochs)
    (hnone : ∀ scope, ¬ call.Revokes scope) (hother : ∀ r, signed.record ≠ .revocation r) :
    CeremonyInvariant g (calls ++ [call]) chain' (out ++ [signed]) := by
  obtain ⟨hlinked, hhead⟩ := hextends.linked h.linked h.head
  have hrevs : revocationsIn (issued (out ++ [signed])) = revocationsIn (issued out) := by
    rw [issued_append, revocationsIn_append]
    cases hrecord : signed.record with
    | revocation r => exact absurd hrecord (hother r)
    | reinstatement r => simp [issued, hrecord, ControlRecord.toDecoded, revocationsIn]
    | keyCompromise r => simp [issued, hrecord, ControlRecord.toDecoded, revocationsIn]
  refine ⟨hextends.canonical h.canonical, hlinked, hhead, ?_, ?_, ?_, ?_, ?_⟩
  · unfold FreshEpochs
    rw [hrevs]
    exact h.fresh
  · rw [hrevs, hsame]
    exact h.bounded
  · rw [hrevs, hsame]
    exact h.first
  · intro scope hscope
    rw [hsame]
    rcases revokesIn_append_singleton.mp hscope with hold | hnew
    · exact h.counted scope hold
    · exact absurd hnew (hnone scope)
  · rw [hrevs]
    intro r hr
    have hold := h.intended r hr
    exact revokesIn_append_singleton.mpr (.inl hold)

lemma CeremonyInvariant.step (call : ControlCall) (h : CeremonyInvariant g calls chain out) :
    CeremonyInvariant g (calls ++ [call]) ((ceremony g).step chain call).1
      (out ++ ((ceremony g).step chain call).2) := by
  change CeremonyInvariant g (calls ++ [call]) (call.step chain).1 (out ++ (call.step chain).2)
  rcases call.step_cases chain with ⟨hstep, hfull⟩ |
      ⟨signed, chain', hstep, hextends, r, hr, hrevokes, honly, hroom, hepoch, hupdate⟩ |
      ⟨signed, chain', hstep, hextends, hsame, hnone, hother⟩
  · rw [hstep, List.append_nil]
    exact h.step_refused hfull
  · rw [hstep]
    -- the counter had room, so the new epoch is above every epoch of the scope
    have hlt : chain.revokeEpochs (scopeKey r.scope) < r.revocationEpoch := by
      rw [hepoch]
      grind
    exact h.step_revocation hextends hr hrevokes honly hepoch hlt hupdate
  · rw [hstep]
    exact h.step_other hextends hsame hnone hother

end Step

lemma ceremony_invariant (g : Bytes 32) (calls : List ControlCall) :
    CeremonyInvariant g calls ((ceremony g).run calls).1 ((ceremony g).run calls).2 :=
  (ceremony g).run_induction (CeremonyInvariant.init g) (fun _ _ _ call h => h.step call) calls

/-! ## Runs of ceremonies -/

lemma runCeremonies_linked (g : Bytes 32) (ceremonies : List (List ControlCall)) :
    let run := runCeremonies g ceremonies
    (∀ signed ∈ run.2.flatten, signed.bytes = signed.record.canonical) ∧
      HashChain.Linked recordPrev sha256 g (run.2.flatten.map SignedControlRecord.bytes) ∧
      run.1 = HashChain.head sha256 g (run.2.flatten.map SignedControlRecord.bytes) := by
  induction ceremonies generalizing g with
  | nil => exact ⟨by simp [runCeremonies], trivial, rfl⟩
  | cons calls ceremonies ih =>
    have hfirst := ceremony_invariant g calls
    obtain ⟨hcanonical, hlinked, hhead⟩ := ih ((ceremony g).run calls).1.head
    simp only [runCeremonies, List.flatten_cons, List.map_append, HashChain.linked_append,
      HashChain.head_append, ← hfirst.head]
    refine ⟨fun signed hmem => ?_, ⟨hfirst.linked, hlinked⟩, hhead⟩
    rcases List.mem_append.mp hmem with hold | hnew
    · exact hfirst.canonical signed hold
    · exact hcanonical signed hnew

/-- A revocation of the run comes from a ceremony that revokes in its scope, and such a ceremony
issues epoch one there. -/
lemma runCeremonies_revocations (g : Bytes 32) (ceremonies : List (List ControlCall)) :
    let revs := revocationsIn (issued (runCeremonies g ceremonies).2.flatten)
    (∀ r ∈ revs, ∃ calls ∈ ceremonies, RevokesIn calls r.scope) ∧
      ∀ calls ∈ ceremonies, ∀ scope, RevokesIn calls scope →
        ∃ r ∈ revs, r.scope = scope ∧ r.revocationEpoch = 1 := by
  induction ceremonies generalizing g with
  | nil => exact ⟨by simp [runCeremonies, issued, revocationsIn], by simp⟩
  | cons calls ceremonies ih =>
    have hfirst := ceremony_invariant g calls
    obtain ⟨hfrom, hone⟩ := ih ((ceremony g).run calls).1.head
    simp only [runCeremonies, List.flatten_cons, issued_append, revocationsIn_append]
    constructor
    · intro r hr
      rcases List.mem_append.mp hr with hold | hnew
      · exact ⟨calls, List.mem_cons_self, hfirst.intended r hold⟩
      · obtain ⟨calls', hmem, hrevokes⟩ := hfrom r hnew
        exact ⟨calls', List.mem_cons_of_mem _ hmem, hrevokes⟩
    · intro calls' hmem scope hrevokes
      rcases List.mem_cons.mp hmem with rfl | hlater
      · obtain ⟨r, hr, hscope, hepoch⟩ := hfirst.first scope (hfirst.counted scope hrevokes)
        exact ⟨r, List.mem_append_left _ hr, hscope, hepoch⟩
      · obtain ⟨r, hr, hscope, hepoch⟩ := hone calls' hlater scope hrevokes
        exact ⟨r, List.mem_append_right _ hr, hscope, hepoch⟩

def ScopesRevokedOnce (ceremonies : List (List ControlCall)) : Prop :=
  ceremonies.Pairwise fun calls calls' => ∀ scope, RevokesIn calls scope → ¬ RevokesIn calls' scope

lemma runCeremonies_freshEpochs_iff (g : Bytes 32) (ceremonies : List (List ControlCall)) :
    FreshEpochs (issued (runCeremonies g ceremonies).2.flatten) ↔ ScopesRevokedOnce ceremonies := by
  unfold FreshEpochs ScopesRevokedOnce
  induction ceremonies generalizing g with
  | nil => simp [runCeremonies, issued, revocationsIn]
  | cons calls ceremonies ih =>
    have hfirst := ceremony_invariant g calls
    obtain ⟨hfrom, hone⟩ := runCeremonies_revocations ((ceremony g).run calls).1.head ceremonies
    simp only [runCeremonies, List.flatten_cons, issued_append, revocationsIn_append,
      List.pairwise_append, List.pairwise_cons, ih]
    constructor
    · rintro ⟨-, hlater, hacross⟩
      refine ⟨fun calls' hmem scope hrevokes hrevokes' => ?_, hlater⟩
      -- both ceremonies issued epoch one for the scope
      obtain ⟨r, hr, hscope, hepoch⟩ := hfirst.first scope (hfirst.counted scope hrevokes)
      obtain ⟨s, hs, hscope', hepoch'⟩ := hone calls' hmem scope hrevokes'
      exact hacross r hr s hs (hscope.trans hscope'.symm) (hepoch.trans hepoch'.symm)
    · rintro ⟨hacross, hlater⟩
      refine ⟨hfirst.fresh, hlater, fun r hr s hs hscope => ?_⟩
      obtain ⟨calls', hmem, hrevokes'⟩ := hfrom s hs
      rw [← hscope] at hrevokes'
      exact absurd hrevokes' (hacross calls' hmem r.scope (hfirst.intended r hr))

/-! ## What a client reports -/

/-- Every reinstatement names an epoch issued for its scope before it. -/
def ReinstatesIssued (ds : List Decoded) : Prop :=
  ∀ (i : ℕ) s, ds[i]? = some (.reinstatement s) →
    ∃ (j : ℕ) (r : Revocation), j < i ∧ ds[j]? = some (.revocation r) ∧ r.scope = s.scope ∧
      r.revocationEpoch = s.supersedesEpoch

/-- The revocation was issued, and no reinstatement issued after it names its epoch. -/
def Unreinstated (ds : List Decoded) (r : Revocation) : Prop :=
  ∃ j : ℕ, ds[j]? = some (.revocation r) ∧
    ∀ (i : ℕ) s, j < i → ds[i]? = some (.reinstatement s) → s.supersedes ≠ r.name

/-- A user is reported revoked, or a role dropped, exactly for an unreinstated revocation. -/
def ReportsUnreinstated (set : TombstoneSet) (ds : List Decoded) : Prop :=
  (∀ userId, set.isAccountRevoked userId = true ↔
      ∃ r, Unreinstated ds r ∧ r.scope = .accountWide ∧ r.revokedUserId = userId ∧
        r.revokedCapability = none) ∧
    (∀ userId fileId version, set.isRevoked userId fileId version = true ↔
      ∃ r, Unreinstated ds r ∧ r.revokedUserId = userId ∧ r.revokedCapability = none ∧
        r.fromVersion ≤ version ∧ scopeMatchesFile r.scope fileId) ∧
    ∀ userId ceiling role, role ∈ ceiling →
      (role ∉ set.effectiveRoles userId ceiling ↔
        ∃ r, Unreinstated ds r ∧ r.revokedUserId = userId ∧ r.revokedCapability = some role)

section Reports

variable {ds : List Decoded}

omit [Sha256] [Ed25519] in
lemma FreshEpochs.unique (hfresh : FreshEpochs ds) {i j : ℕ} {k l : RevocationName}
    (hk : tombstoneMarking.RaisedAt ds i k) (hl : tombstoneMarking.RaisedAt ds j l)
    (htag : (k.scope, k.epoch) = (l.scope, l.epoch)) : i = j := by
  obtain ⟨r, hr, rfl⟩ := raisedAt_iff.mp hk
  obtain ⟨s, hs, rfl⟩ := raisedAt_iff.mp hl
  obtain ⟨hi, hri⟩ := List.getElem?_eq_some_iff.mp hr
  obtain ⟨hj, hsj⟩ := List.getElem?_eq_some_iff.mp hs
  obtain ⟨hscope, hepoch⟩ : r.scope = s.scope ∧ r.revocationEpoch = s.revocationEpoch :=
    Prod.mk.inj htag
  unfold FreshEpochs revocationsIn at hfresh
  rw [List.pairwise_filterMap, List.pairwise_iff_getElem] at hfresh
  rcases lt_trichotomy i j with hlt | heq | hgt
  · exact absurd hepoch (hfresh i j hi hj hlt r (by rw [hri]) s (by rw [hsj]) hscope)
  · exact heq
  · exact absurd hepoch.symm (hfresh j i hj hi hgt s (by rw [hsj]) r (by rw [hri]) hscope.symm)

omit [Sha256] [Ed25519] in
lemma inForce_iff_unreinstated (hfresh : FreshEpochs ds) (hissued : ReinstatesIssued ds)
    (r : Revocation) : InForce ds r ↔ Unreinstated ds r := by
  have hbefore : ∀ j : ℕ, ds[j]? = some (.revocation r) →
      ¬ tombstoneMarking.ClearedBefore ds j r.name := by
    intro j hj
    refine Marking.not_clearedBefore_of_fresh (fun k => (k.scope, k.epoch))
      (fun _ _ _ _ hk hl htag => hfresh.unique hk hl htag) ?_ (raisedAt_iff.mpr ⟨r, hj, rfl⟩)
    intro i k hk
    obtain ⟨s, hs, rfl⟩ := clearedAt_iff.mp hk
    obtain ⟨j', r', hj', hr', hscope, hepoch⟩ := hissued i s hs
    exact ⟨j', r'.name, hj', raisedAt_iff.mpr ⟨r', hr', rfl⟩, Prod.ext hscope hepoch⟩
  have hafter : ∀ j, ¬ tombstoneMarking.ClearedAfter ds j r.name ↔
      ∀ (i : ℕ) s, j < i → ds[i]? = some (.reinstatement s) → s.supersedes ≠ r.name := by
    intro j
    unfold Marking.ClearedAfter
    simp only [clearedAt_iff]
    constructor
    · exact fun h i s hi hs hname => h ⟨i, hi, s, hs, hname⟩
    · rintro h ⟨i, hi, s, hs, hname⟩
      exact h i s hi hs hname
  unfold InForce Unreinstated
  simp only [isSupersededIn_eq_false_iff, ← hafter]
  constructor
  · rintro ⟨hmem, hstands⟩
    obtain ⟨j, hj⟩ := List.mem_iff_getElem?.mp hmem
    exact ⟨j, hj, ((Marking.stands_iff (raisedAt_iff.mpr ⟨r, hj, rfl⟩)).mp hstands).2⟩
  · rintro ⟨j, hj, hnone⟩
    exact ⟨List.mem_of_getElem? hj,
      (Marking.stands_iff (raisedAt_iff.mpr ⟨r, hj, rfl⟩)).mpr ⟨hbefore j hj, hnone⟩⟩

omit [Sha256] [Ed25519] in
lemma reportsUnreinstated_of_inForce_iff (h : ∀ r, InForce ds r ↔ Unreinstated ds r) :
    ReportsUnreinstated ⟨ds⟩ ds := by
  refine ⟨fun userId => ?_, fun userId fileId version => ?_, fun userId ceiling role hrole => ?_⟩
  · simp only [TombstoneSet.isAccountRevoked_iff, h]
  · simp only [TombstoneSet.isRevoked_iff, h]
  · unfold TombstoneSet.effectiveRoles
    simp only [not_mem_effectiveRolesIn_iff hrole, h]

end Reports

lemma verify_runCeremonies (ceremonies : List (List ControlCall)) :
    let run := runCeremonies GENESIS_HEAD.bytes ceremonies
    TombstoneSet.verify (run.2.flatten.map SignedControlRecord.bytes) run.1 =
      .ok ⟨issued run.2.flatten⟩ := by
  intro run
  obtain ⟨hcanonical, hlinked, hhead⟩ := runCeremonies_linked GENESIS_HEAD.bytes ceremonies
  refine TombstoneSet.verify_eq_ok.mpr ⟨?_, hlinked, hhead.symm⟩
  unfold DecodesTo issued
  rw [List.forall₂_map_left_iff, List.forall₂_map_right_iff, List.forall₂_same]
  intro signed hmem
  rw [hcanonical signed hmem, ← ControlRecord.encode_toDecoded]
  exact Decoded.fromBytes_encode _

/-- **When epochs stay fresh across ceremonies.**  Over any run of ceremonies, no scope repeats a
revocation epoch, and a client reports exactly the unreinstated revocations if reinstatements name
issued epochs, if and only if no scope is revoked in by two ceremonies. -/
theorem freshEpochs_iff (ceremonies : List (List ControlCall)) :
    let run := runCeremonies GENESIS_HEAD.bytes ceremonies
    (FreshEpochs (issued run.2.flatten) ∧
      (ReinstatesIssued (issued run.2.flatten) →
        ∃ set, TombstoneSet.verify (run.2.flatten.map SignedControlRecord.bytes) run.1 = .ok set ∧
          ReportsUnreinstated set (issued run.2.flatten))) ↔
      ScopesRevokedOnce ceremonies := by
  intro run
  have hfresh := runCeremonies_freshEpochs_iff GENESIS_HEAD.bytes ceremonies
  constructor
  · exact fun h => hfresh.mp h.1
  · intro honce
    refine ⟨hfresh.mpr honce, fun hissued => ⟨_, verify_runCeremonies ceremonies, ?_⟩⟩
    exact reportsUnreinstated_of_inForce_iff
      (inForce_iff_unreinstated (hfresh.mpr honce) hissued)

end Ceremonies

/-! ## A ceremony that was interrupted -/

/-- A user is revoked and reinstated in one ceremony and revoked again in the next. -/
def interruptedCeremony : List (List ControlCall) :=
  let key : SigningKey := ⟨.replicate 32 0⟩
  let coSign : CoSign := ⟨⟨.replicate 16 2⟩, key⟩
  let user : Id := ⟨.replicate 16 7⟩
  let revoke : ControlCall :=
    .revoke key ⟨.accountWide, user, none, 0, ⟨.replicate 16 1⟩, ⟨0⟩⟩ (some coSign)
  let reinstate : ControlCall :=
    .reinstate key ⟨.accountWide, user, 1, ⟨.replicate 16 1⟩, ⟨0⟩⟩ coSign
  [[revoke, reinstate], [revoke]]

lemma reissuedEpoch_eq [Sha256] : ∃ r s r',
    reissuedEpoch = [.revocation r, .reinstatement s, .revocation r'] ∧
      r.scope = .accountWide ∧ r'.scope = .accountWide ∧ r.revocationEpoch = 1 ∧
      r'.revocationEpoch = 1 ∧ s.scope = .accountWide ∧ s.supersedesEpoch = 1 ∧
      r'.revokedUserId = ⟨.replicate 16 7⟩ ∧ r'.revokedCapability = none :=
  ⟨_, _, _, rfl, rfl, rfl, rfl, rfl, rfl, rfl, rfl, rfl⟩

lemma reissuedEpoch_not_fresh [Sha256] : ¬ FreshEpochs reissuedEpoch := by
  obtain ⟨r, s, r', hlist, hscope, hscope', hepoch, hepoch', -⟩ := reissuedEpoch_eq
  intro hfresh
  rw [hlist] at hfresh
  exact List.pairwise_pair.mp hfresh (hscope.trans hscope'.symm) (hepoch.trans hepoch'.symm)

lemma reissuedEpoch_reinstatesIssued [Sha256] : ReinstatesIssued reissuedEpoch := by
  obtain ⟨r, s, r', hlist, hscope, -, hepoch, -, hsScope, hsEpoch, -⟩ := reissuedEpoch_eq
  rw [hlist]
  intro i t ht
  obtain ⟨hi, -⟩ := List.getElem?_eq_some_iff.mp ht
  have hone : i = 1 := by
    rcases i with _ | _ | _ | i
    · cases ht
    · rfl
    · cases ht
    · simp only [List.length_cons, List.length_nil] at hi
      omega
  subst hone
  cases ht
  exact ⟨0, r, by omega, rfl, hscope.trans hsScope.symm, hepoch.trans hsEpoch.symm⟩

lemma reissuedEpoch_not_reported :
    letI := tailSha256
    ¬ ReportsUnreinstated ⟨reissuedEpoch⟩ reissuedEpoch := by
  let _ := tailSha256
  obtain ⟨r, s, r', hlist, -, hscope, -, -, -, -, huser, hcap⟩ := reissuedEpoch_eq
  have hlast : Unreinstated reissuedEpoch r' := by
    rw [hlist]
    refine ⟨2, rfl, fun i t hi ht => ?_⟩
    obtain ⟨hbound, -⟩ := List.getElem?_eq_some_iff.mp ht
    simp only [List.length_cons, List.length_nil] at hbound
    omega
  have hnot : TombstoneSet.isAccountRevoked ⟨reissuedEpoch⟩ ⟨.replicate 16 7⟩ = false := by
    decide +kernel
  rintro ⟨hreports, -⟩
  have hrevoked := (hreports ⟨.replicate 16 7⟩).mpr ⟨r', hlast, hscope, huser, hcap⟩
  rw [hnot] at hrevoked
  cases hrevoked

/-- The second revocation gets the epoch of the first, and the client does not report the user. -/
theorem freshEpochs_interrupted :
    letI := tailSha256
    letI := acceptingEd25519
    let run := runCeremonies GENESIS_HEAD.bytes interruptedCeremony
    ¬ FreshEpochs (issued run.2.flatten) ∧ ReinstatesIssued (issued run.2.flatten) ∧
      ¬ ∃ set, TombstoneSet.verify (run.2.flatten.map SignedControlRecord.bytes) run.1 = .ok set ∧
        ReportsUnreinstated set (issued run.2.flatten) := by
  let _ := tailSha256
  let _ := acceptingEd25519
  intro run
  have hissued : issued run.2.flatten = reissuedEpoch := by decide +kernel
  have hverify := verify_runCeremonies interruptedCeremony
  rw [hissued]
  refine ⟨reissuedEpoch_not_fresh, reissuedEpoch_reinstatesIssued, ?_⟩
  rintro ⟨set, hset, hreports⟩
  cases hverify.symm.trans hset
  rw [hissued] at hreports
  exact reissuedEpoch_not_reported hreports

end MaxSecu
