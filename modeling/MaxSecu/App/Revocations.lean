import MaxSecu.App.Directory
import MaxSecu.Client.Authority

/-!
# The revocation state of the app

Before it shares, the app fetches the control log and asks the server for the binding of every admin
that the records name.  The keys of the bindings are then used for the ids that were asked for, and
nothing compares these ids with the ones in the bindings.

`dualControl_iff` says what dual control is worth: a record that needs two admins has them exactly
when the server answers for the two ids with bindings of these ids.
-/

namespace MaxSecu

open ExceptRules

def unverified : UiError :=
  ⟨"revocation_unverified", "The revocation state could not be verified."⟩

def mapTombstoneErr : TombstoneError → UiError
  | .gap | .brokenChain | .malformed | .unknownIssuer | .badAuthority | .notAdmin
  | .dualControlMissing => unverified

/-- The served records.  Nothing but a list is taken for one. -/
def fetchControlRecords (answer : Answer (List ControlRecordIn)) :
    Except UiError (List ControlRecordIn) :=
  answer.body unverified unverified

/-- What is read out of a record, or nothing if it cannot be decoded. -/
def idsOf {ε α : Type} (record : Except ε α) (ids : α → List Id) : List Id :=
  match record with
  | .ok r => ids r
  | .error _ => []

/-- The ids that issued and co-signed a record. -/
def recordIssuers (bytes : List UInt8) : List Id :=
  match bytes with
  | hi :: lo :: _ =>
    match UInt16.ofNat (BigEndian.ofBytes [hi, lo]) with
    | 0x0006 => idsOf (decode Revocation bytes) fun r => r.issuedBy :: r.coSignedBy.toList
    | 0x0007 => idsOf (decode Reinstatement bytes) fun r => [r.issuedBy, r.coSignedBy]
    | 0x0008 => idsOf (decode KeyCompromise bytes) fun r => [r.issuedBy, r.coSignedBy]
    | _ => []
  | _ => []

/-- Every id that some record names, once. -/
def distinctIssuers (records : List ControlRecordIn) : List Id :=
  records.foldl (fun ids rec => (recordIssuers rec.bytes).foldl
    (fun ids id => if id ∈ ids then ids else ids ++ [id]) ids) []

section Build

variable [UnicodeNormalization] [Sha256] [Ed25519]

def VerifiedBinding.issuerInfo (v : VerifiedBinding) : IssuerInfo :=
  ⟨v.sigPub.bytes, v.roles, v.keyVersion⟩

/-- The issuer in the answer to a lookup by id, if the binding verifies. -/
def resolveIssuer (verifier : DirectoryVerifier) (lookup : Lookup) (nowMs : UInt64)
    (trust : TrustStore) : Option IssuerInfo × TrustStore :=
  match lookup with
  | .answered (some (bytes, sig)) =>
    match decode DirBinding bytes with
    | .ok binding =>
      match runFrom (verifier.verifyBinding binding sig nowMs) trust with
      | (.ok v, trust') => (some v.issuerInfo, trust')
      | (.error _, trust') => (none, trust')
    | .error _ => (none, trust)
  | _ => (none, trust)

/-- Look one more id up.  An id that does not resolve is left out. -/
def resolveNext (verifier : DirectoryVerifier) (lookups : Id → Lookup) (nowMs : UInt64)
    (s : (Id → Option IssuerInfo) × TrustStore) (id : Id) : (Id → Option IssuerInfo) × TrustStore :=
  match resolveIssuer verifier (lookups id) nowMs s.2 with
  | (some info, trust) => (Function.update s.1 id (some info), trust)
  | (none, trust) => (s.1, trust)

def resolveIssuers (verifier : DirectoryVerifier) (lookups : Id → Lookup) (nowMs : UInt64)
    (ids : List Id) (trust : TrustStore) : (Id → Option IssuerInfo) × TrustStore :=
  ids.foldl (resolveNext verifier lookups nowMs) (fun _ => none, trust)

/-- Fetch the records, resolve who issued them, and verify the set: up to the anchored head when
there is one. -/
def buildTombstones (verifier : DirectoryVerifier) (answer : Answer (List ControlRecordIn))
    (lookups : Id → Lookup) (anchoredHead : Option (Bytes 32)) (nowMs : UInt64) :
    ExceptT UiError (StateM TrustStore) TombstoneSet := do
  let records ← liftM (fetchControlRecords answer)
  let resolved ← .mk fun trust =>
    let (resolved, trust') :=
      resolveIssuers verifier lookups nowMs (distinctIssuers records) trust
    (.ok resolved, trust')
  liftM <| Except.mapError mapTombstoneErr <|
    match anchoredHead with
    | some head => TombstoneSet.verifyAuthenticated records head resolved
    | none => TombstoneSet.verifyAuthenticatedUnanchored records resolved

/-! ## What a successful build rests on -/

omit [UnicodeNormalization] [Sha256] [Ed25519] in
lemma idsOf_of_read {ε α : Type} {record : Except ε α} {ids : α → List Id} {f : α → Decoded}
    {d : Decoded} (h : f <$> record.mapError (fun _ => TombstoneError.malformed) = .ok d)
    (hids : ∀ r, ids r = (f r).issuedBy :: (f r).coSignedBy.toList) :
    idsOf record ids = d.issuedBy :: d.coSignedBy.toList := by
  cases record with
  | error e => cases h
  | ok r =>
    cases h
    exact hids r

omit [UnicodeNormalization] [Sha256] [Ed25519] in
lemma recordIssuers_of_fromBytes {bytes : List UInt8} {d : Decoded}
    (h : Decoded.fromBytes bytes = .ok d) :
    recordIssuers bytes = d.issuedBy :: d.coSignedBy.toList := by
  unfold Decoded.fromBytes at h
  unfold recordIssuers
  rcases bytes with _ | ⟨hi, _ | ⟨lo, rest⟩⟩
  · cases h
  · cases h
  dsimp only at h ⊢
  generalize UInt16.ofNat (BigEndian.ofBytes [hi, lo]) = typeId at h ⊢
  split at h
  · exact idsOf_of_read h fun _ => rfl
  · exact idsOf_of_read h fun _ => rfl
  · exact idsOf_of_read h fun _ => rfl
  · cases h

variable {verifier : DirectoryVerifier} {lookups : Id → Lookup} {nowMs : UInt64}
  {trust trust' : TrustStore}

/-- An issuer that resolves was answered with a signed binding, and has its key and ceiling. -/
lemma resolveIssuer_eq_some {lookup : Lookup} {info : IssuerInfo}
    (h : resolveIssuer verifier lookup nowMs trust = (some info, trust')) :
    ∃ binding, lookup.Serves binding ∧ verifier.Signed binding ∧
      info.sigPub = binding.sigPub.bytes ∧ info.roles = binding.roles.roles := by
  unfold resolveIssuer at h
  split at h
  · next bytes sig =>
    split at h
    · next binding hdecode =>
      split at h
      · next v _ hv =>
        cases h
        rcases verifyBinding_cases hv with ⟨e, he, -⟩ | ⟨hok, hpasses, -⟩
        · cases he
        · obtain rfl := Except.ok.inj hok
          exact ⟨binding, ⟨bytes, sig, rfl, hdecode⟩, ⟨sig, hpasses.1⟩, rfl, rfl⟩
      · cases h
    · cases h
  · cases h

/-- The map that is built says of each id what the answer for that id says. -/
def FromAnswers (verifier : DirectoryVerifier) (lookups : Id → Lookup)
    (resolved : Id → Option IssuerInfo) : Prop :=
  ∀ id info, resolved id = some info →
    ∃ binding, (lookups id).Serves binding ∧ verifier.Signed binding ∧
      info.sigPub = binding.sigPub.bytes ∧ info.roles = binding.roles.roles

lemma FromAnswers.resolveNext {s : (Id → Option IssuerInfo) × TrustStore} {id : Id}
    (h : FromAnswers verifier lookups s.1) :
    FromAnswers verifier lookups (resolveNext verifier lookups nowMs s id).1 := by
  rcases hnext : resolveIssuer verifier (lookups id) nowMs s.2 with ⟨_ | info, trust⟩
  · rw [MaxSecu.resolveNext, hnext]
    exact h
  · rw [MaxSecu.resolveNext, hnext]
    intro id' info' hinfo
    by_cases hid : id' = id
    · subst hid
      obtain rfl : info = info' := by simpa using hinfo
      exact resolveIssuer_eq_some hnext
    · have hold : Function.update s.1 id (some info) id' = some info' := hinfo
      rw [Function.update_of_ne hid] at hold
      exact h id' info' hold

lemma fromAnswers_resolveIssuers {ids : List Id} :
    FromAnswers verifier lookups (resolveIssuers verifier lookups nowMs ids trust).1 := by
  have hfold : ∀ s, FromAnswers verifier lookups s.1 →
      FromAnswers verifier lookups (ids.foldl (resolveNext verifier lookups nowMs) s).1 := by
    induction ids with
    | nil => exact fun s hs => hs
    | cons id ids ih => exact fun s hs => ih _ hs.resolveNext
  exact hfold _ fun id info hinfo => absurd hinfo (by simp)

variable {answer : Answer (List ControlRecordIn)} {anchoredHead : Option (Bytes 32)}
  {set : TombstoneSet}

/-- A set that is built is the served records, read in order and each authorised by the issuers that
the server's answers name. -/
lemma buildTombstones_eq_ok
    (h : runFrom (buildTombstones verifier answer lookups anchoredHead nowMs) trust =
      (.ok set, trust')) :
    ∃ records resolved, answer = .answered (some records) ∧
      FromAnswers verifier lookups resolved ∧
      DecodesTo (records.map ControlRecordIn.bytes) set.records ∧
      ∀ i rec d, records[i]? = some rec → set.records[i]? = some d →
        Authorized resolved (set.records.take i) d rec := by
  unfold buildTombstones at h
  simp only [runFrom_bind_eq, runFrom_liftM, runFrom_mk, Prod.mk.injEq, reduceCtorEq, false_and,
    and_false, exists_false, false_or, Except.ok.injEq] at h
  obtain ⟨records, _, ⟨hrecords, rfl⟩, resolved, _, ⟨rfl, rfl⟩, hset, rfl⟩ := h
  have hverified : TombstoneSet.verifyAuthenticatedUnanchored records
      (resolveIssuers verifier lookups nowMs (distinctIssuers records) trust).1 = .ok set := by
    cases anchoredHead with
    | none => exact mapError_eq_ok.mp hset
    | some head =>
      exact (TombstoneSet.verifyAuthenticated_eq_ok_iff_unanchored.mp (mapError_eq_ok.mp hset)).1
  obtain ⟨hdecodes, -, hall⟩ := TombstoneSet.verifyAuthenticatedUnanchored_eq_ok.mp hverified
  exact ⟨records, _, Answer.body_eq_ok.mp hrecords, fromAnswers_resolveIssuers, hdecodes,
    fun i rec d hrec hd => authenticateAuthority_eq_ok.mp (hall i rec d hrec hd)⟩

/-! ## Dual control -/

/-- The directory signed this binding: it gives the id an admin ceiling and the key that made the
signature. -/
structure SignedByAdmin (verifier : DirectoryVerifier) (d : Decoded) (id : Id) (sig : Bytes 64)
    (binding : DirBinding) : Prop where
  signed : verifier.Signed binding
  names : binding.userId = id
  admin : Role.admin ∈ binding.roles.roles
  verifies : d.verifySig binding.sigPub.bytes sig = true

/-- The record was signed by the two admins that it names, who are two persons. -/
def SignedByTwoAdmins (verifier : DirectoryVerifier) (d : Decoded) (rec : ControlRecordIn) : Prop :=
  ∃ issuer coSigner coId coSig, d.coSignedBy = some coId ∧ rec.coSig = some coSig ∧
    coId ≠ d.issuedBy ∧ SignedByAdmin verifier d d.issuedBy rec.sig issuer ∧
    SignedByAdmin verifier d coId coSig coSigner ∧ coSigner.sigPub ≠ issuer.sigPub

/-- Every record of the set that needs two admins has them. -/
def DualControlHolds (verifier : DirectoryVerifier) (answer : Answer (List ControlRecordIn))
    (set : TombstoneSet) : Prop :=
  ∀ records, answer = .answered (some records) →
    ∀ (i : ℕ) (rec : ControlRecordIn) (d : Decoded), records[i]? = some rec → set.records[i]? = some d →
      DualControlled d → SignedByTwoAdmins verifier d rec

/-- For the ids behind a served record that needs two admins, the server answers with bindings of
these ids. -/
def AnswersName (answer : Answer (List ControlRecordIn)) (lookups : Id → Lookup) : Prop :=
  ∀ records, answer = .answered (some records) → ∀ rec ∈ records, ∀ d,
    Decoded.fromBytes rec.bytes = .ok d → DualControlled d →
      ∀ id ∈ recordIssuers rec.bytes, ∀ binding, (lookups id).Serves binding → binding.userId = id

/-- No signature over a record verifies under two keys. -/
def RecordSignaturesExclusive : Prop :=
  ∀ (d : Decoded) (k k' : Bytes 32) (sig : Bytes 64),
    d.verifySig k sig = true → d.verifySig k' sig = true → k = k'

omit [Sha256] in
lemma AdminVerified.exists_binding {resolved : Id → Option IssuerInfo} {before : List Decoded}
    {d : Decoded} {id : Id} {sig : Bytes 64} (h : AdminVerified resolved before d id sig)
    (hresolved : FromAnswers verifier lookups resolved) :
    ∃ binding, (lookups id).Serves binding ∧
      SignedByAdmin verifier d binding.userId sig binding := by
  obtain ⟨info, hinfo, hverifies, hadmin, -⟩ := h
  obtain ⟨binding, hserves, hsigned, hkey, hroles⟩ := hresolved id info hinfo
  rw [hkey] at hverifies
  rw [hroles] at hadmin
  exact ⟨binding, hserves, hsigned, rfl, hadmin, hverifies⟩

omit [Sha256] in
lemma serves_names_iff {d : Decoded} {id : Id} {sig : Bytes 64} {binding : DirBinding}
    (huser : verifier.OneUserPerKey) (hexclusive : RecordSignaturesExclusive)
    (hserves : (lookups id).Serves binding)
    (hadmin : SignedByAdmin verifier d binding.userId sig binding) :
    (∀ b, (lookups id).Serves b → b.userId = id) ↔
      ∃ b, SignedByAdmin verifier d id sig b := by
  constructor
  · intro hnames
    have hid := hnames binding hserves
    exact ⟨binding, hadmin.signed, hid, hadmin.admin, hadmin.verifies⟩
  · rintro ⟨b, hsigned, rfl, -, hverifies⟩ b' hserves'
    obtain rfl := hserves.unique hserves'
    have hkeys := hexclusive d _ _ sig hadmin.verifies hverifies
    exact huser _ _ hadmin.signed hsigned (congrArg Bytes32.mk hkeys)

omit [Sha256] in
/-- A record that was accepted with two admins was signed by them exactly when the server answered
for both ids with their own bindings. -/
lemma TwoAdmins.signed_iff {resolved : Id → Option IssuerInfo} {before : List Decoded} {d : Decoded}
    {rec : ControlRecordIn} (h : TwoAdmins resolved before d rec)
    (hresolved : FromAnswers verifier lookups resolved) (huser : verifier.OneUserPerKey)
    (hexclusive : RecordSignaturesExclusive) :
    SignedByTwoAdmins verifier d rec ↔
      ∀ id ∈ d.issuedBy :: d.coSignedBy.toList, ∀ binding, (lookups id).Serves binding →
        binding.userId = id := by
  obtain ⟨hissuer, coId, coSig, hcoId, hcoSig, hne, hcoSigner⟩ := h
  obtain ⟨issuer, hserves, hadmin⟩ := hissuer.exists_binding hresolved
  obtain ⟨coSigner, hcoServes, hcoAdmin⟩ := hcoSigner.exists_binding hresolved
  have hnames := serves_names_iff huser hexclusive hserves hadmin
  have hcoNames := serves_names_iff huser hexclusive hcoServes hcoAdmin
  constructor
  · rintro ⟨b, b', coId', coSig', hcoId', hcoSig', -, hb, hb', -⟩ id hid
    obtain rfl := Option.some.inj (hcoId.symm.trans hcoId')
    obtain rfl := Option.some.inj (hcoSig.symm.trans hcoSig')
    rw [hcoId] at hid
    rcases List.mem_cons.mp hid with rfl | hid
    · exact hnames.mpr ⟨b, hb⟩
    · obtain rfl := List.mem_singleton.mp hid
      exact hcoNames.mpr ⟨b', hb'⟩
  · intro hall
    rw [hcoId] at hall
    obtain ⟨b, hb⟩ := hnames.mp (hall _ List.mem_cons_self)
    obtain ⟨b', hb'⟩ := hcoNames.mp (hall _ (List.mem_cons_of_mem _ (List.mem_singleton_self _)))
    refine ⟨b, b', coId, coSig, hcoId, hcoSig, hne, hb, hb', fun hsame => hne ?_⟩
    have hid := huser _ _ hb'.signed hb.signed hsame
    rw [hb'.names, hb.names] at hid
    exact hid

/-- **Dual control against the server, exactly.**  Every record of a built set that needs two admins
has them if and only if the server answered for the ids that such records name with bindings of
these ids. -/
theorem dualControl_iff (huser : verifier.OneUserPerKey)
    (hexclusive : RecordSignaturesExclusive)
    (hbuild : runFrom (buildTombstones verifier answer lookups anchoredHead nowMs) trust =
      (.ok set, trust')) :
    DualControlHolds verifier answer set ↔ AnswersName answer lookups := by
  obtain ⟨records, resolved, rfl, hresolved, hdecodes, hauthorized⟩ := buildTombstones_eq_ok hbuild
  have hrecord : ∀ (i : ℕ) rec d, records[i]? = some rec → set.records[i]? = some d →
      DualControlled d → (SignedByTwoAdmins verifier d rec ↔
        ∀ id ∈ recordIssuers rec.bytes, ∀ binding, (lookups id).Serves binding →
          binding.userId = id) := by
    intro i rec d hrec hd hdual
    obtain ⟨rec', hrec', hread⟩ := (servedAt_iff hdecodes).mpr hd
    obtain rfl := Option.some.inj (hrec.symm.trans hrec')
    rw [recordIssuers_of_fromBytes hread]
    exact ((hauthorized i rec d hrec hd).2 hdual).signed_iff hresolved huser hexclusive
  constructor
  · intro hholds records' heq rec hmem d hread hdual
    obtain rfl : records = records' := by simpa using heq
    obtain ⟨i, hrec⟩ := List.mem_iff_getElem?.mp hmem
    have hd := (servedAt_iff hdecodes).mp ⟨rec, hrec, hread⟩
    exact (hrecord i rec d hrec hd hdual).mp (hholds records rfl i rec d hrec hd hdual)
  · intro hnames records' heq i rec d hrec hd hdual
    obtain rfl : records = records' := by simpa using heq
    obtain ⟨rec', hrec', hread⟩ := (servedAt_iff hdecodes).mpr hd
    obtain rfl := Option.some.inj (hrec.symm.trans hrec')
    exact (hrecord i rec d hrec hd hdual).mpr
      (hnames records rfl rec (List.mem_of_getElem? hrec) d hread hdual)

omit [UnicodeNormalization] [Sha256] in
lemma exists_of_verifySig {d : Decoded} {k : Bytes 32} {sig : Bytes 64}
    (h : d.verifySig k sig = true) : ∃ msg, Ed25519.verifyStrict k msg sig = true := by
  unfold Decoded.verifySig at h
  cases hkey : VerifyingKey.fromBytes k with
  | error e =>
    rw [hkey] at h
    cases h
  | ok vk =>
    have hstrict : ∀ {T : Type} [Canonical T] (label : String) (v : T),
        (vk.verifyCanonical label v sig).isOk = true →
          ∃ msg, Ed25519.verifyStrict k msg sig = true := by
      intro T _ label v hok
      have hbind : (VerifyingKey.fromBytes k >>= fun vk => vk.verifyCanonical label v sig) =
          .ok () := by
        rw [hkey]
        exact isOk_iff.mp hok
      exact ⟨_, (VerifyingKey.verifyCanonical_eq_ok.mp hbind).2⟩
    rw [hkey] at h
    cases d with
    | revocation r => exact hstrict _ r h
    | reinstatement r => exact hstrict _ r h
    | keyCompromise r => exact hstrict _ r h

lemma resolveIssuer_of_passes {binding : DirBinding} {sig : Bytes 64}
    (hpasses : verifier.Passes binding sig nowMs)
    (hknown : trust binding.userId = none ∨ trust binding.userId = some binding.trustRecord) :
    resolveIssuer verifier (.answered (some (encode binding, sig))) nowMs trust =
      (some ⟨binding.sigPub.bytes, binding.roles.roles, binding.keyVersion⟩,
        Function.update trust binding.userId (some binding.trustRecord)) := by
  have hdecode : decode DirBinding (encode binding) = .ok binding := decode_encode trivial
  simp only [resolveIssuer, hdecode, verifyBinding_of_passes hpasses hknown]
  rfl

lemma buildTombstones_unanchored {records : List ControlRecordIn}
    (h : TombstoneSet.verifyAuthenticatedUnanchored records
      (resolveIssuers verifier lookups nowMs (distinctIssuers records) trust).1 = .ok set) :
    runFrom (buildTombstones verifier (.answered (some records)) lookups none nowMs) trust =
      (.ok set, (resolveIssuers verifier lookups nowMs (distinctIssuers records) trust).2) := by
  have hfetch : fetchControlRecords (.answered (some records)) = .ok records := rfl
  unfold buildTombstones
  rw [hfetch, runFrom_bind_ok (runFrom_liftM _ _), runFrom_bind, runFrom_mk]
  dsimp only
  rw [runFrom_liftM, h]
  rfl

end Build

/-! ## One admin and the server -/

/-- The binding of an admin, who is known by one byte. -/
def adminBinding (admin : UInt8) : @DirBinding asciiNormalization :=
  letI := asciiNormalization
  userBinding ⟨"admin", by decide, by decide⟩ admin [.admin]

/-- The directory has signed the bindings of two admins. -/
abbrev twoAdminsEd25519 : Ed25519 :=
  letI := asciiNormalization
  bindingsEd25519 [adminBinding 1, adminBinding 2]

/-- The first admin revokes a user account-wide, and the second is named as the co-signer. -/
def dualRevocation : Decoded :=
  .revocation ⟨.accountWide, ⟨.replicate 16 7⟩, none, 0, 1, GENESIS_HEAD, ⟨.replicate 16 1⟩,
    some ⟨.replicate 16 2⟩, ⟨0⟩⟩

def adminSignature (admin : UInt8) : Bytes 64 :=
  ⟨List.replicate 32 admin ++ List.replicate 32 0, by simp⟩

def dualRecord (coSigner : UInt8) : ControlRecordIn :=
  ⟨dualRevocation.encode, adminSignature 1, some (adminSignature coSigner)⟩

def adminInfo (admin : UInt8) : IssuerInfo := ⟨.replicate 32 admin, [.admin], 1⟩

/-- For the second admin the server answers with a binding of its choice. -/
def answersWith (coSigner : UInt8) (id : Id) : Lookup :=
  letI := asciiNormalization
  if id = ⟨.replicate 16 1⟩ then
    .answered (some (encode (adminBinding 1), .replicate 64 0))
  else
    .answered (some (encode (adminBinding coSigner), .replicate 64 0))

lemma adminBinding_passes {admin : UInt8} (hadmin : admin = 1 ∨ admin = 2) :
    letI := asciiNormalization
    letI := twoAdminsEd25519
    zeroVerifier.Passes (adminBinding admin) (.replicate 64 0) 0 := by
  let _ := asciiNormalization
  have hmem : adminBinding admin ∈ [adminBinding 1, adminBinding 2] := by
    rcases hadmin with rfl | rfl
    · exact List.mem_cons_self
    · exact List.mem_cons_of_mem _ (List.mem_singleton_self _)
  exact userBinding_passes hmem

lemma resolveIssuer_adminBinding {admin : UInt8} (hadmin : admin = 1 ∨ admin = 2) :
    letI := asciiNormalization
    letI := tailSha256
    letI := twoAdminsEd25519
    ∀ trust : TrustStore, (trust (adminBinding admin).userId = none ∨
      trust (adminBinding admin).userId = some (adminBinding admin).trustRecord) →
    resolveIssuer zeroVerifier (.answered (some (encode (adminBinding admin), .replicate 64 0))) 0
      trust = (some (adminInfo admin), Function.update trust (adminBinding admin).userId
        (some (adminBinding admin).trustRecord)) := by
  let _ := asciiNormalization
  let _ := tailSha256
  let _ := twoAdminsEd25519
  intro trust hknown
  have hnew : (RoleSet.new [.admin]).roles = [.admin] := by decide +kernel
  have hroles : (adminBinding admin).roles.roles = [.admin] := hnew
  rw [resolveIssuer_of_passes (adminBinding_passes hadmin) hknown, hroles]
  rfl

lemma exists_build {coSigner : UInt8} (hcoSigner : coSigner = 1 ∨ coSigner = 2) :
    letI := asciiNormalization
    letI := tailSha256
    letI := twoAdminsEd25519
    ∃ trust, runFrom (buildTombstones zeroVerifier (.answered (some [dualRecord coSigner]))
      (answersWith coSigner) none 0) (fun _ => none) = (.ok ⟨[dualRevocation]⟩, trust) := by
  let _ := asciiNormalization
  let _ := tailSha256
  let _ := twoAdminsEd25519
  have hissuers : distinctIssuers [dualRecord coSigner] =
      [⟨.replicate 16 1⟩, ⟨.replicate 16 2⟩] := by
    have hrecord : recordIssuers (dualRecord coSigner).bytes = _ :=
      recordIssuers_of_fromBytes (Decoded.fromBytes_encode dualRevocation)
    simp only [distinctIssuers, List.foldl_cons, List.foldl_nil, hrecord]
    decide
  set trust : TrustStore := Function.update (fun _ => none) (adminBinding 1).userId
    (some (adminBinding 1).trustRecord) with htrust
  have hfirst : resolveIssuer zeroVerifier (answersWith coSigner ⟨.replicate 16 1⟩) 0
      (fun _ => none) = (some (adminInfo 1), trust) := by
    have hanswer : answersWith coSigner ⟨.replicate 16 1⟩ = _ := if_pos rfl
    rw [hanswer]
    exact resolveIssuer_adminBinding (.inl rfl) _ (.inl rfl)
  have hknown : trust (adminBinding coSigner).userId = none ∨
      trust (adminBinding coSigner).userId = some (adminBinding coSigner).trustRecord := by
    rcases hcoSigner with rfl | rfl
    · exact .inr (Function.update_self ..)
    · exact .inl rfl
  have hsecond : resolveIssuer zeroVerifier (answersWith coSigner ⟨.replicate 16 2⟩) 0 trust =
      (some (adminInfo coSigner), Function.update trust (adminBinding coSigner).userId
        (some (adminBinding coSigner).trustRecord)) := by
    have hanswer : answersWith coSigner ⟨.replicate 16 2⟩ = _ := if_neg (by decide)
    rw [hanswer]
    exact resolveIssuer_adminBinding hcoSigner _ hknown
  set resolved : Id → Option IssuerInfo := Function.update
    (Function.update (fun _ => none) ⟨.replicate 16 1⟩ (some (adminInfo 1)))
      ⟨.replicate 16 2⟩ (some (adminInfo coSigner)) with hresolved
  have hresolves : (resolveIssuers zeroVerifier (answersWith coSigner) 0
      [⟨.replicate 16 1⟩, ⟨.replicate 16 2⟩] (fun _ => none)).1 = resolved := by
    simp only [resolveIssuers, List.foldl_cons, List.foldl_nil, resolveNext, hfirst, hsecond,
      hresolved]
  have hverify : TombstoneSet.verifyAuthenticatedUnanchored [dualRecord coSigner] resolved =
      .ok ⟨[dualRevocation]⟩ := by
    rw [hresolved]
    rcases hcoSigner with rfl | rfl
    · decide +kernel
    · decide +kernel
  rw [← hresolves, ← hissuers] at hverify
  exact ⟨_, buildTombstones_unanchored hverify⟩

lemma oneUserPerKey_twoAdmins :
    letI := asciiNormalization
    letI := twoAdminsEd25519
    zeroVerifier.OneUserPerKey := by
  let _ := asciiNormalization
  let _ := twoAdminsEd25519
  have hadmins : ∀ b, zeroVerifier.Signed b → b.userId = ⟨.replicate 16 b.sigPub.bytes.head⟩ := by
    rintro b ⟨sig, hsig⟩
    obtain ⟨-, hmem⟩ := checkSignature_zeroVerifier.mp hsig
    rcases List.mem_cons.mp hmem with rfl | hmem
    · rfl
    · obtain rfl := List.mem_singleton.mp hmem
      rfl
  intro b b' hb hb' hsame
  rw [hadmins b hb, hadmins b' hb', hsame]

lemma take_of_verifySig {d : Decoded} {k : Bytes 32} {sig : Bytes 64} :
    letI := twoAdminsEd25519
    d.verifySig k sig = true → sig.toList.take 32 = k.toList := by
  let _ := asciiNormalization
  let _ := twoAdminsEd25519
  intro h
  obtain ⟨msg, hmsg⟩ := exists_of_verifySig h
  exact (verifyStrict_keyShowing.mp hmsg).1

lemma recordSignaturesExclusive_twoAdmins :
    letI := twoAdminsEd25519
    RecordSignaturesExclusive := by
  let _ := twoAdminsEd25519
  intro d k k' sig hk hk'
  have hprefix := take_of_verifySig hk
  rw [take_of_verifySig hk'] at hprefix
  exact (List.Vector.eq _ _ hprefix).symm

theorem dualControl_iff_twoAdmins :
    letI := asciiNormalization
    letI := tailSha256
    letI := twoAdminsEd25519
    DualControlHolds zeroVerifier (.answered (some [dualRecord 2])) ⟨[dualRevocation]⟩ ↔
      AnswersName (.answered (some [dualRecord 2])) (answersWith 2) := by
  let _ := asciiNormalization
  let _ := tailSha256
  let _ := twoAdminsEd25519
  obtain ⟨trust, hbuild⟩ := exists_build (.inr rfl)
  exact dualControl_iff oneUserPerKey_twoAdmins recordSignaturesExclusive_twoAdmins hbuild

/-- The server answers for the second admin with the binding of the first, who signs twice. -/
theorem dualControl_oneAdmin :
    letI := asciiNormalization
    letI := tailSha256
    letI := twoAdminsEd25519
    ¬ ∀ verifier answer lookups anchoredHead nowMs trust trust' set,
      verifier.OneUserPerKey → RecordSignaturesExclusive →
      runFrom (buildTombstones verifier answer lookups anchoredHead nowMs) trust =
        (.ok set, trust') →
      DualControlHolds verifier answer set := by
  let _ := asciiNormalization
  let _ := tailSha256
  let _ := twoAdminsEd25519
  intro hclaim
  obtain ⟨trust, hbuild⟩ := exists_build (.inl rfl)
  have hholds := hclaim _ _ _ _ _ _ _ _ oneUserPerKey_twoAdmins
    recordSignaturesExclusive_twoAdmins hbuild
  have hdual : DualControlled dualRevocation := .inl ⟨_, rfl, rfl⟩
  obtain ⟨issuer, coSigner, coId, coSig, hcoId, hcoSig, -, -, hadmin, -⟩ :=
    hholds _ rfl 0 _ _ rfl rfl hdual
  cases hcoId
  cases hcoSig
  obtain ⟨⟨sig, hsig⟩, hnames, -, hverifies⟩ := hadmin
  obtain ⟨-, hmem⟩ := checkSignature_zeroVerifier.mp hsig
  rcases List.mem_cons.mp hmem with rfl | hmem
  · exact absurd hnames (by decide)
  · obtain rfl := List.mem_singleton.mp hmem
    exact absurd (take_of_verifySig hverifies) (by decide)

end MaxSecu
