import MaxSecu.Server.UsernameIdentity

/-!
# Login keys and bindings

A login is checked against the key in the row of the user, and a binding is served from the history
of the bindings, so two tables must agree on the newest key.  `KeyTable` is what both show, and a
`KeyPolicy` says what a published binding does to them: whether it replaces the one that is served,
and whether its key is written to the row of the user.  Both stores refine it (`KeyLedger`).

The store in memory never writes the row of a user again, so its login key stays behind a newer
binding.  The database writes it on every publication, so an older binding that is published again
brings its key back.  What is served is the newest binding in both; the login key is its key all
along a run exactly when no publication sets the two apart (`loginKey_follows_iff`).
-/

namespace MaxSecu

open ExceptRules GuardedUpdate AssociationList DirectoryRequest

/-! ## Tables of keys -/

/-- The records that logins are checked against, and the bindings that are served. -/
@[ext] structure KeyTable where
  users : String → Option UserRecord
  served : Id → Option StoredBinding

/-- What a store does with a published binding: does it replace the one of the current version, are
its keys written to the row of its user, is it taken at all. -/
structure KeyPolicy [UnicodeNormalization] where
  replaces : UInt64 → UInt64 → Bool
  mirrors : Bool
  Takes : DirBinding → Prop
  le_of_replaces : ∀ {current new}, replaces current new = true → current ≤ new
  le_of_not_replaces : ∀ {current new}, replaces current new = false → new ≤ current

namespace KeyTable

variable [UnicodeNormalization]

/-- The version of the binding served for the user. -/
def version (T : KeyTable) (userId : Id) : Option UInt64 :=
  (T.served userId).bind fun row =>
    (decode DirBinding row.bindingBytes).toOption.map DirBinding.keyVersion

/-- Each login key is the key in the binding served for its user. -/
def Follows (T : KeyTable) : Prop :=
  ∀ name user, T.users name = some user → ∃ row b, T.served user.userId = some row ∧
    decode DirBinding row.bindingBytes = .ok b ∧ b.sigPub.bytes = user.sigPub

def enroll (T : KeyTable) (name : String) (user : UserRecord) (row : StoredBinding) : KeyTable where
  users := Function.update T.users name (some user)
  served := Function.update T.served user.userId (some row)

/-- The keys of the binding, if the record is of its user. -/
def rekey (b : DirBinding) (user : UserRecord) : UserRecord :=
  if user.userId = b.userId then ⟨user.userId, b.encPub.bytes, b.sigPub.bytes⟩ else user

/-- The binding is newer than the one served, as the policy counts, or none is served. -/
def takesOver (policy : KeyPolicy) (T : KeyTable) (b : DirBinding) : Bool :=
  (T.version b.userId).all fun current => policy.replaces current b.keyVersion

def publish (policy : KeyPolicy) (T : KeyTable) (b : DirBinding) (row : StoredBinding) :
    KeyTable where
  users := if policy.mirrors then fun name => (T.users name).map (rekey b) else T.users
  served :=
    if takesOver policy T b then Function.update T.served b.userId (some row) else T.served

/-- The binding is served from now on exactly when its key is the login key from now on, or its key
is the login key already. -/
def KeepsKey (policy : KeyPolicy) (T : KeyTable) (b : DirBinding) : Prop :=
  ∀ name user current, T.users name = some user → user.userId = b.userId →
    T.version b.userId = some current →
    policy.replaces current b.keyVersion = policy.mirrors ∨ b.sigPub.bytes = user.sigPub

variable {T : KeyTable} {policy : KeyPolicy} {b : DirBinding} {row : StoredBinding}

lemma version_eq {userId : Id} (hrow : T.served userId = some row)
    (hb : decode DirBinding row.bindingBytes = .ok b) : T.version userId = some b.keyVersion := by
  unfold version
  rw [hrow, Option.bind_some, hb]
  rfl

lemma publish_served_of_takesOver (h : takesOver policy T b = true) :
    (T.publish policy b row).served = Function.update T.served b.userId (some row) := by
  unfold publish
  rw [h, if_pos rfl]

lemma publish_served_of_not (h : takesOver policy T b = false) :
    (T.publish policy b row).served = T.served := by
  unfold publish
  rw [h, if_neg Bool.false_ne_true]

lemma follows_enroll {name : String} {user : UserRecord} (h : T.Follows)
    (hfresh : T.served user.userId = none) (hb : decode DirBinding row.bindingBytes = .ok b)
    (hkey : b.sigPub.bytes = user.sigPub) : (T.enroll name user row).Follows := by
  intro name' user' huser'
  by_cases hname : name' = name
  · rw [hname] at huser'
    obtain rfl : user = user' := by simpa [enroll] using huser'
    exact ⟨row, b, by simp [enroll], hb, hkey⟩
  · have hold : T.users name' = some user' := by simpa [enroll, hname] using huser'
    obtain ⟨row', b', hrow', hb', hkey'⟩ := h name' user' hold
    have hother : user'.userId ≠ user.userId := by
      intro hid
      rw [hid, hfresh] at hrow'
      exact absurd hrow' (by simp)
    exact ⟨row', b', by simpa [enroll, hother] using hrow', hb', hkey'⟩

lemma follows_publish_user {name : String} {user : UserRecord} {row' : StoredBinding}
    {b' : DirBinding} (huser : T.users name = some user)
    (hrow' : T.served user.userId = some row')
    (hb' : decode DirBinding row'.bindingBytes = .ok b') (hkey' : b'.sigPub.bytes = user.sigPub)
    (hb : decode DirBinding row.bindingBytes = .ok b) :
    (∀ user', (T.publish policy b row).users name = some user' → ∃ row₁ b₁,
      (T.publish policy b row).served user'.userId = some row₁ ∧
      decode DirBinding row₁.bindingBytes = .ok b₁ ∧ b₁.sigPub.bytes = user'.sigPub) ↔
    (user.userId = b.userId → policy.replaces b'.keyVersion b.keyVersion = policy.mirrors ∨
      b.sigPub.bytes = user.sigPub) := by
  by_cases hid : user.userId = b.userId
  · have hversion : T.version b.userId = some b'.keyVersion := version_eq (hid ▸ hrow') hb'
    have hserved : (T.publish policy b row).served b.userId =
        some (if policy.replaces b'.keyVersion b.keyVersion then row else row') := by
      unfold publish takesOver
      rw [hversion, Option.all_some]
      cases policy.replaces b'.keyVersion b.keyVersion with
      | false => simpa [hid] using hrow'
      | true => simp
    have husers : (T.publish policy b row).users name =
        some (if policy.mirrors then ⟨b.userId, b.encPub.bytes, b.sigPub.bytes⟩ else user) := by
      unfold publish rekey
      cases policy.mirrors with
      | false => simpa using huser
      | true => simp [huser, hid]
    -- the key in the binding served and the login key, old or new
    simp only [husers, Option.some.injEq, forall_eq', hid, true_implies]
    cases hreplaces : policy.replaces b'.keyVersion b.keyVersion with
    | false =>
      cases hmirrors : policy.mirrors with
      | false => simp [hserved, hreplaces, hid, hb', hkey']
      | true => simp [hserved, hreplaces, hb', hkey', eq_comm]
    | true =>
      cases hmirrors : policy.mirrors with
      | false => simp [hserved, hreplaces, hid, hb]
      | true => simp [hserved, hreplaces, hb]
  · have hserved : (T.publish policy b row).served user.userId = some row' := by
      unfold publish
      cases takesOver policy T b with
      | false => simpa using hrow'
      | true => simpa [Function.update_of_ne hid] using hrow'
    have husers : (T.publish policy b row).users name = some user := by
      unfold publish rekey
      cases policy.mirrors with
      | false => simpa using huser
      | true => simp [huser, hid]
    simp [husers, hserved, hb', hkey', hid]

lemma follows_publish_iff (h : T.Follows) (hb : decode DirBinding row.bindingBytes = .ok b) :
    (T.publish policy b row).Follows ↔ T.KeepsKey policy b := by
  constructor
  · intro hafter name user current huser hid hcurrent
    obtain ⟨row', b', hrow', hb', hkey'⟩ := h name user huser
    have hversion := version_eq (hid ▸ hrow') hb'
    obtain rfl := Option.some.inj (hversion.symm.trans hcurrent)
    exact (follows_publish_user huser hrow' hb' hkey' hb).mp (hafter name) hid
  · intro hkeeps name user' huser'
    have hsome : ∃ user, T.users name = some user := by
      unfold publish at huser'
      cases hmirrors : policy.mirrors with
      | false => exact ⟨user', by simpa [hmirrors] using huser'⟩
      | true =>
        obtain ⟨user, huser, _⟩ : ∃ user, T.users name = some user ∧ rekey b user = user' := by
          simpa [hmirrors] using huser'
        exact ⟨user, huser⟩
    obtain ⟨user, huser⟩ := hsome
    obtain ⟨row', b', hrow', hb', hkey'⟩ := h name user huser
    refine (follows_publish_user huser hrow' hb' hkey' hb).mpr ?_ user' huser'
    intro hid
    exact hkeeps name user b'.keyVersion huser hid (version_eq (hid ▸ hrow') hb')

end KeyTable

/-! ## Runs -/

/-- The user, the version and the key of the binding that the request had accepted. -/
def DirectoryRequest.accepted [UnicodeNormalization] :
    DirectoryRequest × DirectoryResponse → Option (Id × UInt64 × Bytes 32)
  | (.register req _ _ _, .registered (.ok id)) => req.sigPub.map fun key => (id, 1, key)
  | (.publish (some bytes) _, .published (.ok ())) =>
    (decode DirBinding bytes).toOption.map fun b => (b.userId, b.keyVersion, b.sigPub.bytes)
  | _ => none

section

variable {σ : Type} [UnicodeNormalization] [Ed25519] [Sha256]

/-- The request publishes a binding that the directory key signed and that the store takes. -/
structure Publishes (cfg : DirectoryConfig) (policy : KeyPolicy) (request : DirectoryRequest)
    (b : DirBinding) (row : StoredBinding) : Prop where
  request_eq : request = .publish (some row.bindingBytes) (some row.signature)
  decoded : decode DirBinding row.bindingBytes = .ok b
  signed : Signed cfg b row.signature
  taken : policy.Takes b

/-- What a request does to the table: nothing, or it enrolls a new user, or it publishes. -/
inductive KeyStep (cfg : DirectoryConfig) (policy : KeyPolicy) (T : KeyTable) :
    DirectoryRequest × DirectoryResponse → KeyTable → Prop
  | same {x} : accepted x = none → (∀ b row, ¬ Publishes cfg policy x.1 b row) →
      KeyStep cfg policy T x T
  | enroll {x} (name : String) (user : UserRecord) (row : StoredBinding) (b : DirBinding) :
      accepted x = some (user.userId, 1, user.sigPub) →
      (∀ b row, ¬ Publishes cfg policy x.1 b row) →
      T.served user.userId = none → decode DirBinding row.bindingBytes = .ok b →
      b.keyVersion = 1 → b.sigPub.bytes = user.sigPub →
      KeyStep cfg policy T x (T.enroll name user row)
  | publish {x} (b : DirBinding) (row : StoredBinding) :
      accepted x = some (b.userId, b.keyVersion, b.sigPub.bytes) → Publishes cfg policy x.1 b row →
      KeyStep cfg policy T x (T.publish policy b row)

/-- A registration draws an id that no binding is stored under. -/
def DrawsFresh (store : DirectoryStore σ) (s : σ) : DirectoryRequest → Prop
  | .register _ userId _ _ => store.bindingByUserId userId s = .ok none
  | _ => True

/-- The request gets the response, and if it registers it draws a fresh id. -/
def RunsFresh (cfg : DirectoryConfig) (store : DirectoryStore σ) (s : σ)
    (x : DirectoryRequest × DirectoryResponse) (t : σ) : Prop :=
  Runs cfg store s x t ∧ DrawsFresh store s x.1

section Requests

variable {cfg : DirectoryConfig} {store : DirectoryStore σ} {s t : σ}
  {response : DirectoryResponse}

omit [Sha256] in
lemma publishBinding_signed {bytes : List UInt8} {sig : Bytes 64} {b : DirBinding}
    (hdecode : decode DirBinding bytes = .ok b) (hsigned : Signed cfg b sig) :
    runFrom (publishBinding cfg store (some bytes) (some sig)) s =
      runFrom (ExceptT.adapt PublishError.internal
        (store.putBinding b.userId b.keyVersion ⟨bytes, sig⟩)) s := by
  obtain ⟨dirPub, hpub, hverified⟩ := hsigned
  unfold publishBinding
  rw [runFrom_orFail_bind, hpub, Option.elim_some, runFrom_orFail_bind, Option.elim_some,
    runFrom_orFail_bind, Option.elim_some, runFrom_liftM_bind, hdecode]
  simp only [Except.mapError]
  rw [runFrom_bind, runFrom_failIf, if_neg (by simp [hverified])]

/-- A registration is refused and changes nothing, or it enrolls under the drawn id, with a binding
of its keys. -/
lemma runs_register_cases (henroll : ∀ args dbNowMs, Atomic (store.enroll args dbNowMs))
    {req : RegisterReq} {userId : Id} {nowMs dbNowMs : UInt64}
    (h : Runs cfg store s (.register req userId nowMs dbNowMs, response) t) :
    (t = s ∧ accepted (.register req userId nowMs dbNowMs, response) = none) ∨
      ∃ args isAdmin b, args.userId = userId ∧
        accepted (.register req userId nowMs dbNowMs, response) = some (userId, 1, args.sigPub) ∧
        decode DirBinding (args.binding isAdmin).bindingBytes = .ok b ∧ b.userId = userId ∧
        b.keyVersion = 1 ∧ b.encPub.bytes = args.encPub ∧ b.sigPub.bytes = args.sigPub ∧
        runFrom (store.enroll args dbNowMs) s = (.ok isAdmin, t) := by
  obtain ⟨delegation, r, rfl, hregister⟩ := runs_register h
  cases r with
  | error e => exact .inl ⟨atomic_register henroll s e t hregister, rfl⟩
  | ok id =>
    obtain ⟨rfl, encPub, sigPub, username, signer, mlkemPub, isAdmin, _, hsig, _, hrun⟩ :=
      register_ok hregister
    have haccepted : accepted (.register req id nowMs dbNowMs, .registered (.ok id)) =
        some (id, 1, sigPub) := by
      show req.sigPub.map (fun key => (id, (1 : UInt64), key)) = _
      rw [hsig]
      rfl
    refine .inr ⟨_, isAdmin, enrollmentBinding username id encPub sigPub mlkemPub
      (.new (if isAdmin then [.user, .admin] else [.user])), rfl, haccepted, ?_, rfl, rfl, rfl, rfl,
      hrun⟩
    cases isAdmin with
    | false => exact UsernameIdentity.decode_signBinding _ _
    | true => exact UsernameIdentity.decode_signBinding _ _

lemma runs_publish_cases {policy : KeyPolicy}
    (hput : ∀ userId keyVersion row, Atomic (store.putBinding userId keyVersion row))
    (htakes : ∀ {b : DirBinding} {row : StoredBinding},
      decode DirBinding row.bindingBytes = .ok b → ∀ s,
      (runFrom (store.putBinding b.userId b.keyVersion row) s).1 = .ok () ↔ policy.Takes b)
    {binding : Option (List UInt8)} {signature : Option (Bytes 64)}
    (h : Runs cfg store s (.publish binding signature, response) t) :
    (t = s ∧ accepted (.publish binding signature, response) = none ∧
        ∀ b row, ¬ Publishes cfg policy (.publish binding signature) b row) ∨
      ∃ b row, accepted (.publish binding signature, response) =
          some (b.userId, b.keyVersion, b.sigPub.bytes) ∧
        Publishes cfg policy (.publish binding signature) b row ∧
        runFrom (store.putBinding b.userId b.keyVersion row) s = (.ok (), t) := by
  obtain ⟨r, rfl, hrun⟩ := runs_publish h
  cases r with
  | error e =>
    refine .inl ⟨atomic_publishBinding hput s e t hrun, ?_, ?_⟩
    · cases binding with
      | none => rfl
      | some bytes => rfl
    · intro b row hpublishes
      obtain ⟨rfl, rfl⟩ := DirectoryRequest.publish.inj hpublishes.request_eq
      have hok := (htakes hpublishes.decoded s).mpr hpublishes.taken
      rw [publishBinding_signed hpublishes.decoded hpublishes.signed, runFrom_adapt] at hrun
      have hfailed := (Prod.mk.inj hrun).1
      rw [hok] at hfailed
      exact absurd hfailed (by simp [Except.mapError])
  | ok u =>
    obtain ⟨bytes, sig, b, rfl, rfl, hdecode, hsigned, hok⟩ := publishBinding_ok hrun
    refine .inr ⟨b, ⟨bytes, sig⟩, ?_, ⟨rfl, hdecode, hsigned, ?_⟩, hok⟩
    · unfold accepted
      simp only [hdecode]
      rfl
    · exact (@htakes b ⟨bytes, sig⟩ hdecode s).mp (congrArg Prod.fst hok)

end Requests

/-- A store that refines the table of keys: what its operations do to the table. -/
structure KeyLedger (store : DirectoryStore σ) (policy : KeyPolicy) where
  table : σ → KeyTable
  Inv : σ → Prop
  userByName_iff : ∀ {s name user},
    store.userByName name s = .ok (some user) ↔ (table s).users name = some user
  bindingByUsername_eq : ∀ {s name user}, (table s).users name = some user →
    store.bindingByUsername name s = .ok ((table s).served user.userId)
  bindingByUserId_eq : ∀ s userId, store.bindingByUserId userId s = .ok ((table s).served userId)
  issued : ∀ {keyHash expiresAtMs s r t},
    runFrom (store.issueRegistrationKey keyHash expiresAtMs) s = (r, t) → Inv s →
    Inv t ∧ table t = table s
  enroll_atomic : ∀ args dbNowMs, Atomic (store.enroll args dbNowMs)
  enrolled : ∀ {args dbNowMs s isAdmin t b},
    runFrom (store.enroll args dbNowMs) s = (.ok isAdmin, t) → Inv s →
    (table s).served args.userId = none →
    decode DirBinding (args.binding isAdmin).bindingBytes = .ok b → b.keyVersion = 1 →
    b.encPub.bytes = args.encPub → b.sigPub.bytes = args.sigPub →
    Inv t ∧ table t = (table s).enroll args.username ⟨args.userId, args.encPub, args.sigPub⟩
      (args.binding isAdmin)
  put_atomic : ∀ userId keyVersion row, Atomic (store.putBinding userId keyVersion row)
  put_ok_iff : ∀ {b row}, decode DirBinding row.bindingBytes = .ok b → ∀ s,
    (runFrom (store.putBinding b.userId b.keyVersion row) s).1 = .ok () ↔ policy.Takes b
  put : ∀ {b row s t}, runFrom (store.putBinding b.userId b.keyVersion row) s = (.ok (), t) →
    Inv s → decode DirBinding row.bindingBytes = .ok b →
    Inv t ∧ table t = (table s).publish policy b row

/-- The login key of each user is the key in the binding served under its name and under its id. -/
def KeyServed (store : DirectoryStore σ) (s : σ) : Prop :=
  ∀ name user, store.userByName name s = .ok (some user) → ∃ row b,
    store.bindingByUsername name s = .ok (some row) ∧
    store.bindingByUserId user.userId s = .ok (some row) ∧
    decode DirBinding row.bindingBytes = .ok b ∧ b.sigPub.bytes = user.sigPub

/-- The path had a binding of the user, with this version and key, accepted. -/
def Accepted (path : DirectoryPath σ) (userId : Id) (keyVersion : UInt64) (key : Bytes 32) : Prop :=
  ∃ x ∈ path, accepted x.2 = some (userId, keyVersion, key)

/-- The binding that is served was accepted, and is as new as any accepted for its user. -/
def ServesNewest (store : DirectoryStore σ) (path : DirectoryPath σ) (s : σ) : Prop :=
  ∀ userId row, store.bindingByUserId userId s = .ok (some row) → ∃ b,
    decode DirBinding row.bindingBytes = .ok b ∧
    Accepted path userId b.keyVersion b.sigPub.bytes ∧
    ∀ keyVersion key, Accepted path userId keyVersion key → keyVersion ≤ b.keyVersion

/-- If the request publishes: for each user it is for, with a binding served, the new binding
replaces that one exactly when its key becomes the login key, or its key is the login key. -/
def KeepsKey (cfg : DirectoryConfig) (store : DirectoryStore σ) (policy : KeyPolicy) (s : σ)
    (request : DirectoryRequest) : Prop :=
  ∀ b row, Publishes cfg policy request b row → ∀ name user row' b',
    store.userByName name s = .ok (some user) → user.userId = b.userId →
    store.bindingByUserId b.userId s = .ok (some row') →
    decode DirBinding row'.bindingBytes = .ok b' →
    policy.replaces b'.keyVersion b.keyVersion = policy.mirrors ∨ b.sigPub.bytes = user.sigPub

/-- What is served is the newest of what was accepted, and a user of whom a binding was accepted has
one served. -/
structure KeyTable.Newest (path : DirectoryPath σ) (T : KeyTable) : Prop where
  served : ∀ userId row, T.served userId = some row → ∃ b,
    decode DirBinding row.bindingBytes = .ok b ∧
    Accepted path userId b.keyVersion b.sigPub.bytes ∧
    ∀ keyVersion key, Accepted path userId keyVersion key → keyVersion ≤ b.keyVersion
  known : ∀ userId keyVersion key, Accepted path userId keyVersion key →
    ∃ row, T.served userId = some row

section Newest

variable {cfg : DirectoryConfig} {policy : KeyPolicy} {T T' : KeyTable} {path : DirectoryPath σ}
  {s : σ} {x : DirectoryRequest × DirectoryResponse}

omit [Ed25519] [Sha256] in
lemma accepted_append {userId : Id} {keyVersion : UInt64} {key : Bytes 32} :
    Accepted (path ++ [(s, x)]) userId keyVersion key ↔
      Accepted path userId keyVersion key ∨ accepted x = some (userId, keyVersion, key) := by
  simp [Accepted, or_and_right, exists_or]

omit [Ed25519] [Sha256] in
/-- The binding of one user changes, to one that was accepted and is as new as those before. -/
lemma KeyTable.Newest.update (h : T.Newest path) {b : DirBinding} {row : StoredBinding}
    {userId : Id} (haccepted : accepted x = some (userId, b.keyVersion, b.sigPub.bytes))
    (hb : decode DirBinding row.bindingBytes = .ok b)
    (hnewest : ∀ keyVersion key, Accepted path userId keyVersion key → keyVersion ≤ b.keyVersion)
    (hserved : T'.served = Function.update T.served userId (some row)) :
    T'.Newest (path ++ [(s, x)]) := by
  constructor
  · intro userId' row' hrow'
    by_cases hid : userId' = userId
    · obtain rfl : row = row' := by simpa [hserved, hid] using hrow'
      rw [hid]
      refine ⟨b, hb, accepted_append.mpr (.inr haccepted), ?_⟩
      intro keyVersion key hkey
      obtain hold | hnew := accepted_append.mp hkey
      · exact hnewest keyVersion key hold
      · rw [haccepted] at hnew
        obtain ⟨-, hversion, -⟩ : userId = userId ∧ b.keyVersion = keyVersion ∧
            b.sigPub.bytes = key := by simpa using hnew
        exact hversion ▸ UInt64.le_refl _
    · have hold : T.served userId' = some row' := by simpa [hserved, hid] using hrow'
      obtain ⟨b', hb', haccepted', hmax⟩ := h.served userId' row' hold
      refine ⟨b', hb', accepted_append.mpr (.inl haccepted'), ?_⟩
      intro keyVersion key hkey
      obtain hkey | hkey := accepted_append.mp hkey
      · exact hmax keyVersion key hkey
      · rw [haccepted] at hkey
        exact absurd (Prod.mk.inj (Option.some.inj hkey)).1.symm hid
  · intro userId' keyVersion key hkey
    by_cases hid : userId' = userId
    · exact ⟨row, by simp [hserved, hid]⟩
    · obtain hkey | hkey := accepted_append.mp hkey
      · obtain ⟨row', hrow'⟩ := h.known userId' keyVersion key hkey
        exact ⟨row', by simpa [hserved, hid] using hrow'⟩
      · rw [haccepted] at hkey
        exact absurd (Prod.mk.inj (Option.some.inj hkey)).1.symm hid

omit [Ed25519] [Sha256] in
lemma KeyTable.Newest.keep (h : T.Newest path)
    (holder : ∀ userId keyVersion key, accepted x = some (userId, keyVersion, key) →
      ∃ current, T.version userId = some current ∧ keyVersion ≤ current)
    (hserved : T'.served = T.served) : T'.Newest (path ++ [(s, x)]) := by
  constructor
  · intro userId row hrow
    rw [hserved] at hrow
    obtain ⟨b, hb, haccepted, hmax⟩ := h.served userId row hrow
    refine ⟨b, hb, accepted_append.mpr (.inl haccepted), ?_⟩
    intro keyVersion key hkey
    obtain hkey | hkey := accepted_append.mp hkey
    · exact hmax keyVersion key hkey
    · obtain ⟨current, hcurrent, hle⟩ := holder userId keyVersion key hkey
      rw [KeyTable.version_eq hrow hb] at hcurrent
      exact Option.some.inj hcurrent ▸ hle
  · intro userId keyVersion key hkey
    rw [hserved]
    obtain hkey | hkey := accepted_append.mp hkey
    · exact h.known userId keyVersion key hkey
    · obtain ⟨current, hcurrent, _⟩ := holder userId keyVersion key hkey
      obtain ⟨row, hrow, _⟩ := Option.bind_eq_some_iff.mp hcurrent
      exact ⟨row, hrow⟩

omit [Sha256] in
lemma KeyTable.Newest.next (h : T.Newest path) (hstep : KeyStep cfg policy T x T') :
    T'.Newest (path ++ [(s, x)]) := by
  cases hstep with
  | same hnone _ =>
    refine h.keep ?_ rfl
    intro userId keyVersion key hkey
    exact absurd (hnone.symm.trans hkey) (by simp)
  | enroll name user row b haccepted _ hfresh hb hversion hkey =>
    rw [← hversion, ← hkey] at haccepted
    refine h.update haccepted hb ?_ rfl
    intro keyVersion key hold
    obtain ⟨row', hrow'⟩ := h.known _ _ _ hold
    exact absurd (hfresh.symm.trans hrow') (by simp)
  | publish b row haccepted hpublishes =>
    cases htakes : T.takesOver policy b with
    | true =>
      refine h.update haccepted hpublishes.decoded ?_ (KeyTable.publish_served_of_takesOver htakes)
      intro keyVersion key hold
      obtain ⟨row', hrow'⟩ := h.known _ _ _ hold
      obtain ⟨b', hb', _, hmax⟩ := h.served _ row' hrow'
      have hreplaces : policy.replaces b'.keyVersion b.keyVersion = true := by
        simpa [KeyTable.takesOver, KeyTable.version_eq hrow' hb'] using htakes
      exact UInt64.le_trans (hmax keyVersion key hold) (policy.le_of_replaces hreplaces)
    | false =>
      refine h.keep ?_ (KeyTable.publish_served_of_not htakes)
      intro userId keyVersion key hnew
      rw [haccepted] at hnew
      obtain ⟨rfl, rfl, rfl⟩ : b.userId = userId ∧ b.keyVersion = keyVersion ∧
          b.sigPub.bytes = key := by simpa using hnew
      obtain ⟨current, hcurrent, hnot⟩ : ∃ current, T.version b.userId = some current ∧
          policy.replaces current b.keyVersion = false := by
        unfold KeyTable.takesOver at htakes
        cases hversion : T.version b.userId with
        | none => simp [hversion] at htakes
        | some current => exact ⟨current, rfl, by simpa [hversion] using htakes⟩
      exact ⟨current, hcurrent, policy.le_of_not_replaces hnot⟩

end Newest

namespace KeyLedger

variable {cfg : DirectoryConfig} {store : DirectoryStore σ} {policy : KeyPolicy}
  (ledger : KeyLedger store policy) {s t : σ} {path : DirectoryPath σ}

include ledger

omit [Ed25519] [Sha256] in
lemma keyServed_iff : KeyServed store s ↔ (ledger.table s).Follows := by
  constructor
  · intro h name user huser
    obtain ⟨row, b, _, hrow, hb, hkey⟩ := h name user (ledger.userByName_iff.mpr huser)
    rw [ledger.bindingByUserId_eq] at hrow
    exact ⟨row, b, Except.ok.inj hrow, hb, hkey⟩
  · intro h name user huser
    have huser := ledger.userByName_iff.mp huser
    obtain ⟨row, b, hrow, hb, hkey⟩ := h name user huser
    refine ⟨row, b, ?_, ?_, hb, hkey⟩
    · rw [ledger.bindingByUsername_eq huser, hrow]
    · rw [ledger.bindingByUserId_eq, hrow]

lemma step {x : DirectoryRequest × DirectoryResponse} (hinv : ledger.Inv s)
    (hruns : RunsFresh cfg store s x t) :
    ledger.Inv t ∧ KeyStep cfg policy (ledger.table s) x (ledger.table t) := by
  obtain ⟨hruns, hfresh⟩ := hruns
  obtain ⟨request, response⟩ := x
  cases request with
  | issueKey keyHash expiresAtMs =>
    obtain ⟨_, rfl, hissue⟩ := runs_issueKey hruns
    obtain ⟨hinv', htable⟩ := ledger.issued hissue hinv
    rw [htable]
    exact ⟨hinv', .same rfl fun _ _ h => absurd h.request_eq (by simp)⟩
  | register req userId nowMs dbNowMs =>
    have hnot : ∀ b row, ¬ Publishes cfg policy (.register req userId nowMs dbNowMs) b row :=
      fun _ _ h => absurd h.request_eq (by simp)
    obtain ⟨rfl, hnone⟩ |
      ⟨args, isAdmin, b, rfl, haccepted, hb, _, hversion, henc, hkey, henroll⟩ :=
      runs_register_cases ledger.enroll_atomic hruns
    · exact ⟨hinv, .same hnone hnot⟩
    · have hserved : (ledger.table s).served args.userId = none :=
        Except.ok.inj ((ledger.bindingByUserId_eq s args.userId).symm.trans hfresh)
      obtain ⟨hinv', htable⟩ := ledger.enrolled henroll hinv hserved hb hversion henc hkey
      rw [htable]
      exact ⟨hinv', .enroll _ ⟨args.userId, args.encPub, args.sigPub⟩ _ b haccepted hnot hserved hb
        hversion hkey⟩
  | publish binding signature =>
    obtain ⟨rfl, hnone, hnot⟩ | ⟨b, row, haccepted, hpublishes, hok⟩ :=
      runs_publish_cases ledger.put_atomic ledger.put_ok_iff hruns
    · exact ⟨hinv, .same hnone hnot⟩
    · obtain ⟨hinv', htable⟩ := ledger.put hok hinv hpublishes.decoded
      rw [htable]
      exact ⟨hinv', .publish b row haccepted hpublishes⟩

omit [Sha256] in
lemma keepsKey_iff {request : DirectoryRequest} (h : (ledger.table s).Follows) :
    KeepsKey cfg store policy s request ↔
      ∀ b row, Publishes cfg policy request b row → (ledger.table s).KeepsKey policy b := by
  constructor
  · intro hkeeps b row hpublishes name user current huser hid hcurrent
    obtain ⟨row', b', hrow', hb', _⟩ := h name user huser
    rw [hid] at hrow'
    obtain rfl := Option.some.inj ((KeyTable.version_eq hrow' hb').symm.trans hcurrent)
    refine hkeeps b row hpublishes name user row' b' (ledger.userByName_iff.mpr huser) hid ?_ hb'
    rw [ledger.bindingByUserId_eq, hrow']
  · intro hkeeps b row hpublishes name user row' b' huser hid hrow' hb'
    rw [ledger.bindingByUserId_eq] at hrow'
    exact hkeeps b row hpublishes name user b'.keyVersion (ledger.userByName_iff.mp huser) hid
      (KeyTable.version_eq (Except.ok.inj hrow') hb')

/-- One request: if the login keys are the served ones before, they are so after exactly when the
request keeps the key. -/
lemma keyServed_step {x : DirectoryRequest × DirectoryResponse} (hinv : ledger.Inv s)
    (h : KeyServed store s) (hruns : RunsFresh cfg store s x t) :
    KeyServed store t ↔ KeepsKey cfg store policy s x.1 := by
  have hfollows := ledger.keyServed_iff.mp h
  rw [ledger.keyServed_iff, ledger.keepsKey_iff hfollows]
  obtain ⟨_, hstep⟩ := ledger.step hinv hruns
  generalize ledger.table t = T' at hstep
  cases hstep with
  | same _ hnot =>
    exact ⟨fun _ b row hpublishes => absurd hpublishes (hnot b row), fun _ => hfollows⟩
  | enroll name user row b _ hnot hfresh hb _ hkey =>
    refine ⟨fun _ b row hpublishes => absurd hpublishes (hnot b row), fun _ => ?_⟩
    exact KeyTable.follows_enroll hfollows hfresh hb hkey
  | publish b row _ hpublishes =>
    rw [KeyTable.follows_publish_iff hfollows hpublishes.decoded]
    constructor
    · intro hkeeps b₁ row₁ hpublishes₁
      have hrequest := hpublishes.request_eq.symm.trans hpublishes₁.request_eq
      have hbytes : row.bindingBytes = row₁.bindingBytes := by
        simpa using (DirectoryRequest.publish.inj hrequest).1
      have hdecoded := hpublishes₁.decoded
      rw [← hbytes, hpublishes.decoded] at hdecoded
      obtain rfl := Except.ok.inj hdecoded
      exact hkeeps
    · intro hkeeps
      exact hkeeps b row hpublishes

/-- **The newest binding is served.**  After a run from a state that serves no binding, what is
served was accepted and is as new as anything accepted for its user. -/
theorem serves_newest (hinv : ledger.Inv s)
    (hempty : ∀ userId, (ledger.table s).served userId = none)
    (hrun : LabelledRun (RunsFresh cfg store) s path t) : ServesNewest store path t := by
  have hnewest : ledger.Inv t ∧ (ledger.table t).Newest path := by
    induction hrun with
    | start => exact ⟨hinv, by simp [hempty], by simp [Accepted]⟩
    | step hrun hnext ih =>
      obtain ⟨hinv', hstep⟩ := ledger.step ih.1 hnext
      exact ⟨hinv', ih.2.next hstep⟩
  intro userId row hrow
  rw [ledger.bindingByUserId_eq] at hrow
  exact hnewest.2.served userId row (Except.ok.inj hrow)

/-- **The login key follows the binding served.**  Over a run from a state where the two agree, they
agree all along exactly when every publication keeps the key. -/
theorem follows_iff (hinv : ledger.Inv s) (h : KeyServed store s)
    (hrun : LabelledRun (RunsFresh cfg store) s path t) :
    ((∀ x ∈ path, KeyServed store x.1) ∧ KeyServed store t) ↔
      ∀ x ∈ path, KeepsKey cfg store policy x.1 x.2.1 := by
  have hkeep : ∀ t (x : DirectoryRequest × DirectoryResponse) u,
      ledger.Inv t ∧ KeyServed store t → KeepsKey cfg store policy t x.1 →
      RunsFresh cfg store t x u → ledger.Inv u ∧ KeyServed store u := by
    intro t x u ht hkeeps hruns
    exact ⟨(ledger.step ht.1 hruns).1, (ledger.keyServed_step ht.1 ht.2 hruns).mpr hkeeps⟩
  have hbreak : ∀ t (x : DirectoryRequest × DirectoryResponse) u,
      ledger.Inv t ∧ KeyServed store t → RunsFresh cfg store t x u → KeyServed store u →
      KeepsKey cfg store policy t x.1 := by
    intro t x u ht hruns hu
    exact (ledger.keyServed_step ht.1 ht.2 hruns).mp hu
  have hall := LabelledRun.all_iff ⟨hinv, h⟩ (fun _ ht => ht.2) hkeep hbreak hrun
  exact hall

end KeyLedger

end

/-! ## In memory -/

namespace MemoryDirectory

variable [UnicodeNormalization]

/-- A binding replaces one that is not newer; the login key stays. -/
def keyPolicy : KeyPolicy where
  replaces current new := current ≤ new
  mirrors := false
  Takes _ := True
  le_of_replaces := of_decide_eq_true
  le_of_not_replaces h := UInt64.le_of_lt (UInt64.not_le.mp (of_decide_eq_false h))

/-- The version kept beside a binding is its own. -/
def Versioned (s : MemoryDirectory) : Prop :=
  ∀ userId row, s.bindings.lookup userId = some row →
    ∃ b, decode DirBinding row.2.bindingBytes = .ok b ∧ b.keyVersion = row.1

def keyTable (s : MemoryDirectory) : KeyTable where
  users := s.users.lookup
  served userId := s.bindingByUserId userId

variable {s t : MemoryDirectory}

lemma keyTable_version (h : s.Versioned) (userId : Id) :
    s.keyTable.version userId = (s.bindings.lookup userId).map Prod.fst := by
  cases hrow : s.bindings.lookup userId with
  | none => simp [KeyTable.version, keyTable, bindingByUserId, hrow]
  | some row =>
    obtain ⟨b, hb, hversion⟩ := h userId row hrow
    have hserved : s.keyTable.served userId = some row.2 := by
      simp [keyTable, bindingByUserId, hrow]
    rw [KeyTable.version_eq hserved hb, hversion]
    rfl

omit [UnicodeNormalization] in
lemma putBinding_run {userId : Id} {keyVersion : UInt64} {row : StoredBinding} :
    runFrom (putBinding userId keyVersion row) s =
      (.ok (), { s with
        bindings :=
          if (s.bindings.lookup userId).all (fun current => current.1 ≤ keyVersion) then
            s.bindings.insert userId (keyVersion, row)
          else s.bindings }) := by
  unfold putBinding
  rw [runFrom_get_bind]
  cases s.bindings.lookup userId with
  | none => rfl
  | some current =>
    by_cases hnewer : current.1 ≤ keyVersion
    · simp only [hnewer, if_true, Option.all_some, decide_true]
      rfl
    · simp only [hnewer, if_false, Option.all_some, decide_false, Bool.false_eq_true]
      rfl

lemma versioned_empty : empty.Versioned := by
  intro userId row hrow
  exact absurd hrow (by simp [empty])

lemma putBinding_step {b : DirBinding} {row : StoredBinding}
    (hput : runFrom (putBinding b.userId b.keyVersion row) s = (.ok (), t)) (h : s.Versioned)
    (hb : decode DirBinding row.bindingBytes = .ok b) :
    t.Versioned ∧ t.keyTable = s.keyTable.publish keyPolicy b row := by
  rw [putBinding_run] at hput
  obtain rfl := (Prod.mk.inj hput).2
  have htakes : s.keyTable.takesOver keyPolicy b =
      (s.bindings.lookup b.userId).all fun current => current.1 ≤ b.keyVersion := by
    unfold KeyTable.takesOver
    rw [keyTable_version h, Option.all_map]
    rfl
  cases hnewer : (s.bindings.lookup b.userId).all fun current => current.1 ≤ b.keyVersion with
  | false =>
    simp only [Bool.false_eq_true, if_false]
    refine ⟨h, KeyTable.ext rfl ?_⟩
    rw [KeyTable.publish_served_of_not (htakes.trans hnewer)]
  | true =>
    simp only [if_true]
    constructor
    · intro userId row' hrow'
      obtain ⟨-, rfl⟩ | ⟨-, hold⟩ := lookup_insert_cases hrow'
      · exact ⟨b, hb, rfl⟩
      · exact h userId row' hold
    · refine KeyTable.ext rfl ?_
      rw [KeyTable.publish_served_of_takesOver (htakes.trans hnewer)]
      funext userId
      simp only [keyTable, bindingByUserId, lookup_insert_eq, Function.update_apply]
      by_cases hid : userId = b.userId
      · rw [if_pos hid, if_pos hid]
        rfl
      · rw [if_neg hid, if_neg hid]

lemma enroll_step {args : EnrollArgs} (dbNowMs : UInt64) {isAdmin : Bool} {b : DirBinding}
    (henroll : runFrom (enroll args dbNowMs) s = (.ok isAdmin, t)) (h : s.Versioned)
    (hb : decode DirBinding (args.binding isAdmin).bindingBytes = .ok b)
    (hversion : b.keyVersion = 1) :
    t.Versioned ∧ t.keyTable = s.keyTable.enroll args.username
      ⟨args.userId, args.encPub, args.sigPub⟩ (args.binding isAdmin) := by
  obtain ⟨_, _, _, rfl⟩ := enroll_ok dbNowMs henroll
  constructor
  · intro userId row hrow
    obtain ⟨-, rfl⟩ | ⟨-, hold⟩ := lookup_insert_cases hrow
    · exact ⟨b, hb, hversion⟩
    · exact h userId row hold
  · refine KeyTable.ext ?_ ?_
    · funext name
      simp only [keyTable, KeyTable.enroll, lookup_insert_eq, Function.update_apply]
    · funext userId
      simp only [keyTable, KeyTable.enroll, bindingByUserId, lookup_insert_eq,
        Function.update_apply]
      by_cases hid : userId = args.userId
      · rw [if_pos hid, if_pos hid]
        rfl
      · rw [if_neg hid, if_neg hid]

/-- The store in memory refines the table. -/
def keyLedger : KeyLedger store keyPolicy where
  table := keyTable
  Inv := Versioned
  userByName_iff := by simp [store, keyTable]
  bindingByUsername_eq := by
    intro s name user huser
    have huser : s.users.lookup name = some user := huser
    simp [store, bindingByUsername, huser, keyTable]
  bindingByUserId_eq := by simp [store, keyTable]
  issued := by
    intro keyHash expiresAtMs s r t hissue hinv
    obtain ⟨-, rfl⟩ := Prod.mk.inj hissue
    exact ⟨hinv, rfl⟩
  enroll_atomic := atomic_enroll
  enrolled := by
    intro args dbNowMs s isAdmin t b henroll hinv _ hb hversion _ _
    exact enroll_step dbNowMs henroll hinv hb hversion
  put_atomic := by
    intro userId keyVersion row s e t hrun
    have hrun : runFrom (putBinding userId keyVersion row) s = (.error e, t) := hrun
    rw [putBinding_run] at hrun
    exact absurd (Prod.mk.inj hrun).1 (by simp)
  put_ok_iff := by
    intro b row _ s
    have hok : (runFrom (putBinding b.userId b.keyVersion row) s).1 = .ok () := by
      rw [putBinding_run]
    exact ⟨fun _ => trivial, fun _ => hok⟩
  put := putBinding_step

end MemoryDirectory

/-! ## In the database -/

namespace PgDirectory

variable [UnicodeNormalization]

/-- A binding is served if it is newer, and its keys become those of its user in any case.  It has
to have a window that converts and a version that the column takes. -/
def keyPolicy : KeyPolicy where
  replaces current new := current < new
  mirrors := true
  Takes b := b.notBefore.millis ≤ MAX_TIMESTAMP_MS ∧ b.notAfter.millis ≤ MAX_TIMESTAMP_MS ∧
    1 ≤ asI64 b.keyVersion
  le_of_replaces h := UInt64.le_of_lt (of_decide_eq_true h)
  le_of_not_replaces h := UInt64.not_lt.mp (of_decide_eq_false h)

/-- The rows of the history are under their own versions. -/
def Versioned (t : PgDirectory) : Prop :=
  ∀ userId version row, t.directoryBindings.lookup (userId, version) = some row →
    ∃ b, decode DirBinding row.bindingBytes = .ok b ∧ asI64 b.keyVersion = version ∧ 1 ≤ version

def keyTable (t : PgDirectory) : KeyTable where
  users name := if isText name then t.users.lookup name else none
  served userId := t.bindingByUserId userId

omit [UnicodeNormalization] in
lemma asI64_le_iff {v w : UInt64} (hv : 1 ≤ asI64 v) (hw : 1 ≤ asI64 w) :
    asI64 v ≤ asI64 w ↔ v ≤ w := by
  unfold asI64 at *
  rw [BitVec.toInt_eq_toNat_cond] at hv hw ⊢
  rw [BitVec.toInt_eq_toNat_cond, UInt64.le_iff_toNat_le]
  simp only [UInt64.toNat_toBitVec] at hv hw ⊢
  have hv' := v.toNat_lt
  have hw' := w.toNat_lt
  split at hv <;> split at hw <;> omega

variable {t u : PgDirectory}

omit [UnicodeNormalization] in
lemma mem_history {userId : Id} {version : ℤ} {row : StoredBinding} :
    (version, row) ∈ t.history userId ↔
      t.directoryBindings.lookup (userId, version) = some row := by
  unfold history
  rw [mem_collect]
  constructor
  · intro h
    obtain ⟨key, hkey⟩ := h
    obtain ⟨row', hrow', hkey⟩ := Option.bind_eq_some_iff.mp hkey
    obtain ⟨hid, hversion, rfl⟩ : key.1 = userId ∧ key.2 = version ∧ row' = row := by
      simpa using hkey
    rw [← hid, ← hversion]
    exact hrow'
  · intro h
    exact ⟨(userId, version), by simp [h]⟩

omit [UnicodeNormalization] in
lemma bindingByUserId_eq_some {userId : Id} {row : StoredBinding} :
    t.bindingByUserId userId = some row ↔ ∃ version,
      t.directoryBindings.lookup (userId, version) = some row ∧
      ∀ version' row', t.directoryBindings.lookup (userId, version') = some row' →
        version' ≤ version := by
  have hkey : ∀ x ∈ t.history userId, ∀ y ∈ t.history userId, x.1 = y.1 → x = y := by
    intro x hx y hy hversion
    have hx := mem_history.mp hx
    have hy := mem_history.mp hy
    rw [hversion] at hx
    exact Prod.ext hversion (Option.some.inj (hx.symm.trans hy))
  unfold bindingByUserId
  rw [Option.map_eq_some_iff]
  simp only [maxOn?_eq_some_iff hkey, Prod.exists, exists_eq_right, Prod.forall, mem_history]

omit [UnicodeNormalization] in
lemma bindingByUserId_congr {userId : Id}
    (h : ∀ version, u.directoryBindings.lookup (userId, version) =
      t.directoryBindings.lookup (userId, version)) :
    u.bindingByUserId userId = t.bindingByUserId userId := by
  ext row
  rw [bindingByUserId_eq_some, bindingByUserId_eq_some]
  simp only [h]

lemma checkedBinding_eq_ok {op : String} {bytes : List UInt8} {b : DirBinding} :
    checkedBinding op bytes = .ok b ↔ decode DirBinding bytes = .ok b ∧
      b.notBefore.millis ≤ MAX_TIMESTAMP_MS ∧ b.notAfter.millis ≤ MAX_TIMESTAMP_MS := by
  have hts : ∀ ms, (∃ v, tryMsToTs ms op = .ok v) ↔ ms ≤ MAX_TIMESTAMP_MS := by
    intro ms
    unfold tryMsToTs
    by_cases hlate : MAX_TIMESTAMP_MS < ms
    · rw [if_pos hlate]
      simpa using hlate
    · rw [if_neg hlate]
      simpa using hlate
  unfold checkedBinding
  rw [bind_eq_ok]
  constructor
  · intro h
    obtain ⟨b', hb', h⟩ := h
    obtain ⟨v, hv, h⟩ := bind_eq_ok.mp h
    obtain ⟨w, hw, h⟩ := bind_eq_ok.mp h
    obtain rfl := Except.ok.inj h
    exact ⟨mapError_eq_ok.mp hb', (hts _).mp ⟨v, hv⟩, (hts _).mp ⟨w, hw⟩⟩
  · intro h
    obtain ⟨hb, hbefore, hafter⟩ := h
    obtain ⟨v, hv⟩ := (hts _).mpr hbefore
    obtain ⟨w, hw⟩ := (hts _).mpr hafter
    refine ⟨b, mapError_eq_ok.mpr hb, ?_⟩
    rw [hv, hw]
    rfl

lemma putBinding_eq_ok {userId : Id} {keyVersion : UInt64} {row : StoredBinding} :
    runFrom (putBinding userId keyVersion row) t = (.ok (), u) ↔ ∃ b,
      checkedBinding "put_binding" row.bindingBytes = .ok b ∧ 1 ≤ asI64 keyVersion ∧
      u = { t with
        directoryBindings :=
          if (userId, asI64 keyVersion) ∈ t.directoryBindings then t.directoryBindings
          else t.directoryBindings.insert (userId, asI64 keyVersion) row
        users := mirror userId b t.users } := by
  unfold putBinding
  rw [get_bind_eq_ok, liftM_bind_eq_ok]
  constructor
  · intro h
    obtain ⟨b, hb, h⟩ := h
    obtain ⟨hversion, h⟩ := failIf_bind_eq_ok.mp h
    obtain ⟨-, rfl⟩ := set_pure_eq_ok.mp h
    exact ⟨b, hb, not_lt.mp hversion, rfl⟩
  · intro h
    obtain ⟨b, hb, hversion, rfl⟩ := h
    exact ⟨b, hb, failIf_bind_eq_ok.mpr ⟨not_lt.mpr hversion, set_pure_eq_ok.mpr ⟨rfl, rfl⟩⟩⟩

lemma version_of_served {userId : Id} {row : StoredBinding} (h : t.Versioned)
    (hrow : t.keyTable.served userId = some row) :
    ∃ b, decode DirBinding row.bindingBytes = .ok b ∧
      t.directoryBindings.lookup (userId, asI64 b.keyVersion) = some row ∧
      1 ≤ asI64 b.keyVersion ∧
      ∀ version row', t.directoryBindings.lookup (userId, version) = some row' →
        version ≤ asI64 b.keyVersion := by
  obtain ⟨version, hlookup, hgreatest⟩ := bindingByUserId_eq_some.mp hrow
  obtain ⟨b, hb, rfl, hpos⟩ := h userId version row hlookup
  exact ⟨b, hb, hlookup, hpos, hgreatest⟩

omit [UnicodeNormalization] in
lemma no_rows_of_served {userId : Id} (h : t.keyTable.served userId = none) (version : ℤ) :
    t.directoryBindings.lookup (userId, version) = none := by
  by_contra hrow
  obtain ⟨row, hrow⟩ := Option.ne_none_iff_exists'.mp hrow
  have hmem := List.isSome_maxOn?_of_mem (f := Prod.fst) (mem_history.mpr hrow)
  have hserved : t.bindingByUserId userId = none := h
  unfold bindingByUserId at hserved
  rw [Option.map_eq_none_iff] at hserved
  rw [hserved] at hmem
  exact absurd hmem (by simp)

omit [UnicodeNormalization] in
lemma served_insert {userId : Id} {version : ℤ} {row : StoredBinding}
    (hlookup : ∀ key, u.directoryBindings.lookup key =
      if key = (userId, version) then some row else t.directoryBindings.lookup key)
    (habove : ∀ version' row', t.directoryBindings.lookup (userId, version') = some row' →
      version' ≤ version) :
    u.keyTable.served = Function.update t.keyTable.served userId (some row) := by
  funext userId'
  rw [Function.update_apply]
  by_cases hid : userId' = userId
  · rw [if_pos hid, hid]
    refine bindingByUserId_eq_some.mpr ⟨version, by rw [hlookup, if_pos rfl], ?_⟩
    intro version' row' hrow'
    rw [hlookup] at hrow'
    by_cases hversion : version' = version
    · exact hversion.le
    · rw [if_neg (by simp [hversion])] at hrow'
      exact habove version' row' hrow'
  · rw [if_neg hid]
    refine bindingByUserId_congr fun version' => ?_
    rw [hlookup, if_neg (by simp [hid])]

omit [UnicodeNormalization] in
lemma served_insert_older {userId : Id} {version current : ℤ} {row served : StoredBinding}
    (hlookup : ∀ key, u.directoryBindings.lookup key =
      if key = (userId, version) then some row else t.directoryBindings.lookup key)
    (hserved : t.directoryBindings.lookup (userId, current) = some served)
    (hgreatest : ∀ version' row', t.directoryBindings.lookup (userId, version') = some row' →
      version' ≤ current)
    (hbelow : version < current) : u.keyTable.served = t.keyTable.served := by
  funext userId'
  by_cases hid : userId' = userId
  · have hbefore : t.bindingByUserId userId = some served :=
      bindingByUserId_eq_some.mpr ⟨current, hserved, hgreatest⟩
    rw [hid]
    refine Eq.trans (bindingByUserId_eq_some.mpr ⟨current, ?_, ?_⟩) hbefore.symm
    · rw [hlookup, if_neg (by simp [hbelow.ne']), hserved]
    · intro version' row' hrow'
      rw [hlookup] at hrow'
      by_cases hversion : version' = version
      · rw [hversion]
        exact hbelow.le
      · rw [if_neg (by simp [hversion])] at hrow'
        exact hgreatest version' row' hrow'
  · refine bindingByUserId_congr fun version' => ?_
    rw [hlookup, if_neg (by simp [hid])]

lemma versioned_empty : empty.Versioned := by
  intro userId version row hrow
  exact absurd hrow (by simp [empty])

omit [UnicodeNormalization] in
lemma keyTable_empty : empty.keyTable = ⟨fun _ => none, fun _ => none⟩ := by
  refine KeyTable.ext ?_ rfl
  funext name
  exact ite_self none

lemma versioned_insert {userId : Id} {row : StoredBinding} {b : DirBinding} (h : t.Versioned)
    (hb : decode DirBinding row.bindingBytes = .ok b) (hpos : 1 ≤ asI64 b.keyVersion)
    (hlookup : ∀ key, u.directoryBindings.lookup key =
      if key = (userId, asI64 b.keyVersion) then some row else t.directoryBindings.lookup key) :
    u.Versioned := by
  intro userId' version row' hrow'
  rw [hlookup] at hrow'
  by_cases hkey : (userId', version) = (userId, asI64 b.keyVersion)
  · rw [if_pos hkey] at hrow'
    obtain rfl := Option.some.inj hrow'
    obtain ⟨_, rfl⟩ := Prod.mk.inj hkey
    exact ⟨b, hb, rfl, hpos⟩
  · rw [if_neg hkey] at hrow'
    exact h userId' version row' hrow'

lemma mirror_users {b : DirBinding} (husers : u.users = mirror b.userId b t.users) :
    u.keyTable.users = fun name => (t.keyTable.users name).map (KeyTable.rekey b) := by
  funext name
  show (if isText name then u.users.lookup name else none) =
    (if isText name then t.users.lookup name else none).map (KeyTable.rekey b)
  rw [husers]
  unfold mirror
  rw [lookup_mapValues]
  by_cases htext : isText name = true
  · rw [if_pos htext, if_pos htext]
    rfl
  · rw [if_neg htext, if_neg htext]
    rfl

lemma putBinding_step {b : DirBinding} {row : StoredBinding}
    (hput : runFrom (putBinding b.userId b.keyVersion row) t = (.ok (), u)) (h : t.Versioned)
    (hb : decode DirBinding row.bindingBytes = .ok b) :
    u.Versioned ∧ u.keyTable = t.keyTable.publish keyPolicy b row := by
  obtain ⟨b₁, hchecked, hpos, hu⟩ := putBinding_eq_ok.mp hput
  obtain rfl := Except.ok.inj (hb.symm.trans (checkedBinding_eq_ok.mp hchecked).1)
  have husers : u.keyTable.users = (t.keyTable.publish keyPolicy b row).users :=
    mirror_users (by rw [hu])
  have hkept : (b.userId, asI64 b.keyVersion) ∈ t.directoryBindings →
      u.directoryBindings = t.directoryBindings := by
    intro hmem
    rw [hu]
    exact if_pos hmem
  have hinserted : (b.userId, asI64 b.keyVersion) ∉ t.directoryBindings → ∀ key,
      u.directoryBindings.lookup key =
        if key = (b.userId, asI64 b.keyVersion) then some row
        else t.directoryBindings.lookup key := by
    intro hmem key
    rw [hu]
    simp only [hmem, if_false]
    exact lookup_insert_eq
  have hversioned : u.Versioned := by
    by_cases hmem : (b.userId, asI64 b.keyVersion) ∈ t.directoryBindings
    · unfold Versioned
      rw [hkept hmem]
      exact h
    · exact versioned_insert h hb hpos (hinserted hmem)
  refine ⟨hversioned, KeyTable.ext husers ?_⟩
  cases hserved : t.keyTable.served b.userId with
  | none =>
    have hnone := no_rows_of_served hserved
    have hmem : (b.userId, asI64 b.keyVersion) ∉ t.directoryBindings := by
      rw [← AList.lookup_eq_none]
      exact hnone _
    have htakes : t.keyTable.takesOver keyPolicy b = true := by
      simp [KeyTable.takesOver, KeyTable.version, hserved]
    rw [KeyTable.publish_served_of_takesOver htakes]
    refine served_insert (hinserted hmem) ?_
    intro version' row' hrow'
    exact absurd ((hnone version').symm.trans hrow') (by simp)
  | some current =>
    obtain ⟨b', hb', hlookup, hpos', hgreatest⟩ := version_of_served h hserved
    have htakes : t.keyTable.takesOver keyPolicy b = decide (b'.keyVersion < b.keyVersion) := by
      unfold KeyTable.takesOver
      rw [KeyTable.version_eq hserved hb']
      rfl
    have horder := asI64_le_iff hpos hpos'
    by_cases hnewer : b'.keyVersion < b.keyVersion
    · have hlt : asI64 b'.keyVersion < asI64 b.keyVersion :=
        not_le.mp fun hle => UInt64.not_le.mpr hnewer (horder.mp hle)
      have hmem : (b.userId, asI64 b.keyVersion) ∉ t.directoryBindings := by
        intro hmem
        obtain ⟨row', hrow'⟩ := mem_iff_lookup.mp hmem
        exact absurd (hgreatest _ _ hrow') (not_le.mpr hlt)
      rw [KeyTable.publish_served_of_takesOver (htakes.trans (decide_eq_true hnewer))]
      refine served_insert (hinserted hmem) ?_
      intro version' row' hrow'
      exact le_trans (hgreatest version' row' hrow') hlt.le
    · have hle : asI64 b.keyVersion ≤ asI64 b'.keyVersion :=
        horder.mpr (UInt64.not_lt.mp hnewer)
      rw [KeyTable.publish_served_of_not (htakes.trans (decide_eq_false hnewer))]
      by_cases hmem : (b.userId, asI64 b.keyVersion) ∈ t.directoryBindings
      · funext userId
        refine bindingByUserId_congr fun version => ?_
        rw [hkept hmem]
      · have hne : asI64 b.keyVersion ≠ asI64 b'.keyVersion := by
          intro heq
          rw [heq] at hmem
          exact hmem (mem_iff_lookup.mpr ⟨current, hlookup⟩)
        exact served_insert_older (hinserted hmem) hlookup hgreatest (lt_of_le_of_ne hle hne)

lemma enroll_step {args : EnrollArgs} {dbNowMs : UInt64} {isAdmin : Bool} {b : DirBinding}
    (henroll : runFrom (enroll args dbNowMs) t = (.ok isAdmin, u)) (h : t.Versioned)
    (hfresh : t.keyTable.served args.userId = none)
    (hb : decode DirBinding (args.binding isAdmin).bindingBytes = .ok b)
    (hversion : b.keyVersion = 1) (henc : b.encPub.bytes = args.encPub)
    (hsig : b.sigPub.bytes = args.sigPub) :
    u.Versioned ∧ u.keyTable = t.keyTable.enroll args.username
      ⟨args.userId, args.encPub, args.sigPub⟩ (args.binding isAdmin) := by
  obtain ⟨_, htext, hname, hid, _, _, b₁, hchecked, hu⟩ := enroll_ok henroll
  obtain rfl := Except.ok.inj (hb.symm.trans (checkedBinding_eq_ok.mp hchecked).1)
  have hone : asI64 b.keyVersion = 1 := by
    rw [hversion]
    decide
  have hinserted : ∀ key, u.directoryBindings.lookup key =
      if key = (args.userId, asI64 b.keyVersion) then some (args.binding isAdmin)
      else t.directoryBindings.lookup key := by
    intro key
    rw [hu, hone]
    exact lookup_insert_eq
  refine ⟨versioned_insert h hb hone.ge hinserted, KeyTable.ext ?_ ?_⟩
  · funext name
    show (if isText name then u.users.lookup name else none) = _
    simp only [KeyTable.enroll, Function.update_apply, hu, mirror, lookup_mapValues,
      lookup_insert_eq]
    by_cases hsame : name = args.username
    · simp [hsame, htext, henc, hsig]
    · rw [if_neg hsame, if_neg hsame]
      show _ = if isText name then t.users.lookup name else none
      congr 1
      cases huser : t.users.lookup name with
      | none => rfl
      | some user =>
        have hother : user.userId ≠ args.userId := by
          have hnone : ∀ e ∈ t.users.entries, e.2.userId ≠ args.userId := by
            simpa [hasUserId] using hid
          exact hnone ⟨name, user⟩ (AList.mem_lookup_iff.mp huser)
        simp [hother]
  · refine served_insert hinserted ?_
    intro version' row' hrow'
    exact absurd ((no_rows_of_served hfresh version').symm.trans hrow') (by simp)

lemma enroll_run {args : EnrollArgs} {dbNowMs : UInt64} {isAdmin : Bool} {b : DirBinding}
    (hspendable : t.Spendable args.regKeyHash dbNowMs) (htext : isText args.username = true)
    (hname : args.username ∉ t.users) (hid : t.hasUserId args.userId = false)
    (hversion : (args.userId, 1) ∉ t.directoryBindings) (hadmin : isAdmin = !t.firstAdminClaim)
    (hb : checkedBinding "enroll" (args.binding isAdmin).bindingBytes = .ok b) :
    runFrom (enroll args dbNowMs) t = (.ok isAdmin, { t.spend args.regKeyHash with
      firstAdminClaim := true
      directoryBindings :=
        t.directoryBindings.insert (args.userId, 1) (args.binding isAdmin)
      users := mirror args.userId b
        (t.users.insert args.username ⟨args.userId, args.encPub, args.sigPub⟩) }) := by
  have hconsume : runFrom (consumeKey args.regKeyHash dbNowMs :
      ExceptT EnrollRefusal (StateM PgDirectory) Bool) t = (.ok true, t.spend args.regKeyHash) := by
    have hrun : runFrom (consumeKey args.regKeyHash dbNowMs :
        ExceptT EnrollRefusal (StateM PgDirectory) Bool) t =
      (.ok (decide (t.Spendable args.regKeyHash dbNowMs)),
        if t.Spendable args.regKeyHash dbNowMs then t.spend args.regKeyHash else t) := rfl
    rw [hrun, if_pos hspendable, decide_eq_true hspendable]
  have hclaim : ∀ u : PgDirectory, runFrom (claimFirstAdmin :
      ExceptT EnrollRefusal (StateM PgDirectory) Bool) u =
        (.ok (!u.firstAdminClaim), { u with firstAdminClaim := true }) := fun _ => rfl
  rw [hadmin] at hb ⊢
  refine transaction_eq_ok.mpr ?_
  rw [runFrom_bind_ok hconsume]
  refine failIf_bind_eq_ok.mpr ⟨by simp, get_bind_eq_ok.mpr ?_⟩
  refine failIf_bind_eq_ok.mpr ⟨by simp [htext], failIf_bind_eq_ok.mpr ⟨?_, ?_⟩⟩
  · exact not_or.mpr ⟨hname, by rw [Bool.not_eq_true]; exact hid⟩
  · rw [set_bind_eq_ok, runFrom_bind_ok (hclaim _)]
    refine liftM_bind_eq_ok.mpr ⟨b, mapError_eq_ok.mpr hb, get_bind_eq_ok.mpr ?_⟩
    exact failIf_bind_eq_ok.mpr ⟨hversion, set_pure_eq_ok.mpr ⟨rfl, rfl⟩⟩

lemma userByName_iff {name : String} {user : UserRecord} :
    store.userByName name t = .ok (some user) ↔ t.keyTable.users name = some user := by
  by_cases htext : isText name = true
  · simp [store, keyTable, htext]
  · simp [store, keyTable, htext]

lemma bindingByUsername_eq {name : String} {user : UserRecord}
    (huser : t.keyTable.users name = some user) :
    store.bindingByUsername name t = .ok (t.keyTable.served user.userId) := by
  have huser : (if isText name then t.users.lookup name else none) = some user := huser
  by_cases htext : isText name = true
  · rw [if_pos htext] at huser
    simp [store, bindingByUsername, htext, huser, keyTable]
  · rw [if_neg htext] at huser
    exact absurd huser (by simp)

lemma issueRegistrationKey_table {keyHash : Bytes 32} {expiresAtMs : UInt64}
    {r : Except DirectoryFault Unit}
    (hissue : runFrom (issueRegistrationKey keyHash expiresAtMs) t = (r, u)) (h : t.Versioned) :
    u.Versioned ∧ u.keyTable = t.keyTable := by
  have hatomic : Atomic (issueRegistrationKey keyHash expiresAtMs) :=
    .get_bind fun _ => .liftM_bind fun _ _ => .set_pure
  cases r with
  | error e =>
    obtain rfl := hatomic t e u hissue
    exact ⟨h, rfl⟩
  | ok a =>
    unfold issueRegistrationKey at hissue
    rw [get_bind_eq_ok] at hissue
    obtain ⟨expires, _, hissue⟩ := liftM_bind_eq_ok.mp hissue
    obtain ⟨-, rfl⟩ := set_pure_eq_ok.mp hissue
    exact ⟨h, rfl⟩

lemma bindingByUserId_eq (t : PgDirectory) (userId : Id) :
    store.bindingByUserId userId t = .ok (t.keyTable.served userId) := rfl

lemma atomic_enroll (args : EnrollArgs) (dbNowMs : UInt64) : Atomic (enroll args dbNowMs) :=
  .transaction _

lemma atomic_putBinding (userId : Id) (keyVersion : UInt64) (binding : StoredBinding) :
    Atomic (putBinding userId keyVersion binding) :=
  .get_bind fun _ => .liftM_bind fun _ _ => .failIf_bind .set_pure

lemma putBinding_ok_iff {b : DirBinding} {row : StoredBinding}
    (hb : decode DirBinding row.bindingBytes = .ok b) (t : PgDirectory) :
    (runFrom (putBinding b.userId b.keyVersion row) t).1 = .ok () ↔ keyPolicy.Takes b := by
  constructor
  · intro hok
    obtain ⟨b₁, hchecked, hpos, _⟩ := putBinding_eq_ok.mp (Prod.ext hok rfl)
    obtain ⟨hb₁, hbefore, hafter⟩ := checkedBinding_eq_ok.mp hchecked
    obtain rfl := Except.ok.inj (hb.symm.trans hb₁)
    exact ⟨hbefore, hafter, hpos⟩
  · intro htakes
    obtain ⟨hbefore, hafter, hpos⟩ := htakes
    have hchecked : checkedBinding "put_binding" row.bindingBytes = .ok b :=
      checkedBinding_eq_ok.mpr ⟨hb, hbefore, hafter⟩
    have hput : ∃ u, runFrom (putBinding b.userId b.keyVersion row) t = (.ok (), u) :=
      ⟨_, putBinding_eq_ok.mpr ⟨b, hchecked, hpos, rfl⟩⟩
    obtain ⟨u, hput⟩ := hput
    exact congrArg Prod.fst hput

/-- The database refines the table. -/
def keyLedger : KeyLedger store keyPolicy where
  table := keyTable
  Inv := Versioned
  userByName_iff := userByName_iff
  bindingByUsername_eq := bindingByUsername_eq
  bindingByUserId_eq := bindingByUserId_eq
  issued := issueRegistrationKey_table
  enroll_atomic := atomic_enroll
  enrolled := enroll_step
  put_atomic := atomic_putBinding
  put_ok_iff := putBinding_ok_iff
  put := putBinding_step

end PgDirectory

/-! ## Both stores -/

/-- **The login key follows the newest binding.**  In every run of either store from its empty
state, in which each registration draws a fresh id, what is served is the newest binding accepted
for its user; and in all states of the run the login keys are the keys in the bindings that are
served, exactly when every publication keeps the key. -/
theorem loginKey_follows_iff [UnicodeNormalization] [Ed25519] [Sha256] (cfg : DirectoryConfig) :
    (∀ t path, LabelledRun (RunsFresh cfg MemoryDirectory.store) .empty path t →
      ServesNewest MemoryDirectory.store path t ∧
      ((∀ x ∈ path, KeyServed MemoryDirectory.store x.1) ∧ KeyServed MemoryDirectory.store t ↔
        ∀ x ∈ path, KeepsKey cfg MemoryDirectory.store MemoryDirectory.keyPolicy x.1 x.2.1)) ∧
    ∀ t path, LabelledRun (RunsFresh cfg PgDirectory.store) .empty path t →
      ServesNewest PgDirectory.store path t ∧
      ((∀ x ∈ path, KeyServed PgDirectory.store x.1) ∧ KeyServed PgDirectory.store t ↔
        ∀ x ∈ path, KeepsKey cfg PgDirectory.store PgDirectory.keyPolicy x.1 x.2.1) := by
  constructor
  · intro t path hrun
    have hserved : KeyServed MemoryDirectory.store .empty := by
      intro name user huser
      exact absurd huser (by simp [MemoryDirectory.store, MemoryDirectory.empty])
    have hinv := MemoryDirectory.versioned_empty
    exact ⟨MemoryDirectory.keyLedger.serves_newest hinv (fun _ => rfl) hrun,
      MemoryDirectory.keyLedger.follows_iff hinv hserved hrun⟩
  · intro t path hrun
    have hserved : KeyServed PgDirectory.store .empty := by
      intro name user huser
      have huser := PgDirectory.keyLedger.userByName_iff.mp huser
      exact absurd huser (by simp [PgDirectory.keyLedger, PgDirectory.keyTable_empty])
    exact ⟨PgDirectory.keyLedger.serves_newest PgDirectory.versioned_empty (fun _ => rfl) hrun,
      PgDirectory.keyLedger.follows_iff PgDirectory.versioned_empty hserved hrun⟩

namespace LoginKeys

open ClosedRuns

def signer : SigningKey := ⟨.replicate 32 1⟩

def serverConfig : DirectoryConfig := ⟨some signer, some (.replicate 32 1), none⟩

def issues : DirectoryRequest := .issueKey (sha256 "k".toByteArray.data.toList) 1

def userId : Id := ⟨.replicate 16 1⟩

def registration : RegisterReq :=
  ⟨"a", some (.replicate 32 2), some (.replicate 32 3), none, "k"⟩

/-- The user registers with the first key. -/
def enrolls : DirectoryRequest := .register registration userId 0 0

def args : EnrollArgs :=
  enrollArgs registration signer userId (.replicate 32 2) (.replicate 32 3)
    ⟨"a", by decide, by decide⟩ none

/-- What the server signs at the registration. -/
def firstBinding : DirBinding :=
  enrollmentBinding ⟨"a", by decide, by decide⟩ userId (.replicate 32 2) (.replicate 32 3) none
    (.new [.user, .admin])

def nextBinding : DirBinding :=
  { firstBinding with keyVersion := 2, sigPub := ⟨.replicate 32 4⟩ }

def publishes (b : DirBinding) : DirectoryRequest :=
  .publish (some (signBinding signer b).bindingBytes) (some (signBinding signer b).signature)

def enrolledTable : KeyTable :=
  KeyTable.enroll ⟨fun _ => none, fun _ => none⟩ "a" ⟨userId, .replicate 32 2, .replicate 32 3⟩
    (signBinding signer firstBinding)

lemma enrolledTable_follows : enrolledTable.Follows := by
  have hempty : KeyTable.Follows ⟨fun _ => none, fun _ => none⟩ := by
    intro name user huser
    exact absurd huser (by simp)
  exact KeyTable.follows_enroll hempty rfl (UsernameIdentity.decode_signBinding _ _) rfl

/-- The table after the next binding is published. -/
def rotatedTable (policy : KeyPolicy) : KeyTable :=
  enrolledTable.publish policy nextBinding (signBinding signer nextBinding)

lemma enrolledTable_version : enrolledTable.version userId = some 1 := by
  have hserved : enrolledTable.served userId = some (signBinding signer firstBinding) := by
    simp [enrolledTable, KeyTable.enroll]
  exact KeyTable.version_eq hserved (UsernameIdentity.decode_signBinding _ _)

variable {σ : Type} {store : DirectoryStore σ} {policy : KeyPolicy} {s t : σ}

lemma runs_enrolls (h : runFrom (store.enroll args 0) s = (.ok true, t)) :
    Runs serverConfig store s (enrolls, .registered (.ok userId)) t := by
  have hregister : runFrom (register serverConfig store registration userId 0 0) s =
      runFrom (ExceptT.adapt RegisterError.ofRefusal (store.enroll args 0) >>=
        fun _ => pure userId) s := rfl
  refine ⟨none, ?_⟩
  have hok : runFrom (register serverConfig store registration userId 0 0) s = (.ok userId, t) :=
    hregister.trans (adapt_bind_eq_ok.mpr ⟨true, t, h, rfl⟩)
  exact congrArg (fun r => (DirectoryResponse.registered r.1, r.2)) hok

lemma runs_publishes (ledger : KeyLedger store policy) {b : DirBinding} (htakes : policy.Takes b)
    (s : σ) : ∃ t, runFrom (store.putBinding b.userId b.keyVersion (signBinding signer b)) s =
        (.ok (), t) ∧
      Runs serverConfig store s (publishes b, .published (.ok ())) t := by
  have hdecode := UsernameIdentity.decode_signBinding signer b
  have hput := (ledger.put_ok_iff hdecode s).mpr htakes
  have hsigned : Signed serverConfig b (signBinding signer b).signature :=
    ⟨.replicate 32 1, rfl, rfl⟩
  have hok : runFrom (publishBinding serverConfig store (some (signBinding signer b).bindingBytes)
      (some (signBinding signer b).signature)) s = _ :=
    (publishBinding_signed hdecode hsigned).trans (runFrom_adapt _ _ _)
  rw [hput] at hok
  exact ⟨_, Prod.ext hput rfl, none, congrArg (fun r => (DirectoryResponse.published r.1, r.2)) hok⟩

lemma rotation (ledger : KeyLedger store policy) (hinv : ledger.Inv s)
    (hempty : ledger.table s = ⟨fun _ => none, fun _ => none⟩)
    (hissue : Runs serverConfig store s (issues, .issued (.ok ())) t)
    (henroll : (runFrom (store.enroll args 0) t).1 = .ok true) (htakes : policy.Takes nextBinding) :
    ∃ path u v, LabelledRun (RunsFresh serverConfig store) s path u ∧ ledger.Inv u ∧
      ledger.table u = enrolledTable ∧
      RunsFresh serverConfig store u (publishes nextBinding, .published (.ok ())) v ∧
      ledger.Inv v ∧ ledger.table v = rotatedTable policy ∧
      ∀ x ∈ path, ∀ b row, ¬ Publishes serverConfig policy x.2.1 b row := by
  have hissued : RunsFresh serverConfig store s (issues, .issued (.ok ())) t := ⟨hissue, trivial⟩
  obtain ⟨r, hr, hrun⟩ := runs_issueKey hissue
  obtain ⟨hinv', htable⟩ := ledger.issued hrun hinv
  rw [hempty] at htable
  have hfresh : DrawsFresh store t enrolls := by
    show store.bindingByUserId userId t = .ok none
    rw [ledger.bindingByUserId_eq, htable]
  obtain ⟨u, henrolled⟩ : ∃ u, runFrom (store.enroll args 0) t = (.ok true, u) :=
    ⟨_, Prod.ext henroll rfl⟩
  have hbinding := UsernameIdentity.decode_signBinding signer firstBinding
  obtain ⟨hinv₂, htable₂⟩ := ledger.enrolled henrolled hinv' (by rw [htable]) hbinding rfl rfl rfl
  rw [htable] at htable₂
  obtain ⟨v, hput, hpublished⟩ := runs_publishes ledger htakes u
  obtain ⟨hinv₃, htable₃⟩ := ledger.put hput hinv₂ (UsernameIdentity.decode_signBinding _ _)
  rw [htable₂] at htable₃
  refine ⟨_, u, v, .step (.step .start hissued) ⟨runs_enrolls henrolled, hfresh⟩, hinv₂, htable₂,
    ⟨hpublished, trivial⟩, hinv₃, htable₃, ?_⟩
  intro x hx b row hpublishes
  obtain rfl | rfl : x = (s, issues, .issued (.ok ())) ∨
      x = (t, enrolls, .registered (.ok userId)) := by
    simpa using hx
  · exact absurd hpublishes.request_eq (by simp [issues])
  · exact absurd hpublishes.request_eq (by simp [enrolls])

lemma memory_enrolls :
    (runFrom (MemoryDirectory.store.enroll args 0)
      (issues.serve serverConfig MemoryDirectory.store .empty).2).1 = .ok true := by
  decide +kernel

/-- The database after the registration key was issued. -/
def issuedDirectory : PgDirectory := (issues.serve serverConfig PgDirectory.store .empty).2

lemma pg_enrolls : (runFrom (PgDirectory.store.enroll args 0) issuedDirectory).1 = .ok true := by
  have hchecked : PgDirectory.checkedBinding "enroll" (args.binding true).bindingBytes =
      .ok firstBinding :=
    PgDirectory.checkedBinding_eq_ok.mpr
      ⟨UsernameIdentity.decode_signBinding _ _, by decide, by decide⟩
  have hspendable : issuedDirectory.Spendable args.regKeyHash 0 := by decide +kernel
  have hname : args.username ∉ issuedDirectory.users := by decide +kernel
  have hversion : (args.userId, 1) ∉ issuedDirectory.directoryBindings := by decide +kernel
  have hrun := PgDirectory.enroll_run hspendable (by decide) hname rfl hversion rfl hchecked
  exact congrArg Prod.fst hrun

lemma rotatedTable_version :
    (rotatedTable PgDirectory.keyPolicy).version userId = some 2 := by
  have htakes : enrolledTable.takesOver PgDirectory.keyPolicy nextBinding = true := by
    unfold KeyTable.takesOver
    rw [show nextBinding.userId = userId from rfl, enrolledTable_version]
    rfl
  have hserved : (rotatedTable PgDirectory.keyPolicy).served userId =
      some (signBinding signer nextBinding) := by
    unfold rotatedTable
    rw [KeyTable.publish_served_of_takesOver htakes]
    exact Function.update_self _ _ _
  exact KeyTable.version_eq hserved (UsernameIdentity.decode_signBinding _ _)

lemma rotatedTable_follows : (rotatedTable PgDirectory.keyPolicy).Follows := by
  refine (KeyTable.follows_publish_iff enrolledTable_follows
    (UsernameIdentity.decode_signBinding _ _)).mpr ?_
  intro name user current _ _ hcurrent
  obtain rfl := Option.some.inj (enrolledTable_version.symm.trans hcurrent)
  exact .inl rfl

lemma pg_takes : PgDirectory.keyPolicy.Takes firstBinding ∧
    PgDirectory.keyPolicy.Takes nextBinding :=
  ⟨⟨by decide, by decide, by decide⟩, by decide, by decide, by decide⟩

lemma publishes_eq {policy : KeyPolicy} {b₀ b : DirBinding} {row : StoredBinding}
    (h : Publishes serverConfig policy (publishes b₀) b row) : b = b₀ := by
  have hbytes := (DirectoryRequest.publish.inj h.request_eq).1
  have hdecoded := h.decoded
  rw [← Option.some.inj hbytes, UsernameIdentity.decode_signBinding] at hdecoded
  exact (Except.ok.inj hdecoded).symm

/-- In the database the login key follows when the next binding is published. -/
theorem loginKey_follows_iff_rotated :
    ∃ path t, LabelledRun (RunsFresh serverConfig PgDirectory.store) .empty path t ∧
      (∃ u, (u, publishes nextBinding, .published (.ok ())) ∈ path) ∧
      (∀ x ∈ path, KeyServed PgDirectory.store x.1) ∧ KeyServed PgDirectory.store t := by
  obtain ⟨path, u, v, hrun, _, htable, hpublished, _, _, hquiet⟩ :=
    rotation PgDirectory.keyLedger PgDirectory.versioned_empty PgDirectory.keyTable_empty
      ⟨none, rfl⟩ pg_enrolls pg_takes.2
  refine ⟨_, v, hrun.step hpublished, ⟨u, by simp⟩, ?_⟩
  refine ((loginKey_follows_iff serverConfig).2 v _ (hrun.step hpublished)).2.mpr ?_
  intro x hx
  obtain hx | hx := List.mem_append.mp hx
  · intro b row hpublishes
    exact absurd hpublishes (hquiet x hx b row)
  · obtain rfl := List.mem_singleton.mp hx
    refine (PgDirectory.keyLedger.keepsKey_iff ?_).mpr ?_
    · rw [htable]
      exact enrolledTable_follows
    · intro b row hpublishes name user current _ _ hcurrent
      rw [publishes_eq hpublishes, htable] at hcurrent
      obtain rfl := Option.some.inj (enrolledTable_version.symm.trans hcurrent)
      rw [publishes_eq hpublishes]
      exact .inl rfl

/-- In the database the first binding, published again, brings the first key back; in memory the
login key is behind as soon as the next binding is published. -/
theorem loginKey_follows_iff_replayed :
    (¬ ∀ t path, LabelledRun (RunsFresh serverConfig PgDirectory.store) .empty path t →
      KeyServed PgDirectory.store t) ∧
    ¬ ∀ t path, LabelledRun (RunsFresh serverConfig MemoryDirectory.store) .empty path t →
      KeyServed MemoryDirectory.store t := by
  constructor
  · intro h
    obtain ⟨path, u, v, hrun, _, _, hpublished, hinv, htable, _⟩ :=
      rotation PgDirectory.keyLedger PgDirectory.versioned_empty PgDirectory.keyTable_empty
        ⟨none, rfl⟩ pg_enrolls pg_takes.2
    obtain ⟨w, hput, hreplayed⟩ := runs_publishes PgDirectory.keyLedger pg_takes.1 v
    obtain ⟨_, htable'⟩ :=
      PgDirectory.keyLedger.put hput hinv (UsernameIdentity.decode_signBinding _ _)
    have hserved := h w _ ((hrun.step hpublished).step ⟨hreplayed, trivial⟩)
    rw [PgDirectory.keyLedger.keyServed_iff, htable', htable, KeyTable.follows_publish_iff
      rotatedTable_follows (UsernameIdentity.decode_signBinding _ _)] at hserved
    have hkept := hserved "a" ⟨userId, .replicate 32 2, .replicate 32 4⟩ 2 rfl rfl
      rotatedTable_version
    exact absurd hkept (by decide)
  · intro h
    obtain ⟨path, u, v, hrun, _, _, hpublished, _, htable, _⟩ :=
      rotation MemoryDirectory.keyLedger MemoryDirectory.versioned_empty rfl ⟨none, rfl⟩
        memory_enrolls trivial
    have hserved := h v _ (hrun.step hpublished)
    rw [MemoryDirectory.keyLedger.keyServed_iff, htable, rotatedTable, KeyTable.follows_publish_iff
      enrolledTable_follows (UsernameIdentity.decode_signBinding _ _)] at hserved
    have hkept := hserved "a" ⟨userId, .replicate 32 2, .replicate 32 3⟩ 1 rfl rfl
      enrolledTable_version
    exact absurd hkept (by decide)

end LoginKeys

end MaxSecu
