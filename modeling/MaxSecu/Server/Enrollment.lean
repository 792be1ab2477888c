import MaxSecu.Server.Auth
import MaxSecu.Server.Delegation

/-!
# Enrollment and the directory

A registration key lets its holder enroll once: the enrollment spends the key, creates the user,
gives the first one of all the admin role, and stores the binding that the server signed.  Later
bindings of a user are published, and anyone may publish what the directory key has signed.

Two stores keep this.  `MemoryDirectory` keeps maps behind a lock; `PgDirectory` keeps the tables of
the database, with its statements as operations on them.  The columns that no query reads are left
out.  `register` and `publishBinding` are the handlers, for either store.
-/

namespace MaxSecu

open ExceptRules GuardedUpdate AssociationList

structure StoredBinding where
  bindingBytes : List UInt8
  signature : Bytes 64
  deriving DecidableEq

/-- The store refuses a value, or a statement fails in the database. -/
inductive DirectoryFault
  | rejected (e : StoreError)
  | database (context : String)
  deriving DecidableEq

inductive EnrollRefusal
  | keyInvalid
  | usernameTaken
  | fault (e : DirectoryFault)
  deriving DecidableEq

structure EnrollArgs where
  regKeyHash : Bytes 32
  userId : Id
  username : String
  encPub : Bytes 32
  sigPub : Bytes 32
  userBinding : StoredBinding
  adminBinding : StoredBinding

def EnrollArgs.binding (args : EnrollArgs) (isAdmin : Bool) : StoredBinding :=
  if isAdmin then args.adminBinding else args.userBinding

/-- The part of the store that enrollment and the directory use.  An enrollment returns whether it
was the first; `dbNowMs` is the clock of the database. -/
structure DirectoryStore (σ : Type) where
  issueRegistrationKey (keyHash : Bytes 32) (expiresAtMs : UInt64) :
    ExceptT DirectoryFault (StateM σ) Unit
  consumeRegistrationKey (keyHash : Bytes 32) (dbNowMs : UInt64) :
    ExceptT DirectoryFault (StateM σ) Bool
  enroll (args : EnrollArgs) (dbNowMs : UInt64) : ExceptT EnrollRefusal (StateM σ) Bool
  putBinding (userId : Id) (keyVersion : UInt64) (binding : StoredBinding) :
    ExceptT DirectoryFault (StateM σ) Unit
  userByName (username : String) (s : σ) : Except DirectoryFault (Option UserRecord)
  bindingByUsername (username : String) (s : σ) : Except DirectoryFault (Option StoredBinding)
  bindingByUserId (userId : Id) (s : σ) : Except DirectoryFault (Option StoredBinding)

/-! ## In memory -/

structure MemoryDirectory where
  users : AList fun _ : String => UserRecord
  bindings : AList fun _ : Id => UInt64 × StoredBinding
  regKeys : Finset (Bytes 32)
  firstAdminClaimed : Bool

namespace MemoryDirectory

def empty : MemoryDirectory := ⟨∅, ∅, ∅, false⟩

def issueRegistrationKey (keyHash : Bytes 32) (_expiresAtMs : UInt64) :
    ExceptT DirectoryFault (StateM MemoryDirectory) Unit := do
  let s ← get
  set { s with regKeys := insert keyHash s.regKeys }
  pure ()

def consumeRegistrationKey (keyHash : Bytes 32) (_dbNowMs : UInt64) :
    ExceptT DirectoryFault (StateM MemoryDirectory) Bool := do
  let s ← get
  set { s with regKeys := s.regKeys.erase keyHash }
  pure (decide (keyHash ∈ s.regKeys))

/-- Everything is checked first, then everything is written. -/
def enroll (args : EnrollArgs) (_dbNowMs : UInt64) :
    ExceptT EnrollRefusal (StateM MemoryDirectory) Bool := do
  let s ← get
  failIf (args.regKeyHash ∉ s.regKeys) .keyInvalid
  failIf (args.username ∈ s.users) .usernameTaken
  let isAdmin := !s.firstAdminClaimed
  set { s with
    regKeys := s.regKeys.erase args.regKeyHash
    firstAdminClaimed := true
    users := s.users.insert args.username ⟨args.userId, args.encPub, args.sigPub⟩
    bindings := s.bindings.insert args.userId (1, args.binding isAdmin) }
  pure isAdmin

/-- A binding replaces one that is not newer. -/
def putBinding (userId : Id) (keyVersion : UInt64) (binding : StoredBinding) :
    ExceptT DirectoryFault (StateM MemoryDirectory) Unit := do
  let s ← get
  match s.bindings.lookup userId with
  | some (current, _) =>
    if current ≤ keyVersion then
      set { s with bindings := s.bindings.insert userId (keyVersion, binding) }
      pure ()
    else
      pure ()
  | none =>
    set { s with bindings := s.bindings.insert userId (keyVersion, binding) }
    pure ()

def bindingByUserId (userId : Id) (s : MemoryDirectory) : Option StoredBinding :=
  (s.bindings.lookup userId).map Prod.snd

def bindingByUsername (username : String) (s : MemoryDirectory) : Option StoredBinding :=
  (s.users.lookup username).bind fun user => s.bindingByUserId user.userId

def store : DirectoryStore MemoryDirectory where
  issueRegistrationKey := issueRegistrationKey
  consumeRegistrationKey := consumeRegistrationKey
  enroll := enroll
  putBinding := putBinding
  userByName username s := .ok (s.users.lookup username)
  bindingByUsername username s := .ok (s.bindingByUsername username)
  bindingByUserId userId s := .ok (s.bindingByUserId userId)

end MemoryDirectory

/-! ## In the database -/

structure RegistrationKeyRow where
  expiresAtMs : UInt64
  used : Bool
  deriving DecidableEq

/-- The tables.  `users` is keyed by its unique `username`, `directory_bindings` by its primary key,
whose key version is a signed 64-bit column. -/
structure PgDirectory where
  users : AList fun _ : String => UserRecord
  directoryBindings : AList fun _ : Id × ℤ => StoredBinding
  registrationKeys : AList fun _ : Bytes 32 => RegistrationKeyRow
  firstAdminClaim : Bool

namespace PgDirectory

def empty : PgDirectory := ⟨∅, ∅, ∅, false⟩

/-- A `TEXT` column takes no NUL. -/
def isText (s : String) : Bool := s.toList.all (· ≠ '\u0000')

/-- The last millisecond of the year 9999, the largest that converts to a timestamp. -/
def MAX_TIMESTAMP_MS : UInt64 := 253402300799999

def tryMsToTs (ms : UInt64) (op : String) : Except DirectoryFault UInt64 :=
  if MAX_TIMESTAMP_MS < ms then .error (.rejected ⟨op, "timestamp out of representable range"⟩)
  else .ok ms

/-- A version as the database keeps it. -/
def asI64 (v : UInt64) : ℤ := v.toBitVec.toInt

section Bindings

variable [UnicodeNormalization]

/-- The binding that the bytes spell, with a window that converts to timestamps. -/
def checkedBinding (op : String) (bytes : List UInt8) : Except DirectoryFault DirBinding := do
  let b ← (decode DirBinding bytes).mapError fun _ =>
    DirectoryFault.rejected ⟨op, "binding bytes are not canonical"⟩
  let _ ← tryMsToTs b.notBefore.millis op
  let _ ← tryMsToTs b.notAfter.millis op
  pure b

/-- The key material of the binding, written to the row of its user. -/
def mirror (userId : Id) (b : DirBinding) (users : AList fun _ : String => UserRecord) :
    AList fun _ : String => UserRecord :=
  mapValues (fun row =>
    if row.userId = userId then ⟨row.userId, b.encPub.bytes, b.sigPub.bytes⟩ else row) users

end Bindings

def issueRegistrationKey (keyHash : Bytes 32) (expiresAtMs : UInt64) :
    ExceptT DirectoryFault (StateM PgDirectory) Unit := do
  let t ← get
  let expires ← liftM (tryMsToTs expiresAtMs "issue_registration_key")
  set { t with
    registrationKeys :=
      if keyHash ∈ t.registrationKeys then t.registrationKeys
      else t.registrationKeys.insert keyHash ⟨expires, false⟩ }
  pure ()

/-- The key is there, unused and not expired. -/
def Spendable (t : PgDirectory) (keyHash : Bytes 32) (dbNowMs : UInt64) : Prop :=
  ∃ row ∈ t.registrationKeys.lookup keyHash, row.used = false ∧ dbNowMs < row.expiresAtMs

instance (t : PgDirectory) (keyHash : Bytes 32) (dbNowMs : UInt64) :
    Decidable (t.Spendable keyHash dbNowMs) :=
  inferInstanceAs (Decidable (∃ row ∈ t.registrationKeys.lookup keyHash, _ ∧ _))

def spend (t : PgDirectory) (keyHash : Bytes 32) : PgDirectory :=
  { t with
    registrationKeys :=
      adjust keyHash (fun row => { row with used := true }) t.registrationKeys }

/-- One update that marks the key, if it can be spent. -/
def consumeKey {ξ : Type} (keyHash : Bytes 32) (dbNowMs : UInt64) :
    ExceptT ξ (StateM PgDirectory) Bool := do
  let t ← get
  set (if t.Spendable keyHash dbNowMs then t.spend keyHash else t)
  pure (decide (t.Spendable keyHash dbNowMs))

def consumeRegistrationKey (keyHash : Bytes 32) (dbNowMs : UInt64) :
    ExceptT DirectoryFault (StateM PgDirectory) Bool := consumeKey keyHash dbNowMs

/-- Insert the one row of the claim; true for the one who did. -/
def claimFirstAdmin {ξ : Type} : ExceptT ξ (StateM PgDirectory) Bool := do
  let t ← get
  set { t with firstAdminClaim := true }
  pure (!t.firstAdminClaim)

def hasUserId (t : PgDirectory) (userId : Id) : Bool :=
  t.users.entries.any fun e => e.2.userId = userId

section Bindings

variable [UnicodeNormalization]

/-- One transaction: a refusal or a fault takes back everything. -/
def enroll (args : EnrollArgs) (dbNowMs : UInt64) :
    ExceptT EnrollRefusal (StateM PgDirectory) Bool :=
  transaction do
    let consumed ← consumeKey args.regKeyHash dbNowMs
    failIf (consumed = false) .keyInvalid
    let t ← get
    failIf (isText args.username = false) (.fault (.database "enroll"))
    failIf (args.username ∈ t.users ∨ t.hasUserId args.userId = true) .usernameTaken
    set { t with users := t.users.insert args.username ⟨args.userId, args.encPub, args.sigPub⟩ }
    let isAdmin ← claimFirstAdmin
    let binding := args.binding isAdmin
    let b ← liftM ((checkedBinding "enroll" binding.bindingBytes).mapError EnrollRefusal.fault)
    let t ← get
    failIf ((args.userId, 1) ∈ t.directoryBindings) (.fault (.database "enroll"))
    set { t with
      directoryBindings := t.directoryBindings.insert (args.userId, 1) binding
      users := mirror args.userId b t.users }
    pure isAdmin

/-- The binding joins the history, unless its version is there, and the user's row gets its keys. -/
def putBinding (userId : Id) (keyVersion : UInt64) (binding : StoredBinding) :
    ExceptT DirectoryFault (StateM PgDirectory) Unit := do
  let t ← get
  let b ← liftM (checkedBinding "put_binding" binding.bindingBytes)
  -- the check on the column: at least one
  failIf (asI64 keyVersion < 1) (.database "put_binding")
  set { t with
    directoryBindings :=
      if (userId, asI64 keyVersion) ∈ t.directoryBindings then t.directoryBindings
      else t.directoryBindings.insert (userId, asI64 keyVersion) binding
    users := mirror userId b t.users }
  pure ()

end Bindings

def history (t : PgDirectory) (userId : Id) : List (ℤ × StoredBinding) :=
  collect (fun key binding => if key.1 = userId then some (key.2, binding) else none)
    t.directoryBindings

/-- The binding with the highest version. -/
def bindingByUserId (userId : Id) (t : PgDirectory) : Option StoredBinding :=
  ((t.history userId).maxOn? Prod.fst).map Prod.snd

/-- The same, joined with the user of the name. -/
def bindingByUsername (username : String) (t : PgDirectory) : Option StoredBinding :=
  (t.users.lookup username).bind fun user => t.bindingByUserId user.userId

def store [UnicodeNormalization] : DirectoryStore PgDirectory where
  issueRegistrationKey := issueRegistrationKey
  consumeRegistrationKey := consumeRegistrationKey
  enroll := enroll
  putBinding := putBinding
  userByName username t :=
    if isText username then .ok (t.users.lookup username) else .error (.database "user_by_name")
  bindingByUsername username t :=
    if isText username then .ok (t.bindingByUsername username)
    else .error (.database "binding_by_username")
  bindingByUserId userId t := .ok (t.bindingByUserId userId)

end PgDirectory

/-! ## Handlers -/

/-- A server-signed binding is valid from the epoch to the end of the century. -/
def BINDING_NOT_BEFORE_MS : UInt64 := 0

def BINDING_NOT_AFTER_MS : UInt64 := 4102444800000

/-- What the handlers read of the server's configuration. -/
structure DirectoryConfig where
  dirSigner : Option SigningKey
  directoryPub : Option (Bytes 32)
  delegation : Option DelegationCtx

/-- A request to register.  A key that does not decode is `none`. -/
structure RegisterReq where
  username : String
  encPub : Option (Bytes 32)
  sigPub : Option (Bytes 32)
  mlkemPub : Option (Option (Bytes MLKEM768_PUB_LEN))
  registrationKey : String

inductive RegisterError
  | badRequest
  | forbidden
  | conflict
  | internal (e : DirectoryFault)
  deriving DecidableEq

/-- How the handler answers a refused enrollment. -/
def RegisterError.ofRefusal : EnrollRefusal → RegisterError
  | .keyInvalid => .forbidden
  | .usernameTaken => .conflict
  | .fault e => .internal e

inductive PublishError
  | badRequest
  | forbidden
  | internal (e : DirectoryFault)
  deriving DecidableEq

section Handlers

variable {σ : Type} [UnicodeNormalization] [Ed25519]

def DirectoryConfig.enrollmentOpen (cfg : DirectoryConfig) (nowSecs : UInt64) : Bool :=
  cfg.delegation.elim true fun ctx => ctx.enrollmentOpen nowSecs

/-- The optional key has to decode if it is there. -/
def RegisterReq.mlkem (req : RegisterReq) : Option (Option MlKemPub) :=
  match req.mlkemPub with
  | none => some none
  | some none => none
  | some (some m) => some (some ⟨m⟩)

/-- The binding that the server signs for a registrant. -/
def enrollmentBinding (username : Text) (userId : Id) (encPub sigPub : Bytes 32)
    (mlkemPub : Option MlKemPub) (roles : RoleSet) : DirBinding where
  username := username
  userId := userId
  encPub := ⟨encPub⟩
  sigPub := ⟨sigPub⟩
  keyVersion := 1
  roles := roles
  notBefore := ⟨BINDING_NOT_BEFORE_MS⟩
  notAfter := ⟨BINDING_NOT_AFTER_MS⟩
  mlkemPub := mlkemPub

def signBinding (signer : SigningKey) (b : DirBinding) : StoredBinding where
  bindingBytes := encode b
  signature := signer.signCanonical Label.dirbinding.text b

/-- What the handler hands to the store, once the request is valid. -/
def enrollArgs [Sha256] (req : RegisterReq) (signer : SigningKey) (userId : Id)
    (encPub sigPub : Bytes 32) (username : Text) (mlkemPub : Option MlKemPub) : EnrollArgs where
  regKeyHash := sha256 req.registrationKey.toByteArray.data.toList
  userId := userId
  username := req.username
  encPub := encPub
  sigPub := sigPub
  userBinding :=
    signBinding signer (enrollmentBinding username userId encPub sigPub mlkemPub (.new [.user]))
  adminBinding :=
    signBinding signer
      (enrollmentBinding username userId encPub sigPub mlkemPub (.new [.user, .admin]))

/-- Enroll with a registration key, under the drawn user id. -/
def register [Sha256] (cfg : DirectoryConfig) (store : DirectoryStore σ) (req : RegisterReq)
    (userId : Id) (nowMs dbNowMs : UInt64) : ExceptT RegisterError (StateM σ) Id := do
  let encPub ← orFail req.encPub .badRequest
  let sigPub ← orFail req.sigPub .badRequest
  let username ← liftM ((Text.new req.username).mapError fun _ => RegisterError.badRequest)
  let signer ← orFail cfg.dirSigner .forbidden
  failIf (cfg.enrollmentOpen (nowMs / 1000) = false) .forbidden
  let mlkemPub ← orFail req.mlkem .badRequest
  let _ ← ExceptT.adapt RegisterError.ofRefusal
    (store.enroll (enrollArgs req signer userId encPub sigPub username mlkemPub) dbNowMs)
  pure userId

/-- Publish a binding that the directory key signed.  Bytes that do not decode are `none`. -/
def publishBinding (cfg : DirectoryConfig) (store : DirectoryStore σ)
    (binding : Option (List UInt8)) (signature : Option (Bytes 64)) :
    ExceptT PublishError (StateM σ) Unit := do
  let dirPub ← orFail cfg.directoryPub .forbidden
  let bytes ← orFail binding .badRequest
  let sig ← orFail signature .badRequest
  let b ← liftM ((decode DirBinding bytes).mapError fun _ => PublishError.badRequest)
  failIf (verify dirPub Label.dirbinding.text b sig = false) .forbidden
  ExceptT.adapt PublishError.internal (store.putBinding b.userId b.keyVersion ⟨bytes, sig⟩)

/-! ### What a success says -/

variable {cfg : DirectoryConfig} {store : DirectoryStore σ} {s t : σ}

lemma register_ok [Sha256] {req : RegisterReq} {userId id : Id} {nowMs dbNowMs : UInt64}
    (h : runFrom (register cfg store req userId nowMs dbNowMs) s = (.ok id, t)) :
    id = userId ∧ ∃ encPub sigPub username signer mlkemPub isAdmin, req.encPub = some encPub ∧
      req.sigPub = some sigPub ∧ Text.new req.username = .ok username ∧
      runFrom (store.enroll (enrollArgs req signer userId encPub sigPub username mlkemPub) dbNowMs)
        s = (.ok isAdmin, t) := by
  unfold register at h
  obtain ⟨encPub, henc, h⟩ := orFail_bind_eq_ok.mp h
  obtain ⟨sigPub, hsig, h⟩ := orFail_bind_eq_ok.mp h
  obtain ⟨username, hname, h⟩ := liftM_bind_eq_ok.mp h
  obtain ⟨signer, _, h⟩ := orFail_bind_eq_ok.mp h
  obtain ⟨_, h⟩ := failIf_bind_eq_ok.mp h
  obtain ⟨mlkemPub, _, h⟩ := orFail_bind_eq_ok.mp h
  obtain ⟨isAdmin, u, henroll, h⟩ := adapt_bind_eq_ok.mp h
  obtain ⟨hid, rfl⟩ := Prod.mk.inj h
  exact ⟨(Except.ok.inj hid).symm, encPub, sigPub, username, signer, mlkemPub, isAdmin, henc, hsig,
    mapError_eq_ok.mp hname, henroll⟩

lemma atomic_register [Sha256] {req : RegisterReq} {userId : Id} {nowMs dbNowMs : UInt64}
    (henroll : ∀ args dbNowMs, Atomic (store.enroll args dbNowMs)) :
    Atomic (register cfg store req userId nowMs dbNowMs) :=
  .orFail_bind fun _ _ => .orFail_bind fun _ _ => .liftM_bind fun _ _ => .orFail_bind fun _ _ =>
    .failIf_bind <| .orFail_bind fun _ _ => .bind_pure <| .adapt <| henroll _ _

/-- The binding is one that the directory key signed. -/
def Signed (cfg : DirectoryConfig) (b : DirBinding) (sig : Bytes 64) : Prop :=
  ∃ dirPub ∈ cfg.directoryPub, verify dirPub Label.dirbinding.text b sig = true

lemma publishBinding_ok {binding : Option (List UInt8)} {signature : Option (Bytes 64)}
    (h : runFrom (publishBinding cfg store binding signature) s = (.ok (), t)) :
    ∃ bytes sig b, binding = some bytes ∧ signature = some sig ∧ decode DirBinding bytes = .ok b ∧
      Signed cfg b sig ∧
      runFrom (store.putBinding b.userId b.keyVersion ⟨bytes, sig⟩) s = (.ok (), t) := by
  unfold publishBinding at h
  obtain ⟨dirPub, hpub, h⟩ := orFail_bind_eq_ok.mp h
  obtain ⟨bytes, hbytes, h⟩ := orFail_bind_eq_ok.mp h
  obtain ⟨sig, hsig, h⟩ := orFail_bind_eq_ok.mp h
  obtain ⟨b, hb, h⟩ := liftM_bind_eq_ok.mp h
  obtain ⟨hverified, h⟩ := failIf_bind_eq_ok.mp h
  rw [runFrom_adapt] at h
  obtain ⟨hresult, rfl⟩ := Prod.mk.inj h
  exact ⟨bytes, sig, b, hbytes, hsig, mapError_eq_ok.mp hb,
    ⟨dirPub, hpub, Bool.not_eq_false _ ▸ hverified⟩, Prod.ext (mapError_eq_ok.mp hresult) rfl⟩

lemma atomic_publishBinding {binding : Option (List UInt8)} {signature : Option (Bytes 64)}
    (hput : ∀ userId keyVersion binding, Atomic (store.putBinding userId keyVersion binding)) :
    Atomic (publishBinding cfg store binding signature) :=
  .orFail_bind fun _ _ => .orFail_bind fun _ _ => .orFail_bind fun _ _ => .liftM_bind fun _ _ =>
    .failIf_bind <| .adapt <| hput _ _ _

end Handlers

/-! ## Requests -/

inductive DirectoryRequest
  | issueKey (keyHash : Bytes 32) (expiresAtMs : UInt64)
  | register (req : RegisterReq) (userId : Id) (nowMs dbNowMs : UInt64)
  | publish (binding : Option (List UInt8)) (signature : Option (Bytes 64))

inductive DirectoryResponse
  | issued (r : Except DirectoryFault Unit)
  | registered (r : Except RegisterError Id)
  | published (r : Except PublishError Unit)
  deriving DecidableEq

abbrev DirectoryPath (σ : Type) := List (σ × DirectoryRequest × DirectoryResponse)

namespace DirectoryRequest

variable {σ : Type} [UnicodeNormalization] [Ed25519] [Sha256]

def serve (cfg : DirectoryConfig) (store : DirectoryStore σ) (request : DirectoryRequest) (s : σ) :
    DirectoryResponse × σ :=
  match request with
  | issueKey keyHash expiresAtMs =>
    let r := runFrom (store.issueRegistrationKey keyHash expiresAtMs) s
    (.issued r.1, r.2)
  | register req userId nowMs dbNowMs =>
    let r := runFrom (MaxSecu.register cfg store req userId nowMs dbNowMs) s
    (.registered r.1, r.2)
  | publish binding signature =>
    let r := runFrom (publishBinding cfg store binding signature) s
    (.published r.1, r.2)

/-- The request gets the response, whatever is delegated at the time. -/
def Runs (cfg : DirectoryConfig) (store : DirectoryStore σ) (s : σ)
    (x : DirectoryRequest × DirectoryResponse) (t : σ) : Prop :=
  ∃ delegation, x.1.serve { cfg with delegation := delegation } store s = (x.2, t)

variable {cfg : DirectoryConfig} {store : DirectoryStore σ} {s t : σ}
  {response : DirectoryResponse}

lemma runs_issueKey {keyHash : Bytes 32} {expiresAtMs : UInt64}
    (h : Runs cfg store s (issueKey keyHash expiresAtMs, response) t) :
    ∃ r, response = .issued r ∧
      runFrom (store.issueRegistrationKey keyHash expiresAtMs) s = (r, t) := by
  obtain ⟨delegation, hserve⟩ := h
  obtain ⟨hresponse, rfl⟩ := Prod.mk.inj hserve
  exact ⟨_, hresponse.symm, rfl⟩

lemma runs_register {req : RegisterReq} {userId : Id} {nowMs dbNowMs : UInt64}
    (h : Runs cfg store s (register req userId nowMs dbNowMs, response) t) :
    ∃ delegation r, response = .registered r ∧
      runFrom (MaxSecu.register { cfg with delegation := delegation } store req userId nowMs
        dbNowMs) s = (r, t) := by
  obtain ⟨delegation, hserve⟩ := h
  obtain ⟨hresponse, rfl⟩ := Prod.mk.inj hserve
  exact ⟨delegation, _, hresponse.symm, rfl⟩

lemma runs_publish {binding : Option (List UInt8)} {signature : Option (Bytes 64)}
    (h : Runs cfg store s (publish binding signature, response) t) :
    ∃ r, response = .published r ∧ runFrom (publishBinding cfg store binding signature) s =
      (r, t) := by
  obtain ⟨delegation, hserve⟩ := h
  obtain ⟨hresponse, rfl⟩ := Prod.mk.inj hserve
  exact ⟨_, hresponse.symm, rfl⟩

end DirectoryRequest

end MaxSecu
