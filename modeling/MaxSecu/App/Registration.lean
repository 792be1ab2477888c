import MaxSecu.App.Keystore
import MaxSecu.Server.DelegationCeremony
import MaxSecu.Server.EnrollOnce

/-!
# Enrollment with a registration key

A device enrolls with the key in its key file: it makes an identity, has the server enroll it, and
only then seals it into the keystore and removes the key file.

The server spends the key for the account that it makes, and the identity is nowhere else until it
is sealed.  If the answer is lost, or the keystore is not written whole, nobody has the keys of the
account.  `stranding_iff` says that a device keeps a way in exactly if that never happens to a call
that the server takes.
-/

namespace MaxSecu

open ExceptRules GuardedUpdate AssociationList

/-! ## The call -/

/-- What becomes of a request.  It can be lost before the server has it or after the server is done
with it. -/
inductive RequestFate
  | lost (how : Halt)
  | unanswered (how : Halt)
  | answered
  deriving DecidableEq

def RequestFate.arrives : RequestFate → Bool
  | lost _ => false
  | unanswered _ | answered => true

structure EnrollInputs where
  username : String
  passphrase : String
  identity : Identity
  keyReadable : Bool
  keystoreSeen : Bool
  request : RequestFate
  delegation : Option DelegationCtx
  userId : Id
  nowMs : UInt64
  dbNowMs : UInt64
  keystoreSeenAgain : Bool
  rand : SealEntropy
  write : PlainWrite
  removeKey : StepEnd

structure RegisteredDto where
  username : String
  userId : Id

/-- The server and the device.  `account` is the name of the account that the registration key of the
device made, and is not stored. -/
structure EnrollWorld where
  server : MemoryDirectory
  device : Device
  account : Option String

def UiError.noRegistrationKey : UiError :=
  ⟨"no_registration_key", "No registration key file on this device."⟩

def UiError.emptyRegistrationKey : UiError :=
  ⟨"no_registration_key", "The registration key file is empty."⟩

def readRegistrationKey (file : Option String) : Except UiError String :=
  match file with
  | none => .error .noRegistrationKey
  | some raw => if trim raw = "" then .error .emptyRegistrationKey else .ok (trim raw)

def UiError.ofRegisterError : RegisterError → UiError
  | .forbidden => ⟨"registration_failed", "The registration key is invalid or already used."⟩
  | .conflict => ⟨"username_taken", "That username is taken."⟩
  | .badRequest | .internal _ => ⟨"register_failed", "Registration failed."⟩

section Call

variable [UnicodeNormalization] [Sha256] [Ed25519] [Argon2id] [Aes256GcmSeal]

/-- The request of an enrollment: the public keys, and the ML-KEM one if there is one. -/
def buildRegisterBody (username : String) (identity : Identity) (key : String) : RegisterReq where
  username := username
  encPub := some identity.encPubBytes
  sigPub := some identity.sig.verifyingKey
  mlkemPub := identity.mlkemPubBytes.map some
  registrationKey := key

/-- The server enrolls the identity, or refuses. -/
def serveEnrollment (cfg : DirectoryConfig) (inputs : EnrollInputs) (key : String)
    (w : EnrollWorld) : Except RegisterError Id × EnrollWorld :=
  let r := runFrom (register { cfg with delegation := inputs.delegation } MemoryDirectory.store
    (buildRegisterBody inputs.username inputs.identity key) inputs.userId inputs.nowMs
    inputs.dbNowMs) w.server
  match r.1 with
  | .ok id => (.ok id, { w with server := r.2, account := some inputs.username })
  | .error e => (.error e, { w with server := r.2 })

def enrollExchange (cfg : DirectoryConfig) (inputs : EnrollInputs) (key : String) :
    ExceptT Halt (StateM EnrollWorld) Id := do
  let w ← get
  match inputs.request with
  | .lost how => throw how
  | .unanswered how =>
    set (serveEnrollment cfg inputs key w).2
    throw how
  | .answered =>
    set (serveEnrollment cfg inputs key w).2
    liftM ((serveEnrollment cfg inputs key w).1.mapError fun e =>
      Halt.error (.ofRegisterError e))

def onDevice {ε α : Type} (x : ExceptT ε (StateM Device) α) : ExceptT ε (StateM EnrollWorld) α :=
  ExceptT.mk fun w =>
    ((runFrom x w.device).1, { w with device := (runFrom x w.device).2 })

/-- After the server enrolled the identity: seal it, and remove the key file, which may fail. -/
def storeIdentity (inputs : EnrollInputs) (userId : Id) :
    ExceptT Halt (StateM EnrollWorld) RegisteredDto := do
  onDevice (sealIdentity inputs.passphrase inputs.identity inputs.keystoreSeenAgain inputs.rand
    inputs.write)
  let w ← get
  match inputs.removeKey with
  | .done => set { w with device := { w.device with registerKey := none } }
  | .failed => pure ()
  | .stopped => throw .stopped
  pure ⟨inputs.username, userId⟩

def registerWithKeyExchange (cfg : DirectoryConfig) (inputs : EnrollInputs) :
    ExceptT Halt (StateM EnrollWorld) RegisteredDto := do
  let w ← get
  let key ← liftM ((readRegistrationKey
    (if inputs.keyReadable then w.device.registerKey else none)).mapError Halt.error)
  liftM (precheck w.device inputs.keystoreSeen inputs.passphrase)
  let userId ← enrollExchange cfg inputs key
  storeIdentity inputs userId

/-! ### The server's part -/

def regKeyHash (key : String) : Bytes 32 := sha256 key.toByteArray.data.toList

structure Takes (cfg : DirectoryConfig) (inputs : EnrollInputs) (key : String)
    (s : MemoryDirectory) : Prop where
  named : ∃ username, Text.new inputs.username = .ok username
  signs : ∃ signer, cfg.dirSigner = some signer
  opened : ({ cfg with delegation := inputs.delegation } : DirectoryConfig).enrollmentOpen
    (inputs.nowMs / 1000) = true
  unspent : regKeyHash key ∈ s.regKeys
  free : inputs.username ∉ s.users

variable {cfg : DirectoryConfig} {inputs : EnrollInputs} {key : String} {w : EnrollWorld}

omit [Argon2id] [Aes256GcmSeal] in
lemma serveEnrollment_of_takes (h : Takes cfg inputs key w.server) :
    ∃ t, serveEnrollment cfg inputs key w =
        (.ok inputs.userId, { w with server := t, account := some inputs.username }) ∧
      t.users.lookup inputs.username = some ⟨inputs.userId, inputs.identity.encPubBytes,
        inputs.identity.sig.verifyingKey⟩ ∧
      regKeyHash key ∉ t.regKeys := by
  obtain ⟨⟨username, hname⟩, ⟨signer, hsigner⟩, hopen, hunspent, hfree⟩ := h
  obtain ⟨mlkem, hmlkem⟩ : ∃ mlkem,
      (buildRegisterBody inputs.username inputs.identity key).mlkem = some mlkem := by
    unfold RegisterReq.mlkem buildRegisterBody
    cases inputs.identity.mlkemPubBytes with
    | none => exact ⟨_, rfl⟩
    | some m => exact ⟨_, rfl⟩
  let args := enrollArgs (buildRegisterBody inputs.username inputs.identity key) signer
    inputs.userId inputs.identity.encPubBytes inputs.identity.sig.verifyingKey username mlkem
  obtain ⟨isAdmin, t, henroll, hlookup, hspent⟩ : ∃ isAdmin t,
      runFrom (MemoryDirectory.enroll args inputs.dbNowMs) w.server = (.ok isAdmin, t) ∧
        t.users.lookup inputs.username = some ⟨inputs.userId, inputs.identity.encPubBytes,
          inputs.identity.sig.verifyingKey⟩ ∧ regKeyHash key ∉ t.regKeys := by
    have hkey : args.regKeyHash ∈ w.server.regKeys := hunspent
    have hnew : args.username ∉ w.server.users := hfree
    unfold MemoryDirectory.enroll
    rw [runFrom_get_bind, runFrom_failIf_bind, if_neg (not_not.mpr hkey), runFrom_failIf_bind,
      if_neg hnew]
    exact ⟨_, _, rfl, AList.lookup_insert _, Finset.notMem_erase _ _⟩
  refine ⟨t, ?_, hlookup, hspent⟩
  have hrun : runFrom (register { cfg with delegation := inputs.delegation } MemoryDirectory.store
      (buildRegisterBody inputs.username inputs.identity key) inputs.userId inputs.nowMs
      inputs.dbNowMs) w.server = (.ok inputs.userId, t) := by
    have hname' : Text.new (buildRegisterBody inputs.username inputs.identity key).username =
        .ok username := hname
    unfold register
    refine orFail_bind_eq_ok.mpr ⟨_, rfl, orFail_bind_eq_ok.mpr ⟨_, rfl, ?_⟩⟩
    refine liftM_bind_eq_ok.mpr ⟨username, mapError_eq_ok.mpr hname', ?_⟩
    refine orFail_bind_eq_ok.mpr ⟨signer, hsigner, failIf_bind_eq_ok.mpr ⟨?_, ?_⟩⟩
    · rw [hopen]
      simp
    · exact orFail_bind_eq_ok.mpr ⟨mlkem, hmlkem,
        adapt_bind_eq_ok.mpr ⟨isAdmin, t, henroll, runFrom_pure _ _⟩⟩
  unfold serveEnrollment
  rw [hrun]

omit [Argon2id] [Aes256GcmSeal] in
lemma serveEnrollment_of_not_takes (h : ¬ Takes cfg inputs key w.server) :
    ∃ e, serveEnrollment cfg inputs key w = (.error e, w) := by
  have hatomic : Atomic (register { cfg with delegation := inputs.delegation }
      MemoryDirectory.store (buildRegisterBody inputs.username inputs.identity key)
      inputs.userId inputs.nowMs inputs.dbNowMs) :=
    atomic_register MemoryDirectory.atomic_enroll
  obtain ⟨hfail, hsame⟩ | ⟨id, t, hrun⟩ := hatomic.run_cases w.server
  · unfold serveEnrollment
    cases hresult : (runFrom (register { cfg with delegation := inputs.delegation }
      MemoryDirectory.store (buildRegisterBody inputs.username inputs.identity key)
      inputs.userId inputs.nowMs inputs.dbNowMs) w.server).1 with
    | ok id =>
      rw [hresult] at hfail
      exact absurd hfail (by simp [Except.isOk, Except.toBool])
    | error e =>
      refine ⟨e, ?_⟩
      dsimp only
      rw [hresult, hsame]
  · refine absurd ?_ h
    unfold register at hrun
    obtain ⟨encPub, henc, hrun⟩ := orFail_bind_eq_ok.mp hrun
    obtain ⟨sigPub, hsig, hrun⟩ := orFail_bind_eq_ok.mp hrun
    obtain ⟨username, hname, hrun⟩ := liftM_bind_eq_ok.mp hrun
    obtain ⟨signer, hsigner, hrun⟩ := orFail_bind_eq_ok.mp hrun
    obtain ⟨hopen, hrun⟩ := failIf_bind_eq_ok.mp hrun
    obtain ⟨mlkem, -, hrun⟩ := orFail_bind_eq_ok.mp hrun
    obtain ⟨isAdmin, u, henroll, -⟩ := adapt_bind_eq_ok.mp hrun
    obtain ⟨hunspent, hfree, -, -⟩ := MemoryDirectory.enroll_ok inputs.dbNowMs henroll
    exact ⟨⟨username, mapError_eq_ok.mp hname⟩, ⟨signer, hsigner⟩, by simpa using hopen, hunspent,
      hfree⟩

/-! ### The whole call -/

/-- The call gets as far as an account: the device lets it, the request arrives, and the server takes
it. -/
structure Enrolls (cfg : DirectoryConfig) (inputs : EnrollInputs) (key : String)
    (w : EnrollWorld) : Prop where
  readable : inputs.keyReadable = true
  keyFile : readRegistrationKey w.device.registerKey = .ok key
  absent : w.device.exists inputs.keystoreSeen = false
  strong : Password.check inputs.passphrase = .ok ()
  arrives : inputs.request.arrives = true
  takes : Takes cfg inputs key w.server

omit [Aes256GcmSeal] [Argon2id] in
lemma enrollExchange_state : (runFrom (enrollExchange cfg inputs key) w).2 =
    if inputs.request.arrives then (serveEnrollment cfg inputs key w).2 else w := by
  unfold enrollExchange
  rw [runFrom_get_bind]
  cases inputs.request with
  | lost how => rfl
  | unanswered how => rfl
  | answered => rfl

omit [Aes256GcmSeal] [Argon2id] in
lemma enrollExchange_ok {id : Id} {u : EnrollWorld} :
    runFrom (enrollExchange cfg inputs key) w = (.ok id, u) ↔
      inputs.request = .answered ∧ serveEnrollment cfg inputs key w = (.ok id, u) := by
  unfold enrollExchange
  rw [runFrom_get_bind]
  constructor
  · intro h
    have hresult := congrArg Prod.fst h
    cases hfate : inputs.request with
    | lost how =>
      rw [hfate] at hresult
      have hthrown : (Except.error how : Except Halt Id) = .ok id := hresult
      exact absurd hthrown (by simp)
    | unanswered how =>
      rw [hfate] at hresult
      have hthrown : (Except.error how : Except Halt Id) = .ok id := hresult
      exact absurd hthrown (by simp)
    | answered =>
      rw [hfate] at h
      obtain ⟨hanswer, hstate⟩ := Prod.mk.inj h
      exact ⟨rfl, Prod.ext (mapError_eq_ok.mp hanswer) hstate⟩
  · rintro ⟨hfate, hserve⟩
    rw [hfate]
    dsimp only
    rw [hserve]
    rfl

lemma call_of_checks (hreadable : inputs.keyReadable = true)
    (hkey : readRegistrationKey w.device.registerKey = .ok key)
    (habsent : w.device.exists inputs.keystoreSeen = false)
    (hstrong : Password.check inputs.passphrase = .ok ()) :
    runFrom (registerWithKeyExchange cfg inputs) w =
      runFrom (enrollExchange cfg inputs key >>= storeIdentity inputs) w := by
  unfold registerWithKeyExchange
  rw [runFrom_get_bind, runFrom_liftM_bind, if_pos hreadable, hkey]
  dsimp only [Except.mapError]
  rw [runFrom_liftM_bind, precheck_eq_ok.mpr ⟨habsent, hstrong⟩]

lemma call_of_not_enrolls (h : ∀ key, ¬ Enrolls cfg inputs key w) :
    (runFrom (registerWithKeyExchange cfg inputs) w).2 = w := by
  by_cases hread : ∃ key, inputs.keyReadable = true ∧
      readRegistrationKey w.device.registerKey = .ok key
  · obtain ⟨key, hreadable, hkey⟩ := hread
    by_cases hcheck : precheck w.device inputs.keystoreSeen inputs.passphrase = .ok ()
    · obtain ⟨habsent, hstrong⟩ := precheck_eq_ok.mp hcheck
      rw [call_of_checks hreadable hkey habsent hstrong]
      -- the server does not have the request, or it refuses it
      have hsame : (runFrom (enrollExchange cfg inputs key) w).2 = w := by
        rw [enrollExchange_state]
        by_cases harrives : inputs.request.arrives = true
        · have hrefused : ¬ Takes cfg inputs key w.server := fun htakes =>
            h key ⟨hreadable, hkey, habsent, hstrong, harrives, htakes⟩
          obtain ⟨e, hserve⟩ := serveEnrollment_of_not_takes hrefused
          rw [if_pos harrives, hserve]
        · rw [if_neg harrives]
      cases hresult : (runFrom (enrollExchange cfg inputs key) w).1 with
      | error e => rw [runFrom_bind_error (Prod.ext hresult hsame)]
      | ok id =>
        obtain ⟨hanswered, hserve⟩ := enrollExchange_ok.mp (Prod.ext hresult hsame)
        have harrives : inputs.request.arrives = true := by rw [hanswered]; rfl
        have hrefused : ¬ Takes cfg inputs key w.server := fun htakes =>
          h key ⟨hreadable, hkey, habsent, hstrong, harrives, htakes⟩
        obtain ⟨e, hserve'⟩ := serveEnrollment_of_not_takes hrefused
        rw [hserve'] at hserve
        exact absurd (congrArg Prod.fst hserve) (by simp)
    · unfold registerWithKeyExchange
      rw [runFrom_get_bind, runFrom_liftM_bind, if_pos hreadable, hkey]
      dsimp only [Except.mapError]
      rw [runFrom_liftM_bind]
      cases hpre : precheck w.device inputs.keystoreSeen inputs.passphrase with
      | error e => rfl
      | ok _ => exact absurd hpre hcheck
  · unfold registerWithKeyExchange
    rw [runFrom_get_bind, runFrom_liftM_bind]
    cases hkey : readRegistrationKey
        (if inputs.keyReadable then w.device.registerKey else none) with
    | error e => rfl
    | ok key =>
      refine absurd ?_ hread
      by_cases hreadable : inputs.keyReadable = true
      · rw [if_pos hreadable] at hkey
        exact ⟨key, hreadable, hkey⟩
      · rw [if_neg hreadable] at hkey
        exact absurd hkey (by simp [readRegistrationKey])

/-- What a call leaves that enrolls: the account, and on the device what the sealing left, with the
key file perhaps removed. -/
lemma call_of_enrolls (h : Enrolls cfg inputs key w) :
    ∃ t device registerKey, (runFrom (registerWithKeyExchange cfg inputs) w).2 =
        ⟨t, { device with registerKey := registerKey }, some inputs.username⟩ ∧
      t.users.lookup inputs.username = some ⟨inputs.userId, inputs.identity.encPubBytes,
        inputs.identity.sig.verifyingKey⟩ ∧
      regKeyHash key ∉ t.regKeys ∧
      (registerKey = none ∨ registerKey = device.registerKey) ∧
      device = if inputs.request = .answered then
          (runFrom (sealIdentity inputs.passphrase inputs.identity inputs.keystoreSeenAgain
            inputs.rand inputs.write) w.device).2
        else w.device := by
  obtain ⟨t, hserve, hlookup, hspent⟩ := serveEnrollment_of_takes h.takes
  rw [call_of_checks h.readable h.keyFile h.absent h.strong]
  have harrived : (runFrom (enrollExchange cfg inputs key) w).2 =
      { w with server := t, account := some inputs.username } := by
    rw [enrollExchange_state, if_pos h.arrives, hserve]
  by_cases hanswered : inputs.request = .answered
  · rw [if_pos hanswered, runFrom_bind_ok (enrollExchange_ok.mpr ⟨hanswered, hserve⟩)]
    unfold storeIdentity
    cases hseal : runFrom (sealIdentity inputs.passphrase inputs.identity
      inputs.keystoreSeenAgain inputs.rand inputs.write) w.device with
    | mk result device =>
      have hdevice : runFrom (onDevice (sealIdentity inputs.passphrase inputs.identity
          inputs.keystoreSeenAgain inputs.rand inputs.write))
          { w with server := t, account := some inputs.username } =
            (result, ⟨t, device, some inputs.username⟩) := by
        unfold onDevice
        rw [runFrom_mk, hseal]
      cases result with
      | error e =>
        rw [runFrom_bind_error hdevice]
        exact ⟨t, device, device.registerKey, rfl, hlookup, hspent, .inr rfl, rfl⟩
      | ok _ =>
        rw [runFrom_bind_ok hdevice, runFrom_get_bind]
        cases inputs.removeKey with
        | done => exact ⟨t, device, none, rfl, hlookup, hspent, .inl rfl, rfl⟩
        | failed => exact ⟨t, device, device.registerKey, rfl, hlookup, hspent, .inr rfl, rfl⟩
        | stopped => exact ⟨t, device, device.registerKey, rfl, hlookup, hspent, .inr rfl, rfl⟩
  · rw [if_neg hanswered]
    cases hresult : (runFrom (enrollExchange cfg inputs key) w).1 with
    | ok id => exact absurd (enrollExchange_ok.mp (Prod.ext hresult harrived)).1 hanswered
    | error e =>
      rw [runFrom_bind_error (Prod.ext hresult harrived)]
      exact ⟨t, w.device, w.device.registerKey, rfl, hlookup, hspent, .inr rfl, rfl⟩

end Call

/-! ## Runs -/

/-- What a step of others may do with the registration key of the device: nothing. -/
def EnrollmentCall.names (keyHash : Bytes 32) : EnrollmentCall → Bool
  | issueRegistrationKey h _ | consumeRegistrationKey h _ => h = keyHash
  | enroll args _ => args.regKeyHash = keyHash
  | putBinding _ _ _ => false

/-- A call of the device, a change of the passphrase, or a call of others to the server. -/
inductive EnrollStep
  | call (inputs : EnrollInputs)
  | changePassword (change : PasswordChange)
  | others (x : EnrollmentCall × EnrollmentReply)

section Runs

variable [UnicodeNormalization] [Sha256] [Ed25519] [Argon2id] [Aes256Gcm] [Aes256GcmSeal]
  [MlKem768Keygen]

namespace EnrollWorld

/-- Between the steps no call is in progress.  A passphrase other than the one of the keystore does
not open it. -/
def Next (cfg : DirectoryConfig) (key : String) (w : EnrollWorld) (step : EnrollStep)
    (w' : EnrollWorld) : Prop :=
  match step with
  | .call inputs => Keyblob.WellFormed inputs.identity ∧
      w' = (runFrom (registerWithKeyExchange cfg inputs) w).2
  | .changePassword change =>
      (∀ identity password, w.device.sealedUnder = some (identity, password) →
        change.old = password ∨ ∀ other, w.device.unlock change.old ≠ .ok other) ∧
      w' = { w with device := (runFrom (MaxSecu.changePassword change) w.device).2 }
  | .others x => x.1.names (regKeyHash key) = false ∧
      ∃ t, EnrollmentCall.Runs MemoryDirectory.store w.server x t ∧ w' = { w with server := t }

/-- The key file can still enroll an account. -/
structure CanEnroll (key : String) (w : EnrollWorld) : Prop where
  unspent : regKeyHash key ∈ w.server.regKeys
  absent : w.device.keystore = none
  keyFile : readRegistrationKey w.device.registerKey = .ok key

/-- The account that the registration key made has the keys of the identity in the keystore, which
opens. -/
def Holds (w : EnrollWorld) : Prop :=
  ∃ username row identity password, w.account = some username ∧
    w.server.users.lookup username = some row ∧ row.encPub = identity.encPubBytes ∧
    row.sigPub = identity.sig.verifyingKey ∧
    w.device.sealedUnder = some (identity, password) ∧ w.device.unlock password = .ok identity

/-- The device has a way in, or can still get one, and its keystore opens if it is there. -/
def NotStranded (key : String) (w : EnrollWorld) : Prop :=
  (w.account = none ∧ w.CanEnroll key ∨ w.Holds) ∧ w.device.Intact

/-- A call that makes the account gets its answer and puts the whole identity into the keystore. -/
def Undisturbed (cfg : DirectoryConfig) (key : String) (w : EnrollWorld) : EnrollStep → Prop
  | .call inputs => Enrolls cfg inputs key w →
      inputs.request = .answered ∧ inputs.write.Complete (Keyblob.blobLength inputs.identity)
  | .changePassword _ | .others _ => True

/-- What undisturbed runs keep: the account is still to be made, or it is made, the key is spent, and
the key file is gone or as it was. -/
def Inv (key : String) (w : EnrollWorld) : Prop :=
  (w.account = none ∧ w.CanEnroll key) ∨
    (w.Holds ∧ regKeyHash key ∉ w.server.regKeys ∧
      (w.device.registerKey = none ∨ readRegistrationKey w.device.registerKey = .ok key))

variable {cfg : DirectoryConfig} {key : String} {w w' : EnrollWorld} {step : EnrollStep}

omit [UnicodeNormalization] [Aes256GcmSeal] in
lemma Inv.notStranded (h : w.Inv key) : w.NotStranded key := by
  obtain ⟨hnone, hcan⟩ | ⟨hholds, -, -⟩ := h
  · refine ⟨.inl ⟨hnone, hcan⟩, ?_⟩
    intro hsome
    rw [hcan.absent] at hsome
    exact absurd hsome (by simp)
  · refine ⟨.inr hholds, ?_⟩
    obtain ⟨_, _, identity, password, _, _, _, _, hsealed, hunlock⟩ := hholds
    exact fun _ => ⟨identity, password, hsealed, hunlock⟩

lemma holds_iff (haead : AeadOpens) (hargon : ArgonDerives) {inputs : EnrollInputs}
    (hidentity : Keyblob.WellFormed inputs.identity) (hcan : w.CanEnroll key)
    (h : Enrolls cfg inputs key w) :
    (runFrom (registerWithKeyExchange cfg inputs) w).2.Holds ↔
      inputs.request = .answered ∧
        inputs.write.Complete (Keyblob.blobLength inputs.identity) := by
  obtain ⟨t, device, registerKey, hstate, hlookup, -, -, hdevice⟩ := call_of_enrolls h
  rw [hstate]
  by_cases hanswered : inputs.request = .answered
  · rw [if_pos hanswered] at hdevice
    have hunlock := unlock_sealIdentity_iff haead hargon hidentity h.strong hcan.absent
      inputs.keystoreSeenAgain inputs.rand inputs.write
    obtain ⟨-, hmade⟩ := sealIdentity_frame hargon h.strong hcan.absent hdevice
    rw [← hdevice] at hunlock
    rw [← hunlock]
    constructor
    · intro hholds
      obtain ⟨_, _, identity, password, _, _, _, _, hsealed, hopens⟩ := hholds
      have hopens' : device.unlock password = .ok identity := hopens
      have hthere : device.keystore ≠ none := by
        obtain ⟨blob, hblob, -⟩ := unlock_eq_ok.mp hopens'
        simp [hblob]
      have hpair : some (identity, password) = some (inputs.identity, inputs.passphrase) :=
        hsealed.symm.trans (hmade.resolve_left hthere)
      obtain ⟨rfl, rfl⟩ := Prod.mk.inj (Option.some.inj hpair)
      exact ⟨hanswered, hopens'⟩
    · intro hopens
      have hthere : device.keystore ≠ none := by
        obtain ⟨blob, hblob, -⟩ := unlock_eq_ok.mp hopens.2
        simp [hblob]
      exact ⟨inputs.username, _, inputs.identity, inputs.passphrase, rfl, hlookup, rfl, rfl,
        hmade.resolve_left hthere, hopens.2⟩
  · rw [if_neg hanswered] at hdevice
    refine iff_of_false ?_ fun hboth => hanswered hboth.1
    intro hholds
    obtain ⟨_, _, identity, password, _, _, _, _, _, hopens⟩ := hholds
    obtain ⟨blob, hblob, -⟩ := unlock_eq_ok.mp hopens
    have hnone : device.keystore = none := hdevice ▸ hcan.absent
    have hblob' : device.keystore = some blob := hblob
    rw [hnone] at hblob'
    exact absurd hblob' (by simp)

omit [UnicodeNormalization] [Ed25519] [Argon2id] [Aes256Gcm] [Aes256GcmSeal] [MlKem768Keygen] in
/-- A call of others neither spends nor issues the key, and leaves the users that are there. -/
lemma others_frame {x : EnrollmentCall × EnrollmentReply} {s t : MemoryDirectory}
    (hnames : x.1.names (regKeyHash key) = false)
    (hruns : EnrollmentCall.Runs MemoryDirectory.store s x t) :
    (regKeyHash key ∈ t.regKeys ↔ regKeyHash key ∈ s.regKeys) ∧
      ∀ username row, s.users.lookup username = some row → t.users.lookup username = some row := by
  obtain ⟨call, reply⟩ := x
  obtain ⟨-, rfl⟩ := Prod.mk.inj hruns
  cases call with
  | issueRegistrationKey h expiresAtMs =>
    have hother : h ≠ regKeyHash key := of_decide_eq_false hnames
    refine ⟨?_, fun _ _ hrow => hrow⟩
    show regKeyHash key ∈ insert h s.regKeys ↔ _
    simp [hother.symm]
  | consumeRegistrationKey h dbNowMs =>
    have hother : h ≠ regKeyHash key := of_decide_eq_false hnames
    refine ⟨?_, fun _ _ hrow => hrow⟩
    show regKeyHash key ∈ s.regKeys.erase h ↔ _
    simp [hother.symm]
  | putBinding userId keyVersion binding =>
    obtain ⟨bindings, ht⟩ := @MemoryDirectory.putBinding_frame userId keyVersion binding s
    show (regKeyHash key ∈ (runFrom (MemoryDirectory.putBinding userId keyVersion binding)
      s).2.regKeys ↔ _) ∧ ∀ username row, _ → (runFrom (MemoryDirectory.putBinding userId
        keyVersion binding) s).2.users.lookup username = some row
    rw [ht]
    exact ⟨Iff.rfl, fun _ _ hrow => hrow⟩
  | enroll args dbNowMs =>
    have hother : args.regKeyHash ≠ regKeyHash key := of_decide_eq_false hnames
    show (regKeyHash key ∈ (runFrom (MemoryDirectory.enroll args dbNowMs) s).2.regKeys ↔ _) ∧
      ∀ username row, _ → (runFrom (MemoryDirectory.enroll args dbNowMs) s).2.users.lookup
        username = some row
    obtain ⟨-, hsame⟩ | ⟨isAdmin, t, hok⟩ :=
      (MemoryDirectory.atomic_enroll args dbNowMs).run_cases s
    · rw [hsame]
      exact ⟨Iff.rfl, fun _ _ hrow => hrow⟩
    · obtain ⟨_, hfree, _, rfl⟩ := MemoryDirectory.enroll_ok dbNowMs hok
      rw [hok]
      refine ⟨by simp [hother.symm], ?_⟩
      intro username row hrow
      have hne : username ≠ args.username := by
        rintro rfl
        exact hfree (AList.lookup_isSome.mp (by rw [hrow]; rfl))
      show (s.users.insert _ _).lookup username = some row
      rw [AList.lookup_insert_ne hne, hrow]

omit [Argon2id] [Aes256Gcm] [Aes256GcmSeal] [MlKem768Keygen] in
lemma enrolls_key {inputs : EnrollInputs} {key' : String}
    (hfile : w.device.registerKey = none ∨ readRegistrationKey w.device.registerKey = .ok key)
    (h : Enrolls cfg inputs key' w) : key' = key := by
  obtain hnone | hreads := hfile
  · have hread := h.keyFile
    rw [hnone] at hread
    exact absurd hread (by simp [readRegistrationKey])
  · exact Except.ok.inj (h.keyFile.symm.trans hreads)

lemma inv_call (haead : AeadOpens) (hargon : ArgonDerives) {inputs : EnrollInputs}
    (hidentity : Keyblob.WellFormed inputs.identity) (h : w.Inv key)
    (hok : Undisturbed cfg key w (.call inputs)) :
    (runFrom (registerWithKeyExchange cfg inputs) w).2.Inv key := by
  have hfile : w.device.registerKey = none ∨
      readRegistrationKey w.device.registerKey = .ok key := by
    obtain ⟨-, hcan⟩ | ⟨-, -, hfile⟩ := h
    · exact .inr hcan.keyFile
    · exact hfile
  by_cases henrolls : Enrolls cfg inputs key w
  · obtain ⟨-, hcan⟩ | ⟨-, hspent, -⟩ := h
    · have hholds := (holds_iff haead hargon hidentity hcan henrolls).mpr (hok henrolls)
      obtain ⟨t, device, registerKey, hstate, -, hspent, hkey, hdevice⟩ :=
        call_of_enrolls henrolls
      rw [if_pos (hok henrolls).1] at hdevice
      obtain ⟨hsame, -⟩ := sealIdentity_frame hargon henrolls.strong hcan.absent hdevice
      refine .inr ⟨hholds, ?_, ?_⟩
      · rw [hstate]
        exact hspent
      · rw [hstate]
        obtain hgone | hkept := hkey
        · exact .inl hgone
        · right
          show readRegistrationKey registerKey = .ok key
          rw [hkept, hsame]
          exact hcan.keyFile
    · exact absurd henrolls.takes.unspent hspent
  · have hnone : ∀ key', ¬ Enrolls cfg inputs key' w := by
      intro key' hkey'
      obtain rfl := enrolls_key hfile hkey'
      exact henrolls hkey'
    rw [call_of_not_enrolls hnone]
    exact h

/-- An undisturbed step keeps the invariant. -/
theorem inv_step (haead : AeadOpens) (hargon : ArgonDerives) (h : w.Inv key)
    (hok : Undisturbed cfg key w step) (hnext : Next cfg key w step w') : w'.Inv key := by
  cases step with
  | call inputs =>
    obtain ⟨hidentity, rfl⟩ := hnext
    exact inv_call haead hargon hidentity h hok
  | changePassword change =>
    obtain ⟨hold, rfl⟩ := hnext
    obtain hsame | ⟨identity', newBlob, hunlock, hseal, hnew⟩ :=
      changePassword_state change w.device
    · rw [hsame]
      exact h
    · rw [hnew]
      obtain ⟨-, hcan⟩ | ⟨hholds, hspent, hfile⟩ := h
      · obtain ⟨blob, hblob, -⟩ := unlock_eq_ok.mp hunlock
        rw [hcan.absent] at hblob
        exact absurd hblob (by simp)
      · obtain ⟨username, row, identity, password, haccount, hrow, henc, hsig, hsealed, hopens⟩ :=
          hholds
        have hpassword : change.old = password :=
          (hold identity password hsealed).resolve_right fun hwrong => hwrong identity' hunlock
        obtain rfl : identity' = identity := by
          rw [hpassword, hopens] at hunlock
          exact (Except.ok.inj hunlock).symm
        obtain ⟨blob, -, hblob⟩ := unlock_eq_ok.mp hopens
        have hreads := Keyblob.unlock_sealBlob haead (Keyblob.wellFormed_of_unlock hblob) hseal
        exact .inr ⟨⟨username, row, identity', change.new, haccount, hrow, henc, hsig, rfl,
          unlock_eq_ok.mpr ⟨newBlob, rfl, hreads⟩⟩, hspent, hfile⟩
  | others x =>
    obtain ⟨hnames, t, hruns, rfl⟩ := hnext
    obtain ⟨hkeys, husers⟩ := others_frame hnames hruns
    obtain ⟨hnone, hcan⟩ | ⟨hholds, hspent, hfile⟩ := h
    · exact .inl ⟨hnone, hkeys.mpr hcan.unspent, hcan.absent, hcan.keyFile⟩
    · obtain ⟨username, row, identity, password, haccount, hrow, henc, hsig, hsealed, hopens⟩ :=
        hholds
      exact .inr ⟨⟨username, row, identity, password, haccount, husers _ _ hrow, henc, hsig,
        hsealed, hopens⟩, fun hmem => hspent (hkeys.mp hmem), hfile⟩

lemma undisturbed_of_notStranded (haead : AeadOpens) (hargon : ArgonDerives) (h : w.Inv key)
    (hnext : Next cfg key w step w') (hgood : w'.NotStranded key) :
    Undisturbed cfg key w step := by
  cases step with
  | call inputs =>
    obtain ⟨hidentity, rfl⟩ := hnext
    intro henrolls
    obtain ⟨-, hcan⟩ | ⟨-, hspent, -⟩ := h
    · obtain ⟨t, device, registerKey, hstate, -⟩ := call_of_enrolls henrolls
      refine (holds_iff haead hargon hidentity hcan henrolls).mp ?_
      refine hgood.1.resolve_left fun hnone => ?_
      rw [hstate] at hnone
      exact absurd hnone.1 (by simp)
    · exact absurd henrolls.takes.unspent hspent
  | changePassword change => trivial
  | others x => trivial

/-- A device that starts with an unspent key and no keystore is never stranded, in a run of its
calls, exactly if every call that makes the account gets the server's answer and puts all of the
identity into the keystore. -/
theorem stranding_iff (haead : AeadOpens) (hargon : ArgonDerives) (hnone : w.account = none)
    (hcan : w.CanEnroll key) {path : List (EnrollWorld × EnrollStep)}
    (hrun : LabelledRun (Next cfg key) w path w') :
    ((∀ x ∈ path, x.1.NotStranded key) ∧ w'.NotStranded key) ↔
      ∀ x ∈ path, Undisturbed cfg key x.1 x.2 :=
  LabelledRun.all_iff (.inl ⟨hnone, hcan⟩) (fun _ hinv => hinv.notStranded)
    (fun _ _ _ hinv hok hnext => inv_step haead hargon hinv hok hnext)
    (fun _ _ _ hinv hnext hgood => undisturbed_of_notStranded haead hargon hinv hnext hgood) hrun

/-! ### Stranded devices -/

/-- The key is spent, and no keystore opens. -/
structure Stranded (key : String) (w : EnrollWorld) : Prop where
  spent : regKeyHash key ∉ w.server.regKeys
  keyFile : w.device.registerKey = none ∨ readRegistrationKey w.device.registerKey = .ok key
  shut : ∀ password identity, w.device.unlock password ≠ .ok identity

omit [UnicodeNormalization] [Aes256GcmSeal] in
lemma Stranded.not_notStranded (h : w.Stranded key) : ¬ w.NotStranded key := by
  rintro ⟨⟨-, hcan⟩ | hholds, -⟩
  · exact h.spent hcan.unspent
  · obtain ⟨_, _, identity, password, _, _, _, _, _, hopens⟩ := hholds
    exact h.shut password identity hopens

lemma stranded_step (h : w.Stranded key) (hnext : Next cfg key w step w') : w'.Stranded key := by
  cases step with
  | call inputs =>
    obtain ⟨-, rfl⟩ := hnext
    have hnone : ∀ key', ¬ Enrolls cfg inputs key' w := by
      intro key' hkey'
      obtain rfl := enrolls_key h.keyFile hkey'
      exact h.spent hkey'.takes.unspent
    rw [call_of_not_enrolls hnone]
    exact h
  | changePassword change =>
    obtain ⟨-, rfl⟩ := hnext
    obtain hsame | ⟨identity, newBlob, hunlock, -⟩ := changePassword_state change w.device
    · rw [hsame]
      exact h
    · exact absurd hunlock (h.shut change.old identity)
  | others x =>
    obtain ⟨hnames, t, hruns, rfl⟩ := hnext
    obtain ⟨hkeys, -⟩ := others_frame hnames hruns
    exact ⟨fun hmem => h.spent (hkeys.mp hmem), h.keyFile, h.shut⟩

omit [UnicodeNormalization] [Sha256] [Ed25519] in
/-- Of a part of a blob nothing is ever read. -/
lemma shut_sealIdentity (haead : AeadOpens) (hargon : ArgonDerives) {device : Device}
    {passphrase : String} {sealed : Identity} {write : PlainWrite}
    (hcheck : Password.check passphrase = .ok ()) (hnone : device.keystore = none)
    (hpart : ¬ write.Complete (Keyblob.blobLength sealed)) (seen : Bool) (rand : SealEntropy)
    (password : String) (identity : Identity) :
    (runFrom (sealIdentity passphrase sealed seen rand write) device).2.unlock password ≠
      .ok identity := by
  obtain ⟨blob, hblob, hstate⟩ := sealIdentity_state hargon hcheck hnone sealed seen rand write
  have hlength : blob.length = Keyblob.blobLength sealed := (Keyblob.sealBlob_shape haead hblob).2.2
  rw [hstate, ne_eq, unlock_eq_ok]
  rintro ⟨part, hstored, hunlock⟩
  by_cases hopened : write.createDir = .done ∧ write.opened = .done
  · obtain ⟨hfinish, hshort⟩ := not_or.mp fun hall => hpart ⟨hopened.1, hopened.2, hall⟩
    rw [if_pos hopened] at hstored
    obtain rfl : write.contents blob = part := Option.some.inj hstored
    rw [PlainWrite.contents, if_neg hfinish,
      Keyblob.unlock_take haead hblob (hlength ▸ not_le.mp hshort)] at hunlock
    cases hunlock
  · rw [if_neg hopened] at hstored
    exact absurd (hnone.symm.trans hstored) (by simp)

lemma stranded_of_disturbed (haead : AeadOpens) (hargon : ArgonDerives) (h : w.Inv key)
    (hdisturbed : ¬ Undisturbed cfg key w step) (hnext : Next cfg key w step w') :
    w'.Stranded key := by
  cases step with
  | call inputs =>
    obtain ⟨-, rfl⟩ := hnext
    obtain ⟨henrolls, hpart⟩ := Classical.not_imp.mp hdisturbed
    have hcan : w.CanEnroll key :=
      (h.resolve_right fun hspent => hspent.2.1 henrolls.takes.unspent).2
    obtain ⟨t, device, registerKey, hstate, -, hspent, hkey, hdevice⟩ := call_of_enrolls henrolls
    have hkept : device.registerKey = w.device.registerKey ∧
        ∀ password identity, device.unlock password ≠ .ok identity := by
      by_cases hanswered : inputs.request = .answered
      · rw [if_pos hanswered] at hdevice
        refine ⟨(sealIdentity_frame hargon henrolls.strong hcan.absent hdevice).1, ?_⟩
        rw [hdevice]
        exact shut_sealIdentity haead hargon henrolls.strong hcan.absent
          (fun hall => hpart ⟨hanswered, hall⟩) _ _
      · rw [if_neg hanswered] at hdevice
        refine ⟨congrArg Device.registerKey hdevice, fun password identity hopens => ?_⟩
        obtain ⟨blob, hblob, -⟩ := unlock_eq_ok.mp hopens
        rw [hdevice, hcan.absent] at hblob
        cases hblob
    rw [hstate]
    refine ⟨hspent, hkey.imp_right fun hfile => ?_, hkept.2⟩
    exact (congrArg readRegistrationKey (hfile.trans hkept.1)).trans hcan.keyFile
  | changePassword change => exact absurd trivial hdisturbed
  | others x => exact absurd trivial hdisturbed

/-- **Stranded once, stranded for good.**  At the end of a run such a device has a way in exactly if
no call of the run that made the account was disturbed: no retry, restart or change of the passphrase
leads back from a state without one. -/
theorem notStranded_last_iff (haead : AeadOpens) (hargon : ArgonDerives) (hnone : w.account = none)
    (hcan : w.CanEnroll key) {path : List (EnrollWorld × EnrollStep)}
    (hrun : LabelledRun (Next cfg key) w path w') :
    w'.NotStranded key ↔ ∀ x ∈ path, Undisturbed cfg key x.1 x.2 := by
  have hinit : w.Inv key := .inl ⟨hnone, hcan⟩
  have hkeep : ∀ t i u, t.Inv key → Undisturbed cfg key t i → Next cfg key t i u → u.Inv key :=
    fun _ _ _ hinv hok hnext => inv_step haead hargon hinv hok hnext
  constructor
  · intro hgood
    by_contra hnot
    have hstranded : w'.Stranded key := LabelledRun.lost hinit hkeep
      (fun _ _ _ hinv hbad hnext => stranded_of_disturbed haead hargon hinv hbad hnext)
      (fun _ _ _ hlost hnext => stranded_step hlost hnext) hrun hnot
    exact hstranded.not_notStranded hgood
  · intro hok
    exact (LabelledRun.invariant_of_steps hinit hkeep hrun hok).notStranded

end EnrollWorld

end Runs

/-! ### Closed runs -/

section Closed

open ClosedRuns

/-- A server with one registration key out, and a device with its key file. -/
def freshWorld : EnrollWorld where
  server := ⟨∅, ∅, {regKeyHash "k"}, false⟩
  device := ⟨none, some "k\n", none⟩
  account := none

def firstIdentity : Identity := ⟨⟨.replicate 32 1⟩, ⟨.replicate 32 2⟩, ⟨.replicate 32 3⟩, none⟩

def firstEnrollment (request : RequestFate) : EnrollInputs where
  username := "alice"
  passphrase := "tall orange boats"
  identity := firstIdentity
  keyReadable := true
  keystoreSeen := true
  request := request
  delegation := none
  userId := ⟨.replicate 16 1⟩
  nowMs := 0
  dbNowMs := 0
  keystoreSeenAgain := true
  rand := ⟨.replicate 16 1, .replicate 12 1⟩
  write := ⟨.done, .done, 0, .done⟩
  removeKey := .done

def signingServer : DirectoryConfig := ⟨some ⟨.replicate 32 1⟩, some (.replicate 32 1), none⟩

def afterEnrollment (request : RequestFate) : EnrollWorld :=
  (runFrom (registerWithKeyExchange signingServer (firstEnrollment request)) freshWorld).2

lemma canEnroll_freshWorld : freshWorld.CanEnroll "k" :=
  ⟨by decide +kernel, rfl, by decide +kernel⟩

lemma next_firstEnrollment (request : RequestFate) :
    freshWorld.Next signingServer "k" (.call (firstEnrollment request))
      (afterEnrollment request) := by
  refine ⟨?_, rfl⟩
  intro keys hkeys
  exact absurd hkeys (by simp [firstEnrollment, firstIdentity])

lemma run_firstEnrollment (request : RequestFate) :
    LabelledRun (EnrollWorld.Next signingServer "k") freshWorld
      [(freshWorld, .call (firstEnrollment request))] (afterEnrollment request) :=
  .step .start (next_firstEnrollment request)

lemma enrolls_firstEnrollment {request : RequestFate} (harrives : request.arrives = true) :
    Enrolls signingServer (firstEnrollment request) "k" freshWorld where
  readable := rfl
  keyFile := canEnroll_freshWorld.keyFile
  absent := rfl
  strong := by
    show Password.check "tall orange boats" = .ok ()
    decide +kernel
  arrives := harrives
  takes :=
    { named := by
        show ∃ username, Text.new "alice" = .ok username
        exact ⟨⟨"alice", by decide, by decide⟩, by decide +kernel⟩
      signs := ⟨_, rfl⟩
      opened := rfl
      unspent := canEnroll_freshWorld.unspent
      free := by
        show "alice" ∉ (∅ : AList fun _ : String => UserRecord)
        simp }

/-- A call that is answered leaves the device its way in. -/
theorem stranding_answered : (afterEnrollment .answered).NotStranded "k" := by
  refine ((EnrollWorld.stranding_iff aeadOpens argonDerives rfl canEnroll_freshWorld
    (run_firstEnrollment .answered)).mpr ?_).2
  intro x hx
  obtain rfl := List.mem_singleton.mp hx
  exact fun _ => ⟨rfl, rfl, rfl, .inl rfl⟩

/-- A call whose answer is lost strands the device. -/
theorem stranding_unanswered :
    ¬ ∀ (cfg : DirectoryConfig) (key : String) (w w' : EnrollWorld)
      (path : List (EnrollWorld × EnrollStep)), w.account = none → w.CanEnroll key →
      LabelledRun (EnrollWorld.Next cfg key) w path w' →
      (∀ x ∈ path, x.1.NotStranded key) ∧ w'.NotStranded key := by
  intro h
  have hgood := (h signingServer "k" freshWorld _ _ rfl canEnroll_freshWorld
    (run_firstEnrollment (.unanswered .stopped))).2
  have hundisturbed := EnrollWorld.undisturbed_of_notStranded aeadOpens argonDerives
    (.inl ⟨rfl, canEnroll_freshWorld⟩) (next_firstEnrollment _) hgood
  exact absurd (hundisturbed (enrolls_firstEnrollment rfl)).1 (by simp [firstEnrollment])

/-- A second call after a lost answer. -/
theorem notStranded_last_iff_retried :
    ¬ (runFrom (registerWithKeyExchange signingServer (firstEnrollment .answered))
      (afterEnrollment (.unanswered .stopped))).2.NotStranded "k" := by
  have hretry : EnrollWorld.Next signingServer "k" (afterEnrollment (.unanswered .stopped))
      (.call (firstEnrollment .answered)) _ := ⟨(next_firstEnrollment .answered).1, rfl⟩
  rw [EnrollWorld.notStranded_last_iff aeadOpens argonDerives rfl canEnroll_freshWorld
    (.step (run_firstEnrollment (.unanswered .stopped)) hretry)]
  intro hok
  have hfirst := hok (freshWorld, .call (firstEnrollment (.unanswered .stopped))) (by simp)
  exact absurd (hfirst (enrolls_firstEnrollment rfl)).1 (by simp [firstEnrollment])

end Closed

end MaxSecu
