import MaxSecu.App.Keystore

/-!
# First-run setup

The setup tool makes the recovery identity and, for a ceremony, the directory key.  It seals both,
has the server install a delegation under the one and register the other, logs in, mints the first
registration key, and then writes what it sealed to new files.  If a file cannot be written it prints
the sealed blobs.

The server cannot be asked twice for either.  `run_safe_iff` says when what it was given is kept: in
a run where it takes neither, or where every answer up to the minted key arrives and is as it should
be.  Any other run ends before the first file, and prints nothing.
-/

namespace MaxSecu.Setup

open ExceptRules GuardedUpdate

/-! ## Codes and encodings -/

def DELEGATION_WINDOW_SECS : UInt64 := 90 * 86400

def SKEW_WARN_SECS : UInt64 := 5 * 60

inductive SkewVerdict
  | ok
  | warn (magnitude : UInt64) (clientAhead : Bool)
  | abort (magnitude : UInt64)
  deriving DecidableEq

/-- Whether the clocks are too far apart.  Only a client that is ahead is turned down. -/
def assessSkew (localSecs serverSecs : UInt64) : SkewVerdict :=
  let clientAhead := decide (serverSecs ≤ localSecs)
  let magnitude := if clientAhead then localSecs - serverSecs else serverSecs - localSecs
  if clientAhead = true ∧ Delegation.DELEGATION_CLOCK_SKEW_SECS < magnitude then .abort magnitude
  else if SKEW_WARN_SECS < magnitude then .warn magnitude clientAhead
  else .ok

/-- The window of a delegation, by the clock of the client alone. -/
def ceremonyWindow (now : UInt64) : UInt64 × UInt64 :=
  (UInt64.ofNat (now.toNat - Delegation.DELEGATION_CLOCK_SKEW_SECS.toNat),
    UInt64.ofNat (min (now.toNat + DELEGATION_WINDOW_SECS.toNat) (2 ^ 64 - 1)))

def BASE32_ALPHABET : List Char := "ABCDEFGHIJKLMNOPQRSTUVWXYZ234567".toList

/-- The bits of the bytes in groups of five, the last filled with zeros. -/
def base32NoPad (input : List UInt8) : String :=
  let bits := input.flatMap fun byte => (List.range 8).map fun i => byte.toNat.testBit (7 - i)
  let groups := bits.toChunks 5
  String.ofList (groups.map fun group =>
    BASE32_ALPHABET.getD ((group ++ List.replicate (5 - group.length) false).foldl
      (fun n bit => 2 * n + bit.toNat) 0) 'A')

/-- What a connection code says of the two pins. -/
def pinFingerprint [Sha256] (certDer dirDer : List UInt8) : String :=
  let framed (bytes : List UInt8) := Writer.u32 (UInt32.ofNat bytes.length) ++ bytes
  base32NoPad ((sha256 ("MAXSECU-PINS-v1".toByteArray.data.toList ++ framed certDer ++
    framed dirDer)).toList.take 20)

def canonicalPin (encPub : Bytes 32) (mlkemPub : Option (Bytes MLKEM768_PUB_LEN)) : List UInt8 :=
  match mlkemPub with
  | none => encPub.toList ++ [0]
  | some m => encPub.toList ++ (1 :: m.toList)

def hexDigitValue (c : Char) : Option UInt8 :=
  if '0' ≤ c ∧ c ≤ '9' then some (UInt8.ofNat (c.toNat - '0'.toNat))
  else if 'a' ≤ c ∧ c ≤ 'f' then some (UInt8.ofNat (c.toNat - 'a'.toNat + 10))
  else if 'A' ≤ c ∧ c ≤ 'F' then some (UInt8.ofNat (c.toNat - 'A'.toNat + 10))
  else none

/-- Two characters as a byte; a plus sign may stand before one digit. -/
def hexPair (a b : Char) : Option UInt8 := do
  let low ← hexDigitValue b
  if a = '+' then pure low
  else
    let high ← hexDigitValue a
    pure (16 * high + low)

def hexBytes : List Char → Option (List UInt8)
  | [] => some []
  | [_] => none
  | a :: b :: rest => do
    let byte ← hexPair a b
    let bytes ← hexBytes rest
    pure (byte :: bytes)

def hex16 (s : String) : Option (Bytes 16) := do
  let bytes ← hexBytes s.toList
  if h : bytes.length = 16 then some ⟨bytes, h⟩ else none

/-! ## The server and the disk -/

structure CeremonyOpts where
  token : String
  serverCert : List UInt8
  connectAddr : String
  d5Out : String
  d5RecoveryOut : String
  dirPubOut : String

structure SetupOpts where
  out : String
  pinOut : String
  firstKeyOut : String
  passphrase : String
  ceremony : Option CeremonyOpts

inductive SetupError
  | alreadyRegistered
  | alreadyDelegated
  | delegationBadToken
  | delegationBadCert
  | delegationRejected (reason detail : String)
  | clockSkew (localSecs serverSecs magnitude : UInt64)
  | precheck (message : String)
  | network (message : String)
  | protocol (message : String)
  | io (message : String)
  deriving DecidableEq

/-- What becomes of a request for a body of type `α`. -/
inductive HttpReply (α : Type)
  | lost (message : String)
  | answered (status : ℕ) (body : α)

/-- What becomes of a request that the server may commit.  It answers 201 only after it did. -/
structure CommitReply (α : Type) where
  committed : Bool
  reply : HttpReply α
  created : ∀ body, reply = .answered 201 body → committed = true

structure OperationalKeyBody where
  operationalPub : Option (Bytes 32)
  serverUnixSecs : Option UInt64

structure RejectedBody where
  error : Option String
  detail : Option String

/-- The fields of a challenge.  A blob that is not base64 is `some none`. -/
structure ChallengeBody where
  suite : Option String
  serverId : Option String
  challengeId : Option String
  wrappedBlob : Option (Option (List UInt8))

inductive SetupRequest
  | operationalKey
  | delegation (token : String) (directoryPub : Bytes 32) (cert : List UInt8)
  | register (encPub sigPub : Bytes 32) (mlkemPub : Option (Bytes MLKEM768_PUB_LEN))
  | challenge
  | verify (challengeId : String) (proof : Bytes 64) (timestamp : UInt64)
  | mint (sessionToken : String)

inductive Artifact
  | out
  | pinOut
  | firstKeyOut
  | dirPubOut
  | d5Out
  | d5RecoveryOut

/-- How the steps of a new file end.  A write that fails leaves some of the bytes. -/
structure NewFileFate where
  createDir : Except String Unit
  opened : Except String Unit
  cut : Option (ℕ × String)

/-- What the run draws, and what it gets from the network and from the disk. -/
structure SetupInputs where
  recovery : Identity
  d5 : SigningKey
  recoveryRand : SealEntropy
  d5Rand : SealEntropy
  d5BackupRand : SealEntropy
  pathExists : String → Bool
  connect : Except String (Bytes 32)
  operationalKey : HttpReply OperationalKeyBody
  nowSecs : UInt64
  delegation : CommitReply RejectedBody
  register : CommitReply Unit
  challenge : HttpReply ChallengeBody
  nowMs : UInt64
  verify : HttpReply (Option String)
  mint : HttpReply (Option String)
  disk : Artifact → NewFileFate

structure EmergencyDump where
  sealedRecovery : List UInt8
  firstKey : String
  d5 : Option (List UInt8 × String)
  deriving DecidableEq

structure RecoveryKeys where
  encPub : Bytes 32
  sigPub : Bytes 32
  mlkemPub : Option (Bytes MLKEM768_PUB_LEN)
  deriving DecidableEq

/-- What the run did: the requests that it sent, what the server took of them, the files that it made
and the block that it printed. -/
structure SetupWorld where
  sent : List SetupRequest
  delegated : Option (Bytes 32)
  registered : Option RecoveryKeys
  files : List (String × List UInt8)
  printed : Option EmergencyDump

def SetupWorld.start : SetupWorld := ⟨[], none, none, [], none⟩

abbrev SetupM := ExceptT SetupError (StateM SetupWorld)

/-! ## The steps -/

def exchange {α : Type} (request : SetupRequest) (reply : HttpReply α) : SetupM (ℕ × α) := do
  let w ← get
  set { w with sent := w.sent ++ [request] }
  match reply with
  | .lost message => throw (.network message)
  | .answered status body => pure (status, body)

/-- The same for a request that the server may commit. -/
def exchangeCommit {α : Type} (request : SetupRequest) (reply : CommitReply α)
    (commit : SetupWorld → SetupWorld) : SetupM (ℕ × α) := do
  let w ← get
  set (if reply.committed then commit w else w)
  exchange request reply.reply

def missing {α : Type} (field : Option α) (message : String) : SetupM α :=
  orFail field (.protocol message)

/-- The paths that the run will write to. -/
def SetupOpts.artifactPaths (opts : SetupOpts) : List String :=
  [opts.out, opts.pinOut, opts.firstKeyOut] ++
    opts.ceremony.elim [] fun c => [c.d5Out, c.d5RecoveryOut, c.dirPubOut]

def preflight (opts : SetupOpts) (inputs : SetupInputs) : Except SetupError Unit := do
  (Password.check opts.passphrase).mapError fun _ =>
    SetupError.precheck "recovery seal passphrase is too weak"
  match opts.artifactPaths.find? inputs.pathExists with
  | some path => throw (.precheck
      s!"output path already exists (refusing to overwrite): {path}")
  | none => pure ()

structure PrecomputedD5 where
  d5Pub : Bytes 32
  sealedAtRest : List UInt8
  sealedBackup : List UInt8
  connectionCode : String

structure CeremonyReport where
  connectionCode : String
  d5Pub : Bytes 32
  d5Out : String
  d5RecoveryOut : String
  dirPubOut : String
  validUntil : UInt64

structure SetupReport where
  recoveryEncPub : Bytes 32
  hybrid : Bool
  out : String
  pinOut : String
  firstKeyOut : String
  ceremony : Option CeremonyReport

def PrecomputedD5.report (d5 : PrecomputedD5) (c : CeremonyOpts) (validUntil : UInt64) :
    CeremonyReport :=
  ⟨d5.connectionCode, d5.d5Pub, c.d5Out, c.d5RecoveryOut, c.dirPubOut, validUntil⟩

def delegationRejected (body : RejectedBody) : SetupError :=
  match body.error with
  | some reason => .delegationRejected reason (body.detail.getD "")
  | none => .delegationBadCert

def challengeCtx (challengeId : Bytes 16) : WrapContext := ⟨⟨challengeId⟩, 0, RECOVERY_ID⟩

/-- Make a file that is not there, and write it. -/
def writeNew (fate : NewFileFate) (path : String) (bytes : List UInt8) : SetupM Unit := do
  liftM (fate.createDir.mapError fun e => SetupError.io s!"create dir {path}: {e}")
  let w ← get
  failIf (path ∈ w.files.map Prod.fst) (.io s!"write {path}: File exists")
  liftM (fate.opened.mapError fun e => SetupError.io s!"write {path}: {e}")
  match fate.cut with
  | none => set { w with files := w.files ++ [(path, bytes)] }
  | some (n, e) =>
    set { w with files := w.files ++ [(path, bytes.take n)] }
    throw (.io s!"write {path}: {e}")

section Run

variable [UnicodeNormalization] [Sha256] [Hkdf] [Ed25519] [X25519] [MlKem768] [Argon2id]
  [Aes256Gcm] [Aes256GcmSeal]

def recoveryKeys (identity : Identity) : RecoveryKeys :=
  ⟨identity.encPubBytes, identity.sig.verifyingKey, identity.mlkemPubBytes⟩

/-- Seal the directory key twice, and make the connection code. -/
def precomputeD5 (passphrase : String) (c : CeremonyOpts) (inputs : SetupInputs) :
    Except SetupError PrecomputedD5 := do
  let d5Pub := inputs.d5.verifyingKey
  let sealedAtRest ← (Seedblob.sealSeed passphrase inputs.d5.seed ARGON2_DESKTOP_TARGET
    inputs.d5Rand).mapError fun _ => SetupError.io "could not seal the D5 key"
  let sealedBackup ← (Seedblob.sealSeed passphrase inputs.d5.seed ARGON2_DESKTOP_TARGET
    inputs.d5BackupRand).mapError fun _ => SetupError.io "could not seal the D5 backup"
  pure ⟨d5Pub, sealedAtRest, sealedBackup,
    s!"{c.connectAddr}#{pinFingerprint c.serverCert d5Pub.toList}"⟩

/-- Fetch the operational key, sign it, and have the server install the delegation. -/
def uploadDelegation (c : CeremonyOpts) (inputs : SetupInputs) : SetupM UInt64 := do
  let (status, body) ← exchange .operationalKey inputs.operationalKey
  failIf (status ≠ 200) (.protocol
    (s!"GET operational-key: unexpected status {status} " ++
      "(is the server running the delegation model?)"))
  let opPub ← missing body.operationalPub "operational-key: missing/bad operational_pub_b64"
  match body.serverUnixSecs.map (assessSkew inputs.nowSecs) with
  | some (.abort magnitude) =>
    throw (.clockSkew inputs.nowSecs (body.serverUnixSecs.getD 0) magnitude)
  | _ => pure ()
  let window := ceremonyWindow inputs.nowSecs
  let d5Pub := inputs.d5.verifyingKey
  let (status, rejected) ← exchangeCommit
    (.delegation c.token d5Pub (Delegation.sign inputs.d5 opPub window.1 window.2))
    inputs.delegation fun w => { w with delegated := some d5Pub }
  match status with
  | 201 => pure window.2
  | 403 => throw .delegationBadToken
  | 409 => throw .alreadyDelegated
  | 400 => throw (delegationRejected rejected)
  | other => throw (.protocol s!"bootstrap delegation: unexpected status {other}")

/-- Register the public keys of the recovery identity. -/
def registerRecovery (inputs : SetupInputs) : SetupM Unit := do
  let keys := recoveryKeys inputs.recovery
  let (status, _) ← exchangeCommit (.register keys.encPub keys.sigPub keys.mlkemPub)
    inputs.register fun w => { w with registered := some keys }
  match status with
  | 201 => pure ()
  | 409 => throw .alreadyRegistered
  | other => throw (.protocol s!"recovery register: unexpected status {other}")

def openChallenge (identity : Identity) (challengeId : Bytes 16) (blob : List UInt8) :
    Except SetupError Dek := do
  let mlkemSeed ← identity.mlkemSeed.elim
    (throw (.protocol "v2 challenge but recovery identity has no ML-KEM")) pure
  let wrapped ← (deserializeHybridWrap blob).mapError
    fun _ => SetupError.protocol "malformed hybrid wrap"
  (unwrapDekHybrid ⟨identity.encSk.bytes, mlkemSeed⟩ wrapped (challengeCtx challengeId)).mapError
    fun _ => SetupError.protocol "recovery nonce unwrap failed"

/-- Log in as the recovery account, over the connection of the exporter. -/
def recoveryLogin (inputs : SetupInputs) (exporter : Bytes 32) : SetupM String := do
  let (status, ch) ← exchange .challenge inputs.challenge
  failIf (status ≠ 200) (.protocol s!"recovery challenge: {status}")
  let serverId ← missing ch.serverId "challenge missing server_id"
  let challengeIdHex ← missing ch.challengeId "challenge missing challenge_id"
  let challengeId ← missing (hex16 challengeIdHex) "bad challenge_id hex"
  let blob ← missing ch.wrappedBlob "challenge missing wrapped_blob_b64"
  let blob ← missing blob "bad wrapped_blob_b64"
  let suite := ch.suite.getD ""
  failIf (suite ≠ "v2")
    (.protocol s!"unexpected challenge suite {suite.quote} (expected v2 hybrid)")
  let nonce ← liftM (openChallenge inputs.recovery challengeId blob)
  let name ← liftM ((Text.new serverId).mapError
    fun _ => SetupError.protocol "server_id not canonical")
  let proof := inputs.recovery.sig.signCanonical Label.auth.text
    (⟨name, ⟨exporter⟩, ⟨nonce.bytes⟩, ⟨inputs.nowMs⟩⟩ : AuthProofContext)
  let (status, token) ← exchange (.verify challengeIdHex proof inputs.nowMs) inputs.verify
  failIf (status ≠ 200) (.protocol s!"recovery verify rejected: {status}")
  missing token "verify missing session_token"

def mintFirstKey (inputs : SetupInputs) (token : String) : SetupM String := do
  let (status, key) ← exchange (.mint token) inputs.mint
  failIf (status ≠ 201) (.protocol s!"mint registration key: {status}")
  missing key "mint response missing registration_key"

/-- Write the files, up to the first that fails. -/
def writeAllArtifacts (opts : SetupOpts) (inputs : SetupInputs) (sealedRecovery pin : List UInt8)
    (firstKey : String) (d5 : Option (CeremonyOpts × PrecomputedD5)) : SetupM Unit := do
  writeNew (inputs.disk .out) opts.out sealedRecovery
  writeNew (inputs.disk .pinOut) opts.pinOut pin
  writeNew (inputs.disk .firstKeyOut) opts.firstKeyOut firstKey.toByteArray.data.toList
  match d5 with
  | none => pure ()
  | some (c, d5) =>
    writeNew (inputs.disk .dirPubOut) c.dirPubOut d5.d5Pub.toList
    writeNew (inputs.disk .d5Out) c.d5Out d5.sealedAtRest
    writeNew (inputs.disk .d5RecoveryOut) c.d5RecoveryOut d5.sealedBackup

def emergencyDump (sealedRecovery : List UInt8) (firstKey : String)
    (d5 : Option (CeremonyOpts × PrecomputedD5)) (w : SetupWorld) : SetupWorld :=
  { w with
    printed := some ⟨sealedRecovery, firstKey, d5.map fun p => (p.2.sealedAtRest,
      p.2.connectionCode)⟩ }

/-- The part of the run before the registration. -/
def ceremonyPart (opts : SetupOpts) (inputs : SetupInputs) : SetupM UInt64 :=
  match opts.ceremony with
  | some c => uploadDelegation c inputs
  | none => pure 0

/-- What the run does between the connection and the first file: the end of the delegation's window
and the first key. -/
def negotiate (opts : SetupOpts) (inputs : SetupInputs) (exporter : Bytes 32) :
    SetupM (UInt64 × String) := do
  let validUntil ← ceremonyPart opts inputs
  registerRecovery inputs
  let token ← recoveryLogin inputs exporter
  let firstKey ← mintFirstKey inputs token
  pure (validUntil, firstKey)

def run (opts : SetupOpts) (inputs : SetupInputs) : SetupM SetupReport := do
  liftM (preflight opts inputs)
  let sealedRecovery ← liftM ((Keyblob.sealBlob opts.passphrase inputs.recovery
    ARGON2_DESKTOP_TARGET inputs.recoveryRand).mapError
      fun _ => SetupError.io "could not seal recovery key")
  let pin := canonicalPin inputs.recovery.encPubBytes inputs.recovery.mlkemPubBytes
  let d5 ← liftM (opts.ceremony.mapM fun c => do
    pure (c, ← precomputeD5 opts.passphrase c inputs))
  let exporter ← liftM (inputs.connect.mapError SetupError.network)
  let (validUntil, firstKey) ← negotiate opts inputs exporter
  tryCatch (writeAllArtifacts opts inputs sealedRecovery pin firstKey d5) fun e => do
    modify (emergencyDump sealedRecovery firstKey d5)
    throw e
  pure
    { recoveryEncPub := inputs.recovery.encPubBytes
      hybrid := inputs.recovery.mlkemPubBytes.isSome
      out := opts.out
      pinOut := opts.pinOut
      firstKeyOut := opts.firstKeyOut
      ceremony := d5.map fun p => p.2.report p.1 validUntil }

/-! ### When the steps succeed -/

/-- The operational key arrives, and the clocks let it be signed. -/
def SetupInputs.KeyFetched (inputs : SetupInputs) : Prop :=
  ∃ opPub secs, inputs.operationalKey = .answered 200 ⟨some opPub, secs⟩ ∧
    ∀ serverSecs, secs = some serverSecs → ∀ magnitude,
      assessSkew inputs.nowSecs serverSecs ≠ .abort magnitude

def SetupInputs.DelegationPasses (inputs : SetupInputs) : Prop :=
  inputs.KeyFetched ∧ ∃ body, inputs.delegation.reply = .answered 201 body

def SetupInputs.RegisterPasses (inputs : SetupInputs) : Prop :=
  inputs.register.reply = .answered 201 ()

/-- The challenge can be answered, and the answer is accepted. -/
def SetupInputs.LoginPasses (inputs : SetupInputs) : Prop :=
  ∃ ch serverId name challengeIdHex challengeId blob nonce token,
    inputs.challenge = .answered 200 ch ∧ ch.suite = some "v2" ∧ ch.serverId = some serverId ∧
    Text.new serverId = .ok name ∧ ch.challengeId = some challengeIdHex ∧
    hex16 challengeIdHex = some challengeId ∧ ch.wrappedBlob = some (some blob) ∧
    openChallenge inputs.recovery challengeId blob = .ok nonce ∧
    inputs.verify = .answered 200 (some token)

def SetupInputs.MintPasses (inputs : SetupInputs) : Prop :=
  ∃ key, inputs.mint = .answered 201 (some key)

end Run

/-! ### Single requests -/

section Requests

variable {opts : SetupOpts} {inputs : SetupInputs} {c : CeremonyOpts} {w : SetupWorld}

lemma runFrom_exchange {α : Type} (request : SetupRequest) (reply : HttpReply α)
    (w : SetupWorld) : runFrom (exchange request reply) w =
      (match reply with
        | .lost message => .error (.network message)
        | .answered status body => .ok (status, body), { w with sent := w.sent ++ [request] }) := by
  cases reply with
  | lost message => rfl
  | answered status body => rfl

lemma runFrom_exchangeCommit {α : Type} (request : SetupRequest) (reply : CommitReply α)
    (commit : SetupWorld → SetupWorld) (w : SetupWorld) :
    runFrom (exchangeCommit request reply commit) w =
      runFrom (exchange request reply.reply) (if reply.committed then commit w else w) := rfl

lemma upload_of_keyFetched [Ed25519] (h : inputs.KeyFetched) :
    ∃ cert, runFrom (uploadDelegation c inputs) w =
      runFrom (do
        let (status, rejected) ← exchangeCommit (.delegation c.token inputs.d5.verifyingKey cert)
          inputs.delegation fun w => { w with delegated := some inputs.d5.verifyingKey }
        match status with
        | 201 => pure (ceremonyWindow inputs.nowSecs).2
        | 403 => throw .delegationBadToken
        | 409 => throw .alreadyDelegated
        | 400 => throw (delegationRejected rejected)
        | other => throw (.protocol s!"bootstrap delegation: unexpected status {other}"))
        { w with sent := w.sent ++ [.operationalKey] } := by
  obtain ⟨opPub, secs, hkey, hskew⟩ := h
  unfold uploadDelegation
  rw [runFrom_bind, runFrom_exchange, hkey]
  dsimp only
  rw [runFrom_failIf_bind, if_neg (by simp)]
  unfold missing
  rw [runFrom_orFail_bind]
  dsimp only [Option.elim]
  cases secs with
  | none => exact ⟨_, rfl⟩
  | some serverSecs =>
    cases hverdict : assessSkew inputs.nowSecs serverSecs with
    | abort magnitude => exact absurd hverdict (hskew _ rfl magnitude)
    | ok =>
      dsimp only [Option.map]
      rw [hverdict]
      exact ⟨_, rfl⟩
    | warn magnitude clientAhead =>
      dsimp only [Option.map]
      rw [hverdict]
      exact ⟨_, rfl⟩

lemma upload_of_not_keyFetched [Ed25519] (h : ¬ inputs.KeyFetched) :
    ∃ e, runFrom (uploadDelegation c inputs) w =
      (.error e, { w with sent := w.sent ++ [.operationalKey] }) := by
  unfold uploadDelegation
  rw [runFrom_bind, runFrom_exchange]
  cases hkey : inputs.operationalKey with
  | lost message => exact ⟨_, rfl⟩
  | answered status body =>
    dsimp only
    rw [runFrom_failIf_bind]
    by_cases hstatus : status = 200
    · rw [if_neg (not_not.mpr hstatus)]
      unfold missing
      rw [runFrom_orFail_bind]
      obtain ⟨opPub, secs⟩ := body
      cases opPub with
      | none => exact ⟨_, rfl⟩
      | some opPub =>
        dsimp only [Option.elim]
        cases secs with
        | none => exact absurd ⟨opPub, none, by rw [hkey, hstatus], by simp⟩ h
        | some serverSecs =>
          cases hverdict : assessSkew inputs.nowSecs serverSecs with
          | abort magnitude =>
            dsimp only [Option.map]
            rw [hverdict]
            exact ⟨_, rfl⟩
          | ok =>
            refine absurd ⟨opPub, some serverSecs, by rw [hkey, hstatus], ?_⟩ h
            rintro _ ⟨⟩ magnitude
            simp [hverdict]
          | warn magnitude clientAhead =>
            refine absurd ⟨opPub, some serverSecs, by rw [hkey, hstatus], ?_⟩ h
            rintro _ ⟨⟩ magnitude
            simp [hverdict]
    · rw [if_pos hstatus]
      exact ⟨_, rfl⟩

lemma upload_passes [Ed25519] (h : inputs.DelegationPasses) :
    ∃ validUntil sent, runFrom (uploadDelegation c inputs) w =
      (.ok validUntil,
        { w with sent := sent, delegated := some inputs.d5.verifyingKey }) := by
  obtain ⟨hkey, body, hreply⟩ := h
  have hcommitted : inputs.delegation.committed = true := inputs.delegation.created body hreply
  obtain ⟨cert, hrun⟩ := upload_of_keyFetched (c := c) (w := w) hkey
  rw [hrun, runFrom_bind, runFrom_exchangeCommit, runFrom_exchange, hreply, if_pos hcommitted]
  exact ⟨_, _, rfl⟩

lemma upload_fails [Ed25519] (h : ¬ inputs.DelegationPasses) :
    ∃ e sent delegated, runFrom (uploadDelegation c inputs) w =
        (.error e, { w with sent := sent, delegated := delegated }) ∧
      (delegated = some inputs.d5.verifyingKey ∧ inputs.KeyFetched ∧
          inputs.delegation.committed = true ∨
        delegated = w.delegated ∧ ¬ (inputs.KeyFetched ∧ inputs.delegation.committed = true)) := by
  by_cases hkey : inputs.KeyFetched
  · obtain ⟨cert, hrun⟩ := upload_of_keyFetched (c := c) (w := w) hkey
    have hend : ∃ e sent, runFrom (uploadDelegation c inputs) w =
        (.error e, { (if inputs.delegation.committed then
          { w with
            sent := w.sent ++ [SetupRequest.operationalKey]
            delegated := some inputs.d5.verifyingKey }
          else { w with sent := w.sent ++ [SetupRequest.operationalKey] }) with sent := sent }) := by
      rw [hrun, runFrom_bind, runFrom_exchangeCommit, runFrom_exchange]
      dsimp only
      generalize (if inputs.delegation.committed then
        ({ w with
          sent := w.sent ++ [.operationalKey]
          delegated := some inputs.d5.verifyingKey } : SetupWorld)
        else { w with sent := w.sent ++ [.operationalKey] }) = u
      cases hreply : inputs.delegation.reply with
      | lost message => exact ⟨_, _, rfl⟩
      | answered status body =>
        have hstatus : status ≠ 201 := by
          rintro rfl
          exact h ⟨hkey, body, hreply⟩
        dsimp only
        split
        · exact absurd rfl hstatus
        all_goals exact ⟨_, _, rfl⟩
    obtain ⟨e, sent, hend⟩ := hend
    by_cases hcommitted : inputs.delegation.committed = true
    · rw [if_pos hcommitted] at hend
      exact ⟨e, sent, _, hend, .inl ⟨rfl, hkey, hcommitted⟩⟩
    · rw [if_neg hcommitted] at hend
      exact ⟨e, sent, _, hend, .inr ⟨rfl, fun hboth => hcommitted hboth.2⟩⟩
  · obtain ⟨e, hrun⟩ := upload_of_not_keyFetched (c := c) (w := w) hkey
    exact ⟨e, _, _, hrun, .inr ⟨rfl, fun hboth => hkey hboth.1⟩⟩

lemma register_passes [Ed25519] (h : inputs.RegisterPasses) :
    ∃ sent, runFrom (registerRecovery inputs) w =
      (.ok (), { w with sent := sent, registered := some (recoveryKeys inputs.recovery) }) := by
  have hcommitted : inputs.register.committed = true := inputs.register.created () h
  unfold SetupInputs.RegisterPasses at h
  unfold registerRecovery
  dsimp only
  rw [runFrom_bind, runFrom_exchangeCommit, runFrom_exchange, h, if_pos hcommitted]
  exact ⟨_, rfl⟩

lemma register_fails [Ed25519] (h : ¬ inputs.RegisterPasses) :
    ∃ e sent, runFrom (registerRecovery inputs) w =
      (.error e, { (if inputs.register.committed then
        { w with registered := some (recoveryKeys inputs.recovery) } else w) with
          sent := sent }) := by
  unfold registerRecovery
  dsimp only
  rw [runFrom_bind, runFrom_exchangeCommit, runFrom_exchange]
  generalize (if inputs.register.committed then
    { w with registered := some (recoveryKeys inputs.recovery) } else w) = u
  cases hreply : inputs.register.reply with
  | lost message => exact ⟨_, _, rfl⟩
  | answered status body =>
    have hstatus : status ≠ 201 := by
      rintro rfl
      exact h hreply
    dsimp only
    split
    · exact absurd rfl hstatus
    all_goals exact ⟨_, _, rfl⟩

/-- Only the requests sent are more. -/
def SetupWorld.Asks (w w' : SetupWorld) : Prop := ∃ sent, w' = { w with sent := sent }

lemma SetupWorld.Asks.refl (w : SetupWorld) : w.Asks w := ⟨w.sent, rfl⟩

lemma SetupWorld.Asks.trans (w₁ w₂ w₃ : SetupWorld) (h : w₁.Asks w₂) (h' : w₂.Asks w₃) :
    w₁.Asks w₃ := by
  obtain ⟨sent, rfl⟩ := h
  obtain ⟨sent', rfl⟩ := h'
  exact ⟨sent', rfl⟩

lemma follows_exchange {α : Type} (request : SetupRequest) (reply : HttpReply α) :
    Follows SetupWorld.Asks (exchange request reply) := by
  intro w
  rw [runFrom_exchange]
  exact ⟨_, rfl⟩

lemma exchange_eq_ok {α : Type} {request : SetupRequest} {reply : HttpReply α} {w w' : SetupWorld}
    {answer : ℕ × α} : runFrom (exchange request reply) w = (.ok answer, w') ↔
      reply = .answered answer.1 answer.2 ∧ w' = { w with sent := w.sent ++ [request] } := by
  rw [runFrom_exchange]
  cases reply with
  | lost message => simp
  | answered status body =>
    obtain ⟨status', body'⟩ := answer
    simp [eq_comm]

section Login

variable [UnicodeNormalization] [Hkdf] [Ed25519] [X25519] [MlKem768] [Aes256Gcm]

lemma follows_recoveryLogin (inputs : SetupInputs) (exporter : Bytes 32) :
    Follows SetupWorld.Asks (recoveryLogin inputs exporter) := by
  unfold recoveryLogin missing
  refine .bind SetupWorld.Asks.trans (follows_exchange _ _) fun answer => ?_
  refine .failIf_bind SetupWorld.Asks.refl ?_
  refine .orFail_bind SetupWorld.Asks.refl fun serverId => ?_
  refine .orFail_bind SetupWorld.Asks.refl fun challengeIdHex => ?_
  refine .orFail_bind SetupWorld.Asks.refl fun challengeId => ?_
  refine .orFail_bind SetupWorld.Asks.refl fun blob => ?_
  refine .orFail_bind SetupWorld.Asks.refl fun blob => ?_
  refine .failIf_bind SetupWorld.Asks.refl ?_
  refine .liftM_bind SetupWorld.Asks.refl fun nonce => ?_
  refine .liftM_bind SetupWorld.Asks.refl fun name => ?_
  refine .bind SetupWorld.Asks.trans (follows_exchange _ _) fun answer' => ?_
  exact .failIf_bind SetupWorld.Asks.refl (.orFail SetupWorld.Asks.refl)

lemma login_iff (exporter : Bytes 32) :
    (∃ token w', runFrom (recoveryLogin inputs exporter) w = (.ok token, w')) ↔
      inputs.LoginPasses := by
  unfold recoveryLogin missing
  constructor
  · rintro ⟨token, w', hrun⟩
    obtain ⟨⟨status, ch⟩, u, hchallenge, hrun⟩ := runFrom_bind_eq_ok.mp hrun
    obtain ⟨hchallenge, -⟩ := exchange_eq_ok.mp hchallenge
    obtain ⟨hstatus, hrun⟩ := failIf_bind_eq_ok.mp hrun
    obtain rfl : status = 200 := not_not.mp hstatus
    obtain ⟨serverId, hserver, hrun⟩ := orFail_bind_eq_ok.mp hrun
    obtain ⟨challengeIdHex, hhex, hrun⟩ := orFail_bind_eq_ok.mp hrun
    obtain ⟨challengeId, hid, hrun⟩ := orFail_bind_eq_ok.mp hrun
    obtain ⟨field, hfield, hrun⟩ := orFail_bind_eq_ok.mp hrun
    obtain ⟨blob, hblob, hrun⟩ := orFail_bind_eq_ok.mp hrun
    obtain ⟨hsuite, hrun⟩ := failIf_bind_eq_ok.mp hrun
    have hsuite : ch.suite = some "v2" := by
      cases hs : ch.suite with
      | none => simp [hs] at hsuite
      | some suite => simpa [hs] using hsuite
    obtain ⟨nonce, hnonce, hrun⟩ := liftM_bind_eq_ok.mp hrun
    obtain ⟨name, hname, hrun⟩ := liftM_bind_eq_ok.mp hrun
    obtain ⟨⟨status', token'⟩, u', hverify, hrun⟩ := runFrom_bind_eq_ok.mp hrun
    obtain ⟨hverify, -⟩ := exchange_eq_ok.mp hverify
    obtain ⟨hstatus', hrun⟩ := failIf_bind_eq_ok.mp hrun
    obtain rfl : status' = 200 := not_not.mp hstatus'
    obtain ⟨rfl, -⟩ := orFail_eq_ok.mp hrun
    exact ⟨ch, serverId, name, challengeIdHex, challengeId, blob, nonce, token, hchallenge,
      hsuite, hserver, mapError_eq_ok.mp hname, hhex, hid, by rw [hfield, hblob], hnonce, hverify⟩
  · rintro ⟨ch, serverId, name, challengeIdHex, challengeId, blob, nonce, token, hchallenge,
      hsuite, hserver, hname, hhex, hid, hblob, hnonce, hverify⟩
    have hfirst : runFrom (exchange .challenge inputs.challenge) w =
        (.ok (200, ch), { w with sent := w.sent ++ [.challenge] }) :=
      exchange_eq_ok.mpr ⟨hchallenge, rfl⟩
    rw [runFrom_bind_ok hfirst]
    dsimp only
    rw [runFrom_failIf_bind, if_neg (by simp), hserver, runFrom_orFail_bind]
    dsimp only [Option.elim]
    rw [hhex, runFrom_orFail_bind]
    dsimp only [Option.elim]
    rw [hid, runFrom_orFail_bind]
    dsimp only [Option.elim]
    rw [hblob, runFrom_orFail_bind]
    dsimp only [Option.elim]
    rw [runFrom_orFail_bind]
    dsimp only [Option.elim]
    rw [runFrom_failIf_bind, if_neg (by simp [hsuite]), runFrom_liftM_bind, hnonce]
    dsimp only
    rw [runFrom_liftM_bind, hname]
    dsimp only [Except.mapError]
    rw [runFrom_bind_ok (exchange_eq_ok.mpr ⟨show inputs.verify = .answered
      (200, some token).1 (200, some token).2 from hverify, rfl⟩)]
    exact ⟨token, _, rfl⟩

end Login

lemma mint_iff (token : String) :
    (∃ key w', runFrom (mintFirstKey inputs token) w = (.ok key, w')) ↔ inputs.MintPasses := by
  unfold mintFirstKey missing
  constructor
  · rintro ⟨key, w', hrun⟩
    obtain ⟨⟨status, field⟩, u, hmint, hrun⟩ := runFrom_bind_eq_ok.mp hrun
    obtain ⟨hmint, -⟩ := exchange_eq_ok.mp hmint
    obtain ⟨hstatus, hrun⟩ := failIf_bind_eq_ok.mp hrun
    obtain rfl : status = 201 := not_not.mp hstatus
    obtain ⟨rfl, -⟩ := orFail_eq_ok.mp hrun
    exact ⟨key, hmint⟩
  · rintro ⟨key, hmint⟩
    rw [runFrom_bind_ok (exchange_eq_ok.mpr ⟨show inputs.mint = .answered
      (201, some key).1 (201, some key).2 from hmint, rfl⟩)]
    exact ⟨key, _, rfl⟩

lemma follows_mintFirstKey (inputs : SetupInputs) (token : String) :
    Follows SetupWorld.Asks (mintFirstKey inputs token) := by
  unfold mintFirstKey missing
  refine .bind SetupWorld.Asks.trans (follows_exchange _ _) fun answer => ?_
  exact .failIf_bind SetupWorld.Asks.refl (.orFail SetupWorld.Asks.refl)

lemma preflight_eq_ok : preflight opts inputs = .ok () ↔
    Password.check opts.passphrase = .ok () ∧
      ∀ path ∈ opts.artifactPaths, inputs.pathExists path = false := by
  unfold preflight
  rw [bind_eq_ok]
  simp only [mapError_eq_ok]
  cases hfind : opts.artifactPaths.find? inputs.pathExists with
  | none =>
    have hfree := List.find?_eq_none.mp hfind
    constructor
    · rintro ⟨_, hcheck, -⟩
      exact ⟨hcheck, fun path hpath => by simpa using hfree path hpath⟩
    · rintro ⟨hcheck, -⟩
      exact ⟨(), hcheck, rfl⟩
  | some path =>
    refine iff_of_false ?_ ?_
    · rintro ⟨_, -, hthrow⟩
      exact absurd hthrow (by simp [throw, throwThe, MonadExceptOf.throw])
    · rintro ⟨-, hfree⟩
      have hthere := List.find?_some hfind
      rw [hfree path (List.mem_of_find?_eq_some hfind)] at hthere
      exact absurd hthere (by simp)

end Requests

/-! ### The network -/

section Negotiation

variable [UnicodeNormalization] [Hkdf] [Ed25519] [X25519] [MlKem768] [Aes256Gcm]
  {opts : SetupOpts} {inputs : SetupInputs} {w : SetupWorld}

/-- Every answer up to the first key arrives and is as it should be. -/
structure Completes (opts : SetupOpts) (inputs : SetupInputs) : Prop where
  delegation : opts.ceremony.isSome = true → inputs.DelegationPasses
  register : inputs.RegisterPasses
  login : inputs.LoginPasses
  mint : inputs.MintPasses

/-- The server takes the delegation or the registration. -/
def TakesEither (opts : SetupOpts) (inputs : SetupInputs) : Prop :=
  (opts.ceremony.isSome = true ∧ inputs.KeyFetched ∧ inputs.delegation.committed = true) ∨
    ((opts.ceremony.isSome = true → inputs.DelegationPasses) ∧ inputs.register.committed = true)

/-- What stands on the disk and on the screen is the same. -/
def SetupWorld.SameOutput (w w' : SetupWorld) : Prop :=
  w'.files = w.files ∧ w'.printed = w.printed

omit [UnicodeNormalization] [Hkdf] [X25519] [MlKem768] [Aes256Gcm] in
lemma ceremony_passes (h : opts.ceremony.isSome = true → inputs.DelegationPasses) :
    ∃ validUntil sent, runFrom (ceremonyPart opts inputs) w =
      (.ok validUntil, { w with
        sent := sent
        delegated := if opts.ceremony.isSome then some inputs.d5.verifyingKey
          else w.delegated }) := by
  unfold ceremonyPart
  cases hceremony : opts.ceremony with
  | none => exact ⟨0, w.sent, rfl⟩
  | some c => exact upload_passes (h (by rw [hceremony]; rfl))

lemma negotiate_completes (exporter : Bytes 32) (h : Completes opts inputs) :
    ∃ validUntil firstKey w', runFrom (negotiate opts inputs exporter) w =
        (.ok (validUntil, firstKey), w') ∧ w.SameOutput w' ∧
      w'.registered = some (recoveryKeys inputs.recovery) ∧
      w'.delegated = if opts.ceremony.isSome then some inputs.d5.verifyingKey
        else w.delegated := by
  obtain ⟨validUntil, sent, hceremony⟩ := ceremony_passes (w := w) h.delegation
  unfold negotiate
  rw [runFrom_bind_ok hceremony]
  obtain ⟨sent', hregister⟩ := register_passes (w := { w with
    sent := sent
    delegated := if opts.ceremony.isSome then some inputs.d5.verifyingKey else w.delegated })
    h.register
  rw [runFrom_bind_ok hregister]
  obtain ⟨token, u, hlogin⟩ := (login_iff (w := { w with
    sent := sent'
    delegated := if opts.ceremony.isSome then some inputs.d5.verifyingKey else w.delegated
    registered := some (recoveryKeys inputs.recovery) }) exporter).mpr h.login
  have hasks := follows_recoveryLogin inputs exporter { w with
    sent := sent'
    delegated := if opts.ceremony.isSome then some inputs.d5.verifyingKey else w.delegated
    registered := some (recoveryKeys inputs.recovery) }
  rw [hlogin] at hasks
  rw [runFrom_bind_ok hlogin]
  obtain ⟨firstKey, u', hmint⟩ := (mint_iff (w := u) token).mpr h.mint
  have hasks' := follows_mintFirstKey inputs token u
  rw [hmint] at hasks'
  rw [runFrom_bind_ok hmint]
  obtain ⟨sent₂, rfl⟩ := hasks
  obtain ⟨sent₃, rfl⟩ := hasks'
  exact ⟨validUntil, firstKey, _, rfl, ⟨rfl, rfl⟩, rfl, rfl⟩

/-- One that does not complete ends with an error, before anything is written.  Something is taken
exactly if the server took the one or the other. -/
lemma negotiate_fails (exporter : Bytes 32) (hdelegated : w.delegated = none)
    (hregistered : w.registered = none) (h : ¬ Completes opts inputs) :
    ∃ e w', runFrom (negotiate opts inputs exporter) w = (.error e, w') ∧ w.SameOutput w' ∧
      (w'.delegated = none ∧ w'.registered = none ↔ ¬ TakesEither opts inputs) := by
  unfold negotiate
  by_cases hpasses : opts.ceremony.isSome = true → inputs.DelegationPasses
  · obtain ⟨validUntil, sent, hceremony⟩ := ceremony_passes (w := w) hpasses
    rw [runFrom_bind_ok hceremony]
    generalize hu : ({ w with
      sent := sent
      delegated := if opts.ceremony.isSome then some inputs.d5.verifyingKey
        else w.delegated } : SetupWorld) = u
    have hsame : w.SameOutput u := by
      rw [← hu]
      exact ⟨rfl, rfl⟩
    have hnone : u.registered = none := by
      rw [← hu]
      exact hregistered
    by_cases hregister : inputs.RegisterPasses
    · -- the registration is committed, whatever fails after it
      have hcommitted : inputs.register.committed = true := inputs.register.created () hregister
      obtain ⟨sent', hregistered'⟩ := register_passes (w := u) hregister
      rw [runFrom_bind_ok hregistered']
      have htaken : TakesEither opts inputs := .inr ⟨hpasses, hcommitted⟩
      suffices hend : ∃ e w', runFrom (do
          let token ← recoveryLogin inputs exporter
          let firstKey ← mintFirstKey inputs token
          pure (validUntil, firstKey)) { u with
            sent := sent'
            registered := some (recoveryKeys inputs.recovery) } = (.error e, w') ∧
          SetupWorld.Asks { u with
            sent := sent'
            registered := some (recoveryKeys inputs.recovery) } w' by
        obtain ⟨e, w', hrun, sent₂, rfl⟩ := hend
        exact ⟨e, _, hrun, hsame, iff_of_false (by simp) (not_not.mpr htaken)⟩
      generalize ({ u with
        sent := sent'
        registered := some (recoveryKeys inputs.recovery) } : SetupWorld) = v
      have hasks := follows_recoveryLogin inputs exporter v
      rcases hlogin : runFrom (recoveryLogin inputs exporter) v with ⟨r, v'⟩
      rw [hlogin] at hasks
      cases r with
      | error e =>
        rw [runFrom_bind_error hlogin]
        exact ⟨e, v', rfl, hasks⟩
      | ok token =>
        rw [runFrom_bind_ok hlogin]
        have hasks' := follows_mintFirstKey inputs token v'
        rcases hmint : runFrom (mintFirstKey inputs token) v' with ⟨r', v₂⟩
        rw [hmint] at hasks'
        cases r' with
        | error e =>
          rw [runFrom_bind_error hmint]
          exact ⟨e, v₂, rfl, hasks.trans _ _ _ hasks'⟩
        | ok firstKey =>
          exact absurd ⟨hpasses, hregister, (login_iff exporter).mp ⟨token, v', hlogin⟩,
            (mint_iff token).mp ⟨firstKey, v₂, hmint⟩⟩ h
    · obtain ⟨e, sent', hfails⟩ := register_fails (w := u) hregister
      rw [runFrom_bind_error hfails]
      refine ⟨e, _, rfl, ?_, ?_⟩
      · cases inputs.register.committed with
        | true => exact hsame
        | false => exact hsame
      · have hinstalled : u.delegated =
            if opts.ceremony.isSome then some inputs.d5.verifyingKey else none := by
          rw [← hu, ← hdelegated]
        cases hcommitted : inputs.register.committed with
        | true =>
          exact iff_of_false (by simp) (not_not.mpr (.inr ⟨hpasses, hcommitted⟩))
        | false =>
          by_cases hceremony : opts.ceremony.isSome = true
          · obtain ⟨hkey, body, hreply⟩ := hpasses hceremony
            have hcreated := inputs.delegation.created body hreply
            rw [if_pos hceremony] at hinstalled
            refine iff_of_false ?_ (not_not.mpr (.inl ⟨hceremony, hkey, hcreated⟩))
            intro hboth
            have hnone' : u.delegated = none := hboth.1
            rw [hinstalled] at hnone'
            exact absurd hnone' (by simp)
          · rw [if_neg hceremony] at hinstalled
            refine iff_of_true ⟨hinstalled, hnone⟩ ?_
            rintro (htaken | htaken)
            · exact hceremony htaken.1
            · rw [hcommitted] at htaken
              exact absurd htaken.2 (by simp)
  · obtain ⟨hceremony, hfails⟩ := Classical.not_imp.mp hpasses
    obtain ⟨c, hc⟩ := Option.isSome_iff_exists.mp hceremony
    obtain ⟨e, sent, delegated, hrun, hcases⟩ := upload_fails (c := c) (w := w) hfails
    have hpart : runFrom (ceremonyPart opts inputs) w =
        (.error e, { w with sent := sent, delegated := delegated }) := by
      unfold ceremonyPart
      rw [hc]
      exact hrun
    rw [runFrom_bind_error hpart]
    refine ⟨e, _, rfl, ⟨rfl, rfl⟩, ?_⟩
    obtain ⟨hsome, htaken⟩ | ⟨hkept, hnot⟩ := hcases
    · refine iff_of_false ?_ (not_not.mpr (.inl ⟨hceremony, htaken⟩))
      intro hboth
      have hnone : delegated = none := hboth.1
      rw [hsome] at hnone
      exact absurd hnone (by simp)
    · refine iff_of_true ⟨hkept.trans hdelegated, hregistered⟩ ?_
      rintro (htaken | htaken)
      · exact hnot htaken.2
      · exact hfails (htaken.1 hceremony)

end Negotiation

/-! ### The files -/

section Files

variable {opts : SetupOpts} {inputs : SetupInputs} {w w' : SetupWorld}

/-- Nothing but files is more. -/
structure SetupWorld.Writes (w w' : SetupWorld) : Prop where
  delegated : w'.delegated = w.delegated
  registered : w'.registered = w.registered
  printed : w'.printed = w.printed
  files : w.files ⊆ w'.files

lemma SetupWorld.Writes.refl (w : SetupWorld) : w.Writes w :=
  ⟨rfl, rfl, rfl, List.Subset.refl _⟩

lemma SetupWorld.Writes.trans (w₁ w₂ w₃ : SetupWorld) (h : w₁.Writes w₂) (h' : w₂.Writes w₃) :
    w₁.Writes w₃ :=
  ⟨h'.delegated.trans h.delegated, h'.registered.trans h.registered, h'.printed.trans h.printed,
    List.Subset.trans h.files h'.files⟩

lemma follows_writeNew (fate : NewFileFate) (path : String) (bytes : List UInt8) :
    Follows SetupWorld.Writes (writeNew fate path bytes) := by
  unfold writeNew
  refine .liftM_bind SetupWorld.Writes.refl fun _ => ?_
  intro w
  rw [runFrom_get_bind]
  rw [runFrom_failIf_bind]
  by_cases hthere : path ∈ w.files.map Prod.fst
  · rw [if_pos hthere]
    exact .refl w
  · rw [if_neg hthere, runFrom_liftM_bind]
    cases fate.opened with
    | error e => exact .refl w
    | ok _ =>
      dsimp only [Except.mapError]
      cases fate.cut with
      | none => exact ⟨rfl, rfl, rfl, List.subset_append_left _ _⟩
      | some cut => exact ⟨rfl, rfl, rfl, List.subset_append_left _ _⟩

lemma writeNew_ok {fate : NewFileFate} {path : String} {bytes : List UInt8}
    (h : runFrom (writeNew fate path bytes) w = (.ok (), w')) : (path, bytes) ∈ w'.files := by
  unfold writeNew at h
  obtain ⟨_, -, h⟩ := liftM_bind_eq_ok.mp h
  rw [runFrom_get_bind] at h
  obtain ⟨-, h⟩ := failIf_bind_eq_ok.mp h
  obtain ⟨_, -, h⟩ := liftM_bind_eq_ok.mp h
  cases hcut : fate.cut with
  | none =>
    rw [hcut] at h
    obtain ⟨-, rfl⟩ := Prod.mk.inj h
    simp
  | some cut =>
    rw [hcut] at h
    have hthrown : (Except.error _ : Except SetupError Unit) = .ok () := congrArg Prod.fst h
    exact absurd hthrown (by simp)

lemma follows_writeAll (opts : SetupOpts) (inputs : SetupInputs) (sealedRecovery pin : List UInt8)
    (firstKey : String) (d5 : Option (CeremonyOpts × PrecomputedD5)) :
    Follows SetupWorld.Writes (writeAllArtifacts opts inputs sealedRecovery pin firstKey d5) := by
  unfold writeAllArtifacts
  refine .bind SetupWorld.Writes.trans (follows_writeNew _ _ _) fun _ => ?_
  refine .bind SetupWorld.Writes.trans (follows_writeNew _ _ _) fun _ => ?_
  refine .bind SetupWorld.Writes.trans (follows_writeNew _ _ _) fun _ => ?_
  cases d5 with
  | none => exact fun w => .refl w
  | some p =>
    refine .bind SetupWorld.Writes.trans (follows_writeNew _ _ _) fun _ => ?_
    exact .bind SetupWorld.Writes.trans (follows_writeNew _ _ _) fun _ => follows_writeNew _ _ _

lemma writeAll_ok {sealedRecovery pin : List UInt8} {firstKey : String}
    {d5 : Option (CeremonyOpts × PrecomputedD5)}
    (h : runFrom (writeAllArtifacts opts inputs sealedRecovery pin firstKey d5) w = (.ok (), w')) :
    (opts.out, sealedRecovery) ∈ w'.files ∧
      ∀ p ∈ d5, (p.1.d5Out, p.2.sealedAtRest) ∈ w'.files := by
  unfold writeAllArtifacts at h
  obtain ⟨_, w₁, hout, h⟩ := runFrom_bind_eq_ok.mp h
  obtain ⟨_, w₂, hpin, h⟩ := runFrom_bind_eq_ok.mp h
  obtain ⟨_, w₃, hkey, h⟩ := runFrom_bind_eq_ok.mp h
  have hmem : (opts.out, sealedRecovery) ∈ w₃.files := by
    have hpin' := follows_writeNew (inputs.disk .pinOut) opts.pinOut pin w₁
    have hkey' := follows_writeNew (inputs.disk .firstKeyOut) opts.firstKeyOut
      firstKey.toByteArray.data.toList w₂
    rw [hpin] at hpin'
    rw [hkey] at hkey'
    exact hkey'.files (hpin'.files (writeNew_ok hout))
  cases d5 with
  | none =>
    obtain ⟨-, rfl⟩ := Prod.mk.inj h
    exact ⟨hmem, by simp⟩
  | some p =>
    obtain ⟨_, w₄, hdir, h⟩ := runFrom_bind_eq_ok.mp h
    obtain ⟨_, w₅, hd5, hbackup⟩ := runFrom_bind_eq_ok.mp h
    have hdir' := follows_writeNew (inputs.disk .dirPubOut) p.1.dirPubOut p.2.d5Pub.toList w₃
    have hd5' := follows_writeNew (inputs.disk .d5Out) p.1.d5Out p.2.sealedAtRest w₄
    have hbackup' := follows_writeNew (inputs.disk .d5RecoveryOut) p.1.d5RecoveryOut
      p.2.sealedBackup w₅
    rw [hdir] at hdir'
    rw [hd5] at hd5'
    rw [hbackup] at hbackup'
    refine ⟨hbackup'.files (hd5'.files (hdir'.files hmem)), ?_⟩
    intro q hq
    obtain rfl := Option.some.inj hq
    exact hbackup'.files (writeNew_ok hd5)

end Files

/-! ### The run -/

/-- The blob is on the disk or on the screen. -/
def SetupWorld.Kept (w : SetupWorld) (blob : List UInt8) : Prop :=
  (∃ path, (path, blob) ∈ w.files) ∨
    ∃ dump, w.printed = some dump ∧ (blob = dump.sealedRecovery ∨
      ∃ d5, dump.d5 = some d5 ∧ blob = d5.1)

section Kept

variable [Ed25519] [MlKem768Keygen] [Argon2id] [Aes256Gcm] {opts : SetupOpts}
  {inputs : SetupInputs}

/-- What the server took is kept under the passphrase, and if it took nothing then no file is made. -/
structure SetupWorld.Safe (passphrase : String) (w : SetupWorld) : Prop where
  delegated : ∀ d, w.delegated = some d → ∃ blob seed, w.Kept blob ∧
    Seedblob.unsealSeed passphrase blob = .ok seed ∧ (⟨seed⟩ : SigningKey).verifyingKey = d
  registered : ∀ keys, w.registered = some keys → ∃ blob identity, w.Kept blob ∧
    Keyblob.unlock passphrase blob = .ok identity ∧ recoveryKeys identity = keys
  untouched : w.delegated = none → w.registered = none → w.files = []

lemma safe_start : SetupWorld.start.Safe opts.passphrase where
  delegated d hd := absurd hd (by simp [SetupWorld.start])
  registered keys hkeys := absurd hkeys (by simp [SetupWorld.start])
  untouched _ _ := rfl

lemma safe_iff_of_silent {w : SetupWorld} (hsilent : SetupWorld.start.SameOutput w) :
    w.Safe opts.passphrase ↔ w.delegated = none ∧ w.registered = none := by
  obtain ⟨hfiles, hprinted⟩ := hsilent
  have hlost : ∀ blob, ¬ w.Kept blob := by
    rintro blob (⟨path, hmem⟩ | ⟨dump, hdump, -⟩)
    · rw [hfiles] at hmem
      exact absurd hmem (by simp [SetupWorld.start])
    · rw [hprinted] at hdump
      exact absurd hdump (by simp [SetupWorld.start])
  constructor
  · intro h
    constructor
    · rw [Option.eq_none_iff_forall_ne_some]
      intro d hd
      obtain ⟨blob, _, hkept, -⟩ := h.delegated d hd
      exact hlost blob hkept
    · rw [Option.eq_none_iff_forall_ne_some]
      intro keys hkeys
      obtain ⟨blob, _, hkept, -⟩ := h.registered keys hkeys
      exact hlost blob hkept
  · rintro ⟨hdelegated, hregistered⟩
    refine ⟨?_, ?_, fun _ _ => hfiles⟩
    · intro d hd
      rw [hdelegated] at hd
      exact absurd hd (by simp)
    · intro keys hkeys
      rw [hregistered] at hkeys
      exact absurd hkeys (by simp)

/-- After a negotiation that completes, both sealed blobs are kept, on the disk or on the screen. -/
lemma safe_of_written [Aes256GcmSeal] (haead : AeadOpens) (hidentity : Keyblob.WellFormed inputs.recovery)
    {sealedRecovery : List UInt8} {d5 : Option (CeremonyOpts × PrecomputedD5)} {w' : SetupWorld}
    (hsealed : Keyblob.sealBlob opts.passphrase inputs.recovery ARGON2_DESKTOP_TARGET
      inputs.recoveryRand = .ok sealedRecovery)
    (hd5 : ∀ p ∈ d5, Seedblob.sealSeed opts.passphrase inputs.d5.seed ARGON2_DESKTOP_TARGET
      inputs.d5Rand = .ok p.2.sealedAtRest)
    (hregistered : w'.registered = some (recoveryKeys inputs.recovery))
    (hdelegated : w'.delegated = if d5.isSome then some inputs.d5.verifyingKey else none)
    (hkept : w'.Kept sealedRecovery) (hkept5 : ∀ p ∈ d5, w'.Kept p.2.sealedAtRest) :
    w'.Safe opts.passphrase := by
  refine ⟨?_, ?_, ?_⟩
  · intro d hd
    rw [hdelegated] at hd
    cases d5 with
    | none => exact absurd hd (by simp)
    | some p =>
      refine ⟨p.2.sealedAtRest, inputs.d5.seed, hkept5 p rfl,
        Seedblob.unsealSeed_sealSeed haead (hd5 p rfl), ?_⟩
      exact Option.some.inj hd
  · intro keys hkeys
    rw [hregistered] at hkeys
    exact ⟨sealedRecovery, inputs.recovery, hkept, Keyblob.unlock_sealBlob haead hidentity hsealed,
      Option.some.inj hkeys⟩
  · intro _ hnone
    rw [hregistered] at hnone
    exact absurd hnone (by simp)

end Kept

section Safety

variable [UnicodeNormalization] [Sha256] [Hkdf] [Ed25519] [X25519] [MlKem768] [MlKem768Keygen]
  [Argon2id] [Aes256Gcm] [Aes256GcmSeal] {opts : SetupOpts} {inputs : SetupInputs}

/-- The run gets to the server: the passphrase passes, no path of an artifact is taken, and the
connection is made. -/
structure Starts (opts : SetupOpts) (inputs : SetupInputs) : Prop where
  strong : Password.check opts.passphrase = .ok ()
  free : ∀ path ∈ opts.artifactPaths, inputs.pathExists path = false
  connects : ∃ exporter, inputs.connect = .ok exporter

omit [UnicodeNormalization] [Hkdf] [X25519] [MlKem768] [MlKem768Keygen] [Aes256Gcm] in
lemma precompute_ok (inputs : SetupInputs) (hargon : ArgonDerives)
    (hcheck : Password.check opts.passphrase = .ok ()) :
    ∃ d5 : Option (CeremonyOpts × PrecomputedD5),
      (opts.ceremony.mapM fun c => do
        pure (c, ← precomputeD5 opts.passphrase c inputs)) = .ok d5 ∧
      d5.isSome = opts.ceremony.isSome ∧
      ∀ p ∈ d5, Seedblob.sealSeed opts.passphrase inputs.d5.seed ARGON2_DESKTOP_TARGET
        inputs.d5Rand = .ok p.2.sealedAtRest := by
  have hbytes := Password.bytes_lt_of_check hcheck
  obtain ⟨atRest, hatRest⟩ := PasswordBlob.sealSecrets_target hargon hbytes Seedblob.MAGIC
    Seedblob.VERSION_V1 inputs.d5.seed.toList inputs.d5Rand
  obtain ⟨backup, hbackup⟩ := PasswordBlob.sealSecrets_target hargon hbytes Seedblob.MAGIC
    Seedblob.VERSION_V1 inputs.d5.seed.toList inputs.d5BackupRand
  cases hceremony : opts.ceremony with
  | none => exact ⟨none, rfl, rfl, by simp⟩
  | some c =>
    have hd5 : precomputeD5 opts.passphrase c inputs = .ok ⟨inputs.d5.verifyingKey, atRest, backup,
        s!"{c.connectAddr}#{pinFingerprint c.serverCert inputs.d5.verifyingKey.toList}"⟩ := by
      unfold precomputeD5
      refine bind_eq_ok.mpr ⟨atRest, mapError_eq_ok.mpr hatRest, ?_⟩
      exact bind_eq_ok.mpr ⟨backup, mapError_eq_ok.mpr hbackup, rfl⟩
    refine ⟨some (c, ⟨inputs.d5.verifyingKey, atRest, backup,
      s!"{c.connectAddr}#{pinFingerprint c.serverCert inputs.d5.verifyingKey.toList}"⟩), ?_, rfl, ?_⟩
    · rw [Option.mapM_some, hd5]
      rfl
    · intro p hp
      obtain rfl := Option.some.inj hp
      exact hatRest

omit [MlKem768Keygen] in
lemma run_of_not_starts (h : ¬ Starts opts inputs) :
    (runFrom (run opts inputs) .start).2 = .start := by
  unfold run
  rw [runFrom_liftM_bind]
  cases hpre : preflight opts inputs with
  | error e => rfl
  | ok _ =>
    dsimp only
    rw [runFrom_liftM_bind]
    cases (Keyblob.sealBlob opts.passphrase inputs.recovery ARGON2_DESKTOP_TARGET
      inputs.recoveryRand).mapError fun _ => SetupError.io "could not seal recovery key" with
    | error e => rfl
    | ok sealedRecovery =>
      dsimp only
      rw [runFrom_liftM_bind]
      cases opts.ceremony.mapM fun c => do
        pure (c, ← precomputeD5 opts.passphrase c inputs) with
      | error e => rfl
      | ok d5 =>
        dsimp only
        rw [runFrom_liftM_bind]
        cases hconnect : inputs.connect with
        | error e => rfl
        | ok exporter =>
          obtain ⟨hstrong, hfree⟩ := preflight_eq_ok.mp hpre
          exact absurd ⟨hstrong, hfree, exporter, hconnect⟩ h

/-- The server takes the delegation or the registration from the run. -/
def Commits (opts : SetupOpts) (inputs : SetupInputs) : Prop :=
  Starts opts inputs ∧ TakesEither opts inputs

/-- A run is safe exactly if the server takes nothing, or every answer up to the first key arrives
and is as it should be. -/
theorem run_safe_iff (haead : AeadOpens) (hargon : ArgonDerives)
    (hidentity : Keyblob.WellFormed inputs.recovery) :
    (runFrom (run opts inputs) .start).2.Safe opts.passphrase ↔
      (Commits opts inputs → Completes opts inputs) := by
  by_cases hstarts : Starts opts inputs
  · have hstarted := hstarts
    obtain ⟨hstrong, hfree, exporter, hconnect⟩ := hstarts
    obtain ⟨sealedRecovery, hsealed⟩ := PasswordBlob.sealSecrets_target hargon
      (Password.bytes_lt_of_check hstrong) Keyblob.MAGIC (Keyblob.secrets inputs.recovery).1
      (Keyblob.secrets inputs.recovery).2 inputs.recoveryRand
    have hblob : Keyblob.sealBlob opts.passphrase inputs.recovery ARGON2_DESKTOP_TARGET
        inputs.recoveryRand = .ok sealedRecovery := hsealed
    obtain ⟨d5, hd5, hsome, hatRest⟩ := precompute_ok inputs hargon hstrong
    unfold run
    rw [runFrom_liftM_bind, preflight_eq_ok.mpr ⟨hstrong, hfree⟩]
    dsimp only
    rw [runFrom_liftM_bind, hblob]
    dsimp only [Except.mapError]
    rw [runFrom_liftM_bind, hd5]
    dsimp only
    rw [runFrom_liftM_bind, hconnect]
    dsimp only [Except.mapError]
    by_cases hcompletes : Completes opts inputs
    · obtain ⟨validUntil, firstKey, w, hnegotiated, hsame, hregistered, hdelegated⟩ :=
        negotiate_completes (w := .start) exporter hcompletes
      refine iff_of_true ?_ fun _ => hcompletes
      rw [runFrom_bind_ok hnegotiated]
      dsimp only
      rw [← hsome] at hdelegated
      have hwrites := follows_writeAll opts inputs sealedRecovery
        (canonicalPin inputs.recovery.encPubBytes inputs.recovery.mlkemPubBytes) firstKey d5 w
      rcases hwrite : runFrom (writeAllArtifacts opts inputs sealedRecovery
        (canonicalPin inputs.recovery.encPubBytes inputs.recovery.mlkemPubBytes) firstKey d5) w
        with ⟨r, w'⟩
      rw [hwrite] at hwrites
      rw [runFrom_bind, runFrom_tryCatch, hwrite]
      cases r with
      | ok _ =>
        obtain ⟨hout, hout5⟩ := writeAll_ok hwrite
        exact safe_of_written haead hidentity hblob hatRest (hwrites.registered.trans hregistered)
          (hwrites.delegated.trans hdelegated) (.inl ⟨_, hout⟩)
          fun p hp => .inl ⟨_, hout5 p hp⟩
      | error e =>
        refine safe_of_written haead hidentity hblob hatRest (hwrites.registered.trans hregistered)
          (hwrites.delegated.trans hdelegated) (.inr ⟨_, rfl, .inl rfl⟩) fun p hp => ?_
        obtain rfl := Option.mem_def.mp hp
        exact .inr ⟨_, rfl, .inr ⟨_, rfl, rfl⟩⟩
    · obtain ⟨e, w, hfailed, hsame, hnothing⟩ :=
        negotiate_fails (w := .start) exporter rfl rfl hcompletes
      rw [runFrom_bind_error hfailed, safe_iff_of_silent hsame, hnothing]
      constructor
      · intro hnone hcommits
        exact absurd hcommits.2 hnone
      · intro himp htaken
        exact hcompletes (himp ⟨hstarted, htaken⟩)
  · rw [run_of_not_starts hstarts]
    exact iff_of_true safe_start fun hcommits => absurd hcommits.1 hstarts

end Safety

/-! ### Closed runs -/

section Closed

open ClosedRuns

def setupIdentity : Identity :=
  ⟨⟨.replicate 32 1⟩, ⟨.replicate 32 2⟩, ⟨.replicate 32 3⟩,
    some ⟨.replicate 64 4, .replicate MLKEM768_PUB_LEN 0⟩⟩

def plainSetup : SetupOpts := ⟨"out", "pin", "key", "tall orange boats", none⟩

/-- A server that registers the recovery identity, and then answers as it should. -/
def setupInputs (reply : HttpReply Unit) : SetupInputs where
  recovery := setupIdentity
  d5 := ⟨.replicate 32 5⟩
  recoveryRand := ⟨.replicate 16 1, .replicate 12 1⟩
  d5Rand := ⟨.replicate 16 1, .replicate 12 1⟩
  d5BackupRand := ⟨.replicate 16 1, .replicate 12 1⟩
  pathExists _ := false
  connect := .ok (.replicate 32 0)
  operationalKey := .lost ""
  nowSecs := 0
  delegation := ⟨true, .lost "", fun _ _ => rfl⟩
  register := ⟨true, reply, fun _ _ => rfl⟩
  challenge := .answered 200 ⟨some "v2", some "server", some "00000000000000000000000000000000",
    some (some (List.replicate HYBRID_WRAP_LEN 0))⟩
  nowMs := 0
  verify := .answered 200 (some "token")
  mint := .answered 201 (some "first key")
  disk _ := ⟨.ok (), .ok (), none⟩

lemma wellFormed_setupIdentity : Keyblob.WellFormed setupIdentity := by
  intro keys hkeys
  obtain rfl := Option.some.inj hkeys
  rfl

lemma openChallenge_setupIdentity : ∃ nonce, openChallenge setupIdentity (.replicate 16 0)
    (List.replicate HYBRID_WRAP_LEN 0) = .ok nonce := by
  have hok : (openChallenge setupIdentity (.replicate 16 0)
      (List.replicate HYBRID_WRAP_LEN 0)).isOk = true := by
    decide +kernel
  cases hopen : openChallenge setupIdentity (.replicate 16 0)
      (List.replicate HYBRID_WRAP_LEN 0) with
  | error e =>
    rw [hopen] at hok
    exact absurd hok (by simp [Except.isOk, Except.toBool])
  | ok nonce => exact ⟨nonce, rfl⟩

/-- A run that gets all its answers is safe. -/
theorem run_safe_answered :
    (runFrom (run plainSetup (setupInputs (.answered 201 ()))) .start).2.Safe
      plainSetup.passphrase := by
  obtain ⟨nonce, hopen⟩ := openChallenge_setupIdentity
  refine (run_safe_iff aeadOpens argonDerives wellFormed_setupIdentity).mpr fun _ => ?_
  exact
    { delegation := fun h => absurd h (by simp [plainSetup])
      register := rfl
      login := ⟨_, "server", ⟨"server", by decide, by decide⟩, _, .replicate 16 0, _,
        nonce, "token", rfl, rfl, rfl, by decide +kernel, rfl, by decide +kernel, rfl, hopen, rfl⟩
      mint := ⟨_, rfl⟩ }

/-- A run that loses the answer to the registration keeps no blob of the registered key. -/
theorem run_safe_lost :
    ¬ ∀ (opts : SetupOpts) (inputs : SetupInputs), Keyblob.WellFormed inputs.recovery →
      (runFrom (run opts inputs) .start).2.Safe opts.passphrase := by
  intro h
  have hsafe := h plainSetup (setupInputs (.lost "connection closed")) wellFormed_setupIdentity
  have hsilent : SetupWorld.start.SameOutput
      (runFrom (run plainSetup (setupInputs (.lost "connection closed"))) .start).2 :=
    ⟨by decide +kernel, by decide +kernel⟩
  have hregistered := ((safe_iff_of_silent hsilent).mp hsafe).2
  exact absurd hregistered (by decide +kernel)

end Closed

end MaxSecu.Setup
