import MaxSecu.Framework.AssociationList
import MaxSecu.Framework.Programs
import MaxSecu.Client.Download
import MaxSecu.Server.Files
import MaxSecu.Server.RateLimit

/-!
# Login

The challenge-response logins of users and of the recovery account, the sessions they mint, and the
housekeeping of both tables.  Each is a program of calls to the store and to the rate limiter.  A
call to the store may fail, and then it has no effect.

A user proves a challenge by signing its nonce together with the channel it is on.  The recovery
account shares the table of nonces: its nonces are kept under a key made of the challenge's id.  What
a request draws at random is an argument of it.
-/

namespace MaxSecu

open Program AssociationList

/-! ## The store -/

structure UserRecord where
  userId : Id
  encPub : Bytes 32
  sigPub : Bytes 32
  deriving DecidableEq

structure RecoveryAccount where
  encPub : Bytes 32
  sigPub : Bytes 32
  mlkemPub : Option (Bytes MLKEM768_PUB_LEN)

structure NonceRecord where
  username : String
  expiresAtMs : UInt64
  used : Bool
  deriving DecidableEq

structure SessionRecord where
  userId : Id
  tlsExporter : Bytes 32
  expiresAtMs : UInt64
  revoked : Bool
  deriving DecidableEq

/-- How many rows a pass removed. -/
structure PruneCounts where
  sessions : ℕ
  nonces : ℕ
  deriving DecidableEq

structure AuthState where
  users : AList fun _ : String => UserRecord
  recovery : Option RecoveryAccount
  nonces : AList fun _ : Bytes 32 => NonceRecord
  sessions : AList fun _ : Bytes 32 => SessionRecord
  limiter : RateLimiter

namespace AuthState

/-- The nonces of a username that are neither used nor expired. -/
def outstanding (s : AuthState) (username : String) (nowMs : UInt64) : List (Bytes 32) :=
  collect (fun nonce row =>
    if row.username = username ∧ row.used = false ∧ nowMs < row.expiresAtMs then some nonce
    else none) s.nonces

def expiredSessions (s : AuthState) (cutoffMs : UInt64) : List (Bytes 32) :=
  collect (fun tokenHash row => if row.expiresAtMs < cutoffMs then some tokenHash else none)
    s.sessions

def expiredNonces (s : AuthState) (cutoffMs : UInt64) : List (Bytes 32) :=
  collect (fun nonce row => if row.expiresAtMs < cutoffMs then some nonce else none) s.nonces

def prune (s : AuthState) (sessions nonces : List (Bytes 32)) : AuthState :=
  { s with sessions := eraseAll sessions s.sessions, nonces := eraseAll nonces s.nonces }

end AuthState

inductive AuthStoreCall
  | userByName (username : String)
  | recoveryAccount
  | insertNonce (nonce : Bytes 32) (username : String) (expiresAtMs : UInt64)
  | outstandingNonces (username : String) (nowMs : UInt64)
  | consumeNonce (nonce : Bytes 32)
  | insertSession (tokenHash : Bytes 32) (rec : SessionRecord)
  | getSession (tokenHash : Bytes 32)
  | revokeSession (tokenHash : Bytes 32)
  | pruneExpiredAuthRows (nowMs graceMs : UInt64) (batchLimit : UInt32)

namespace AuthStoreCall

@[reducible] def Output : AuthStoreCall → Type
  | userByName _ => Option UserRecord
  | recoveryAccount => Option RecoveryAccount
  | insertNonce _ _ _ => Unit
  | outstandingNonces _ _ => List (Bytes 32)
  | consumeNonce _ => Unit
  | insertSession _ _ => Unit
  | getSession _ => Option SessionRecord
  | revokeSession _ => Unit
  | pruneExpiredAuthRows _ _ _ => PruneCounts

def cutoff (nowMs graceMs : UInt64) : UInt64 := if nowMs < graceMs then 0 else nowMs - graceMs

/-- The call, where the tables are iterated in the order of their lists. -/
def apply : (c : AuthStoreCall) → AuthState → c.Output × AuthState
  | userByName username, s => (s.users.lookup username, s)
  | recoveryAccount, s => (s.recovery, s)
  | insertNonce nonce username expiresAtMs, s =>
    ((), { s with nonces := s.nonces.insert nonce ⟨username, expiresAtMs, false⟩ })
  | outstandingNonces username nowMs, s => (s.outstanding username nowMs, s)
  | consumeNonce nonce, s =>
    ((), { s with nonces := adjust nonce (fun row => { row with used := true }) s.nonces })
  | insertSession tokenHash rec, s => ((), { s with sessions := s.sessions.insert tokenHash rec })
  | getSession tokenHash, s => (s.sessions.lookup tokenHash, s)
  | revokeSession tokenHash, s =>
    ((), { s with sessions := adjust tokenHash (fun row => { row with revoked := true }) s.sessions })
  | pruneExpiredAuthRows nowMs graceMs batchLimit, s =>
    let sessions := (s.expiredSessions (cutoff nowMs graceMs)).take batchLimit.toNat
    let nonces := (s.expiredNonces (cutoff nowMs graceMs)).take batchLimit.toNat
    (⟨sessions.length, nonces.length⟩, s.prune sessions nonces)

/-- What a call can do: the hash maps are iterated in any order. -/
inductive Runs : (c : AuthStoreCall) → AuthState → c.Output → AuthState → Prop
  | applies (c : AuthStoreCall) (s : AuthState) : Runs c s (c.apply s).1 (c.apply s).2
  | reorders {username : String} {nowMs : UInt64} {s : AuthState} {nonces : List (Bytes 32)} :
      nonces.Perm (s.outstanding username nowMs) →
      Runs (outstandingNonces username nowMs) s nonces s
  | prunes {nowMs graceMs : UInt64} {batchLimit : UInt32} {s : AuthState}
      {sessions nonces : List (Bytes 32)} :
      sessions.Perm (s.expiredSessions (cutoff nowMs graceMs)) →
      nonces.Perm (s.expiredNonces (cutoff nowMs graceMs)) →
      Runs (pruneExpiredAuthRows nowMs graceMs batchLimit) s
        ⟨(sessions.take batchLimit.toNat).length, (nonces.take batchLimit.toNat).length⟩
        (s.prune (sessions.take batchLimit.toNat) (nonces.take batchLimit.toNat))

end AuthStoreCall

inductive LimiterCall
  | admitChallenge (username : String) (nowMs : UInt64)
  | admitProof (username : String) (nowMs : UInt64)
  | recordProof (username : String) (nowMs : UInt64) (success : Bool)

namespace LimiterCall

@[reducible] def Output : LimiterCall → Type
  | admitChallenge _ _ => Except UInt64 Unit
  | admitProof _ _ => Except UInt64 Unit
  | recordProof _ _ _ => Unit

def apply : (c : LimiterCall) → RateLimiter → Option c.Output × RateLimiter
  | admitChallenge username nowMs, l => l.admitChallenge username nowMs
  | admitProof username nowMs, l => l.admitProof username nowMs
  | recordProof username nowMs success, l => l.recordProof username nowMs success

end LimiterCall

/-! ## Handlers -/

/-- A backend failure: the operation's tag and the backend's message. -/
structure StoreError where
  context : String
  detail : String
  deriving DecidableEq

inductive AuthCall
  | store (c : AuthStoreCall)
  | limiter (c : LimiterCall)

namespace AuthCall

/-- A call to the store may fail, one to the limiter may panic. -/
@[reducible] def Response : AuthCall → Type
  | store c => Except StoreError c.Output
  | limiter c => Option c.Output

def apply : (c : AuthCall) → AuthState → c.Response × AuthState
  | store c, s => (.ok (c.apply s).1, (c.apply s).2)
  | limiter c, s => ((c.apply s.limiter).1, { s with limiter := (c.apply s.limiter).2 })

/-- What a call can do, where the store has faults or has none. -/
inductive Step (faults : Bool) : (c : AuthCall) → AuthState → c.Response → AuthState → Prop
  | store {c : AuthStoreCall} {s : AuthState} {r : c.Output} {t : AuthState} :
      c.Runs s r t → Step faults (store c) s (.ok r) t
  | fails {c : AuthStoreCall} {s : AuthState} (e : StoreError) : faults = true →
      Step faults (store c) s (.error e) s
  | limiter (c : LimiterCall) (s : AuthState) :
      Step faults (limiter c) s (c.apply s.limiter).1
        { s with limiter := (c.apply s.limiter).2 }

lemma step_apply {faults : Bool} (c : AuthCall) (s : AuthState) :
    c.Step faults s (c.apply s).1 (c.apply s).2 := by
  cases c with
  | store c => exact .store (.applies c s)
  | limiter c => exact .limiter c s

end AuthCall

abbrev AuthHandler (ξ α : Type) := ExceptT ξ (Program AuthCall AuthCall.Response) α

namespace AuthHandler

variable {ξ : Type}

/-- Call the store; its failure is the handler's. -/
def store (internal : StoreError → ξ) (c : AuthStoreCall) : AuthHandler ξ c.Output :=
  ExceptT.mk do
    let r ← perform (.store c)
    pure (Except.mapError internal r)

/-- Call the limiter; where that panics the handler ends. -/
def limiter (panicked : ξ) (c : LimiterCall) : AuthHandler ξ c.Output :=
  ExceptT.mk do
    let r ← perform (.limiter c)
    pure (Option.elim r (.error panicked) .ok)

end AuthHandler

inductive ChallengeError
  | rateLimited (retryAfterS : UInt64)
  | internal (e : StoreError)
  /-- The handler panicked and there is no response. -/
  | panicked
  deriving DecidableEq

inductive ProveError
  | unauthorized
  | rateLimited (retryAfterS : UInt64)
  | internal (e : StoreError)
  | panicked
  deriving DecidableEq

inductive AuthError
  | unauthorized
  | internal (e : StoreError)
  deriving DecidableEq

inductive RecoveryError
  | noAccount
  | unauthorized
  | wrapFailed
  | internal (e : StoreError)
  | panicked
  deriving DecidableEq

structure AuthConfig where
  serverId : String
  nonceTtlMs : UInt64
  sessionTtlMs : UInt64
  rateLimit : RateLimitConfig

def AuthConfig.default : AuthConfig where
  serverId := "maxsecu-dev-1"
  nonceTtlMs := 60000
  sessionTtlMs := 3600000
  rateLimit := .default

structure Challenge where
  nonce : Bytes 32
  serverId : String
  expiresInS : UInt64
  deriving DecidableEq

/-- How far past its expiry a row must be before it may go: seven days. -/
def AUTH_PRUNE_GRACE_MS : UInt64 := 7 * 24 * 60 * 60 * 1000

/-- How many rows of each table a pass may remove. -/
def AUTH_PRUNE_BATCH : UInt32 := 5000

namespace AuthService

section Proofs

variable [UnicodeNormalization] [Ed25519]

/-- The signature is over this server, this channel, the nonce and the time. -/
def verifyProof (sigPub : Bytes 32) (serverId : String) (exporter nonce : Bytes 32)
    (timestamp : UInt64) (proof : Bytes 64) : Bool :=
  match Text.new serverId with
  | .ok serverId =>
    verify sigPub Label.auth.text
      (⟨serverId, ⟨exporter⟩, ⟨nonce⟩, ⟨timestamp⟩⟩ : AuthProofContext) proof
  | .error _ => false

/-- The recovery login checks its proofs the same way. -/
def verifyRecoveryProof (sigPub : Bytes 32) (serverId : String) (exporter nonce : Bytes 32)
    (timestamp : UInt64) (proof : Bytes 64) : Bool :=
  verifyProof sigPub serverId exporter nonce timestamp proof

/-- Does the nonce verify?  For an unknown user none does. -/
def proofVerifies (serverId : String) (user : Option UserRecord) (exporter : Bytes 32)
    (timestamp : UInt64) (proof : Bytes 64) (nonce : Bytes 32) : Bool :=
  user.any fun u => verifyProof u.sigPub serverId exporter nonce timestamp proof

end Proofs

section Users

variable (cfg : AuthConfig)

/-- Issue a challenge, whether the username exists or not. -/
def challenge (username : String) (nonce : Bytes 32) (nowMs : UInt64) :
    AuthHandler ChallengeError Challenge := do
  let admitted ← AuthHandler.limiter .panicked (.admitChallenge username nowMs)
  match (admitted : Except UInt64 Unit) with
  | .error retryAfterS => throw (.rateLimited retryAfterS)
  | .ok () =>
    let expiresAtMs ← (checkedAdd nowMs cfg.nonceTtlMs).elim (throw .panicked) pure
    AuthHandler.store .internal (.insertNonce nonce username expiresAtMs)
    pure ⟨nonce, cfg.serverId, cfg.nonceTtlMs / 1000⟩

/-- Verify a proof, and mint a session on the channel it came over. -/
def prove [UnicodeNormalization] [Ed25519] [Sha256] (username : String) (timestamp : UInt64)
    (proof : Bytes 64) (exporter token : Bytes 32) (nowMs : UInt64) :
    AuthHandler ProveError (Bytes 32) := do
  let admitted ← AuthHandler.limiter .panicked (.admitProof username nowMs)
  match (admitted : Except UInt64 Unit) with
  | .error retryAfterS => throw (.rateLimited retryAfterS)
  | .ok () =>
    let user ← AuthHandler.store .internal (.userByName username)
    let nonces ← AuthHandler.store .internal (.outstandingNonces username nowMs)
    match List.find? (proofVerifies cfg.serverId user exporter timestamp proof) nonces with
    | none =>
      AuthHandler.limiter .panicked (.recordProof username nowMs false)
      throw .unauthorized
    | some nonce =>
      AuthHandler.store .internal (.consumeNonce nonce)
      AuthHandler.limiter .panicked (.recordProof username nowMs true)
      let u ← Option.elim user (throw .panicked) pure
      let expiresAtMs ← (checkedAdd nowMs cfg.sessionTtlMs).elim (throw .panicked) pure
      AuthHandler.store .internal (.insertSession (sha256 token.toList)
        { userId := u.userId, tlsExporter := exporter, expiresAtMs, revoked := false })
      pure token

/-- The user of a session, on the channel it was minted on. -/
def validateSession [Sha256] (token exporter : Bytes 32) (nowMs : UInt64) :
    AuthHandler AuthError Id := do
  let found ← AuthHandler.store .internal (.getSession (sha256 token.toList))
  match (found : Option SessionRecord) with
  | none => throw .unauthorized
  | some s =>
    if s.revoked = true ∨ s.expiresAtMs ≤ nowMs ∨ s.tlsExporter ≠ exporter then
      throw .unauthorized
    else
      pure s.userId

def logout [Sha256] (token : Bytes 32) : AuthHandler StoreError Unit :=
  AuthHandler.store id (.revokeSession (sha256 token.toList))

def pruneExpiredAuthRows (nowMs : UInt64) : AuthHandler StoreError PruneCounts :=
  AuthHandler.store id (.pruneExpiredAuthRows nowMs AUTH_PRUNE_GRACE_MS AUTH_PRUNE_BATCH)

end Users

/-! ## The recovery login -/

structure RecoveryChallenge where
  challengeId : Bytes 16
  wrappedBlob : List UInt8
  hybrid : Bool
  deriving DecidableEq

def recoveryNonceKey (challengeId : Bytes 16) : String :=
  "\u0000recovery\u0000" ++ String.ofList (challengeId.toList.flatMap Files.hexByte)

/-- The wrap of a challenge is bound to its id. -/
def challengeWrapCtx (challengeId : Bytes 16) : WrapContext where
  fileId := ⟨challengeId⟩
  version := 0
  recipientId := RECOVERY_ID

def serializeClassicalWrap (w : WrappedDek) : List UInt8 := w.enc.toList ++ w.ct

/-- What a recovery challenge draws from the random source. -/
structure ChallengeEntropy where
  nonce : Bytes 32
  challengeId : Bytes 16
  wrap : WrapEntropy

section Recovery

variable (cfg : AuthConfig)

/-- The nonce wrapped to the recovery account's keys, and whether the wrap is hybrid. -/
def wrapNonce [HpkeSeal] [Hkdf] [Aes256GcmSeal] [X25519] [X25519Base] [MlKem768Encaps]
    (acct : RecoveryAccount) (rand : ChallengeEntropy) : Except CryptoError (List UInt8 × Bool) :=
  match acct.mlkemPub with
  | some mlkem => do
    let w ← wrapDekHybrid rand.wrap ⟨acct.encPub, mlkem⟩ ⟨rand.nonce⟩
      (challengeWrapCtx rand.challengeId)
    pure (serializeHybridWrap w, true)
  | none => do
    let w ← wrapDek rand.wrap ⟨acct.encPub⟩ ⟨rand.nonce⟩ (challengeWrapCtx rand.challengeId)
    pure (serializeClassicalWrap w, false)

/-- Issue a challenge whose nonce only the recovery account can learn. -/
def recoveryChallenge [HpkeSeal] [Hkdf] [Aes256GcmSeal] [X25519] [X25519Base] [MlKem768Encaps]
    (rand : ChallengeEntropy) (nowMs : UInt64) : AuthHandler RecoveryError RecoveryChallenge := do
  let found ← AuthHandler.store .internal .recoveryAccount
  match (found : Option RecoveryAccount) with
  | none => throw .noAccount
  | some acct =>
    let expiresAtMs ← (checkedAdd nowMs cfg.nonceTtlMs).elim (throw .panicked) pure
    AuthHandler.store .internal
      (.insertNonce rand.nonce (recoveryNonceKey rand.challengeId) expiresAtMs)
    match wrapNonce acct rand with
    | .ok (wrappedBlob, hybrid) => pure ⟨rand.challengeId, wrappedBlob, hybrid⟩
    | .error _ => throw .wrapFailed

/-- Verify a proof of the recovery account, and mint its session. -/
def recoveryVerify [UnicodeNormalization] [Ed25519] [Sha256] (challengeId : Bytes 16)
    (timestamp : UInt64) (proof : Bytes 64) (exporter token : Bytes 32) (nowMs : UInt64) :
    AuthHandler RecoveryError (Bytes 32) := do
  let found ← AuthHandler.store .internal .recoveryAccount
  match (found : Option RecoveryAccount) with
  | none => throw .unauthorized
  | some acct =>
    let nonces ← AuthHandler.store .internal
      (.outstandingNonces (recoveryNonceKey challengeId) nowMs)
    match List.find? (fun nonce =>
      verifyRecoveryProof acct.sigPub cfg.serverId exporter nonce timestamp proof) nonces with
    | none => throw .unauthorized
    | some nonce =>
      AuthHandler.store .internal (.consumeNonce nonce)
      let expiresAtMs ← (checkedAdd nowMs cfg.sessionTtlMs).elim (throw .panicked) pure
      AuthHandler.store .internal (.insertSession (sha256 token.toList)
        { userId := RECOVERY_ID, tlsExporter := exporter, expiresAtMs, revoked := false })
      pure token

end Recovery

end AuthService

/-! ## Requests -/

inductive AuthRequest
  | challenge (username : String) (nonce : Bytes 32) (nowMs : UInt64)
  | prove (username : String) (timestamp : UInt64) (proof : Bytes 64) (exporter token : Bytes 32)
    (nowMs : UInt64)
  | validateSession (token exporter : Bytes 32) (nowMs : UInt64)
  | logout (token : Bytes 32)
  | prune (nowMs : UInt64)
  | recoveryChallenge (rand : AuthService.ChallengeEntropy) (nowMs : UInt64)
  | recoveryVerify (challengeId : Bytes 16) (timestamp : UInt64) (proof : Bytes 64)
    (exporter token : Bytes 32) (nowMs : UInt64)

inductive AuthReply
  | challenge (r : Except ChallengeError Challenge)
  | prove (r : Except ProveError (Bytes 32))
  | validateSession (r : Except AuthError Id)
  | logout (r : Except StoreError Unit)
  | prune (r : Except StoreError PruneCounts)
  | recoveryChallenge (r : Except RecoveryError AuthService.RecoveryChallenge)
  | recoveryVerify (r : Except RecoveryError (Bytes 32))
  deriving DecidableEq

namespace AuthRequest

variable [UnicodeNormalization] [Ed25519] [Sha256] [HpkeSeal] [Hkdf] [Aes256GcmSeal] [X25519]
  [X25519Base] [MlKem768Encaps]

def program (cfg : AuthConfig) : AuthRequest → Program AuthCall AuthCall.Response AuthReply
  | challenge username nonce nowMs => do
    let r ← (AuthService.challenge cfg username nonce nowMs).run
    pure (.challenge r)
  | prove username timestamp proof exporter token nowMs => do
    let r ← (AuthService.prove cfg username timestamp proof exporter token nowMs).run
    pure (.prove r)
  | validateSession token exporter nowMs => do
    let r ← (AuthService.validateSession token exporter nowMs).run
    pure (.validateSession r)
  | logout token => do
    let r ← (AuthService.logout token).run
    pure (.logout r)
  | prune nowMs => do
    let r ← (AuthService.pruneExpiredAuthRows nowMs).run
    pure (.prune r)
  | recoveryChallenge rand nowMs => do
    let r ← (AuthService.recoveryChallenge cfg rand nowMs).run
    pure (.recoveryChallenge r)
  | recoveryVerify challengeId timestamp proof exporter token nowMs => do
    let r ← (AuthService.recoveryVerify cfg challengeId timestamp proof exporter token nowMs).run
    pure (.recoveryVerify r)

end AuthRequest

/-! ## One user -/

/-- A user named `a`, and no login yet. -/
def AuthState.oneUser : AuthState where
  users := ⟨[⟨"a", ⟨⟨.replicate 16 1⟩, .replicate 32 2, .replicate 32 3⟩⟩], by simp⟩
  recovery := none
  nonces := ∅
  sessions := ∅
  limiter := .new .default

namespace AuthRequest

def asks : AuthRequest := .challenge "a" (.replicate 32 4) 0

/-- The user sends the proof, and the server draws the token. -/
def answers (token : Bytes 32) : AuthRequest :=
  .prove "a" 0 (.replicate 64 5) (.replicate 32 6) token 1

end AuthRequest

end MaxSecu
