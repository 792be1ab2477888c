import MaxSecu.Framework.LabelledRun
import MaxSecu.Server.Auth

/-!
# The soundness of sessions

Over a run of logins, logouts, checks and housekeeping, every nonce in the table was issued by a
challenge, and every session was minted by a login that proved a nonce of its table
(`AuthRequest.runs_effect`, `Sessions.traced_run`).  So a token that is valid was returned by a login
on this channel, not too long ago, and no logout of it happened since.

The nonces of users and those of the recovery account are in one table, and nothing keeps a user from
having the name of a recovery nonce's key.  The result is therefore for the runs where no user proves
under such a name (`validateSession_sound`).
-/

namespace MaxSecu

open Program AssociationList

/-! ## What a call does -/

/-- The rows of the tables are old ones: none is new, unused again, valid again or of other content. -/
structure AuthState.Keeps (s t : AuthState) : Prop where
  users : t.users = s.users
  recovery : t.recovery = s.recovery
  nonces : ∀ nonce, ∀ row ∈ t.nonces.lookup nonce, ∃ old ∈ s.nonces.lookup nonce,
    old.username = row.username ∧ old.expiresAtMs = row.expiresAtMs
  sessions : ∀ tokenHash, ∀ row ∈ t.sessions.lookup tokenHash,
    ∃ old ∈ s.sessions.lookup tokenHash, old.userId = row.userId ∧
      old.tlsExporter = row.tlsExporter ∧ old.expiresAtMs = row.expiresAtMs ∧
      (row.revoked = false → old.revoked = false)

namespace AuthState.Keeps

variable {s t u : AuthState}

lemma refl (s : AuthState) : s.Keeps s :=
  ⟨rfl, rfl, fun _ row hrow => ⟨row, hrow, rfl, rfl⟩,
    fun _ row hrow => ⟨row, hrow, rfl, rfl, rfl, id⟩⟩

lemma trans (h : s.Keeps t) (h' : t.Keeps u) : s.Keeps u := by
  refine ⟨h'.users.trans h.users, h'.recovery.trans h.recovery, ?_, ?_⟩
  · intro nonce row hrow
    obtain ⟨mid, hmid, husername, hexpires⟩ := h'.nonces nonce row hrow
    obtain ⟨old, hold, husername', hexpires'⟩ := h.nonces nonce mid hmid
    exact ⟨old, hold, husername'.trans husername, hexpires'.trans hexpires⟩
  · intro tokenHash row hrow
    obtain ⟨mid, hmid, huser, hexporter, hexpires, hrevoked⟩ := h'.sessions tokenHash row hrow
    obtain ⟨old, hold, huser', hexporter', hexpires', hrevoked'⟩ := h.sessions tokenHash mid hmid
    exact ⟨old, hold, huser'.trans huser, hexporter'.trans hexporter, hexpires'.trans hexpires,
      fun hopen => hrevoked' (hrevoked hopen)⟩

lemma limiter (l : RateLimiter) : s.Keeps { s with limiter := l } :=
  ⟨rfl, rfl, (refl s).nonces, (refl s).sessions⟩

lemma prune (sessions nonces : List (Bytes 32)) : s.Keeps (s.prune sessions nonces) := by
  refine ⟨rfl, rfl, ?_, ?_⟩
  · intro nonce row hrow
    refine ⟨row, ?_, rfl, rfl⟩
    simp only [AuthState.prune, lookup_eraseAll, Option.mem_def] at hrow
    split at hrow
    · exact absurd hrow (by simp)
    · exact hrow
  · intro tokenHash row hrow
    refine ⟨row, ?_, rfl, rfl, rfl, id⟩
    simp only [AuthState.prune, lookup_eraseAll, Option.mem_def] at hrow
    split at hrow
    · exact absurd hrow (by simp)
    · exact hrow

lemma consume (nonce : Bytes 32) :
    s.Keeps { s with nonces := adjust nonce (fun row => { row with used := true }) s.nonces } := by
  refine ⟨rfl, rfl, ?_, (refl s).sessions⟩
  intro n row hrow
  simp only [lookup_adjust, Option.mem_def] at hrow
  split at hrow
  · rename_i hn
    obtain ⟨old, hold, rfl⟩ := Option.map_eq_some_iff.mp hrow
    rw [hn]
    exact ⟨old, hold, rfl, rfl⟩
  · exact ⟨row, hrow, rfl, rfl⟩

lemma revoke (tokenHash : Bytes 32) :
    s.Keeps { s with
      sessions := adjust tokenHash (fun row => { row with revoked := true }) s.sessions } := by
  refine ⟨rfl, rfl, (refl s).nonces, ?_⟩
  intro h row hrow
  simp only [lookup_adjust, Option.mem_def] at hrow
  split at hrow
  · rename_i hh
    obtain ⟨old, hold, rfl⟩ := Option.map_eq_some_iff.mp hrow
    rw [hh]
    exact ⟨old, hold, rfl, rfl, rfl, fun hopen => absurd hopen (by simp)⟩
  · exact ⟨row, hrow, rfl, rfl, rfl, id⟩

end AuthState.Keeps

namespace AuthStoreCall

def AddsNone : AuthStoreCall → Prop
  | insertNonce _ _ _ => False
  | insertSession _ _ => False
  | _ => True

variable {c : AuthStoreCall} {s t : AuthState} {out : c.Output}

lemma Runs.keeps (h : c.Runs s out t) (hc : c.AddsNone) : s.Keeps t := by
  cases h with
  | reorders _ => exact .refl s
  | prunes _ _ => exact .prune _ _
  | applies c s =>
    cases c with
    | insertNonce nonce username expiresAtMs => exact absurd hc id
    | insertSession tokenHash rec => exact absurd hc id
    | consumeNonce nonce => exact .consume nonce
    | revokeSession tokenHash => exact .revoke tokenHash
    | pruneExpiredAuthRows nowMs graceMs batchLimit => exact .prune _ _
    | userByName username => exact .refl s
    | recoveryAccount => exact .refl s
    | outstandingNonces username nowMs => exact .refl s
    | getSession tokenHash => exact .refl s

lemma runs_userByName {username : String} {out : Option UserRecord}
    (h : (userByName username).Runs s out t) : out = s.users.lookup username := by
  cases h with
  | applies => rfl

lemma runs_recoveryAccount {out : Option RecoveryAccount} (h : recoveryAccount.Runs s out t) :
    out = s.recovery := by
  cases h with
  | applies => rfl

lemma runs_insertNonce {nonce : Bytes 32} {username : String} {expiresAtMs : UInt64} {out : Unit}
    (h : (insertNonce nonce username expiresAtMs).Runs s out t) :
    t = { s with nonces := s.nonces.insert nonce ⟨username, expiresAtMs, false⟩ } := by
  cases h with
  | applies => rfl

lemma runs_insertSession {tokenHash : Bytes 32} {rec : SessionRecord} {out : Unit}
    (h : (insertSession tokenHash rec).Runs s out t) :
    t = { s with sessions := s.sessions.insert tokenHash rec } := by
  cases h with
  | applies => rfl

lemma runs_getSession {tokenHash : Bytes 32} {out : Option SessionRecord}
    (h : (getSession tokenHash).Runs s out t) : out = s.sessions.lookup tokenHash := by
  cases h with
  | applies => rfl

lemma runs_revokeSession {tokenHash : Bytes 32} {out : Unit}
    (h : (revokeSession tokenHash).Runs s out t) :
    ∀ row ∈ t.sessions.lookup tokenHash, row.revoked = true := by
  cases h with
  | applies =>
    intro row hrow
    simp only [apply, lookup_adjust, if_true, Option.mem_def] at hrow
    obtain ⟨old, _, rfl⟩ := Option.map_eq_some_iff.mp hrow
    rfl

lemma runs_outstandingNonces {username : String} {nowMs : UInt64} {nonces : List (Bytes 32)}
    (h : (outstandingNonces username nowMs).Runs s nonces t) {nonce : Bytes 32}
    (hmem : nonce ∈ nonces) :
    ∃ row ∈ s.nonces.lookup nonce, row.username = username ∧ nowMs < row.expiresAtMs := by
  have houtstanding : nonce ∈ s.outstanding username nowMs := by
    cases h with
    | applies => exact hmem
    | reorders hperm => exact hperm.mem_iff.mp hmem
  obtain ⟨n, hn⟩ := mem_collect.mp houtstanding
  obtain ⟨row, hrow, hlisted⟩ := Option.bind_eq_some_iff.mp hn
  split at hlisted
  · rename_i hrow'
    obtain rfl := Option.some.inj hlisted
    exact ⟨row, hrow, hrow'.1, hrow'.2.2⟩
  · exact absurd hlisted (by simp)

end AuthStoreCall

/-! ## What a request does -/

/-- The request issued the nonce, with this row for it. -/
inductive AuthRequest.Issues (cfg : AuthConfig) :
    AuthRequest × AuthReply → Bytes 32 → NonceRecord → Prop
  | challenge {username : String} {nonce : Bytes 32} {nowMs expiresAtMs : UInt64} :
      expiresAtMs.toNat = nowMs.toNat + cfg.nonceTtlMs.toNat →
      Issues cfg (.challenge username nonce nowMs,
        .challenge (.ok ⟨nonce, cfg.serverId, cfg.nonceTtlMs / 1000⟩)) nonce
        ⟨username, expiresAtMs, false⟩
  | recoveryChallenge {rand : AuthService.ChallengeEntropy} {nowMs expiresAtMs : UInt64}
      (reply : AuthReply) : expiresAtMs.toNat = nowMs.toNat + cfg.nonceTtlMs.toNat →
      Issues cfg (.recoveryChallenge rand nowMs, reply) rand.nonce
        ⟨AuthService.recoveryNonceKey rand.challengeId, expiresAtMs, false⟩

/-- The request minted the session of the token, with this row for it. -/
inductive AuthRequest.Mints [UnicodeNormalization] [Ed25519] (cfg : AuthConfig) (s : AuthState) :
    AuthRequest × AuthReply → Bytes 32 → SessionRecord → Prop
  | prove {username : String} {timestamp : UInt64} {proof : Bytes 64} {exporter token : Bytes 32}
      {nowMs expiresAtMs : UInt64} {user : UserRecord} {nonce : Bytes 32} {row : NonceRecord} :
      s.users.lookup username = some user → s.nonces.lookup nonce = some row →
      row.username = username → nowMs < row.expiresAtMs →
      AuthService.verifyProof user.sigPub cfg.serverId exporter nonce timestamp proof = true →
      expiresAtMs.toNat = nowMs.toNat + cfg.sessionTtlMs.toNat →
      Mints cfg s (.prove username timestamp proof exporter token nowMs, .prove (.ok token)) token
        ⟨user.userId, exporter, expiresAtMs, false⟩
  | recoveryVerify {challengeId : Bytes 16} {timestamp : UInt64} {proof : Bytes 64}
      {exporter token : Bytes 32} {nowMs expiresAtMs : UInt64} {acct : RecoveryAccount}
      {nonce : Bytes 32} {row : NonceRecord} :
      s.recovery = some acct → s.nonces.lookup nonce = some row →
      row.username = AuthService.recoveryNonceKey challengeId → nowMs < row.expiresAtMs →
      AuthService.verifyRecoveryProof acct.sigPub cfg.serverId exporter nonce timestamp proof =
        true →
      expiresAtMs.toNat = nowMs.toNat + cfg.sessionTtlMs.toNat →
      Mints cfg s (.recoveryVerify challengeId timestamp proof exporter token nowMs,
        .recoveryVerify (.ok token)) token ⟨RECOVERY_ID, exporter, expiresAtMs, false⟩

/-- What a request can do to the tables: add no row, add a nonce, or add a session. -/
inductive AuthRequest.Effect [UnicodeNormalization] [Ed25519] [Sha256] (cfg : AuthConfig)
    (s : AuthState) : AuthRequest × AuthReply → AuthState → Prop
  | keeps {x : AuthRequest × AuthReply} {t : AuthState} : s.Keeps t → Effect cfg s x t
  | issues {x : AuthRequest × AuthReply} {t : AuthState} {nonce : Bytes 32} {row : NonceRecord} :
      Issues cfg x nonce row → s.Keeps t →
      Effect cfg s x { t with nonces := t.nonces.insert nonce row }
  | mints {x : AuthRequest × AuthReply} {t : AuthState} {token : Bytes 32} {row : SessionRecord} :
      Mints cfg s x token row → s.Keeps t →
      Effect cfg s x { t with sessions := t.sessions.insert (sha256 token.toList) row }

namespace AuthHandler

variable {ξ α β : Type} {faults : Bool} {s t : AuthState} {post : Except ξ α → AuthState → Prop}

lemma wp_store {internal : StoreError → ξ} {c : AuthStoreCall} {f : c.Output → AuthHandler ξ α}
    (hfails : ∀ e, post (.error (internal e)) s)
    (hruns : ∀ out t, c.Runs s out t → wp (AuthCall.Step faults) (f out).run post t) :
    wp (AuthCall.Step faults) (store internal c >>= f).run post s := by
  intro r t hstep
  cases hstep with
  | store hrun => exact hruns _ _ hrun
  | fails e _ => exact hfails e

lemma wp_limiter {panicked : ξ} {c : LimiterCall} {f : c.Output → AuthHandler ξ α}
    (hpanics : ∀ l, post (.error panicked) { s with limiter := l })
    (hruns : ∀ out l, wp (AuthCall.Step faults) (f out).run post { s with limiter := l }) :
    wp (AuthCall.Step faults) (limiter panicked c >>= f).run post s := by
  intro r t hstep
  cases hstep with
  | limiter =>
    generalize (c.apply s.limiter).1 = verdict
    cases verdict with
    | none => exact hpanics _
    | some out => exact hruns out _

lemma wp_elim {o : Option β} {e : ξ} {f : β → AuthHandler ξ α} (hnone : post (.error e) s)
    (hsome : ∀ b, o = some b → wp (AuthCall.Step faults) (f b).run post s) :
    wp (AuthCall.Step faults) (o.elim (throw e) pure >>= f).run post s := by
  cases o with
  | none => exact hnone
  | some b => exact hsome b rfl

end AuthHandler

namespace AuthRequest

open AuthHandler AuthStoreCall

variable {cfg : AuthConfig} {faults : Bool} {s : AuthState}

lemma wp_challenge [UnicodeNormalization] [Ed25519] [Sha256] {username : String} {nonce : Bytes 32}
    {nowMs : UInt64} :
    wp (AuthCall.Step faults) (AuthService.challenge cfg username nonce nowMs).run
      (fun r t => Effect cfg s (challenge username nonce nowMs, .challenge r) t) s := by
  unfold AuthService.challenge
  refine wp_limiter (fun l => .keeps (.limiter l)) ?_
  intro admitted l
  cases admitted with
  | error retryAfterS => exact .keeps (.limiter l)
  | ok _ =>
    refine wp_elim (.keeps (.limiter l)) ?_
    intro expiresAtMs hexpires
    refine wp_store (fun _ => .keeps (.limiter l)) ?_
    intro _ t hrun
    rw [runs_insertNonce hrun]
    exact .issues (.challenge (checkedAdd_eq_some.mp hexpires)) (.limiter l)

lemma wp_prove [UnicodeNormalization] [Ed25519] [Sha256] {username : String} {timestamp : UInt64}
    {proof : Bytes 64} {exporter token : Bytes 32} {nowMs : UInt64} :
    wp (AuthCall.Step faults)
      (AuthService.prove cfg username timestamp proof exporter token nowMs).run
      (fun r t => Effect cfg s
        (prove username timestamp proof exporter token nowMs, .prove r) t) s := by
  unfold AuthService.prove
  refine wp_limiter (fun l => .keeps (.limiter l)) ?_
  intro admitted l
  cases admitted with
  | error retryAfterS => exact .keeps (.limiter l)
  | ok _ =>
    have hkeeps := AuthState.Keeps.limiter (s := s) l
    generalize { s with limiter := l } = s₁ at hkeeps ⊢
    refine wp_store (fun _ => .keeps hkeeps) ?_
    intro user s₂ huser
    have hkeeps₂ := hkeeps.trans (huser.keeps trivial)
    refine wp_store (fun _ => .keeps hkeeps₂) ?_
    intro nonces s₃ hnonces
    have hkeeps₃ := hkeeps₂.trans (hnonces.keeps trivial)
    cases hfind : List.find?
        (AuthService.proofVerifies cfg.serverId user exporter timestamp proof) nonces with
    | none =>
      exact wp_limiter (fun l => .keeps (hkeeps₃.trans (.limiter l)))
        fun _ l => .keeps (hkeeps₃.trans (.limiter l))
    | some nonce =>
      refine wp_store (fun _ => .keeps hkeeps₃) ?_
      intro _ s₄ hconsumed
      have hkeeps₄ := hkeeps₃.trans (hconsumed.keeps trivial)
      refine wp_limiter (fun l => .keeps (hkeeps₄.trans (.limiter l))) ?_
      intro _ l
      have hkeeps₅ := hkeeps₄.trans (.limiter l)
      refine wp_elim (.keeps hkeeps₅) ?_
      intro u hu
      refine wp_elim (.keeps hkeeps₅) ?_
      intro expiresAtMs hexpires
      refine wp_store (fun _ => .keeps hkeeps₅) ?_
      intro _ t hinserted
      rw [runs_insertSession hinserted]
      obtain ⟨row, hrow, husername, hlive⟩ :=
        runs_outstandingNonces hnonces (List.mem_of_find?_eq_some hfind)
      obtain ⟨old, hold, husername', hexpires'⟩ := hkeeps₂.nonces nonce row hrow
      have hlookup : s.users.lookup username = some u := by
        rw [← hkeeps.users, ← runs_userByName huser, hu]
      have hverified := List.find?_some hfind
      rw [hu] at hverified
      refine .mints (.prove hlookup hold (husername'.trans husername) ?_ hverified
        (checkedAdd_eq_some.mp hexpires)) hkeeps₅
      rw [hexpires']
      exact hlive

lemma wp_recoveryChallenge [UnicodeNormalization] [Ed25519] [Sha256] [HpkeSeal] [Hkdf]
    [Aes256GcmSeal] [X25519] [X25519Base] [MlKem768Encaps] {rand : AuthService.ChallengeEntropy}
    {nowMs : UInt64} :
    wp (AuthCall.Step faults) (AuthService.recoveryChallenge cfg rand nowMs).run
      (fun r t => Effect cfg s (recoveryChallenge rand nowMs, .recoveryChallenge r) t) s := by
  unfold AuthService.recoveryChallenge
  refine wp_store (fun _ => .keeps (.refl s)) ?_
  intro found s₁ hfound
  have hkeeps := hfound.keeps trivial
  cases found with
  | none => exact .keeps hkeeps
  | some acct =>
    refine wp_elim (.keeps hkeeps) ?_
    intro expiresAtMs hexpires
    refine wp_store (fun _ => .keeps hkeeps) ?_
    intro _ t hrun
    have hissues : ∀ reply : AuthReply, Effect cfg s (recoveryChallenge rand nowMs, reply) t := by
      intro reply
      rw [runs_insertNonce hrun]
      exact .issues (.recoveryChallenge reply (checkedAdd_eq_some.mp hexpires)) hkeeps
    split
    · exact hissues _
    · exact hissues _

lemma wp_recoveryVerify [UnicodeNormalization] [Ed25519] [Sha256] {challengeId : Bytes 16}
    {timestamp : UInt64} {proof : Bytes 64} {exporter token : Bytes 32} {nowMs : UInt64} :
    wp (AuthCall.Step faults)
      (AuthService.recoveryVerify cfg challengeId timestamp proof exporter token nowMs).run
      (fun r t => Effect cfg s
        (recoveryVerify challengeId timestamp proof exporter token nowMs, .recoveryVerify r) t)
      s := by
  unfold AuthService.recoveryVerify
  refine wp_store (fun _ => .keeps (.refl s)) ?_
  intro found s₁ hfound
  have hkeeps := hfound.keeps trivial
  cases found with
  | none => exact .keeps hkeeps
  | some acct =>
    refine wp_store (fun _ => .keeps hkeeps) ?_
    intro nonces s₂ hnonces
    have hkeeps₂ := hkeeps.trans (hnonces.keeps trivial)
    cases hfind : List.find? (fun nonce => AuthService.verifyRecoveryProof acct.sigPub
        cfg.serverId exporter nonce timestamp proof) nonces with
    | none => exact .keeps hkeeps₂
    | some nonce =>
      refine wp_store (fun _ => .keeps hkeeps₂) ?_
      intro _ s₃ hconsumed
      have hkeeps₃ := hkeeps₂.trans (hconsumed.keeps trivial)
      refine wp_elim (.keeps hkeeps₃) ?_
      intro expiresAtMs hexpires
      refine wp_store (fun _ => .keeps hkeeps₃) ?_
      intro _ t hinserted
      rw [runs_insertSession hinserted]
      obtain ⟨row, hrow, husername, hlive⟩ :=
        runs_outstandingNonces hnonces (List.mem_of_find?_eq_some hfind)
      obtain ⟨old, hold, husername', hexpires'⟩ := hkeeps.nonces nonce row hrow
      have hverified := List.find?_some hfind
      refine .mints (.recoveryVerify (runs_recoveryAccount hfound).symm hold
        (husername'.trans husername) ?_ hverified (checkedAdd_eq_some.mp hexpires)) hkeeps₃
      rw [hexpires']
      exact hlive

lemma wp_validateSession [Sha256] {token exporter : Bytes 32} {nowMs : UInt64} :
    wp (AuthCall.Step faults) (AuthService.validateSession token exporter nowMs).run
      (fun r t => s.Keeps t ∧ ∀ u, r = .ok u → ∃ row ∈ s.sessions.lookup (sha256 token.toList),
        row.userId = u ∧ row.tlsExporter = exporter ∧ nowMs < row.expiresAtMs ∧
          row.revoked = false) s := by
  unfold AuthService.validateSession
  refine wp_store (fun _ => ⟨.refl s, fun _ hu => absurd hu (by simp)⟩) ?_
  intro found t hfound
  have hkeeps := hfound.keeps trivial
  have hlookup := runs_getSession hfound
  cases found with
  | none => exact ⟨hkeeps, fun _ hu => absurd hu (by simp)⟩
  | some row =>
    by_cases hinvalid : row.revoked = true ∨ row.expiresAtMs ≤ nowMs ∨ row.tlsExporter ≠ exporter
    · simp only [hinvalid, if_true]
      exact ⟨hkeeps, fun _ hu => absurd hu (by simp)⟩
    · simp only [hinvalid, if_false]
      refine ⟨hkeeps, ?_⟩
      intro u hu
      simp only [not_or, Bool.not_eq_true, UInt64.not_le, not_not] at hinvalid
      obtain ⟨hopen, hlive, hexporter⟩ := hinvalid
      exact ⟨row, hlookup.symm, Except.ok.inj hu, hexporter, hlive, hopen⟩

lemma wp_logout [Sha256] {token : Bytes 32} :
    wp (AuthCall.Step faults) (AuthService.logout token).run
      (fun r t => s.Keeps t ∧ (r = .ok () →
        ∀ row ∈ t.sessions.lookup (sha256 token.toList), row.revoked = true)) s := by
  intro r t hstep
  cases hstep with
  | store hrun => exact ⟨hrun.keeps trivial, fun _ => runs_revokeSession hrun⟩
  | fails e _ => exact ⟨.refl s, fun hok => absurd hok (by simp [Except.mapError])⟩

lemma wp_prune {nowMs : UInt64} :
    wp (AuthCall.Step faults) (AuthService.pruneExpiredAuthRows nowMs).run
      (fun _ t => s.Keeps t) s := by
  intro r t hstep
  cases hstep with
  | store hrun => exact hrun.keeps trivial
  | fails e _ => exact .refl s

section Runs

variable [UnicodeNormalization] [Ed25519] [Sha256] [HpkeSeal] [Hkdf] [Aes256GcmSeal] [X25519]
  [X25519Base] [MlKem768Encaps]

/-- The request runs alone, to its end, and gets the reply. -/
def Runs (cfg : AuthConfig) (faults : Bool) (s : AuthState) (x : AuthRequest × AuthReply)
    (t : AuthState) : Prop :=
  Exec (AuthCall.Step faults) (x.1.program cfg) s (some x.2) t

/-- The reply to a request, where the tables are iterated in the order of their lists. -/
def serve (cfg : AuthConfig) (request : AuthRequest) (s : AuthState) : AuthReply × AuthState :=
  (request.program cfg).eval AuthCall.apply s

lemma runs_serve (request : AuthRequest) :
    Runs cfg faults s (request, (request.serve cfg s).1) (request.serve cfg s).2 :=
  exec_eval AuthCall.step_apply _ _

variable {request : AuthRequest} {reply : AuthReply} {t : AuthState}

theorem runs_effect (h : Runs cfg faults s (request, reply) t) :
    Effect cfg s (request, reply) t := by
  have hwp : wp (AuthCall.Step faults) (request.program cfg)
      (fun reply t => Effect cfg s (request, reply) t) s := by
    cases request with
    | challenge username nonce nowMs => exact wp_bind.mpr wp_challenge
    | prove username timestamp proof exporter token nowMs => exact wp_bind.mpr wp_prove
    | validateSession token exporter nowMs =>
      exact wp_bind.mpr (wp_mono wp_validateSession fun _ _ h => .keeps h.1)
    | logout token => exact wp_bind.mpr (wp_mono wp_logout fun _ _ h => .keeps h.1)
    | prune nowMs => exact wp_bind.mpr (wp_mono wp_prune fun _ _ h => .keeps h)
    | recoveryChallenge rand nowMs => exact wp_bind.mpr wp_recoveryChallenge
    | recoveryVerify challengeId timestamp proof exporter token nowMs =>
      exact wp_bind.mpr wp_recoveryVerify
  have heffect := wp_sound h hwp
  exact heffect

lemma runs_validateSession {token exporter : Bytes 32} {nowMs : UInt64} {u : Id}
    (h : Runs cfg faults s (.validateSession token exporter nowMs, .validateSession (.ok u)) t) :
    ∃ row ∈ s.sessions.lookup (sha256 token.toList), row.userId = u ∧
      row.tlsExporter = exporter ∧ nowMs < row.expiresAtMs ∧ row.revoked = false := by
  have hwp : wp (AuthCall.Step faults) ((validateSession token exporter nowMs).program cfg)
      (fun reply _ => ∀ u, reply = .validateSession (.ok u) →
        ∃ row ∈ s.sessions.lookup (sha256 token.toList), row.userId = u ∧
          row.tlsExporter = exporter ∧ nowMs < row.expiresAtMs ∧ row.revoked = false) s := by
    refine wp_bind.mpr (wp_mono wp_validateSession ?_)
    intro r t hr u hu
    exact hr.2 u (AuthReply.validateSession.inj hu)
  have hrow := wp_sound h hwp
  exact hrow u rfl

lemma runs_logout {token : Bytes 32}
    (h : Runs cfg faults s (.logout token, .logout (.ok ())) t) :
    ∀ row ∈ t.sessions.lookup (sha256 token.toList), row.revoked = true := by
  have hwp : wp (AuthCall.Step faults) ((logout token).program cfg)
      (fun reply t => reply = .logout (.ok ()) →
        ∀ row ∈ t.sessions.lookup (sha256 token.toList), row.revoked = true) s := by
    refine wp_bind.mpr (wp_mono wp_logout ?_)
    intro r t hr hu
    exact hr.2 (AuthReply.logout.inj hu)
  have hrevoked := wp_sound h hwp
  exact hrevoked rfl

end Runs

end AuthRequest

/-! ## Runs -/

abbrev AuthPath := List (AuthState × AuthRequest × AuthReply)

namespace Sessions

section

variable [UnicodeNormalization] [Ed25519] [Sha256]

/-- Every nonce was issued on the way, and every session was minted on the way; while it is valid, no
logout of it has happened since. -/
structure Traced (cfg : AuthConfig) (s₀ : AuthState) (path : AuthPath) (s : AuthState) : Prop where
  users : s.users = s₀.users
  recovery : s.recovery = s₀.recovery
  nonces : ∀ nonce, ∀ row ∈ s.nonces.lookup nonce, ∃ x ∈ path, ∃ issued,
    AuthRequest.Issues cfg x.2 nonce issued ∧ issued.username = row.username ∧
      issued.expiresAtMs = row.expiresAtMs
  sessions : ∀ tokenHash, ∀ row ∈ s.sessions.lookup tokenHash,
    ∃ before s₁ x after token minted, path = before ++ (s₁, x) :: after ∧
      sha256 token.toList = tokenHash ∧ AuthRequest.Mints cfg s₁ x token minted ∧
      minted.userId = row.userId ∧ minted.tlsExporter = row.tlsExporter ∧
      minted.expiresAtMs = row.expiresAtMs ∧
      (row.revoked = false → ∀ y ∈ after, ∀ token' : Bytes 32,
        y.2 = (.logout token', .logout (.ok ())) → sha256 token'.toList ≠ tokenHash)

variable {cfg : AuthConfig} {faults : Bool} {s₀ s t u : AuthState} {path : AuthPath}
  {x : AuthRequest × AuthReply}

lemma Traced.nonce_kept (h : Traced cfg s₀ path s) (hkeeps : s.Keeps t) {nonce : Bytes 32}
    {row : NonceRecord} (hrow : row ∈ t.nonces.lookup nonce) :
    ∃ y ∈ path ++ [(s, x)], ∃ issued, AuthRequest.Issues cfg y.2 nonce issued ∧
      issued.username = row.username ∧ issued.expiresAtMs = row.expiresAtMs := by
  obtain ⟨old, hold, husername, hexpires⟩ := hkeeps.nonces nonce row hrow
  obtain ⟨y, hy, issued, hissues, husername', hexpires'⟩ := h.nonces nonce old hold
  exact ⟨y, List.mem_append_left _ hy, issued, hissues, husername'.trans husername,
    hexpires'.trans hexpires⟩

lemma Traced.session_kept (h : Traced cfg s₀ path s) (hkeeps : s.Keeps t)
    {tokenHash : Bytes 32} {row : SessionRecord} (hrow : row ∈ t.sessions.lookup tokenHash)
    (hlogout : ∀ token', x = (.logout token', .logout (.ok ())) →
      sha256 token'.toList = tokenHash → row.revoked = true) :
    ∃ before s₁ y after token minted, path ++ [(s, x)] = before ++ (s₁, y) :: after ∧
      sha256 token.toList = tokenHash ∧ AuthRequest.Mints cfg s₁ y token minted ∧
      minted.userId = row.userId ∧ minted.tlsExporter = row.tlsExporter ∧
      minted.expiresAtMs = row.expiresAtMs ∧
      (row.revoked = false → ∀ z ∈ after, ∀ token' : Bytes 32,
        z.2 = (.logout token', .logout (.ok ())) → sha256 token'.toList ≠ tokenHash) := by
  obtain ⟨old, hold, huser, hexporter, hexpires, hrevoked⟩ := hkeeps.sessions tokenHash row hrow
  obtain ⟨before, s₁, y, after, token, minted, rfl, hhash, hmints, huser', hexporter', hexpires',
    hsince⟩ := h.sessions tokenHash old hold
  refine ⟨before, s₁, y, after ++ [(s, x)], token, minted, by simp, hhash, hmints,
    huser'.trans huser, hexporter'.trans hexporter, hexpires'.trans hexpires, ?_⟩
  intro hopen z hz token' hz' hhash'
  obtain hz | hz := List.mem_append.mp hz
  · exact hsince (hrevoked hopen) z hz token' hz' hhash'
  · obtain rfl := List.mem_singleton.mp hz
    have hclosed := hlogout token' hz' hhash'
    rw [hopen] at hclosed
    exact absurd hclosed (by simp)

variable [HpkeSeal] [Hkdf] [Aes256GcmSeal] [X25519] [X25519Base] [MlKem768Encaps]

lemma Traced.next (h : Traced cfg s₀ path s) (hruns : AuthRequest.Runs cfg faults s x u) :
    Traced cfg s₀ (path ++ [(s, x)]) u := by
  have hlogout : ∀ tokenHash, ∀ row ∈ u.sessions.lookup tokenHash, ∀ token',
      x = (.logout token', .logout (.ok ())) → sha256 token'.toList = tokenHash →
      row.revoked = true := by
    intro tokenHash row hrow token' hx hhash
    subst hx hhash
    exact AuthRequest.runs_logout hruns row hrow
  cases AuthRequest.runs_effect hruns with
  | keeps hkeeps =>
    exact ⟨hkeeps.users.trans h.users, hkeeps.recovery.trans h.recovery,
      fun nonce row hrow => h.nonce_kept hkeeps hrow,
      fun tokenHash row hrow => h.session_kept hkeeps hrow (hlogout tokenHash row hrow)⟩
  | @issues t n issued hissues hkeeps =>
    refine ⟨hkeeps.users.trans h.users, hkeeps.recovery.trans h.recovery, ?_,
      fun tokenHash row hrow => h.session_kept hkeeps hrow (hlogout tokenHash row hrow)⟩
    intro nonce row hrow
    simp only [lookup_insert_eq, Option.mem_def] at hrow
    split at hrow
    · rename_i hn
      obtain rfl := Option.some.inj hrow
      rw [hn]
      exact ⟨(s, x), by simp, issued, hissues, rfl, rfl⟩
    · exact h.nonce_kept hkeeps hrow
  | @mints t token minted hmints hkeeps =>
    refine ⟨hkeeps.users.trans h.users, hkeeps.recovery.trans h.recovery,
      fun nonce row hrow => h.nonce_kept hkeeps hrow, ?_⟩
    intro tokenHash row hrow
    have hrow' := hrow
    simp only [lookup_insert_eq, Option.mem_def] at hrow'
    split at hrow'
    · rename_i hhash
      obtain rfl := Option.some.inj hrow'
      exact ⟨path, s, x, [], token, minted, rfl, hhash.symm, hmints, rfl, rfl, rfl,
        fun _ _ hy => absurd hy (by simp)⟩
    · exact h.session_kept hkeeps hrow' (hlogout tokenHash row hrow)

/-- From empty tables every run traces its nonces and sessions. -/
theorem traced_run (hnonces : s₀.nonces = ∅) (hsessions : s₀.sessions = ∅)
    (hrun : LabelledRun (AuthRequest.Runs cfg faults) s₀ path s) : Traced cfg s₀ path s := by
  induction hrun with
  | start =>
    refine ⟨rfl, rfl, ?_, ?_⟩
    · intro nonce row hrow
      rw [hnonces] at hrow
      exact absurd hrow (by simp)
    · intro tokenHash row hrow
      rw [hsessions] at hrow
      exact absurd hrow (by simp)
  | step _ hnext ih => exact ih.next hnext

end

end Sessions

def AuthRequest.provesFor : AuthRequest → Option String
  | .prove username _ _ _ _ _ => some username
  | _ => none

def AuthRequest.challengeId : AuthRequest → Option (Bytes 16)
  | .recoveryChallenge rand _ => some rand.challengeId
  | _ => none

def AuthReply.token : AuthReply → Option (Bytes 32)
  | .prove (.ok token) => some token
  | .recoveryVerify (.ok token) => some token
  | _ => none

namespace Sessions

/-- No proof is for the key under which a recovery challenge before it kept its nonce. -/
def KeysApart (path : AuthPath) : Prop :=
  path.Pairwise fun x y => ∀ username ∈ y.2.1.provesFor, ∀ challengeId ∈ x.2.1.challengeId,
    username ≠ AuthService.recoveryNonceKey challengeId

section

variable [UnicodeNormalization] [Ed25519]

/-- A proof by the user returned the token on this channel, it has not expired, and no logout of it
happened since.  The proof was of a nonce that a challenge for this username had issued, and that had
not expired. -/
def LoggedIn (cfg : AuthConfig) (users : AList fun _ : String => UserRecord) (path : AuthPath)
    (token exporter : Bytes 32) (nowMs : UInt64) (userId : Id) : Prop :=
  ∃ before s₁ username timestamp proof provedMs after user nonce,
    path = before ++ (s₁, .prove username timestamp proof exporter token provedMs,
      .prove (.ok token)) :: after ∧
    nowMs.toNat < provedMs.toNat + cfg.sessionTtlMs.toNat ∧
    (∀ y ∈ after, y.2 ≠ (.logout token, .logout (.ok ()))) ∧
    users.lookup username = some user ∧ user.userId = userId ∧
    AuthService.verifyProof user.sigPub cfg.serverId exporter nonce timestamp proof = true ∧
    ∃ y ∈ before, ∃ issuedMs c,
      y.2 = (.challenge username nonce issuedMs, .challenge (.ok c)) ∧ c.nonce = nonce ∧
      provedMs.toNat < issuedMs.toNat + cfg.nonceTtlMs.toNat

/-- The recovery account's proof returned the token on this channel, it has not expired, and no
logout of it happened since. -/
def Recovered (cfg : AuthConfig) (recovery : Option RecoveryAccount) (path : AuthPath)
    (token exporter : Bytes 32) (nowMs : UInt64) : Prop :=
  ∃ before s₁ challengeId timestamp proof provedMs after acct nonce,
    path = before ++ (s₁, .recoveryVerify challengeId timestamp proof exporter token provedMs,
      .recoveryVerify (.ok token)) :: after ∧
    nowMs.toNat < provedMs.toNat + cfg.sessionTtlMs.toNat ∧
    (∀ y ∈ after, y.2 ≠ (.logout token, .logout (.ok ()))) ∧ recovery = some acct ∧
    AuthService.verifyRecoveryProof acct.sigPub cfg.serverId exporter nonce timestamp proof = true

variable [Sha256] [HpkeSeal] [Hkdf] [Aes256GcmSeal] [X25519] [X25519Base] [MlKem768Encaps]
  {cfg : AuthConfig} {faults : Bool} {s t u : AuthState} {path : AuthPath}
  {token exporter : Bytes 32} {nowMs : UInt64} {userId : Id}

lemma source_of_valid (hnonces : s.nonces = ∅) (hsessions : s.sessions = ∅)
    (hrun : LabelledRun (AuthRequest.Runs cfg faults) s path t) (hkeys : KeysApart path)
    (hsha : ∀ x ∈ path, ∀ token' ∈ x.2.2.token,
      sha256 token'.toList = sha256 token.toList → token' = token)
    (hvalid : AuthRequest.Runs cfg faults t
      (.validateSession token exporter nowMs, .validateSession (.ok userId)) u) :
    LoggedIn cfg s.users path token exporter nowMs userId ∨
      (userId = RECOVERY_ID ∧ Recovered cfg s.recovery path token exporter nowMs) := by
  obtain ⟨row, hrow, rfl, rfl, hlive, hopen⟩ := AuthRequest.runs_validateSession hvalid
  obtain ⟨before, s₁, x, after, token', minted, rfl, hhash, hmints, huser, hexporter, hexpires,
    hsince⟩ := (traced_run hnonces hsessions hrun).sessions _ row hrow
  have hbefore : Traced cfg s before s₁ := traced_run hnonces hsessions hrun.before
  have hlogout : ∀ y ∈ after, y.2 ≠ (.logout token, .logout (.ok ())) :=
    fun y hy hout => hsince hopen y hy token hout rfl
  have hmem : (s₁, x) ∈ before ++ (s₁, x) :: after :=
    List.mem_append_right before List.mem_cons_self
  have hlive' := UInt64.lt_iff_toNat_lt.mp hlive
  rw [← hexpires] at hlive'
  rw [← huser, ← hexporter]
  cases hmints with
  | @prove username timestamp proof exporter _ provedMs expiresAtMs user nonce row' hlookup hnonce
      husername hfresh hverified httl =>
    obtain rfl : token' = token := hsha _ hmem token' rfl hhash
    obtain ⟨y, hy, issued, hissues, hname, hissued⟩ := hbefore.nonces nonce row' hnonce
    rw [hbefore.users] at hlookup
    rw [httl] at hlive'
    refine .inl ⟨before, s₁, username, timestamp, proof, provedMs, after, user, nonce, rfl, hlive',
      hlogout, hlookup, rfl, hverified, y, hy, ?_⟩
    have hfresh' := UInt64.lt_iff_toNat_lt.mp hfresh
    obtain ⟨s₂, request, reply⟩ := y
    cases hissues with
    | @challenge name _ issuedMs _ httl =>
      rw [← hissued, httl] at hfresh'
      exact ⟨issuedMs, _, by rw [← husername, ← hname], rfl, hfresh'⟩
    | @recoveryChallenge rand issuedMs _ _ _ =>
      -- the nonce was the recovery account's, and the proof was for its key
      have happart := (List.pairwise_append.mp hkeys).2.2 _ hy _ List.mem_cons_self
      exact absurd (husername.symm.trans hname.symm) (happart username rfl rand.challengeId rfl)
  | @recoveryVerify challengeId timestamp proof exporter _ provedMs expiresAtMs acct nonce row'
      hacct hnonce husername hfresh hverified httl =>
    obtain rfl : token' = token := hsha _ hmem token' rfl hhash
    rw [hbefore.recovery] at hacct
    rw [httl] at hlive'
    exact .inr ⟨rfl, before, s₁, challengeId, timestamp, proof, provedMs, after, acct, nonce, rfl,
      hlive', hlogout, hacct, hverified⟩

end

end Sessions

open Sessions

section

variable [UnicodeNormalization] [Ed25519] [Sha256] [HpkeSeal] [Hkdf] [Aes256GcmSeal] [X25519]
  [X25519Base] [MlKem768Encaps] {cfg : AuthConfig} {faults : Bool} {s t u : AuthState}
  {path : AuthPath} {token exporter : Bytes 32} {nowMs : UInt64} {userId : Id}

/-- **A valid session was minted by a login.**  When no user proves under the key of a recovery
nonce, and SHA-256 does not collide on the tokens, a token is valid for a user only after that user
logged in with it, and for the recovery account only after the recovery login returned it. -/
theorem validateSession_sound (hnonces : s.nonces = ∅) (hsessions : s.sessions = ∅)
    (hrun : LabelledRun (AuthRequest.Runs cfg faults) s path t) (hkeys : KeysApart path)
    (hsha : ∀ x ∈ path, ∀ token' ∈ x.2.2.token,
      sha256 token'.toList = sha256 token.toList → token' = token)
    (hvalid : AuthRequest.Runs cfg faults t
      (.validateSession token exporter nowMs, .validateSession (.ok userId)) u) :
    (userId ≠ RECOVERY_ID → LoggedIn cfg s.users path token exporter nowMs userId) ∧
      ((∀ username user, s.users.lookup username = some user → user.userId ≠ RECOVERY_ID) →
        userId = RECOVERY_ID → Recovered cfg s.recovery path token exporter nowMs) := by
  obtain hlogin | ⟨hid, hrecovered⟩ :=
    source_of_valid hnonces hsessions hrun hkeys hsha hvalid
  · refine ⟨fun _ => hlogin, ?_⟩
    intro husers hid
    obtain ⟨_, _, username, _, _, _, _, user, _, _, _, _, huser, hself, _⟩ := hlogin
    exact absurd (hself.trans hid) (husers username user huser)
  · exact ⟨fun hother => absurd hid hother, fun _ _ => hrecovered⟩

end

section Runs

open ClosedRuns AuthRequest

/-- The states after the challenge and after the proof. -/
def afterAsks : AuthState := (asks.serve .default .oneUser).2

def afterAnswers : AuthState := ((answers (.replicate 32 7)).serve .default afterAsks).2

def loginPath : AuthPath :=
  [(.oneUser, asks, .challenge (.ok ⟨.replicate 32 4, "maxsecu-dev-1", 60⟩)),
    (afterAsks, answers (.replicate 32 7), .prove (.ok (.replicate 32 7)))]

/-- The user logs in and the token is valid. -/
theorem validateSession_sound_login :
    LoggedIn .default AuthState.oneUser.users loginPath (.replicate 32 7) (.replicate 32 6) 2
      ⟨.replicate 16 1⟩ := by
  have hasks : (asks.serve .default .oneUser).1 =
      .challenge (.ok ⟨.replicate 32 4, "maxsecu-dev-1", 60⟩) := by
    decide +kernel
  have hanswers : ((answers (.replicate 32 7)).serve .default afterAsks).1 =
      .prove (.ok (.replicate 32 7)) := by
    decide +kernel
  have hrun : LabelledRun (Runs .default false) .oneUser loginPath afterAnswers := by
    unfold loginPath
    rw [← hasks, ← hanswers]
    exact .step (.step .start (runs_serve _)) (runs_serve _)
  have hvalid := @runs_serve .default false afterAnswers _ _ _ _ _ _ _ _ _
    (.validateSession (.replicate 32 7) (.replicate 32 6) 2)
  have hreply : (AuthRequest.serve .default
      (.validateSession (.replicate 32 7) (.replicate 32 6) 2) afterAnswers).1 = .validateSession (.ok ⟨.replicate 16 1⟩) := by
    decide +kernel
  rw [hreply] at hvalid
  have hkeys : KeysApart loginPath := by
    simp [KeysApart, loginPath, asks, AuthRequest.challengeId]
  exact (validateSession_sound rfl rfl hrun hkeys (by simp [loginPath, AuthReply.token])
    hvalid).1 (by decide)

/-- A user whose name is the key of a recovery nonce. -/
def namedAsKey : AuthState where
  users := ⟨[⟨AuthService.recoveryNonceKey (.replicate 16 0),
    ⟨⟨.replicate 16 1⟩, .replicate 32 2, .replicate 32 3⟩⟩], by simp⟩
  recovery := some ⟨.replicate 32 8, .replicate 32 9, none⟩
  nonces := ∅
  sessions := ∅
  limiter := .new .default

/-- The name is one that registration accepts. -/
example : (Text.new (AuthService.recoveryNonceKey (.replicate 16 0))).isOk = true := by
  decide +kernel

/-- A recovery challenge, whose id gives the user's name. -/
def asksRecovery : AuthRequest :=
  .recoveryChallenge ⟨.replicate 32 4, .replicate 16 0,
    ⟨.replicate 32 0, .replicate 32 0, .replicate 32 0⟩⟩ 0

def answersKey : AuthRequest :=
  .prove (AuthService.recoveryNonceKey (.replicate 16 0)) 0 (.replicate 64 5) (.replicate 32 6)
    (.replicate 32 7) 1

def afterAsksRecovery : AuthState := (asksRecovery.serve .default namedAsKey).2

def afterAnswersKey : AuthState := (answersKey.serve .default afterAsksRecovery).2

def keyPath : AuthPath :=
  [(namedAsKey, asksRecovery, (asksRecovery.serve .default namedAsKey).1),
    (afterAsksRecovery, answersKey, .prove (.ok (.replicate 32 7)))]

/-- The user logs in with the nonce of the recovery challenge, without one of their own. -/
theorem validateSession_sound_recoveryNonce :
    ¬ ∀ (cfg : AuthConfig) (faults : Bool) (s t u : AuthState) (path : AuthPath)
      (token exporter : Bytes 32) (nowMs : UInt64) (userId : Id),
      s.nonces = ∅ → s.sessions = ∅ → LabelledRun (Runs cfg faults) s path t →
      (∀ x ∈ path, ∀ token' ∈ x.2.2.token,
        sha256 token'.toList = sha256 token.toList → token' = token) →
      Runs cfg faults t (.validateSession token exporter nowMs, .validateSession (.ok userId)) u →
      (userId ≠ RECOVERY_ID → LoggedIn cfg s.users path token exporter nowMs userId) ∧
        ((∀ username user, s.users.lookup username = some user → user.userId ≠ RECOVERY_ID) →
          userId = RECOVERY_ID → Recovered cfg s.recovery path token exporter nowMs) := by
  intro h
  have hasks : (asksRecovery.serve .default namedAsKey).1.token = none := by
    decide +kernel
  have hanswers : (answersKey.serve .default afterAsksRecovery).1 =
      .prove (.ok (.replicate 32 7)) := by
    decide +kernel
  have hrun : LabelledRun (Runs .default false) namedAsKey keyPath afterAnswersKey := by
    unfold keyPath
    rw [← hanswers]
    exact .step (.step .start (runs_serve _)) (runs_serve _)
  have hvalid := @runs_serve .default false afterAnswersKey _ _ _ _ _ _ _ _ _
    (.validateSession (.replicate 32 7) (.replicate 32 6) 2)
  have hreply : (AuthRequest.serve .default
      (.validateSession (.replicate 32 7) (.replicate 32 6) 2) afterAnswersKey).1 = .validateSession (.ok ⟨.replicate 16 1⟩) := by
    decide +kernel
  rw [hreply] at hvalid
  have htokens : ∀ x ∈ keyPath, ∀ token' ∈ x.2.2.token, token' = .replicate 32 7 := by
    intro x hx token' htoken
    obtain rfl | hx := List.mem_cons.mp hx
    · rw [hasks] at htoken
      exact absurd htoken (by simp)
    · obtain rfl := List.mem_singleton.mp hx
      exact (Option.some.inj htoken).symm
  have hsound := h .default false _ _ _ _ _ _ _ _ rfl rfl hrun
    (fun x hx token' htoken _ => htokens x hx token' htoken) hvalid
  obtain ⟨before, _, _, _, _, _, _, _, _, hpath, _, _, _, _, _, y, hy, _, _, hissued, _⟩ :=
    hsound.1 (by decide)
  have hmem : y ∈ keyPath := by
    rw [hpath]
    exact List.mem_append_left _ hy
  obtain rfl | hmem := List.mem_cons.mp hmem
  · exact absurd (Prod.mk.inj hissued).1 (by simp [asksRecovery])
  · obtain rfl := List.mem_singleton.mp hmem
    exact absurd (Prod.mk.inj hissued).1 (by simp [answersKey])

end Runs

end MaxSecu
