import MaxSecu.Framework.ExpiringTable
import MaxSecu.Framework.HiddenSteps
import MaxSecu.Server.Sessions

/-!
# Housekeeping of the login tables

Sessions and nonces that expired are pruned in the background, and a restore merges the rows of an
earlier backup in again: a row that is there stays, whatever the backup has for its key.  The marks
that a nonce was used and that a session was revoked are in the live rows only, so pruning drops them
and a merge may bring back rows without them.

All these rows have expired.  A row that is missing was pruned after the backup, so it expired before
the clock of that pass, and the row of the backup expired no later.  So the tables with housekeeping
are alike with those without it, and requests get the same replies (`housekeeping_unobserved`).
-/

namespace MaxSecu

open Program AssociationList ExpiringTable

/-! ## The steps -/

/-- The login tables in a backup bundle. -/
structure AuthBackup where
  sessions : AList fun _ : Bytes 32 => SessionRecord
  nonces : AList fun _ : Bytes 32 => NonceRecord

/-- The order in which a pass comes to the rows. -/
structure IterationOrder where
  arrange : List (Bytes 32) → List (Bytes 32)
  perm : ∀ keys, (arrange keys).Perm keys

namespace AuthState

def backUp (s : AuthState) : AuthBackup := ⟨s.sessions, s.nonces⟩

/-- Insert the staged rows; on conflict do nothing. -/
def mergeSessions (s : AuthState) (staged : AList fun _ : Bytes 32 => SessionRecord) : AuthState :=
  { s with sessions := s.sessions ∪ staged }

def mergeAuthNonces (s : AuthState) (staged : AList fun _ : Bytes 32 => NonceRecord) : AuthState :=
  { s with nonces := s.nonces ∪ staged }

/-- The part of a restore that is about logins. -/
def merge (s : AuthState) (backup : AuthBackup) : AuthState :=
  (s.mergeSessions backup.sessions).mergeAuthNonces backup.nonces

/-- One pass, that comes to the rows of each table in an order. -/
def pruneExpiredAuthRows (s : AuthState) (nowMs graceMs : UInt64) (batchLimit : UInt32)
    (sessionOrder nonceOrder : IterationOrder) : AuthState :=
  s.prune
    ((sessionOrder.arrange (s.expiredSessions (AuthStoreCall.cutoff nowMs graceMs))).take
      batchLimit.toNat)
    ((nonceOrder.arrange (s.expiredNonces (AuthStoreCall.cutoff nowMs graceMs))).take
      batchLimit.toNat)

/-- The row of a session that is neither revoked nor expired. -/
def openSession (s : AuthState) (tokenHash : Bytes 32) (nowMs : UInt64) : Option SessionRecord :=
  (s.sessions.lookup tokenHash).filter fun row => !row.revoked && nowMs < row.expiresAtMs

lemma runs_pruneExpiredAuthRows {s t : AuthState} {nowMs graceMs : UInt64} {batchLimit : UInt32} :
    (∃ counts, (AuthStoreCall.pruneExpiredAuthRows nowMs graceMs batchLimit).Runs s counts t) ↔
      ∃ sessionOrder nonceOrder,
        t = s.pruneExpiredAuthRows nowMs graceMs batchLimit sessionOrder nonceOrder := by
  have horder : ∀ {keys keys' : List (Bytes 32)}, keys'.Perm keys →
      ∃ order : IterationOrder, order.arrange keys = keys' := by
    intro keys keys' hperm
    refine ⟨⟨Function.update id keys keys', ?_⟩, Function.update_self ..⟩
    intro other
    by_cases hother : other = keys
    · rw [hother, Function.update_self]
      exact hperm
    · rw [Function.update_of_ne hother]
      exact List.Perm.refl _
  constructor
  · intro h
    obtain ⟨counts, hruns⟩ := h
    cases hruns with
    | applies =>
      obtain ⟨order, _⟩ := horder (List.Perm.refl [])
      exact ⟨⟨id, List.Perm.refl⟩, ⟨id, List.Perm.refl⟩, rfl⟩
    | prunes hsessions hnonces =>
      obtain ⟨sessionOrder, hsessionOrder⟩ := horder hsessions
      obtain ⟨nonceOrder, hnonceOrder⟩ := horder hnonces
      refine ⟨sessionOrder, nonceOrder, ?_⟩
      rw [pruneExpiredAuthRows, hsessionOrder, hnonceOrder]
  · intro h
    obtain ⟨sessionOrder, nonceOrder, rfl⟩ := h
    exact ⟨_, .prunes (sessionOrder.perm _) (nonceOrder.perm _)⟩

end AuthState

/-- The tables, and the backups taken of them so far. -/
structure Maintained where
  live : AuthState
  backups : List AuthBackup

inductive Housekeeping
  | prune (nowMs graceMs : UInt64) (batchLimit : UInt32) (sessionOrder nonceOrder : IterationOrder)
  | backUp
  | merge (i : ℕ)

namespace Housekeeping

def perform : Housekeeping → Maintained → Maintained
  | prune nowMs graceMs batchLimit sessionOrder nonceOrder, m =>
    { m with
      live := m.live.pruneExpiredAuthRows nowMs graceMs batchLimit sessionOrder nonceOrder }
  | backUp, m => { m with backups := m.backups ++ [m.live.backUp] }
  | merge i, m => m.backups[i]?.elim m fun backup => { m with live := m.live.merge backup }

/-- The reading of the clock that the step is given. -/
def nowMs : Housekeeping → Option UInt64
  | prune nowMs _ _ _ _ => some nowMs
  | _ => none

end Housekeeping

namespace AuthRequest

def nowMs : AuthRequest → Option UInt64
  | challenge _ _ nowMs => some nowMs
  | prove _ _ _ _ _ nowMs => some nowMs
  | validateSession _ _ nowMs => some nowMs
  | logout _ => none
  | prune nowMs => some nowMs
  | recoveryChallenge _ nowMs => some nowMs
  | recoveryVerify _ _ _ _ _ nowMs => some nowMs

def IsLogin : AuthRequest → Prop
  | prune _ => False
  | _ => True

end AuthRequest

/-- A request with its reply, or a step of housekeeping. -/
abbrev AuthMoment := (AuthRequest × AuthReply) ⊕ Housekeeping

def AuthMoment.nowMs (e : AuthMoment) : Option UInt64 :=
  Sum.elim (fun x => x.1.nowMs) Housekeeping.nowMs e

namespace Maintained

section

variable [UnicodeNormalization] [Ed25519] [Sha256] [HpkeSeal] [Hkdf] [Aes256GcmSeal] [X25519]
  [X25519Base] [MlKem768Encaps]

/-- A request is served from the tables; the backups are elsewhere. -/
def Serves (cfg : AuthConfig) (faults : Bool) (m : Maintained) (x : AuthRequest × AuthReply)
    (m' : Maintained) : Prop :=
  AuthRequest.Runs cfg faults m.live x m'.live ∧ m'.backups = m.backups

def Step (cfg : AuthConfig) (faults : Bool) : Maintained → AuthMoment → Maintained → Prop :=
  HiddenSteps.Step (Serves cfg faults) Housekeeping.perform

end

end Maintained

/-! ## Tables that are alike -/

def NonceRecord.expiry (row : NonceRecord) : ℕ := row.expiresAtMs.toNat

def SessionRecord.expiry (row : SessionRecord) : ℕ := row.expiresAtMs.toNat

namespace AuthState

/-- The states differ in rows only that have expired. -/
structure Alike (now : ℕ) (s t : AuthState) : Prop where
  users : s.users = t.users
  recovery : s.recovery = t.recovery
  limiter : s.limiter = t.limiter
  nonces : ExpiringTable.Alike NonceRecord.expiry now s.nonces t.nonces
  sessions : ExpiringTable.Alike SessionRecord.expiry now s.sessions t.sessions

/-- Rows keep their expiries, or get the one that new rows get now. -/
structure Renewed (cfg : AuthConfig) (now : ℕ) (s t : AuthState) : Prop where
  nonces : ExpiringTable.Renewed NonceRecord.expiry (now + cfg.nonceTtlMs.toNat) s.nonces t.nonces
  sessions :
    ExpiringTable.Renewed SessionRecord.expiry (now + cfg.sessionTtlMs.toNat) s.sessions t.sessions

variable {cfg : AuthConfig} {now later : ℕ} {s t u : AuthState}

namespace Alike

lemma refl (s : AuthState) : s.Alike now s :=
  ⟨rfl, rfl, rfl, .refl _, .refl _⟩

lemma symm (h : s.Alike now t) : t.Alike now s :=
  ⟨h.users.symm, h.recovery.symm, h.limiter.symm, h.nonces.symm, h.sessions.symm⟩

lemma trans (h : s.Alike now t) (h' : t.Alike now u) : s.Alike now u :=
  ⟨h.users.trans h'.users, h.recovery.trans h'.recovery, h.limiter.trans h'.limiter,
    h.nonces.trans h'.nonces, h.sessions.trans h'.sessions⟩

lemma mono (h : s.Alike now t) (hle : now ≤ later) : s.Alike later t :=
  ⟨h.users, h.recovery, h.limiter, h.nonces.mono hle, h.sessions.mono hle⟩

lemma outstanding_perm (h : s.Alike now t) {username : String} {nowMs : UInt64}
    (hnow : now ≤ nowMs.toNat) :
    (s.outstanding username nowMs).Perm (t.outstanding username nowMs) := by
  refine @ExpiringTable.Alike.collect_perm _ _ _ _ _ _ _ _ _ id h.nonces ?_ ?_
  · intro nonce row found hfound
    split at hfound
    · exact (Option.some.inj hfound).symm
    · exact absurd hfound (by simp)
  · intro nonce row hfound
    split at hfound
    · rename_i hrow
      exact hnow.trans_lt (UInt64.lt_iff_toNat_lt.mp hrow.2.2)
    · exact absurd hfound (by simp)

lemma openSession_eq (h : s.Alike now t) {tokenHash : Bytes 32} {nowMs : UInt64}
    (hnow : now ≤ nowMs.toNat) : s.openSession tokenHash nowMs = t.openSession tokenHash nowMs := by
  refine h.sessions.filter_eq ?_
  intro row hrow
  simp only [Bool.and_eq_true, decide_eq_true_eq] at hrow
  exact hnow.trans_lt (UInt64.lt_iff_toNat_lt.mp hrow.2)

end Alike

namespace Renewed

lemma refl (s : AuthState) : s.Renewed cfg now s := ⟨.refl _, .refl _⟩

lemma trans (h : s.Renewed cfg now t) (h' : t.Renewed cfg now u) : s.Renewed cfg now u :=
  ⟨h.nonces.trans h'.nonces, h.sessions.trans h'.sessions⟩

end Renewed

end AuthState

/-! ## Requests on tables that are alike -/

/-- The call is given this reading of the clock, and what it inserts expires accordingly.  It does
not look at expired rows. -/
def AuthCall.Timed (cfg : AuthConfig) (now : ℕ) : AuthCall → Prop
  | .store (.insertNonce _ _ expiresAtMs) => expiresAtMs.toNat = now + cfg.nonceTtlMs.toNat
  | .store (.insertSession _ rec) => rec.expiresAtMs.toNat = now + cfg.sessionTtlMs.toNat
  | .store (.outstandingNonces _ nowMs) => nowMs.toNat = now
  | .store (.getSession _) => False
  | .store (.pruneExpiredAuthRows _ _ _) => False
  | _ => True

namespace AuthCall

variable {cfg : AuthConfig} {faults : Bool} {now : ℕ} {c : AuthCall} {s s' t : AuthState}
  {r : c.Response}

lemma step_alike (htimed : c.Timed cfg now) (h : s.Alike now t) (hstep : c.Step faults s r s') :
    ∃ t', c.Step faults t r t' ∧ s'.Alike now t' := by
  cases hstep with
  | limiter c s =>
    refine ⟨{ t with limiter := (c.apply t.limiter).2 }, ?_, ?_⟩
    · rw [h.limiter]
      exact .limiter c t
    · exact ⟨h.users, h.recovery, by rw [h.limiter], h.nonces, h.sessions⟩
  | fails e hfaults => exact ⟨t, .fails e hfaults, h⟩
  | @store c s r s' hruns =>
    cases hruns with
    | @reorders username nowMs s nonces hperm =>
      have hnow : nowMs.toNat = now := htimed
      exact ⟨t, .store (.reorders (hperm.trans (h.outstanding_perm hnow.ge))), h⟩
    | prunes _ _ => exact absurd htimed id
    | applies c s =>
      cases c with
      | userByName username =>
        have hruns := AuthStoreCall.Runs.applies (.userByName username) t
        have hsame : t.users.lookup username = s.users.lookup username := by rw [h.users]
        simp only [AuthStoreCall.apply, hsame] at hruns
        exact ⟨t, .store hruns, h⟩
      | recoveryAccount =>
        have hruns := AuthStoreCall.Runs.applies .recoveryAccount t
        simp only [AuthStoreCall.apply, ← h.recovery] at hruns
        exact ⟨t, .store hruns, h⟩
      | insertNonce nonce username expiresAtMs =>
        exact ⟨_, .store (.applies (.insertNonce nonce username expiresAtMs) t),
          h.users, h.recovery, h.limiter, h.nonces.insert, h.sessions⟩
      | outstandingNonces username nowMs =>
        have hnow : nowMs.toNat = now := htimed
        exact ⟨t, .store (.reorders (h.outstanding_perm hnow.ge)), h⟩
      | consumeNonce nonce =>
        exact ⟨_, .store (.applies (.consumeNonce nonce) t),
          h.users, h.recovery, h.limiter, h.nonces.adjust fun _ => rfl, h.sessions⟩
      | insertSession tokenHash rec =>
        exact ⟨_, .store (.applies (.insertSession tokenHash rec) t),
          h.users, h.recovery, h.limiter, h.nonces, h.sessions.insert⟩
      | getSession tokenHash => exact absurd htimed id
      | revokeSession tokenHash =>
        exact ⟨_, .store (.applies (.revokeSession tokenHash) t),
          h.users, h.recovery, h.limiter, h.nonces, h.sessions.adjust fun _ => rfl⟩
      | pruneExpiredAuthRows nowMs graceMs batchLimit => exact absurd htimed id

lemma step_renewed (htimed : c.Timed cfg now) (hstep : c.Step faults s r t) :
    s.Renewed cfg now t := by
  cases hstep with
  | limiter c s => exact ⟨.refl _, .refl _⟩
  | fails e _ => exact .refl s
  | @store c s r t hruns =>
    cases hruns with
    | reorders _ => exact .refl s
    | prunes _ _ => exact absurd htimed id
    | applies c s =>
      cases c with
      | insertNonce nonce username expiresAtMs => exact ⟨.insert htimed, .refl _⟩
      | insertSession tokenHash rec => exact ⟨.refl _, .insert htimed⟩
      | consumeNonce nonce => exact ⟨.adjust fun _ => rfl, .refl _⟩
      | revokeSession tokenHash => exact ⟨.refl _, .adjust fun _ => rfl⟩
      | pruneExpiredAuthRows nowMs graceMs batchLimit => exact absurd htimed id
      | userByName username => exact .refl s
      | recoveryAccount => exact .refl s
      | outstandingNonces username nowMs => exact .refl s
      | getSession tokenHash => exact .refl s

end AuthCall

namespace AuthHandler

variable {ξ α β : Type} {ok : AuthCall → Prop}

lemma makes_store {internal : StoreError → ξ} {c : AuthStoreCall} {f : c.Output → AuthHandler ξ α}
    (hc : ok (.store c)) (hf : ∀ out, (f out).run.Makes ok) :
    (store internal c >>= f).run.Makes ok := by
  refine ⟨hc, ?_⟩
  intro r
  cases r with
  | error e => exact trivial
  | ok out => exact hf out

lemma makes_limiter {panicked : ξ} {c : LimiterCall} {f : c.Output → AuthHandler ξ α}
    (hc : ok (.limiter c)) (hf : ∀ out, (f out).run.Makes ok) :
    (limiter panicked c >>= f).run.Makes ok := by
  refine ⟨hc, ?_⟩
  intro r
  cases r with
  | none => exact trivial
  | some out => exact hf out

lemma makes_elim {o : Option β} {e : ξ} {f : β → AuthHandler ξ α}
    (hf : ∀ b, o = some b → (f b).run.Makes ok) :
    (o.elim (throw e) pure >>= f).run.Makes ok := by
  cases o with
  | none => exact trivial
  | some b => exact hf b rfl

end AuthHandler

namespace AuthRequest

open AuthHandler

variable {cfg : AuthConfig} {nowMs : UInt64}

lemma makes_challenge {username : String} {nonce : Bytes 32} :
    (AuthService.challenge cfg username nonce nowMs).run.Makes
      (AuthCall.Timed cfg nowMs.toNat) := by
  unfold AuthService.challenge
  refine makes_limiter trivial ?_
  intro admitted
  cases admitted with
  | error retryAfterS => exact trivial
  | ok _ =>
    refine makes_elim ?_
    intro expiresAtMs hexpires
    exact makes_store (checkedAdd_eq_some.mp hexpires) fun _ => trivial

lemma makes_prove [UnicodeNormalization] [Ed25519] [Sha256] {username : String}
    {timestamp : UInt64} {proof : Bytes 64} {exporter token : Bytes 32} :
    (AuthService.prove cfg username timestamp proof exporter token nowMs).run.Makes
      (AuthCall.Timed cfg nowMs.toNat) := by
  unfold AuthService.prove
  refine makes_limiter trivial ?_
  intro admitted
  cases admitted with
  | error retryAfterS => exact trivial
  | ok _ =>
    refine makes_store trivial ?_
    intro user
    refine makes_store rfl ?_
    intro nonces
    split
    · exact makes_limiter trivial fun _ => trivial
    · refine makes_store trivial ?_
      intro _
      refine makes_limiter trivial ?_
      intro _
      refine makes_elim ?_
      intro u _
      refine makes_elim ?_
      intro expiresAtMs hexpires
      exact makes_store (checkedAdd_eq_some.mp hexpires) fun _ => trivial

lemma makes_logout [Sha256] {token : Bytes 32} {now : ℕ} :
    (AuthService.logout token).run.Makes (AuthCall.Timed cfg now) :=
  ⟨trivial, fun _ => trivial⟩

lemma makes_recoveryChallenge [HpkeSeal] [Hkdf] [Aes256GcmSeal] [X25519] [X25519Base]
    [MlKem768Encaps] {rand : AuthService.ChallengeEntropy} :
    (AuthService.recoveryChallenge cfg rand nowMs).run.Makes (AuthCall.Timed cfg nowMs.toNat) := by
  unfold AuthService.recoveryChallenge
  refine makes_store trivial ?_
  intro found
  cases found with
  | none => exact trivial
  | some acct =>
    refine makes_elim ?_
    intro expiresAtMs hexpires
    refine makes_store (checkedAdd_eq_some.mp hexpires) ?_
    intro _
    split
    · exact trivial
    · exact trivial

lemma makes_recoveryVerify [UnicodeNormalization] [Ed25519] [Sha256] {challengeId : Bytes 16}
    {timestamp : UInt64} {proof : Bytes 64} {exporter token : Bytes 32} :
    (AuthService.recoveryVerify cfg challengeId timestamp proof exporter token nowMs).run.Makes
      (AuthCall.Timed cfg nowMs.toNat) := by
  unfold AuthService.recoveryVerify
  refine makes_store trivial ?_
  intro found
  cases found with
  | none => exact trivial
  | some acct =>
    refine makes_store rfl ?_
    intro nonces
    split
    · exact trivial
    · refine makes_store trivial ?_
      intro _
      refine makes_elim ?_
      intro expiresAtMs hexpires
      exact makes_store (checkedAdd_eq_some.mp hexpires) fun _ => trivial

/-- What a session check makes of the row of the token. -/
def checkedSession (exporter : Bytes 32) (nowMs : UInt64) :
    Option SessionRecord → Except AuthError Id
  | none => .error .unauthorized
  | some s =>
    if s.revoked = true ∨ s.expiresAtMs ≤ nowMs ∨ s.tlsExporter ≠ exporter then
      .error .unauthorized
    else
      .ok s.userId

/-- The reply of a session check, from the response of the store. -/
def sessionReply (exporter : Bytes 32) (nowMs : UInt64) :
    Except StoreError (Option SessionRecord) → AuthReply
  | .error e => .validateSession (.error (.internal e))
  | .ok found => .validateSession (checkedSession exporter nowMs found)

lemma checkedSession_filter {exporter : Bytes 32} (found : Option SessionRecord) :
    checkedSession exporter nowMs
        (found.filter fun row => !row.revoked && nowMs < row.expiresAtMs) =
      checkedSession exporter nowMs found := by
  cases found with
  | none => rfl
  | some row =>
    by_cases hopen : row.revoked = false ∧ nowMs < row.expiresAtMs
    · rw [Option.filter_some_pos (by simpa using hopen)]
    · rw [Option.filter_some_neg (by simpa using hopen)]
      have hinvalid : row.revoked = true ∨ row.expiresAtMs ≤ nowMs ∨
          row.tlsExporter ≠ exporter := by
        by_cases hrevoked : row.revoked = true
        · exact .inl hrevoked
        · have hexpired : row.expiresAtMs ≤ nowMs := by
            refine UInt64.not_lt.mp ?_
            intro hlive
            exact hopen ⟨by simpa using hrevoked, hlive⟩
          exact .inr (.inl hexpired)
      simp only [checkedSession, hinvalid, if_true]

section

variable [UnicodeNormalization] [Ed25519] [Sha256] [HpkeSeal] [Hkdf] [Aes256GcmSeal] [X25519]
  [X25519Base] [MlKem768Encaps] {faults : Bool} {s s' t : AuthState} {now : ℕ}
  {request : AuthRequest} {reply : AuthReply}

lemma makes_program (hlogin : request.IsLogin) (hnow : ∀ n ∈ request.nowMs, n.toNat = now) :
    (request.program cfg).Makes (AuthCall.Timed cfg now) ∨
      ∃ token exporter nowMs, request = .validateSession token exporter nowMs := by
  cases request with
  | challenge username nonce nowMs =>
    obtain rfl := hnow nowMs rfl
    exact .inl (makes_challenge.bind fun _ => trivial)
  | prove username timestamp proof exporter token nowMs =>
    obtain rfl := hnow nowMs rfl
    exact .inl (makes_prove.bind fun _ => trivial)
  | validateSession token exporter nowMs => exact .inr ⟨token, exporter, nowMs, rfl⟩
  | logout token => exact .inl (makes_logout.bind fun _ => trivial)
  | prune nowMs => exact absurd hlogin id
  | recoveryChallenge rand nowMs =>
    obtain rfl := hnow nowMs rfl
    exact .inl (makes_recoveryChallenge.bind fun _ => trivial)
  | recoveryVerify challengeId timestamp proof exporter token nowMs =>
    obtain rfl := hnow nowMs rfl
    exact .inl (makes_recoveryVerify.bind fun _ => trivial)

lemma program_validateSession {token exporter : Bytes 32} :
    (validateSession token exporter nowMs).program cfg =
      .call (.store (.getSession (sha256 token.toList))) fun r =>
        .done (sessionReply exporter nowMs r) := by
  show Program.call _ _ = Program.call _ _
  congr 1
  funext r
  cases r with
  | error e => rfl
  | ok found =>
    cases found with
    | none => rfl
    | some row =>
      have hite : ∀ (p : Prop) [Decidable p],
          (ExceptT.run (if p then throw AuthError.unauthorized else pure row.userId) :
              Program AuthCall AuthCall.Response _).bind
            (fun r => .done (AuthReply.validateSession r)) =
          .done (.validateSession (if p then .error .unauthorized else .ok row.userId)) := by
        intro p _
        by_cases hp : p
        · rw [if_pos hp, if_pos hp]
          rfl
        · rw [if_neg hp, if_neg hp]
          rfl
      exact hite _

lemma runs_validateSession_iff {token exporter : Bytes 32} :
    Runs cfg faults s (.validateSession token exporter nowMs, reply) t ↔
      t = s ∧ ∃ r, AuthCall.Step faults (.store (.getSession (sha256 token.toList))) s r s ∧
        reply = sessionReply exporter nowMs r := by
  unfold Runs
  rw [program_validateSession]
  constructor
  · intro h
    cases h with
    | call hstep hdone =>
      cases hdone with
      | returns _ _ =>
        cases hstep with
        | fails e hfaults => exact ⟨rfl, .error e, .fails e hfaults, rfl⟩
        | store hruns =>
          cases hruns with
          | applies => exact ⟨rfl, _, .store (.applies _ _), rfl⟩
  · intro h
    obtain ⟨rfl, r, hstep, rfl⟩ := h
    exact .call hstep (.returns _ _)

lemma runs_alike (hlogin : request.IsLogin) (hnow : ∀ n ∈ request.nowMs, n.toNat = now)
    (h : s.Alike now t) (hruns : Runs cfg faults s (request, reply) s') :
    ∃ t', Runs cfg faults t (request, reply) t' ∧ s'.Alike now t' := by
  have hprogram : (request.program cfg).Makes (AuthCall.Timed cfg now) ∨
      ∃ token exporter nowMs, request = .validateSession token exporter nowMs :=
    makes_program hlogin hnow
  obtain hmakes | ⟨token, exporter, nowMs, rfl⟩ := hprogram
  · refine Exec.matched ?_ hruns hmakes h
    intro c s t r s' htimed h hstep
    exact AuthCall.step_alike htimed h hstep
  · obtain ⟨rfl, r, hstep, rfl⟩ := runs_validateSession_iff.mp hruns
    refine ⟨t, runs_validateSession_iff.mpr ⟨rfl, ?_⟩, h⟩
    cases hstep with
    | fails e hfaults => exact ⟨.error e, .fails e hfaults, rfl⟩
    | store hlookup =>
      refine ⟨_, .store (.applies _ t), ?_⟩
      have hle : now ≤ nowMs.toNat := (hnow nowMs rfl).ge
      have hopen := @AuthState.Alike.openSession_eq _ _ _ h (sha256 token.toList) nowMs hle
      unfold AuthState.openSession at hopen
      rw [AuthStoreCall.runs_getSession hlookup]
      simp only [sessionReply, AuthStoreCall.apply]
      rw [← checkedSession_filter (s'.sessions.lookup _), hopen, checkedSession_filter]

lemma runs_renewed (hlogin : request.IsLogin) (hnow : ∀ n ∈ request.nowMs, n.toNat = now)
    (hruns : Runs cfg faults s (request, reply) t) : s.Renewed cfg now t := by
  have hprogram : (request.program cfg).Makes (AuthCall.Timed cfg now) ∨
      ∃ token exporter nowMs, request = .validateSession token exporter nowMs :=
    makes_program hlogin hnow
  obtain hmakes | ⟨token, exporter, nowMs, rfl⟩ := hprogram
  · refine Exec.invariant AuthState.Renewed.refl ?_ ?_ hruns hmakes
    · intro s t u h h'
      exact h.trans h'
    · intro c s r t htimed hstep
      exact AuthCall.step_renewed htimed hstep
  · obtain ⟨rfl, _⟩ := runs_validateSession_iff.mp hruns
    exact .refl _

end

end AuthRequest

/-! ## Tables and their backups -/

namespace AuthBackup

/-- Each row is still in the tables, to expire no earlier, or has expired. -/
structure Covered (now : ℕ) (live : AuthState) (backup : AuthBackup) : Prop where
  sessions : Covers SessionRecord.expiry now live.sessions backup.sessions
  nonces : Covers NonceRecord.expiry now live.nonces backup.nonces

/-- No row expires later than one that is inserted now. -/
structure Within (cfg : AuthConfig) (now : ℕ) (backup : AuthBackup) : Prop where
  sessions :
    ExpiringTable.Within SessionRecord.expiry (now + cfg.sessionTtlMs.toNat) backup.sessions
  nonces : ExpiringTable.Within NonceRecord.expiry (now + cfg.nonceTtlMs.toNat) backup.nonces

variable {cfg : AuthConfig} {now later : ℕ} {s t : AuthState} {backup other : AuthBackup}

lemma Covered.mono (h : backup.Covered now s) (hle : now ≤ later) : backup.Covered later s :=
  ⟨h.sessions.mono hle, h.nonces.mono hle⟩

lemma Within.mono (h : backup.Within cfg now) (hle : now ≤ later) : backup.Within cfg later :=
  ⟨h.sessions.mono (Nat.add_le_add_right hle _), h.nonces.mono (Nat.add_le_add_right hle _)⟩

lemma Covered.renewed (h : backup.Covered now s) (hwithin : backup.Within cfg now)
    (hrenewed : s.Renewed cfg now t) : backup.Covered now t :=
  ⟨h.sessions.renewed hwithin.sessions hrenewed.sessions,
    h.nonces.renewed hwithin.nonces hrenewed.nonces⟩

lemma Within.renewed (h : s.backUp.Within cfg now) (hrenewed : s.Renewed cfg now t) :
    t.backUp.Within cfg now :=
  ⟨h.sessions.renewed hrenewed.sessions, h.nonces.renewed hrenewed.nonces⟩

lemma Covered.merge (h : backup.Covered now s) : backup.Covered now (s.merge other) :=
  ⟨h.sessions.union, h.nonces.union⟩

lemma Within.merge (h : s.backUp.Within cfg now) (hother : other.Within cfg now) :
    (s.merge other).backUp.Within cfg now :=
  ⟨h.sessions.union hother.sessions, h.nonces.union hother.nonces⟩

lemma Covered.alike_merge (h : backup.Covered now s) : s.Alike now (s.merge backup) :=
  ⟨rfl, rfl, rfl, h.nonces.alike_union, h.sessions.alike_union⟩

lemma Covered.prune (h : backup.Covered now s) {sessions nonces : List (Bytes 32)}
    (hsessions : ∀ k ∈ sessions, Spent SessionRecord.expiry now (s.sessions.lookup k))
    (hnonces : ∀ k ∈ nonces, Spent NonceRecord.expiry now (s.nonces.lookup k)) :
    backup.Covered now (s.prune sessions nonces) :=
  ⟨h.sessions.eraseAll hsessions, h.nonces.eraseAll hnonces⟩

lemma Within.prune (h : s.backUp.Within cfg now) (sessions nonces : List (Bytes 32)) :
    (s.prune sessions nonces).backUp.Within cfg now :=
  ⟨h.sessions.eraseAll, h.nonces.eraseAll⟩

end AuthBackup

namespace AuthState

variable {s : AuthState} {nowMs graceMs : UInt64}

lemma le_of_lt_cutoff {expiresAtMs : UInt64}
    (h : expiresAtMs < AuthStoreCall.cutoff nowMs graceMs) :
    expiresAtMs.toNat ≤ nowMs.toNat := by
  have hlt := UInt64.lt_iff_toNat_lt.mp h
  unfold AuthStoreCall.cutoff at hlt
  split at hlt
  · exact absurd hlt (by simp)
  · rename_i hgrace
    rw [UInt64.toNat_sub_of_le _ _ (UInt64.not_lt.mp hgrace)] at hlt
    omega

lemma pruneExpiredAuthRows_spent {batchLimit : UInt32} {sessionOrder nonceOrder : IterationOrder} :
    ∃ sessions nonces,
      s.pruneExpiredAuthRows nowMs graceMs batchLimit sessionOrder nonceOrder =
        s.prune sessions nonces ∧
      (∀ k ∈ sessions, Spent SessionRecord.expiry nowMs.toNat (s.sessions.lookup k)) ∧
      ∀ k ∈ nonces, Spent NonceRecord.expiry nowMs.toNat (s.nonces.lookup k) := by
  refine ⟨_, _, rfl, ?_, ?_⟩
  · intro k hk
    have hlisted := (sessionOrder.perm _).mem_iff.mp (List.mem_of_mem_take hk)
    exact spent_of_mem_collect (fun _ => le_of_lt_cutoff) hlisted
  · intro k hk
    have hlisted := (nonceOrder.perm _).mem_iff.mp (List.mem_of_mem_take hk)
    exact spent_of_mem_collect (fun _ => le_of_lt_cutoff) hlisted

end AuthState

/-! ## Runs -/

namespace Maintained

/-- The tables are like those without housekeeping, and every backup is covered by them. -/
structure Related (cfg : AuthConfig) (now : ℕ) (s : AuthState) (m : Maintained) : Prop where
  alike : s.Alike now m.live
  covered : ∀ backup ∈ m.backups, backup.Covered now m.live
  within : m.live.backUp.Within cfg now
  backups : ∀ backup ∈ m.backups, backup.Within cfg now

variable {cfg : AuthConfig} {faults : Bool} {now later : ℕ} {s s' : AuthState} {m m' : Maintained}

namespace Related

lemma mono (h : Related cfg now s m) (hle : now ≤ later) : Related cfg later s m :=
  ⟨h.alike.mono hle, fun backup hbackup => (h.covered backup hbackup).mono hle, h.within.mono hle,
    fun backup hbackup => (h.backups backup hbackup).mono hle⟩

lemma perform (h : Related cfg now s m) {k : Housekeeping} (hnow : ∀ n ∈ k.nowMs, n.toNat = now) :
    Related cfg now s (k.perform m) := by
  cases k with
  | prune nowMs graceMs batchLimit sessionOrder nonceOrder =>
    obtain rfl := hnow nowMs rfl
    obtain ⟨sessions, nonces, hpruned, hsessions, hnonces⟩ :=
      @AuthState.pruneExpiredAuthRows_spent m.live nowMs graceMs batchLimit sessionOrder nonceOrder
    simp only [Housekeeping.perform, hpruned]
    exact ⟨h.alike.trans ⟨rfl, rfl, rfl, .eraseAll hnonces, .eraseAll hsessions⟩,
      fun backup hbackup => (h.covered backup hbackup).prune hsessions hnonces,
      h.within.prune _ _, h.backups⟩
  | backUp =>
    refine ⟨h.alike, ?_, h.within, ?_⟩
    · intro backup hbackup
      obtain hold | hnew := List.mem_append.mp hbackup
      · exact h.covered backup hold
      · obtain rfl := List.mem_singleton.mp hnew
        exact ⟨.refl _, .refl _⟩
    · intro backup hbackup
      obtain hold | hnew := List.mem_append.mp hbackup
      · exact h.backups backup hold
      · obtain rfl := List.mem_singleton.mp hnew
        exact h.within
  | merge i =>
    cases hfound : m.backups[i]? with
    | none =>
      have hsame : (Housekeeping.merge i).perform m = m := by
        simp only [Housekeeping.perform, hfound, Option.elim]
      rw [hsame]
      exact h
    | some backup =>
      have hmerged : (Housekeeping.merge i).perform m =
          { m with live := m.live.merge backup } := by
        simp only [Housekeeping.perform, hfound, Option.elim]
      have hbackup : backup ∈ m.backups := List.mem_of_getElem? hfound
      rw [hmerged]
      exact ⟨h.alike.trans (h.covered backup hbackup).alike_merge,
        fun other hother => (h.covered other hother).merge,
        h.within.merge (h.backups backup hbackup), h.backups⟩

section

variable [UnicodeNormalization] [Ed25519] [Sha256] [HpkeSeal] [Hkdf] [Aes256GcmSeal] [X25519]
  [X25519Base] [MlKem768Encaps] {x : AuthRequest × AuthReply}

lemma request (h : Related cfg now s m) (hlogin : x.1.IsLogin)
    (hnow : ∀ n ∈ x.1.nowMs, n.toNat = now) (hserves : Serves cfg faults m x m')
    (halike : s'.Alike now m'.live) : Related cfg now s' m' := by
  obtain ⟨hruns, hsame⟩ := hserves
  have hrenewed := AuthRequest.runs_renewed hlogin hnow hruns
  refine ⟨halike, ?_, h.within.renewed hrenewed, ?_⟩
  · intro backup hbackup
    rw [hsame] at hbackup
    exact (h.covered backup hbackup).renewed (h.backups backup hbackup) hrenewed
  · intro backup hbackup
    rw [hsame] at hbackup
    exact h.backups backup hbackup

end

end Related

/-- The last reading of the clock. -/
def clock (past : List AuthMoment) : ℕ :=
  ((past.filterMap AuthMoment.nowMs).getLast?.map UInt64.toNat).getD 0

variable {past events : List AuthMoment} {e : AuthMoment}

lemma clock_eq_of_nowMs {n : UInt64} (hn : n ∈ e.nowMs) : clock (past ++ [e]) = n.toNat := by
  have hsingle : [e].filterMap AuthMoment.nowMs = [n] := by
    rw [List.filterMap_cons_some hn]
    rfl
  unfold clock
  rw [List.filterMap_append, hsingle, List.getLast?_concat]
  rfl

lemma clock_eq_of_none (hnone : e.nowMs = none) : clock (past ++ [e]) = clock past := by
  have hsingle : [e].filterMap AuthMoment.nowMs = [] := by
    rw [List.filterMap_cons_none hnone]
    rfl
  unfold clock
  rw [List.filterMap_append, hsingle, List.append_nil]

lemma clock_le {bound : ℕ} (h : ∀ n ∈ past.filterMap AuthMoment.nowMs, n.toNat ≤ bound) :
    clock past ≤ bound := by
  unfold clock
  cases hlast : (past.filterMap AuthMoment.nowMs).getLast? with
  | none => exact Nat.zero_le bound
  | some n => exact h n (List.mem_of_getLast? hlast)

/-- What comes next is a step of housekeeping or a client's request, and not before the last
reading. -/
def Orderly (past : List AuthMoment) (e : AuthMoment) : Prop :=
  (∀ x, e = .inl x → x.1.IsLogin) ∧ clock past ≤ clock (past ++ [e])

lemma orderly_of_mem (hlogins : ∀ x, .inl x ∈ events → x.1.IsLogin)
    (hclock : (events.filterMap AuthMoment.nowMs).Pairwise (· ≤ ·))
    (hbefore : past ++ [e] <+: events) : Orderly past e := by
  constructor
  · intro x hx
    exact hlogins x (hbefore.subset (by simp [hx]))
  · have hpairwise := hclock.sublist (hbefore.filterMap AuthMoment.nowMs).sublist
    cases hnow : e.nowMs with
    | none => rw [clock_eq_of_none hnow]
    | some n =>
      rw [clock_eq_of_nowMs hnow]
      rw [List.filterMap_append, List.pairwise_append] at hpairwise
      refine clock_le ?_
      intro n' hn'
      refine UInt64.le_iff_toNat_le.mp (hpairwise.2.2 n' hn' n ?_)
      exact List.mem_filterMap.mpr ⟨e, by simp, hnow⟩

lemma toNat_eq_clock {n : UInt64} (hn : n ∈ e.nowMs) : n.toNat = clock (past ++ [e]) :=
  (clock_eq_of_nowMs hn).symm

lemma related_start (hnonces : s.nonces = ∅) (hsessions : s.sessions = ∅) :
    Related cfg now s ⟨s, []⟩ := by
  refine ⟨.refl s, by simp, ⟨?_, ?_⟩, by simp⟩
  · intro k row hrow
    rw [AuthState.backUp, hsessions] at hrow
    exact absurd hrow (by simp)
  · intro k row hrow
    rw [AuthState.backUp, hnonces] at hrow
    exact absurd hrow (by simp)

lemma related_perform {k : Housekeeping} (h : Related cfg (clock past) s m)
    (horderly : Orderly past (.inr k)) :
    Related cfg (clock (past ++ [.inr k])) s (k.perform m) :=
  (h.mono horderly.2).perform fun _ hn => toNat_eq_clock hn

section

variable [UnicodeNormalization] [Ed25519] [Sha256] [HpkeSeal] [Hkdf] [Aes256GcmSeal] [X25519]
  [X25519Base] [MlKem768Encaps] {x : AuthRequest × AuthReply}

lemma related_forth (h : Related cfg (clock past) s m) (horderly : Orderly past (.inl x))
    (hruns : AuthRequest.Runs cfg faults s x s') :
    ∃ m', Serves cfg faults m x m' ∧ Related cfg (clock (past ++ [.inl x])) s' m' := by
  have hlogin := horderly.1 x rfl
  have hnow : ∀ n ∈ x.1.nowMs, n.toNat = clock (past ++ [.inl x]) := fun _ hn => toNat_eq_clock hn
  have hrelated := h.mono horderly.2
  obtain ⟨t, hruns', halike⟩ := AuthRequest.runs_alike hlogin hnow hrelated.alike hruns
  have hserves : Serves cfg faults m x ⟨t, m.backups⟩ := ⟨hruns', rfl⟩
  exact ⟨⟨t, m.backups⟩, hserves, hrelated.request hlogin hnow hserves halike⟩

lemma related_back (h : Related cfg (clock past) s m) (horderly : Orderly past (.inl x))
    (hserves : Serves cfg faults m x m') :
    ∃ s', AuthRequest.Runs cfg faults s x s' ∧
      Related cfg (clock (past ++ [.inl x])) s' m' := by
  have hlogin := horderly.1 x rfl
  have hnow : ∀ n ∈ x.1.nowMs, n.toNat = clock (past ++ [.inl x]) := fun _ hn => toNat_eq_clock hn
  have hrelated := h.mono horderly.2
  obtain ⟨s', hruns, halike⟩ :=
    AuthRequest.runs_alike hlogin hnow hrelated.alike.symm hserves.1
  exact ⟨s', hruns, hrelated.request hlogin hnow hserves halike.symm⟩

end

end Maintained

open Maintained

section

variable [UnicodeNormalization] [Ed25519] [Sha256] [HpkeSeal] [Hkdf] [Aes256GcmSeal] [X25519]
  [X25519Base] [MlKem768Encaps] {cfg : AuthConfig} {faults : Bool} {s : AuthState}
  {events : List AuthMoment}

/-- **Housekeeping is not observed.**  Requests can get the same replies whether passes, backups and
merges of these backups take place between them or not.  A merge makes no session open again and no
nonce outstanding again. -/
theorem housekeeping_unobserved (hnonces : s.nonces = ∅) (hsessions : s.sessions = ∅)
    (hlogins : ∀ x, .inl x ∈ events → x.1.IsLogin)
    (hclock : (events.filterMap AuthMoment.nowMs).Pairwise (· ≤ ·)) :
    (LabelledRun.Possible (AuthRequest.Runs cfg faults) s (events.filterMap Sum.getLeft?) ↔
      LabelledRun.Possible (Maintained.Step cfg faults) ⟨s, []⟩ events) ∧
    ∀ path m, LabelledRun (Maintained.Step cfg faults) ⟨s, []⟩ path m →
      path.map Prod.snd = events →
      ∀ backup ∈ m.backups, ∀ nowMs, (∀ n ∈ events.filterMap AuthMoment.nowMs, n ≤ nowMs) →
        (∀ username, ((m.live.merge backup).outstanding username nowMs).Perm
          (m.live.outstanding username nowMs)) ∧
        ∀ tokenHash, (m.live.merge backup).openSession tokenHash nowMs =
          m.live.openSession tokenHash nowMs := by
  have hstart : Related cfg (clock []) s ⟨s, []⟩ := related_start hnonces hsessions
  have horderly : ∀ past e, past ++ [e] <+: events → Orderly past e :=
    fun past e hbefore => orderly_of_mem hlogins hclock hbefore
  constructor
  · exact HiddenSteps.possible_iff (R := fun past s m => Related cfg (clock past) s m) hstart
      (fun _ _ _ _ h hok => related_perform h hok)
      (fun _ _ _ _ _ h hok hruns => related_forth h hok hruns)
      (fun _ _ _ _ _ h hok hserves => related_back h hok hserves) horderly
  · intro path m hrun hevents backup hbackup nowMs hlater
    subst hevents
    obtain ⟨_, s', _, _, hrelated⟩ := HiddenSteps.visible_of_run
      (R := fun past s m => Related cfg (clock past) s m) hstart
      (fun _ _ _ _ h hok => related_perform h hok)
      (fun _ _ _ _ _ h hok hserves => related_back h hok hserves) hrun horderly
    have halike := (hrelated.covered backup hbackup).alike_merge.symm
    have hnow : clock (path.map Prod.snd) ≤ nowMs.toNat :=
      clock_le fun n hn => UInt64.le_iff_toNat_le.mp (hlater n hn)
    constructor
    · intro username
      exact halike.outstanding_perm hnow
    · intro tokenHash
      exact halike.openSession_eq hnow

end

section Runs

open ClosedRuns AuthRequest

/-- Leave the rows as they are listed. -/
def asListed : IterationOrder := ⟨id, List.Perm.refl⟩

/-- The user logs out. -/
def leaves : AuthRequest := .logout (.replicate 32 7)

def comesBack (nowMs : UInt64) : AuthRequest :=
  .validateSession (.replicate 32 7) (.replicate 32 6) nowMs

/-- A login and a logout, with a backup between them that is merged in while the session has not
expired, and once more after its row was pruned. -/
def restores : List AuthMoment :=
  [.inl (asks, .challenge (.ok ⟨.replicate 32 4, "maxsecu-dev-1", 60⟩)),
    .inl (answers (.replicate 32 7), .prove (.ok (.replicate 32 7))), .inr .backUp,
    .inl (leaves, .logout (.ok ())), .inr (.merge 0),
    .inl (comesBack 2, .validateSession (.error .unauthorized)),
    .inr (.prune 4000000 0 5000 asListed asListed), .inr (.merge 0),
    .inl (comesBack 4000000, .validateSession (.error .unauthorized))]

/-- The states after the logout and after the check. -/
def afterLeaves : AuthState := (leaves.serve .default afterAnswers).2

def afterCheck : AuthState := ((comesBack 2).serve .default afterLeaves).2

/-- The token stays refused. -/
theorem housekeeping_unobserved_restores :
    LabelledRun.Possible (Maintained.Step .default false) ⟨.oneUser, []⟩ restores := by
  have hasks : (asks.serve .default .oneUser).1 =
      .challenge (.ok ⟨.replicate 32 4, "maxsecu-dev-1", 60⟩) := by
    decide +kernel
  have hanswers : ((answers (.replicate 32 7)).serve .default afterAsks).1 =
      .prove (.ok (.replicate 32 7)) := by
    decide +kernel
  have hleaves : (leaves.serve .default afterAnswers).1 = .logout (.ok ()) := by
    decide +kernel
  have hcheck : ((comesBack 2).serve .default afterLeaves).1 =
      .validateSession (.error .unauthorized) := by
    decide +kernel
  have hlast : ((comesBack 4000000).serve .default afterCheck).1 =
      .validateSession (.error .unauthorized) := by
    decide +kernel
  have hrun : LabelledRun (Runs .default false) .oneUser
      [(.oneUser, asks, (asks.serve .default .oneUser).1),
        (afterAsks, answers (.replicate 32 7),
          ((answers (.replicate 32 7)).serve .default afterAsks).1),
        (afterAnswers, leaves, (leaves.serve .default afterAnswers).1),
        (afterLeaves, comesBack 2, ((comesBack 2).serve .default afterLeaves).1),
        (afterCheck, comesBack 4000000, ((comesBack 4000000).serve .default afterCheck).1)]
      ((comesBack 4000000).serve .default afterCheck).2 :=
    .step (.step (.step (.step (.step .start (runs_serve _)) (runs_serve _)) (runs_serve _))
      (runs_serve _)) (runs_serve _)
  rw [hasks, hanswers, hleaves, hcheck, hlast] at hrun
  refine (housekeeping_unobserved rfl rfl ?_ ?_).1.mp ⟨_, _, hrun, rfl⟩
  · simp [restores, asks, answers, leaves, comesBack, IsLogin]
  · decide +kernel

end Runs

end MaxSecu
