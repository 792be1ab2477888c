import MaxSecu.Server.BlobRefs
import MaxSecu.Server.Sessions

/-!
# The secrecy of recovery nonces

The nonce of a recovery challenge is in no reply in clear: only its wrap is.  The table of nonces is
shared with the users, though, and a challenge takes any username, so a challenge for the key of a
recovery nonce puts a nonce under that key and shows it to the caller.

When no challenge is for such a key, and the wrapping does not fail, every nonce under a recovery
key was drawn by the recovery challenge that returned its id, and no reply shows it.  So the recovery
login succeeds only with a proof over a nonce that is in the wrap alone (`recoveryNonce_secret`).
-/

namespace MaxSecu

open Program AssociationList

namespace AuthService

lemma recoveryNonceKey_inj {challengeId challengeId' : Bytes 16}
    (h : recoveryNonceKey challengeId = recoveryNonceKey challengeId') :
    challengeId = challengeId' := by
  have hlist := congrArg String.toList h
  simp only [recoveryNonceKey, String.toList_append, String.toList_ofList] at hlist
  exact List.Vector.toList_injective (Files.flatMap_hexByte_inj (List.append_cancel_left hlist))

end AuthService

/-! ## What a request draws and what its reply shows -/

/-- The 32 random bytes that a request draws for a nonce or a token. -/
def AuthRequest.draw : AuthRequest → Option (Bytes 32)
  | .challenge _ nonce _ => some nonce
  | .prove _ _ _ _ token _ => some token
  | .recoveryChallenge rand _ => some rand.nonce
  | .recoveryVerify _ _ _ _ token _ => some token
  | _ => none

/-- What a reply shows in clear. -/
def AuthReply.shown : AuthReply → Option (Bytes 32)
  | .challenge (.ok c) => some c.nonce
  | .prove (.ok token) => some token
  | .recoveryVerify (.ok token) => some token
  | _ => none

/-- How many bytes of username the login routes take. -/
def MAX_SESSION_USERNAME_BYTES : ℕ := 4 * MAX_TEXT

/-- The routes take the request: its username is not too long. -/
def AuthRequest.Admitted : AuthRequest → Prop
  | .challenge username _ _ => username.utf8ByteSize ≤ MAX_SESSION_USERNAME_BYTES
  | .prove username _ _ _ _ _ => username.utf8ByteSize ≤ MAX_SESSION_USERNAME_BYTES
  | _ => True

namespace AuthRequest

open AuthHandler AuthStoreCall

variable {cfg : AuthConfig} {faults : Bool} {s : AuthState}

lemma wp_challenge_nonce {username : String} {nonce : Bytes 32} {nowMs : UInt64} :
    wp (AuthCall.Step faults) (AuthService.challenge cfg username nonce nowMs).run
      (fun r _ => ∀ c, r = .ok c → c.nonce = nonce) s := by
  unfold AuthService.challenge
  refine wp_bind_ok ?_
  intro admitted _
  cases admitted with
  | error retryAfterS => exact fun c hc => absurd hc (by simp)
  | ok _ =>
    refine wp_bind_ok fun expiresAtMs _ => wp_bind_ok ?_
    intro _ _ c hc
    obtain rfl := Except.ok.inj hc
    rfl

lemma wp_prove_token [UnicodeNormalization] [Ed25519] [Sha256] {username : String}
    {timestamp : UInt64} {proof : Bytes 64} {exporter token : Bytes 32} {nowMs : UInt64} :
    wp (AuthCall.Step faults)
      (AuthService.prove cfg username timestamp proof exporter token nowMs).run
      (fun r _ => ∀ shown, r = .ok shown → shown = token) s := by
  unfold AuthService.prove
  refine wp_bind_ok ?_
  intro admitted _
  cases admitted with
  | error retryAfterS => exact fun shown hshown => absurd hshown (by simp)
  | ok _ =>
    refine wp_bind_ok fun user _ => wp_bind_ok ?_
    intro nonces _
    split
    · refine wp_bind_ok ?_
      exact fun _ _ shown hshown => absurd hshown (by simp)
    · refine wp_bind_ok fun _ _ => wp_bind_ok fun _ _ => wp_bind_ok fun u _ =>
        wp_bind_ok fun expiresAtMs _ => wp_bind_ok ?_
      exact fun _ _ shown hshown => (Except.ok.inj hshown).symm

lemma wp_recoveryVerify_token [UnicodeNormalization] [Ed25519] [Sha256] {challengeId : Bytes 16}
    {timestamp : UInt64} {proof : Bytes 64} {exporter token : Bytes 32} {nowMs : UInt64} :
    wp (AuthCall.Step faults)
      (AuthService.recoveryVerify cfg challengeId timestamp proof exporter token nowMs).run
      (fun r _ => ∀ shown, r = .ok shown → shown = token ∧
        ∃ acct ∈ s.recovery, ∃ nonce, ∃ row ∈ s.nonces.lookup nonce,
          row.username = AuthService.recoveryNonceKey challengeId ∧
          AuthService.verifyRecoveryProof acct.sigPub cfg.serverId exporter nonce timestamp proof =
            true) s := by
  unfold AuthService.recoveryVerify
  refine wp_store (fun _ _ hshown => absurd hshown (by simp)) ?_
  intro found s₁ hfound
  have hkeeps := hfound.keeps trivial
  cases found with
  | none => exact fun _ hshown => absurd hshown (by simp)
  | some acct =>
    refine wp_store (fun _ _ hshown => absurd hshown (by simp)) ?_
    intro nonces s₂ hnonces
    cases hfind : List.find? (fun nonce => AuthService.verifyRecoveryProof acct.sigPub
        cfg.serverId exporter nonce timestamp proof) nonces with
    | none => exact fun _ hshown => absurd hshown (by simp)
    | some nonce =>
      obtain ⟨row, hrow, husername, _⟩ :=
        runs_outstandingNonces hnonces (List.mem_of_find?_eq_some hfind)
      obtain ⟨old, hold, husername', _⟩ := hkeeps.nonces nonce row hrow
      have hverified := List.find?_some hfind
      refine wp_bind_ok fun _ _ => wp_bind_ok fun expiresAtMs _ => wp_bind_ok ?_
      intro _ _ shown hshown
      exact ⟨(Except.ok.inj hshown).symm, acct, (runs_recoveryAccount hfound).symm, nonce, old,
        hold, husername'.trans husername, hverified⟩

section Recovery

variable [HpkeSeal] [Hkdf] [Aes256GcmSeal] [X25519] [X25519Base] [MlKem768Encaps]

lemma wp_recoveryChallenge_id {rand : AuthService.ChallengeEntropy} {nowMs : UInt64}
    (hwraps : ∀ acct ∈ s.recovery, (AuthService.wrapNonce acct rand).isOk = true) :
    wp (AuthCall.Step faults) (AuthService.recoveryChallenge cfg rand nowMs).run
      (fun r t => s.Keeps t ∨ ∃ c, r = .ok c ∧ c.challengeId = rand.challengeId) s := by
  unfold AuthService.recoveryChallenge
  refine wp_store (fun _ => .inl (.refl s)) ?_
  intro found s₁ hfound
  have hkeeps := hfound.keeps trivial
  have hacct := runs_recoveryAccount hfound
  cases found with
  | none => exact .inl hkeeps
  | some acct =>
    refine wp_elim (.inl hkeeps) ?_
    intro expiresAtMs _
    refine wp_store (fun _ => .inl hkeeps) ?_
    intro _ t _
    cases hwrap : AuthService.wrapNonce acct rand with
    | ok wrapped => exact .inr ⟨_, rfl, rfl⟩
    | error e =>
      have hwrapped := hwraps acct hacct.symm
      rw [hwrap] at hwrapped
      exact absurd hwrapped (by simp [Except.isOk, Except.toBool])

variable [UnicodeNormalization] [Ed25519] [Sha256] {t : AuthState}

lemma runs_shown {request : AuthRequest} {reply : AuthReply}
    (h : Runs cfg faults s (request, reply) t) : ∀ b ∈ reply.shown, b ∈ request.draw := by
  have hwp : wp (AuthCall.Step faults) (request.program cfg)
      (fun reply _ => ∀ b ∈ reply.shown, b ∈ request.draw) s := by
    cases request with
    | challenge username nonce nowMs =>
      refine wp_bind.mpr (wp_mono wp_challenge_nonce ?_)
      intro r _ hr b hb
      cases r with
      | error e => exact absurd hb (by simp [AuthReply.shown])
      | ok c => exact (congrArg some (hr c rfl)).symm.trans hb
    | prove username timestamp proof exporter token nowMs =>
      refine wp_bind.mpr (wp_mono wp_prove_token ?_)
      intro r _ hr b hb
      cases r with
      | error e => exact absurd hb (by simp [AuthReply.shown])
      | ok shown => exact (congrArg some (hr shown rfl)).symm.trans hb
    | recoveryVerify challengeId timestamp proof exporter token nowMs =>
      refine wp_bind.mpr (wp_mono wp_recoveryVerify_token ?_)
      intro r _ hr b hb
      cases r with
      | error e => exact absurd hb (by simp [AuthReply.shown])
      | ok shown => exact (congrArg some (hr shown rfl).1).symm.trans hb
    | validateSession token exporter nowMs =>
      exact wp_bind.mpr (wp_of_forall fun r _ b hb => absurd hb (by simp [AuthReply.shown]))
    | logout token =>
      exact wp_bind.mpr (wp_of_forall fun r _ b hb => absurd hb (by simp [AuthReply.shown]))
    | prune nowMs =>
      exact wp_bind.mpr (wp_of_forall fun r _ b hb => absurd hb (by simp [AuthReply.shown]))
    | recoveryChallenge rand nowMs =>
      exact wp_bind.mpr (wp_of_forall fun r _ b hb => absurd hb (by simp [AuthReply.shown]))
  have hshown := wp_sound h hwp
  exact hshown

lemma runs_recoveryVerify {challengeId : Bytes 16} {timestamp : UInt64} {proof : Bytes 64}
    {exporter token shown : Bytes 32} {nowMs : UInt64}
    (h : Runs cfg faults s (.recoveryVerify challengeId timestamp proof exporter token nowMs,
      .recoveryVerify (.ok shown)) t) :
    ∃ acct ∈ s.recovery, ∃ nonce, ∃ row ∈ s.nonces.lookup nonce,
      row.username = AuthService.recoveryNonceKey challengeId ∧
      AuthService.verifyRecoveryProof acct.sigPub cfg.serverId exporter nonce timestamp proof =
        true := by
  have hwp : wp (AuthCall.Step faults)
      ((recoveryVerify challengeId timestamp proof exporter token nowMs).program cfg)
      (fun reply _ => ∀ shown, reply = .recoveryVerify (.ok shown) →
        ∃ acct ∈ s.recovery, ∃ nonce, ∃ row ∈ s.nonces.lookup nonce,
          row.username = AuthService.recoveryNonceKey challengeId ∧
          AuthService.verifyRecoveryProof acct.sigPub cfg.serverId exporter nonce timestamp proof =
            true) s := by
    refine wp_bind.mpr (wp_mono wp_recoveryVerify_token ?_)
    intro r _ hr shown hreply
    exact (hr shown (AuthReply.recoveryVerify.inj hreply)).2
  have hproved := wp_sound h hwp
  exact hproved shown rfl

lemma runs_recoveryChallenge {rand : AuthService.ChallengeEntropy} {nowMs : UInt64}
    {reply : AuthReply} (h : Runs cfg faults s (.recoveryChallenge rand nowMs, reply) t)
    (hwraps : ∀ acct ∈ s.recovery, (AuthService.wrapNonce acct rand).isOk = true) :
    s.Keeps t ∨
      ∃ c, reply = .recoveryChallenge (.ok c) ∧ c.challengeId = rand.challengeId := by
  have hwp : wp (AuthCall.Step faults) ((recoveryChallenge rand nowMs).program cfg)
      (fun reply t => s.Keeps t ∨
        ∃ c, reply = .recoveryChallenge (.ok c) ∧ c.challengeId = rand.challengeId) s := by
    refine wp_bind.mpr (wp_mono (wp_recoveryChallenge_id hwraps) ?_)
    intro r t hr
    obtain hkeeps | ⟨c, rfl, hc⟩ := hr
    · exact .inl hkeeps
    · exact .inr ⟨c, rfl, hc⟩
  have hissued := wp_sound h hwp
  exact hissued

end Recovery

end AuthRequest

/-! ## Runs -/

namespace RecoveryNonces

/-- The recovery challenge that drew the nonce and returned the id. -/
def Issued (x : AuthRequest × AuthReply) (challengeId : Bytes 16) (nonce : Bytes 32) : Prop :=
  ∃ rand nowMs c, x = (.recoveryChallenge rand nowMs, .recoveryChallenge (.ok c)) ∧
    rand.nonce = nonce ∧ c.challengeId = challengeId

/-- No two requests drew the same bytes. -/
def Fresh (path : AuthPath) : Prop :=
  path.Pairwise fun x y => ∀ b ∈ x.2.1.draw, b ∉ y.2.1.draw

/-- A reply has shown the bytes in clear. -/
def Shown (path : AuthPath) (b : Bytes 32) : Prop := ∃ x ∈ path, b ∈ x.2.2.shown

/-- A challenge is not for the key of any recovery nonce, and the nonce of a recovery challenge can
be wrapped to the account. -/
def Apart [HpkeSeal] [Hkdf] [Aes256GcmSeal] [X25519] [X25519Base] [MlKem768Encaps]
    (s : AuthState) : AuthRequest → Prop
  | .challenge username _ _ => ∀ challengeId, username ≠ AuthService.recoveryNonceKey challengeId
  | .recoveryChallenge rand _ =>
    ∀ acct ∈ s.recovery, (AuthService.wrapNonce acct rand).isOk = true
  | _ => True

/-- Every nonce under a recovery key was issued on the way by the challenge of that key. -/
def Traced (path : AuthPath) (s : AuthState) : Prop :=
  ∀ nonce, ∀ row ∈ s.nonces.lookup nonce, ∀ challengeId,
    row.username = AuthService.recoveryNonceKey challengeId →
    ∃ x ∈ path, Issued x.2 challengeId nonce

/-- Every nonce outstanding under a recovery key was issued by the challenge of that key, and no
reply has shown it. -/
def OutstandingSecret (path : AuthPath) (s : AuthState) : Prop :=
  ∀ challengeId nowMs, ∀ nonce ∈ s.outstanding (AuthService.recoveryNonceKey challengeId) nowMs,
    (∃ x ∈ path, Issued x.2 challengeId nonce) ∧ ¬ Shown path nonce

/-- Every recovery login that succeeded had a proof over a nonce that the challenge of its id had
issued before, and that no reply has shown. -/
def LoginsProveSecrets [UnicodeNormalization] [Ed25519] (cfg : AuthConfig) (path : AuthPath) :
    Prop :=
  ∀ before s challengeId timestamp proof exporter token nowMs shown after,
    path = before ++ (s, .recoveryVerify challengeId timestamp proof exporter token nowMs,
      .recoveryVerify (.ok shown)) :: after →
    ∃ acct ∈ s.recovery, ∃ nonce,
      AuthService.verifyRecoveryProof acct.sigPub cfg.serverId exporter nonce timestamp proof =
        true ∧
      (∃ x ∈ before, Issued x.2 challengeId nonce) ∧ ¬ Shown path nonce

lemma Traced.keeps {path : AuthPath} {s t : AuthState} (h : Traced path s) (hkeeps : s.Keeps t)
    {x : AuthState × AuthRequest × AuthReply} : Traced (path ++ [x]) t := by
  intro nonce row hrow challengeId hname
  obtain ⟨old, hold, husername, _⟩ := hkeeps.nonces nonce row hrow
  obtain ⟨y, hy, hissued⟩ := h nonce old hold challengeId (husername.trans hname)
  exact ⟨y, List.mem_append_left _ hy, hissued⟩

section

variable [UnicodeNormalization] [Ed25519] [Sha256] [HpkeSeal] [Hkdf] [Aes256GcmSeal] [X25519]
  [X25519Base] [MlKem768Encaps] {cfg : AuthConfig} {faults : Bool} {s t u : AuthState}
  {path : AuthPath}

lemma Traced.next (h : Traced path s) {x : AuthRequest × AuthReply} (hapart : Apart s x.1)
    (hruns : AuthRequest.Runs cfg faults s x u) : Traced (path ++ [(s, x)]) u := by
  obtain ⟨request, reply⟩ := x
  cases AuthRequest.runs_effect hruns with
  | keeps hkeeps => exact h.keeps hkeeps
  | mints _ hkeeps =>
    intro nonce row hrow
    exact (h.keeps hkeeps) nonce row hrow
  | @issues t n issued hissues hkeeps =>
    intro nonce row hrow challengeId hname
    simp only [lookup_insert_eq, Option.mem_def] at hrow
    split at hrow
    · rename_i hn
      obtain rfl := Option.some.inj hrow
      cases hissues with
      | challenge _ => exact absurd hname (hapart challengeId)
      | @recoveryChallenge rand nowMs expiresAtMs reply httl =>
        obtain hkept | ⟨c, rfl, hc⟩ := AuthRequest.runs_recoveryChallenge hruns hapart
        · obtain ⟨y, hy, hissued⟩ := (h.keeps hkept) nonce ⟨_, expiresAtMs, false⟩
            (by simp [lookup_insert_eq, hn]) challengeId hname
          exact ⟨y, hy, hissued⟩
        · refine ⟨(s, _), by simp, rand, nowMs, c, rfl, hn.symm, ?_⟩
          exact hc.trans (AuthService.recoveryNonceKey_inj hname)
    · exact (h.keeps hkeeps) nonce row hrow challengeId hname

/-- From an empty table, the nonces under recovery keys are traced. -/
theorem traced_run (hnonces : s.nonces = ∅)
    (hrun : LabelledRun (AuthRequest.Runs cfg faults) s path t)
    (hapart : ∀ x ∈ path, Apart x.1 x.2.1) : Traced path t := by
  induction hrun with
  | start =>
    intro nonce row hrow
    rw [hnonces] at hrow
    exact absurd hrow (by simp)
  | @step path t u x hrun hnext ih =>
    have hbefore := ih fun y hy => hapart y (List.mem_append_left _ hy)
    exact hbefore.next (hapart (t, x) (by simp)) hnext

lemma not_shown (hrun : LabelledRun (AuthRequest.Runs cfg faults) s path t) (hfresh : Fresh path)
    {x : AuthState × AuthRequest × AuthReply} (hx : x ∈ path) {challengeId : Bytes 16}
    {nonce : Bytes 32} (hissued : Issued x.2 challengeId nonce) : ¬ Shown path nonce := by
  intro hfound
  obtain ⟨y, hy, hshown⟩ := hfound
  obtain ⟨rand, nowMs, c, hx', hnonce, -⟩ := hissued
  obtain ⟨_, _, u, _, _, hstep⟩ := hrun.of_mem hy
  have hdrawn := AuthRequest.runs_shown hstep nonce hshown
  have hdraw : nonce ∈ x.2.1.draw := by
    rw [hx', ← hnonce]
    exact rfl
  by_cases hxy : x = y
  · rw [← hxy, hx'] at hshown
    exact absurd hshown (by simp [AuthReply.shown])
  · have hsymm : Std.Symm fun (x y : AuthState × AuthRequest × AuthReply) =>
        ∀ b ∈ x.2.1.draw, b ∉ y.2.1.draw :=
      ⟨fun x y hxy b hb hb' => hxy b hb' hb⟩
    exact hfresh.forall hx hy hxy nonce hdraw hdrawn

end

end RecoveryNonces

open RecoveryNonces

section

variable [UnicodeNormalization] [Ed25519] [Sha256] [HpkeSeal] [Hkdf] [Aes256GcmSeal] [X25519]
  [X25519Base] [MlKem768Encaps] {cfg : AuthConfig} {faults : Bool} {s t : AuthState}
  {path : AuthPath}

/-- **Recovery nonces are secret.**  When all draws are different, no challenge is for the key of a
recovery nonce and no wrapping fails, every nonce outstanding under a recovery key was issued by the
recovery challenge that returned its id, and no reply has shown it.  So the recovery login succeeds
only with a proof over a nonce that its caller learnt from the wrap. -/
theorem recoveryNonce_secret (hnonces : s.nonces = ∅)
    (hrun : LabelledRun (AuthRequest.Runs cfg faults) s path t) (hfresh : Fresh path)
    (hapart : ∀ x ∈ path, Apart x.1 x.2.1) :
    OutstandingSecret path t ∧ LoginsProveSecrets cfg path := by
  constructor
  · intro challengeId nowMs nonce hmem
    obtain ⟨row, hrow, hname, -⟩ :=
      AuthStoreCall.runs_outstandingNonces (.applies (.outstandingNonces _ nowMs) t) hmem
    obtain ⟨x, hx, hissued⟩ := traced_run hnonces hrun hapart nonce row hrow challengeId hname
    exact ⟨⟨x, hx, hissued⟩, not_shown hrun hfresh hx hissued⟩
  · intro before s₁ challengeId timestamp proof exporter token nowMs shown after hpath
    subst hpath
    have hmem : (s₁, AuthRequest.recoveryVerify challengeId timestamp proof exporter token nowMs,
        AuthReply.recoveryVerify (.ok shown)) ∈ before ++ (s₁, _, _) :: after :=
      List.mem_append_right before List.mem_cons_self
    obtain ⟨_, _, _, _, _, hstep⟩ := hrun.of_mem hmem
    obtain ⟨acct, hacct, nonce, row, hrow, hname, hverified⟩ :=
      AuthRequest.runs_recoveryVerify hstep
    obtain ⟨x, hx, hissued⟩ := traced_run hnonces hrun.before
      (fun y hy => hapart y (List.mem_append_left _ hy)) nonce row hrow challengeId hname
    exact ⟨acct, hacct, nonce, hverified, ⟨x, hx, hissued⟩,
      not_shown hrun hfresh (List.mem_append_left _ hx) hissued⟩

end

section Runs

open ClosedRuns AuthRequest

/-- A recovery account, and no login yet. -/
def recoveryAccountOnly : AuthState where
  users := ∅
  recovery := some ⟨.replicate 32 8, .replicate 32 9, none⟩
  nonces := ∅
  sessions := ∅
  limiter := .new .default

/-- The proof that the recovery account answers the challenge of the id with. -/
def answersRecovery : AuthRequest :=
  .recoveryVerify (.replicate 16 0) 0 (.replicate 64 5) (.replicate 32 6) (.replicate 32 7) 1

def afterRecoveryAsks : AuthState := (asksRecovery.serve .default recoveryAccountOnly).2

def recoveryPath : AuthPath :=
  [(recoveryAccountOnly, asksRecovery, (asksRecovery.serve .default recoveryAccountOnly).1),
    (afterRecoveryAsks, answersRecovery, (answersRecovery.serve .default afterRecoveryAsks).1)]

/-- The recovery account logs in. -/
theorem recoveryNonce_secret_login :
    OutstandingSecret recoveryPath (answersRecovery.serve .default afterRecoveryAsks).2 ∧
      LoginsProveSecrets .default recoveryPath := by
  have hrun : LabelledRun (Runs .default false) recoveryAccountOnly recoveryPath
      (answersRecovery.serve .default afterRecoveryAsks).2 :=
    .step (.step .start (runs_serve _)) (runs_serve _)
  refine recoveryNonce_secret rfl hrun ?_ ?_
  · simp [Fresh, recoveryPath, asksRecovery, answersRecovery, AuthRequest.draw]
    decide
  · simp [recoveryPath, Apart, asksRecovery, answersRecovery]
    decide

/-- A challenge for the key of the recovery nonce. -/
def asksForKey : AuthRequest :=
  .challenge (AuthService.recoveryNonceKey (.replicate 16 0)) (.replicate 32 4) 0

def afterAsksForKey : AuthState := (asksForKey.serve .default recoveryAccountOnly).2

def keyedPath : AuthPath :=
  [(recoveryAccountOnly, asksForKey, (asksForKey.serve .default recoveryAccountOnly).1),
    (afterAsksForKey, answersRecovery, .recoveryVerify (.ok (.replicate 32 7)))]

/-- The recovery login succeeds with the nonce of a user's challenge, and there was no recovery
challenge. -/
theorem recoveryNonce_secret_keyed :
    ¬ ∀ (cfg : AuthConfig) (faults : Bool) (s t : AuthState) (path : AuthPath),
      s.nonces = ∅ → LabelledRun (Runs cfg faults) s path t → Fresh path →
      (∀ x ∈ path, x.2.1.Admitted) → OutstandingSecret path t ∧ LoginsProveSecrets cfg path := by
  intro h
  have hanswers : (answersRecovery.serve .default afterAsksForKey).1 =
      .recoveryVerify (.ok (.replicate 32 7)) := by
    decide +kernel
  have hrun : LabelledRun (Runs .default false) recoveryAccountOnly keyedPath
      (answersRecovery.serve .default afterAsksForKey).2 := by
    unfold keyedPath
    rw [← hanswers]
    exact .step (.step .start (runs_serve _)) (runs_serve _)
  have hfresh : Fresh keyedPath := by
    simp [Fresh, keyedPath, asksForKey, answersRecovery, AuthRequest.draw]
    decide
  have hadmitted : ∀ x ∈ keyedPath, x.2.1.Admitted := by
    simp [keyedPath, asksForKey, answersRecovery, AuthRequest.Admitted]
    decide
  obtain ⟨_, _, _, _, ⟨x, hx, rand, _, _, hissued, _⟩, _⟩ :=
    (h .default false _ _ _ rfl hrun hfresh hadmitted).2 [(recoveryAccountOnly, asksForKey, _)]
      afterAsksForKey _ _ _ _ _ _ _ [] rfl
  obtain rfl := List.mem_singleton.mp hx
  exact absurd (Prod.mk.inj hissued).1 (by simp [asksForKey])

end Runs

end MaxSecu
