import MaxSecu.Framework.Traces
import MaxSecu.Server.Auth

/-!
# The use of a nonce

A login looks up the outstanding nonces, and only after it verified a proof it marks the nonce as
used; the store does not say whether it was used already.  So two requests that carry one valid
proof can both find the nonce before either marks it, and each mints a session.

When no login marks a nonce that another one has marked since it was looked up, no nonce leads to
more than one session (`nonce_singleUse`), however the requests are interleaved.
-/

namespace MaxSecu

open Program AssociationList

abbrev AuthEvent := Event AuthCall AuthCall.Response

namespace AuthEvent

/-- The call marked the nonce as used. -/
def consumes (nonce : Bytes 32) : AuthEvent → Bool
  | ⟨.store (.consumeNonce n), .ok _⟩ => n = nonce
  | _ => false

def insertsSession : AuthEvent → Bool
  | ⟨.store (.insertSession _ _), .ok _⟩ => true
  | _ => false

end AuthEvent

open AuthEvent

/-- How many sessions were inserted by requests that marked the nonce as used. -/
def sessionsFrom {ο α σ : Type} (nonce : Bytes 32)
    (S : System ο AuthCall AuthCall.Response α σ) : ℕ :=
  (S.traces.filter fun trace => trace.any (consumes nonce)).flatten.countP insertsSession

namespace AuthCall

/-- A nonce is drawn at random, so it is new; and no housekeeping removes rows meanwhile. -/
def Fresh : AuthCall → AuthState → Prop
  | store (.insertNonce nonce _ _), s => nonce ∉ s.nonces
  | store (.pruneExpiredAuthRows _ _ _), _ => False
  | _, _ => True

/-- A nonce that is marked as used was not used before. -/
def Timely : AuthCall → AuthState → Prop
  | store (.consumeNonce nonce), s => ∃ row ∈ s.nonces.lookup nonce, row.used = false
  | _, _ => True

instance (c : AuthCall) (s : AuthState) : Decidable (c.Fresh s) := by
  unfold Fresh
  split <;> infer_instance

instance (c : AuthCall) (s : AuthState) : Decidable (c.Timely s) := by
  unfold Timely
  split <;> infer_instance

variable {faults : Bool} {c : AuthCall} {s t : AuthState} {r : c.Response} {nonce : Bytes 32}

lemma step_nonce (h : c.Step faults s r t) (hfresh : c.Fresh s) (htimely : c.Timely s) :
    (consumes nonce ⟨c, r⟩ = false ∧ t.nonces.lookup nonce = s.nonces.lookup nonce) ∨
      (consumes nonce ⟨c, r⟩ = false ∧ s.nonces.lookup nonce = none) ∨
      (consumes nonce ⟨c, r⟩ = true ∧ (∀ row ∈ s.nonces.lookup nonce, row.used = false) ∧
        ∃ row ∈ t.nonces.lookup nonce, row.used = true) := by
  cases h with
  | limiter c s => exact .inl ⟨rfl, rfl⟩
  | @fails c s e _ =>
    refine .inl ⟨?_, rfl⟩
    cases c <;> rfl
  | @store c s r t hruns =>
    cases hruns with
    | reorders _ => exact .inl ⟨rfl, rfl⟩
    | prunes _ _ => exact absurd hfresh id
    | applies c s =>
      cases c with
      | insertNonce n username expiresAtMs =>
        by_cases hn : nonce = n
        · refine .inr (.inl ⟨rfl, ?_⟩)
          rw [hn]
          exact AList.lookup_eq_none.mpr hfresh
        · refine .inl ⟨rfl, ?_⟩
          show AList.lookup nonce (s.nonces.insert n _) = _
          rw [lookup_insert_eq, if_neg hn]
      | consumeNonce n =>
        by_cases hn : nonce = n
        · obtain ⟨row, hrow, hunused⟩ := htimely
          rw [← hn] at hrow
          refine .inr (.inr ⟨by simp [consumes, hn], ?_, { row with used := true }, ?_, rfl⟩)
          · intro row' hrow'
            obtain rfl : row = row' := Option.some.inj (hrow.symm.trans hrow')
            exact hunused
          · show AList.lookup nonce (adjust n _ s.nonces) = _
            rw [lookup_adjust, if_pos hn, ← hn, Option.mem_def.mp hrow, Option.map_some]
        · refine .inl ⟨by simp [consumes, Ne.symm hn], ?_⟩
          show AList.lookup nonce (adjust n _ s.nonces) = _
          rw [lookup_adjust, if_neg hn]
      | pruneExpiredAuthRows nowMs graceMs batchLimit => exact absurd hfresh id
      | _ => exact .inl ⟨rfl, rfl⟩

end AuthCall

/-! ## What one request does -/

namespace Logins

/-- A request that has marked a nonce has inserted no more sessions than it has marked nonces. -/
def Metered (trace : List AuthEvent) : Prop :=
  ∀ nonce, trace.any (consumes nonce) →
    trace.countP insertsSession ≤ trace.countP (consumes nonce)

/-- A request that has marked no nonce and inserted no session. -/
def Quiet (trace : List AuthEvent) : Prop :=
  (∀ nonce, trace.any (consumes nonce) = false) ∧ trace.countP insertsSession = 0

lemma Quiet.metered {trace : List AuthEvent} (h : Quiet trace) : Metered trace := by
  intro nonce hany
  rw [h.1 nonce] at hany
  exact absurd hany (by simp)

lemma quiet_nil : Quiet [] := ⟨fun _ => rfl, rfl⟩

lemma Quiet.append {trace : List AuthEvent} {ev : AuthEvent} (h : Quiet trace)
    (hconsumes : ∀ nonce, consumes nonce ev = false) (hinserts : insertsSession ev = false) :
    Quiet (trace ++ [ev]) := by
  constructor
  · intro nonce
    simp [List.any_append, h.1 nonce, hconsumes]
  · simp [List.countP_append, h.2, hinserts]

/-- A request that has marked one nonce, and then inserted some sessions. -/
structure Marked (nonce : Bytes 32) (inserted : ℕ) (trace : List AuthEvent) : Prop where
  once : trace.countP (consumes nonce) = 1
  only : ∀ other, trace.any (consumes other) → other = nonce
  inserted : trace.countP insertsSession = inserted

variable {trace : List AuthEvent} {nonce : Bytes 32} {n : ℕ}

lemma Quiet.mark (h : Quiet trace) :
    Marked nonce 0 (trace ++ [⟨.store (.consumeNonce nonce), .ok ()⟩]) := by
  have hnone : trace.countP (consumes nonce) = 0 := by
    rw [List.countP_eq_zero]
    intro ev hev
    have hany := h.1 nonce
    rw [List.any_eq_false] at hany
    exact hany ev hev
  refine ⟨?_, ?_, ?_⟩
  · simp [List.countP_append, hnone, consumes]
  · intro other hany
    rw [List.any_append, h.1 other] at hany
    simp only [List.any_cons, List.any_nil, consumes, Bool.or_false, Bool.false_or,
      decide_eq_true_eq] at hany
    exact hany.symm
  · simp [List.countP_append, h.2, insertsSession]

lemma Marked.append {m : ℕ} (h : Marked nonce n trace) {ev : AuthEvent}
    (hconsumes : ∀ other, consumes other ev = false)
    (hinserts : n + [ev].countP insertsSession = m) : Marked nonce m (trace ++ [ev]) := by
  refine ⟨?_, ?_, ?_⟩
  · simp [List.countP_append, h.once, hconsumes]
  · intro other hany
    rw [List.any_append] at hany
    simp only [List.any_cons, List.any_nil, hconsumes, Bool.or_false] at hany
    exact h.only other hany
  · rw [List.countP_append, h.inserted, hinserts]

lemma Marked.metered (h : Marked nonce n trace) (hn : n ≤ 1) : Metered trace := by
  intro other hany
  rw [h.only other hany, h.once, h.inserted]
  exact hn

section Handlers

variable {ξ α β : Type}

/-- Whatever its calls answer, the handler keeps within what it has marked. -/
def Keeps (p : AuthHandler ξ α) (trace : List AuthEvent) : Prop :=
  p.run.Along Metered (fun _ _ => True) trace

lemma keeps_pure {a : α} (h : Metered trace) : Keeps (pure a : AuthHandler ξ α) trace :=
  ⟨h, trivial⟩

lemma keeps_throw {e : ξ} (h : Metered trace) : Keeps (throw e : AuthHandler ξ α) trace :=
  ⟨h, trivial⟩

lemma keeps_elim {o : Option β} {e : ξ} {f : β → AuthHandler ξ α} (h : Metered trace)
    (hf : ∀ b, Keeps (f b) trace) : Keeps (o.elim (throw e) pure >>= f) trace := by
  cases o with
  | none => exact ⟨h, trivial⟩
  | some b => exact hf b

lemma keeps_store {internal : StoreError → ξ} {c : AuthStoreCall} {f : c.Output → AuthHandler ξ α}
    (h : Metered trace) (hfails : ∀ e, Metered (trace ++ [⟨.store c, .error e⟩]))
    (hruns : ∀ out, Keeps (f out) (trace ++ [⟨.store c, .ok out⟩])) :
    Keeps (AuthHandler.store internal c >>= f) trace := by
  refine ⟨h, ?_⟩
  intro r
  cases r with
  | error e => exact ⟨hfails e, trivial⟩
  | ok out => exact hruns out

lemma keeps_limiter {panicked : ξ} {c : LimiterCall} {f : c.Output → AuthHandler ξ α}
    (h : Metered trace) (hpanics : Metered (trace ++ [⟨.limiter c, none⟩]))
    (hruns : ∀ out, Keeps (f out) (trace ++ [⟨.limiter c, some out⟩])) :
    Keeps (AuthHandler.limiter panicked c >>= f) trace := by
  refine ⟨h, ?_⟩
  intro r
  cases r with
  | none => exact ⟨hpanics, trivial⟩
  | some out => exact hruns out

lemma Quiet.keeps_store {internal : StoreError → ξ} {c : AuthStoreCall}
    {f : c.Output → AuthHandler ξ α} (h : Quiet trace)
    (hconsumes : ∀ nonce r, consumes nonce ⟨.store c, r⟩ = false)
    (hinserts : ∀ r, insertsSession ⟨.store c, r⟩ = false)
    (hruns : ∀ out trace, Quiet trace → Keeps (f out) trace) :
    Keeps (AuthHandler.store internal c >>= f) trace := by
  have hquiet : ∀ r, Quiet (trace ++ [⟨.store c, r⟩]) :=
    fun r => h.append (fun nonce => hconsumes nonce r) (hinserts r)
  exact Logins.keeps_store h.metered (fun e => (hquiet _).metered)
    fun out => hruns out _ (hquiet _)

lemma Quiet.keeps_limiter {panicked : ξ} {c : LimiterCall} {f : c.Output → AuthHandler ξ α}
    (h : Quiet trace) (hruns : ∀ out trace, Quiet trace → Keeps (f out) trace) :
    Keeps (AuthHandler.limiter panicked c >>= f) trace := by
  have hquiet : ∀ r, Quiet (trace ++ [⟨.limiter c, r⟩]) := fun r => h.append (fun _ => rfl) rfl
  exact Logins.keeps_limiter h.metered (hquiet _).metered fun out => hruns out _ (hquiet _)

lemma Marked.keeps_insert {internal : StoreError → ξ} {tokenHash : Bytes 32} {rec : SessionRecord}
    {a : α} (h : Marked nonce 0 trace) :
    Keeps (AuthHandler.store internal (.insertSession tokenHash rec) >>= fun _ => pure a)
      trace := by
  refine Logins.keeps_store (h.metered (by omega)) ?_ ?_
  · intro e
    exact (h.append (m := 0) (fun _ => rfl) rfl).metered (by omega)
  · intro out
    exact keeps_pure ((h.append (m := 1) (fun _ => rfl) rfl).metered le_rfl)

lemma Quiet.keeps_mark {internal : StoreError → ξ} {f : Unit → AuthHandler ξ α} (h : Quiet trace)
    (hruns : ∀ trace, Marked nonce 0 trace → Keeps (f ()) trace) :
    Keeps (AuthHandler.store internal (.consumeNonce nonce) >>= f) trace := by
  refine Logins.keeps_store h.metered ?_ ?_
  · intro e
    exact (h.append (fun _ => rfl) rfl).metered
  · intro out
    exact hruns _ h.mark

end Handlers

section Requests

variable {cfg : AuthConfig}

lemma keeps_challenge {username : String} {nowMs : UInt64} :
    Keeps (AuthService.challenge cfg username nonce nowMs) [] := by
  unfold AuthService.challenge
  refine quiet_nil.keeps_limiter ?_
  intro admitted trace h
  cases admitted with
  | error retryAfterS => exact keeps_throw h.metered
  | ok _ =>
    refine keeps_elim h.metered ?_
    intro expiresAtMs
    exact h.keeps_store (fun _ _ => rfl) (fun _ => rfl) fun _ trace h => keeps_pure h.metered

lemma keeps_prove [UnicodeNormalization] [Ed25519] [Sha256] {username : String}
    {timestamp : UInt64} {proof : Bytes 64} {exporter token : Bytes 32} {nowMs : UInt64} :
    Keeps (AuthService.prove cfg username timestamp proof exporter token nowMs) [] := by
  unfold AuthService.prove
  refine quiet_nil.keeps_limiter ?_
  intro admitted trace h
  cases admitted with
  | error retryAfterS => exact keeps_throw h.metered
  | ok _ =>
    refine h.keeps_store (fun _ _ => rfl) (fun _ => rfl) ?_
    intro user trace h
    refine h.keeps_store (fun _ _ => rfl) (fun _ => rfl) ?_
    intro nonces trace h
    split
    · exact h.keeps_limiter fun _ trace h => keeps_throw h.metered
    · refine h.keeps_mark ?_
      intro trace h
      refine keeps_limiter (h.metered (by omega)) ?_ ?_
      · exact (h.append (m := 0) (fun _ => rfl) rfl).metered (by omega)
      · intro _
        have hmarked : Marked _ 0
            (trace ++ [⟨.limiter (.recordProof username nowMs true), some ()⟩]) :=
          h.append (fun _ => rfl) rfl
        refine keeps_elim (hmarked.metered (by omega)) ?_
        intro u
        refine keeps_elim (hmarked.metered (by omega)) ?_
        intro expiresAtMs
        exact hmarked.keeps_insert

lemma keeps_recoveryChallenge [HpkeSeal] [Hkdf] [Aes256GcmSeal] [X25519] [X25519Base]
    [MlKem768Encaps] {rand : AuthService.ChallengeEntropy} {nowMs : UInt64} :
    Keeps (AuthService.recoveryChallenge cfg rand nowMs) [] := by
  unfold AuthService.recoveryChallenge
  refine quiet_nil.keeps_store (fun _ _ => rfl) (fun _ => rfl) ?_
  intro found trace h
  cases found with
  | none => exact keeps_throw h.metered
  | some acct =>
    refine keeps_elim h.metered ?_
    intro expiresAtMs
    refine h.keeps_store (fun _ _ => rfl) (fun _ => rfl) ?_
    intro _ trace h
    split
    · exact keeps_pure h.metered
    · exact keeps_throw h.metered

lemma keeps_recoveryVerify [UnicodeNormalization] [Ed25519] [Sha256] {challengeId : Bytes 16}
    {timestamp : UInt64} {proof : Bytes 64} {exporter token : Bytes 32} {nowMs : UInt64} :
    Keeps (AuthService.recoveryVerify cfg challengeId timestamp proof exporter token nowMs) [] := by
  unfold AuthService.recoveryVerify
  refine quiet_nil.keeps_store (fun _ _ => rfl) (fun _ => rfl) ?_
  intro found trace h
  cases found with
  | none => exact keeps_throw h.metered
  | some acct =>
    refine h.keeps_store (fun _ _ => rfl) (fun _ => rfl) ?_
    intro nonces trace h
    split
    · exact keeps_throw h.metered
    · refine h.keeps_mark ?_
      intro trace h
      refine keeps_elim (h.metered (by omega)) ?_
      intro expiresAtMs
      exact h.keeps_insert

lemma keeps_validateSession [Sha256] {token exporter : Bytes 32} {nowMs : UInt64} :
    Keeps (AuthService.validateSession token exporter nowMs) [] := by
  unfold AuthService.validateSession
  refine quiet_nil.keeps_store (fun _ _ => rfl) (fun _ => rfl) ?_
  intro found trace h
  cases found with
  | none => exact keeps_throw h.metered
  | some rec =>
    show Keeps (if _ then _ else _) trace
    split
    · exact keeps_throw h.metered
    · exact keeps_pure h.metered

lemma along_program [UnicodeNormalization] [Ed25519] [Sha256] [HpkeSeal] [Hkdf] [Aes256GcmSeal]
    [X25519] [X25519Base] [MlKem768Encaps] (request : AuthRequest) :
    (request.program cfg).Along Metered (fun _ _ => True) [] := by
  have hreply : ∀ {ξ α : Type} {p : AuthHandler ξ α} (reply : Except ξ α → AuthReply),
      Keeps p [] → (p.run >>= fun r => pure (reply r)).Along Metered (fun _ _ => True) [] := by
    intro ξ α p reply h
    apply Along.bind
    apply Along.mono h
    intro trace r hmetered _
    exact ⟨hmetered, trivial⟩
  have hsingle : ∀ {ξ : Type} {internal : StoreError → ξ} {c : AuthStoreCall},
      (∀ nonce r, consumes nonce ⟨.store c, r⟩ = false) →
      (∀ r, insertsSession ⟨.store c, r⟩ = false) → Keeps (AuthHandler.store internal c) [] := by
    intro ξ internal c hconsumes hinserts
    refine ⟨quiet_nil.metered, ?_⟩
    intro r
    exact ⟨(quiet_nil.append (fun nonce => hconsumes nonce r) (hinserts r)).metered, trivial⟩
  cases request with
  | challenge username nonce nowMs => exact hreply _ keeps_challenge
  | prove username timestamp proof exporter token nowMs => exact hreply _ keeps_prove
  | validateSession token exporter nowMs => exact hreply _ keeps_validateSession
  | logout token => exact hreply _ (hsingle (fun _ _ => rfl) fun _ => rfl)
  | prune nowMs => exact hreply _ (hsingle (fun _ _ => rfl) fun _ => rfl)
  | recoveryChallenge rand nowMs => exact hreply _ keeps_recoveryChallenge
  | recoveryVerify challengeId timestamp proof exporter token nowMs =>
    exact hreply _ keeps_recoveryVerify

end Requests

/-! ## Interleaved requests -/

section Systems

variable [UnicodeNormalization] [Ed25519] [Sha256] [HpkeSeal] [Hkdf] [Aes256GcmSeal] [X25519]
  [X25519Base] [MlKem768Encaps] (cfg : AuthConfig) (faults : Bool)

/-- What any number of requests lead to, however their calls are interleaved. -/
def Reachable : System AuthRequest AuthCall AuthCall.Response AuthReply AuthState → Prop :=
  System.Reachable (fun c s r t => c.Step faults s r t ∧ c.Fresh s) (AuthRequest.program cfg)
    (fun _ => True) (fun _ _ => False) fun _ => True

/-- What they lead to when a nonce is unused whenever one of them marks it as used. -/
def TimelyReachable : System AuthRequest AuthCall AuthCall.Response AuthReply AuthState → Prop :=
  System.Reachable (fun c s r t => c.Step faults s r t ∧ c.Fresh s ∧ c.Timely s)
    (AuthRequest.program cfg) (fun _ => True) (fun _ _ => False) fun _ => True

variable {cfg faults} {S : System AuthRequest AuthCall AuthCall.Response AuthReply AuthState}

lemma consumes_le_one (h : TimelyReachable cfg faults S) (nonce : Bytes 32) :
    S.count (consumes nonce) ≤ 1 ∧
      ((∀ row ∈ S.shared.nonces.lookup nonce, row.used = false) →
        S.count (consumes nonce) = 0) := by
  induction h with
  | init _ => simp [System.count, System.traces]
  | @next S S' _ hnext ih =>
    obtain ⟨hle, hunused⟩ := ih
    obtain ⟨c, r, ⟨hstep, hfresh, htimely⟩, hcount⟩ | ⟨hsame, hcount⟩ | ⟨hcrash, _⟩ :=
      System.count_next (consumes nonce) hnext
    · obtain ⟨hother, hrow⟩ | ⟨hother, hnone⟩ | ⟨hmarks, hbefore, row, hrow, hused⟩ :=
        AuthCall.step_nonce hstep hfresh htimely
      · rw [hcount, hother, hrow]
        exact ⟨hle, hunused⟩
      · rw [hcount, hother, hunused (by simp [hnone])]
        exact ⟨by simp, fun _ => rfl⟩
      · rw [hcount, hmarks, hunused hbefore]
        refine ⟨le_rfl, ?_⟩
        intro hafter
        have hopen := hafter row hrow
        rw [hused] at hopen
        exact absurd hopen (by simp)
    · rw [hcount, hsame]
      exact ⟨hle, hunused⟩
    · exact absurd hcrash id

lemma TimelyReachable.runAlone {s : AuthState}
    {log : List (Completion AuthRequest AuthCall AuthCall.Response AuthReply)}
    {request : AuthRequest} (hreach : TimelyReachable cfg faults ⟨s, [], log⟩)
    (h : (request.program cfg).EvalAll AuthCall.apply (fun c s _ => c.Fresh s ∧ c.Timely s) s) :
    TimelyReachable cfg faults
      (System.runAlone AuthCall.apply (AuthRequest.program cfg) ⟨s, [], log⟩ request) :=
  System.Reachable.steps hreach (System.steps_runBeside trivial
    (EvalAll.mono (fun c s hok => ⟨AuthCall.step_apply c s, hok⟩) h))

end Systems

end Logins

section

variable [UnicodeNormalization] [Ed25519] [Sha256] [HpkeSeal] [Hkdf] [Aes256GcmSeal] [X25519]
  [X25519Base] [MlKem768Encaps] {cfg : AuthConfig} {faults : Bool}
  {S : System AuthRequest AuthCall AuthCall.Response AuthReply AuthState}

/-- **A nonce is single use.**  When every nonce is unused at the moment it is marked as used, no
nonce leads to more than one session. -/
theorem nonce_singleUse (h : Logins.TimelyReachable cfg faults S) (nonce : Bytes 32) :
    sessionsFrom nonce S ≤ 1 := by
  have hmetered : ∀ trace ∈ S.traces, Logins.Metered trace :=
    System.reachable_along (fun request _ => Logins.along_program request) h
  have hsessions : sessionsFrom nonce S ≤ S.count (consumes nonce) :=
    System.countP_filter_le fun trace htrace => hmetered trace htrace nonce
  exact hsessions.trans (Logins.consumes_le_one h nonce).1

end

/-! ## One login, and two at once -/

open Logins

section Runs

open ClosedRuns

/-- The challenge is issued. -/
def asked : System AuthRequest AuthCall AuthCall.Response AuthReply AuthState :=
  System.runAlone AuthCall.apply (AuthRequest.program .default) ⟨.oneUser, [], []⟩ .asks

/-- A challenge and one proof of it. -/
theorem nonce_singleUse_oneLogin :
    sessionsFrom (.replicate 32 4)
      (System.runAlone AuthCall.apply (AuthRequest.program .default) asked
        (.answers (.replicate 32 7))) ≤ 1 := by
  have hasked : TimelyReachable .default false asked :=
    TimelyReachable.runAlone (.init trivial) (by decide +kernel)
  exact nonce_singleUse (hasked.runAlone (by decide +kernel)) _

/-- Both proofs look the nonce up before either marks it as used, and both mint a session. -/
theorem nonce_singleUse_overtaken :
    ¬ ∀ cfg S, Logins.Reachable cfg false S → ∀ nonce, sessionsFrom nonce S ≤ 1 := by
  intro h
  have hsteps : ∀ (p : Program AuthCall AuthCall.Response AuthReply) (s : AuthState),
      p.EvalAll AuthCall.apply (fun c s _ => c.Fresh s) s →
      p.EvalAll AuthCall.apply
        (fun c s r => AuthCall.Step false c s r (AuthCall.apply c s).2 ∧ c.Fresh s) s :=
    fun p s hfresh => EvalAll.mono (fun c s hok => ⟨AuthCall.step_apply c s, hok⟩) hfresh
  have hasked : Logins.Reachable .default false asked :=
    System.Reachable.steps (.init trivial)
      (System.steps_runBeside trivial (hsteps _ _ (by decide +kernel)))
  obtain ⟨threads, log, hfirst, hsecond⟩ := @System.steps_overtake _ _ _ _ _
    (fun c s r t => AuthCall.Step false c s r t ∧ c.Fresh s) (AuthRequest.program .default)
    (fun _ => True) (fun _ _ => False) AuthCall.apply 3 (.answers (.replicate 32 7))
    (.answers (.replicate 32 8)) trivial trivial asked.shared asked.log
    (hsteps _ _ (by decide +kernel)) (hsteps _ _ (by decide +kernel))
    (hsteps _ _ (by decide +kernel))
  have hminted := h _ _ ((hasked.steps hfirst).steps hsecond) (.replicate 32 4)
  exact absurd hminted (by decide +kernel)

end Runs

end MaxSecu
