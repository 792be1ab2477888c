import MaxSecu.Crypto.Delegation
import MaxSecu.Framework.GuardedUpdate
import MaxSecu.Framework.LabelledRun

/-!
# The delegation of the directory

The server signs bindings with its operational key only while a certificate of the offline directory
key delegates to it.  The first certificate comes in a bootstrap, which carries a one-time token and
pins the directory key it verifies under; later ones come in renewals and have to verify under the
pinned key.

Both check everything and write to disk before they change the context, so a refusal or a fault
leaves it as it was (`atomic_installBootstrap`, `atomic_installRenewal`).  Over any run the context
is what its accepted certificates say (`delegation_run`).
-/

namespace MaxSecu

open ExceptRules GuardedUpdate

/-- The longest window the server accepts. -/
def MAX_DELEGATION_WINDOW_SECS : UInt64 := 366 * 86400

structure IoFault where
  message : String
  deriving DecidableEq

/-- How the disk answers the writes of one call. -/
structure DelegationPersist where
  persistDirectoryPub : Bytes 32 → Except IoFault Unit
  persistDelegation : List UInt8 → Except IoFault Unit
  burnToken : Except IoFault Unit

/-- A disk on which every write succeeds. -/
def DelegationPersist.null : DelegationPersist := ⟨fun _ => .ok (), fun _ => .ok (), .ok ()⟩

/-- The pinned directory key and the certificate it signed. -/
structure Installed where
  directoryPub : Bytes 32
  delegationBytes : List UInt8
  deriving DecidableEq

inductive DelegationMode
  | dev
  | prod
  deriving DecidableEq

inductive BootstrapRefusal
  | notAwaiting
  | badToken
  | badSignature
  | opKeyMismatch
  | badWindow
  | persist (e : IoFault)
  deriving DecidableEq

inductive RenewRefusal
  | notDelegated
  | badSignature
  | opKeyMismatch
  | badWindow
  | persist (e : IoFault)
  deriving DecidableEq

structure DelegationCtx where
  mode : DelegationMode
  operationalPub : Bytes 32
  installed : Option Installed
  bootstrapTokenHash : Option (Bytes 32)
  deriving DecidableEq

/-- The window ends in the future, is not empty nor too long, and starts at most the clock skew from
now. -/
def saneWindow (cert : List UInt8) (nowSecs : UInt64) : Bool :=
  match Delegation.parse cert with
  | .error _ => false
  | .ok d =>
    decide (nowSecs < d.validUntil ∧ d.validFrom ≤ d.validUntil ∧
      d.validUntil.toNat - d.validFrom.toNat ≤ MAX_DELEGATION_WINDOW_SECS.toNat ∧
      d.validFrom.toNat ≤
        min (nowSecs.toNat + Delegation.DELEGATION_CLOCK_SKEW_SECS.toNat) (2 ^ 64 - 1))

namespace DelegationCtx

def dev (directoryPub : Bytes 32) (delegationBytes : List UInt8) : DelegationCtx where
  mode := .dev
  operationalPub := directoryPub
  installed := some ⟨directoryPub, delegationBytes⟩
  bootstrapTokenHash := none

/-- The context of the production profile, as it starts. -/
def prod (operationalPub : Bytes 32) (installed : Option Installed)
    (bootstrapTokenHash : Option (Bytes 32)) : DelegationCtx :=
  ⟨.prod, operationalPub, installed, bootstrapTokenHash⟩

variable [Ed25519]

def enrollmentOpen (ctx : DelegationCtx) (nowSecs : UInt64) : Bool :=
  match ctx.mode with
  | .dev => true
  | .prod =>
    match ctx.installed with
    | some i => (Delegation.verify i.directoryPub i.delegationBytes nowSecs).isOk
    | none => false

/-- What the bootstrap makes of a certificate that does not verify. -/
def bootstrapRefusal : CryptoError → BootstrapRefusal
  | .delegationExpired => .badWindow
  | _ => .badSignature

/-- What the renewal makes of a certificate that does not verify. -/
def renewRefusal : CryptoError → RenewRefusal
  | .delegationExpired => .badWindow
  | _ => .badSignature

/-- The one-time bootstrap: pin the posted directory key, install its certificate and burn the
token.  A success returns the end of the window. -/
def installBootstrap [Sha256] (persist : DelegationPersist) (token : String)
    (directoryPub : Bytes 32) (cert : List UInt8) (nowSecs : UInt64) :
    ExceptT BootstrapRefusal (StateM DelegationCtx) UInt64 := do
  let ctx ← get
  failIf (ctx.installed.isSome = true) .notAwaiting
  let expected ← orFail ctx.bootstrapTokenHash .notAwaiting
  failIf (sha256 token.toByteArray.data.toList ≠ expected) .badToken
  let opPub ← liftM ((Delegation.verify directoryPub cert nowSecs).mapError bootstrapRefusal)
  failIf (opPub ≠ ctx.operationalPub) .opKeyMismatch
  failIf (saneWindow cert nowSecs = false) .badWindow
  liftM ((persist.persistDirectoryPub directoryPub).mapError BootstrapRefusal.persist)
  liftM ((persist.persistDelegation cert).mapError BootstrapRefusal.persist)
  liftM (persist.burnToken.mapError BootstrapRefusal.persist)
  -- the certificate parses: it has verified
  let d ← liftM ((Delegation.parse cert).mapError bootstrapRefusal)
  set { ctx with installed := some ⟨directoryPub, cert⟩, bootstrapTokenHash := none }
  pure d.validUntil

/-- Replace the certificate by a new one of the pinned key. -/
def installRenewal (persist : DelegationPersist) (cert : List UInt8) (nowSecs : UInt64) :
    ExceptT RenewRefusal (StateM DelegationCtx) UInt64 := do
  let ctx ← get
  let cur ← orFail ctx.installed .notDelegated
  let opPub ← liftM ((Delegation.verify cur.directoryPub cert nowSecs).mapError renewRefusal)
  failIf (opPub ≠ ctx.operationalPub) .opKeyMismatch
  failIf (saneWindow cert nowSecs = false) .badWindow
  liftM ((persist.persistDelegation cert).mapError RenewRefusal.persist)
  let d ← liftM ((Delegation.parse cert).mapError renewRefusal)
  set { ctx with installed := some ⟨cur.directoryPub, cert⟩ }
  pure d.validUntil

end DelegationCtx

/-! ## Calls -/

inductive DelegationCall
  | installBootstrap (persist : DelegationPersist) (token : String) (directoryPub : Bytes 32)
    (cert : List UInt8) (nowSecs : UInt64)
  | installRenewal (persist : DelegationPersist) (cert : List UInt8) (nowSecs : UInt64)
  | enrollmentOpen (nowSecs : UInt64)

inductive DelegationReply
  | bootstrap (r : Except BootstrapRefusal UInt64)
  | renewal (r : Except RenewRefusal UInt64)
  | open (isOpen : Bool)
  deriving DecidableEq

namespace DelegationCall

variable [Ed25519] [Sha256]

def serve (call : DelegationCall) (ctx : DelegationCtx) : DelegationReply × DelegationCtx :=
  match call with
  | installBootstrap persist token directoryPub cert nowSecs =>
    let r := runFrom (DelegationCtx.installBootstrap persist token directoryPub cert nowSecs) ctx
    (.bootstrap r.1, r.2)
  | installRenewal persist cert nowSecs =>
    let r := runFrom (DelegationCtx.installRenewal persist cert nowSecs) ctx
    (.renewal r.1, r.2)
  | enrollmentOpen nowSecs => (.open (ctx.enrollmentOpen nowSecs), ctx)

def Runs (ctx : DelegationCtx) (x : DelegationCall × DelegationReply) (t : DelegationCtx) : Prop :=
  x.1.serve ctx = (x.2, t)

end DelegationCall

/-! ## What a call does -/

/-- The certificate delegates to the key, for a window that is not too long. -/
def DelegatesTo (operationalPub : Bytes 32) (cert : List UInt8) : Prop :=
  ∃ d, Delegation.parse cert = .ok d ∧ d.operationalPub = operationalPub ∧
    d.validFrom ≤ d.validUntil ∧
    d.validUntil.toNat - d.validFrom.toNat ≤ MAX_DELEGATION_WINDOW_SECS.toNat

namespace DelegationCtx

variable [Ed25519] {ctx t : DelegationCtx} {persist : DelegationPersist} {cert : List UInt8}
  {nowSecs validUntil : UInt64}

lemma delegatesTo_of_verify {directoryPub opPub : Bytes 32}
    (hverify : Delegation.verify directoryPub cert nowSecs = .ok opPub)
    (hsane : saneWindow cert nowSecs = true) : DelegatesTo opPub cert := by
  obtain ⟨d, hparse, hop, -, -⟩ := Delegation.verify_eq_ok hverify
  unfold saneWindow at hsane
  rw [hparse] at hsane
  obtain ⟨-, hordered, hshort, -⟩ := of_decide_eq_true hsane
  exact ⟨d, hparse, hop, hordered, hshort⟩

lemma installRenewal_ok
    (h : runFrom (installRenewal persist cert nowSecs) ctx = (.ok validUntil, t)) :
    ∃ cur, ctx.installed = some cur ∧ DelegatesTo ctx.operationalPub cert ∧
      t = { ctx with installed := some ⟨cur.directoryPub, cert⟩ } := by
  unfold installRenewal at h
  rw [get_bind_eq_ok] at h
  obtain ⟨cur, hcur, h⟩ := orFail_bind_eq_ok.mp h
  obtain ⟨opPub, hverify, h⟩ := liftM_bind_eq_ok.mp h
  obtain ⟨hop, h⟩ := failIf_bind_eq_ok.mp h
  obtain ⟨hsane, h⟩ := failIf_bind_eq_ok.mp h
  obtain ⟨_, _, h⟩ := liftM_bind_eq_ok.mp h
  obtain ⟨d, _, h⟩ := liftM_bind_eq_ok.mp h
  obtain ⟨-, rfl⟩ := set_pure_eq_ok.mp h
  have hdelegates := delegatesTo_of_verify (mapError_eq_ok.mp hverify)
    (Bool.not_eq_false _ ▸ hsane)
  rw [not_not.mp hop] at hdelegates
  exact ⟨cur, hcur, hdelegates, rfl⟩

lemma atomic_installRenewal : Atomic (installRenewal persist cert nowSecs) :=
  .get_bind fun _ => .orFail_bind fun _ _ => .liftM_bind fun _ _ => .failIf_bind <|
    .failIf_bind <| .liftM_bind fun _ _ => .liftM_bind fun _ _ => .set_pure

variable [Sha256] {token : String} {directoryPub : Bytes 32}

lemma installBootstrap_ok
    (h : runFrom (installBootstrap persist token directoryPub cert nowSecs) ctx =
      (.ok validUntil, t)) :
    ctx.installed = none ∧
      ctx.bootstrapTokenHash = some (sha256 token.toByteArray.data.toList) ∧
      DelegatesTo ctx.operationalPub cert ∧
      t = { ctx with installed := some ⟨directoryPub, cert⟩, bootstrapTokenHash := none } := by
  unfold installBootstrap at h
  rw [get_bind_eq_ok] at h
  obtain ⟨hawaiting, h⟩ := failIf_bind_eq_ok.mp h
  obtain ⟨expected, hexpected, h⟩ := orFail_bind_eq_ok.mp h
  obtain ⟨htoken, h⟩ := failIf_bind_eq_ok.mp h
  obtain ⟨opPub, hverify, h⟩ := liftM_bind_eq_ok.mp h
  obtain ⟨hop, h⟩ := failIf_bind_eq_ok.mp h
  obtain ⟨hsane, h⟩ := failIf_bind_eq_ok.mp h
  obtain ⟨_, _, h⟩ := liftM_bind_eq_ok.mp h
  obtain ⟨_, _, h⟩ := liftM_bind_eq_ok.mp h
  obtain ⟨_, _, h⟩ := liftM_bind_eq_ok.mp h
  obtain ⟨d, _, h⟩ := liftM_bind_eq_ok.mp h
  obtain ⟨-, rfl⟩ := set_pure_eq_ok.mp h
  have hdelegates := delegatesTo_of_verify (mapError_eq_ok.mp hverify)
    (Bool.not_eq_false _ ▸ hsane)
  rw [not_not.mp hop] at hdelegates
  rw [← not_not.mp htoken] at hexpected
  exact ⟨by simpa using hawaiting, hexpected, hdelegates, rfl⟩

lemma atomic_installBootstrap :
    Atomic (installBootstrap persist token directoryPub cert nowSecs) :=
  .get_bind fun _ => .failIf_bind <| .orFail_bind fun _ _ => .failIf_bind <|
    .liftM_bind fun _ _ => .failIf_bind <| .failIf_bind <| .liftM_bind fun _ _ =>
    .liftM_bind fun _ _ => .liftM_bind fun _ _ => .liftM_bind fun _ _ => .set_pure

end DelegationCtx

/-! ## Runs -/

abbrev DelegationPath := List (DelegationCtx × DelegationCall × DelegationReply)

namespace DelegationCall

def accepted : DelegationCall × DelegationReply → Option (List UInt8)
  | (installBootstrap _ _ _ cert _, .bootstrap (.ok _)) => some cert
  | (installRenewal _ cert _, .renewal (.ok _)) => some cert
  | _ => none

def spentToken : DelegationCall × DelegationReply → Option String
  | (installBootstrap _ token _ _ _, .bootstrap (.ok _)) => some token
  | _ => none

/-- What a call can do: change nothing, pin a key with its first certificate, or replace the
certificate. -/
inductive Effect [Sha256] (ctx : DelegationCtx) :
    DelegationCall × DelegationReply → DelegationCtx → Prop
  | keeps {x : DelegationCall × DelegationReply} : accepted x = none → Effect ctx x ctx
  | pins {persist : DelegationPersist} {token : String} {directoryPub : Bytes 32}
      {cert : List UInt8} {nowSecs validUntil : UInt64} : ctx.installed = none →
      ctx.bootstrapTokenHash = some (sha256 token.toByteArray.data.toList) →
      DelegatesTo ctx.operationalPub cert →
      Effect ctx (installBootstrap persist token directoryPub cert nowSecs,
        .bootstrap (.ok validUntil))
        { ctx with installed := some ⟨directoryPub, cert⟩, bootstrapTokenHash := none }
  | renews {persist : DelegationPersist} {cert : List UInt8} {nowSecs validUntil : UInt64}
      {cur : Installed} : ctx.installed = some cur → DelegatesTo ctx.operationalPub cert →
      Effect ctx (installRenewal persist cert nowSecs, .renewal (.ok validUntil))
        { ctx with installed := some ⟨cur.directoryPub, cert⟩ }

variable [Ed25519] [Sha256] {ctx t : DelegationCtx} {x : DelegationCall × DelegationReply}

lemma runs_effect (h : Runs ctx x t) : Effect ctx x t := by
  obtain ⟨call, reply⟩ := x
  unfold Runs at h
  cases call with
  | installBootstrap persist token directoryPub cert nowSecs =>
    obtain ⟨rfl, rfl⟩ := Prod.mk.inj h
    rcases hrun : runFrom
      (DelegationCtx.installBootstrap persist token directoryPub cert nowSecs) ctx with ⟨r, u⟩
    cases r with
    | error e =>
      obtain rfl : u = ctx := DelegationCtx.atomic_installBootstrap ctx e u hrun
      exact .keeps rfl
    | ok validUntil =>
      obtain ⟨hnone, htoken, hdelegates, rfl⟩ := DelegationCtx.installBootstrap_ok hrun
      exact .pins hnone htoken hdelegates
  | installRenewal persist cert nowSecs =>
    obtain ⟨rfl, rfl⟩ := Prod.mk.inj h
    rcases hrun : runFrom (DelegationCtx.installRenewal persist cert nowSecs) ctx with ⟨r, u⟩
    cases r with
    | error e =>
      obtain rfl : u = ctx := DelegationCtx.atomic_installRenewal ctx e u hrun
      exact .keeps rfl
    | ok validUntil =>
      obtain ⟨cur, hcur, hdelegates, rfl⟩ := DelegationCtx.installRenewal_ok hrun
      exact .renews hcur hdelegates
  | enrollmentOpen nowSecs =>
    obtain ⟨rfl, rfl⟩ := Prod.mk.inj h
    exact .keeps rfl

end DelegationCall

namespace DelegationCtx

open DelegationCall

/-- The last certificate that was installed, if none then the one from before the run. -/
def lastAccepted (ctx : DelegationCtx) (path : DelegationPath) : Option (List UInt8) :=
  (path.filterMap fun x => accepted x.2).getLast?.or (ctx.installed.map Installed.delegationBytes)

/-- The context is what the accepted calls of the run made it. -/
structure Traced [Ed25519] [Sha256] (ctx : DelegationCtx) (path : DelegationPath)
    (t : DelegationCtx) : Prop where
  mode : t.mode = ctx.mode
  operationalPub : t.operationalPub = ctx.operationalPub
  awaiting : t.installed = none → t.bootstrapTokenHash = ctx.bootstrapTokenHash
  tokens : ∀ x ∈ path, ∀ token ∈ spentToken x.2,
    ctx.bootstrapTokenHash = some (sha256 token.toByteArray.data.toList)
  pinned : ∀ x ∈ path, ∀ i ∈ x.1.installed, ∃ j ∈ t.installed, j.directoryPub = i.directoryPub
  last : t.installed.map Installed.delegationBytes = ctx.lastAccepted path
  windows : ∀ x ∈ path, ∀ cert ∈ accepted x.2, DelegatesTo ctx.operationalPub cert
  refused : ∀ x ∈ path, accepted x.2 = none → (x.2.1.serve x.1).2 = x.1

variable {ctx t u : DelegationCtx} {path : DelegationPath} {x : DelegationCall × DelegationReply}

lemma lastAccepted_append (cert : Option (List UInt8)) (hx : accepted x = cert) :
    ctx.lastAccepted (path ++ [(t, x)]) = cert.or (ctx.lastAccepted path) := by
  unfold lastAccepted
  cases cert with
  | none => simp [List.filterMap_append, hx]
  | some c => simp [List.filterMap_append, hx]

variable [Ed25519] [Sha256]

lemma Traced.next (h : Traced ctx path t) (hruns : Runs t x u) :
    Traced ctx (path ++ [(t, x)]) u := by
  have hserve : (x.1.serve t).2 = u := congrArg Prod.snd hruns
  have hall : ∀ {P : DelegationCtx × DelegationCall × DelegationReply → Prop},
      (∀ y ∈ path, P y) → P (t, x) → ∀ y ∈ path ++ [(t, x)], P y := by
    intro P hpath hlast y hy
    obtain hold | hnew := List.mem_append.mp hy
    · exact hpath y hold
    · obtain rfl := List.mem_singleton.mp hnew
      exact hlast
  cases runs_effect hruns with
  | keeps hnone =>
    refine ⟨h.mode, h.operationalPub, h.awaiting, ?_, ?_, ?_, ?_, ?_⟩
    · refine hall h.tokens fun token htoken => ?_
      obtain ⟨call, reply⟩ := x
      unfold spentToken at htoken
      split at htoken
      · exact absurd hnone (by simp_all [accepted])
      · exact absurd htoken (by simp)
    · exact hall h.pinned fun i hi => ⟨i, hi, rfl⟩
    · rw [lastAccepted_append none hnone]
      exact h.last
    · exact hall h.windows fun cert hcert => absurd (hnone.symm.trans hcert) (by simp)
    · exact hall h.refused fun _ => hserve
  | @pins persist token directoryPub cert nowSecs validUntil hinstalled htoken hdelegates =>
    refine ⟨h.mode, h.operationalPub, fun hnone => absurd hnone (by simp), ?_, ?_, ?_, ?_, ?_⟩
    · refine hall h.tokens fun token' htoken' => ?_
      obtain rfl := Option.some.inj htoken'
      rw [← h.awaiting hinstalled]
      exact htoken
    · refine hall ?_ ?_
      · intro y hy i hi
        obtain ⟨j, hj, _⟩ := h.pinned y hy i hi
        rw [hinstalled] at hj
        exact absurd hj (by simp)
      · intro i hi
        rw [hinstalled] at hi
        exact absurd hi (by simp)
    · rw [lastAccepted_append (some cert) rfl]
      rfl
    · refine hall h.windows fun cert' hcert' => ?_
      obtain rfl := Option.some.inj hcert'
      rw [← h.operationalPub]
      exact hdelegates
    · exact hall h.refused fun hnone => absurd hnone (by simp [accepted])
  | @renews persist cert nowSecs validUntil cur hinstalled hdelegates =>
    refine ⟨h.mode, h.operationalPub, fun hnone => absurd hnone (by simp), ?_, ?_, ?_, ?_, ?_⟩
    · exact hall h.tokens fun token htoken => absurd htoken (by simp [spentToken])
    · have hsame : ∀ j ∈ t.installed, cur.directoryPub = j.directoryPub := by
        intro j hj
        rw [Option.some.inj (hj.symm.trans hinstalled)]
      refine hall ?_ fun i hi => ⟨_, rfl, hsame i hi⟩
      intro y hy i hi
      obtain ⟨j, hj, hpub⟩ := h.pinned y hy i hi
      exact ⟨_, rfl, (hsame j hj).trans hpub⟩
    · rw [lastAccepted_append (some cert) rfl]
      rfl
    · refine hall h.windows fun cert' hcert' => ?_
      obtain rfl := Option.some.inj hcert'
      rw [← h.operationalPub]
      exact hdelegates
    · exact hall h.refused fun hnone => absurd hnone (by simp [accepted])

theorem traced_run (hrun : LabelledRun Runs ctx path t) : Traced ctx path t := by
  induction hrun with
  | start =>
    exact ⟨rfl, rfl, fun _ => rfl, by simp, by simp, rfl, by simp, by simp⟩
  | step _ hnext ih => exact ih.next hnext

lemma bootstrap_once (hrun : LabelledRun Runs ctx path t) :
    path.countP (fun x => (spentToken x.2).isSome) ≤ 1 := by
  have hinstalled : ∀ {t u : DelegationCtx} {x}, Effect t x u → (spentToken x).isSome = true →
      t.installed = none ∧ u.installed.isSome = true := by
    intro t u x heffect hspent
    cases heffect with
    | keeps hnone =>
      obtain ⟨call, reply⟩ := x
      unfold spentToken at hspent
      split at hspent
      · exact absurd hnone (by simp_all [accepted])
      · exact absurd hspent (by simp)
    | pins hnone _ _ => exact ⟨hnone, rfl⟩
    | renews _ _ => exact absurd hspent (by simp [spentToken])
  refine LabelledRun.countP_le_one (fun x => (spentToken x).isSome)
    (fun t => t.installed.isSome = true) (fun _ => True) ?_ ?_ ?_ hrun ?_
  · exact fun t x u hruns hspent => (hinstalled (runs_effect hruns) hspent).2
  · intro t x u hdone hruns
    by_contra hspent
    have hnone := (hinstalled (runs_effect hruns) (Bool.not_eq_false _ ▸ hspent)).1
    rw [hnone] at hdone
    exact absurd hdone (by simp)
  · intro t x u hdone _ hruns
    cases runs_effect hruns with
    | keeps _ => exact hdone
    | pins _ _ _ => rfl
    | renews _ _ => rfl
  · exact List.pairwise_of_forall fun _ _ _ => trivial

/-- What a run of calls keeps to. -/
structure Governed (ctx : DelegationCtx) (path : DelegationPath) (t : DelegationCtx) : Prop where
  once : path.countP (fun x => (spentToken x.2).isSome) ≤ 1
  tokens : ∀ x ∈ path, ∀ token ∈ spentToken x.2,
    ctx.bootstrapTokenHash = some (sha256 token.toByteArray.data.toList)
  pinned : ∀ x ∈ path, ∀ i ∈ x.1.installed, ∃ j ∈ t.installed, j.directoryPub = i.directoryPub
  opens : ∀ nowSecs isOpen u, Runs t (.enrollmentOpen nowSecs, .open isOpen) u →
    (isOpen = true ↔ ∃ i ∈ t.installed, ∃ cert ∈ ctx.lastAccepted path,
      (Delegation.verify i.directoryPub cert nowSecs).isOk = true)
  windows : ∀ x ∈ path, ∀ cert ∈ accepted x.2, DelegatesTo ctx.operationalPub cert
  refused : ∀ x ∈ path, accepted x.2 = none → (x.2.1.serve x.1).2 = x.1

/-- **The delegation state machine.**  Over any run of calls on a production context, at most one
bootstrap succeeds and it carried the one-time token, a pinned key stays, enrollment is open exactly
when the last accepted certificate verifies under the pinned key, every accepted certificate is for
the operational key and not for too long, and every other call changes nothing. -/
theorem delegation_run {operationalPub : Bytes 32} {installed : Option Installed}
    {bootstrapTokenHash : Option (Bytes 32)} {path : DelegationPath} {t : DelegationCtx}
    (hrun : LabelledRun Runs (prod operationalPub installed bootstrapTokenHash) path t) :
    Governed (prod operationalPub installed bootstrapTokenHash) path t := by
  have htraced := traced_run hrun
  refine ⟨bootstrap_once hrun, htraced.tokens, htraced.pinned, ?_, htraced.windows,
    htraced.refused⟩
  intro nowSecs isOpen u hruns
  obtain ⟨hopen, -⟩ := Prod.mk.inj hruns
  obtain rfl := DelegationReply.open.inj hopen
  rw [← htraced.last]
  unfold enrollmentOpen
  rw [htraced.mode]
  show (match t.installed with
    | some i => (Delegation.verify i.directoryPub i.delegationBytes nowSecs).isOk
    | none => false) = true ↔ _
  cases t.installed with
  | none => simp
  | some i => simp

end DelegationCtx

section Runs

open ClosedRuns DelegationCall DelegationCtx

/-- A server with token `t` that awaits its bootstrap. -/
def awaitingCtx : DelegationCtx :=
  .prod (.replicate 32 1) none (some (sha256 "t".toByteArray.data.toList))

def ninetyDayCert : List UInt8 :=
  Delegation.sign ⟨.replicate 32 2⟩ (.replicate 32 1) 0 (90 * 86400)

def bootstraps : DelegationCall :=
  .installBootstrap .null "t" (.replicate 32 2) ninetyDayCert 1

def delegationPath : DelegationPath := [(awaitingCtx, bootstraps, (bootstraps.serve awaitingCtx).1)]

/-- A bootstrap opens the enrollment. -/
theorem delegation_run_bootstrap :
    (bootstraps.serve awaitingCtx).1 = .bootstrap (.ok 7776000) ∧
      awaitingCtx.Governed delegationPath (bootstraps.serve awaitingCtx).2 := by
  constructor
  · decide +kernel
  · exact delegation_run (.step .start rfl)

end Runs

end MaxSecu
