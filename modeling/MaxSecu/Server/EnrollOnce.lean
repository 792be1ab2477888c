import MaxSecu.Server.Enrollment

/-!
# Enrolling once

Over any run of a store, at most one enrollment makes an admin, each stores the binding of the role
it gave, and one that is refused changes nothing.  `EnrollLedger` is what a store has to keep track
of for that; both stores do (`MemoryDirectory.ledger`, `PgDirectory.ledger`).

A registration key is spent at most once in the database, which keeps the spent ones.  The store in
memory forgets a key when it is spent, so there one that is issued again can be spent again
(`enrollment_exactlyOnce`).
-/

namespace MaxSecu

open ExceptRules GuardedUpdate AssociationList

inductive EnrollmentCall
  | issueRegistrationKey (keyHash : Bytes 32) (expiresAtMs : UInt64)
  | consumeRegistrationKey (keyHash : Bytes 32) (dbNowMs : UInt64)
  | enroll (args : EnrollArgs) (dbNowMs : UInt64)
  | putBinding (userId : Id) (keyVersion : UInt64) (binding : StoredBinding)

inductive EnrollmentReply
  | issued (r : Except DirectoryFault Unit)
  | consumed (r : Except DirectoryFault Bool)
  | enrolled (r : Except EnrollRefusal Bool)
  | put (r : Except DirectoryFault Unit)
  deriving DecidableEq

namespace EnrollmentCall

variable {σ : Type}

def serve (store : DirectoryStore σ) (call : EnrollmentCall) (s : σ) : EnrollmentReply × σ :=
  match call with
  | issueRegistrationKey keyHash expiresAtMs =>
    let r := runFrom (store.issueRegistrationKey keyHash expiresAtMs) s
    (.issued r.1, r.2)
  | consumeRegistrationKey keyHash dbNowMs =>
    let r := runFrom (store.consumeRegistrationKey keyHash dbNowMs) s
    (.consumed r.1, r.2)
  | enroll args dbNowMs =>
    let r := runFrom (store.enroll args dbNowMs) s
    (.enrolled r.1, r.2)
  | putBinding userId keyVersion binding =>
    let r := runFrom (store.putBinding userId keyVersion binding) s
    (.put r.1, r.2)

def Runs (store : DirectoryStore σ) (s : σ) (x : EnrollmentCall × EnrollmentReply) (t : σ) : Prop :=
  x.1.serve store s = (x.2, t)

/-- The call spent the registration key. -/
def spends (keyHash : Bytes 32) : EnrollmentCall × EnrollmentReply → Bool
  | (consumeRegistrationKey h _, .consumed (.ok true)) => h = keyHash
  | (enroll args _, .enrolled (.ok _)) => args.regKeyHash = keyHash
  | _ => false

def issues (keyHash : Bytes 32) : EnrollmentCall → Bool
  | issueRegistrationKey h _ => h = keyHash
  | _ => false

def makesAdmin : EnrollmentCall × EnrollmentReply → Bool
  | (enroll _ _, .enrolled (.ok true)) => true
  | _ => false

end EnrollmentCall

open EnrollmentCall

/-! ## Ledgers -/

/-- What a store keeps track of: whether the admin role is claimed, which keys are spent, and the
binding of each enrollment.  `Forgets` says which calls may make it forget that a key is spent. -/
structure EnrollLedger {σ : Type} (store : DirectoryStore σ) where
  Claimed : σ → Prop
  Spent : Bytes 32 → σ → Prop
  stored : Id → σ → Option StoredBinding
  Forgets : Bytes 32 → EnrollmentCall → Prop
  enrolled : ∀ {args dbNowMs s isAdmin t},
    runFrom (store.enroll args dbNowMs) s = (.ok isAdmin, t) →
    (isAdmin = true → ¬ Claimed s) ∧ Claimed t ∧ ¬ Spent args.regKeyHash s ∧
      Spent args.regKeyHash t ∧ stored args.userId t = some (args.binding isAdmin)
  refused : ∀ args dbNowMs, Atomic (store.enroll args dbNowMs)
  consumed : ∀ {keyHash dbNowMs s t},
    runFrom (store.consumeRegistrationKey keyHash dbNowMs) s = (.ok true, t) →
    ¬ Spent keyHash s ∧ Spent keyHash t
  claimed_kept : ∀ {s x t}, Runs store s x t → Claimed s → Claimed t
  spent_kept : ∀ {keyHash s x t}, Runs store s x t → Spent keyHash s → ¬ Forgets keyHash x.1 →
    Spent keyHash t

/-- At most one enrollment of the run made an admin, each stored the binding of its role, and one
that was refused changed nothing. -/
structure EnrollsOnce {σ : Type} (store : DirectoryStore σ) (stored : Id → σ → Option StoredBinding)
    (path : List (σ × EnrollmentCall × EnrollmentReply)) : Prop where
  oneAdmin : path.countP (fun x => makesAdmin x.2) ≤ 1
  binding : ∀ x ∈ path, ∀ args dbNowMs isAdmin,
    x.2 = (.enroll args dbNowMs, .enrolled (.ok isAdmin)) →
    stored args.userId (x.2.1.serve store x.1).2 = some (args.binding isAdmin)
  refused : ∀ x ∈ path, ∀ args dbNowMs refusal,
    x.2 = (.enroll args dbNowMs, .enrolled (.error refusal)) →
    (x.2.1.serve store x.1).2 = x.1

/-- No key was spent twice in the run. -/
def SpentOnce {σ : Type} (path : List (σ × EnrollmentCall × EnrollmentReply)) : Prop :=
  ∀ keyHash, path.countP (fun x => spends keyHash x.2) ≤ 1

namespace EnrollLedger

variable {σ : Type} {store : DirectoryStore σ} (ledger : EnrollLedger store) {s t : σ}
  {x : EnrollmentCall × EnrollmentReply} {path : List (σ × EnrollmentCall × EnrollmentReply)}

include ledger

lemma makesAdmin_claims (hruns : Runs store s x t) (hadmin : makesAdmin x = true) :
    ¬ ledger.Claimed s ∧ ledger.Claimed t := by
  unfold makesAdmin at hadmin
  split at hadmin
  · rename_i args dbNowMs
    obtain ⟨hreply, rfl⟩ := Prod.mk.inj hruns
    have hrun : runFrom (store.enroll args dbNowMs) s =
        (.ok true, (runFrom (store.enroll args dbNowMs) s).2) :=
      Prod.ext (EnrollmentReply.enrolled.inj hreply) rfl
    obtain ⟨hfirst, hclaimed, _⟩ := ledger.enrolled hrun
    exact ⟨hfirst rfl, hclaimed⟩
  · exact absurd hadmin (by simp)

lemma spends_spent {keyHash : Bytes 32} (hruns : Runs store s x t)
    (hspends : spends keyHash x = true) : ¬ ledger.Spent keyHash s ∧ ledger.Spent keyHash t := by
  unfold spends at hspends
  split at hspends
  · rename_i h dbNowMs
    obtain rfl : h = keyHash := of_decide_eq_true hspends
    obtain ⟨hreply, rfl⟩ := Prod.mk.inj hruns
    have hrun : runFrom (store.consumeRegistrationKey h dbNowMs) s =
        (.ok true, (runFrom (store.consumeRegistrationKey h dbNowMs) s).2) :=
      Prod.ext (EnrollmentReply.consumed.inj hreply) rfl
    exact ledger.consumed hrun
  · rename_i args dbNowMs isAdmin
    obtain rfl : args.regKeyHash = keyHash := of_decide_eq_true hspends
    obtain ⟨hreply, rfl⟩ := Prod.mk.inj hruns
    have hrun : runFrom (store.enroll args dbNowMs) s =
        (.ok isAdmin, (runFrom (store.enroll args dbNowMs) s).2) :=
      Prod.ext (EnrollmentReply.enrolled.inj hreply) rfl
    obtain ⟨_, _, hbefore, hafter, _⟩ := ledger.enrolled hrun
    exact ⟨hbefore, hafter⟩
  · exact absurd hspends (by simp)

/-- Whatever keeps such a ledger enrolls once. -/
theorem enrollsOnce (hrun : LabelledRun (Runs store) s path t) :
    EnrollsOnce store ledger.stored path := by
  refine ⟨?_, ?_, ?_⟩
  · refine LabelledRun.countP_le_one makesAdmin ledger.Claimed (fun _ => True) ?_ ?_ ?_ hrun ?_
    · exact fun t x u hruns hadmin => (ledger.makesAdmin_claims hruns hadmin).2
    · intro t x u hclaimed hruns
      by_contra hadmin
      exact (ledger.makesAdmin_claims hruns (Bool.not_eq_false _ ▸ hadmin)).1 hclaimed
    · exact fun t x u hclaimed _ hruns => ledger.claimed_kept hruns hclaimed
    · exact List.pairwise_of_forall fun _ _ _ => trivial
  · intro x hx args dbNowMs isAdmin hx'
    obtain ⟨_, _, u, _, _, hruns⟩ := hrun.of_mem hx
    rw [hx'] at hruns
    obtain ⟨hreply, _⟩ := Prod.mk.inj hruns
    have henroll : runFrom (store.enroll args dbNowMs) x.1 =
        (.ok isAdmin, (runFrom (store.enroll args dbNowMs) x.1).2) :=
      Prod.ext (EnrollmentReply.enrolled.inj hreply) rfl
    rw [hx']
    exact (ledger.enrolled henroll).2.2.2.2
  · intro x hx args dbNowMs refusal hx'
    obtain ⟨_, _, u, _, _, hruns⟩ := hrun.of_mem hx
    rw [hx'] at hruns
    obtain ⟨hreply, _⟩ := Prod.mk.inj hruns
    have henroll : runFrom (store.enroll args dbNowMs) x.1 =
        (.error refusal, (runFrom (store.enroll args dbNowMs) x.1).2) :=
      Prod.ext (EnrollmentReply.enrolled.inj hreply) rfl
    rw [hx']
    exact ledger.refused args dbNowMs x.1 refusal _ henroll

/-- A key is spent once, if no call after it was spent makes the store forget that. -/
theorem spent_once {keyHash : Bytes 32} (hrun : LabelledRun (Runs store) s path t)
    (hkept : path.Pairwise fun x y => spends keyHash x.2 = true →
      ¬ ledger.Forgets keyHash y.2.1) :
    path.countP (fun x => spends keyHash x.2) ≤ 1 := by
  refine LabelledRun.countP_le_one (spends keyHash) (ledger.Spent keyHash)
    (fun y => ¬ ledger.Forgets keyHash y.1) ?_ ?_ ?_ hrun hkept
  · exact fun t x u hruns hspends => (ledger.spends_spent hruns hspends).2
  · intro t x u hspent hruns
    by_contra hspends
    exact (ledger.spends_spent hruns (Bool.not_eq_false _ ▸ hspends)).1 hspent
  · exact fun t x u hspent hkeeps hruns => ledger.spent_kept hruns hspent hkeeps

end EnrollLedger

/-! ## The store in memory -/

namespace MemoryDirectory

lemma enroll_ok {args : EnrollArgs} (dbNowMs : UInt64) {s t : MemoryDirectory} {isAdmin : Bool}
    (h : runFrom (enroll args dbNowMs) s = (.ok isAdmin, t)) :
    args.regKeyHash ∈ s.regKeys ∧ args.username ∉ s.users ∧ isAdmin = (!s.firstAdminClaimed) ∧
      t = { s with
        regKeys := s.regKeys.erase args.regKeyHash
        firstAdminClaimed := true
        users := s.users.insert args.username ⟨args.userId, args.encPub, args.sigPub⟩
        bindings := s.bindings.insert args.userId (1, args.binding isAdmin) } := by
  unfold enroll at h
  rw [get_bind_eq_ok] at h
  obtain ⟨hkey, h⟩ := failIf_bind_eq_ok.mp h
  obtain ⟨hname, h⟩ := failIf_bind_eq_ok.mp h
  obtain ⟨rfl, rfl⟩ := set_pure_eq_ok.mp h
  exact ⟨not_not.mp hkey, hname, rfl, rfl⟩

lemma consumeRegistrationKey_ok {keyHash : Bytes 32} (dbNowMs : UInt64) {s t : MemoryDirectory}
    {consumed : Bool} (h : runFrom (consumeRegistrationKey keyHash dbNowMs) s = (.ok consumed, t)) :
    consumed = decide (keyHash ∈ s.regKeys) ∧
      t = { s with regKeys := s.regKeys.erase keyHash } := by
  unfold consumeRegistrationKey at h
  rw [get_bind_eq_ok] at h
  obtain ⟨hin, rfl⟩ := set_pure_eq_ok.mp h
  exact ⟨hin.symm, rfl⟩

lemma atomic_enroll (args : EnrollArgs) (dbNowMs : UInt64) : Atomic (enroll args dbNowMs) :=
  .get_bind fun _ => .failIf_bind <| .failIf_bind <| .set_pure

lemma putBinding_frame {userId : Id} {keyVersion : UInt64} {binding : StoredBinding}
    {s : MemoryDirectory} :
    ∃ bindings, (runFrom (putBinding userId keyVersion binding) s).2 =
      { s with bindings := bindings } := by
  unfold putBinding
  rw [runFrom_get_bind]
  cases s.bindings.lookup userId with
  | none => exact ⟨_, rfl⟩
  | some row =>
    by_cases hnewer : row.1 ≤ keyVersion
    · simp only [hnewer, if_true]
      exact ⟨_, rfl⟩
    · simp only [hnewer, if_false]
      exact ⟨s.bindings, rfl⟩

/-- A key that is not in the set counts as spent, and issuing it makes the store forget that. -/
def ledger : EnrollLedger store where
  Claimed s := s.firstAdminClaimed = true
  Spent keyHash s := keyHash ∉ s.regKeys
  stored userId s := (s.bindings.lookup userId).map Prod.snd
  Forgets keyHash call := call.issues keyHash = true
  enrolled := by
    intro args dbNowMs s isAdmin t h
    obtain ⟨hkey, _, rfl, rfl⟩ := enroll_ok dbNowMs h
    refine ⟨?_, rfl, not_not.mpr hkey, by simp, by simp⟩
    intro hadmin hclaimed
    rw [hclaimed] at hadmin
    exact absurd hadmin (by simp)
  refused := atomic_enroll
  consumed := by
    intro keyHash dbNowMs s t h
    obtain ⟨hin, rfl⟩ := consumeRegistrationKey_ok dbNowMs h
    exact ⟨not_not.mpr (of_decide_eq_true hin.symm), by simp⟩
  claimed_kept := by
    intro s x t hruns hclaimed
    obtain ⟨call, reply⟩ := x
    obtain ⟨-, rfl⟩ := Prod.mk.inj hruns
    cases call with
    | issueRegistrationKey keyHash expiresAtMs => exact hclaimed
    | consumeRegistrationKey keyHash dbNowMs => exact hclaimed
    | putBinding userId keyVersion binding =>
      obtain ⟨bindings, ht⟩ := @putBinding_frame userId keyVersion binding s
      show (runFrom (putBinding userId keyVersion binding) s).2.firstAdminClaimed = true
      rw [ht]
      exact hclaimed
    | enroll args dbNowMs =>
      show (runFrom (enroll args dbNowMs) s).2.firstAdminClaimed = true
      obtain ⟨_, hsame⟩ | ⟨isAdmin, t, hok⟩ := (atomic_enroll args dbNowMs).run_cases s
      · rw [hsame]
        exact hclaimed
      · obtain ⟨_, _, _, rfl⟩ := enroll_ok dbNowMs hok
        rw [hok]
  spent_kept := by
    intro keyHash s x t hruns hspent hkeeps
    obtain ⟨call, reply⟩ := x
    obtain ⟨-, rfl⟩ := Prod.mk.inj hruns
    cases call with
    | issueRegistrationKey h expiresAtMs =>
      have hother : keyHash ≠ h := fun heq => hkeeps (decide_eq_true heq.symm)
      show keyHash ∉ insert h s.regKeys
      simp [hother, hspent]
    | consumeRegistrationKey h dbNowMs =>
      show keyHash ∉ s.regKeys.erase h
      exact fun hmem => hspent (Finset.mem_of_mem_erase hmem)
    | putBinding userId keyVersion binding =>
      obtain ⟨bindings, ht⟩ := @putBinding_frame userId keyVersion binding s
      show keyHash ∉ (runFrom (putBinding userId keyVersion binding) s).2.regKeys
      rw [ht]
      exact hspent
    | enroll args dbNowMs =>
      show keyHash ∉ (runFrom (enroll args dbNowMs) s).2.regKeys
      obtain ⟨_, hsame⟩ | ⟨isAdmin, t, hok⟩ := (atomic_enroll args dbNowMs).run_cases s
      · rw [hsame]
        exact hspent
      · obtain ⟨_, _, _, rfl⟩ := enroll_ok dbNowMs hok
        rw [hok]
        exact fun hmem => hspent (Finset.mem_of_mem_erase hmem)

end MemoryDirectory

/-! ## The database -/

namespace PgDirectory

/-- A key is spent when its row says so. -/
def KeyUsed (keyHash : Bytes 32) (t : PgDirectory) : Prop :=
  ∃ row ∈ t.registrationKeys.lookup keyHash, row.used = true

lemma consumeKey_ok {ξ : Type} {keyHash : Bytes 32} {dbNowMs : UInt64} {t u : PgDirectory}
    {consumed : Bool}
    (h : runFrom (consumeKey keyHash dbNowMs : ExceptT ξ (StateM PgDirectory) Bool) t =
      (.ok consumed, u)) :
    consumed = decide (t.Spendable keyHash dbNowMs) ∧
      u = if t.Spendable keyHash dbNowMs then t.spend keyHash else t := by
  unfold consumeKey at h
  rw [get_bind_eq_ok] at h
  obtain ⟨hin, rfl⟩ := set_pure_eq_ok.mp h
  exact ⟨hin.symm, rfl⟩

lemma consumeKey_bind_eq_ok {ξ β : Type} {keyHash : Bytes 32} {dbNowMs : UInt64}
    {f : Bool → ExceptT ξ (StateM PgDirectory) β} {t u : PgDirectory} {b : β}
    (h : runFrom (consumeKey keyHash dbNowMs >>= f) t = (.ok b, u)) :
    runFrom (f (decide (t.Spendable keyHash dbNowMs)))
      (if t.Spendable keyHash dbNowMs then t.spend keyHash else t) = (.ok b, u) := by
  obtain ⟨consumed, v, hconsume, h⟩ := runFrom_bind_eq_ok.mp h
  obtain ⟨rfl, rfl⟩ := consumeKey_ok hconsume
  exact h

lemma claimFirstAdmin_bind_eq_ok {ξ β : Type} {f : Bool → ExceptT ξ (StateM PgDirectory) β}
    {t u : PgDirectory} {b : β} (h : runFrom (claimFirstAdmin >>= f) t = (.ok b, u)) :
    runFrom (f (!t.firstAdminClaim)) { t with firstAdminClaim := true } = (.ok b, u) := by
  obtain ⟨claimed, v, hclaim, h⟩ := runFrom_bind_eq_ok.mp h
  unfold claimFirstAdmin at hclaim
  rw [get_bind_eq_ok] at hclaim
  obtain ⟨rfl, rfl⟩ := set_pure_eq_ok.mp hclaim
  exact h

lemma issueRegistrationKey_frame {keyHash : Bytes 32} {expiresAtMs : UInt64} {t : PgDirectory} :
    (runFrom (issueRegistrationKey keyHash expiresAtMs) t).2.firstAdminClaim =
        t.firstAdminClaim ∧
      ∀ h, ∀ row ∈ t.registrationKeys.lookup h, row ∈
        (runFrom (issueRegistrationKey keyHash expiresAtMs) t).2.registrationKeys.lookup h := by
  have hatomic : Atomic (issueRegistrationKey keyHash expiresAtMs) :=
    .get_bind fun _ => .liftM_bind fun _ _ => .set_pure
  obtain ⟨_, hsame⟩ | ⟨_, u, hok⟩ := hatomic.run_cases t
  · rw [hsame]
    exact ⟨rfl, fun _ _ hrow => hrow⟩
  · rw [hok]
    unfold issueRegistrationKey at hok
    rw [get_bind_eq_ok] at hok
    obtain ⟨expires, _, hok⟩ := liftM_bind_eq_ok.mp hok
    obtain ⟨-, rfl⟩ := set_pure_eq_ok.mp hok
    refine ⟨rfl, ?_⟩
    intro h row hrow
    by_cases hin : keyHash ∈ t.registrationKeys
    · simp only [hin, if_true]
      exact hrow
    · simp only [hin, if_false]
      have hother : h ≠ keyHash := by
        intro heq
        rw [heq] at hrow
        exact hin (AList.lookup_isSome.mp (Option.isSome_of_mem hrow))
      rw [lookup_insert_eq, if_neg hother]
      exact hrow

lemma keyUsed_spend {keyHash h : Bytes 32} {t : PgDirectory} (hused : t.KeyUsed h) :
    (t.spend keyHash).KeyUsed h := by
  obtain ⟨row, hrow, husedrow⟩ := hused
  show ∃ row ∈ (adjust keyHash _ t.registrationKeys).lookup h, row.used = true
  rw [lookup_adjust]
  by_cases hh : h = keyHash
  · rw [if_pos hh, ← hh, hrow]
    exact ⟨_, rfl, rfl⟩
  · rw [if_neg hh]
    exact ⟨row, hrow, husedrow⟩

lemma keyUsed_of_spendable {keyHash : Bytes 32} {dbNowMs : UInt64} {t : PgDirectory}
    (h : t.Spendable keyHash dbNowMs) :
    ¬ t.KeyUsed keyHash ∧ (t.spend keyHash).KeyUsed keyHash := by
  obtain ⟨row, hrow, hunused, _⟩ := h
  constructor
  · intro hused
    obtain ⟨row', hrow', hused'⟩ := hused
    obtain rfl := Option.some.inj (hrow.symm.trans hrow')
    rw [hunused] at hused'
    exact absurd hused' (by simp)
  · show ∃ row ∈ (adjust keyHash _ t.registrationKeys).lookup keyHash, row.used = true
    rw [lookup_adjust, if_pos rfl, hrow]
    exact ⟨_, rfl, rfl⟩

section

variable [UnicodeNormalization]

lemma enroll_ok {args : EnrollArgs} {dbNowMs : UInt64} {t u : PgDirectory} {isAdmin : Bool}
    (h : runFrom (enroll args dbNowMs) t = (.ok isAdmin, u)) :
    t.Spendable args.regKeyHash dbNowMs ∧ isText args.username = true ∧
      args.username ∉ t.users ∧ t.hasUserId args.userId = false ∧
      (args.userId, 1) ∉ t.directoryBindings ∧ isAdmin = (!t.firstAdminClaim) ∧
      ∃ b, checkedBinding "enroll" (args.binding isAdmin).bindingBytes = .ok b ∧
        u = { t.spend args.regKeyHash with
          firstAdminClaim := true
          directoryBindings :=
            t.directoryBindings.insert (args.userId, 1) (args.binding isAdmin)
          users := mirror args.userId b
            (t.users.insert args.username ⟨args.userId, args.encPub, args.sigPub⟩) } := by
  unfold enroll at h
  have h := consumeKey_bind_eq_ok (transaction_eq_ok.mp h)
  obtain ⟨hconsumed, h⟩ := failIf_bind_eq_ok.mp h
  have hspendable : t.Spendable args.regKeyHash dbNowMs := by
    by_contra hnot
    exact hconsumed (decide_eq_false hnot)
  rw [if_pos hspendable, get_bind_eq_ok] at h
  obtain ⟨htext, h⟩ := failIf_bind_eq_ok.mp h
  obtain ⟨hfree, h⟩ := failIf_bind_eq_ok.mp h
  have h := claimFirstAdmin_bind_eq_ok (set_bind_eq_ok.mp h)
  obtain ⟨b, hb, h⟩ := liftM_bind_eq_ok.mp h
  rw [get_bind_eq_ok] at h
  obtain ⟨hversion, h⟩ := failIf_bind_eq_ok.mp h
  obtain ⟨rfl, rfl⟩ := set_pure_eq_ok.mp h
  obtain ⟨hname, hid⟩ := not_or.mp hfree
  exact ⟨hspendable, Bool.not_eq_false _ ▸ htext, hname, Bool.not_eq_true _ ▸ hid, hversion, rfl,
    b, mapError_eq_ok.mp hb, rfl⟩

lemma putBinding_frame {userId : Id} {keyVersion : UInt64} {binding : StoredBinding}
    {t : PgDirectory} :
    (runFrom (putBinding userId keyVersion binding) t).2.registrationKeys = t.registrationKeys ∧
      (runFrom (putBinding userId keyVersion binding) t).2.firstAdminClaim =
        t.firstAdminClaim := by
  have hatomic : Atomic (putBinding userId keyVersion binding) :=
    .get_bind fun _ => .liftM_bind fun _ _ => .failIf_bind <| .set_pure
  obtain ⟨_, hsame⟩ | ⟨_, u, hok⟩ := hatomic.run_cases t
  · rw [hsame]
    exact ⟨rfl, rfl⟩
  · rw [hok]
    unfold putBinding at hok
    rw [get_bind_eq_ok] at hok
    obtain ⟨b, _, hok⟩ := liftM_bind_eq_ok.mp hok
    obtain ⟨_, hok⟩ := failIf_bind_eq_ok.mp hok
    obtain ⟨-, rfl⟩ := set_pure_eq_ok.mp hok
    exact ⟨rfl, rfl⟩

/-- The row of a spent key stays. -/
def ledger : EnrollLedger store where
  Claimed t := t.firstAdminClaim = true
  Spent := KeyUsed
  stored userId t := t.directoryBindings.lookup (userId, 1)
  Forgets _ _ := False
  enrolled h := by
    obtain ⟨hspendable, _, _, _, _, rfl, b, _, rfl⟩ := enroll_ok h
    obtain ⟨hunused, hused⟩ := keyUsed_of_spendable hspendable
    refine ⟨?_, rfl, hunused, hused, by simp⟩
    intro hadmin hclaimed
    rw [hclaimed] at hadmin
    exact absurd hadmin (by simp)
  refused args dbNowMs := .transaction _
  consumed h := by
    obtain ⟨hspent, rfl⟩ := consumeKey_ok h
    have hspendable := of_decide_eq_true hspent.symm
    rw [if_pos hspendable]
    exact keyUsed_of_spendable hspendable
  claimed_kept := by
    intro t x u hruns hclaimed
    obtain ⟨call, reply⟩ := x
    obtain ⟨-, rfl⟩ := Prod.mk.inj hruns
    cases call with
    | issueRegistrationKey keyHash expiresAtMs =>
      exact issueRegistrationKey_frame.1.trans hclaimed
    | consumeRegistrationKey keyHash dbNowMs =>
      show (if t.Spendable keyHash dbNowMs then t.spend keyHash else t).firstAdminClaim = true
      by_cases hspendable : t.Spendable keyHash dbNowMs
      · rw [if_pos hspendable]
        exact hclaimed
      · rw [if_neg hspendable]
        exact hclaimed
    | putBinding userId keyVersion binding => exact putBinding_frame.2.trans hclaimed
    | enroll args dbNowMs =>
      show (runFrom (enroll args dbNowMs) t).2.firstAdminClaim = true
      obtain ⟨_, hsame⟩ | ⟨isAdmin, u, hok⟩ := (Atomic.transaction _).run_cases t
      · exact (congrArg firstAdminClaim hsame).trans hclaimed
      · obtain ⟨_, _, _, _, _, _, b, _, rfl⟩ := enroll_ok hok
        exact congrArg (fun r => firstAdminClaim r.2) hok
  spent_kept := by
    intro keyHash t x u hruns hspent _
    obtain ⟨call, reply⟩ := x
    obtain ⟨-, rfl⟩ := Prod.mk.inj hruns
    cases call with
    | issueRegistrationKey h expiresAtMs =>
      obtain ⟨row, hrow, hused⟩ := hspent
      exact ⟨row, issueRegistrationKey_frame.2 keyHash row hrow, hused⟩
    | consumeRegistrationKey h dbNowMs =>
      show KeyUsed keyHash (if t.Spendable h dbNowMs then t.spend h else t)
      by_cases hspendable : t.Spendable h dbNowMs
      · rw [if_pos hspendable]
        exact keyUsed_spend hspent
      · rw [if_neg hspendable]
        exact hspent
    | putBinding userId keyVersion binding =>
      show KeyUsed keyHash (runFrom (putBinding userId keyVersion binding) t).2
      unfold KeyUsed
      rw [putBinding_frame.1]
      exact hspent
    | enroll args dbNowMs =>
      show KeyUsed keyHash (runFrom (enroll args dbNowMs) t).2
      obtain ⟨_, hsame⟩ | ⟨isAdmin, u, hok⟩ := (Atomic.transaction _).run_cases t
      · exact (congrArg (KeyUsed keyHash) hsame).mpr hspent
      · obtain ⟨_, _, _, _, _, _, b, _, rfl⟩ := enroll_ok hok
        have hu := congrArg (fun r => KeyUsed keyHash r.2) hok
        exact hu.mpr (keyUsed_spend hspent)

end

end PgDirectory

/-! ## Both stores -/

/-- No key is issued after it was spent. -/
def NoReissue {σ : Type} (path : List (σ × EnrollmentCall × EnrollmentReply)) : Prop :=
  ∀ keyHash, path.Pairwise fun x y => spends keyHash x.2 = true → y.2.1.issues keyHash = false

/-- **Enrolling once.**  In every run of either store at most one enrollment makes an admin, each
stores the binding of its role, and one that is refused changes nothing.  In the database every key
is spent at most once; in memory this is so when no key is issued after it was spent. -/
theorem enrollment_exactlyOnce [UnicodeNormalization] :
    (∀ (s t : MemoryDirectory) path, LabelledRun (Runs MemoryDirectory.store) s path t →
      EnrollsOnce MemoryDirectory.store MemoryDirectory.ledger.stored path ∧
        (NoReissue path → SpentOnce path)) ∧
    ∀ (s t : PgDirectory) path, LabelledRun (Runs PgDirectory.store) s path t →
      EnrollsOnce PgDirectory.store PgDirectory.ledger.stored path ∧ SpentOnce path := by
  constructor
  · intro s t path hrun
    refine ⟨MemoryDirectory.ledger.enrollsOnce hrun, ?_⟩
    intro hnoreissue keyHash
    refine MemoryDirectory.ledger.spent_once hrun ((hnoreissue keyHash).imp ?_)
    intro x y hxy hspends hforgets
    have hissues : y.2.1.issues keyHash = true := hforgets
    rw [hxy hspends] at hissues
    exact absurd hissues (by simp)
  · intro s t path hrun
    refine ⟨PgDirectory.ledger.enrollsOnce hrun, ?_⟩
    intro keyHash
    exact PgDirectory.ledger.spent_once hrun (List.pairwise_of_forall fun _ _ _ => id)

section Runs

/-- A registrant with a key, an id and a name. -/
def registrant (userId : Id) (username : String) : EnrollArgs where
  regKeyHash := .replicate 32 1
  userId := userId
  username := username
  encPub := .replicate 32 2
  sigPub := .replicate 32 3
  userBinding := ⟨[], .replicate 64 0⟩
  adminBinding := ⟨[1], .replicate 64 0⟩

/-- A key is issued and spent by an enrollment. -/
def issuedPath : List (MemoryDirectory × EnrollmentCall × EnrollmentReply) :=
  let issue : EnrollmentCall := .issueRegistrationKey (.replicate 32 1) 1
  [(.empty, issue, .issued (.ok ())),
    ((issue.serve MemoryDirectory.store .empty).2, .enroll (registrant ⟨.replicate 16 1⟩ "a") 0,
      .enrolled (.ok true))]

theorem enrollment_exactlyOnce_issued : SpentOnce issuedPath := by
  have hrun : ∃ t, LabelledRun (Runs MemoryDirectory.store) .empty issuedPath t :=
    ⟨_, .step (.step .start rfl) rfl⟩
  obtain ⟨t, hrun⟩ := hrun
  refine ((@enrollment_exactlyOnce asciiNormalization).1 _ t _ hrun).2 ?_
  intro keyHash
  simp [issuedPath, EnrollmentCall.issues]

/-- The key is issued, spent, issued again and spent again. -/
def reissuedPath : List (MemoryDirectory × EnrollmentCall × EnrollmentReply) :=
  let issue : EnrollmentCall := .issueRegistrationKey (.replicate 32 1) 1
  let enroll := fun userId username => EnrollmentCall.enroll (registrant userId username) 0
  let s₁ := (issue.serve MemoryDirectory.store .empty).2
  let s₂ := ((enroll ⟨.replicate 16 1⟩ "a").serve MemoryDirectory.store s₁).2
  let s₃ := (issue.serve MemoryDirectory.store s₂).2
  [(.empty, issue, .issued (.ok ())),
    (s₁, enroll ⟨.replicate 16 1⟩ "a", .enrolled (.ok true)),
    (s₂, issue, .issued (.ok ())),
    (s₃, enroll ⟨.replicate 16 2⟩ "b", .enrolled (.ok false))]

/-- In memory one key enrolls two users. -/
theorem enrollment_exactlyOnce_reissued :
    ¬ ∀ (s t : MemoryDirectory) path, LabelledRun (Runs MemoryDirectory.store) s path t →
      SpentOnce path := by
  intro h
  have hrun : ∃ t, LabelledRun (Runs MemoryDirectory.store) .empty reissuedPath t :=
    ⟨_, .step (.step (.step (.step .start rfl) rfl) rfl) rfl⟩
  obtain ⟨t, hrun⟩ := hrun
  exact absurd (h _ t _ hrun (.replicate 32 1)) (by decide)

end Runs

end MaxSecu
