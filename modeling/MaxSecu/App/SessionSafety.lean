import MaxSecu.App.Session

/-!
# What the session holds

A logout forgets the identity, the token and the principal, and what is in the session belongs
together: who is signed in, and the identity that signed in.  Neither command looks for operations
that are under way.  A `connect` or a `reauth` that has the identity in hand puts it back when it is
done, whoever signed out or in meanwhile, and an `unlock_keystore` stores its identity beside
whatever principal there is.

`cleared_final_iff` says which operations under way undo a logout later, and `principalFits_iff`
which steps part the principal from its identity.
-/

namespace MaxSecu

variable {K : Type}

/-! ## The locks -/

namespace SessionState

/-- No two operations under way hold the lock. -/
def Exclusive (holds : SessionOp K → Bool) (s : SessionState K) : Prop :=
  ∀ i j op op', s.ops i = some op → s.ops j = some op' → holds op = true → holds op' = true → i = j

lemma Exclusive.after {holds : SessionOp K → Bool} {s : SessionState K} {id : ℕ} {op : SessionOp K}
    {e : SessionEffect K} (h : s.Exclusive holds) (hop : s.ops id = some op)
    (hrest : ∀ op', e.rest = some op' → holds op' = true → holds op = true ∨
      ∀ i other, s.ops i = some other → holds other = false) :
    (s.after id e).Exclusive holds := by
  intro i j a b ha hb hholdsa hholdsb
  have hother : ∀ k c, k ≠ id → s.ops k = some c → holds c = true → ∀ op', e.rest = some op' →
      holds op' = true → k = id := by
    intro k c _ hc hholdsc op' hop' hholds
    rcases hrest op' hop' hholds with hself | hfree
    · exact h k id c op hc hop hholdsc hself
    · exact absurd hholdsc (by simp [hfree k c hc])
  rcases ops_after ha with ⟨hi, hresta⟩ | ⟨hi, holda⟩ <;>
    rcases ops_after hb with ⟨hj, hrestb⟩ | ⟨hj, holdb⟩
  · rw [hi, hj]
  · rw [hi]
    exact (hother j b hj holdb hholdsb a hresta hholdsa).symm
  · rw [hj]
    exact hother i a hi holda hholdsa b hrestb hholdsb
  · exact h i j a b holda holdb hholdsa hholdsb

lemma Exclusive.begin {holds : SessionOp K → Bool} {s : SessionState K} {op : SessionOp K}
    (h : s.Exclusive holds)
    (hfree : holds op = true → ∀ i other, s.ops i = some other → holds other = false) :
    (s.begin op).Exclusive holds := by
  intro i j a b ha hb hholdsa hholdsb
  rcases ops_begin ha with ⟨hi, hnewa⟩ | ⟨hi, holda⟩ <;>
    rcases ops_begin hb with ⟨hj, hnewb⟩ | ⟨hj, holdb⟩
  · rw [hi, hj]
  · rw [hnewa] at hholdsa
    exact absurd hholdsb (by simp [hfree hholdsa j b holdb])
  · rw [hnewb] at hholdsb
    exact absurd hholdsa (by simp [hfree hholdsb i a holda])
  · exact h i j a b holda holdb hholdsa hholdsb

end SessionState

namespace SessionOp

variable {s : SessionState K} {op op' : SessionOp K} {act : SessionAct} {e : SessionEffect K}

lemma Acts.connectLock (h : op.Acts s act e) (hrest : e.rest = some op')
    (hholds : op'.holdsConnectLock = true) : op.holdsConnectLock = true ∨ s.ConnectFree := by
  cases h
  case reauthLock hfree => exact .inr hfree
  all_goals
    first
    | exact .inl rfl
    | cases hrest
    try cases hholds

lemma Acts.phaseLock (h : op.Acts s act e) (hrest : e.rest = some op')
    (hholds : op'.holdsPhase = true) : op.holdsPhase = true ∨ s.PhaseFree := by
  cases h
  case answerTake hfree _ => exact .inr hfree
  all_goals
    first
    | exact .inl rfl
    | cases hrest
    try cases hholds

end SessionOp

/-- Operations have their own numbers, and share no lock. -/
structure SessionState.Inv (s : SessionState K) : Prop where
  numbered : ∀ i op, s.ops i = some op → i < s.nextId
  connectLock : s.Exclusive SessionOp.holdsConnectLock
  phaseLock : s.Exclusive SessionOp.holdsPhase

namespace SessionState

variable {s t : SessionState K} {label : SessionLabel} {path : List (SessionState K × SessionLabel)}

lemma inv_start : (start : SessionState K).Inv := by
  refine ⟨?_, ?_, ?_⟩
  · intro i op h
    cases h
  · intro i j op op' h
    cases h
  · intro i j op op' h
    cases h

lemma Inv.step (hinv : s.Inv) (h : s.Next label t) : t.Inv := by
  cases h with
  | @begin op hbegins hfree =>
    refine ⟨?_, hinv.connectLock.begin hfree, hinv.phaseLock.begin ?_⟩
    · intro i op' hop'
      rw [begin_nextId]
      rcases ops_begin hop' with ⟨rfl, -⟩ | ⟨-, hold⟩
      · omega
      · have := hinv.numbered i op' hold
        omega
    · intro hholds
      exact absurd hbegins (by cases op <;> cases hholds <;> simp [SessionOp.begins])
  | @act id op act e hop hact =>
    refine ⟨?_, ?_, ?_⟩
    · intro i op' hop'
      rw [after_nextId]
      rcases ops_after hop' with ⟨rfl, -⟩ | ⟨-, hold⟩
      · exact hinv.numbered _ op hop
      · exact hinv.numbered i op' hold
    · exact hinv.connectLock.after hop fun op' hrest hholds => hact.connectLock hrest hholds
    · exact hinv.phaseLock.after hop fun op' hrest hholds => hact.phaseLock hrest hholds

lemma inv_of_run (hrun : LabelledRun Next start path s) : s.Inv :=
  hrun.invariant inv_start fun _ _ _ hinv hnext => hinv.step hnext

end SessionState

/-! ## A logout is final -/

/-- An operation from `since` on stores an identity. -/
def SessionLabel.StoresIdentity (since : ℕ) : SessionLabel → Prop
  | .acted id .storedIdentity => since ≤ id
  | .acted id .storedLogin => since ≤ id
  | _ => False

/-- An operation from `since` on stores a token and a principal. -/
def SessionLabel.StoresLogin (since : ℕ) : SessionLabel → Prop
  | .acted id .storedLogin => since ≤ id
  | _ => False

namespace SessionState

/-- After the steps of `path`, the session holds only what operations from `since` on stored. -/
structure Final (since : ℕ) (path : List (SessionState K × SessionLabel)) (s : SessionState K) :
    Prop where
  identity : s.session.identity.isSome = true → ∃ x ∈ path, x.2.StoresIdentity since
  token : s.session.token.isSome = true → ∃ x ∈ path, x.2.StoresLogin since
  principal : s.session.principal.isSome = true → ∃ x ∈ path, x.2.StoresLogin since

end SessionState

/-- The operation has still to store something, or has an identity to put back. -/
def SessionOp.mayStore : SessionOp K → Bool
  | .unlocking _ => true
  | .connectDialing _ => true
  | .connectProving _ _ => true
  | .reauthProving _ _ => true
  | .answerWaiting => true
  | .answerProving _ => true
  | _ => false

/-- No `unlock_keystore`, `connect` or `answer_recovery_challenge` has still to store, and no
`reauth` has the identity in hand. -/
def SessionState.Quiet (s : SessionState K) : Prop :=
  ∀ i op, s.ops i = some op → op.mayStore = false

namespace SessionOp

variable {s : SessionState K} {op op' : SessionOp K} {act : SessionAct} {e : SessionEffect K}

lemma Acts.session (h : op.Acts s act e) :
    act = .silent ∧ (e.session = s.session ∨ e.session = { s.session with identity := none }) ∨
    act = .storedIdentity ∧ op.mayStore = true ∧ (∀ p id, op ≠ .reauthProving p id) ∧
      (∃ id, e.session = { s.session with identity := some id }) ∨
    act = .storedLogin ∧ op.mayStore = true ∧ (∀ p id, op ≠ .reauthProving p id) ∨
    act = .putBack ∧ (∃ p id, op = .reauthProving p id ∧
      e.session = { s.session with identity := some id }) ∨
    act = .cleared ∧ op.mayStore = false ∧ e.session = .default := by
  cases h
  case unlocked => exact .inr (.inl ⟨rfl, rfl, by simp, _, rfl⟩)
  case connectRejected => exact .inr (.inl ⟨rfl, rfl, by simp, _, rfl⟩)
  case connected => exact .inr (.inr (.inl ⟨rfl, rfl, by simp⟩))
  case answered => exact .inr (.inr (.inl ⟨rfl, rfl, by simp⟩))
  case reauthAccepted => exact .inr (.inr (.inr (.inl ⟨rfl, _, _, rfl, rfl⟩)))
  case reauthRejected => exact .inr (.inr (.inr (.inl ⟨rfl, _, _, rfl, rfl⟩)))
  case loggedOut => exact .inr (.inr (.inr (.inr ⟨rfl, rfl, rfl⟩)))
  case ended => exact .inr (.inr (.inr (.inr ⟨rfl, rfl, rfl⟩)))
  case connectTake => exact .inl ⟨rfl, .inr rfl⟩
  case reauthTake => exact .inl ⟨rfl, .inr rfl⟩
  all_goals exact .inl ⟨rfl, .inl rfl⟩

/-- Who has still to store had so before, or is a `reauth` that has just taken the identity. -/
lemma Acts.rest_mayStore (h : op.Acts s act e) (hrest : e.rest = some op')
    (hmay : op'.mayStore = true) :
    op.mayStore = true ∧ (∀ p id, op ≠ .reauthProving p id) ∧ (∀ p id, op' ≠ .reauthProving p id) ∨
    ∃ p id, op' = .reauthProving p id ∧ s.session.identity = some id := by
  cases h
  case connectTake =>
    obtain rfl := Option.some.inj hrest
    exact .inl ⟨rfl, by simp, by simp⟩
  case answerTake =>
    obtain rfl := Option.some.inj hrest
    exact .inl ⟨rfl, by simp, by simp⟩
  case reauthTake hidentity =>
    obtain rfl := Option.some.inj hrest
    exact .inr ⟨_, _, rfl, hidentity⟩
  all_goals
    cases hrest
    try cases hmay

end SessionOp

namespace SessionState

variable {s t u : SessionState K} {label : SessionLabel} {since : ℕ}
  {path : List (SessionState K × SessionLabel)}

/-- What holds after a quiet logout: the operations from before it store nothing, and whoever has
an identity in hand took one that was stored since. -/
structure FinalInv (since : ℕ) (path : List (SessionState K × SessionLabel)) (s : SessionState K) :
    Prop where
  later : since ≤ s.nextId
  old : ∀ i op, s.ops i = some op → i < since → op.mayStore = true →
    ∃ p id, op = .reauthProving p id
  inHand : ∀ i p id, s.ops i = some (.reauthProving p id) → ∃ x ∈ path, x.2.StoresIdentity since
  final : s.Final since path

lemma Final.mono {path more : List (SessionState K × SessionLabel)} (h : s.Final since path)
    (hsession : t.session = s.session) : t.Final since (path ++ more) := by
  have hleft : ∀ P : SessionLabel → Prop, (∃ x ∈ path, P x.2) → ∃ x ∈ path ++ more, P x.2 := by
    rintro P ⟨x, hx, hP⟩
    exact ⟨x, List.mem_append_left _ hx, hP⟩
  refine ⟨?_, ?_, ?_⟩
  · rw [hsession]
    exact fun hsome => hleft _ (h.identity hsome)
  · rw [hsession]
    exact fun hsome => hleft _ (h.token hsome)
  · rw [hsession]
    exact fun hsome => hleft _ (h.principal hsome)

lemma FinalInv.step (hinv : s.FinalInv since path) (h : s.Next label t) :
    t.FinalInv since (path ++ [(s, label)]) := by
  have hleft : (∃ x ∈ path, x.2.StoresIdentity since) →
      ∃ x ∈ path ++ [(s, label)], x.2.StoresIdentity since := by
    rintro ⟨x, hx, hstores⟩
    exact ⟨x, List.mem_append_left _ hx, hstores⟩
  have hleft' : (∃ x ∈ path, x.2.StoresLogin since) →
      ∃ x ∈ path ++ [(s, label)], x.2.StoresLogin since := by
    rintro ⟨x, hx, hstores⟩
    exact ⟨x, List.mem_append_left _ hx, hstores⟩
  have hlast : (s, label) ∈ path ++ [(s, label)] := by simp
  cases h with
  | @begin op hbegins _ =>
    refine ⟨?_, ?_, ?_, hinv.final.mono rfl⟩
    · have := hinv.later
      rw [begin_nextId]
      omega
    · intro i op' hop' hi hmay
      rcases ops_begin hop' with ⟨rfl, -⟩ | ⟨-, hold⟩
      · exact absurd hi (not_lt.mpr hinv.later)
      · exact hinv.old i op' hold hi hmay
    · intro i p id hop'
      rcases ops_begin hop' with ⟨-, rfl⟩ | ⟨-, hold⟩
      · cases hbegins
      · exact hleft (hinv.inHand i p id hold)
  | @act i op act e hop hact =>
    refine ⟨hinv.later, ?_, ?_, ?_⟩
    · intro j op' hop' hj hmay
      rcases ops_after hop' with ⟨rfl, hrest⟩ | ⟨-, hold⟩
      · rcases hact.rest_mayStore hrest hmay with ⟨hmay', hnot, -⟩ | ⟨p, id, hreauth, -⟩
        · obtain ⟨p, id, hreauth⟩ := hinv.old _ op hop hj hmay'
          exact absurd hreauth (hnot p id)
        · exact ⟨p, id, hreauth⟩
      · exact hinv.old j op' hold hj hmay
    · intro j p id hop'
      rcases ops_after hop' with ⟨rfl, hrest⟩ | ⟨-, hold⟩
      · rcases hact.rest_mayStore hrest rfl with ⟨-, -, hnot⟩ | ⟨p', id', -, hidentity⟩
        · exact absurd rfl (hnot p id)
        · exact hleft (hinv.final.identity (by rw [hidentity]; rfl))
      · exact hleft (hinv.inHand j p id hold)
    · have hnew : op.mayStore = true → (∀ p id, op ≠ .reauthProving p id) → since ≤ i := by
        intro hmay hnot
        by_contra hi
        obtain ⟨p, id, hreauth⟩ := hinv.old i op hop (by omega) hmay
        exact hnot p id hreauth
      rcases hact.session with ⟨-, hkept | htaken⟩ | ⟨rfl, hmay, hnot, id, hput⟩ |
        ⟨rfl, hmay, hnot⟩ | ⟨-, p, id, rfl, hput⟩ | ⟨-, -, hcleared⟩
      · exact hinv.final.mono hkept
      · refine ⟨?_, ?_, ?_⟩
        · rw [after_session, htaken]
          intro hsome
          cases hsome
        · rw [after_session, htaken]
          exact fun hsome => hleft' (hinv.final.token hsome)
        · rw [after_session, htaken]
          exact fun hsome => hleft' (hinv.final.principal hsome)
      · refine ⟨fun _ => ⟨_, hlast, hnew hmay hnot⟩, ?_, ?_⟩
        · rw [after_session, hput]
          exact fun hsome => hleft' (hinv.final.token hsome)
        · rw [after_session, hput]
          exact fun hsome => hleft' (hinv.final.principal hsome)
      · exact ⟨fun _ => ⟨_, hlast, hnew hmay hnot⟩, fun _ => ⟨_, hlast, hnew hmay hnot⟩,
          fun _ => ⟨_, hlast, hnew hmay hnot⟩⟩
      · refine ⟨fun _ => hleft (hinv.inHand i p id hop), ?_, ?_⟩
        · rw [after_session, hput]
          exact fun hsome => hleft' (hinv.final.token hsome)
        · rw [after_session, hput]
          exact fun hsome => hleft' (hinv.final.principal hsome)
      · refine ⟨?_, ?_, ?_⟩ <;>
        · rw [after_session, hcleared]
          intro hsome
          cases hsome

lemma Next.cleared {i : ℕ} (h : s.Next (.acted i .cleared) t) :
    t.session = .default ∧ t.nextId = s.nextId ∧ (∃ op, s.ops i = some op ∧ op.mayStore = false) ∧
      ∀ j op, t.ops j = some op ↔ j ≠ i ∧ s.ops j = some op := by
  cases h with
  | @act _ op _ e hop hact =>
    have hrest : e.rest = none ∧ e.session = .default ∧ op.mayStore = false := by
      cases hact <;> exact ⟨rfl, rfl, rfl⟩
    obtain ⟨hrest, hsession, hmay⟩ := hrest
    refine ⟨hsession, rfl, ⟨op, hop, hmay⟩, ?_⟩
    intro j op'
    by_cases hj : j = i
    · subst hj
      rw [after_ops_self, hrest]
      simp
    · rw [after_ops_of_ne s e hj]
      simp [hj]

lemma final_of_quiet {i : ℕ} (hquiet : s.Quiet)
    (hclear : s.Next (.acted i .cleared) t) (hrun : LabelledRun Next t path u) :
    u.Final t.nextId path := by
  obtain ⟨hsession, hnext, -, hops⟩ := hclear.cleared
  have hstart : t.FinalInv t.nextId [] := by
    refine ⟨le_refl _, ?_, ?_, ?_⟩
    · intro j op hop _ hmay
      exact absurd hmay (by simp [hquiet j op ((hops j op).mp hop).2])
    · intro j p id hop
      exact absurd (hquiet j _ ((hops j _).mp hop).2) (by simp [SessionOp.mayStore])
    · refine ⟨?_, ?_, ?_⟩ <;>
      · rw [hsession]
        intro hsome
        cases hsome
  have hall : u.FinalInv t.nextId path := by
    induction hrun with
    | start => exact hstart
    | step _ hnext ih => exact ih.step hnext
  exact hall.final

/-- Some steps, none of which stores a login of an operation from `since` on. -/
def Unlogged (since : ℕ) (s t : SessionState K) : Prop :=
  ∃ path, LabelledRun Next s path t ∧ ∀ x ∈ path, ¬ x.2.StoresLogin since

lemma Unlogged.refl (since : ℕ) (s : SessionState K) : Unlogged since s s :=
  ⟨[], .start, by simp⟩

lemma Unlogged.next (h : Unlogged since s t) (hnext : t.Next label u)
    (hlogin : ¬ label.StoresLogin since) : Unlogged since s u := by
  obtain ⟨path, hrun, hpath⟩ := h
  refine ⟨path ++ [(t, label)], hrun.step hnext, ?_⟩
  intro x hx
  rcases List.mem_append.mp hx with hx | hx
  · exact hpath x hx
  · rw [List.mem_singleton.mp hx]
    exact hlogin

lemma Unlogged.begin (op : SessionOp K) (h : Unlogged since s t) (hbegins : op.begins = true)
    (hfree : op.holdsConnectLock = true → t.ConnectFree) : Unlogged since s (t.begin op) :=
  h.next (.begin hbegins hfree) (by simp [SessionLabel.StoresLogin])

lemma Unlogged.act {i : ℕ} (op : SessionOp K) {act : SessionAct} {e : SessionEffect K}
    (h : Unlogged since s t) (hop : t.ops i = some op) (hact : op.Acts t act e)
    (hlogin : act ≠ .storedLogin) : Unlogged since s (t.after i e) := by
  refine h.next (.act hop hact) ?_
  cases act <;> simp_all [SessionLabel.StoresLogin]

lemma Unlogged.not_final {i : ℕ} {op : SessionOp K} {e : SessionEffect K}
    (h : Unlogged since s t) (hi : i < since) (hop : t.ops i = some op)
    (hact : op.Acts t .storedLogin e) (htoken : e.session.token.isSome = true) :
    ∃ path u, LabelledRun Next s path u ∧ ¬ u.Final since path := by
  obtain ⟨path, hrun, hpath⟩ := h
  refine ⟨path ++ [(t, .acted i .storedLogin)], t.after i e, hrun.step (.act hop hact), ?_⟩
  intro hfinal
  obtain ⟨x, hx, hstores⟩ := hfinal.token htoken
  rcases List.mem_append.mp hx with hx | hx
  · exact hpath x hx hstores
  · rw [List.mem_singleton.mp hx] at hstores
    have hle : since ≤ i := hstores
    omega

lemma exists_phaseFree (since : ℕ) (hinv : s.Inv) :
    ∃ t, Unlogged since s t ∧ t.PhaseFree ∧ t.session = s.session ∧
      ∀ i op, s.ops i = some op → op.holdsPhase = false → t.ops i = some op := by
  by_cases hfree : s.PhaseFree
  · exact ⟨s, .refl since s, hfree, rfl, fun _ _ hop _ => hop⟩
  unfold PhaseFree at hfree
  push Not at hfree
  obtain ⟨j, holder, hj, hholds⟩ := hfree
  have hholds : holder.holdsPhase = true := by simpa using hholds
  obtain ⟨e, hact, hrest, hsession⟩ : ∃ e, holder.Acts s .silent e ∧ e.rest = none ∧
      e.session = s.session := by
    cases holder
    case answerProving => exact ⟨_, .answerRejected, rfl, rfl⟩
    case answerStored => exact ⟨_, .answerDone, rfl, rfl⟩
    all_goals cases hholds
  refine ⟨s.after j e, (Unlogged.refl since s).act holder hj hact (by simp), ?_, hsession, ?_⟩
  · intro i op hop
    rcases ops_after hop with ⟨-, hop⟩ | ⟨hi, hop⟩
    · rw [hrest] at hop
      cases hop
    · by_contra hop'
      exact hi (hinv.phaseLock i j op holder hop hj (by simpa using hop') hholds)
  · intro i op hop hnot
    have hi : i ≠ j := by
      rintro rfl
      rw [hj] at hop
      rw [Option.some.inj hop, hnot] at hholds
      cases hholds
    rw [after_ops_of_ne s e hi, hop]

lemma exists_connectFree (since : ℕ) (hinv : s.Inv) (hprincipal : s.session.principal = none)
    (hphase : s.PhaseFree) :
    ∃ t, Unlogged since s t ∧ t.ConnectFree ∧ t.PhaseFree ∧
      ∀ i op, s.ops i = some op → op.holdsConnectLock = false → t.ops i = some op := by
  by_cases hfree : s.ConnectFree
  · exact ⟨s, .refl since s, hfree, hphase, fun _ _ hop _ => hop⟩
  unfold ConnectFree at hfree
  push Not at hfree
  obtain ⟨j, holder, hj, hholds⟩ := hfree
  have hholds : holder.holdsConnectLock = true := by simpa using hholds
  obtain ⟨act, e, hact, hrest, hlogin⟩ : ∃ act e, holder.Acts s act e ∧ e.rest = none ∧
      act ≠ .storedLogin := by
    cases holder
    case connectDialing => exact ⟨_, _, .connectUnreachable, rfl, by simp⟩
    case connectProving => exact ⟨_, _, .connectRejected, rfl, by simp⟩
    case reauthLocked => exact ⟨_, _, .reauthSignedOut hprincipal, rfl, by simp⟩
    case reauthDialing => exact ⟨_, _, .reauthUnreachable, rfl, by simp⟩
    case reauthProving => exact ⟨_, _, .reauthRejected, rfl, by simp⟩
    case requesting => exact ⟨_, _, .requestFailed, rfl, by simp⟩
    all_goals cases hholds
  refine ⟨s.after j e, (Unlogged.refl since s).act holder hj hact hlogin, ?_, ?_, ?_⟩
  · intro i op hop
    rcases ops_after hop with ⟨-, hop⟩ | ⟨hi, hop⟩
    · rw [hrest] at hop
      cases hop
    · by_contra hop'
      exact hi (hinv.connectLock i j op holder hop hj (by simpa using hop') hholds)
  · intro i op hop
    rcases ops_after hop with ⟨-, hop⟩ | ⟨-, hop⟩
    · rw [hrest] at hop
      cases hop
    · exact hphase i op hop
  · intro i op hop hnot
    have hi : i ≠ j := by
      rintro rfl
      rw [hj] at hop
      rw [Option.some.inj hop, hnot] at hholds
      cases hholds
    rw [after_ops_of_ne s e hi, hop]

lemma Unlogged.trans (h : Unlogged since s t) (h' : Unlogged since t u) : Unlogged since s u := by
  obtain ⟨path, hrun, hpath⟩ := h
  obtain ⟨path', hrun', hpath'⟩ := h'
  refine ⟨path ++ path', hrun.trans hrun', ?_⟩
  intro x hx
  rcases List.mem_append.mp hx with hx | hx
  · exact hpath x hx
  · exact hpath' x hx

lemma Unlogged.inv (h : Unlogged since s t) (hinv : s.Inv) : t.Inv := by
  obtain ⟨path, hrun, -⟩ := h
  exact hrun.invariant hinv fun _ _ _ hinv hnext => hinv.step hnext

lemma begin_ops_of_some (hinv : s.Inv) {i : ℕ} {op : SessionOp K} (new : SessionOp K)
    (hop : s.ops i = some op) : (s.begin new).ops i = some op := by
  have hi := hinv.numbered i op hop
  rw [begin_ops_of_ne s new (by omega), hop]

lemma not_final_of_identity {i : ℕ} {op : SessionOp K} {act : SessionAct} {e : SessionEffect K}
    (hi : i < since) (hop : s.ops i = some op) (hact : op.Acts s act e)
    (hidentity : e.session.identity.isSome = true) :
    ∃ path u, LabelledRun Next s path u ∧ ¬ u.Final since path := by
  refine ⟨[] ++ [(s, .acted i act)], s.after i e, LabelledRun.start.step (.act hop hact), ?_⟩
  intro hfinal
  obtain ⟨x, hx, hstores⟩ := hfinal.identity hidentity
  rw [List.mem_singleton.mp hx] at hstores
  cases act with
  | storedIdentity =>
    have hle : since ≤ i := hstores
    omega
  | storedLogin =>
    have hle : since ≤ i := hstores
    omega
  | silent => exact hstores
  | putBack => exact hstores
  | cleared => exact hstores

lemma not_final_of_connect {i : ℕ} {username : String} (key : K) (hinv : s.Inv) (hi : i < since)
    (hop : s.ops i = some (.connectDialing username)) :
    ∃ path u, LabelledRun Next s path u ∧ ¬ u.Final since path := by
  have hbegun := (Unlogged.refl since s).begin (.unlocking key) rfl (by
    intro hlock
    cases hlock)
  have hne : i ≠ s.nextId := by
    have := hinv.numbered i _ hop
    omega
  have hstored := hbegun.act (.unlocking key) (begin_ops_self s (.unlocking key)) .unlocked (by simp)
  have htaken := hstored.act (.connectDialing username)
    (show _ = some _ by rw [after_ops_of_ne _ _ hne, begin_ops_of_some hinv _ hop]) (.connectTake rfl) (by simp)
  exact htaken.not_final hi (after_ops_self _ i _) (.connected "" "") rfl

lemma not_final_of_answer {i : ℕ} (key : K) (hinv : s.Inv)
    (hprincipal : s.session.principal = none) (hi : i < since)
    (hop : s.ops i = some .answerWaiting) :
    ∃ path u, LabelledRun Next s path u ∧ ¬ u.Final since path := by
  obtain ⟨t, hst, hphase, hsession, hops⟩ := exists_phaseFree since hinv
  have htop : t.ops i = some .answerWaiting := hops i _ hop rfl
  obtain ⟨u, htu, hconnect, hphase, hops⟩ := exists_connectFree since (hst.inv hinv)
    (by rw [hsession, hprincipal]) hphase
  have huop : u.ops i = some .answerWaiting := hops i _ htop rfl
  have hu : Unlogged since s u := hst.trans htu
  have hne : i ≠ u.nextId := by
    have := (hu.inv hinv).numbered i _ huop
    omega
  have hbegun := hu.begin (.requesting key) rfl fun _ => hconnect
  have hfree : (u.begin (.requesting key)).PhaseFree := by
    intro j op hop'
    rcases ops_begin hop' with ⟨-, rfl⟩ | ⟨-, hold⟩
    · rfl
    · exact hphase j op hold
  have hparked := hbegun.act (.requesting key) (begin_ops_self u (.requesting key)) (.requestParked "" hfree)
    (by simp)
  have hparkedFree : ((u.begin (.requesting key)).after u.nextId
      ⟨u.session, .challenged ⟨key, ""⟩, u.proven, none⟩).PhaseFree := by
    intro j op hop'
    rcases ops_after hop' with ⟨-, hnone⟩ | ⟨-, hold⟩
    · cases hnone
    · exact hfree j op hold
  have htaken := hparked.act .answerWaiting
    (by rw [after_ops_of_ne _ _ hne, begin_ops_of_some (hu.inv hinv) _ huop])
    (.answerTake hparkedFree rfl) (by simp)
  exact htaken.not_final hi (after_ops_self _ i _) (.answered "") rfl

lemma not_final_of_mayStore {i : ℕ} {op : SessionOp K} (key : K) (hinv : s.Inv)
    (hprincipal : s.session.principal = none) (hi : i < since) (hop : s.ops i = some op)
    (hmay : op.mayStore = true) : ∃ path u, LabelledRun Next s path u ∧ ¬ u.Final since path := by
  cases op
  case unlocking => exact not_final_of_identity hi hop .unlocked rfl
  case connectDialing => exact not_final_of_connect key hinv hi hop
  case connectProving => exact not_final_of_identity hi hop .connectRejected rfl
  case reauthProving => exact not_final_of_identity hi hop .reauthRejected rfl
  case answerWaiting => exact not_final_of_answer key hinv hprincipal hi hop
  case answerProving => exact not_final_of_identity hi hop (.answered "") rfl
  all_goals cases hmay

/-- A logout is final, whatever is done after it, exactly if it was quiet. -/
theorem cleared_final_iff [Nonempty K] {i : ℕ} (hrun : LabelledRun Next start path s)
    (hclear : s.Next (.acted i .cleared) t) :
    (∀ path' u, LabelledRun Next t path' u → u.Final t.nextId path') ↔ s.Quiet := by
  have hinv : s.Inv := inv_of_run hrun
  obtain ⟨hsession, hnext, ⟨clearing, hclearing, hdone⟩, hops⟩ := hclear.cleared
  constructor
  · intro hfinal j op hop
    by_contra hmay
    have hmay : op.mayStore = true := by simpa using hmay
    have hj : j ≠ i := by
      rintro rfl
      rw [hclearing] at hop
      rw [← Option.some.inj hop, hdone] at hmay
      cases hmay
    have hbefore : j < t.nextId := by
      rw [hnext]
      exact hinv.numbered j op hop
    have hprincipal : t.session.principal = none := by
      rw [hsession]
      rfl
    obtain ⟨path', u, hrun', hnot⟩ := not_final_of_mayStore (Classical.arbitrary K)
      (hinv.step hclear) hprincipal hbefore ((hops j op).mpr ⟨hj, hop⟩) hmay
    exact hnot (hfinal path' u hrun')
  · intro hquiet path' u hrun'
    exact final_of_quiet hquiet hclear hrun'

/-- The app after `unlock_keystore`, when nothing else was done. -/
def unlocked (key : K) : SessionState K :=
  ((start : SessionState K).begin (.unlocking key)).after 0
    ((start.begin (.unlocking key)).putIdentity ⟨key, .keystore⟩ [])

lemma exists_unlocked (key : K) : ∃ path, LabelledRun Next start path (unlocked key) ∧
    (unlocked key).ConnectFree := by
  have hbegun : (start : SessionState K).Next .began (start.begin (.unlocking key)) := by
    refine .begin rfl ?_
    intro hlock
    cases hlock
  have hstored := LabelledRun.start.step hbegun
  refine ⟨_, hstored.step (.act (begin_ops_self _ _) .unlocked), ?_⟩
  intro i op hop
  rcases ops_after hop with ⟨-, hop⟩ | ⟨hi, hop⟩
  · cases hop
  · rcases ops_begin hop with ⟨hi', -⟩ | ⟨-, hop⟩
    · exact absurd hi' hi
    · cases hop

/-- The user logs out while `connect` waits for the server, and is signed in when the answer comes,
though no operation has begun since. -/
theorem cleared_undone : ∃ path path' i, ∃ s t u : SessionState ℕ,
    LabelledRun Next start path s ∧ s.Next (.acted i .cleared) t ∧ LabelledRun Next t path' u ∧
      u.session = ⟨some ⟨7, .keystore⟩, "server", some "token", some (.user "alice")⟩ ∧
      ¬ u.Final t.nextId path' := by
  obtain ⟨path, hunlocked, hfree⟩ := exists_unlocked 7
  let dialing := (unlocked 7).begin (.connectDialing "alice")
  let proving := dialing.after 1 (dialing.takeIdentity (.connectProving "alice" ⟨7, .keystore⟩))
  let leaving := proving.begin .loggingOut
  let left := leaving.after 2 ⟨.default, leaving.phase, leaving.proven, none⟩
  have hdialing : (unlocked 7).Next .began dialing := .begin rfl fun _ => hfree
  have hproving : dialing.Next (.acted 1 .silent) proving := .act rfl (.connectTake rfl)
  have hleaving : proving.Next .began leaving := .begin rfl (by
    intro hlock
    cases hlock)
  have hleft : leaving.Next (.acted 2 .cleared) left := .act rfl .loggedOut
  have hback : left.Next (.acted 1 .storedLogin) _ := .act rfl (.connected "server" "token")
  refine ⟨_, _, 2, leaving, left, _, ((hunlocked.step hdialing).step hproving).step hleaving,
    hleft, LabelledRun.start.step hback, rfl, ?_⟩
  intro hfinal
  obtain ⟨x, hx, hstores⟩ := hfinal.token rfl
  rw [List.mem_singleton.mp hx] at hstores
  have hle : 3 ≤ 1 := hstores
  omega

/-- While nothing else is under way, a logout is final. -/
theorem cleared_final_unlocked :
    ∃ t : SessionState ℕ, ((unlocked 7).begin .loggingOut).Next (.acted 1 .cleared) t ∧
      ((∀ path u, LabelledRun Next t path u → u.Final t.nextId path) ↔
        ((unlocked 7).begin .loggingOut).Quiet) := by
  obtain ⟨path, hunlocked, -⟩ := exists_unlocked 7
  have hleaving : (unlocked 7).Next .began ((unlocked 7).begin .loggingOut) := .begin rfl (by
    intro hlock
    cases hlock)
  have hleft : ((unlocked 7).begin .loggingOut).Next (.acted 1 .cleared) _ := .act rfl .loggedOut
  exact ⟨_, hleft, cleared_final_iff (hunlocked.step hleaving) hleft⟩

end SessionState

/-! ## The principal and its identity -/

/-- The identity is one that the server accepted for the principal, and the recovery key's own if
that is the recovery account.  While nobody is signed in it is the keystore's. -/
def UnlockedIdentity.Fits (proven : List (Principal × UnlockedIdentity K))
    (principal : Option Principal) (identity : UnlockedIdentity K) : Prop :=
  match principal with
  | none => identity.source = .keystore
  | some (.user username) => (.user username, identity) ∈ proven
  | some .recovery => (.recovery, identity) ∈ proven ∧ identity.source = .recoveryKeyBlob

lemma UnlockedIdentity.Fits.mono {proven proven' : List (Principal × UnlockedIdentity K)}
    {principal : Option Principal} {identity : UnlockedIdentity K}
    (h : identity.Fits proven principal) (hsub : proven ⊆ proven') :
    identity.Fits proven' principal := by
  rcases principal with _ | _ | _
  · exact h
  · exact hsub h
  · exact ⟨hsub h.1, h.2⟩

namespace SessionState

/-- The identity in the session belongs to who is signed in. -/
def PrincipalFits (s : SessionState K) : Prop :=
  ∀ identity, s.session.identity = some identity →
    identity.Fits s.proven s.session.principal

/-- Every identity that an operation has in hand is such. -/
def InHand (p : UnlockedIdentity K → Prop) (s : SessionState K) : Prop :=
  ∀ i op identity, s.ops i = some op → op.inHand = some identity → p identity

/-- A keystore is unlocked while nobody is signed in, or with the identity that is signed in.  The
session is cleared while no identity but a keystore's is in hand, and the recovery account signs in
while none is but its own. -/
def Orderly (s : SessionState K) : SessionLabel → Prop
  | .acted i .storedIdentity => ∀ key, s.ops i = some (.unlocking key) →
      UnlockedIdentity.Fits s.proven s.session.principal ⟨key, .keystore⟩
  | .acted _ .cleared => s.InHand fun identity => identity.source = .keystore
  | .acted i .storedLogin => ∀ challenged, s.ops i = some (.answerProving challenged) →
      s.InHand fun identity =>
        identity.Fits ((.recovery, challenged.identity) :: s.proven) (some .recovery)
  | _ => True

/-- What orderly steps keep: the identities in hand fit too. -/
structure FitInv (s : SessionState K) : Prop where
  inv : s.Inv
  session : s.PrincipalFits
  inHand : s.InHand fun identity => identity.Fits s.proven s.session.principal

variable {s t u : SessionState K} {label : SessionLabel}
  {path : List (SessionState K × SessionLabel)}

lemma fitInv_start : (start : SessionState K).FitInv := by
  refine ⟨inv_start, ?_, ?_⟩
  · intro identity h
    cases h
  · intro i op identity h
    cases h

lemma inHand_after {i : ℕ} {e : SessionEffect K} {p : UnlockedIdentity K → Prop}
    (hothers : ∀ j op identity, j ≠ i → s.ops j = some op → op.inHand = some identity → p identity)
    (hself : ∀ op identity, e.rest = some op → op.inHand = some identity → p identity) :
    (s.after i e).InHand p := by
  intro j op identity hop hhand
  rcases ops_after hop with ⟨-, hrest⟩ | ⟨hj, hold⟩
  · exact hself op identity hrest hhand
  · exact hothers j op identity hj hold hhand

lemma FitInv.step (h : s.FitInv) (hok : s.Orderly label) (hnext : s.Next label t) : t.FitInv := by
  have hinv : t.Inv := h.inv.step hnext
  cases hnext with
  | @begin op hbegins _ =>
    refine ⟨hinv, h.session, ?_⟩
    intro j op' identity hop' hhand
    rcases ops_begin hop' with ⟨-, rfl⟩ | ⟨-, hold⟩
    · cases op' <;> cases hhand <;> cases hbegins
    · exact h.inHand j op' identity hold hhand
  | @act i op act e hop hact =>
    -- what is in the hands of the others fits as long as the principal stays who it is
    have hothers : ∀ j op identity, j ≠ i → s.ops j = some op → op.inHand = some identity →
        identity.Fits s.proven s.session.principal := by
      intro j op' identity _ hop' hhand
      exact h.inHand j op' identity hop' hhand
    have hnone : ∀ {rest : Option (SessionOp K)} {p : UnlockedIdentity K → Prop}, rest = none →
        ∀ op' identity, rest = some op' → op'.inHand = some identity → p identity := by
      rintro rest p rfl op' identity hop'
      cases hop'
    cases hact with
    | unlocked =>
      refine ⟨hinv, ?_, inHand_after hothers (hnone rfl)⟩
      rintro identity hidentity
      obtain rfl := Option.some.inj hidentity
      exact hok _ hop
    | connectTake hidentity =>
      refine ⟨hinv, ?_, inHand_after hothers ?_⟩
      · intro identity hnone
        cases hnone
      · rintro op' identity hrest hhand
        obtain rfl := Option.some.inj hrest
        obtain rfl := Option.some.inj hhand
        exact h.session _ hidentity
    | reauthTake hidentity =>
      refine ⟨hinv, ?_, inHand_after hothers ?_⟩
      · intro identity hnone
        cases hnone
      · rintro op' identity hrest hhand
        obtain rfl := Option.some.inj hrest
        obtain rfl := Option.some.inj hhand
        exact h.session _ hidentity
    | connected serverId token =>
      refine ⟨hinv, ?_, inHand_after ?_ (hnone rfl)⟩
      · rintro identity hidentity
        obtain rfl := Option.some.inj hidentity
        exact List.mem_cons_self
      · intro j op' identity hj hop' hhand
        refine absurd (h.inv.connectLock j i op' _ hop' hop ?_ rfl) hj
        cases op' <;> first | rfl | cases hhand
    | connectRejected =>
      refine ⟨hinv, ?_, inHand_after hothers (hnone rfl)⟩
      rintro identity hidentity
      obtain rfl := Option.some.inj hidentity
      exact h.inHand i _ _ hop rfl
    | reauthAccepted =>
      refine ⟨hinv, ?_, inHand_after ?_ (hnone rfl)⟩
      · rintro identity hidentity
        obtain rfl := Option.some.inj hidentity
        exact (h.inHand i _ _ hop rfl).mono (List.subset_cons_self _ _)
      · intro j op' identity hj hop' hhand
        exact (hothers j op' identity hj hop' hhand).mono (List.subset_cons_self _ _)
    | reauthRejected =>
      refine ⟨hinv, ?_, inHand_after hothers (hnone rfl)⟩
      rintro identity hidentity
      obtain rfl := Option.some.inj hidentity
      exact h.inHand i _ _ hop rfl
    | answered token =>
      refine ⟨hinv, ?_, inHand_after ?_ ?_⟩
      · rintro identity hidentity
        obtain rfl := Option.some.inj hidentity
        exact ⟨List.mem_cons_self, rfl⟩
      · intro j op' identity _ hop' hhand
        exact hok _ hop j op' identity hop' hhand
      · rintro op' identity hrest hhand
        obtain rfl := Option.some.inj hrest
        cases hhand
    | loggedOut =>
      refine ⟨hinv, ?_, inHand_after ?_ (hnone rfl)⟩
      · intro identity hidentity
        cases hidentity
      · intro j op' identity _ hop' hhand
        exact hok j op' identity hop' hhand
    | ended =>
      refine ⟨hinv, ?_, inHand_after ?_ (hnone rfl)⟩
      · intro identity hidentity
        cases hidentity
      · intro j op' identity _ hop' hhand
        exact hok j op' identity hop' hhand
    | _ =>
      refine ⟨hinv, h.session, inHand_after hothers ?_⟩
      rintro op' identity hrest hhand
      cases hrest <;> cases hhand

lemma fitInv_of_run (hrun : LabelledRun Next start path s) (hok : ∀ x ∈ path, x.1.Orderly x.2) :
    s.FitInv :=
  hrun.invariant_of_steps fitInv_start (fun _ _ _ hinv hok hnext => hinv.step hok hnext) hok

lemma exists_putBack {i : ℕ} {op : SessionOp K} {identity : UnlockedIdentity K}
    (hop : s.ops i = some op) (hhand : op.inHand = some identity) :
    ∃ act, s.Next (.acted i act) (s.after i (s.putIdentity identity s.proven)) ∧
      s.Orderly (.acted i act) := by
  cases op
  case connectProving username own =>
    obtain rfl := Option.some.inj hhand
    refine ⟨_, .act hop .connectRejected, ?_⟩
    intro key hunlocking
    rw [hop] at hunlocking
    cases hunlocking
  case reauthProving principal own =>
    obtain rfl := Option.some.inj hhand
    exact ⟨_, .act hop .reauthRejected, trivial⟩
  all_goals cases hhand

lemma inHand_fits (h : ∀ path' u, LabelledRun Next t path' u →
    (∀ x ∈ path', x.1.Orderly x.2) → u.PrincipalFits) :
    t.InHand fun identity => identity.Fits t.proven t.session.principal := by
  intro i op identity hop hhand
  obtain ⟨act, hnext, horderly⟩ := exists_putBack hop hhand
  have hfits := h _ _ (LabelledRun.start.step hnext) (by
    intro x hx
    rw [List.mem_singleton.mp hx]
    exact horderly)
  exact hfits identity rfl

/-- As long as the steps are orderly, the identity belongs to the principal, and a step that is not
lets them come apart. -/
theorem principalFits_iff (hrun : LabelledRun Next start path s)
    (hok : ∀ x ∈ path, x.1.Orderly x.2) (hnext : s.Next label t) :
    s.PrincipalFits ∧ (s.Orderly label ↔ ∀ path' u, LabelledRun Next t path' u →
      (∀ x ∈ path', x.1.Orderly x.2) → u.PrincipalFits) := by
  have hinv : s.FitInv := fitInv_of_run hrun hok
  refine ⟨hinv.session, ?_, ?_⟩
  · intro horderly path' u hrun' hok'
    have hall : u.FitInv := hrun'.invariant_of_steps (hinv.step horderly hnext)
      (fun _ _ _ hinv hok hnext => hinv.step hok hnext) hok'
    exact hall.session
  · intro hfits
    have hstart : t.PrincipalFits := hfits [] t .start (by simp)
    have hhand := inHand_fits hfits
    cases hnext with
    | begin => trivial
    | @act i op act e hop hact =>
      have hstays : ∀ j op' identity, s.ops j = some op' → op'.inHand = some identity →
          op.inHand = none → (s.after i e).ops j = some op' := by
        intro j op' identity hop' hhand' hnot
        have hj : j ≠ i := by
          rintro rfl
          rw [hop] at hop'
          rw [← Option.some.inj hop', hnot] at hhand'
          cases hhand'
        rw [after_ops_of_ne s e hj, hop']
      cases hact with
      | unlocked =>
        intro key hunlocking
        rw [hop] at hunlocking
        cases hunlocking
        exact hstart _ rfl
      | connectRejected =>
        intro key hunlocking
        rw [hop] at hunlocking
        cases hunlocking
      | connected =>
        intro challenged hproving
        rw [hop] at hproving
        cases hproving
      | answered token =>
        intro challenged hproving j op' identity hop' hhand'
        rw [hop] at hproving
        cases hproving
        exact hhand j op' identity (hstays j op' identity hop' hhand' rfl) hhand'
      | loggedOut =>
        intro j op' identity hop' hhand'
        exact hhand j op' identity (hstays j op' identity hop' hhand' rfl) hhand'
      | ended =>
        intro j op' identity hop' hhand'
        exact hhand j op' identity (hstays j op' identity hop' hhand' rfl) hhand'
      | _ => trivial

/-- The operator signs in with the recovery key and then unlocks the keystore of this device: the
session is the recovery account's, and the identity is not. -/
theorem principal_parted : ∃ path, ∃ s : SessionState ℕ, LabelledRun Next start path s ∧
    s.session = ⟨some ⟨7, .keystore⟩, "server", some "token", some .recovery⟩ ∧
      ¬ s.PrincipalFits := by
  let requesting := (start : SessionState ℕ).begin (.requesting 9)
  let parked := requesting.after 0
    ⟨requesting.session, .challenged ⟨9, "server"⟩, requesting.proven, none⟩
  let answering := parked.begin .answerWaiting
  let proving := answering.after 1
    ⟨answering.session, .idle, answering.proven, some (.answerProving ⟨9, "server"⟩)⟩
  let signedIn := proving.after 1
    ⟨⟨some ⟨9, .recoveryKeyBlob⟩, "server", some "token", some .recovery⟩, proving.phase,
      (.recovery, ⟨9, .recoveryKeyBlob⟩) :: proving.proven, some (.answerStored "token")⟩
  let unlocking := signedIn.begin (.unlocking 7)
  have hrequesting : (start : SessionState ℕ).Next .began requesting := by
    refine .begin rfl fun _ i op hop => ?_
    cases hop
  have hrequestingFree : requesting.PhaseFree := by
    intro i op hop
    rcases ops_begin hop with ⟨-, rfl⟩ | ⟨-, hold⟩
    · rfl
    · cases hold
  have hparked : requesting.Next (.acted 0 .silent) parked :=
    .act rfl (.requestParked "server" hrequestingFree)
  have hanswering : parked.Next .began answering := .begin rfl (by
    intro hlock
    cases hlock)
  have hansweringFree : answering.PhaseFree := by
    intro i op hop
    rcases ops_begin hop with ⟨-, rfl⟩ | ⟨-, hold⟩
    · rfl
    · rcases ops_after hold with ⟨-, hrest⟩ | ⟨-, hold⟩
      · cases hrest
      · exact hrequestingFree i op hold
  have hproving : answering.Next (.acted 1 .silent) proving :=
    .act rfl (.answerTake hansweringFree rfl)
  have hanswered : proving.Next (.acted 1 .storedLogin) signedIn := .act rfl (.answered "token")
  have hunlocking : signedIn.Next .began unlocking := .begin rfl (by
    intro hlock
    cases hlock)
  have hunlocked : unlocking.Next (.acted 2 .storedIdentity) _ := .act rfl .unlocked
  refine ⟨_, _, (((((((LabelledRun.start.step hrequesting).step hparked).step hanswering).step
    hproving).step hanswered).step hunlocking).step hunlocked), rfl, ?_⟩
  intro hfits
  have hfit := hfits _ rfl
  exact absurd hfit.2 (by simp)

/-- A keystore that is unlocked while nobody is signed in. -/
theorem principalFits_unlocking :
    ∃ t : SessionState ℕ, (start.begin (.unlocking 7)).Next (.acted 0 .storedIdentity) t ∧
      PrincipalFits (start.begin (.unlocking 7) : SessionState ℕ) ∧
      ((start.begin (.unlocking 7)).Orderly (.acted 0 .storedIdentity) ↔
        ∀ path u, LabelledRun Next t path u → (∀ x ∈ path, x.1.Orderly x.2) →
          u.PrincipalFits) := by
  have hbegun : (start : SessionState ℕ).Next .began (start.begin (.unlocking 7)) := by
    refine .begin rfl ?_
    intro hlock
    cases hlock
  have hstored : (start.begin (.unlocking 7) : SessionState ℕ).Next (.acted 0 .storedIdentity) _ :=
    .act rfl .unlocked
  refine ⟨_, hstored, principalFits_iff (LabelledRun.start.step hbegun) ?_ hstored⟩
  intro x hx
  rw [List.mem_singleton.mp hx]
  trivial

end SessionState

end MaxSecu
