import MaxSecu.App.Pool

/-!
# The session of the app

`Session` holds the unlocked identity, the token and the principal behind one lock.  A command looks
at it or changes it for a moment, and waits for the network in between.  `connect` and `reauth` take
the identity out while they prove it to the server and put it back afterwards; what keeps two of
them apart is `ConnectLock`.  A recovery login has its own state, behind a lock of its own, in which
the key and the challenge wait for the answer.

Here such a command is an operation under way.  `SessionOp.Acts` says what it does from one wait to
the next, and `SessionState.Next` lets any number of operations begin and take turns.
-/

namespace MaxSecu

/-- Where an identity was read. -/
inductive KeySource
  | keystore
  | recoveryKeyBlob
  deriving DecidableEq

structure UnlockedIdentity (K : Type) where
  key : K
  source : KeySource
  deriving DecidableEq

structure SessionInner (K : Type) where
  identity : Option (UnlockedIdentity K)
  serverId : String
  token : Option String
  principal : Option Principal

/-- A challenge that waits for its answer, with the unlocked recovery key. -/
structure Challenged (K : Type) where
  key : K
  serverId : String

def Challenged.identity {K : Type} (challenged : Challenged K) : UnlockedIdentity K :=
  ⟨challenged.key, .recoveryKeyBlob⟩

inductive RecoveryPhase (K : Type)
  | idle
  | challenged (challenged : Challenged K)
  | authenticated (token : String)

/-- An operation under way, and how far it has come. -/
inductive SessionOp (K : Type)
  /-- `unlock_keystore` has the key, and waits for the session. -/
  | unlocking (key : K)
  | connectDialing (username : String)
  | connectProving (username : String) (identity : UnlockedIdentity K)
  | reauthWaiting
  | reauthLocked
  | reauthDialing (principal : Principal)
  | reauthProving (principal : Principal) (identity : UnlockedIdentity K)
  /-- `request_recovery_challenge` has the recovery key. -/
  | requesting (key : K)
  | answerWaiting
  | answerProving (challenged : Challenged K)
  | answerStored (token : String)
  | loggingOut
  | endWaiting
  | endChecked
  /-- `end_recovery_session` has emptied the recovery state, and tells the server. -/
  | endTelling

/-- What an operation does to the session. -/
inductive SessionAct
  | silent
  | storedIdentity
  | storedLogin
  | putBack
  | cleared
  deriving DecidableEq

/-- A step: an operation begins, or one that is under way goes on. -/
inductive SessionLabel
  | began
  | acted (id : ℕ) (act : SessionAct)
  deriving DecidableEq

/-- The session, the recovery state and the operations under way.  `proven` are the identities that
the server has accepted, each with the principal it accepted them for. -/
structure SessionState (K : Type) where
  session : SessionInner K
  phase : RecoveryPhase K
  ops : ℕ → Option (SessionOp K)
  nextId : ℕ
  proven : List (Principal × UnlockedIdentity K)

/-- What an operation leaves when it goes on: the rest of it, if it is not over. -/
structure SessionEffect (K : Type) where
  session : SessionInner K
  phase : RecoveryPhase K
  proven : List (Principal × UnlockedIdentity K)
  rest : Option (SessionOp K)

variable {K : Type}

def SessionInner.default : SessionInner K := ⟨none, "", none, none⟩

def SessionInner.isRecovery (s : SessionInner K) : Bool := s.principal = some .recovery

def SessionState.start : SessionState K := ⟨.default, .idle, fun _ => none, 0, []⟩

namespace SessionOp

/-- The identity that the operation has taken out of the session. -/
def inHand : SessionOp K → Option (UnlockedIdentity K)
  | .connectProving _ identity => some identity
  | .reauthProving _ identity => some identity
  | _ => none

def holdsConnectLock : SessionOp K → Bool
  | .connectDialing _ => true
  | .connectProving _ _ => true
  | .reauthLocked => true
  | .reauthDialing _ => true
  | .reauthProving _ _ => true
  | .requesting _ => true
  | _ => false

def holdsPhase : SessionOp K → Bool
  | .answerProving _ => true
  | .answerStored _ => true
  | _ => false

/-- How an operation begins.  One that is refused at once, or cannot unseal its key, changes
nothing. -/
def begins : SessionOp K → Bool
  | .unlocking _ => true
  | .connectDialing _ => true
  | .reauthWaiting => true
  | .requesting _ => true
  | .answerWaiting => true
  | .loggingOut => true
  | .endWaiting => true
  | _ => false

end SessionOp

/-- Nobody holds `ConnectLock`. -/
def SessionState.ConnectFree (s : SessionState K) : Prop :=
  ∀ i op, s.ops i = some op → op.holdsConnectLock = false

/-- Nobody holds the recovery state. -/
def SessionState.PhaseFree (s : SessionState K) : Prop :=
  ∀ i op, s.ops i = some op → op.holdsPhase = false

/-- The operation goes on without touching anything but itself. -/
def SessionState.goOn (s : SessionState K) (rest : Option (SessionOp K)) : SessionEffect K :=
  ⟨s.session, s.phase, s.proven, rest⟩

def SessionState.takeIdentity (s : SessionState K) (rest : SessionOp K) : SessionEffect K :=
  ⟨{ s.session with identity := none }, s.phase, s.proven, some rest⟩

def SessionState.putIdentity (s : SessionState K) (identity : UnlockedIdentity K)
    (proven : List (Principal × UnlockedIdentity K)) : SessionEffect K :=
  ⟨{ s.session with identity := some identity }, s.phase, proven, none⟩

/-- What an operation does until it waits again. -/
inductive SessionOp.Acts (s : SessionState K) : SessionOp K → SessionAct → SessionEffect K → Prop
  | unlocked {key : K} :
      Acts s (.unlocking key) .storedIdentity (s.putIdentity ⟨key, .keystore⟩ s.proven)
  | connectUnreachable {username : String} : Acts s (.connectDialing username) .silent (s.goOn none)
  | connectLocked {username : String} :
      s.session.identity = none → Acts s (.connectDialing username) .silent (s.goOn none)
  | connectTake {username : String} {identity : UnlockedIdentity K} :
      s.session.identity = some identity →
      Acts s (.connectDialing username) .silent
        (s.takeIdentity (.connectProving username identity))
  | connected {username : String} {identity : UnlockedIdentity K} (serverId token : String) :
      Acts s (.connectProving username identity) .storedLogin
        ⟨⟨some identity, serverId, some token, some (.user username)⟩, s.phase,
          (.user username, identity) :: s.proven, none⟩
  | connectRejected {username : String} {identity : UnlockedIdentity K} :
      Acts s (.connectProving username identity) .storedIdentity (s.putIdentity identity s.proven)
  | reauthBusy : Acts s .reauthWaiting .silent (s.goOn none)
  | reauthLock : s.ConnectFree → Acts s .reauthWaiting .silent (s.goOn (some .reauthLocked))
  | reauthSignedOut :
      s.session.principal = none → Acts s .reauthLocked .silent (s.goOn none)
  | reauthRead {principal : Principal} :
      s.session.principal = some principal →
      Acts s .reauthLocked .silent (s.goOn (some (.reauthDialing principal)))
  | reauthUnreachable {principal : Principal} :
      Acts s (.reauthDialing principal) .silent (s.goOn none)
  | reauthNoIdentity {principal : Principal} :
      s.session.identity = none → Acts s (.reauthDialing principal) .silent (s.goOn none)
  | reauthTake {principal : Principal} {identity : UnlockedIdentity K} :
      s.session.identity = some identity →
      Acts s (.reauthDialing principal) .silent
        (s.takeIdentity (.reauthProving principal identity))
  | reauthAccepted {principal : Principal} {identity : UnlockedIdentity K} :
      Acts s (.reauthProving principal identity) .putBack
        (s.putIdentity identity ((principal, identity) :: s.proven))
  | reauthRejected {principal : Principal} {identity : UnlockedIdentity K} :
      Acts s (.reauthProving principal identity) .putBack (s.putIdentity identity s.proven)
  | requestFailed {key : K} : Acts s (.requesting key) .silent (s.goOn none)
  | requestParked {key : K} (serverId : String) :
      s.PhaseFree →
      Acts s (.requesting key) .silent
        ⟨s.session, .challenged ⟨key, serverId⟩, s.proven, none⟩
  | answerTake {challenged : Challenged K} :
      s.PhaseFree → s.phase = .challenged challenged →
      Acts s .answerWaiting .silent ⟨s.session, .idle, s.proven, some (.answerProving challenged)⟩
  | answerRefused :
      s.PhaseFree → (∀ challenged, s.phase ≠ .challenged challenged) →
      Acts s .answerWaiting .silent (s.goOn none)
  | answerRejected {challenged : Challenged K} :
      Acts s (.answerProving challenged) .silent (s.goOn none)
  | answered {challenged : Challenged K} (token : String) :
      Acts s (.answerProving challenged) .storedLogin
        ⟨⟨some challenged.identity, challenged.serverId, some token, some .recovery⟩, s.phase,
          (.recovery, challenged.identity) :: s.proven, some (.answerStored token)⟩
  | answerDone {token : String} :
      Acts s (.answerStored token) .silent ⟨s.session, .authenticated token, s.proven, none⟩
  | loggedOut : Acts s .loggingOut .cleared ⟨.default, s.phase, s.proven, none⟩
  | endRefused :
      s.session.isRecovery = false → Acts s .endWaiting .silent (s.goOn none)
  | endCheck :
      s.session.isRecovery = true → Acts s .endWaiting .silent (s.goOn (some .endChecked))
  | endTake :
      s.PhaseFree →
      Acts s .endChecked .silent ⟨s.session, .idle, s.proven, some .endTelling⟩
  | ended : Acts s .endTelling .cleared ⟨.default, s.phase, s.proven, none⟩

namespace SessionState

/-- The state when operation `id` goes on to `e`. -/
def after (s : SessionState K) (id : ℕ) (e : SessionEffect K) : SessionState K :=
  ⟨e.session, e.phase, Function.update s.ops id e.rest, s.nextId, e.proven⟩

def begin (s : SessionState K) (op : SessionOp K) : SessionState K :=
  ⟨s.session, s.phase, Function.update s.ops s.nextId (some op), s.nextId + 1, s.proven⟩

/-- One step: some operation begins, or goes on until it waits again. -/
inductive Next (s : SessionState K) : SessionLabel → SessionState K → Prop
  | begin {op : SessionOp K} :
      op.begins = true → (op.holdsConnectLock = true → s.ConnectFree) →
      Next s .began (s.begin op)
  | act {id : ℕ} {op : SessionOp K} {act : SessionAct} {e : SessionEffect K} :
      s.ops id = some op → op.Acts s act e → Next s (.acted id act) (s.after id e)

@[simp] lemma after_session (s : SessionState K) (id : ℕ) (e : SessionEffect K) :
    (s.after id e).session = e.session := rfl

@[simp] lemma after_nextId (s : SessionState K) (id : ℕ) (e : SessionEffect K) :
    (s.after id e).nextId = s.nextId := rfl

@[simp] lemma after_ops_self (s : SessionState K) (id : ℕ) (e : SessionEffect K) :
    (s.after id e).ops id = e.rest := by
  unfold after
  exact Function.update_self id e.rest s.ops

lemma after_ops_of_ne (s : SessionState K) {id i : ℕ} (e : SessionEffect K) (h : i ≠ id) :
    (s.after id e).ops i = s.ops i := by
  unfold after
  exact Function.update_of_ne h e.rest s.ops

@[simp] lemma begin_nextId (s : SessionState K) (op : SessionOp K) :
    (s.begin op).nextId = s.nextId + 1 := rfl

@[simp] lemma begin_ops_self (s : SessionState K) (op : SessionOp K) :
    (s.begin op).ops s.nextId = some op := by
  unfold begin
  exact Function.update_self s.nextId (some op) s.ops

lemma begin_ops_of_ne (s : SessionState K) {i : ℕ} (op : SessionOp K) (h : i ≠ s.nextId) :
    (s.begin op).ops i = s.ops i := by
  unfold begin
  exact Function.update_of_ne h (some op) s.ops

lemma ops_after {s : SessionState K} {id i : ℕ} {e : SessionEffect K} {op : SessionOp K}
    (h : (s.after id e).ops i = some op) :
    i = id ∧ e.rest = some op ∨ i ≠ id ∧ s.ops i = some op := by
  by_cases hi : i = id
  · subst hi
    rw [after_ops_self] at h
    exact .inl ⟨rfl, h⟩
  · rw [after_ops_of_ne s e hi] at h
    exact .inr ⟨hi, h⟩

lemma ops_begin {s : SessionState K} {i : ℕ} {new op : SessionOp K}
    (h : (s.begin new).ops i = some op) :
    i = s.nextId ∧ op = new ∨ i ≠ s.nextId ∧ s.ops i = some op := by
  by_cases hi : i = s.nextId
  · subst hi
    rw [begin_ops_self] at h
    exact .inl ⟨rfl, (Option.some.inj h).symm⟩
  · rw [begin_ops_of_ne s new hi] at h
    exact .inr ⟨hi, h⟩

end SessionState

end MaxSecu
