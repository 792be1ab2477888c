import MaxSecu.Client.Directory
import MaxSecu.Client.Upload

/-!
# Directory lookups of the app

The app asks the server for a binding by user id or by username, and verifies what it gets under the
pinned directory key.  The server may answer anything.  A lookup looks at the signature, the memory
and the validity window of the binding; it compares neither the id nor the name that was asked for
with the ones in the binding.
-/

namespace MaxSecu

open ExceptRules

/-- What crosses to the user interface. -/
structure UiError where
  code : String
  message : String
  deriving DecidableEq

/-- How the server answers a request for a value of type `α`. -/
inductive Answer (α : Type)
  | unreachable (e : UiError)
  /-- A status other than 200. -/
  | refused
  /-- The body, if a value can be read from it. -/
  | answered (body : Option α)

/-- The body of an answer, with the errors of a status other than 200 and of a body that cannot be
read. -/
def Answer.body {α : Type} (answer : Answer α) (refused malformed : UiError) : Except UiError α :=
  match answer with
  | .unreachable e => .error e
  | .refused => .error refused
  | .answered body => body.elim (.error malformed) .ok

lemma Answer.body_eq_ok {α : Type} {answer : Answer α} {refused malformed : UiError} {a : α} :
    answer.body refused malformed = .ok a ↔ answer = .answered (some a) := by
  cases answer with
  | unreachable e => simp [body]
  | refused => simp [body]
  | answered body =>
    cases body with
    | none => simp [Answer.body]
    | some b => simp [Answer.body]

/-- What is asked for in the directory: the bytes of a binding, and their signature. -/
abbrev Lookup := Answer (List UInt8 × Bytes 64)

/-- A directory-verified user: the keys that the header checks and the wraps need. -/
structure VerifiedAuthor where
  userId : Id
  sigPub : Bytes 32
  encPub : Bytes 32
  fingerprint : Bytes 32
  keyVersion : UInt64
  mlkemPub : Option MlKemPub
  deriving DecidableEq

inductive Recipient
  | user (id : Id)
  | recovery
  deriving DecidableEq

namespace Recipient

def id : Recipient → Id
  | .user id => id
  | .recovery => RECOVERY_ID

def kind : Recipient → RecipientType
  | .user _ => .user
  | .recovery => .recovery

end Recipient

/-- The context of every open path.  The author is the owner, nobody else is a granter, and neither
a version seen before, nor tombstones, nor a compromise is given. -/
def buildVerifyCtx (fileId : Id) (author : VerifiedAuthor) (me : Recipient) (identity : Identity) :
    VerifyContext where
  fileId := fileId
  authorSigPub := author.sigPub
  ownerSigPub := author.sigPub
  recipientId := me.id
  recipientType := me.kind
  recipientSecret := identity.encSk
  recipientMlkemSeed := identity.mlkemSeed
  seenMaxVersion := none
  granterSigPub _ := none
  adminSigPub _ := none
  tombstones := none
  compromise := none

def malformedRecord : UiError := ⟨"untrusted", "Malformed directory record."⟩

section Resolve

variable [UnicodeNormalization] [Sha256] [Ed25519]

def VerifiedBinding.author (v : VerifiedBinding) : VerifiedAuthor :=
  ⟨v.userId, v.sigPub.bytes, v.encPub.bytes, v.fingerprint, v.keyVersion, v.mlkemPub⟩

def verifyAuthorBinding (verifier : DirectoryVerifier) (bindingBytes : List UInt8)
    (signature : Bytes 64) (nowMs : UInt64) :
    ExceptT UiError (StateM TrustStore) VerifiedAuthor := do
  let binding ← liftM ((decode DirBinding bindingBytes).mapError fun _ => malformedRecord)
  let v ← ExceptT.adapt
    (fun _ => ⟨"untrusted", "The author's identity could not be verified."⟩)
    (verifier.verifyBinding binding signature nowMs)
  pure v.author

def resolveBinding (verifier : DirectoryVerifier) (lookup : Lookup) (refused : UiError)
    (nowMs : UInt64) : ExceptT UiError (StateM TrustStore) (VerifiedAuthor × List UInt8) := do
  let (bytes, sig) ← liftM (lookup.body refused malformedRecord)
  let author ← verifyAuthorBinding verifier bytes sig nowMs
  pure (author, bytes)

/-- The author with the id that was asked for, and the bytes of the binding. -/
def resolveAndVerifyAuthorLogged (verifier : DirectoryVerifier) (lookup : Lookup) (nowMs : UInt64) :
    ExceptT UiError (StateM TrustStore) (VerifiedAuthor × List UInt8) :=
  resolveBinding verifier lookup ⟨"untrusted", "The author's identity is not published."⟩ nowMs

def resolveAndVerifyAuthor (verifier : DirectoryVerifier) (lookup : Lookup) (nowMs : UInt64) :
    ExceptT UiError (StateM TrustStore) VerifiedAuthor :=
  Prod.fst <$> resolveAndVerifyAuthorLogged verifier lookup nowMs

/-- My own binding, by my username. -/
def resolveMyBinding (verifier : DirectoryVerifier) (lookup : Lookup) (nowMs : UInt64) :
    ExceptT UiError (StateM TrustStore) VerifiedAuthor :=
  Prod.fst <$> resolveBinding verifier lookup
    ⟨"pending", "Your account is not yet approved."⟩ nowMs

def resolveMyUserId (verifier : DirectoryVerifier) (lookup : Lookup) (nowMs : UInt64) :
    ExceptT UiError (StateM TrustStore) Id :=
  VerifiedAuthor.userId <$> resolveMyBinding verifier lookup nowMs

/-- A recipient, by the username that was entered. -/
def resolveRecipient (verifier : DirectoryVerifier) (lookup : Lookup) (nowMs : UInt64) :
    ExceptT UiError (StateM TrustStore) VerifiedAuthor := do
  let (author, _) ← resolveBinding verifier lookup
    ⟨"untrusted", "This username is not published."⟩ nowMs
  if author.userId = RECOVERY_ID then
    throw ⟨"untrusted", "This username cannot be used as a share recipient."⟩
  else
    pure author

/-! ## What a lookup established -/

/-- The directory key signed the binding. -/
def DirectoryVerifier.Signed (verifier : DirectoryVerifier) (binding : DirBinding) : Prop :=
  ∃ signature, verifier.checkSignature binding signature = .ok ()

omit [Sha256] in
lemma checkSignature_eq_ok {verifier : DirectoryVerifier} {binding : DirBinding}
    {signature : Bytes 64} :
    verifier.checkSignature binding signature = .ok () ↔
      Ed25519.validKey verifier.dirPub = true ∧ Ed25519.verifyStrict verifier.dirPub
        (signingMessage Label.dirbinding.text binding) signature = true := by
  unfold DirectoryVerifier.checkSignature
  rw [mapError_eq_ok, VerifyingKey.verifyCanonical_eq_ok]

def Lookup.Serves (lookup : Lookup) (binding : DirBinding) : Prop :=
  ∃ bytes signature, lookup = .answered (some (bytes, signature)) ∧
    decode DirBinding bytes = .ok binding

/-- The directory key gives one user id to a person: no two bindings share a signing key and differ
in the id. -/
def DirectoryVerifier.OneUserPerKey (verifier : DirectoryVerifier) : Prop :=
  ∀ b b', verifier.Signed b → verifier.Signed b' → b.sigPub = b'.sigPub → b.userId = b'.userId

def DirBinding.author (binding : DirBinding) : VerifiedAuthor :=
  (verified binding binding.trustRecord.fingerprint).author

variable {verifier : DirectoryVerifier} {lookup : Lookup} {nowMs : UInt64}
  {trust trust' : TrustStore} {author : VerifiedAuthor}

omit [Sha256] [Ed25519] in
lemma Lookup.Serves.unique {binding binding' : DirBinding}
    (h : lookup.Serves binding) (h' : lookup.Serves binding') : binding = binding' := by
  obtain ⟨bytes, signature, rfl, hdecode⟩ := h
  obtain ⟨bytes', signature', heq, hdecode'⟩ := h'
  cases heq
  exact Except.ok.inj (hdecode.symm.trans hdecode')

/-- The answer is this binding, which passes the checks and does not contradict the memory. -/
structure Lookup.Yields (lookup : Lookup) (verifier : DirectoryVerifier) (nowMs : UInt64)
    (trust : TrustStore) (bytes : List UInt8) (binding : DirBinding) : Prop where
  answered : ∃ sig, lookup = .answered (some (bytes, sig)) ∧ verifier.Passes binding sig nowMs
  decodes : decode DirBinding bytes = .ok binding
  known : trust binding.userId = none ∨ trust binding.userId = some binding.trustRecord

lemma Lookup.Yields.serves {bytes : List UInt8} {binding : DirBinding}
    (h : lookup.Yields verifier nowMs trust bytes binding) : lookup.Serves binding := by
  obtain ⟨sig, hanswer, -⟩ := h.answered
  exact ⟨bytes, sig, hanswer, h.decodes⟩

lemma Lookup.Yields.signed {bytes : List UInt8} {binding : DirBinding}
    (h : lookup.Yields verifier nowMs trust bytes binding) : verifier.Signed binding := by
  obtain ⟨sig, -, hpasses⟩ := h.answered
  exact ⟨sig, hpasses.1⟩

/-- The memory after a binding was accepted. -/
def TrustStore.remember (trust : TrustStore) (binding : DirBinding) : TrustStore :=
  Function.update trust binding.userId (some binding.trustRecord)

/-- A lookup succeeds with the keys of the binding that the answer yields, and remembers it. -/
lemma resolveBinding_eq_ok {refused : UiError} {bytes : List UInt8} :
    runFrom (resolveBinding verifier lookup refused nowMs) trust = (.ok (author, bytes), trust') ↔
      ∃ binding, lookup.Yields verifier nowMs trust bytes binding ∧ author = binding.author ∧
        trust' = trust.remember binding := by
  unfold resolveBinding verifyAuthorBinding
  simp only [runFrom_bind_eq, runFrom_liftM, runFrom_pure, Prod.mk.injEq, reduceCtorEq, false_and,
    and_false, exists_false, false_or, Prod.exists, Except.ok.injEq, mapError_eq_ok,
    runFrom_adapt_eq_ok, Answer.body_eq_ok]
  constructor
  · rintro ⟨bytes', sig, _, ⟨hanswer, rfl⟩, author', _, ⟨binding, _, ⟨hdecode, rfl⟩, v, _, hv,
      rfl, rfl⟩, ⟨rfl, rfl⟩, rfl⟩
    rcases verifyBinding_cases hv with ⟨e, he, -⟩ | ⟨hok, hpasses, hknown, htrust⟩
    · cases he
    · obtain rfl := Except.ok.inj hok
      exact ⟨binding, ⟨⟨sig, hanswer, hpasses⟩, hdecode, hknown⟩, rfl, htrust⟩
  · rintro ⟨binding, ⟨⟨sig, hanswer, hpasses⟩, hdecode, hknown⟩, rfl, rfl⟩
    have hverify := verifyBinding_of_passes hpasses hknown
    exact ⟨bytes, sig, trust, ⟨hanswer, rfl⟩, _, _, ⟨binding, trust, ⟨hdecode, rfl⟩, _, _, hverify,
      rfl, rfl⟩, ⟨rfl, rfl⟩, rfl⟩

lemma resolveRecipient_eq_ok :
    runFrom (resolveRecipient verifier lookup nowMs) trust = (.ok author, trust') ↔
      ∃ bytes binding, lookup.Yields verifier nowMs trust bytes binding ∧
        binding.userId ≠ RECOVERY_ID ∧ author = binding.author ∧
        trust' = trust.remember binding := by
  unfold resolveRecipient
  rw [runFrom_bind_eq_ok]
  constructor
  · rintro ⟨⟨author', bytes⟩, trust'', hresolve, hrest⟩
    obtain ⟨binding, hyields, rfl, rfl⟩ := resolveBinding_eq_ok.mp hresolve
    dsimp only at hrest
    by_cases hrecovery : binding.author.userId = RECOVERY_ID
    · rw [if_pos hrecovery, runFrom_throw] at hrest
      cases hrest
    · rw [if_neg hrecovery, runFrom_pure, Prod.mk.injEq] at hrest
      obtain ⟨hauthor, rfl⟩ := hrest
      exact ⟨bytes, binding, hyields, hrecovery, (Except.ok.inj hauthor).symm, rfl⟩
  · rintro ⟨bytes, binding, hyields, huser, rfl, rfl⟩
    have hother : ¬ binding.author.userId = RECOVERY_ID := huser
    refine ⟨(binding.author, bytes), _, resolveBinding_eq_ok.mpr ⟨binding, hyields, rfl, rfl⟩, ?_⟩
    dsimp only
    rw [if_neg hother, runFrom_pure]

end Resolve

/-! ## A directory that signed a few bindings -/

/-- A signature shows the key that made it.  The key of zeros has signed these messages only. -/
abbrev keyShowingEd25519 (messages : List (List UInt8)) : Ed25519 where
  validKey _ := true
  verifyStrict pk msg sig :=
    sig.toList.take 32 = pk.toList ∧ (pk = .replicate 32 0 → msg ∈ messages)
  publicKey seed := seed
  sign seed _ := ⟨seed.toList ++ List.replicate 32 0, by simp⟩

lemma verifyStrict_keyShowing {messages : List (List UInt8)} {pk : Bytes 32} {msg : List UInt8}
    {sig : Bytes 64} :
    letI := keyShowingEd25519 messages
    Ed25519.verifyStrict pk msg sig = true ↔
      sig.toList.take 32 = pk.toList ∧ (pk = .replicate 32 0 → msg ∈ messages) :=
  decide_eq_true_iff

def zeroVerifier : DirectoryVerifier := ⟨.replicate 32 0⟩

/-- The directory key has signed these bindings. -/
abbrev bindingsEd25519 [UnicodeNormalization] (bindings : List DirBinding) : Ed25519 :=
  keyShowingEd25519 (bindings.map (signingMessage Label.dirbinding.text))

lemma checkSignature_zeroVerifier [UnicodeNormalization] {bindings : List DirBinding}
    {binding : DirBinding} {sig : Bytes 64} :
    letI := bindingsEd25519 bindings
    zeroVerifier.checkSignature binding sig = .ok () ↔
      sig.toList.take 32 = List.replicate 32 0 ∧ binding ∈ bindings := by
  let _ := bindingsEd25519 bindings
  have hmem : signingMessage Label.dirbinding.text binding ∈
      bindings.map (signingMessage Label.dirbinding.text) ↔ binding ∈ bindings := by
    rw [List.mem_map]
    constructor
    · rintro ⟨b, hb, hmessage⟩
      obtain ⟨-, hencode⟩ := signingInput_inj hmessage
      rw [← encode_inj trivial trivial hencode]
      exact hb
    · exact fun hb => ⟨binding, hb, rfl⟩
  have hstrict := @verifyStrict_keyShowing (bindings.map (signingMessage Label.dirbinding.text))
    zeroVerifier.dirPub (signingMessage Label.dirbinding.text binding) sig
  rw [checkSignature_eq_ok, hstrict, ← hmem]
  constructor
  · rintro ⟨-, hsig, hsigned⟩
    exact ⟨hsig, hsigned rfl⟩
  · rintro ⟨hsig, hsigned⟩
    exact ⟨rfl, hsig, fun _ => hsigned⟩

/-- The binding of a user, whose id and keys repeat one byte, valid at all times. -/
def userBinding (username : @Text asciiNormalization) (user : UInt8) (roles : List Role) :
    @DirBinding asciiNormalization :=
  letI := asciiNormalization
  { username := username
    userId := ⟨.replicate 16 user⟩
    encPub := ⟨.replicate 32 user⟩
    sigPub := ⟨.replicate 32 user⟩
    keyVersion := 1
    roles := .new roles
    notBefore := ⟨0⟩
    notAfter := ⟨0xFFFFFFFFFFFFFFFF⟩
    mlkemPub := none }

lemma userBinding_passes {bindings : List (@DirBinding asciiNormalization)}
    {username : @Text asciiNormalization} {user : UInt8} {roles : List Role}
    (hmem : userBinding username user roles ∈ bindings) :
    letI := asciiNormalization
    letI := bindingsEd25519 bindings
    zeroVerifier.Passes (userBinding username user roles) (.replicate 64 0) 0 := by
  let _ := asciiNormalization
  let _ := bindingsEd25519 bindings
  exact ⟨checkSignature_zeroVerifier.mpr ⟨by decide, hmem⟩, by rfl⟩

end MaxSecu
