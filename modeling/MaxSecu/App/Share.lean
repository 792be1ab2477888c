import MaxSecu.App.Directory
import MaxSecu.Client.Reshare

/-!
# Sharing a file by username

For every username that was entered the app looks the user up, compares his keys with those that it
pinned under the name, wraps the key of the file to him and posts the wrap.  Each username has one
outcome, and no failure stops the batch.

The name in the binding is compared with nothing, and under a name that is new any keys are pinned.
`reshare_namedOnly_iff` says that a batch serves the persons who were named exactly when the server
answers the lookups that lead to a wrap with bindings of the names.
-/

namespace MaxSecu

open ExceptRules

structure ReshareOutcomeDto where
  username : String
  ok : Bool
  code : Option String
  oldFingerprint : Option String
  newFingerprint : Option String
  deriving DecidableEq

/-! ## The pinned keys -/

/-- The fingerprint that is pinned under a username. -/
abbrev TofuStore := String → Option (Bytes 32)

inductive TofuOutcome
  | pinned
  | matched
  | changed
  deriving DecidableEq

def hexDigit (n : ℕ) : Char :=
  if n < 10 then Char.ofNat (48 + n) else Char.ofNat (55 + n)

/-- Two upper-case digits. -/
def hexByte (b : UInt8) : List Char := [hexDigit (b.toNat / 16), hexDigit (b.toNat % 16)]

def shortFingerprint (fp : Bytes 32) : String :=
  " ".intercalate (((fp.toList.take 8).toChunks 2).map fun c => String.ofList (c.flatMap hexByte))

namespace TofuStore

/-- Pin a first sighting, or compare with the pin.  What is new is written to the disk first. -/
def checkOrPin (tofu : TofuStore) (username : String) (fp : Bytes 32)
    (write : Except UiError Unit) : Except UiError (TofuOutcome × TofuStore) :=
  match tofu username with
  | none => do
    write
    pure (.pinned, Function.update tofu username (some fp))
  | some pinned => if pinned = fp then pure (.matched, tofu) else pure (.changed, tofu)

/-- Overwrite a pin, once the user has confirmed the change. -/
def repin (tofu : TofuStore) (username : String) (fp : Bytes 32) (write : Except UiError Unit) :
    Except UiError TofuStore := do
  write
  pure (Function.update tofu username (some fp))

end TofuStore

/-! ## The batch -/

/-- What is the same for every username of a batch. -/
structure ReshareBatch where
  fileId : Id
  version : UInt64
  dekCommit : Bytes 32
  suite : Suite
  granterId : Id
  dek : Dek
  tombstones : TombstoneSet
  acceptedKeyChanges : List String
  verifier : DirectoryVerifier
  nowMs : UInt64

inductive PostAnswer
  | unreachable (e : UiError)
  | created
  /-- Another status than 201. -/
  | refused

/-- One username, and what its turn meets: the answer to the lookup, the outcome of a write to the
pin store, who is logged in, what the wrap draws from the random source, and the answer to the
post. -/
structure ShareTurn where
  username : String
  lookup : Lookup
  write : Except UiError Unit
  session : Option Identity
  rand : WrapEntropy
  post : PostAnswer

/-- The memory that one turn hands to the next. -/
structure ShareMemory where
  trust : TrustStore
  tofu : TofuStore

def reshareErrorCode : ReshareError → String
  | .recipientRevoked => "revoked"
  | .resharePqKeyMissing => "pq_key_missing"
  | .dekCommitMismatch => "verify_failed"
  | .recipientIsRecovery => "recovery_recipient"
  | .wrapFailed => "wrap_failed"

def ReshareOutcomeDto.failed (username code : String) : ReshareOutcomeDto :=
  ⟨username, false, some code, none, none⟩

/-- A turn that failed because the pinned key is another one. -/
def ReshareOutcomeDto.keyChanged (username : String) (old : Option (Bytes 32)) (new : Bytes 32) :
    ReshareOutcomeDto :=
  ⟨username, false, some "key_changed", old.map shortFingerprint, some (shortFingerprint new)⟩

section Batch

variable [UnicodeNormalization] [Sha256] [Ed25519]

def VerifiedAuthor.keyFingerprint (author : VerifiedAuthor) : Bytes 32 :=
  MaxSecu.fingerprint ⟨author.encPub⟩ ⟨author.sigPub⟩

/-- Compare the keys of a recipient with the pin.  A change goes through if it was confirmed. -/
def ReshareBatch.pinRecipient (batch : ReshareBatch) (turn : ShareTurn) (author : VerifiedAuthor)
    (tofu : TofuStore) : Except ReshareOutcomeDto TofuStore := do
  let (outcome, tofu') ← (tofu.checkOrPin turn.username author.keyFingerprint turn.write).mapError
    fun e => .failed turn.username e.code
  match outcome with
  | .pinned => pure tofu'
  | .matched => pure tofu'
  | .changed =>
    if turn.username ∈ batch.acceptedKeyChanges then
      (tofu'.repin turn.username author.keyFingerprint turn.write).mapError
        fun e => .failed turn.username e.code
    else
      throw (.keyChanged turn.username (tofu' turn.username) author.keyFingerprint)

omit [UnicodeNormalization] [Ed25519] in
lemma ReshareBatch.pinRecipient_of_new {batch : ReshareBatch} {turn : ShareTurn}
    {author : VerifiedAuthor} {tofu : TofuStore} (hnew : tofu turn.username = none)
    (hwrite : turn.write = .ok ()) :
    batch.pinRecipient turn author tofu =
      .ok (Function.update tofu turn.username (some author.keyFingerprint)) := by
  have hcheck : tofu.checkOrPin turn.username author.keyFingerprint turn.write =
      .ok (.pinned, Function.update tofu turn.username (some author.keyFingerprint)) := by
    rw [TofuStore.checkOrPin, hnew, hwrite]
    rfl
  rw [ReshareBatch.pinRecipient, hcheck]
  rfl

variable [Hkdf] [HpkeSeal] [Aes256GcmSeal] [X25519] [X25519Base] [MlKem768Encaps]

/-- What a re-share to a resolved recipient is asked to build. -/
def ReshareBatch.params (batch : ReshareBatch) (granter : Identity) (author : VerifiedAuthor) :
    ReshareParams where
  granter := granter
  granterId := batch.granterId
  fileId := batch.fileId
  version := batch.version
  dekCommit := batch.dekCommit
  recipientId := author.userId
  recipientEncPub := ⟨author.encPub⟩
  suite := batch.suite
  recipientMlkemPub := author.mlkemPub
  createdAt := ⟨batch.nowMs⟩

/-- Build the wrap with the identity that is logged in at this moment. -/
def ReshareBatch.build (batch : ReshareBatch) (turn : ShareTurn) (author : VerifiedAuthor) :
    Except ReshareOutcomeDto WrapOut := do
  let identity ← turn.session.elim (throw (.failed turn.username "locked")) pure
  (buildReshare turn.rand (batch.params identity author) batch.dek batch.tombstones).mapError
    fun e => .failed turn.username (reshareErrorCode e)

def ShareTurn.posted (turn : ShareTurn) : ReshareOutcomeDto :=
  match turn.post with
  | .created => ⟨turn.username, true, none, none, none⟩
  | .refused => .failed turn.username "share_failed"
  | .unreachable e => .failed turn.username e.code

/-- The turn of one username: its outcome, and the wrap that was posted for it. -/
def ReshareBatch.turn (batch : ReshareBatch) (turn : ShareTurn) (memory : ShareMemory) :
    (ReshareOutcomeDto × Option WrapOut) × ShareMemory :=
  match runFrom (resolveRecipient batch.verifier turn.lookup batch.nowMs) memory.trust with
  | (.error e, trust) => ((.failed turn.username e.code, none), { memory with trust := trust })
  | (.ok author, trust) =>
    match batch.pinRecipient turn author memory.tofu with
    | .error outcome => ((outcome, none), { memory with trust := trust })
    | .ok tofu =>
      match batch.build turn author with
      | .error outcome => ((outcome, none), ⟨trust, tofu⟩)
      | .ok wrap => ((turn.posted, some wrap), ⟨trust, tofu⟩)

/-- A batch: the memory goes from turn to turn, and each turn puts out its outcome and its post. -/
def runReshareBatch (batch : ReshareBatch) (memory : ShareMemory) :
    Machine ShareMemory ShareTurn (ReshareOutcomeDto × Option WrapOut) where
  init := memory
  step memory turn := ((batch.turn turn memory).2, [(batch.turn turn memory).1])

/-! ## What one turn posts -/

/-- A turn goes through with this binding: the answer yields it, its keys are pinned ones, new ones
or confirmed ones, and this is the wrap that is built. -/
structure ReshareBatch.Sends (batch : ReshareBatch) (turn : ShareTurn) (memory : ShareMemory)
    (binding : DirBinding) (w : WrapOut) : Prop where
  yields : ∃ bytes, turn.lookup.Yields batch.verifier batch.nowMs memory.trust bytes binding
  user : binding.userId ≠ RECOVERY_ID
  pins : ∃ tofu, batch.pinRecipient turn binding.author memory.tofu = .ok tofu
  builds : batch.build turn binding.author = .ok w

lemma ReshareBatch.turn_posts_iff {batch : ReshareBatch} {turn : ShareTurn} {memory : ShareMemory}
    {w : WrapOut} :
    (batch.turn turn memory).1.2 = some w ↔ ∃ binding, batch.Sends turn memory binding w := by
  constructor
  · intro h
    unfold ReshareBatch.turn at h
    split at h
    · cases h
    · next author trust hresolve =>
      obtain ⟨bytes, binding, hyields, huser, rfl, -⟩ := resolveRecipient_eq_ok.mp hresolve
      split at h
      · cases h
      · next tofu hpin =>
        split at h
        · cases h
        · next wrap hbuild =>
          obtain rfl := Option.some.inj h
          exact ⟨binding, ⟨bytes, hyields⟩, huser, ⟨tofu, hpin⟩, hbuild⟩
  · rintro ⟨binding, ⟨bytes, hyields⟩, huser, ⟨tofu, hpin⟩, hbuild⟩
    have hresolve := resolveRecipient_eq_ok.mpr ⟨bytes, binding, hyields, huser, rfl, rfl⟩
    simp only [ReshareBatch.turn, hresolve, hpin, hbuild]

lemma ReshareBatch.Sends.outcome {batch : ReshareBatch} {turn : ShareTurn} {memory : ShareMemory}
    {binding : DirBinding} {w : WrapOut} (h : batch.Sends turn memory binding w) :
    (batch.turn turn memory).1.1 = turn.posted := by
  obtain ⟨⟨bytes, hyields⟩, huser, ⟨tofu, hpin⟩, hbuild⟩ := h
  have hresolve := resolveRecipient_eq_ok.mpr ⟨bytes, binding, hyields, huser, rfl, rfl⟩
  simp only [ReshareBatch.turn, hresolve, hpin, hbuild]

/-- The wrap is for the user of the binding, and sealed to its keys. -/
def ReshareBatch.SealedTo (batch : ReshareBatch) (binding : DirBinding) (w : WrapOut) : Prop :=
  w.recipientId = binding.userId ∧ ∃ rand, wrapUnder batch.suite rand ⟨binding.encPub.bytes⟩
    binding.mlkemPub batch.dek ⟨batch.fileId, batch.version, binding.userId⟩ = .ok w.wrappedDek

lemma ReshareBatch.Sends.sealedTo {batch : ReshareBatch} {turn : ShareTurn} {memory : ShareMemory}
    {binding : DirBinding} {w : WrapOut} (h : batch.Sends turn memory binding w) :
    batch.SealedTo binding w := by
  have hbuild := h.builds
  unfold ReshareBatch.build at hbuild
  obtain ⟨identity, -, hbuild⟩ := bind_eq_ok.mp hbuild
  obtain ⟨-, -, -, wrappedDek, hwrap, rfl⟩ := buildReshare_eq_ok.mp (mapError_eq_ok.mp hbuild)
  exact ⟨rfl, turn.rand, hwrap⟩

/-! ## Who is served -/

def ReshareBatch.after (batch : ReshareBatch) (memory : ShareMemory) (turns : List ShareTurn) :
    ShareMemory :=
  ((runReshareBatch batch memory).run turns).1

@[simp] lemma ReshareBatch.after_nil (batch : ReshareBatch) (memory : ShareMemory) :
    batch.after memory [] = memory := rfl

/-- The wrap is posted in the last of these turns. -/
def ReshareBatch.Posts (batch : ReshareBatch) (memory : ShareMemory) (earlier : List ShareTurn)
    (turn : ShareTurn) (w : WrapOut) : Prop :=
  (batch.turn turn (batch.after memory earlier)).1.2 = some w

/-- Every wrap that a batch posts for a username is sealed to the keys, and carries the user id, of
a signed binding of this name, and a lookup that is answered with the binding of another name brings
no wrap to its user. -/
structure ReshareBatch.NamedOnly (batch : ReshareBatch) (memory : ShareMemory)
    (turns : List ShareTurn) : Prop where
  sealedToNamed : ∀ earlier turn rest w, turns = earlier ++ turn :: rest →
    batch.Posts memory earlier turn w →
      ∃ binding, batch.verifier.Signed binding ∧ binding.username.str = turn.username ∧
        batch.SealedTo binding w
  noneForOthers : ∀ earlier turn rest w, turns = earlier ++ turn :: rest →
    batch.Posts memory earlier turn w → ∀ binding, turn.lookup.Serves binding →
      binding.username.str ≠ turn.username → w.recipientId ≠ binding.userId

/-- If the turn goes through with a binding, it is a binding of the name that was entered. -/
def ReshareBatch.Guarded (batch : ReshareBatch) (turn : ShareTurn) (memory : ShareMemory) : Prop :=
  ∀ binding w, batch.Sends turn memory binding w → binding.username.str = turn.username

/-- **Whom a share by name reaches, exactly.**  A batch posts wraps to the named persons only if and
only if every turn that goes through was answered with a binding of its name. -/
theorem reshare_namedOnly_iff (batch : ReshareBatch) (memory : ShareMemory)
    (turns : List ShareTurn) :
    batch.NamedOnly memory turns ↔ ∀ earlier turn rest, turns = earlier ++ turn :: rest →
      batch.Guarded turn (batch.after memory earlier) := by
  constructor
  · intro hnamed earlier turn rest hturns binding w hsends
    obtain ⟨bytes, hyields⟩ := hsends.yields
    by_contra hother
    exact hnamed.noneForOthers earlier turn rest w hturns (batch.turn_posts_iff.mpr ⟨_, hsends⟩)
      binding hyields.serves hother hsends.sealedTo.1
  · intro hguarded
    constructor
    · intro earlier turn rest w hturns hposts
      obtain ⟨binding, hsends⟩ := batch.turn_posts_iff.mp hposts
      obtain ⟨bytes, hyields⟩ := hsends.yields
      exact ⟨binding, hyields.signed, hguarded earlier turn rest hturns binding w hsends,
        hsends.sealedTo⟩
    · intro earlier turn rest w hturns hposts binding hserves hother
      obtain ⟨binding', hsends⟩ := batch.turn_posts_iff.mp hposts
      obtain ⟨bytes, hyields⟩ := hsends.yields
      obtain rfl := hserves.unique hyields.serves
      exact absurd (hguarded earlier turn rest hturns binding w hsends) hother

end Batch

/-! ## Another user's binding -/

def bobBinding : @DirBinding asciiNormalization :=
  letI := asciiNormalization
  userBinding ⟨"bob", by decide, by decide⟩ 2 [.user]

def malloryBinding : @DirBinding asciiNormalization :=
  letI := asciiNormalization
  userBinding ⟨"mallory", by decide, by decide⟩ 3 [.user]

/-- The directory has signed the bindings of two users. -/
abbrev twoUsersEd25519 : Ed25519 :=
  letI := asciiNormalization
  bindingsEd25519 [bobBinding, malloryBinding]

/-- A file of a suite that predates the post-quantum enrolment, shared by its owner. -/
def oneFileBatch [Hkdf] : ReshareBatch :=
  let dek : Dek := ⟨.replicate 32 9⟩
  { fileId := ⟨.replicate 16 5⟩
    version := 1
    dekCommit := dek.commit
    suite := .v1
    granterId := ⟨.replicate 16 1⟩
    dek := dek
    tombstones := ⟨[]⟩
    acceptedKeyChanges := []
    verifier := zeroVerifier
    nowMs := 0 }

/-- Bob is looked up, and the server answers with the binding of Mallory. -/
def misansweredTurn : ShareTurn :=
  letI := asciiNormalization
  { username := "bob"
    lookup := .answered (some (encode malloryBinding, .replicate 64 0))
    write := .ok ()
    session := some ⟨⟨.replicate 32 0⟩, ⟨.replicate 32 0⟩, ⟨.replicate 32 0⟩, none⟩
    rand := ⟨.replicate 32 0, .replicate 32 0, .replicate 32 0⟩
    post := .created }

open ClosedRuns in
/-- The key is wrapped to Mallory, who is pinned under the name of Bob. -/
theorem reshare_namedOnly_misanswered :
    letI := twoUsersEd25519
    ¬ ∀ (batch : ReshareBatch) memory turns, batch.NamedOnly memory turns := by
  let _ := twoUsersEd25519
  intro hclaim
  set memory : ShareMemory := ⟨fun _ => none, fun _ => none⟩
  have hnamed := hclaim oneFileBatch memory [misansweredTurn]
  have hdecode : decode DirBinding (encode malloryBinding) = .ok malloryBinding :=
    decode_encode trivial
  have hpasses : zeroVerifier.Passes malloryBinding (.replicate 64 0) 0 :=
    userBinding_passes (List.mem_cons_of_mem _ (List.mem_singleton_self _))
  have hyields : misansweredTurn.lookup.Yields oneFileBatch.verifier oneFileBatch.nowMs memory.trust
      (encode malloryBinding) malloryBinding :=
    ⟨⟨_, rfl, hpasses⟩, hdecode, .inl rfl⟩
  obtain ⟨identity, hidentity⟩ : ∃ identity, misansweredTurn.session = some identity := ⟨_, rfl⟩
  have hwrap : ∃ wrappedDek, wrapUnder oneFileBatch.suite misansweredTurn.rand
      ⟨malloryBinding.author.encPub⟩ malloryBinding.author.mlkemPub oneFileBatch.dek
      ⟨oneFileBatch.fileId, oneFileBatch.version, malloryBinding.author.userId⟩ = .ok wrappedDek :=
    ⟨_, rfl⟩
  obtain ⟨wrappedDek, hwrap⟩ := hwrap
  have huser : malloryBinding.author.userId ≠ RECOVERY_ID := by decide
  have hactive : ¬ (oneFileBatch.tombstones.isAccountRevoked malloryBinding.author.userId ∨
      oneFileBatch.tombstones.isRevoked malloryBinding.author.userId oneFileBatch.fileId
        oneFileBatch.version) := by
    decide
  obtain ⟨w, hreshare⟩ : ∃ w, buildReshare misansweredTurn.rand
      (oneFileBatch.params identity malloryBinding.author) oneFileBatch.dek
      oneFileBatch.tombstones = .ok w :=
    ⟨_, buildReshare_eq_ok.mpr ⟨rfl, huser, hactive, wrappedDek, hwrap, rfl⟩⟩
  have hbuilds : oneFileBatch.build misansweredTurn malloryBinding.author = .ok w := by
    unfold ReshareBatch.build
    exact bind_eq_ok.mpr ⟨identity, by rw [hidentity]; rfl, mapError_eq_ok.mpr hreshare⟩
  have hpins := @ReshareBatch.pinRecipient_of_new _ oneFileBatch misansweredTurn
    malloryBinding.author memory.tofu rfl rfl
  have hsends : oneFileBatch.Sends misansweredTurn memory malloryBinding w :=
    ⟨⟨_, hyields⟩, huser, ⟨_, hpins⟩, hbuilds⟩
  have hposts : oneFileBatch.Posts memory [] misansweredTurn w := by
    unfold ReshareBatch.Posts
    rw [ReshareBatch.after_nil]
    exact ReshareBatch.turn_posts_iff.mpr ⟨_, hsends⟩
  exact hnamed.noneForOthers [] misansweredTurn [] w rfl hposts malloryBinding hyields.serves
    (by decide) hsends.sealedTo.1

end MaxSecu
