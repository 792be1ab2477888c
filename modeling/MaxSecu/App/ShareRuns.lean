import MaxSecu.App.Share
import MaxSecu.App.UploadRoundTrip
import MaxSecu.Server.WrapCustody

/-!
# Files that are shared on

Users of one honest server upload files and share them, each by run of `runReshareBatch`, and open
what was shared with them.  Any reader can share; the server takes the wrap and puts it in the place
of any that its recipient had.  The app opens a file with no granter but the author.
-/

namespace MaxSecu

open ExceptRules AssociationList

/-! ## Preparing a batch -/

def verifyFailed : UiError :=
  ⟨"verify_failed", "Could not recover the file key from your own wrap."⟩

/-- Unwrap the key of a served file with one's own wrap, for the file that was asked for. -/
def recoverOwnDek [Hkdf] [Aes256Gcm] [Hpke] [X25519] [MlKem768] (view : ParsedView) (fileId : Id)
    (identity : Identity) (myId : Id) : Except UiError Dek := do
  let manifest ← (decode Manifest view.manifestBytes).mapError fun _ => badRecord
  let ctx : WrapContext := ⟨fileId, manifest.version, myId⟩
  let dek ← match manifest.alg with
    | .v1 => (unwrapDek identity.encSk view.wrappedDek ctx).mapError fun _ => verifyFailed
    | .v2 => do
      let seed ← identity.mlkemSeed.elim (throw verifyFailed) pure
      let hybrid ← (unpackHybridWrap view.wrappedDek).mapError fun _ => verifyFailed
      (unwrapDekHybrid ⟨identity.encSk.bytes, seed⟩ hybrid ctx).mapError fun _ => verifyFailed
  if dek.commit ≠ manifest.dekCommit.bytes then
    throw verifyFailed
  else
    pure dek

/-- What is the same for every share of a batch. -/
structure ShareSettings where
  tombstones : TombstoneSet
  acceptedKeyChanges : List String
  verifier : DirectoryVerifier
  nowMs : UInt64

def reshareInner [Hkdf] [Aes256Gcm] [Hpke] [X25519] [MlKem768] (served : Option FileView)
    (fileId myId : Id) (identity : Identity) (settings : ShareSettings) :
    Except UiError ReshareBatch := do
  let view ← served.elim (throw ⟨"fetch_failed", "That item is not available."⟩) pure
  let parsed ← parseFileView view
  let manifest ← (decode Manifest parsed.manifestBytes).mapError fun _ =>
    ⟨"untrusted", "Malformed record."⟩
  let dek ← recoverOwnDek parsed fileId identity myId
  pure
    { fileId := fileId
      version := manifest.version
      dekCommit := manifest.dekCommit.bytes
      suite := manifest.alg
      granterId := myId
      dek := dek
      tombstones := settings.tombstones
      acceptedKeyChanges := settings.acceptedKeyChanges
      verifier := settings.verifier
      nowMs := settings.nowMs }

/-! ## The users -/

/-- A user of the app: an unlocked identity, and the binding that was signed for it. -/
structure Member [UnicodeNormalization] where
  identity : Identity
  binding : DirBinding

section Users

variable [UnicodeNormalization] [Ed25519] [Hpke] [HpkeSeal] [X25519] [X25519Base] [MlKem768]
  [MlKem768Encaps]

/-- The binding publishes the keys of the identity, and the private keys belong to the public
ones. -/
structure Member.Enrolled (m : Member) : Prop where
  user : m.binding.userId ≠ RECOVERY_ID
  sigPub : m.binding.sigPub.bytes = m.identity.sig.verifyingKey
  encPub : m.binding.encPub.bytes = m.identity.encPk.bytes
  mlkemPub : m.binding.mlkemPub.map (·.bytes) = m.identity.mlkemPubBytes
  verifies : m.identity.sig.Verifies
  keys : HoldsKeys m.identity.encSk m.identity.mlkemSeed m.identity.encPk m.identity.mlkemPubBytes

/-- The enrolled users, by user id. -/
structure Community where
  member : Id → Option Member
  enrolled : ∀ id m, member id = some m → m.Enrolled
  userId : ∀ id m, member id = some m → m.binding.userId = id

end Users

/-! ## Runs -/

/-- The rows and the chunks of the server, and the batches that are under way. -/
structure ShareWorld where
  files : FileStore
  chunks : Id → ChunkSource
  batches : List (ReshareBatch × ShareMemory)

inductive ShareEvent
  /-- An owner uploads a new file. -/
  | upload (rand : ℕ → WrapEntropy) (dek : Dek) (params : UploadParams) (streams : PlaintextStreams)
      (flags : StageFlags) (stagedMs finalizedMs : UInt64)
  /-- A user prepares to share a file. -/
  | prepare (myId fileId : Id) (settings : ShareSettings) (memory : ShareMemory)
  /-- A batch goes on to the next username.  A post that ends unreachable may have arrived. -/
  | turn (index : ℕ) (turn : ShareTurn) (arrives : Bool) (nowMs : UInt64)

/-- What a batch says of one username for which a wrap was posted. -/
structure ShareReport where
  fileId : Id
  granterId : Id
  recipientId : Id
  ok : Bool
  deriving DecidableEq

section Runs

variable [UnicodeNormalization] [Sha256] [Ed25519] [Hkdf] [Aes256Gcm] [Aes256GcmSeal] [Hpke]
  [HpkeSeal] [X25519] [X25519Base] [MlKem768] [MlKem768Encaps]

namespace ShareWorld

/-- An upload: staged, its chunks put, and committed.  A refused stage ends it. -/
def upload (w : ShareWorld) (rand : ℕ → WrapEntropy) (dek : Dek) (params : UploadParams)
    (streams : PlaintextStreams) (flags : StageFlags) (stagedMs finalizedMs : UInt64) :
    ShareWorld :=
  match buildUploadInner rand dek params streams with
  | .error _ => w
  | .ok bundle =>
    match Files.parseStage (bundle.stageInput flags params.ownerId) with
    | .error _ => w
    | .ok p =>
      match runFrom (FileStore.stageVersion p stagedMs) w.files with
      | (.error _, _) => w
      | (.ok _, staged) =>
        { w with
          files := (runFrom (FileStore.finalizeVersion params.fileId FIRST_VERSION params.ownerId
            finalizedMs) staged).2
          chunks := Function.update w.chunks params.fileId bundle.source }

/-- A batch is prepared from what the user is served. -/
def prepare (w : ShareWorld) (identity : Option Identity) (myId fileId : Id)
    (settings : ShareSettings) (memory : ShareMemory) : ShareWorld :=
  match identity with
  | none => w
  | some identity =>
    match reshareInner (w.files.getFile fileId .latest myId) fileId myId identity settings with
    | .error _ => w
    | .ok batch => { w with batches := w.batches ++ [(batch, memory)] }

/-- The post of a wrap at the server, and the answer that gets back. -/
def deliver (files : FileStore) (batch : ReshareBatch) (wrap : WrapOut) (post : PostAnswer)
    (arrives : Bool) (nowMs : UInt64) : PostAnswer × FileStore :=
  let (stored, files') :=
    runFrom (FileStore.addWrap batch.fileId wrap.input batch.granterId nowMs) files
  match post with
  | .unreachable e => (.unreachable e, if arrives then files' else files)
  | _ => (if stored.isOk then .created else .refused, files')

/-- A turn of a batch, and what the server makes of the wrap that is posted. -/
def turn (w : ShareWorld) (index : ℕ) (turn : ShareTurn) (arrives : Bool) (nowMs : UInt64) :
    ShareWorld × List ShareReport :=
  match w.batches[index]? with
  | none => (w, [])
  | some (batch, memory) =>
    let ((_, posted), memory') := batch.turn turn memory
    let w' := { w with batches := w.batches.set index (batch, memory') }
    match posted with
    | none => (w', [])
    | some wrap =>
      let (post, files) := deliver w.files batch wrap turn.post arrives nowMs
      let outcome := (batch.turn { turn with post := post } memory).1.1
      ({ w' with files := files },
        [⟨batch.fileId, batch.granterId, wrap.recipientId, outcome.ok⟩])

section Turns

omit [UnicodeNormalization] [Sha256] [Ed25519] [Hkdf] [Aes256Gcm] [Aes256GcmSeal] [Hpke] [HpkeSeal]
  [X25519] [X25519Base] [MlKem768] [MlKem768Encaps] in
/-- A post leaves the rows alone, and is not answered with a success, or the wrap is stored. -/
lemma deliver_cases (files : FileStore) (batch : ReshareBatch) (wrap : WrapOut) (post : PostAnswer)
    (arrives : Bool) (nowMs : UInt64) :
    ((deliver files batch wrap post arrives nowMs).2 = files ∧
      (deliver files batch wrap post arrives nowMs).1 ≠ .created) ∨
    runFrom (FileStore.addWrap batch.fileId wrap.input batch.granterId nowMs) files =
      (.ok (), (deliver files batch wrap post arrives nowMs).2) := by
  unfold deliver
  obtain ⟨hfails, hsame⟩ | ⟨⟨⟩, files', hrun⟩ :=
    (FileStore.addWrap_atomic batch.fileId wrap.input batch.granterId nowMs).run_cases files
  · left
    cases post with
    | unreachable e => exact ⟨by simp [hsame], by simp⟩
    | created => exact ⟨hsame, by simp [hfails]⟩
    | refused => exact ⟨hsame, by simp [hfails]⟩
  · rw [hrun]
    cases post with
    | unreachable e =>
      cases arrives with
      | true => exact .inr rfl
      | false => exact .inl ⟨rfl, by simp⟩
    | created => exact .inr rfl
    | refused => exact .inr rfl

omit [Aes256Gcm] [Hpke] [MlKem768] in
/-- What a turn does: it reports no success and leaves the rows, or a batch goes through with a wrap
that the server stores. -/
lemma turn_cases (w : ShareWorld) (index : ℕ) (turn : ShareTurn) (arrives : Bool) (nowMs : UInt64) :
    (w.turn index turn arrives nowMs).1.chunks = w.chunks ∧
    (∀ b ∈ (w.turn index turn arrives nowMs).1.batches, ∃ b' ∈ w.batches, b'.1 = b.1) ∧
    (((w.turn index turn arrives nowMs).1.files = w.files ∧
        ∀ report ∈ (w.turn index turn arrives nowMs).2, report.ok = false) ∨
      ∃ batch memory binding wrap, w.batches[index]? = some (batch, memory) ∧
        batch.Sends turn memory binding wrap ∧
        runFrom (FileStore.addWrap batch.fileId wrap.input batch.granterId nowMs) w.files =
          (.ok (), (w.turn index turn arrives nowMs).1.files) ∧
        ∀ report ∈ (w.turn index turn arrives nowMs).2, report.fileId = batch.fileId ∧
          report.granterId = batch.granterId ∧ report.recipientId = wrap.recipientId) := by
  cases hbatch : w.batches[index]? with
  | none =>
    have hturn : w.turn index turn arrives nowMs = (w, []) := by
      unfold ShareWorld.turn
      rw [hbatch]
    rw [hturn]
    exact ⟨rfl, fun b hb => ⟨b, hb, rfl⟩,
      .inl ⟨rfl, fun _ hreport => absurd hreport List.not_mem_nil⟩⟩
  | some current =>
    obtain ⟨batch, memory⟩ := current
    have hbatches : ∀ memory', ∀ b ∈ w.batches.set index (batch, memory'),
        ∃ b' ∈ w.batches, b'.1 = b.1 := by
      intro memory' b hb
      obtain hb | rfl := List.mem_or_eq_of_mem_set hb
      · exact ⟨b, hb, rfl⟩
      · exact ⟨_, List.mem_of_getElem? hbatch, rfl⟩
    rcases hrun : batch.turn turn memory with ⟨⟨outcome, posted⟩, memory'⟩
    cases posted with
    | none =>
      have hturn : w.turn index turn arrives nowMs =
          ({ w with batches := w.batches.set index (batch, memory') }, []) := by
        simp only [ShareWorld.turn, hbatch, hrun]
      rw [hturn]
      exact ⟨rfl, hbatches memory',
        .inl ⟨rfl, fun _ hreport => absurd hreport List.not_mem_nil⟩⟩
    | some wrap =>
      obtain ⟨binding, hsends⟩ := (batch.turn_posts_iff (w := wrap)).mp (by rw [hrun])
      set delivered := deliver w.files batch wrap turn.post arrives nowMs with hdelivered
      have hturn : w.turn index turn arrives nowMs =
          ({ w with batches := w.batches.set index (batch, memory'), files := delivered.2 },
            [⟨batch.fileId, batch.granterId, wrap.recipientId,
              (batch.turn { turn with post := delivered.1 } memory).1.1.ok⟩]) := by
        simp only [ShareWorld.turn, hbatch, hrun, hdelivered]
      have hagain : batch.Sends { turn with post := delivered.1 } memory binding wrap :=
        ⟨hsends.yields, hsends.user, hsends.pins, hsends.builds⟩
      rw [hturn, hagain.outcome]
      refine ⟨rfl, hbatches memory', ?_⟩
      obtain ⟨hsame, hfails⟩ | hstored := deliver_cases w.files batch wrap turn.post arrives nowMs
      · refine .inl ⟨hsame, ?_⟩
        intro report hreport
        rw [List.mem_singleton.mp hreport]
        show (ShareTurn.posted { turn with post := delivered.1 }).ok = false
        unfold ShareTurn.posted
        cases hanswer : delivered.1 with
        | created => exact absurd hanswer hfails
        | refused => rfl
        | unreachable e => rfl
      · refine .inr ⟨batch, memory, binding, wrap, rfl, hsends, hstored, ?_⟩
        intro report hreport
        rw [List.mem_singleton.mp hreport]
        exact ⟨rfl, rfl, rfl⟩

omit [Aes256Gcm] [Hpke] [MlKem768] in
lemma turn_of_stored {w : ShareWorld} {index : ℕ} {turn : ShareTurn} {nowMs : UInt64}
    {batch : ReshareBatch} {memory : ShareMemory} {binding : DirBinding} {wrap : WrapOut}
    {files : FileStore} (arrives : Bool) (hbatch : w.batches[index]? = some (batch, memory))
    (hsends : batch.Sends turn memory binding wrap) (hpost : turn.post = .created)
    (hstored : runFrom (FileStore.addWrap batch.fileId wrap.input batch.granterId nowMs) w.files =
      (.ok (), files)) :
    ∃ memory', w.turn index turn arrives nowMs =
      ({ w with batches := w.batches.set index (batch, memory'), files := files },
        [⟨batch.fileId, batch.granterId, wrap.recipientId, true⟩]) := by
  have hposted := (batch.turn_posts_iff (w := wrap)).mpr ⟨binding, hsends⟩
  rcases hrun : batch.turn turn memory with ⟨⟨outcome, posted⟩, memory'⟩
  rw [hrun] at hposted
  obtain rfl : posted = some wrap := hposted
  have hdelivered : deliver w.files batch wrap turn.post arrives nowMs = (.created, files) := by
    unfold deliver
    rw [hpost, hstored]
    rfl
  have hagain : batch.Sends { turn with post := .created } memory binding wrap :=
    ⟨hsends.yields, hsends.user, hsends.pins, hsends.builds⟩
  refine ⟨memory', ?_⟩
  simp only [ShareWorld.turn, hbatch, hrun, hdelivered, hagain.outcome]
  rfl

end Turns

end ShareWorld

namespace Community

variable (c : Community)

def step (w : ShareWorld) : ShareEvent → ShareWorld × List ShareReport
  | .upload rand dek params streams flags stagedMs finalizedMs =>
    (w.upload rand dek params streams flags stagedMs finalizedMs, [])
  | .prepare myId fileId settings memory =>
    (w.prepare ((c.member myId).map (·.identity)) myId fileId settings memory, [])
  | .turn index turn arrives nowMs => w.turn index turn arrives nowMs

def machine : Machine ShareWorld ShareEvent ShareReport where
  init := ⟨∅, fun _ _ _ => throw badRecord, []⟩
  step := c.step

/-- Owners upload as themselves, from memory, and the server answers lookups with bindings that were
signed for users. -/
def Honest : ShareEvent → Prop
  | .upload _ _ params streams _ _ _ =>
    (∃ m, c.member params.ownerId = some m ∧ params.owner = m.identity) ∧
      ∀ input ∈ streams.inputs, input.2.length < 2 ^ 63
  | .prepare .. => True
  | .turn _ turn _ _ => ∀ binding, turn.lookup.Serves binding →
      ∃ m, c.member binding.userId = some m ∧ m.binding = binding

/-- The reader is served the file, and with the author's published keys the app opens it whole and
for ranges of its content. -/
def Opens (w : ShareWorld) (fileId : Id) (reader : Recipient) (identity : Identity) : Prop :=
  ∃ view parsed manifest author, w.files.getFile fileId .latest reader.id = some view ∧
    parseFileView view = .ok parsed ∧ decode Manifest parsed.manifestBytes = .ok manifest ∧
    c.member manifest.authorId = some author ∧
    let ctx := buildVerifyCtx fileId author.binding.author reader identity
    (∃ download file, buildDownloadBundle (w.chunks fileId) parsed = .ok download ∧
      verifyAndOpen ctx download = .ok file) ∧
    ∃ header decryptor, buildStreamHeader (w.chunks fileId) parsed = .ok header ∧
      openContentDecryptor ctx header = .ok decryptor

/-- A user with his identity, or the recovery recipient with any. -/
inductive Reader : Recipient → Identity → Prop
  | user {id : Id} {m : Member} : c.member id = some m → Reader (.user id) m.identity
  | recovery {identity : Identity} : Reader .recovery identity

def after (events : List ShareEvent) : ShareWorld := (c.machine.run events).1

/-- Whenever a turn reports a share, its recipient can open the file from then on, and no turn costs
anybody a file that he could open. -/
structure SharesOpen (events : List ShareEvent) : Prop where
  opens : ∀ before index turn arrives nowMs later,
    events = before ++ .turn index turn arrives nowMs :: later →
      ∀ report ∈ ((c.after before).turn index turn arrives nowMs).2, report.ok = true →
        ∃ m, c.member report.recipientId = some m ∧
          c.Opens ((c.after before).turn index turn arrives nowMs).1 report.fileId
            (.user report.recipientId) m.identity
  keeps : ∀ before index turn arrives nowMs later,
    events = before ++ .turn index turn arrives nowMs :: later →
      ∀ fileId reader identity, c.Reader reader identity →
        c.Opens (c.after before) fileId reader identity →
          c.Opens ((c.after before).turn index turn arrives nowMs).1 fileId reader identity

/-- If a turn sends a wrap, it is the owner of the file who shares, and he is logged in. -/
def ByOwner (w : ShareWorld) : ShareEvent → Prop
  | .turn index turn _ _ => ∀ batch memory, w.batches[index]? = some (batch, memory) →
      ∀ binding wrap, batch.Sends turn memory binding wrap →
        ∃ entry m, w.files.lookup batch.fileId = some entry ∧ batch.granterId = entry.ownerId ∧
          c.member entry.ownerId = some m ∧ turn.session = some m.identity
  | _ => True

end Community

end Runs

end MaxSecu
