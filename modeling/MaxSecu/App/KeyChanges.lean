import MaxSecu.App.Share

/-!
# Confirming a changed key

When the key of a recipient is not the one that was pinned, the share is refused with the old and
the new fingerprint, and the user may confirm the change in a later call.  What crosses over is the
username alone: the later call resolves the key again, and pins whatever it then is.

`reshare_seenFirst_iff` says that only keys that were shown are pinned in the place of others
exactly when the server answers a confirmed name with its pinned key or one that was shown.
-/

namespace MaxSecu

open ExceptRules

/-- Whom to share with, and whose new keys are confirmed. -/
structure ReshareRequest where
  recipientUsernames : List String
  acceptedKeyChanges : List String

/-- The share of one file, once everything that all recipients need is there.  Each recipient has
one turn. -/
structure TargetShare (req : ReshareRequest) where
  batch : ReshareBatch
  trust : TrustStore
  turns : List ShareTurn
  accepted : batch.acceptedKeyChanges = req.acceptedKeyChanges
  usernames : turns.map ShareTurn.username = req.recipientUsernames

/-- One row for each recipient of a bundle: shared if every file of it was, and else the code of the
first file that was not. -/
def aggregateBundleOutcomes (perTarget : List (List ReshareOutcomeDto))
    (recipients : List String) : List ReshareOutcomeDto :=
  recipients.mapIdx fun i username =>
    let code := perTarget.findSome? fun target =>
      match target[i]? with
      | some o => if o.ok then none else some (o.code.getD "share_failed")
      | none => some "share_failed"
    ⟨username, code.isNone, code, none, none⟩

/-- A call of the user, with what its preparations came to: a share of one file, or of a bundle and
its members. -/
inductive ShareCall
  | file (req : ReshareRequest) (target : Except UiError (TargetShare req))
  | bundle (req : ReshareRequest)
      (targets : Except UiError (List (Except UiError (TargetShare req))))

section Calls

variable [UnicodeNormalization] [Sha256] [Ed25519] [Hkdf] [HpkeSeal] [Aes256GcmSeal] [X25519]
  [X25519Base] [MlKem768Encaps]

/-- The pins that the share leaves, and its outcomes. -/
def TargetShare.run {req : ReshareRequest} (t : TargetShare req) (tofu : TofuStore) :
    TofuStore × List ReshareOutcomeDto :=
  let (memory, rows) := (runReshareBatch t.batch ⟨t.trust, tofu⟩).run t.turns
  (memory.tofu, rows.map Prod.fst)

/-- The files of a bundle, one after the other.  A file that cannot be prepared fails for every
recipient. -/
def runTargets {req : ReshareRequest} (tofu : TofuStore) :
    List (Except UiError (TargetShare req)) → TofuStore × List (List ReshareOutcomeDto)
  | [] => (tofu, [])
  | .error e :: rest =>
    let (tofu', outcomes) := runTargets tofu rest
    (tofu', req.recipientUsernames.map (ReshareOutcomeDto.failed · e.code) :: outcomes)
  | .ok t :: rest =>
    let (tofu', outcomes) := runTargets (t.run tofu).1 rest
    (tofu', (t.run tofu).2 :: outcomes)

/-- The pins that a call leaves, and what it reports to the user. -/
def ShareCall.run (tofu : TofuStore) : ShareCall → TofuStore × List ReshareOutcomeDto
  | .file _ (.error _) => (tofu, [])
  | .file _ (.ok t) => t.run tofu
  | .bundle _ (.error _) => (tofu, [])
  | .bundle req (.ok targets) =>
    let (tofu', perTarget) := runTargets tofu targets
    (tofu', aggregateBundleOutcomes perTarget req.recipientUsernames)

/-- Calls one after the other, over the pins on the disk. -/
def shareMachine (tofu : TofuStore) : Machine TofuStore ShareCall ReshareOutcomeDto where
  init := tofu
  step := ShareCall.run

lemma run_file_singleton {req : ReshareRequest} (t : TargetShare req) (tofu : TofuStore)
    {turn : ShareTurn} (hturns : t.turns = [turn]) :
    (shareMachine tofu).run [.file req (.ok t)] =
      ((t.batch.turn turn ⟨t.trust, tofu⟩).2.tofu,
        [(t.batch.turn turn ⟨t.trust, tofu⟩).1.1]) := by
  have hrun : t.run tofu = ((t.batch.turn turn ⟨t.trust, tofu⟩).2.tofu,
      [(t.batch.turn turn ⟨t.trust, tofu⟩).1.1]) := by
    unfold TargetShare.run
    rw [hturns]
    rfl
  rw [← hrun]
  rfl

/-! ## The turns of a call -/

/-- A turn of the share, and the memory that it meets. -/
def TargetShare.Meets {req : ReshareRequest} (t : TargetShare req) (tofu : TofuStore)
    (batch : ReshareBatch) (turn : ShareTurn) (memory : ShareMemory) : Prop :=
  batch = t.batch ∧ ∃ earlier rest, t.turns = earlier ++ turn :: rest ∧
    memory = t.batch.after ⟨t.trust, tofu⟩ earlier

inductive ShareCall.Meets (tofu : TofuStore) (batch : ReshareBatch) (turn : ShareTurn)
    (memory : ShareMemory) : ShareCall → Prop
  | file {req : ReshareRequest} {t : TargetShare req} : t.Meets tofu batch turn memory →
      Meets tofu batch turn memory (.file req (.ok t))
  | bundle {req : ReshareRequest} {t : TargetShare req}
      {earlier rest : List (Except UiError (TargetShare req))} :
      t.Meets (runTargets tofu earlier).1 batch turn memory →
        Meets tofu batch turn memory (.bundle req (.ok (earlier ++ .ok t :: rest)))

/-- An outcome for the username showed the short form of the fingerprint as the new one. -/
def Shown (outcomes : List ReshareOutcomeDto) (username : String) (fp : Bytes 32) : Prop :=
  ∃ o ∈ outcomes, o.username = username ∧ o.newFingerprint = some (shortFingerprint fp)

/-- The answer of the turn brings a key that is not the pinned one, under a name that was
confirmed. -/
def ReshareBatch.Confirms (batch : ReshareBatch) (turn : ShareTurn) (memory : ShareMemory)
    (old fp : Bytes 32) : Prop :=
  ∃ bytes binding, turn.lookup.Yields batch.verifier batch.nowMs memory.trust bytes binding ∧
    binding.userId ≠ RECOVERY_ID ∧ fp = binding.author.keyFingerprint ∧
    turn.username ∈ batch.acceptedKeyChanges ∧ memory.tofu turn.username = some old ∧ old ≠ fp

/-- Only keys that earlier calls showed are pinned in the place of others, and another key is
reported as changed and gets no wrap. -/
structure SeenFirst (tofu : TofuStore) (calls : List ShareCall) : Prop where
  repinned : ∀ before call later, calls = before ++ call :: later → ∀ batch turn memory,
    call.Meets ((shareMachine tofu).run before).1 batch turn memory → ∀ old fp,
      memory.tofu turn.username = some old →
      (batch.turn turn memory).2.tofu turn.username = some fp → old ≠ fp →
        Shown ((shareMachine tofu).run before).2 turn.username fp
  changedAgain : ∀ before call later, calls = before ++ call :: later → ∀ batch turn memory,
    call.Meets ((shareMachine tofu).run before).1 batch turn memory → ∀ old fp,
      batch.Confirms turn memory old fp →
      ¬ Shown ((shareMachine tofu).run before).2 turn.username fp →
        (batch.turn turn memory).1 = (.keyChanged turn.username (some old) fp, none)

/-! ## What a turn pins -/

variable {batch : ReshareBatch} {turn : ShareTurn} {memory : ShareMemory} {old fp : Bytes 32}

omit [Hkdf] [HpkeSeal] [Aes256GcmSeal] [X25519] [X25519Base] [MlKem768Encaps] [UnicodeNormalization]
  [Ed25519] in
lemma ReshareBatch.pinRecipient_of_matched {author : VerifiedAuthor} {tofu : TofuStore}
    (hold : tofu turn.username = some author.keyFingerprint) :
    batch.pinRecipient turn author tofu = .ok tofu := by
  have hcheck : tofu.checkOrPin turn.username author.keyFingerprint turn.write =
      .ok (.matched, tofu) := by
    rw [TofuStore.checkOrPin, hold]
    exact if_pos rfl
  rw [ReshareBatch.pinRecipient, hcheck]
  rfl

omit [Hkdf] [HpkeSeal] [Aes256GcmSeal] [X25519] [X25519Base] [MlKem768Encaps] [UnicodeNormalization]
  [Ed25519] in
/-- Another key than the pinned one is pinned if the name was confirmed, whichever key it is. -/
lemma ReshareBatch.pinRecipient_of_changed (batch : ReshareBatch) {author : VerifiedAuthor}
    {tofu : TofuStore}
    (hold : tofu turn.username = some old) (hne : old ≠ author.keyFingerprint) :
    batch.pinRecipient turn author tofu =
      if turn.username ∈ batch.acceptedKeyChanges then
        (tofu.repin turn.username author.keyFingerprint turn.write).mapError
          fun e => .failed turn.username e.code
      else
        throw (.keyChanged turn.username (some old) author.keyFingerprint) := by
  have hcheck : tofu.checkOrPin turn.username author.keyFingerprint turn.write =
      .ok (.changed, tofu) := by
    rw [TofuStore.checkOrPin, hold]
    exact if_neg hne
  rw [ReshareBatch.pinRecipient, hcheck, ← hold]
  rfl

/-- A turn that leaves other pins than it met has compared the key in its answer with the pin. -/
lemma ReshareBatch.pins_of_changed (hchanged : (batch.turn turn memory).2.tofu ≠ memory.tofu) :
    ∃ bytes binding, turn.lookup.Yields batch.verifier batch.nowMs memory.trust bytes binding ∧
      binding.userId ≠ RECOVERY_ID ∧
      batch.pinRecipient turn binding.author memory.tofu =
        .ok (batch.turn turn memory).2.tofu := by
  unfold ReshareBatch.turn at hchanged ⊢
  rcases hresolve : runFrom (resolveRecipient batch.verifier turn.lookup batch.nowMs) memory.trust
    with ⟨result, trust⟩
  rw [hresolve] at hchanged
  cases result with
  | error e => exact absurd rfl hchanged
  | ok author =>
    obtain ⟨bytes, binding, hyields, huser, rfl, -⟩ := resolveRecipient_eq_ok.mp hresolve
    refine ⟨bytes, binding, hyields, huser, ?_⟩
    cases hpin : batch.pinRecipient turn binding.author memory.tofu with
    | error outcome =>
      simp only [hpin] at hchanged
      exact absurd rfl hchanged
    | ok tofu' =>
      cases hbuild : batch.build turn binding.author with
      | error outcome => simp only [hpin, hbuild]
      | ok wrap => simp only [hpin, hbuild]

lemma ReshareBatch.confirms_of_repinned (hold : memory.tofu turn.username = some old)
    (hnew : (batch.turn turn memory).2.tofu turn.username = some fp) (hne : old ≠ fp) :
    batch.Confirms turn memory old fp := by
  have hchanged : (batch.turn turn memory).2.tofu ≠ memory.tofu := by
    intro hsame
    rw [hsame, hold] at hnew
    exact hne (Option.some.inj hnew)
  obtain ⟨bytes, binding, hyields, huser, hpin⟩ := ReshareBatch.pins_of_changed hchanged
  by_cases hmatch : old = binding.author.keyFingerprint
  · rw [ReshareBatch.pinRecipient_of_matched (by rw [hold, hmatch])] at hpin
    exact absurd (Except.ok.inj hpin).symm hchanged
  rw [batch.pinRecipient_of_changed hold hmatch] at hpin
  by_cases haccepted : turn.username ∈ batch.acceptedKeyChanges
  · rw [if_pos haccepted] at hpin
    obtain ⟨-, -, hupdate⟩ := bind_eq_ok.mp (mapError_eq_ok.mp hpin)
    rw [← pure_eq_ok.mp hupdate, Function.update_self] at hnew
    exact ⟨bytes, binding, hyields, huser, (Option.some.inj hnew).symm, haccepted, hold, hne⟩
  · rw [if_neg haccepted] at hpin
    cases hpin

omit [Sha256] [UnicodeNormalization] in
lemma ReshareBatch.newFingerprint_of_build [Sha256] {author : VerifiedAuthor}
    {outcome : ReshareOutcomeDto} (h : batch.build turn author = .error outcome) :
    outcome.newFingerprint = none := by
  cases hsession : turn.session with
  | none =>
    unfold ReshareBatch.build at h
    rw [hsession] at h
    obtain rfl := Except.error.inj h
    rfl
  | some identity =>
    have hbuild : batch.build turn author = (buildReshare turn.rand (batch.params identity author)
        batch.dek batch.tombstones).mapError fun e =>
          .failed turn.username (reshareErrorCode e) := by
      unfold ReshareBatch.build
      rw [hsession]
      rfl
    rw [hbuild] at h
    cases hreshare : buildReshare turn.rand (batch.params identity author) batch.dek
        batch.tombstones with
    | ok wrap =>
      rw [hreshare] at h
      cases h
    | error e =>
      rw [hreshare] at h
      obtain rfl := Except.error.inj h
      rfl

omit [UnicodeNormalization] [Sha256] [Ed25519] [Hkdf] [HpkeSeal] [Aes256GcmSeal] [X25519]
  [X25519Base] [MlKem768Encaps] in
lemma ShareTurn.newFingerprint_posted : turn.posted.newFingerprint = none := by
  unfold ShareTurn.posted
  cases turn.post <;> rfl

lemma ReshareBatch.Confirms.newFingerprint (h : batch.Confirms turn memory old fp) :
    (batch.turn turn memory).1.1.newFingerprint = none := by
  obtain ⟨bytes, binding, hyields, huser, rfl, haccepted, hold, hne⟩ := h
  have hresolve := resolveRecipient_eq_ok.mpr ⟨bytes, binding, hyields, huser, rfl, rfl⟩
  have hpin := batch.pinRecipient_of_changed hold hne
  rw [if_pos haccepted] at hpin
  unfold ReshareBatch.turn
  rw [hresolve]
  simp only [hpin]
  cases hwrite : memory.tofu.repin turn.username binding.author.keyFingerprint turn.write with
  | error e => rfl
  | ok tofu' =>
    cases hbuild : batch.build turn binding.author with
    | error outcome =>
      show outcome.newFingerprint = none
      exact ReshareBatch.newFingerprint_of_build hbuild
    | ok wrap => exact ShareTurn.newFingerprint_posted

/-- **Which keys a confirmation pins, exactly.**  Only keys that were shown are pinned in the place
of others, and any other is reported, if and only if the answers under confirmed names bring the
pinned key or one that an earlier call showed. -/
theorem reshare_seenFirst_iff (tofu : TofuStore) (calls : List ShareCall) :
    SeenFirst tofu calls ↔ ∀ before call later, calls = before ++ call :: later →
      ∀ batch turn memory, call.Meets ((shareMachine tofu).run before).1 batch turn memory →
        ∀ old fp, batch.Confirms turn memory old fp →
          Shown ((shareMachine tofu).run before).2 turn.username fp := by
  constructor
  · intro hseen before call later hcalls batch turn memory hmeets old fp hconfirms
    by_contra hhidden
    have houtcome := hseen.changedAgain before call later hcalls batch turn memory hmeets old fp
      hconfirms hhidden
    have hnone := hconfirms.newFingerprint
    rw [houtcome] at hnone
    cases hnone
  · intro hshown
    constructor
    · intro before call later hcalls batch turn memory hmeets old fp hold hnew hne
      exact hshown before call later hcalls batch turn memory hmeets old fp
        (ReshareBatch.confirms_of_repinned hold hnew hne)
    · intro before call later hcalls batch turn memory hmeets old fp hconfirms hhidden
      have hseen := hshown before call later hcalls batch turn memory hmeets old fp hconfirms
      exact absurd hseen hhidden

end Calls

/-! ## A key that changes twice -/

section ClosedRuns

open ClosedRuns

/-- A binding of Bob with the keys of one byte. -/
def bobKeyed (user : UInt8) : DirBinding := userBinding bobBinding.username user [.user]

/-- Bob is looked up, and the server answers with this binding. -/
def bobTurn (user : UInt8) : ShareTurn :=
  { misansweredTurn with lookup := .answered (some (encode (bobKeyed user), .replicate 64 0)) }

/-- A file is shared with Bob, whose key may have been confirmed. -/
def bobShare (user : UInt8) (accepted : List String) : ShareCall :=
  .file ⟨["bob"], accepted⟩
    (.ok ⟨{ oneFileBatch with acceptedKeyChanges := accepted }, fun _ => none, [bobTurn user], rfl,
      rfl⟩)

def bobPinned : TofuStore := fun username =>
  if username = "bob" then some (bobKeyed 2).author.keyFingerprint else none

lemma bobTurn_yields (user : UInt8) (accepted : List String) :
    (bobTurn user).lookup.Yields ({ oneFileBatch with acceptedKeyChanges := accepted }).verifier
      ({ oneFileBatch with acceptedKeyChanges := accepted }).nowMs (fun _ => none)
      (encode (bobKeyed user)) (bobKeyed user) :=
  ⟨⟨_, rfl, checkSignature_eq_ok.mpr ⟨rfl, rfl⟩, by rfl⟩, decode_encode trivial, .inl rfl⟩

lemma run_bobShare :
    (shareMachine bobPinned).run [bobShare 3 []] =
      (bobPinned, [.keyChanged "bob" (some (bobKeyed 2).author.keyFingerprint)
        (bobKeyed 3).author.keyFingerprint]) := by
  have huser : (bobKeyed 3).userId ≠ RECOVERY_ID := by decide
  have hresolve := resolveRecipient_eq_ok.mpr ⟨_, _, bobTurn_yields 3 [], huser, rfl, rfl⟩
  have hne : (bobKeyed 2).author.keyFingerprint ≠ (bobKeyed 3).author.keyFingerprint := by decide
  have hpin : ReshareBatch.pinRecipient { oneFileBatch with acceptedKeyChanges := [] } (bobTurn 3)
      (bobKeyed 3).author bobPinned = .error (.keyChanged "bob"
        (some (bobKeyed 2).author.keyFingerprint) (bobKeyed 3).author.keyFingerprint) := by
    have hold : bobPinned (bobTurn 3).username = some (bobKeyed 2).author.keyFingerprint := rfl
    rw [ReshareBatch.pinRecipient_of_changed _ hold hne]
    rfl
  have hturn : ReshareBatch.turn { oneFileBatch with acceptedKeyChanges := [] } (bobTurn 3)
      ⟨fun _ => none, bobPinned⟩ = ((.keyChanged "bob" (some (bobKeyed 2).author.keyFingerprint)
        (bobKeyed 3).author.keyFingerprint, none),
        ⟨TrustStore.remember (fun _ => none) (bobKeyed 3), bobPinned⟩) := by
    unfold ReshareBatch.turn
    rw [hresolve]
    simp only [hpin]
  unfold bobShare
  rw [run_file_singleton _ _ rfl]
  dsimp only
  rw [hturn]

/-- The key changes again before it is confirmed, and the key that nobody saw is pinned. -/
theorem reshare_seenFirst_changedTwice :
    ¬ ∀ (tofu : TofuStore) (calls : List ShareCall), SeenFirst tofu calls := by
  intro hclaim
  have hseen := hclaim bobPinned [bobShare 3 [], bobShare 4 ["bob"]]
  have huser : (bobKeyed 4).userId ≠ RECOVERY_ID := by decide
  have hne : (bobKeyed 2).author.keyFingerprint ≠ (bobKeyed 4).author.keyFingerprint := by decide
  have hconfirms : ReshareBatch.Confirms { oneFileBatch with acceptedKeyChanges := ["bob"] }
      (bobTurn 4) ⟨fun _ => none, bobPinned⟩ (bobKeyed 2).author.keyFingerprint
      (bobKeyed 4).author.keyFingerprint :=
    ⟨_, _, bobTurn_yields 4 ["bob"], huser, rfl, List.mem_singleton_self _, rfl, hne⟩
  have hmeets : (bobShare 4 ["bob"]).Meets ((shareMachine bobPinned).run [bobShare 3 []]).1
      { oneFileBatch with acceptedKeyChanges := ["bob"] } (bobTurn 4)
      ⟨fun _ => none, bobPinned⟩ := by
    rw [run_bobShare]
    exact .file ⟨rfl, [], [], rfl, rfl⟩
  have hother : shortFingerprint (bobKeyed 3).author.keyFingerprint ≠
      shortFingerprint (bobKeyed 4).author.keyFingerprint := by decide
  have hhidden : ¬ Shown ((shareMachine bobPinned).run [bobShare 3 []]).2 (bobTurn 4).username
      (bobKeyed 4).author.keyFingerprint := by
    rintro ⟨o, ho, -, hshown⟩
    rw [run_bobShare] at ho
    obtain rfl := List.mem_singleton.mp ho
    exact hother (Option.some.inj hshown)
  have houtcome := hseen.changedAgain [bobShare 3 []] _ [] rfl _ _ _ hmeets _ _ hconfirms hhidden
  have hnone := hconfirms.newFingerprint
  rw [houtcome] at hnone
  cases hnone

end ClosedRuns

end MaxSecu
