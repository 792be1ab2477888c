import MaxSecu.App.OwnersRecords

/-!
# Whose shares open

A share opens if the owner of the file made it.  The wrap of any other reader is taken by the
server, in the place of the one its recipient had, and is refused by the app: the chain from its
grant to the author goes over a granter whom the app has no key of (`ownersShares_open`).
-/

namespace MaxSecu

open ExceptRules AssociationList

section Runs

variable [UnicodeNormalization] [Sha256] [Ed25519] [Hkdf] [Aes256Gcm] [Aes256GcmSeal] [Hpke]
  [HpkeSeal] [X25519] [X25519Base] [MlKem768] [MlKem768Encaps]

namespace Community

variable {c : Community} {uploads : Id → Option Upload} {w : ShareWorld} {u : Upload}
  {entry : FileEntry} {ver : VersionEntry} {fileId r : Id} {row : WrapInput} {m : Member}

/-! ## Runs of shares -/

lemma after_append_singleton (events : List ShareEvent)
    (event : ShareEvent) : c.after (events ++ [event]) = (c.step (c.after events) event).1 := by
  unfold after
  rw [Machine.run_append_singleton]
  rfl

/-- In every run the server has what was uploaded, and if only owners share, all wraps are
theirs. -/
lemma records_after (haead : AeadOpens) (events : List ShareEvent)
    (hhonest : ∀ event ∈ events, c.Honest event) :
    ∃ uploads, c.Records uploads (c.after events) ∧
      ((∀ before event later, events = before ++ event :: later →
        c.ByOwner (c.after before) event) → c.Shared uploads (c.after events)) := by
  induction events using List.reverseRecOn with
  | nil =>
    obtain ⟨hrecords, hshared⟩ := records_init (c := c)
    exact ⟨_, hrecords, fun _ => hshared⟩
  | append_singleton events event ih =>
    obtain ⟨uploads, hrecords, hshared⟩ := ih fun e he =>
      hhonest e (List.mem_append.mpr (.inl he))
    have hevent := hhonest event (List.mem_append.mpr (.inr (List.mem_singleton_self _)))
    rw [after_append_singleton]
    have hearlier : (∀ before e later, events ++ [event] = before ++ e :: later →
        c.ByOwner (c.after before) e) → c.Shared uploads (c.after events) := by
      intro howner
      refine hshared fun before e later heq => howner before e (later ++ [event]) ?_
      rw [heq, List.append_assoc]
      rfl
    cases event with
    | upload rand dek params streams flags stagedMs finalizedMs =>
      obtain ⟨uploads', hrecords', hshared'⟩ := step_upload haead hrecords hevent.1 hevent.2
      exact ⟨uploads', hrecords', fun howner => hshared' (hearlier howner)⟩
    | prepare myId fileId settings memory =>
      obtain ⟨hrecords', hshared'⟩ := step_prepare hrecords myId fileId settings memory
      exact ⟨uploads, hrecords', fun howner => hshared' (hearlier howner)⟩
    | turn index turn arrives nowMs =>
      obtain ⟨hrecords', hshared'⟩ := step_turn haead hrecords hevent
      exact ⟨uploads, hrecords', fun howner =>
        hshared' (howner events _ [] rfl) (hearlier howner)⟩

omit [Aes256GcmSeal] in
lemma Opens.congr {w' : ShareWorld} {reader : Recipient}
    {identity : Identity} (h : c.Opens w fileId reader identity) (hchunks : w'.chunks = w.chunks)
    (hview : w'.files.getFile fileId .latest reader.id =
      w.files.getFile fileId .latest reader.id) : c.Opens w' fileId reader identity := by
  obtain ⟨view, parsed, manifest, author, hserved, hrest⟩ := h
  rw [← hview] at hserved
  refine ⟨view, parsed, manifest, author, hserved, ?_⟩
  rw [hchunks]
  exact hrest

section Turn

variable {index : ℕ} {turn : ShareTurn} {arrives : Bool} {nowMs : UInt64}

lemma opens_of_byOwner (haead : AeadOpens) (h : c.Records uploads w) (hshared : c.Shared uploads w)
    (hhonest : c.Honest (.turn index turn arrives nowMs))
    (howner : c.ByOwner w (.turn index turn arrives nowMs)) {report : ShareReport}
    (hreport : report ∈ (w.turn index turn arrives nowMs).2) (hok : report.ok = true) :
    ∃ m, c.member report.recipientId = some m ∧
      c.Opens (w.turn index turn arrives nowMs).1 report.fileId (.user report.recipientId)
        m.identity := by
  obtain ⟨hchunks, hbatches, ⟨-, hfails⟩ | ⟨batch, memory, binding, wrap, hbatch, hsends, hstored,
    hreports⟩⟩ := ShareWorld.turn_cases w index turn arrives nowMs
  · rw [hfails report hreport] at hok
    cases hok
  obtain ⟨hreportFile, -, hrecipient⟩ := hreports report hreport
  obtain ⟨u, entry, ver, hu, hfile, huploaded, hchunked, hstores⟩ := h.stores hstored
  have hentry := hstores.known
  rw [hfile] at hentry
  have hgrants := grants_of_byOwner haead hshared hhonest howner hbatch hsends hu hentry
    hstores.rows huploaded
  obtain ⟨u', myId, settings, hu', hmade⟩ := hshared.batches _ (List.mem_of_getElem? hbatch)
  obtain rfl : batch = u'.batch myId settings := hmade
  obtain ⟨identity, request, wrapped, -, rfl, -, htype, hrequest, -⟩ := wrap_of_sends hsends
  obtain ⟨bytes, hyields⟩ := hsends.yields
  obtain ⟨m, hm, -⟩ := hhonest binding hyields.serves
  have hinput : (wrapOut identity.sig request wrapped).input.recipientId = binding.userId := by
    show (if request.recipientType = .recovery then RECOVERY_ID else request.recipientId) = _
    rw [htype, if_neg (by decide), hrequest]
  have hrecipient' : report.recipientId = binding.userId := hrecipient.trans hrequest
  rw [hinput] at hgrants
  have hrow : (ver.addWrap (wrapOut identity.sig request wrapped).input).wrapOf binding.userId =
      some (wrapOut identity.sig request wrapped).input := by
    rw [VersionEntry.wrapOf_addWrap, if_pos hinput.symm]
  have hknown : (w.turn index turn arrives nowMs).1.files.lookup u.params.fileId =
      some (entry.addWrap (wrapOut identity.sig request wrapped).input nowMs) := by
    rw [hstores.lookup, if_pos rfl]
  rw [hrecipient', hreportFile, ← hfile]
  rw [← hfile, ← hchunks] at hchunked
  exact ⟨m, hm, huploaded.opens haead hstores.rows' hknown hchunked hm hrow hgrants⟩

lemma keeps_of_byOwner (haead : AeadOpens) (h : c.Records uploads w) (hshared : c.Shared uploads w)
    (hhonest : c.Honest (.turn index turn arrives nowMs))
    (howner : c.ByOwner w (.turn index turn arrives nowMs)) {reader : Recipient}
    {identity : Identity} (hreader : c.Reader reader identity)
    (hopens : c.Opens w fileId reader identity) :
    c.Opens (w.turn index turn arrives nowMs).1 fileId reader identity := by
  obtain ⟨hchunks, hbatches, ⟨hfiles, -⟩ | ⟨batch, memory, binding, wrap, hbatch, hsends, hstored,
    -⟩⟩ := ShareWorld.turn_cases w index turn arrives nowMs
  · exact hopens.congr hchunks (by rw [hfiles])
  obtain ⟨u, entry, ver, hu, hfile, huploaded, hchunked, hstores⟩ := h.stores hstored
  by_cases hother : fileId ≠ u.params.fileId
  · refine hopens.congr hchunks (FileStore.getFile_of_lookup ?_)
    rw [hstores.lookup, if_neg hother]
  obtain rfl : fileId = u.params.fileId := not_not.mp hother
  have hknown : (w.turn index turn arrives nowMs).1.files.lookup u.params.fileId =
      some (entry.addWrap wrap.input nowMs) := by
    rw [hstores.lookup, if_pos rfl]
  by_cases hr : reader.id = wrap.input.recipientId
  · -- the reader has a new wrap by the owner
    have hentry := hstores.known
    rw [hfile] at hentry
    have hgrants := grants_of_byOwner haead hshared hhonest howner hbatch hsends hu hentry
      hstores.rows huploaded
    rw [← hr] at hgrants
    have hrow : (ver.addWrap wrap.input).wrapOf reader.id = some wrap.input := by
      rw [VersionEntry.wrapOf_addWrap, if_pos hr]
    rw [← hfile, ← hchunks] at hchunked
    cases hreader with
    | user hm => exact huploaded.opens haead hstores.rows' hknown hchunked hm hrow hgrants
    | recovery => exact absurd hr.symm hstores.user
  · refine hopens.congr hchunks ?_
    have hu' : uploads u.params.fileId = some u := by
      rw [hfile]
      exact hu
    refine hstores.getFile hr fun row hrow => ?_
    exact (hshared.grants _ u entry ver reader.id row hu' hstores.known hstores.rows
      hrow).grantedBy

omit [Sha256] [Hkdf] [Aes256Gcm] [Aes256GcmSeal] [X25519] [X25519Base] [MlKem768]
  [MlKem768Encaps] [Hpke] [HpkeSeal] [UnicodeNormalization] in
lemma granter_of_verifyGrantChain {g : Grant} {sig : Bytes 64}
    {ancestors : List (List UInt8 × Bytes 64)} {fileId authorId : Id} {version : UInt64}
    {dekCommit : Hash} {authorPub : Bytes 32}
    (h : verifyGrantChain g sig ancestors fileId version dekCommit authorId authorPub
      (fun _ => none) (some fun _ => none) = .ok ()) : g.grantedBy = authorId := by
  by_contra hother
  obtain ⟨byRecipient, -, hwalk⟩ := bind_eq_ok.mp h
  unfold walkGrantChain at hwalk
  simp only [if_neg hother] at hwalk
  cases hserved : byRecipient g.grantedBy with
  | none =>
    rw [hserved] at hwalk
    cases hwalk
  | some served =>
    rw [hserved] at hwalk
    obtain ⟨pub, hpub, -⟩ := bind_eq_ok.mp hwalk
    cases hpub

lemma granter_of_opens (h : c.Records uploads w) {report : ShareReport}
    (hreport : report ∈ (w.turn index turn arrives nowMs).2) (hok : report.ok = true)
    {identity : Identity}
    (hopens : c.Opens (w.turn index turn arrives nowMs).1 report.fileId (.user report.recipientId)
      identity) {entry : FileEntry} (hentry : w.files.lookup report.fileId = some entry) :
    report.granterId = entry.ownerId := by
  obtain ⟨-, -, ⟨-, hfails⟩ | ⟨batch, memory, binding, wrap, hbatch, hsends, hstored, hreports⟩⟩ :=
    ShareWorld.turn_cases w index turn arrives nowMs
  · rw [hfails report hreport] at hok
    cases hok
  obtain ⟨hreportFile, hgranter, hrecipient⟩ := hreports report hreport
  obtain ⟨u, entry', ver, -, hfile, -, -, hstores⟩ := h.stores hstored
  obtain ⟨signer, -, hbuild⟩ := bind_eq_ok.mp hsends.builds
  obtain ⟨-, -, -, wrapped, -, hwrap⟩ := buildReshare_eq_ok.mp (mapError_eq_ok.mp hbuild)
  have hinput : wrap.input.recipientId = wrap.recipientId := by
    rw [← hwrap]
    rfl
  have hwell : wrap.grant.WellFormed := by
    intro hrecovery
    rw [← hwrap] at hrecovery
    cases hrecovery
  have hgrantedBy : wrap.grant.grantedBy = batch.granterId := by
    rw [← hwrap]
    rfl
  rw [hreportFile, ← hfile] at hopens hentry
  obtain rfl : entry' = entry := Option.some.inj (hstores.known.symm.trans hentry)
  rw [hgranter, hstores.rows.ownerId, ← hgrantedBy]
  -- the recipient is served the wrap that was posted
  obtain ⟨view, parsed, manifest, author, hview, hparse, -, -, ⟨download, file, hdownload, hopen⟩,
    -⟩ := hopens
  have hrow : (ver.addWrap wrap.input).wrapOf (Recipient.user report.recipientId).id =
      some wrap.input := by
    rw [VersionEntry.wrapOf_addWrap, hinput]
    exact if_pos hrecipient
  have hknown : (w.turn index turn arrives nowMs).1.files.lookup u.params.fileId =
      some (entry'.addWrap wrap.input nowMs) := by
    rw [hstores.lookup, if_pos rfl]
  rw [hstores.rows'.getFile hknown, hrow, Option.map_some] at hview
  obtain rfl := Option.some.inj hview
  obtain ⟨parsed', hparse', hsigned, -⟩ := (hstores.rows'.shows (w := wrap)).parses
  obtain rfl : parsed' = parsed := Except.ok.inj (hparse'.symm.trans hparse)
  obtain ⟨streams, -, hstreams⟩ := bind_eq_ok.mp hdownload
  obtain rfl := pure_eq_ok.mp hstreams
  -- and the chain from it was accepted
  obtain ⟨manifest, dek, rok, hheader, -⟩ := verifyAndOpen_eq_ok.mp hopen
  obtain ⟨genesis, grant, haccepts, -⟩ := verifyHeader_eq_ok.mp hheader
  have hmanifest := haccepts.decodesManifest
  have hmanifestBytes : parsed'.records.manifestBytes = encode u.bundle.manifest :=
    hsigned.manifestBytes
  rw [hmanifestBytes, decode_encode (u.params.bundle_wellFormed u.dek u.streams u.wraps)]
    at hmanifest
  obtain rfl := Except.ok.inj hmanifest
  have hgrant := haccepts.decodesGrant
  have hgrantBytes : parsed'.records.grantBytes = encode wrap.grant := hsigned.grantBytes
  rw [hgrantBytes, decode_encode hwell] at hgrant
  obtain rfl := Except.ok.inj hgrant
  exact granter_of_verifyGrantChain haccepts.chain

end Turn

end Community

/-- **Whose shares open, exactly.**  If only owners share, then whatever is reported as shared can
be opened, and no share costs anybody a file.  And where that is so, all shares that were reported
as done were the owners'. -/
theorem ownersShares_open (haead : AeadOpens) (c : Community) (events : List ShareEvent)
    (hhonest : ∀ event ∈ events, c.Honest event) :
    ((∀ before event later, events = before ++ event :: later →
      c.ByOwner (c.after before) event) → c.SharesOpen events) ∧
    (c.SharesOpen events → ∀ before index turn arrives nowMs later,
      events = before ++ .turn index turn arrives nowMs :: later →
        ∀ report ∈ ((c.after before).turn index turn arrives nowMs).2, report.ok = true →
          ∀ entry, (c.after before).files.lookup report.fileId = some entry →
            report.granterId = entry.ownerId) := by
  have hearlier : ∀ before event later, events = before ++ event :: later →
      ∃ uploads, c.Records uploads (c.after before) ∧
        ((∀ before event later, events = before ++ event :: later →
          c.ByOwner (c.after before) event) → c.Shared uploads (c.after before)) := by
    intro before event later heq
    obtain ⟨uploads, hrecords, hshared⟩ := Community.records_after (c := c) haead before
      fun e he => hhonest e (by rw [heq]; exact List.mem_append.mpr (.inl he))
    refine ⟨uploads, hrecords, fun howner => hshared fun before' e later' heq' => ?_⟩
    refine howner before' e (later' ++ event :: later) ?_
    rw [heq, heq', List.append_assoc]
    rfl
  have hmem : ∀ before event later, events = before ++ event :: later → c.Honest event := by
    intro before event later heq
    exact hhonest event (by rw [heq]; exact List.mem_append.mpr (.inr (List.mem_cons_self ..)))
  constructor
  · intro howner
    constructor
    · intro before index turn arrives nowMs later heq report hreport hok
      obtain ⟨uploads, hrecords, hshared⟩ := hearlier before _ later heq
      exact Community.opens_of_byOwner haead hrecords (hshared howner) (hmem before _ later heq)
        (howner before _ later heq) hreport hok
    · intro before index turn arrives nowMs later heq fileId reader identity hreader hopens
      obtain ⟨uploads, hrecords, hshared⟩ := hearlier before _ later heq
      exact Community.keeps_of_byOwner haead hrecords (hshared howner) (hmem before _ later heq)
        (howner before _ later heq) hreader hopens
  · intro hopen before index turn arrives nowMs later heq report hreport hok entry hentry
    obtain ⟨uploads, hrecords, -⟩ := hearlier before _ later heq
    obtain ⟨m, -, hopens⟩ := hopen.opens before index turn arrives nowMs later heq report hreport
      hok
    exact Community.granter_of_opens hrecords hreport hok hopens hentry

end Runs

/-! ## A share by the owner, and one by a reader -/

section ClosedRuns

open ClosedRuns Community

/-- A user whose keys repeat one byte. -/
def plainMember (username : Text) (user : UInt8) : Member where
  identity := ⟨⟨.replicate 32 user⟩, ⟨.replicate 32 user⟩, ⟨.replicate 32 user⟩, none⟩
  binding := userBinding username user [.user]

lemma plainMember_enrolled {username : Text} {user : UInt8}
    (huser : (⟨.replicate 16 user⟩ : Id) ≠ RECOVERY_ID) : (plainMember username user).Enrolled :=
  ⟨huser, rfl, rfl, rfl, verifies _, holdsKeys fun _ => rfl⟩

lemma alice_isNfc : UnicodeNormalization.isNfc "alice" = true := by decide

lemma alice_size_le : "alice".utf8ByteSize ≤ MAX_TEXT := by decide

lemma carol_isNfc : UnicodeNormalization.isNfc "carol" = true := by decide

lemma carol_size_le : "carol".utf8ByteSize ≤ MAX_TEXT := by decide

def alice : Member := plainMember ⟨"alice", alice_isNfc, alice_size_le⟩ 1

def bob : Member := plainMember bobBinding.username 2

def carol : Member := plainMember ⟨"carol", carol_isNfc, carol_size_le⟩ 3

def threeUsers (id : Id) : Option Member :=
  [alice, bob, carol].find? fun m => m.binding.userId = id

lemma threeUsers_enrolled (id : Id) (m : Member) (hm : threeUsers id = some m) : m.Enrolled := by
  have hmem := List.mem_of_find?_eq_some hm
  simp only [List.mem_cons, List.not_mem_nil, or_false] at hmem
  obtain rfl | rfl | rfl := hmem
  · exact plainMember_enrolled (by decide)
  · exact plainMember_enrolled (by decide)
  · exact plainMember_enrolled (by decide)

lemma threeUsers_userId (id : Id) (m : Member) (hm : threeUsers id = some m) :
    m.binding.userId = id := by
  simpa using List.find?_some hm

/-- Alice, Bob and Carol. -/
def threeCommunity : Community := ⟨threeUsers, threeUsers_enrolled, threeUsers_userId⟩

def plainSettings : ShareSettings := ⟨⟨[]⟩, [], zeroVerifier, 0⟩

def plainMemory : ShareMemory := ⟨fun _ => none, fun _ => none⟩

/-- The recipient is looked up by name, and his binding is answered. -/
def plainTurn (granter recipient : Member) : ShareTurn where
  username := recipient.binding.username.str
  lookup := .answered (some (encode recipient.binding, .replicate 64 0))
  write := .ok ()
  session := some granter.identity
  rand := plainEntropy 0
  post := .created

def aliceUploads : ShareEvent :=
  .upload plainEntropy plainDek (plainUpload alice.binding.userId) (contentOnly [1, 2]) ⟨true, none⟩
    0 0

def prepares (granter : Member) : ShareEvent :=
  .prepare granter.binding.userId ⟨.replicate 16 5⟩ plainSettings plainMemory

def shares (index : ℕ) (granter recipient : Member) : ShareEvent :=
  .turn index (plainTurn granter recipient) true 0

/-- Alice uploads a file and shares it with Bob. -/
def aliceShares : List ShareEvent := [aliceUploads, prepares alice, shares 0 alice bob]

def bobShares : List ShareEvent := aliceShares ++ [prepares bob, shares 1 bob carol]

lemma shares_honest {index : ℕ} {granter recipient : Member}
    (hrecipient : threeUsers recipient.binding.userId = some recipient) :
    threeCommunity.Honest (shares index granter recipient) := by
  intro binding hserves
  have hserves' : (plainTurn granter recipient).lookup.Serves recipient.binding :=
    ⟨_, _, rfl, decode_encode trivial⟩
  obtain rfl := hserves.unique hserves'
  exact ⟨recipient, hrecipient, rfl⟩

lemma bobShares_honest : ∀ event ∈ bobShares, threeCommunity.Honest event := by
  intro event hevent
  simp only [bobShares, aliceShares, List.cons_append, List.nil_append, List.mem_cons,
    List.not_mem_nil, or_false] at hevent
  obtain rfl | rfl | rfl | rfl | rfl := hevent
  · refine ⟨⟨alice, rfl, rfl⟩, ?_⟩
    intro input hinput
    obtain rfl : input = (.content, [1, 2]) := List.mem_singleton.mp hinput
    decide
  · trivial
  · exact shares_honest rfl
  · trivial
  · exact shares_honest rfl

section Turns

variable {u : Upload} {w : ShareWorld} {entry : FileEntry} {ver : VersionEntry}

lemma exists_sends (hparams : u.params = plainUpload alice.binding.userId) (granter : Member)
    (username : Text) {user : UInt8} (huser : (⟨.replicate 16 user⟩ : Id) ≠ RECOVERY_ID) :
    ∃ wrap, (u.batch granter.binding.userId plainSettings).Sends
        (plainTurn granter (plainMember username user)) plainMemory
        (plainMember username user).binding wrap ∧
      wrap.recipientId = ⟨.replicate 16 user⟩ ∧
      wrap.input.recipientId = ⟨.replicate 16 user⟩ ∧
      wrap.input.isReshareBy granter.binding.userId = true := by
  set recipient := plainMember username user with hrecipient
  have hpasses : zeroVerifier.Passes recipient.binding (.replicate 64 0) 0 :=
    ⟨checkSignature_eq_ok.mpr ⟨rfl, rfl⟩, by rfl⟩
  have hyields : (plainTurn granter recipient).lookup.Yields zeroVerifier 0 plainMemory.trust
      (encode recipient.binding) recipient.binding :=
    ⟨⟨_, rfl, hpasses⟩, decode_encode trivial, .inl rfl⟩
  have hsuite : u.params.suite = .v1 := by
    rw [hparams]
    rfl
  obtain ⟨wrapped, hwrapped⟩ : ∃ wrapped, wrapUnder .v1 (plainTurn granter recipient).rand
      ⟨recipient.binding.author.encPub⟩ recipient.binding.author.mlkemPub u.dek
      ⟨u.params.fileId, FIRST_VERSION, recipient.binding.userId⟩ = .ok wrapped := ⟨_, rfl⟩
  rw [← hsuite] at hwrapped
  set batch := u.batch granter.binding.userId plainSettings with hbatch
  have hactive : ¬ (batch.tombstones.isAccountRevoked recipient.binding.userId ∨
      batch.tombstones.isRevoked recipient.binding.userId batch.fileId batch.version) := by
    show ¬ ((⟨[]⟩ : TombstoneSet).isAccountRevoked recipient.binding.userId ∨
      (⟨[]⟩ : TombstoneSet).isRevoked recipient.binding.userId u.params.fileId FIRST_VERSION)
    simp [TombstoneSet.isAccountRevoked, TombstoneSet.isRevoked, revocationsIn]
  obtain ⟨wrap, hwrap⟩ : ∃ wrap, wrapOut granter.identity.sig
      ((batch.params granter.identity recipient.binding.author).request batch.dek) wrapped =
        wrap := ⟨_, rfl⟩
  have hreshare : buildReshare (plainTurn granter recipient).rand
      (batch.params granter.identity recipient.binding.author) batch.dek batch.tombstones =
        .ok wrap := buildReshare_eq_ok.mpr ⟨rfl, huser, hactive, wrapped, hwrapped, hwrap⟩
  refine ⟨wrap, ⟨⟨_, hyields⟩, huser, ⟨_, ReshareBatch.pinRecipient_of_new rfl rfl⟩,
    bind_eq_ok.mpr ⟨granter.identity, rfl, mapError_eq_ok.mpr hreshare⟩⟩, ?_⟩
  rw [← hwrap]
  exact ⟨rfl, rfl, decide_eq_true ⟨rfl, rfl, huser⟩⟩

/-- Alice's file is there, every wrap is hers, the holder has one, and this many batches are under
way. -/
structure Holds (w : ShareWorld) (u : Upload) (holder : Member) (batches : ℕ) : Prop where
  params : u.params = plainUpload alice.binding.userId
  shared : ∃ uploads, uploads u.params.fileId = some u ∧ threeCommunity.Records uploads w ∧
    threeCommunity.Shared uploads w
  rows : ∃ entry ver row, w.files.lookup u.params.fileId = some entry ∧ u.Rows entry ver ∧
    ver.wrapOf holder.binding.userId = some row
  batches : w.batches.length = batches

lemma holds_upload : ∃ u, Holds (threeCommunity.after [aliceUploads]) u alice 0 := by
  have hid : (⟨.replicate 16 1⟩ : Id) ≠ RECOVERY_ID := by decide
  obtain ⟨bundle, hbuild⟩ := exists_buildUploadInner alice.binding.userId (contentOnly [1, 2])
  have hwithin := within_contentOnly (show [1, 2].length < 2 ^ 20 by decide) alice.binding.userId
  obtain ⟨u, entry, ver, hparams, hstreams, hsize, hwraps, hgains⟩ :=
    gains_of_upload (w := threeCommunity.machine.init) aeadOpens ⟨true, none⟩ 0 0 hid hbuild hwithin
      rfl
  have hafter : threeCommunity.after [aliceUploads] =
      threeCommunity.machine.init.upload plainEntropy plainDek (plainUpload alice.binding.userId)
        (contentOnly [1, 2]) ⟨true, none⟩ 0 0 := by
    rw [← List.nil_append [aliceUploads], after_append_singleton]
    unfold aliceUploads
    have hinit : threeCommunity.after [] = threeCommunity.machine.init := rfl
    rw [hinit]
    unfold Community.step
    dsimp only
  rw [← hafter] at hgains
  rw [← hstreams] at hwithin
  rw [← hparams] at hwithin hsize hwraps
  have huploaded : threeCommunity.Uploaded u := by
    refine ⟨⟨alice, ?_, ?_⟩, hsize, hwithin⟩
    · rw [hparams]
      rfl
    · rw [hparams]
      rfl
  obtain ⟨hrecords, hshared⟩ := records_init (c := threeCommunity)
  obtain ⟨hrecords', hshared'⟩ := hrecords.gain aeadOpens huploaded hwraps hgains
  have hrow : ∃ row, ver.wrapOf alice.binding.userId = some row := by
    refine Option.isSome_iff_exists.mp (VersionEntry.isSome_wrapOf.mpr ?_)
    rw [hgains.wraps]
    refine ⟨_, List.mem_map_of_mem (List.mem_cons_self ..), ?_⟩
    show u.params.ownerId = alice.binding.userId
    rw [hparams]
    rfl
  obtain ⟨row, hrow⟩ := hrow
  refine ⟨u, hparams, ⟨_, Function.update_self .., hrecords', hshared' hshared⟩,
    ⟨entry, ver, row, ?_, hgains.rows, hrow⟩, ?_⟩
  · rw [hgains.lookup, if_pos rfl]
  · rw [hgains.batches]
    rfl

lemma Holds.prepare {holder : Member} {n : ℕ} (h : Holds w u holder n)
    (hm : threeUsers holder.binding.userId = some holder) :
    Holds (threeCommunity.step w (prepares holder)).1 u holder (n + 1) ∧
      (threeCommunity.step w (prepares holder)).1.batches[n]? =
        some (u.batch holder.binding.userId plainSettings, plainMemory) := by
  obtain ⟨uploads, hu, hrecords, hshared⟩ := h.shared
  obtain ⟨entry, ver, row, hentry, hrows, hrow⟩ := h.rows
  have hgrants := hshared.grants _ u entry ver _ row hu hentry hrows hrow
  have hfile : u.params.fileId = ⟨.replicate 16 5⟩ := by
    rw [h.params]
    rfl
  have hmember : (threeCommunity.member holder.binding.userId).map (·.identity) =
      some holder.identity := congrArg (Option.map _) hm
  have hprepared : (threeCommunity.step w (prepares holder)).1 =
      { w with batches :=
          w.batches ++ [(u.batch holder.binding.userId plainSettings, plainMemory)] } := by
    show w.prepare ((threeCommunity.member holder.binding.userId).map (·.identity)) _
      ⟨.replicate 16 5⟩ _ _ = _
    rw [hmember, ← hfile]
    exact prepare_eq hrows hentry hm hrow hgrants plainSettings plainMemory
  obtain ⟨hrecords', hshared'⟩ := step_prepare hrecords holder.binding.userId
    ⟨.replicate 16 5⟩ plainSettings plainMemory
  refine ⟨⟨h.params, ⟨uploads, hu, hrecords', hshared' hshared⟩, ?_, ?_⟩, ?_⟩
  · rw [hprepared]
    exact ⟨entry, ver, row, hentry, hrows, hrow⟩
  · rw [hprepared, List.length_append, h.batches]
    rfl
  · rw [hprepared, ← h.batches]
    exact List.getElem?_concat_length

lemma bob_user : (⟨.replicate 16 2⟩ : Id) ≠ RECOVERY_ID := by decide

lemma carol_user : (⟨.replicate 16 3⟩ : Id) ≠ RECOVERY_ID := by decide

lemma step_shares {index : ℕ} {granter recipient : Member} :
    threeCommunity.step w (shares index granter recipient) =
      w.turn index (plainTurn granter recipient) true 0 := rfl

lemma Holds.turn {holder : Member} {n index : ℕ} (h : Holds w u holder n)
    (hbatch : w.batches[index]? = some (u.batch holder.binding.userId plainSettings, plainMemory))
    (username : Text) {user : UInt8} (huser : (⟨.replicate 16 user⟩ : Id) ≠ RECOVERY_ID) :
    let step := w.turn index (plainTurn holder (plainMember username user)) true 0
    step.2 = [⟨u.params.fileId, holder.binding.userId, ⟨.replicate 16 user⟩, true⟩] ∧
      step.1.batches.length = n ∧ ∃ entry ver row,
        step.1.files.lookup u.params.fileId = some entry ∧ u.Rows entry ver ∧
          ver.wrapOf ⟨.replicate 16 user⟩ = some row := by
  obtain ⟨entry, ver, row, hentry, hrows, hrow⟩ := h.rows
  obtain ⟨wrap, hsends, hrecipient, hinput, hreshare⟩ :=
    exists_sends h.params holder username huser
  have hshape : wrap.input.isHalfShape = false := by
    obtain ⟨-, htype, -⟩ := of_decide_eq_true hreshare
    rw [WrapInput.isHalfShape_eq_false, htype, hinput]
    exact iff_of_false (by decide) huser
  have hstored : runFrom (FileStore.addWrap u.params.fileId wrap.input holder.binding.userId 0)
      w.files = (.ok (), w.files.insert u.params.fileId (entry.addWrap wrap.input 0)) :=
    FileStore.addWrap_eq_ok.mpr ⟨hreshare, entry, hentry, hrows.currentVersion_ne, ver,
      hrows.lookup_current, hrows.finalized,
      VersionEntry.isSome_wrapOf.mp (Option.isSome_iff_exists.mpr ⟨row, hrow⟩), rfl⟩
  obtain ⟨memory', hturn⟩ := ShareWorld.turn_of_stored true hbatch hsends rfl hstored
  intro step
  have hstep : step = _ := hturn
  rw [hstep, hrecipient]
  refine ⟨rfl, ?_, entry.addWrap wrap.input 0, ver.addWrap wrap.input, wrap.input,
    AList.lookup_insert _, hrows.addWrap hshape 0, ?_⟩
  · rw [List.length_set]
    exact h.batches
  · rw [VersionEntry.wrapOf_addWrap, if_pos hinput.symm]

lemma Holds.turn_alice {n index : ℕ} (h : Holds w u alice n)
    (hbatch : w.batches[index]? = some (u.batch alice.binding.userId plainSettings, plainMemory))
    (howner : threeCommunity.ByOwner w (shares index alice bob)) :
    Holds (w.turn index (plainTurn alice bob) true 0).1 u bob n := by
  obtain ⟨uploads, hu, hrecords, hshared⟩ := h.shared
  obtain ⟨-, hlength, hrows⟩ := h.turn hbatch ⟨"bob", by decide, by decide⟩ bob_user
  have hhonest : threeCommunity.Honest (shares index alice bob) := shares_honest rfl
  obtain ⟨hrecords', hshared'⟩ := step_turn aeadOpens hrecords hhonest
  exact ⟨h.params, ⟨uploads, hu, hrecords', hshared' howner hshared⟩, hrows, hlength⟩

end Turns

lemma aliceShares_byOwner {u : Upload} {w : ShareWorld} {n index : ℕ} (h : Holds w u alice n)
    (hbatch : w.batches[index]? = some (u.batch alice.binding.userId plainSettings, plainMemory)) :
    threeCommunity.ByOwner w (shares index alice bob) := by
  intro batch memory hbatch' binding wrap hsends
  rw [hbatch] at hbatch'
  obtain ⟨rfl, rfl⟩ := Prod.mk.inj (Option.some.inj hbatch')
  obtain ⟨entry, ver, row, hentry, hrows, hrow⟩ := h.rows
  have howner : entry.ownerId = alice.binding.userId := by
    rw [hrows.ownerId, h.params]
    rfl
  refine ⟨entry, alice, hentry, howner.symm, ?_, rfl⟩
  rw [howner]
  rfl

/-- Bob opens what Alice shared with him. -/
theorem ownersShares_open_aliceShares :
    threeCommunity.Opens (threeCommunity.after aliceShares) ⟨.replicate 16 5⟩
      (.user bob.binding.userId) bob.identity := by
  obtain ⟨u, huploaded⟩ := holds_upload
  have halice : threeUsers alice.binding.userId = some alice := rfl
  obtain ⟨hprepared, hbatch⟩ := huploaded.prepare halice
  rw [← after_append_singleton] at hprepared hbatch
  have howner := aliceShares_byOwner hprepared hbatch
  have howners : ∀ before event later, aliceShares = before ++ event :: later →
      threeCommunity.ByOwner (threeCommunity.after before) event := by
    intro before event later heq
    obtain ⟨rfl, hfirst⟩ | ⟨before₁, rfl, hrest⟩ := List.cons_eq_append_iff.mp heq
    · rw [(List.cons.inj hfirst).1]
      trivial
    obtain ⟨rfl, hsecond⟩ | ⟨before₂, rfl, hrest'⟩ := List.cons_eq_append_iff.mp hrest
    · rw [(List.cons.inj hsecond).1]
      trivial
    obtain ⟨rfl, hthird⟩ | ⟨before₃, rfl, hnone⟩ := List.cons_eq_append_iff.mp hrest'
    · rw [(List.cons.inj hthird).1]
      exact howner
    · simp at hnone
  have hhonest : ∀ event ∈ aliceShares, threeCommunity.Honest event := by
    intro event hevent
    exact bobShares_honest event (List.mem_append.mpr (.inl hevent))
  have hopens := ((ownersShares_open aeadOpens threeCommunity aliceShares hhonest).1 howners).opens
    ([aliceUploads] ++ [prepares alice]) 0 (plainTurn alice bob) true 0 [] rfl
  obtain ⟨hreports, -⟩ := hprepared.turn hbatch ⟨"bob", by decide, by decide⟩ bob_user
  have hmem : (⟨u.params.fileId, alice.binding.userId, ⟨.replicate 16 2⟩, true⟩ : ShareReport) ∈
      ((threeCommunity.after ([aliceUploads] ++ [prepares alice])).turn 0 (plainTurn alice bob) true
        0).2 := by
    rw [show ((threeCommunity.after _).turn 0 (plainTurn alice bob) true 0).2 = _ from hreports]
    exact List.mem_singleton_self _
  obtain ⟨m, hm, hopen⟩ := hopens _ hmem rfl
  obtain rfl : bob = m := Option.some.inj hm
  have hfile : u.params.fileId = ⟨.replicate 16 5⟩ := by
    rw [hprepared.params]
    rfl
  rw [show aliceShares = [aliceUploads] ++ [prepares alice] ++ [shares 0 alice bob] from rfl,
    after_append_singleton, step_shares, ← hfile]
  exact hopen

/-- Carol cannot open what Bob shared on, though it was reported as done. -/
theorem bobShares_notOpen : ¬ ∀ (c : Community) (events : List ShareEvent),
    (∀ event ∈ events, c.Honest event) → c.SharesOpen events := by
  intro hclaim
  have hopen := hclaim threeCommunity bobShares bobShares_honest
  obtain ⟨u, huploaded⟩ := holds_upload
  have halice : threeUsers alice.binding.userId = some alice := rfl
  obtain ⟨hprepared, hbatch⟩ := huploaded.prepare halice
  have hshared := hprepared.turn_alice hbatch (aliceShares_byOwner hprepared hbatch)
  obtain ⟨hagain, hbatch'⟩ := hshared.prepare (rfl : threeUsers bob.binding.userId = some bob)
  rw [← after_append_singleton, ← step_shares, ← after_append_singleton,
    ← after_append_singleton] at hagain hbatch'
  set before := [aliceUploads] ++ [prepares alice] ++ [shares 0 alice bob] ++ [prepares bob]
    with hbefore
  obtain ⟨hreports, -⟩ := hagain.turn hbatch' ⟨"carol", by decide, by decide⟩ carol_user
  have hmem : (⟨u.params.fileId, bob.binding.userId, ⟨.replicate 16 3⟩, true⟩ : ShareReport) ∈
      ((threeCommunity.after before).turn 1 (plainTurn bob carol) true 0).2 := by
    rw [show ((threeCommunity.after before).turn 1 (plainTurn bob carol) true 0).2 = _ from
      hreports]
    exact List.mem_singleton_self _
  obtain ⟨m, -, hopens⟩ := hopen.opens before 1 (plainTurn bob carol) true 0 [] rfl _ hmem rfl
  obtain ⟨uploads, -, hrecords, -⟩ := hagain.shared
  obtain ⟨entry, ver, row, hentry, hrows, -⟩ := hagain.rows
  have hgranter := granter_of_opens hrecords hmem rfl hopens hentry
  rw [hrows.ownerId, hagain.params] at hgranter
  have hother : (⟨.replicate 16 2⟩ : Id) ≠ ⟨.replicate 16 1⟩ := by decide
  exact hother hgranter

end ClosedRuns

end MaxSecu
