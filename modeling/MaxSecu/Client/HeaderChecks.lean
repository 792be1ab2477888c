import MaxSecu.Client.GrantChain
import MaxSecu.Crypto.KeyPairs

/-!
# What the header checks ask for

The checks that every opener runs first, as one structure: `verifyHeader` succeeds exactly if the
served records satisfy it.
-/

namespace MaxSecu

open ExceptRules

section Signatures

variable [Ed25519]

lemma verify_iff {T : Type} [Canonical T] {pubkey : Bytes 32} {label : String} {v : T}
    {sig : Bytes 64} : verify pubkey label v sig = true ↔ Ed25519.validKey pubkey = true ∧
      Ed25519.verifyStrict pubkey (signingMessage label v) sig = true := by
  unfold verify
  rw [isOk_iff, VerifyingKey.verifyCanonical_eq_ok]

lemma SigningKey.Verifies.verify {T : Type} [Canonical T] {key : SigningKey} (hkey : key.Verifies)
    (label : String) (v : T) :
    MaxSecu.verify key.verifyingKey label v (key.signCanonical label v) = true :=
  verify_iff.mpr ⟨hkey.valid, hkey.verifies _⟩

end Signatures

lemma checkGrantFields_eq_ok {g : Grant} {m : Manifest} {ctx : VerifyContext} :
    checkGrantFields g m ctx = .ok () ↔ g.fileId = ctx.fileId ∧ g.fileVersion = m.version ∧
      g.recipientId = ctx.recipientId ∧ g.recipientType = ctx.recipientType ∧
      g.dekCommit = m.dekCommit := by
  unfold checkGrantFields
  simp only [guard_eq_ok, pure_eq_ok, not_not, ne_eq, and_true]

section Header

variable [Ed25519] [Hkdf] [Aes256Gcm] [Hpke] [X25519] [MlKem768]

/-- The records decode, are signed and consistent, and their key unwraps. -/
structure VerifyContext.Accepts (ctx : VerifyContext) (records : VersionRecords) (m : Manifest)
    (genesis : Genesis) (grant : Grant) (dek : Dek) : Prop where
  decodesManifest : decode Manifest records.manifestBytes = .ok m
  manifestFile : m.fileId = ctx.fileId
  chunkSize : ¬ (m.chunkSize < CHUNK_SIZE_MIN ∨ m.chunkSize > CHUNK_SIZE_MAX)
  manifestSig : verify ctx.authorSigPub Label.manifest.text m records.manifestSig = true
  decodesGenesis : decode Genesis records.genesisBytes = .ok genesis
  genesisFile : genesis.fileId = ctx.fileId
  genesisSig : verify ctx.ownerSigPub Label.genesis.text genesis records.genesisSig = true
  compromise : checkCompromise ctx.compromise genesis = .ok ()
  author : m.authorId = genesis.ownerId
  tombstones : checkTombstones ctx.tombstones m ctx = .ok ()
  version : versionAcceptable m.version ctx.seenMaxVersion = .ok ()
  decodesGrant : decode Grant records.grantBytes = .ok grant
  grantFields : checkGrantFields grant m ctx = .ok ()
  chain : verifyGrantChain grant records.grantSig records.ancestorGrants m.fileId m.version
    m.dekCommit m.authorId ctx.authorSigPub ctx.granterSigPub (some ctx.adminSigPub) = .ok ()
  unwraps : unwrapForSuite ctx m.alg records.wrappedDek ⟨ctx.fileId, m.version, ctx.recipientId⟩ =
    .ok dek
  commit : dek.commit = m.dekCommit.bytes

variable {ctx : VerifyContext} {records : VersionRecords} {m : Manifest} {dek : Dek} {rok : Bool}

lemma verifyHeader_eq_ok :
    verifyHeader ctx records = .ok (m, dek, rok) ↔ ∃ genesis grant,
      ctx.Accepts records m genesis grant dek ∧
        recoveryGrantValid records.recoveryGrantBytes records.recoveryGrantSig m ctx.authorSigPub
          genesis.ownerId = rok := by
  unfold verifyHeader
  simp only [bind_eq_ok, guard_eq_ok, mapError_eq_ok, pure_eq_ok, not_not, ne_eq,
    Bool.not_eq_true, Prod.mk.injEq]
  constructor
  · rintro ⟨m', hmanifest, hfile, hsize, hsig, genesis, hgenesis, hgenesisFile, hgenesisSig, _,
      hcompromise, hauthor, _, htombstones, _, hversion, grant, hgrant, _, hfields, _, hchain, dek',
      hunwrap, hcommit, rfl, rfl, hrok⟩
    exact ⟨genesis, grant, ⟨hmanifest, hfile, hsize, by simpa using hsig, hgenesis, hgenesisFile,
      by simpa using hgenesisSig, hcompromise, hauthor, htombstones, hversion, hgrant, hfields,
      hchain, hunwrap, hcommit⟩, hrok⟩
  · rintro ⟨genesis, grant, h, hrok⟩
    exact ⟨m, h.decodesManifest, h.manifestFile, h.chunkSize, by simpa using h.manifestSig, genesis,
      h.decodesGenesis, h.genesisFile, by simpa using h.genesisSig, (), h.compromise, h.author, (),
      h.tombstones, (), h.version, grant, h.decodesGrant, (), h.grantFields, (), h.chain, dek, h.unwraps,
      h.commit, rfl, rfl, hrok⟩

end Header

end MaxSecu
