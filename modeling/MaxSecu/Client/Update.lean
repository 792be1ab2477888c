import MaxSecu.Client.Transparency
import MaxSecu.Framework.ExceptRules

/-!
# Software updates

A client takes an update that goes forward, whose artifact is the one it downloaded, that a pinned
release key signed, and whose manifest is a leaf of the transparency log of updates.  The log is
pinned by a key of its own; its checkpoints have the form of the sink's.

What the log is good for is seen across clients (`updates_oneBuild`): those whose checkpoints commit
to parts of one log, in which a version is released once, run the same artifact under a version.
-/

namespace MaxSecu

open ExceptRules

/-! ## Verification -/

structure UpdateManifest where
  version : UInt64
  /-- The least version that may take this update. -/
  minVersion : UInt64
  artifactSha256 : Bytes 32
  deriving DecidableEq

/-- A signed checkpoint, and the path that shows the manifest to be a leaf under its root. -/
structure LogInclusion (H : Type) where
  checkpointSig : Bytes 64
  treeSize : UInt64
  root : H
  index : UInt64
  path : List H

inductive UpdateError
  | downgrade
  | badSignature
  | notLogged
  | artifactMismatch
  deriving DecidableEq, Repr

/-- The version that may be applied. -/
structure Verified where
  version : UInt64
  deriving DecidableEq

/-- What a release key signs, which is also the leaf of the log. -/
def manifestSigningBytes (m : UpdateManifest) : List UInt8 :=
  signingInput Label.updateManifest.text
    (Writer.u64 m.version ++ (Writer.u64 m.minVersion ++ m.artifactSha256.toList))

lemma manifestSigningBytes_inj : Function.Injective manifestSigningBytes := by
  rintro ⟨version, minVersion, artifact⟩ ⟨version', minVersion', artifact'⟩ h
  obtain ⟨-, hbody⟩ := signingInput_inj h
  obtain ⟨hversion, hrest⟩ := Reader.u64_reads.put_append_inj trivial trivial hbody
  obtain ⟨hmin, hartifact⟩ := Reader.u64_reads.put_append_inj trivial trivial hrest
  rw [UpdateManifest.mk.injEq]
  exact ⟨hversion, hmin, List.Vector.eq _ _ hartifact⟩

section Verification

variable {H : Type} [DecidableEq H] [Ed25519] (T : LogHash H)

def verifyUpdate (manifest : UpdateManifest) (manifestSig : Bytes 64) (inclusion : LogInclusion H)
    (releasePubs logPubs : List (Bytes 32)) (currentVersion : UInt64) (artifactSha256 : Bytes 32) :
    Except UpdateError Verified :=
  let leaf := manifestSigningBytes manifest
  let logged := anyKeyVerifies logPubs
      (sinkCheckpointSigningInput inclusion.treeSize (T.bytes inclusion.root))
      inclusion.checkpointSig &&
    verifyInclusion T.toTreeHash leaf inclusion.index.toNat inclusion.treeSize.toNat inclusion.path
      inclusion.root
  if manifest.version ≤ currentVersion ∨ currentVersion < manifest.minVersion then
    throw .downgrade
  else if artifactSha256 ≠ manifest.artifactSha256 then
    throw .artifactMismatch
  else if ¬ anyKeyVerifies releasePubs leaf manifestSig then
    throw .badSignature
  else if ¬ logged then
    throw .notLogged
  else
    pure ⟨manifest.version⟩

variable {T} {manifest : UpdateManifest} {manifestSig : Bytes 64} {inclusion : LogInclusion H}
  {releasePubs logPubs : List (Bytes 32)} {currentVersion : UInt64} {artifactSha256 : Bytes 32}

lemma verifyUpdate_eq_ok {v : Verified}
    (h : verifyUpdate T manifest manifestSig inclusion releasePubs logPubs currentVersion
      artifactSha256 = .ok v) :
    (currentVersion < manifest.version ∧ manifest.minVersion ≤ currentVersion) ∧
      artifactSha256 = manifest.artifactSha256 ∧
      anyKeyVerifies releasePubs (manifestSigningBytes manifest) manifestSig = true ∧
      verifyInclusion T.toTreeHash (manifestSigningBytes manifest) inclusion.index.toNat
        inclusion.treeSize.toNat inclusion.path inclusion.root = true ∧
      v = ⟨manifest.version⟩ := by
  unfold verifyUpdate at h
  dsimp only at h
  simp only [guard_eq_ok, pure_eq_ok, not_or, not_not, Bool.and_eq_true, UInt64.not_le,
    UInt64.not_lt] at h
  obtain ⟨hforward, hartifact, hreleased, ⟨-, hlogged⟩, rfl⟩ := h
  exact ⟨hforward, hartifact, hreleased, hlogged, rfl⟩

end Verification

/-! ## Runs -/

/-- What a client is offered: whatever the server, the network and the download bring. -/
structure UpdateOffer (H : Type) where
  manifest : UpdateManifest
  manifestSig : Bytes 64
  inclusion : LogInclusion H
  artifactSha256 : Bytes 32

/-- The checkpoint is one of the log: its root is that of the first leaves. -/
def LogInclusion.CommitsTo {H : Type} (T : LogHash H) (log : List (List UInt8))
    (inclusion : LogInclusion H) : Prop :=
  inclusion.treeSize.toNat ≤ log.length ∧
    merkleRoot T.toTreeHash (log.take inclusion.treeSize.toNat) = inclusion.root

section Runs

variable {H : Type} [DecidableEq H] [Ed25519] (T : LogHash H)
  (releasePubs logPubs : List (Bytes 32)) (start : UInt64)

/-- A client that applies what it accepts.  It emits the version it leaves, and the offer. -/
def updates : Machine UInt64 (UpdateOffer H) (UInt64 × UpdateOffer H) where
  init := start
  step current offer :=
    match verifyUpdate T offer.manifest offer.manifestSig offer.inclusion releasePubs logPubs current
        offer.artifactSha256 with
    | .ok verified => (verified.version, [(current, offer)])
    | .error _ => (current, [])

/-- What is known of an update that was applied to a version. -/
structure UpdateOffer.Applied (offer : UpdateOffer H) (left : UInt64) : Prop where
  forward : left < offer.manifest.version
  admitted : offer.manifest.minVersion ≤ left
  artifact : offer.artifactSha256 = offer.manifest.artifactSha256
  released : anyKeyVerifies releasePubs (manifestSigningBytes offer.manifest) offer.manifestSig = true
  logged : verifyInclusion T.toTreeHash (manifestSigningBytes offer.manifest)
    offer.inclusion.index.toNat offer.inclusion.treeSize.toNat offer.inclusion.path
    offer.inclusion.root = true

/-- What a client has applied: each update to the version that the one before it left. -/
structure UpdateChain (current : UInt64) (applied : List (UInt64 × UpdateOffer H)) : Prop where
  steps : ∀ x ∈ applied, x.2.Applied T releasePubs x.1
  linked : applied.map Prod.fst ++ [current] =
    start :: applied.map fun x => x.2.manifest.version

variable {T releasePubs logPubs start}

lemma updateChain_run (offers : List (UpdateOffer H)) :
    UpdateChain T releasePubs start ((updates T releasePubs logPubs start).run offers).1
      ((updates T releasePubs logPubs start).run offers).2 := by
  refine (updates T releasePubs logPubs start).run_invariant ⟨by simp, rfl⟩ ?_ offers
  intro current applied offer hchain
  simp only [updates]
  split
  · rename_i verified hok
    obtain ⟨⟨hforward, hadmitted⟩, hartifact, hreleased, hlogged, rfl⟩ := verifyUpdate_eq_ok hok
    refine ⟨fun x hx => ?_, ?_⟩
    · obtain hold | hnew := List.mem_append.mp hx
      · exact hchain.steps x hold
      · obtain rfl := List.mem_singleton.mp hnew
        exact ⟨hforward, hadmitted, hartifact, hreleased, hlogged⟩
    · rw [List.map_append, List.map_append, ← List.cons_append, ← hchain.linked]
      rfl
  · rw [List.append_nil]
    exact hchain

/-- In a chain of steps that go forward, versions ascend. -/
lemma UpdateChain.ascends {current : UInt64} {applied : List (UInt64 × UpdateOffer H)}
    (h : UpdateChain T releasePubs start current applied) :
    (start :: applied.map fun x => x.2.manifest.version).Pairwise (· < ·) := by
  obtain ⟨hsteps, hlinked⟩ := h
  induction applied generalizing start with
  | nil => simp
  | cons x rest ih =>
    rw [List.map_cons, List.map_cons, List.cons_append, List.cons.injEq] at hlinked
    have hx := hsteps x (List.mem_cons_self ..)
    have hrest := ih (fun y hy => hsteps y (List.mem_cons_of_mem _ hy)) hlinked.2
    rw [hlinked.1] at hx
    refine List.pairwise_cons.mpr ⟨fun v hv => ?_, hrest⟩
    obtain rfl | hv := List.mem_cons.mp hv
    · exact hx.forward
    · exact UInt64.lt_trans hx.forward ((List.pairwise_cons.mp hrest).1 v hv)

/-- **Updates only go forward.**  Whatever a client is offered, the versions it runs one after the
other ascend, each takes over from one that its manifest admits, and its artifact is the one that the
manifest names, which a release key signed. -/
theorem updates_forward (offers : List (UpdateOffer H)) :
    let current := ((updates T releasePubs logPubs start).run offers).1
    let applied := ((updates T releasePubs logPubs start).run offers).2
    (start :: applied.map fun x => x.2.manifest.version).Pairwise (· < ·) ∧
      applied.map Prod.fst ++ [current] = start :: applied.map (fun x => x.2.manifest.version) ∧
      ∀ x ∈ applied, x.2.manifest.minVersion ≤ x.1 ∧
        x.2.artifactSha256 = x.2.manifest.artifactSha256 ∧
        anyKeyVerifies releasePubs (manifestSigningBytes x.2.manifest) x.2.manifestSig = true := by
  intro current applied
  have hchain : UpdateChain T releasePubs start current applied := updateChain_run offers
  exact ⟨hchain.ascends, hchain.linked, fun x hx =>
    ⟨(hchain.steps x hx).admitted, (hchain.steps x hx).artifact, (hchain.steps x hx).released⟩⟩

/-- Under a checkpoint of a log, the manifest is in that log. -/
lemma UpdateOffer.Applied.mem_log (hnode : ∀ a b c d, T.node a b = T.node c d → a = c ∧ b = d)
    (hleaf : Function.Injective T.leaf) {offer : UpdateOffer H} {left : UInt64}
    (h : offer.Applied T releasePubs left) {log : List (List UInt8)}
    (hcommits : offer.inclusion.CommitsTo T log) : manifestSigningBytes offer.manifest ∈ log := by
  obtain ⟨hle, hroot⟩ := hcommits
  have hlength := List.length_take_of_le hle
  have hlogged : verifyInclusion T.toTreeHash (manifestSigningBytes offer.manifest)
      offer.inclusion.index.toNat (log.take offer.inclusion.treeSize.toNat).length
      offer.inclusion.path
      (merkleRoot T.toTreeHash (log.take offer.inclusion.treeSize.toNat)) = true := by
    rw [hlength, hroot]
    exact h.logged
  exact List.mem_of_mem_take (List.mem_of_getElem? (verifyInclusion_sound hnode hleaf hlogged))

/-- **No build for one victim.**  Two clients whose checkpoints commit to parts of one log, in which
no version is released twice, have run the same artifact under the same version. -/
theorem updates_oneBuild (hnode : ∀ a b c d, T.node a b = T.node c d → a = c ∧ b = d)
    (hleaf : Function.Injective T.leaf) {log : List (List UInt8)}
    (hone : ∀ m m', manifestSigningBytes m ∈ log → manifestSigningBytes m' ∈ log →
      m.version = m'.version → m = m')
    {releasePubs' logPubs' : List (Bytes 32)} {start' : UInt64}
    (offers offers' : List (UpdateOffer H)) :
    ∀ x ∈ ((updates T releasePubs logPubs start).run offers).2,
      ∀ y ∈ ((updates T releasePubs' logPubs' start').run offers').2,
        x.2.inclusion.CommitsTo T log → y.2.inclusion.CommitsTo T log →
        x.2.manifest.version = y.2.manifest.version → x.2.artifactSha256 = y.2.artifactSha256 := by
  intro x hx y hy hcommits hcommits' hversion
  have happlied := (updateChain_run offers).steps x hx
  have happlied' := (updateChain_run offers').steps y hy
  have hsame := hone x.2.manifest y.2.manifest (happlied.mem_log hnode hleaf hcommits)
    (happlied'.mem_log hnode hleaf hcommits') hversion
  rw [happlied.artifact, happlied'.artifact, hsame]

end Runs

/-- The only release of a log, as two clients are offered it. -/
def firstRelease : UpdateOffer SymbolicDigest where
  manifest := ⟨1, 0, .replicate 32 7⟩
  manifestSig := .replicate 64 0
  inclusion := ⟨.replicate 64 0, 1, .leaf (manifestSigningBytes ⟨1, 0, .replicate 32 7⟩), 0, []⟩
  artifactSha256 := .replicate 32 7

theorem updates_oneBuild_firstRelease :
    letI := acceptingEd25519
    ∃ x ∈ ((updates symbolicLog [.replicate 32 0] [.replicate 32 0] 0).run [firstRelease]).2,
      ∃ y ∈ ((updates symbolicLog [.replicate 32 1] [.replicate 32 1] 0).run [firstRelease]).2,
        x.2.artifactSha256 = y.2.artifactSha256 := by
  let _ := acceptingEd25519
  have hrun : ∀ pub : Bytes 32,
      (0, firstRelease) ∈ ((updates symbolicLog [pub] [pub] 0).run [firstRelease]).2 :=
    fun pub => List.mem_singleton_self _
  have hcommits : firstRelease.inclusion.CommitsTo symbolicLog
      [manifestSigningBytes firstRelease.manifest] := ⟨le_rfl, by decide +kernel⟩
  have hone : ∀ m m', manifestSigningBytes m ∈ [manifestSigningBytes firstRelease.manifest] →
      manifestSigningBytes m' ∈ [manifestSigningBytes firstRelease.manifest] →
        m.version = m'.version → m = m' := by
    intro m m' hm hm' _
    exact manifestSigningBytes_inj
      ((List.mem_singleton.mp hm).trans (List.mem_singleton.mp hm').symm)
  have hrun₀ := hrun (.replicate 32 0)
  have hrun₁ := hrun (.replicate 32 1)
  exact ⟨_, hrun₀, _, hrun₁, updates_oneBuild (T := symbolicLog)
    (fun _ _ _ _ => SymbolicDigest.node.inj) (fun _ _ => SymbolicDigest.leaf.inj) hone
    [firstRelease] [firstRelease] _ hrun₀ _ hrun₁ hcommits hcommits rfl⟩

end MaxSecu
