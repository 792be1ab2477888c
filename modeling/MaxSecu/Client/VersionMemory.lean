import MaxSecu.Framework.Machine
import MaxSecu.Client.DownloadAgreement

/-!
# File-version memory

The client remembers, for each file, the highest version it has accepted and the digest of its
content.  `openAndRemember` reads this memory for the freshness rule, rejects other content under a
remembered version, and writes back what it accepts.
-/

namespace MaxSecu

open ExceptRules

structure FileVersionRecord where
  version : UInt64
  contentDigest : Bytes 32
  deriving DecidableEq

abbrev VersionStore := Id → Option FileVersionRecord

def VersionStore.put (store : VersionStore) (fileId : Id) (record : FileVersionRecord) :
    VersionStore :=
  Function.update store fileId (some record)

@[simp] lemma VersionStore.put_same {store : VersionStore} {fileId : Id}
    {record : FileVersionRecord} : store.put fileId record fileId = some record :=
  Function.update_self ..

lemma VersionStore.put_other {store : VersionStore} {fileId f : Id} {record : FileVersionRecord}
    (h : f ≠ fileId) : store.put fileId record f = store f :=
  Function.update_of_ne h ..

/-- The memory of a file is kept or raised. -/
def VersionStore.Extends (store store' : VersionStore) : Prop :=
  ∀ file r, store file = some r → ∃ r', store' file = some r' ∧ r.version ≤ r'.version

lemma VersionStore.Extends.trans {s t u : VersionStore} (hst : s.Extends t) (htu : t.Extends u) :
    s.Extends u := by
  intro file r hr
  obtain ⟨r', hr', hle⟩ := hst file r hr
  obtain ⟨r'', hr'', hle'⟩ := htu file r' hr'
  exact ⟨r'', hr'', UInt64.le_trans hle hle'⟩

/-- The opened file has the remembered version under other content. -/
def forked (prior : Option FileVersionRecord) (opened : OpenedFile) : Bool :=
  match prior with
  | none => false
  | some r => opened.version = r.version ∧ opened.contentDigest ≠ r.contentDigest

section Openers

variable [Sha256] [Ed25519] [Hkdf] [Aes256Gcm] [Hpke] [X25519] [MlKem768]

/-- Verify and open against the memory.  The `seenMaxVersion` of the context is ignored: the memory
is authoritative.  An accepted version is at least the remembered one, so writing it back never
lowers the memory. -/
def openAndRemember (ctx : VerifyContext) (bundle : DownloadBundle) :
    ExceptT DownloadError (StateM VersionStore) OpenedFile := do
  let prior := (← get) ctx.fileId
  let opened ← liftM (verifyAndOpen { ctx with seenMaxVersion := prior.map (·.version) } bundle)
  if forked prior opened then
    throw (.versionForked opened.version)
  else
    modify fun store => store.put ctx.fileId ⟨opened.version, opened.contentDigest⟩
    pure opened

/-! ## One call -/

variable {ctx : VerifyContext} {bundle : DownloadBundle} {store store' : VersionStore}
  {opened : OpenedFile}

lemma openAndRemember_cases {r : Except DownloadError OpenedFile}
    (h : runFrom (openAndRemember ctx bundle) store = (r, store')) :
    (∃ e, r = .error e ∧ store' = store) ∨
      ∃ opened, r = .ok opened ∧
        verifyAndOpen { ctx with seenMaxVersion := (store ctx.fileId).map (·.version) } bundle =
          .ok opened ∧
        forked (store ctx.fileId) opened = false ∧
        store' = store.put ctx.fileId ⟨opened.version, opened.contentDigest⟩ := by
  unfold openAndRemember at h
  simp only [runFrom_bind_eq, runFrom_get, runFrom_liftM, Prod.mk.injEq, reduceCtorEq, false_and,
    exists_false, false_or, Except.ok.injEq] at h
  obtain ⟨_, _, ⟨rfl, rfl⟩, h⟩ := h
  rcases h with ⟨e, ⟨-, rfl⟩, rfl⟩ | ⟨opened, _, ⟨hopen, rfl⟩, h⟩
  · exact .inl ⟨e, rfl, rfl⟩
  · by_cases hforked : forked (store ctx.fileId) opened = true
    · rw [if_pos hforked, runFrom_throw, Prod.mk.injEq] at h
      exact .inl ⟨_, h.1.symm, h.2.symm⟩
    · rw [if_neg hforked, runFrom_bind_ok (runFrom_modify _ _), runFrom_pure, Prod.mk.injEq] at h
      exact .inr ⟨opened, h.1.symm, hopen, by simpa using hforked, h.2.symm⟩

omit [Sha256] in
lemma verifyHeader_version {m : Manifest} {dek : Dek} {rok : Bool} {records : VersionRecords}
    (h : verifyHeader ctx records = .ok (m, dek, rok)) :
    versionAcceptable m.version ctx.seenMaxVersion = .ok () := by
  unfold verifyHeader at h
  simp only [bind_eq_ok, guard_eq_ok, mapError_eq_ok, pure_eq_ok, Prod.mk.injEq] at h
  obtain ⟨m', -, -, -, -, _, -, -, -, _, -, -, _, -, _, hversion, _, -, _, -, _, -, _, -, -, rfl, -⟩ :=
    h
  exact hversion

lemma verifyAndOpen_version (h : verifyAndOpen ctx bundle = .ok opened) :
    versionAcceptable opened.version ctx.seenMaxVersion = .ok () := by
  obtain ⟨m, dek, rok, hheader, -, -, hversion, -⟩ := verifyAndOpen_eq_ok.mp h
  rw [hversion]
  exact verifyHeader_version hheader

end Openers

lemma versionAcceptable_none {served : UInt64} (h : versionAcceptable served none = .ok ()) :
    served ≤ FIRST_CONTACT_VERSION_CEILING := by
  unfold versionAcceptable at h
  by_contra hover
  rw [if_pos (UInt64.not_le.mp hover)] at h
  cases h

lemma versionAcceptable_some {served seen : UInt64}
    (h : versionAcceptable served (some seen) = .ok ()) :
    served = seen ∨ served.toNat = seen.toNat + 1 := by
  unfold versionAcceptable at h
  simp only [guard_eq_ok] at h
  obtain ⟨hrollback, hmax, htooHigh, -⟩ := h
  have hnext : (seen + 1).toNat = seen.toNat + 1 := by
    have hseen : seen.toNat ≠ 2 ^ 64 - 1 := fun heq => hmax (UInt64.toNat_inj.mp heq)
    have hlt := seen.toNat_lt
    rw [UInt64.toNat_add]
    exact Nat.mod_eq_of_lt (by simp; omega)
  have hge : seen.toNat ≤ served.toNat := by
    rw [UInt64.lt_iff_toNat_lt] at hrollback
    omega
  have hle : served.toNat ≤ seen.toNat + 1 := by
    rw [gt_iff_lt, UInt64.lt_iff_toNat_lt, hnext] at htooHigh
    omega
  by_cases hsame : served.toNat = seen.toNat
  · exact .inl (UInt64.toNat_inj.mp hsame)
  · exact .inr (by omega)

/-! ## Runs -/

section Runs

variable [Sha256] [Ed25519] [Hkdf] [Aes256Gcm] [Hpke] [X25519] [MlKem768]

/-- What a call adds to the accepted opens. -/
def acceptedBy (fileId : Id) : Except DownloadError OpenedFile → List (Id × OpenedFile)
  | .ok opened => [(fileId, opened)]
  | .error _ => []

/-- A client from an empty memory.  Its inputs are the calls, with arbitrary served bundles; its
output is the accepted opens. -/
def versionMemory : Machine VersionStore (VerifyContext × DownloadBundle) (Id × OpenedFile) where
  init := fun _ => none
  step store call :=
    let (result, store') := runFrom (openAndRemember call.1 call.2) store
    (store', acceptedBy call.1.fileId result)

/-- Every accepted open is at most the remembered version, with the remembered content if it is the
remembered version; and accepted opens of one version have one content. -/
structure VersionMemoryInvariant (store : VersionStore) (accepted : List (Id × OpenedFile)) :
    Prop where
  remembered : ∀ file opened, (file, opened) ∈ accepted → ∃ r, store file = some r ∧
    opened.version ≤ r.version ∧
    (opened.version = r.version → opened.contentDigest = r.contentDigest)
  agree : ∀ file opened opened', (file, opened) ∈ accepted → (file, opened') ∈ accepted →
    opened.version = opened'.version → opened.contentDigest = opened'.contentDigest

variable {store store' : VersionStore} {accepted : List (Id × OpenedFile)} {ctx : VerifyContext}
  {bundle : DownloadBundle} {opened : OpenedFile}

/-- At first contact the version is at most the ceiling; afterwards it is the remembered one, under
the remembered content, or the next. -/
lemma openAndRemember_version (hopen : verifyAndOpen
      { ctx with seenMaxVersion := (store ctx.fileId).map (·.version) } bundle = .ok opened)
    (hforked : forked (store ctx.fileId) opened = false) :
    (store ctx.fileId = none ∧ opened.version ≤ FIRST_CONTACT_VERSION_CEILING) ∨
      ∃ r, store ctx.fileId = some r ∧
        (opened.version = r.version ∧ opened.contentDigest = r.contentDigest ∨
          opened.version.toNat = r.version.toNat + 1) := by
  have hversion := verifyAndOpen_version hopen
  cases hprior : store ctx.fileId with
  | none =>
    rw [hprior] at hversion
    exact .inl ⟨rfl, versionAcceptable_none hversion⟩
  | some r =>
    rw [hprior] at hversion hforked
    refine .inr ⟨r, rfl, ?_⟩
    rcases versionAcceptable_some hversion with hsame | hnext
    · left
      refine ⟨hsame, ?_⟩
      by_contra hother
      simp [forked, hsame, hother] at hforked
    · exact .inr hnext

/-- An accepted open keeps the invariant: its version is at least every accepted one of the file,
and where one is equal, both have the remembered content. -/
lemma VersionMemoryInvariant.accept (hinv : VersionMemoryInvariant store accepted)
    (hopen : verifyAndOpen
      { ctx with seenMaxVersion := (store ctx.fileId).map (·.version) } bundle = .ok opened)
    (hforked : forked (store ctx.fileId) opened = false) :
    VersionMemoryInvariant (store.put ctx.fileId ⟨opened.version, opened.contentDigest⟩)
      (accepted ++ [(ctx.fileId, opened)]) := by
  have hearlier : ∀ o, (ctx.fileId, o) ∈ accepted → o.version ≤ opened.version ∧
      (o.version = opened.version → o.contentDigest = opened.contentDigest) := by
    intro o ho
    obtain ⟨r, hr, hle, hdigest⟩ := hinv.remembered _ o ho
    rcases openAndRemember_version hopen hforked with ⟨hnone, -⟩ | ⟨r', hr', hrule⟩
    · rw [hr] at hnone
      cases hnone
    · obtain rfl : r = r' := Option.some.inj (hr.symm.trans hr')
      rcases hrule with ⟨hsame, hcontent⟩ | hnext
      · rw [hsame, hcontent]
        exact ⟨hle, hdigest⟩
      · rw [UInt64.le_iff_toNat_le] at hle
        refine ⟨UInt64.le_iff_toNat_le.mpr (by omega), fun heq => ?_⟩
        rw [heq] at hle
        omega
  constructor
  · intro file o ho
    by_cases hfile : file = ctx.fileId
    · subst hfile
      refine ⟨_, VersionStore.put_same, ?_⟩
      rcases List.mem_append.mp ho with hold | hnew
      · exact hearlier o hold
      · obtain rfl : o = opened := by simpa using hnew
        exact ⟨UInt64.le_refl _, fun _ => rfl⟩
    · have hold : (file, o) ∈ accepted := by simpa [hfile] using ho
      rw [VersionStore.put_other hfile]
      exact hinv.remembered file o hold
  · intro file o o' ho ho' heq
    have hsplit : ∀ {p}, (file, p) ∈ accepted ++ [(ctx.fileId, opened)] →
        (file, p) ∈ accepted ∨ file = ctx.fileId ∧ p = opened := by
      intro p hp
      simpa using hp
    rcases hsplit ho with hold | ⟨rfl, rfl⟩
    · rcases hsplit ho' with hold' | ⟨rfl, rfl⟩
      · exact hinv.agree file o o' hold hold' heq
      · exact (hearlier o hold).2 heq
    · rcases hsplit ho' with hold' | ⟨-, rfl⟩
      · exact ((hearlier o' hold').2 heq.symm).symm
      · rfl

lemma versionMemory_invariant (calls : List (VerifyContext × DownloadBundle)) :
    VersionMemoryInvariant (versionMemory.run calls).1 (versionMemory.run calls).2 := by
  apply versionMemory.run_invariant
  · exact ⟨fun _ _ h => absurd h (List.not_mem_nil), fun _ _ _ h => absurd h (List.not_mem_nil)⟩
  · intro store accepted call hinv
    simp only [versionMemory]
    rcases hrun : runFrom (openAndRemember call.1 call.2) store with ⟨r, store'⟩
    rcases openAndRemember_cases hrun with ⟨e, rfl, rfl⟩ | ⟨opened, rfl, hopen, hforked, rfl⟩
    · simpa [acceptedBy] using hinv
    · exact hinv.accept hopen hforked

lemma openAndRemember_extends {r : Except DownloadError OpenedFile}
    (h : runFrom (openAndRemember ctx bundle) store = (r, store')) : store.Extends store' := by
  intro file prior hprior
  rcases openAndRemember_cases h with ⟨e, -, rfl⟩ | ⟨opened, -, hopen, hforked, rfl⟩
  · exact ⟨prior, hprior, UInt64.le_refl _⟩
  · by_cases hfile : file = ctx.fileId
    · subst hfile
      refine ⟨_, VersionStore.put_same, ?_⟩
      rcases openAndRemember_version hopen hforked with ⟨hnone, -⟩ | ⟨r', hr', hrule⟩
      · rw [hprior] at hnone
        cases hnone
      · obtain rfl : prior = r' := Option.some.inj (hprior.symm.trans hr')
        rw [UInt64.le_iff_toNat_le]
        rcases hrule with ⟨hsame, -⟩ | hnext
        · rw [hsame]
        · have hraised : prior.version.toNat ≤ opened.version.toNat := by omega
          exact hraised
    · exact ⟨prior, by rwa [VersionStore.put_other hfile], UInt64.le_refl _⟩

/-- **File-version memory.**  After every run from an empty memory: the remembered version of a file
never decreases later; a further call that is rejected leaves the memory as it was; one that is
accepted is at the remembered version or exactly one above it, or at most the ceiling at first
contact, and is remembered; it leaves other files alone and does not depend on the
`seenMaxVersion` of its context; and accepted opens of one version of a file have one content. -/
theorem versionMemory_neverRollsBack (calls : List (VerifyContext × DownloadBundle)) :
    (∀ later, (versionMemory.run calls).1.Extends (versionMemory.run (calls ++ later)).1) ∧
    (∀ ctx bundle r store',
      runFrom (openAndRemember ctx bundle) (versionMemory.run calls).1 = (r, store') →
      (∀ e, r = .error e → store' = (versionMemory.run calls).1) ∧
      (∀ opened, r = .ok opened →
        store' ctx.fileId = some ⟨opened.version, opened.contentDigest⟩ ∧
        ((versionMemory.run calls).1 ctx.fileId = none →
          opened.version ≤ FIRST_CONTACT_VERSION_CEILING) ∧
        ∀ prior, (versionMemory.run calls).1 ctx.fileId = some prior →
          opened.version = prior.version ∨ opened.version.toNat = prior.version.toNat + 1) ∧
      (∀ file, file ≠ ctx.fileId → store' file = (versionMemory.run calls).1 file) ∧
      ∀ seenMax, runFrom (openAndRemember { ctx with seenMaxVersion := seenMax } bundle)
        (versionMemory.run calls).1 = (r, store')) ∧
    ∀ file opened opened', (file, opened) ∈ (versionMemory.run calls).2 →
      (file, opened') ∈ (versionMemory.run calls).2 → opened.version = opened'.version →
      opened.contentDigest = opened'.contentDigest := by
  refine ⟨fun later => ?_, fun ctx bundle r store' hrun => ⟨?_, ?_, ?_, ?_⟩,
    (versionMemory_invariant calls).agree⟩
  · refine versionMemory.run_extend (fun _ _ r hr => ⟨r, hr, UInt64.le_refl _⟩) .trans ?_ calls later
    intro store call
    exact openAndRemember_extends rfl
  · rintro e rfl
    rcases openAndRemember_cases hrun with ⟨-, -, hkept⟩ | ⟨opened, hok, -⟩
    · exact hkept
    · cases hok
  · rintro opened rfl
    rcases openAndRemember_cases hrun with ⟨e, herror, -⟩ | ⟨opened', hok, hopen, hforked, rfl⟩
    · cases herror
    · obtain rfl : opened = opened' := Except.ok.inj hok
      refine ⟨VersionStore.put_same, fun hnone => ?_, fun prior hprior => ?_⟩
      · rcases openAndRemember_version hopen hforked with ⟨-, hle⟩ | ⟨r', hr', -⟩
        · exact hle
        · rw [hnone] at hr'
          cases hr'
      · rcases openAndRemember_version hopen hforked with ⟨hnone, -⟩ | ⟨r', hr', hrule⟩
        · rw [hprior] at hnone
          cases hnone
        · obtain rfl : prior = r' := Option.some.inj (hprior.symm.trans hr')
          exact hrule.imp_left And.left
  · intro file hfile
    rcases openAndRemember_cases hrun with ⟨e, -, rfl⟩ | ⟨opened, -, -, -, rfl⟩
    · rfl
    · exact VersionStore.put_other hfile
  · intro seenMax
    exact hrun

end Runs

end MaxSecu
