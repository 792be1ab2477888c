import MaxSecu.Server.Delegation
import MaxSecu.Server.Files

/-!
# The delegation ceremony across restarts

The server keeps the pinned directory key, the certificate and the one-time token in three files.  A
bootstrap writes the first, then the second, and then removes the third; it changes the running
context only after that.  At a start the server counts as delegated if the first two are there,
whoever wrote them.

A bootstrap that writes both files and cannot remove the token answers with an error and leaves
them.  The next start finds them installed, or finds one of them beside what a later attempt wrote.
`ceremony_iff` says that nothing else goes wrong, whatever fails and wherever the server stops.
-/

namespace MaxSecu

open ExceptRules GuardedUpdate

/-! ## The files -/

/-- What a file holds, and the number of the bootstrap that wrote it. -/
structure WrittenFile where
  bytes : List UInt8
  call : ℕ
  deriving DecidableEq

structure DelegationFiles where
  operationalSecret : Option (List UInt8)
  d5Pub : Option WrittenFile
  d5Delegation : Option WrittenFile
  bootstrapToken : Option String
  deriving DecidableEq

structure BootstrapCall where
  token : String
  directoryPub : Bytes 32
  cert : List UInt8
  nowSecs : UInt64

inductive PersistStep
  | directoryPub
  | delegation
  | burnToken

namespace PersistStep

def all : List PersistStep := [.directoryPub, .delegation, .burnToken]

def answer (persist : DelegationPersist) (call : BootstrapCall) : PersistStep → Except IoFault Unit
  | .directoryPub => persist.persistDirectoryPub call.directoryPub
  | .delegation => persist.persistDelegation call.cert
  | .burnToken => persist.burnToken

def write (id : ℕ) (call : BootstrapCall) (files : DelegationFiles) :
    PersistStep → DelegationFiles
  | .directoryPub => { files with d5Pub := some ⟨call.directoryPub.toList, id⟩ }
  | .delegation => { files with d5Delegation := some ⟨call.cert, id⟩ }
  | .burnToken => { files with bootstrapToken := none }

/-- Take the steps in order, until the disk refuses one. -/
def take (persist : DelegationPersist) (id : ℕ) (call : BootstrapCall) :
    List PersistStep → DelegationFiles → Except IoFault Unit × DelegationFiles
  | [], files => (.ok (), files)
  | step :: rest, files =>
    match step.answer persist call with
    | .error e => (.error e, files)
    | .ok () => take persist id call rest (step.write id call files)

end PersistStep

/-! ## The start -/

/-- What Rust takes for white space. -/
def isWhiteSpace (c : Char) : Bool :=
  c.toNat ∈ [0x9, 0xA, 0xB, 0xC, 0xD, 0x20, 0x85, 0xA0, 0x1680, 0x2000, 0x2001, 0x2002, 0x2003,
    0x2004, 0x2005, 0x2006, 0x2007, 0x2008, 0x2009, 0x200A, 0x2028, 0x2029, 0x202F, 0x205F, 0x3000]

/-- The text without white space at its ends. -/
def trim (s : String) : String :=
  String.ofList ((s.toList.dropWhile isWhiteSpace).reverse.dropWhile isWhiteSpace).reverse

def tokenHash [Sha256] (token : String) : Bytes 32 := sha256 token.toByteArray.data.toList

/-- What is random in a start, and how the disk answers its writes. -/
structure StartInputs where
  seed : Bytes 32
  rawToken : Bytes 32
  writeSecret : Except IoFault Unit
  writeToken : Except IoFault Unit
  removeToken : Bool

/-- The seed of the operational key, drawn at the first start. -/
def ensureOperationalKey (inputs : StartInputs) (files : DelegationFiles) :
    Except IoFault (Bytes 32) × DelegationFiles :=
  match files.operationalSecret with
  | some bytes =>
    if h : bytes.length = 32 then (.ok ⟨bytes, h⟩, files)
    else (.error ⟨"operational seed malformed"⟩, files)
  | none =>
    match inputs.writeSecret with
    | .error e => (.error e, files)
    | .ok () => (.ok inputs.seed, { files with operationalSecret := some inputs.seed.toList })

/-- The pinned key and the certificate, if both files are there and have their lengths. -/
def loadInstalled (files : DelegationFiles) : Option Installed :=
  match files.d5Pub, files.d5Delegation with
  | some dir, some cert =>
    if h : dir.bytes.length = 32 ∧ cert.bytes.length = Delegation.DELEGATION_WIRE_LEN then
      some ⟨⟨dir.bytes, h.1⟩, cert.bytes⟩
    else none
  | _, _ => none

def tokenText (raw : Bytes 32) : String := String.ofList (raw.toList.flatMap Files.hexByte)

def ensureBootstrapToken [Sha256] (inputs : StartInputs) (files : DelegationFiles) :
    Except IoFault (Bytes 32) × DelegationFiles :=
  match files.bootstrapToken.filter fun s => trim s ≠ "" with
  | some s => (.ok (tokenHash (trim s)), files)
  | none =>
    match inputs.writeToken with
    | .error e => (.error e, files)
    | .ok () => (.ok (tokenHash (tokenText inputs.rawToken)),
        { files with bootstrapToken := some (tokenText inputs.rawToken) })

def buildProd [Ed25519] [Sha256] (inputs : StartInputs) (files : DelegationFiles) :
    Except IoFault DelegationCtx × DelegationFiles :=
  match ensureOperationalKey inputs files with
  | (.error e, files) => (.error e, files)
  | (.ok seed, files) =>
    let operationalPub := Ed25519.publicKey seed
    match loadInstalled files with
    | none =>
      match ensureBootstrapToken inputs files with
      | (.error e, files) => (.error e, files)
      | (.ok hash, files) => (.ok (.prod operationalPub none (some hash)), files)
    | some installed =>
      (.ok (.prod operationalPub (some installed) none),
        if inputs.removeToken then { files with bootstrapToken := none } else files)

/-! ## Bootstraps and restarts -/

/-- The files, and the context of the server while it runs.  The bootstraps are numbered. -/
structure Ceremony where
  files : DelegationFiles
  ctx : Option DelegationCtx
  calls : ℕ

inductive CeremonyLabel
  | returned (id : ℕ) (call : BootstrapCall) (persist : DelegationPersist)
    (reply : Except BootstrapRefusal UInt64)
  | crashed (id : ℕ) (call : BootstrapCall)
  | stopped
  | started
  | startFailed

section Runs

variable [Ed25519] [Sha256]

namespace BootstrapCall

def run (persist : DelegationPersist) (call : BootstrapCall) (ctx : DelegationCtx) :
    Except BootstrapRefusal UInt64 × DelegationCtx :=
  runFrom (DelegationCtx.installBootstrap persist call.token call.directoryPub call.cert
    call.nowSecs) ctx

/-- The call passes every check, and comes to its writes. -/
def Admitted (call : BootstrapCall) (ctx : DelegationCtx) : Prop :=
  (call.run .null ctx).1.isOk = true

/-- The files after the first `steps` writes of the call. -/
def filesAfter (persist : DelegationPersist) (id : ℕ) (call : BootstrapCall) (ctx : DelegationCtx)
    (steps : ℕ) (files : DelegationFiles) : DelegationFiles :=
  if (call.run .null ctx).1.isOk then
    (PersistStep.take persist id call (PersistStep.all.take steps) files).2
  else files

end BootstrapCall

/-- A bootstrap returns, the server stops in the middle of one or while it is idle, and it is
started. -/
inductive Ceremony.Next (w : Ceremony) : CeremonyLabel → Ceremony → Prop
  | returned {ctx : DelegationCtx} (call : BootstrapCall) (persist : DelegationPersist) :
      w.ctx = some ctx →
      Next w (.returned w.calls call persist (call.run persist ctx).1)
        ⟨call.filesAfter persist w.calls ctx 3 w.files, some (call.run persist ctx).2, w.calls + 1⟩
  | crashed {ctx : DelegationCtx} (call : BootstrapCall) (persist : DelegationPersist)
      (steps : ℕ) :
      w.ctx = some ctx →
      Next w (.crashed w.calls call)
        ⟨call.filesAfter persist w.calls ctx steps w.files, none, w.calls + 1⟩
  | stopped {ctx : DelegationCtx} : w.ctx = some ctx → Next w .stopped { w with ctx := none }
  | started (inputs : StartInputs) {ctx : DelegationCtx} {files : DelegationFiles} :
      w.ctx = none → buildProd inputs w.files = (.ok ctx, files) →
      Next w .started { w with files := files, ctx := some ctx }
  | startFailed (inputs : StartInputs) {e : IoFault} {files : DelegationFiles} :
      w.ctx = none → buildProd inputs w.files = (.error e, files) →
      Next w .startFailed { w with files := files }

end Runs

/-- A server that was never started: nobody has bootstrapped it. -/
def Ceremony.Fresh (w : Ceremony) : Prop :=
  w.files.d5Pub = none ∧ w.files.d5Delegation = none ∧ w.ctx = none ∧ w.calls = 0

/-! ## What a bootstrap does -/

section Bootstrap

variable [Ed25519] [Sha256] {call : BootstrapCall} {persist : DelegationPersist}
  {ctx : DelegationCtx} {files : DelegationFiles} {id : ℕ}

namespace BootstrapCall

/-- What the checks of the call come to. -/
structure Verified (call : BootstrapCall) (ctx : DelegationCtx) : Prop where
  awaiting : ctx.installed = none
  token : ctx.bootstrapTokenHash = some (tokenHash call.token)
  verify : Delegation.verify call.directoryPub call.cert call.nowSecs = .ok ctx.operationalPub
  window : saneWindow call.cert call.nowSecs = true

lemma verified_of_ok {reply : Except BootstrapRefusal UInt64} {t : DelegationCtx}
    (h : call.run persist ctx = (reply, t)) (hok : reply.isOk = true) : call.Verified ctx := by
  obtain ⟨validUntil, rfl⟩ : ∃ validUntil, reply = .ok validUntil := by
    cases reply with
    | error e => cases hok
    | ok validUntil => exact ⟨validUntil, rfl⟩
  unfold run DelegationCtx.installBootstrap at h
  rw [get_bind_eq_ok] at h
  obtain ⟨hawaiting, h⟩ := failIf_bind_eq_ok.mp h
  obtain ⟨expected, hexpected, h⟩ := orFail_bind_eq_ok.mp h
  obtain ⟨htoken, h⟩ := failIf_bind_eq_ok.mp h
  obtain ⟨opPub, hverify, h⟩ := liftM_bind_eq_ok.mp h
  obtain ⟨hop, h⟩ := failIf_bind_eq_ok.mp h
  obtain ⟨hsane, -⟩ := failIf_bind_eq_ok.mp h
  refine ⟨by simpa using hawaiting, ?_, ?_, by simpa using hsane⟩
  · rw [hexpected, ← not_not.mp htoken]
    rfl
  · rw [mapError_eq_ok.mp hverify, not_not.mp hop]

lemma run_of_verified (persist : DelegationPersist) (id : ℕ) (files : DelegationFiles)
    (h : call.Verified ctx) :
    ∃ validUntil, call.run persist ctx =
      match (PersistStep.take persist id call PersistStep.all files).1 with
      | .error e => (.error (.persist e), ctx)
      | .ok () => (.ok validUntil,
          { ctx with
            installed := some ⟨call.directoryPub, call.cert⟩
            bootstrapTokenHash := none }) := by
  obtain ⟨d, hparse, -, -, -⟩ := Delegation.verify_eq_ok h.verify
  refine ⟨d.validUntil, ?_⟩
  unfold run DelegationCtx.installBootstrap PersistStep.all
  rw [runFrom_get_bind, runFrom_failIf_bind, if_neg (by simp [h.awaiting]), runFrom_orFail_bind,
    h.token, Option.elim_some, runFrom_failIf_bind, if_neg (by simp [tokenHash]),
    runFrom_liftM_bind, h.verify]
  show runFrom (failIf _ _ >>= _) ctx = _
  rw [runFrom_failIf_bind, if_neg (by simp), runFrom_failIf_bind, if_neg (by simp [h.window]),
    runFrom_liftM_bind]
  unfold PersistStep.take PersistStep.answer
  cases persist.persistDirectoryPub call.directoryPub with
  | error e => rfl
  | ok _ =>
    show runFrom (liftM _ >>= _) ctx = _
    rw [runFrom_liftM_bind]
    unfold PersistStep.take PersistStep.answer
    cases persist.persistDelegation call.cert with
    | error e => rfl
    | ok _ =>
      show runFrom (liftM _ >>= _) ctx = _
      rw [runFrom_liftM_bind]
      unfold PersistStep.take PersistStep.answer
      cases persist.burnToken with
      | error e => rfl
      | ok _ =>
        show runFrom (liftM _ >>= _) ctx = _
        rw [runFrom_liftM_bind, hparse]
        rfl

lemma admitted_iff : call.Admitted ctx ↔ call.Verified ctx := by
  unfold Admitted
  constructor
  · intro hok
    exact verified_of_ok rfl hok
  · intro h
    obtain ⟨validUntil, hrun⟩ := run_of_verified .null 0 ⟨none, none, none, none⟩ h
    rw [hrun]
    rfl

/-- How far a call has come with the files. -/
inductive Wrote (call : BootstrapCall) (id : ℕ) (files : DelegationFiles) : DelegationFiles → Prop
  | none : Wrote call id files files
  | directoryPub : Wrote call id files
      { files with d5Pub := some ⟨call.directoryPub.toList, id⟩ }
  | both : Wrote call id files
      { files with
        d5Pub := some ⟨call.directoryPub.toList, id⟩
        d5Delegation := some ⟨call.cert, id⟩ }
  | all : Wrote call id files
      { files with
        d5Pub := some ⟨call.directoryPub.toList, id⟩
        d5Delegation := some ⟨call.cert, id⟩
        bootstrapToken := Option.none }

omit [Ed25519] [Sha256] in
lemma take_cases :
    (∃ e, persist.persistDirectoryPub call.directoryPub = .error e ∧
      PersistStep.take persist id call PersistStep.all files = (.error e, files)) ∨
    (∃ e, persist.persistDirectoryPub call.directoryPub = .ok () ∧
      persist.persistDelegation call.cert = .error e ∧
      PersistStep.take persist id call PersistStep.all files =
        (.error e, { files with d5Pub := some ⟨call.directoryPub.toList, id⟩ })) ∨
    (∃ e, persist.persistDirectoryPub call.directoryPub = .ok () ∧
      persist.persistDelegation call.cert = .ok () ∧ persist.burnToken = .error e ∧
      PersistStep.take persist id call PersistStep.all files =
        (.error e,
          { files with
            d5Pub := some ⟨call.directoryPub.toList, id⟩
            d5Delegation := some ⟨call.cert, id⟩ })) ∨
    persist.burnToken = .ok () ∧
      PersistStep.take persist id call PersistStep.all files =
        (.ok (),
          { files with
            d5Pub := some ⟨call.directoryPub.toList, id⟩
            d5Delegation := some ⟨call.cert, id⟩
            bootstrapToken := none }) := by
  unfold PersistStep.all
  simp only [PersistStep.take, PersistStep.answer, PersistStep.write]
  cases hpub : persist.persistDirectoryPub call.directoryPub with
  | error e => exact .inl ⟨e, rfl, rfl⟩
  | ok _ =>
    cases hcert : persist.persistDelegation call.cert with
    | error e => exact .inr (.inl ⟨e, rfl, rfl, rfl⟩)
    | ok _ =>
      cases hburn : persist.burnToken with
      | error e => exact .inr (.inr (.inl ⟨e, rfl, rfl, rfl, rfl⟩))
      | ok _ => exact .inr (.inr (.inr ⟨rfl, rfl⟩))

omit [Ed25519] [Sha256] in
lemma wrote_take (steps : ℕ) :
    call.Wrote id files (PersistStep.take persist id call (PersistStep.all.take steps) files).2 := by
  have hpub : ∀ rest, (PersistStep.take persist id call (.directoryPub :: rest) files).2 = files ∨
      (PersistStep.take persist id call (.directoryPub :: rest) files).2 =
        (PersistStep.take persist id call rest
          { files with d5Pub := some ⟨call.directoryPub.toList, id⟩ }).2 := by
    intro rest
    simp only [PersistStep.take, PersistStep.answer, PersistStep.write]
    cases persist.persistDirectoryPub call.directoryPub with
    | error e => exact .inl rfl
    | ok _ => exact .inr rfl
  rcases steps with _ | _ | _ | steps
  · exact .none
  · rcases hpub [] with h | h
    · exact (congrArg (call.Wrote id files) h).mpr .none
    · exact (congrArg (call.Wrote id files) h).mpr .directoryPub
  · rcases hpub [.delegation] with h | h
    · exact (congrArg (call.Wrote id files) h).mpr .none
    · refine (congrArg (call.Wrote id files) h).mpr ?_
      simp only [PersistStep.take, PersistStep.answer, PersistStep.write]
      cases persist.persistDelegation call.cert with
      | error e => exact .directoryPub
      | ok _ => exact .both
  · have hall : PersistStep.all.take (steps + 1 + 1 + 1) = PersistStep.all :=
      List.take_of_length_le (by simp [PersistStep.all])
    rw [hall]
    rcases @take_cases call persist files id with ⟨e, -, h⟩ | ⟨e, -, -, h⟩ | ⟨e, -, -, -, h⟩ | ⟨-, h⟩
    · rw [h]
      exact .none
    · rw [h]
      exact .directoryPub
    · rw [h]
      exact .both
    · rw [h]
      exact .all

lemma filesAfter_cases (call : BootstrapCall) (persist : DelegationPersist) (id : ℕ)
    (ctx : DelegationCtx) (files : DelegationFiles) (steps : ℕ) :
    call.filesAfter persist id ctx steps files = files ∨
    call.Verified ctx ∧ call.Wrote id files (call.filesAfter persist id ctx steps files) := by
  unfold filesAfter
  by_cases hadmitted : (call.run .null ctx).1.isOk = true
  · rw [if_pos hadmitted]
    exact .inr ⟨admitted_iff.mp hadmitted, wrote_take steps⟩
  · rw [if_neg hadmitted]
    exact .inl rfl

/-- How a call returns, and what it leaves in the files. -/
inductive Returns (persist : DelegationPersist) (call : BootstrapCall) (id : ℕ)
    (ctx : DelegationCtx) (files : DelegationFiles) :
    Except BootstrapRefusal UInt64 × DelegationCtx → DelegationFiles → Prop
  | refused (e : BootstrapRefusal) : Returns persist call id ctx files (.error e, ctx) files
  | halfWritten (e : BootstrapRefusal) : call.Verified ctx →
      Returns persist call id ctx files (.error e, ctx)
        { files with d5Pub := some ⟨call.directoryPub.toList, id⟩ }
  | unburnt (e : BootstrapRefusal) {fault : IoFault} : call.Verified ctx →
      persist.persistDirectoryPub call.directoryPub = .ok () →
      persist.persistDelegation call.cert = .ok () → persist.burnToken = .error fault →
      Returns persist call id ctx files (.error e, ctx)
        { files with
          d5Pub := some ⟨call.directoryPub.toList, id⟩
          d5Delegation := some ⟨call.cert, id⟩ }
  | installed (validUntil : UInt64) : call.Verified ctx → persist.burnToken = .ok () →
      Returns persist call id ctx files
        (.ok validUntil,
          { ctx with
            installed := some ⟨call.directoryPub, call.cert⟩
            bootstrapTokenHash := none })
        { files with
          d5Pub := some ⟨call.directoryPub.toList, id⟩
          d5Delegation := some ⟨call.cert, id⟩
          bootstrapToken := none }

lemma returns (persist : DelegationPersist) (call : BootstrapCall) (id : ℕ) (ctx : DelegationCtx)
    (files : DelegationFiles) : call.Returns persist id ctx files (call.run persist ctx)
    (call.filesAfter persist id ctx 3 files) := by
  by_cases hadmitted : call.Admitted ctx
  · have hverified : call.Verified ctx := admitted_iff.mp hadmitted
    obtain ⟨validUntil, hrun⟩ := run_of_verified persist id files hverified
    have hfiles : call.filesAfter persist id ctx 3 files =
        (PersistStep.take persist id call PersistStep.all files).2 := if_pos hadmitted
    rcases @take_cases call persist files id with ⟨e, -, h⟩ | ⟨e, -, -, h⟩ |
      ⟨e, hpub, hcert, hburn, h⟩ | ⟨hburn, h⟩
    · rw [hrun, hfiles, h]
      exact .refused _
    · rw [hrun, hfiles, h]
      exact .halfWritten _ hverified
    · rw [hrun, hfiles, h]
      exact .unburnt _ hverified hpub hcert hburn
    · rw [hrun, hfiles, h]
      exact .installed validUntil hverified hburn
  · have hfiles : call.filesAfter persist id ctx 3 files = files := if_neg hadmitted
    rcases hrun : call.run persist ctx with ⟨reply, t⟩
    cases reply with
    | error e =>
      obtain rfl : t = ctx := DelegationCtx.atomic_installBootstrap ctx e t hrun
      rw [hfiles]
      exact .refused e
    | ok validUntil => exact absurd (admitted_iff.mpr (verified_of_ok hrun rfl)) hadmitted

end BootstrapCall

end Bootstrap

/-! ## What a start finds -/

lemma isWhiteSpace_hexDigit {n : ℕ} (h : n < 16) : isWhiteSpace (Files.hexDigit n) = false := by
  interval_cases n <;> decide

lemma dropWhile_of_forall {α : Type} {p : α → Bool} {l : List α} (h : ∀ a ∈ l, p a = false) :
    l.dropWhile p = l := by
  cases l with
  | nil => rfl
  | cons a l =>
    rw [List.dropWhile_cons, if_neg]
    simp [h a List.mem_cons_self]

lemma trim_tokenText (raw : Bytes 32) : trim (tokenText raw) = tokenText raw := by
  have hall : ∀ c ∈ raw.toList.flatMap Files.hexByte, isWhiteSpace c = false := by
    intro c hc
    obtain ⟨b, -, hc⟩ := List.mem_flatMap.mp hc
    have hlt := b.toNat_lt
    unfold Files.hexByte at hc
    rcases List.mem_cons.mp hc with rfl | hc
    · exact isWhiteSpace_hexDigit (by omega)
    · rw [List.mem_singleton.mp hc]
      exact isWhiteSpace_hexDigit (by omega)
  unfold trim tokenText
  rw [String.toList_ofList, dropWhile_of_forall hall, dropWhile_of_forall, List.reverse_reverse]
  intro c hc
  exact hall c (List.mem_reverse.mp hc)

section Start

variable [Ed25519] [Sha256] {inputs : StartInputs} {files files' : DelegationFiles}
  {ctx : DelegationCtx}

omit [Ed25519] in
lemma ensureBootstrapToken_ok {hash : Bytes 32}
    (h : ensureBootstrapToken inputs files = (.ok hash, files')) :
    ∃ token, files' = { files with bootstrapToken := some token } ∧ hash = tokenHash (trim token) := by
  unfold ensureBootstrapToken at h
  cases htoken : files.bootstrapToken.filter fun s => trim s ≠ "" with
  | some s =>
    rw [htoken] at h
    obtain ⟨hhash, rfl⟩ := Prod.mk.inj h
    have hs : files.bootstrapToken = some s := (Option.filter_eq_some_iff.mp htoken).1
    refine ⟨s, ?_, (Except.ok.inj hhash).symm⟩
    rw [← hs]
  | none =>
    rw [htoken] at h
    cases hwrite : inputs.writeToken with
    | error e =>
      simp only [hwrite] at h
      cases h
    | ok _ =>
      simp only [hwrite] at h
      obtain ⟨hhash, rfl⟩ := Prod.mk.inj h
      refine ⟨_, rfl, ?_⟩
      rw [trim_tokenText]
      exact (Except.ok.inj hhash).symm

lemma buildProd_files {reply : Except IoFault DelegationCtx}
    (h : buildProd inputs files = (reply, files')) :
    files'.d5Pub = files.d5Pub ∧ files'.d5Delegation = files.d5Delegation := by
  have hkey : (ensureOperationalKey inputs files).2.d5Pub = files.d5Pub ∧
      (ensureOperationalKey inputs files).2.d5Delegation = files.d5Delegation := by
    unfold ensureOperationalKey
    cases files.operationalSecret with
    | some bytes => by_cases hlen : bytes.length = 32 <;> simp [hlen]
    | none => cases inputs.writeSecret <;> simp
  have htoken : ∀ files, (ensureBootstrapToken inputs files).2.d5Pub = files.d5Pub ∧
      (ensureBootstrapToken inputs files).2.d5Delegation = files.d5Delegation := by
    intro files
    unfold ensureBootstrapToken
    cases files.bootstrapToken.filter fun s => trim s ≠ "" with
    | some s => simp
    | none => cases inputs.writeToken <;> simp
  unfold buildProd at h
  rcases hensure : ensureOperationalKey inputs files with ⟨_ | seed, files₁⟩
  · simp only [hensure] at h hkey
    obtain ⟨-, rfl⟩ := Prod.mk.inj h
    exact hkey
  · simp only [hensure] at h hkey
    cases hload : loadInstalled files₁ with
    | some installed =>
      simp only [hload] at h
      obtain ⟨-, rfl⟩ := Prod.mk.inj h
      by_cases hremove : inputs.removeToken = true <;> simp [hremove, hkey]
    | none =>
      have htoken := htoken files₁
      simp only [hload] at h
      rcases hensure' : ensureBootstrapToken inputs files₁ with ⟨_ | hash, files₂⟩ <;>
      · simp only [hensure'] at h htoken
        obtain ⟨-, rfl⟩ := Prod.mk.inj h
        rw [htoken.1, htoken.2]
        exact hkey

lemma buildProd_ok (h : buildProd inputs files = (.ok ctx, files')) :
    (∃ bytes, files'.operationalSecret = some bytes ∧ bytes.length = 32) ∧
      ctx.installed = loadInstalled files ∧
      (ctx.installed = none → ∃ token, files'.bootstrapToken = some token ∧
        ctx.bootstrapTokenHash = some (tokenHash (trim token))) := by
  unfold buildProd at h
  have hbytes : ∀ (files : DelegationFiles) (bytes : List UInt8),
      files.operationalSecret = some bytes →
      (if inputs.removeToken then { files with bootstrapToken := none } else files).operationalSecret
        = some bytes := by
    intro files bytes hsecret
    by_cases hremove : inputs.removeToken = true <;> simp [hremove, hsecret]
  obtain ⟨seed, files₁, hkey, hpub, hcert, bytes, hsecret, hlen⟩ : ∃ seed files₁,
      ensureOperationalKey inputs files = (.ok seed, files₁) ∧ files₁.d5Pub = files.d5Pub ∧
      files₁.d5Delegation = files.d5Delegation ∧
      ∃ bytes, files₁.operationalSecret = some bytes ∧ bytes.length = 32 := by
    cases hkey : ensureOperationalKey inputs files with
    | mk reply files₁ =>
      cases reply with
      | error e =>
        simp only [hkey] at h
        cases h
      | ok seed =>
        refine ⟨seed, files₁, rfl, ?_⟩
        unfold ensureOperationalKey at hkey
        cases hsecret : files.operationalSecret with
        | some bytes =>
          simp only [hsecret] at hkey
          by_cases hlen : bytes.length = 32
          · rw [dif_pos hlen] at hkey
            obtain ⟨-, rfl⟩ := Prod.mk.inj hkey
            exact ⟨rfl, rfl, bytes, hsecret, hlen⟩
          · rw [dif_neg hlen] at hkey
            cases hkey
        | none =>
          simp only [hsecret] at hkey
          cases hwrite : inputs.writeSecret with
          | error e =>
            simp only [hwrite] at hkey
            cases hkey
          | ok _ =>
            simp only [hwrite] at hkey
            obtain ⟨-, rfl⟩ := Prod.mk.inj hkey
            exact ⟨rfl, rfl, _, rfl, inputs.seed.toList_length⟩
  have hsame : loadInstalled files₁ = loadInstalled files := by
    unfold loadInstalled
    rw [hpub, hcert]
  simp only [hkey] at h
  cases hload : loadInstalled files₁ with
  | some installed =>
    simp only [hload] at h
    obtain ⟨hctx, rfl⟩ := Prod.mk.inj h
    obtain rfl := Except.ok.inj hctx
    refine ⟨⟨bytes, hbytes files₁ bytes hsecret, hlen⟩, ?_, ?_⟩
    · rw [← hsame, hload]
      rfl
    · intro hnone
      cases hnone
  | none =>
    simp only [hload] at h
    cases htoken : ensureBootstrapToken inputs files₁ with
    | mk reply files₂ =>
      cases reply with
      | error e =>
        simp only [htoken] at h
        cases h
      | ok hash =>
        simp only [htoken] at h
        obtain ⟨hctx, rfl⟩ := Prod.mk.inj h
        obtain rfl := Except.ok.inj hctx
        obtain ⟨token, rfl, rfl⟩ := ensureBootstrapToken_ok htoken
        refine ⟨⟨bytes, hsecret, hlen⟩, ?_, fun _ => ⟨token, rfl, rfl⟩⟩
        rw [← hsame, hload]
        rfl

omit [Ed25519] [Sha256] in
lemma loadInstalled_eq_some {i : Installed} (h : loadInstalled files = some i) :
    ∃ f g, files.d5Pub = some f ∧ files.d5Delegation = some g ∧
      f.bytes = i.directoryPub.toList ∧ g.bytes = i.delegationBytes := by
  unfold loadInstalled at h
  cases hpub : files.d5Pub with
  | none =>
    simp only [hpub] at h
    cases h
  | some f =>
    cases hcert : files.d5Delegation with
    | none =>
      simp only [hpub, hcert] at h
      cases h
    | some g =>
      simp only [hpub, hcert] at h
      by_cases hlen : f.bytes.length = 32 ∧ g.bytes.length = Delegation.DELEGATION_WIRE_LEN
      · rw [dif_pos hlen] at h
        obtain rfl := Option.some.inj h
        exact ⟨f, g, rfl, rfl, rfl, rfl⟩
      · rw [dif_neg hlen] at h
        cases h

lemma loadInstalled_of_verified {call : BootstrapCall} {id : ℕ} {before : DelegationCtx}
    (hverified : call.Verified before)
    (hpub : files.d5Pub = some ⟨call.directoryPub.toList, id⟩)
    (hcert : files.d5Delegation = some ⟨call.cert, id⟩) :
    loadInstalled files = some ⟨call.directoryPub, call.cert⟩ := by
  obtain ⟨d, hparse, -, -, -⟩ := Delegation.verify_eq_ok hverified.verify
  have hlen : call.cert.length = Delegation.DELEGATION_WIRE_LEN := by
    by_contra hlen
    unfold Delegation.parse at hparse
    rw [dif_neg hlen] at hparse
    cases hparse
  unfold loadInstalled
  simp only [hpub, hcert]
  rw [dif_pos ⟨call.directoryPub.toList_length, hlen⟩]
  rfl

lemma exists_start (files : DelegationFiles) {call : BootstrapCall} {id : ℕ} {bytes : List UInt8}
    (hsecret : files.operationalSecret = some bytes) (hlen : bytes.length = 32)
    (hpub : files.d5Pub = some ⟨call.directoryPub.toList, id⟩)
    (hcert : files.d5Delegation = some ⟨call.cert, id⟩)
    {before : DelegationCtx} (hverified : call.Verified before) :
    ∃ inputs ctx, buildProd inputs files = (.ok ctx, files) ∧
      ctx.installed = some ⟨call.directoryPub, call.cert⟩ := by
  have hload := loadInstalled_of_verified hverified hpub hcert
  refine ⟨⟨call.directoryPub, call.directoryPub, .ok (), .ok (), false⟩,
    .prod (Ed25519.publicKey ⟨bytes, hlen⟩) (some ⟨call.directoryPub, call.cert⟩) none, ?_, rfl⟩
  unfold buildProd ensureOperationalKey
  simp only [hsecret]
  rw [dif_pos hlen]
  simp only [hload]
  rfl

end Start

/-! ## Runs -/

namespace CeremonyLabel

/-- The bootstrap was accepted, or the server stopped in the middle of it. -/
def Took (id : ℕ) (call : BootstrapCall) : CeremonyLabel → Prop
  | .returned id' call' _ (.ok _) => id' = id ∧ call' = call
  | .crashed id' call' => id' = id ∧ call' = call
  | _ => False

def Accepted (call : BootstrapCall) : CeremonyLabel → Prop
  | .returned _ call' _ (.ok _) => call' = call
  | _ => False

def Refused (id : ℕ) : CeremonyLabel → Prop
  | .returned id' _ _ (.error _) => id' = id
  | _ => False

end CeremonyLabel

namespace Ceremony

variable [Ed25519] [Sha256]

abbrev Path := List (Ceremony × CeremonyLabel)

/-- What a server that has just started may be: waiting for a bootstrap that the token in its file
admits, or with a key and a certificate that one bootstrap verified together.  A bootstrap that was
accepted is not lost, and one that returned an error has left nothing that is installed. -/
structure Consistent (path : Path) (files : DelegationFiles) (ctx : DelegationCtx) : Prop where
  awaiting : ctx.installed = none → ∃ token, files.bootstrapToken = some token ∧
    ∀ call : BootstrapCall, call.token = trim token →
      Delegation.verify call.directoryPub call.cert call.nowSecs = .ok ctx.operationalPub →
      saneWindow call.cert call.nowSecs = true → (call.run .null ctx).1.isOk = true
  installed : ∀ i, ctx.installed = some i → ∃ id, ∃ call : BootstrapCall,
    call.directoryPub = i.directoryPub ∧ call.cert = i.delegationBytes ∧
      files.d5Pub = some ⟨i.directoryPub.toList, id⟩ ∧
      files.d5Delegation = some ⟨i.delegationBytes, id⟩ ∧
      ∃ x ∈ path, x.2.Took id call ∧ ∃ before, x.1.ctx = some before ∧ call.Verified before
  kept : ∀ x ∈ path, ∀ call, x.2.Accepted call →
    ∃ i, ctx.installed = some i ∧ i.directoryPub = call.directoryPub
  refused : ∀ x ∈ path, ∀ id, x.2.Refused id → ctx.installed ≠ none →
    ∀ f, files.d5Pub = some f ∨ files.d5Delegation = some f → f.call ≠ id

/-- Whenever the server has just started, it is so. -/
def StartsConsistent (path : Path) (w : Ceremony) : Prop :=
  ∀ v ctx, w.Next .started v → v.ctx = some ctx → Consistent path v.files ctx

/-- A bootstrap that has written both files is not refused the removal of the token. -/
def Orderly (w : Ceremony) : CeremonyLabel → Prop
  | .returned _ call persist _ => ∀ ctx, w.ctx = some ctx → call.Admitted ctx →
      persist.persistDirectoryPub call.directoryPub = .ok () →
      persist.persistDelegation call.cert = .ok () → persist.burnToken = .ok ()
  | _ => True

/-- What orderly steps keep.  While the server waits, no certificate is in its files. -/
structure Inv (path : Path) (w : Ceremony) : Prop where
  numbered : ∀ f, w.files.d5Pub = some f ∨ w.files.d5Delegation = some f → f.call < w.calls
  running : ∀ ctx, w.ctx = some ctx →
    (∃ bytes, w.files.operationalSecret = some bytes ∧ bytes.length = 32) ∧
      (ctx.installed = none → w.files.d5Delegation = none)
  installed : ∀ f, w.files.d5Delegation = some f → ∃ call : BootstrapCall,
    w.files.d5Pub = some ⟨call.directoryPub.toList, f.call⟩ ∧ f.bytes = call.cert ∧
      ∃ x ∈ path, x.2.Took f.call call ∧ ∃ ctx, x.1.ctx = some ctx ∧ call.Verified ctx
  kept : ∀ x ∈ path, ∀ call, x.2.Accepted call → ∃ f g, w.files.d5Delegation = some f ∧
    w.files.d5Pub = some g ∧ g.bytes = call.directoryPub.toList
  refused : ∀ x ∈ path, ∀ id, x.2.Refused id →
    id < w.calls ∧ ∀ f, w.files.d5Delegation = some f → f.call ≠ id

variable {w t : Ceremony} {label : CeremonyLabel} {path : Path}

lemma Inv.keep (h : Inv path w) (hpub : t.files.d5Pub = w.files.d5Pub)
    (hcert : t.files.d5Delegation = w.files.d5Delegation) (hcalls : w.calls ≤ t.calls)
    (hrunning : ∀ ctx, t.ctx = some ctx →
      (∃ bytes, t.files.operationalSecret = some bytes ∧ bytes.length = 32) ∧
        (ctx.installed = none → t.files.d5Delegation = none))
    (haccepted : ∀ call, ¬ label.Accepted call)
    (hrefused : ∀ id, label.Refused id → id = w.calls ∧ w.calls < t.calls) :
    Inv (path ++ [(w, label)]) t := by
  refine ⟨?_, hrunning, ?_, ?_, ?_⟩
  · intro f hf
    rw [hpub, hcert] at hf
    exact (h.numbered f hf).trans_le hcalls
  · intro f hf
    rw [hcert] at hf
    obtain ⟨call, hp, hc, x, hx, htook⟩ := h.installed f hf
    exact ⟨call, hpub.trans hp, hc, x, List.mem_append_left _ hx, htook⟩
  · intro x hx call hcall
    rcases List.mem_append.mp hx with hx | hx
    · rw [hpub, hcert]
      exact h.kept x hx call hcall
    · rw [List.mem_singleton.mp hx] at hcall
      exact absurd hcall (haccepted call)
  · intro x hx id hid
    rw [hcert]
    rcases List.mem_append.mp hx with hx | hx
    · obtain ⟨hlt, hne⟩ := h.refused x hx id hid
      exact ⟨hlt.trans_le hcalls, hne⟩
    · rw [List.mem_singleton.mp hx] at hid
      obtain ⟨rfl, hlt⟩ := hrefused id hid
      exact ⟨hlt, fun f hf => (h.numbered f (.inr hf)).ne⟩

lemma Inv.pub (h : Inv path w) {f : WrittenFile} (hnone : w.files.d5Delegation = none)
    (hpub : t.files.d5Pub = some f) (hf : f.call = w.calls)
    (hcert : t.files.d5Delegation = w.files.d5Delegation) (hcalls : t.calls = w.calls + 1)
    (hsecret : t.files.operationalSecret = w.files.operationalSecret)
    (hctx : t.ctx = none ∨ t.ctx = w.ctx) (haccepted : ∀ call, ¬ label.Accepted call)
    (hrefused : ∀ id, label.Refused id → id = w.calls) :
    Inv (path ++ [(w, label)]) t := by
  rw [hnone] at hcert
  refine ⟨?_, ?_, ?_, ?_, ?_⟩
  · intro g hg
    rw [hpub, hcert] at hg
    rcases hg with hg | hg
    · rw [← Option.some.inj hg, hf, hcalls]
      omega
    · cases hg
  · intro ctx hrunning
    rcases hctx with hctx | hctx
    · rw [hctx] at hrunning
      cases hrunning
    · rw [hsecret]
      exact ⟨(h.running ctx (hctx ▸ hrunning)).1, fun _ => hcert⟩
  · intro g hg
    rw [hcert] at hg
    cases hg
  · intro x hx call hcall
    rcases List.mem_append.mp hx with hx | hx
    · obtain ⟨g, -, hg, -⟩ := h.kept x hx call hcall
      rw [hnone] at hg
      cases hg
    · rw [List.mem_singleton.mp hx] at hcall
      exact absurd hcall (haccepted call)
  · intro x hx id hid
    rw [hcert, hcalls]
    rcases List.mem_append.mp hx with hx | hx
    · obtain ⟨hlt, -⟩ := h.refused x hx id hid
      refine ⟨by omega, ?_⟩
      intro g hg
      cases hg
    · rw [List.mem_singleton.mp hx] at hid
      refine ⟨by have := hrefused id hid; omega, ?_⟩
      intro g hg
      cases hg

lemma Inv.both (h : Inv path w) {ctx : DelegationCtx} {call : BootstrapCall}
    (hw : w.ctx = some ctx) (hverified : call.Verified ctx)
    (hpub : t.files.d5Pub = some ⟨call.directoryPub.toList, w.calls⟩)
    (hcert : t.files.d5Delegation = some ⟨call.cert, w.calls⟩) (hcalls : t.calls = w.calls + 1)
    (hsecret : t.files.operationalSecret = w.files.operationalSecret)
    (hctx : ∀ c, t.ctx = some c → c.installed ≠ none)
    (htook : label.Took w.calls call) (haccepted : ∀ call', label.Accepted call' → call' = call)
    (hrefused : ∀ id, ¬ label.Refused id) : Inv (path ++ [(w, label)]) t := by
  have hnone : w.files.d5Delegation = none := (h.running ctx hw).2 hverified.awaiting
  refine ⟨?_, ?_, ?_, ?_, ?_⟩
  · intro g hg
    rw [hpub, hcert] at hg
    rcases hg with hg | hg <;>
    · rw [← Option.some.inj hg, hcalls]
      exact Nat.lt_succ_self _
  · intro c hc
    rw [hsecret]
    exact ⟨(h.running ctx hw).1, fun hinstalled => absurd hinstalled (hctx c hc)⟩
  · intro g hg
    rw [hcert] at hg
    obtain rfl := Option.some.inj hg
    exact ⟨call, hpub, rfl, (w, label), by simp, htook, ctx, hw, hverified⟩
  · intro x hx call' hcall
    rcases List.mem_append.mp hx with hx | hx
    · obtain ⟨g, -, hg, -⟩ := h.kept x hx call' hcall
      rw [hnone] at hg
      cases hg
    · rw [List.mem_singleton.mp hx] at hcall
      rw [haccepted call' hcall]
      exact ⟨_, _, hcert, hpub, rfl⟩
  · intro x hx id hid
    rcases List.mem_append.mp hx with hx | hx
    · obtain ⟨hlt, -⟩ := h.refused x hx id hid
      refine ⟨by omega, ?_⟩
      intro g hg
      rw [hcert] at hg
      rw [← Option.some.inj hg]
      exact hlt.ne'
    · rw [List.mem_singleton.mp hx] at hid
      exact absurd hid (hrefused id)

lemma Inv.step (h : Inv path w) (hok : w.Orderly label) (hnext : w.Next label t) :
    Inv (path ++ [(w, label)]) t := by
  cases hnext with
  | @returned ctx call persist hw =>
    have hreturns := BootstrapCall.returns persist call w.calls ctx w.files
    rcases hrun : call.run persist ctx with ⟨reply, ctx'⟩
    rw [hrun] at hreturns
    have hok : call.Admitted ctx → _ := hok ctx hw
    generalize call.filesAfter persist w.calls ctx 3 w.files = files at hreturns
    cases hreturns with
    | refused e =>
      refine h.keep rfl rfl (Nat.le_succ _) ?_ ?_ ?_
      · intro c hc
        obtain rfl := Option.some.inj hc
        exact h.running _ hw
      · intro call' haccepted
        exact haccepted
      · intro id hrefused
        exact ⟨hrefused.symm, Nat.lt_succ_self _⟩
    | halfWritten e hverified =>
      refine h.pub ((h.running ctx hw).2 hverified.awaiting) rfl rfl rfl rfl rfl (.inr hw.symm) ?_ ?_
      · intro call' haccepted
        exact haccepted
      · intro id hrefused
        exact hrefused.symm
    | unburnt e hverified hpub hcert hburn =>
      rw [hok (BootstrapCall.admitted_iff.mpr hverified) hpub hcert] at hburn
      cases hburn
    | installed validUntil hverified hburn =>
      refine h.both hw hverified rfl rfl rfl rfl ?_ ⟨rfl, rfl⟩ ?_ ?_
      · intro c hc
        rw [← Option.some.inj hc]
        simp
      · intro call' haccepted
        exact haccepted.symm
      · intro id hrefused
        exact hrefused
  | @crashed ctx call persist steps hw =>
    have hnone : ∀ c : DelegationCtx, (none : Option DelegationCtx) = some c → False := by
      intro c hc
      cases hc
    rcases BootstrapCall.filesAfter_cases call persist w.calls ctx w.files steps with
      hfiles | ⟨hverified, hwrote⟩
    · refine h.keep (congrArg DelegationFiles.d5Pub hfiles)
        (congrArg DelegationFiles.d5Delegation hfiles) (Nat.le_succ _) ?_ ?_ ?_
      · intro c hc
        exact (hnone c hc).elim
      · intro call' haccepted
        exact haccepted
      · intro id hrefused
        exact hrefused.elim
    · generalize call.filesAfter persist w.calls ctx steps w.files = files at hwrote
      cases hwrote with
      | none =>
        refine h.keep rfl rfl (Nat.le_succ _) ?_ ?_ ?_
        · intro c hc
          exact (hnone c hc).elim
        · intro call' haccepted
          exact haccepted
        · intro id hrefused
          exact hrefused.elim
      | directoryPub =>
        refine h.pub ((h.running ctx hw).2 hverified.awaiting) rfl rfl rfl rfl rfl (.inl rfl) ?_ ?_
        · intro call' haccepted
          exact haccepted
        · intro id hrefused
          exact hrefused.elim
      | both =>
        refine h.both hw hverified rfl rfl rfl rfl ?_ ⟨rfl, rfl⟩ ?_ ?_
        · intro c hc
          exact (hnone c hc).elim
        · intro call' haccepted
          exact haccepted.elim
        · intro id hrefused
          exact hrefused
      | all =>
        refine h.both hw hverified rfl rfl rfl rfl ?_ ⟨rfl, rfl⟩ ?_ ?_
        · intro c hc
          exact (hnone c hc).elim
        · intro call' haccepted
          exact haccepted.elim
        · intro id hrefused
          exact hrefused
  | @stopped ctx hw =>
    refine h.keep rfl rfl le_rfl ?_ ?_ ?_
    · intro c hc
      cases hc
    · intro call' haccepted
      exact haccepted
    · intro id hrefused
      exact hrefused.elim
  | @started inputs ctx files hw hbuild =>
    obtain ⟨hpub, hcert⟩ := buildProd_files hbuild
    obtain ⟨hsecret, hinstalled, -⟩ := buildProd_ok hbuild
    refine h.keep hpub hcert le_rfl ?_ ?_ ?_
    · intro c hc
      obtain rfl := Option.some.inj hc
      refine ⟨hsecret, ?_⟩
      intro hnone
      show files.d5Delegation = none
      rw [hcert]
      by_contra hsome
      obtain ⟨f, hf⟩ := Option.ne_none_iff_exists'.mp hsome
      obtain ⟨call, hp, hc, -, -, -, before, -, hverified⟩ := h.installed f hf
      rw [loadInstalled_of_verified hverified hp (by rw [hf, ← hc])] at hinstalled
      rw [hinstalled] at hnone
      cases hnone
    · intro call' haccepted
      exact haccepted
    · intro id hrefused
      exact hrefused.elim
  | @startFailed inputs e files hw hbuild =>
    obtain ⟨hpub, hcert⟩ := buildProd_files hbuild
    refine h.keep hpub hcert le_rfl ?_ ?_ ?_
    · intro c hc
      rw [show w.ctx = some c from hc] at hw
      cases hw
    · intro call' haccepted
      exact haccepted
    · intro id hrefused
      exact hrefused.elim

lemma inv_of_fresh (h : w.Fresh) : Inv [] w := by
  obtain ⟨hpub, hcert, hctx, -⟩ := h
  refine ⟨?_, ?_, ?_, by simp, by simp⟩
  · intro f hf
    rw [hpub, hcert] at hf
    rcases hf with hf | hf <;> cases hf
  · intro ctx hw
    rw [hctx] at hw
    cases hw
  · intro f hf
    rw [hcert] at hf
    cases hf

lemma inv_of_run {w₀ : Ceremony} (hfresh : w₀.Fresh) (hrun : LabelledRun Next w₀ path w)
    (hok : ∀ x ∈ path, x.1.Orderly x.2) : Inv path w := by
  induction hrun with
  | start => exact inv_of_fresh hfresh
  | @step path u v label hrun hnext ih =>
    have hbefore := ih fun x hx => hok x (List.mem_append_left _ hx)
    exact hbefore.step (hok (u, label) (by simp)) hnext

lemma Inv.run {more : Path} (h : Inv path w) (hrun : LabelledRun Next w more t)
    (hok : ∀ x ∈ more, x.1.Orderly x.2) : Inv (path ++ more) t := by
  induction hrun with
  | start =>
    rw [List.append_nil]
    exact h
  | @step more u v label hrun hnext ih =>
    rw [← List.append_assoc]
    exact (ih fun x hx => hok x (List.mem_append_left _ hx)).step (hok (u, label) (by simp)) hnext

lemma Inv.startsConsistent (h : Inv path w) : StartsConsistent path w := by
  intro v ctx hnext hv
  cases hnext with
  | @started inputs ctx' files hw hbuild =>
    obtain rfl := Option.some.inj hv
    obtain ⟨hpub, hcert⟩ := buildProd_files hbuild
    obtain ⟨-, hload, htoken⟩ := buildProd_ok hbuild
    refine ⟨?_, ?_, ?_, ?_⟩
    · intro hnone
      obtain ⟨token, hfile, hhash⟩ := htoken hnone
      refine ⟨token, hfile, ?_⟩
      intro call hcall hverify hsane
      refine BootstrapCall.admitted_iff.mpr ⟨hnone, ?_, hverify, hsane⟩
      rw [hhash, hcall]
    · intro i hi
      obtain ⟨f, g, hf, hg, hdir, hbytes⟩ := loadInstalled_eq_some (hload.symm.trans hi)
      obtain ⟨call, hp, hc, x, hx, htook, hverified⟩ := h.installed g hg
      have hfg : f = ⟨call.directoryPub.toList, g.call⟩ := Option.some.inj (hf.symm.trans hp)
      refine ⟨g.call, call, ?_, ?_, ?_, ?_, x, hx, htook, hverified⟩
      · rw [hfg] at hdir
        exact Subtype.ext hdir
      · rw [← hc, hbytes]
      · show files.d5Pub = _
        rw [hpub, hf, hfg, ← hdir, hfg]
      · show files.d5Delegation = _
        rw [hcert, hg, ← hbytes]
    · intro x hx call haccepted
      obtain ⟨g, f, hg, hf, hdir⟩ := h.kept x hx call haccepted
      obtain ⟨call', hp, hc, -, -, -, before, -, hverified⟩ := h.installed g hg
      refine ⟨_, hload.trans (loadInstalled_of_verified hverified hp (by rw [hg, ← hc])), ?_⟩
      rw [hf] at hp
      rw [Option.some.inj hp] at hdir
      exact Subtype.ext hdir
    · intro x hx id hrefused hinstalled f hf
      obtain ⟨-, hne⟩ := h.refused x hx id hrefused
      obtain ⟨i, hi⟩ := Option.ne_none_iff_exists'.mp hinstalled
      obtain ⟨f', g, -, hg, -, -⟩ := loadInstalled_eq_some (hload.symm.trans hi)
      obtain ⟨call, hp, -⟩ := h.installed g hg
      have hf : files.d5Pub = some f ∨ files.d5Delegation = some f := hf
      rw [hpub, hcert, hp, hg] at hf
      rcases hf with hf | hf
      · rw [← Option.some.inj hf]
        exact hne g hg
      · rw [← Option.some.inj hf]
        exact hne g hg

/-- A bootstrap that wrote both files and could not remove the token has left what the next start
installs. -/
lemma not_consistent_of_unburnt (call : BootstrapCall) (persist : DelegationPersist)
    {ctx : DelegationCtx} {fault : IoFault} (h : Inv path w) (hw : w.ctx = some ctx)
    (hadmitted : call.Admitted ctx)
    (hpub : persist.persistDirectoryPub call.directoryPub = .ok ())
    (hcert : persist.persistDelegation call.cert = .ok ()) (hburn : persist.burnToken = .error fault)
    (hconsistent : ∀ more u,
      LabelledRun Next ⟨call.filesAfter persist w.calls ctx 3 w.files,
        some (call.run persist ctx).2, w.calls + 1⟩ more u →
      (∀ x ∈ more, x.1.Orderly x.2) →
      StartsConsistent
        (path ++ [(w, .returned w.calls call persist (call.run persist ctx).1)] ++ more) u) :
    False := by
  obtain ⟨⟨bytes, hsecret, hlen⟩, -⟩ := h.running ctx hw
  have hverified : call.Verified ctx := BootstrapCall.admitted_iff.mp hadmitted
  obtain ⟨validUntil, hrun⟩ := BootstrapCall.run_of_verified persist w.calls w.files hverified
  have hfiles : call.filesAfter persist w.calls ctx 3 w.files =
      (PersistStep.take persist w.calls call PersistStep.all w.files).2 := if_pos hadmitted
  let files : DelegationFiles :=
    { w.files with
      d5Pub := some ⟨call.directoryPub.toList, w.calls⟩
      d5Delegation := some ⟨call.cert, w.calls⟩ }
  have htake : PersistStep.take persist w.calls call PersistStep.all w.files =
      (.error fault, files) := by
    unfold PersistStep.all
    simp only [PersistStep.take, PersistStep.answer, PersistStep.write, hpub, hcert, hburn]
    rfl
  have hrun : call.run persist ctx = (.error (.persist fault), ctx) := by
    rw [hrun, htake]
  rw [hfiles, htake, hrun] at hconsistent
  obtain ⟨inputs, ctx', hbuild, hinstalled⟩ := exists_start files hsecret hlen rfl rfl hverified
  have hstopped : LabelledRun Next ⟨files, some ctx, w.calls + 1⟩ _ _ :=
    LabelledRun.start.step (.stopped rfl)
  have hstart := hconsistent _ _ hstopped (by
    intro x hx
    rw [List.mem_singleton.mp hx]
    trivial) _ ctx' (.started inputs rfl hbuild) rfl
  refine hstart.refused (w, .returned w.calls call persist (.error (.persist fault))) (by simp)
    w.calls rfl ?_ _ (.inl rfl) rfl
  rw [hinstalled]
  simp

/-- **The delegation ceremony.**  As long as the steps are orderly, every start is consistent with
the bootstraps before it, and a step that is not leads to one that is not. -/
theorem ceremony_iff {w₀ : Ceremony} (hfresh : w₀.Fresh) (hrun : LabelledRun Next w₀ path w)
    (hok : ∀ x ∈ path, x.1.Orderly x.2) (hnext : w.Next label t) :
    StartsConsistent path w ∧
      (w.Orderly label ↔ ∀ more u, LabelledRun Next t more u → (∀ x ∈ more, x.1.Orderly x.2) →
        StartsConsistent (path ++ [(w, label)] ++ more) u) := by
  have hinv : Inv path w := inv_of_run hfresh hrun hok
  refine ⟨hinv.startsConsistent, ?_, ?_⟩
  · intro horderly more u hrun' hok'
    exact ((hinv.step horderly hnext).run hrun' hok').startsConsistent
  · intro hconsistent
    cases hnext with
    | @returned ctx call persist hw =>
      intro ctx' hctx' hadmitted hpub hcert
      obtain rfl := Option.some.inj (hw.symm.trans hctx')
      cases hburn : persist.burnToken with
      | ok _ => rfl
      | error fault =>
        exact (not_consistent_of_unburnt call persist hinv hw hadmitted hpub hcert hburn
          hconsistent).elim
    | _ => trivial

end Ceremony

section Runs

open ClosedRuns Ceremony

def firstInputs : StartInputs := ⟨.replicate 32 1, .replicate 32 7, .ok (), .ok (), true⟩

def emptyDisk : Ceremony := ⟨⟨none, none, none, none⟩, none, 0⟩

def waitingServer : Ceremony where
  files := ⟨some (.replicate 32 1), none, none, some (tokenText (.replicate 32 7))⟩
  ctx := some (.prod (.replicate 32 1) none (some (tokenHash (tokenText (.replicate 32 7)))))
  calls := 0

def bootstrapCall : BootstrapCall :=
  ⟨tokenText (.replicate 32 7), .replicate 32 2, ninetyDayCert, 1⟩

/-- A disk that does not remove the token. -/
def stickyDisk : DelegationPersist := { DelegationPersist.null with burnToken := .error ⟨"busy"⟩ }

lemma emptyDisk_starts : emptyDisk.Next .started waitingServer :=
  .started firstInputs rfl rfl

/-- The operator's bootstrap fails at the removal of the token, and the next start finds it
installed. -/
theorem refused_installed :
    ∃ path w, emptyDisk.Fresh ∧ LabelledRun Next emptyDisk path w ∧ ¬ StartsConsistent path w := by
  have hfresh : emptyDisk.Fresh := ⟨rfl, rfl, rfl, rfl⟩
  have hrun := LabelledRun.start.step emptyDisk_starts
  have hinv := inv_of_run hfresh hrun (by
    intro x hx
    rw [List.mem_singleton.mp hx]
    trivial)
  have hrun' := hrun.step (.returned bootstrapCall stickyDisk rfl)
  by_contra hall
  push Not at hall
  refine not_consistent_of_unburnt bootstrapCall stickyDisk hinv rfl ?_ rfl rfl rfl ?_
  · show (bootstrapCall.run .null _).1.isOk = true
    decide +kernel
  · intro more u hmore _
    exact hall _ _ hfresh (hrun'.trans hmore)

/-- The operator's bootstrap, on a disk that takes it. -/
theorem ceremony_bootstrapped :
    StartsConsistent [(emptyDisk, .started)] waitingServer ∧
      ∃ t, waitingServer.Next (.returned 0 bootstrapCall .null (.ok 7776000)) t ∧
        (waitingServer.Orderly (.returned 0 bootstrapCall .null (.ok 7776000)) ↔
          ∀ more u, LabelledRun Next t more u → (∀ x ∈ more, x.1.Orderly x.2) →
            StartsConsistent ([(emptyDisk, .started)] ++
              [(waitingServer, .returned 0 bootstrapCall .null (.ok 7776000))] ++ more) u) := by
  have hreply : (bootstrapCall.run .null
      (.prod (.replicate 32 1) none (some (tokenHash (tokenText (.replicate 32 7)))))).1 =
      .ok 7776000 := by decide +kernel
  have hnext := Ceremony.Next.returned (w := waitingServer) bootstrapCall .null rfl
  rw [hreply] at hnext
  have hall := ceremony_iff ⟨rfl, rfl, rfl, rfl⟩ (LabelledRun.start.step emptyDisk_starts) (by
    intro x hx
    rw [List.mem_singleton.mp hx]
    trivial) hnext
  exact ⟨hall.1, _, hnext, hall.2⟩

end Runs

end MaxSecu
