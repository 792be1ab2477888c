import MaxSecu.Server.StateRestore

/-!
# What a bundle opens to

The tier that holds the bundles may answer as it likes: serve parts of other bundles, old ones, or none.
It has not the passphrase, so what it serves opens under a key of the passphrase only as a part that a
run of the server has sealed (`Unforged`).  The salt of a run is its own, and every part carries it; so
all the parts of a bundle that opens are of one run, each in its place, and none is missing.

What nothing binds is the stamp and the component: `bundles_open` gives the run, not where it sealed to.
-/

namespace MaxSecu

namespace Mxbu

open ExceptRules

variable [Argon2id] [Aes256Gcm] {opener : MxbuOpener} {passphrase : String} {part plaintext : List UInt8}
  {header header' : Header} {partIndex partIndex' : UInt32} {isLast isLast' : Bool}

omit [Argon2id] [Aes256Gcm] in
lemma partAad_inj (h : partAad header partIndex isLast = partAad header' partIndex' isLast') :
    header = header' ∧ partIndex = partIndex' ∧ isLast = isLast' := by
  unfold partAad at h
  have hlength : header.toList.length = header'.toList.length := by
    rw [header.toList_length, header'.toList_length]
  obtain ⟨hheader, hrest⟩ := List.append_inj h hlength
  obtain ⟨hindex, hflag⟩ := List.append_inj hrest (by rw [Writer.length_u32, Writer.length_u32])
  refine ⟨List.Vector.toList_injective hheader, Writer.u32_inj hindex, ?_⟩
  have hbyte := List.head_eq_of_cons_eq hflag
  cases isLast with
  | false =>
    cases isLast' with
    | false => rfl
    | true => exact absurd hbyte (by decide)
  | true =>
    cases isLast' with
    | false => exact absurd hbyte (by decide)
    | true => rfl

omit [Argon2id] in
lemma openPart_ok (h : opener.openPart partIndex isLast part = .ok plaintext) :
    Aes256Gcm.decrypt opener.key (nonceFor (nonceBase opener.header) partIndex)
      (partAad opener.header partIndex isLast) (part.drop PasswordBlob.HEADER_LEN) =
        some plaintext := by
  unfold MxbuOpener.openPart at h
  rw [guard_eq_ok] at h
  exact elim_eq_ok.mp h.2

omit [Aes256Gcm] in
lemma fromPart_ok (h : MxbuOpener.fromPart passphrase part = .ok opener) :
    ∃ params, deriveKey (passwordBytes passphrase) (saltOf opener.header) params =
      .ok opener.key := by
  unfold MxbuOpener.fromPart at h
  obtain ⟨parsed, -, h⟩ := bind_eq_ok.mp h
  obtain ⟨key, hkey, h⟩ := bind_eq_ok.mp h
  obtain rfl := pure_eq_ok.mp h
  exact ⟨parsed.2, mapError_eq_ok.mp hkey⟩

end Mxbu

namespace Bundles

open ExceptRules Framing
open Mxbu (MxbuSealer MxbuOpener)

section Runs

variable [UnicodeNormalization] [Sha256] [Argon2id] [Aes256GcmSeal]

/-- A run that seals a component: what it is given, which of its writes fail, and the tier before. -/
structure SealRun where
  req : SealRequest
  rand : SealEntropy
  put : UInt32 → Option BlobError
  before : Content

def SealRun.frames (run : SealRun) : List (List UInt8) :=
  run.req.payload.toChunks run.req.partSize

/-- The run comes to its index: it finishes with a bundle if the write of the index goes through. -/
def SealRun.Finishes (run : SealRun) (bundle : BundleMeta) : Prop :=
  ∃ c', sealComponent run.req run.rand (Function.update run.put 0 none) run.before =
    (.ok bundle, c')

/-- The index of a bundle, with the text that its hash is kept as. -/
def BundleMeta.index (bundle : BundleMeta) (gitSha : Text) : BackupIndex :=
  ⟨gitSha, bundle.entries, bundle.parts, ⟨bundle.createdAt⟩⟩

/-- What a run seals: a frame in its place, and its index if it comes to it. -/
inductive SealRun.Seals (run : SealRun) : UInt32 → Bool → List UInt8 → Prop
  | frame (i : ℕ) (cur : List UInt8) (hi : i + 1 < 2 ^ 32) (hcur : run.frames[i]? = some cur) :
      Seals run (UInt32.ofNat (i + 1)) (i + 1 = run.frames.length) cur
  | index (bundle : BundleMeta) (gitSha : Text) (hfinishes : run.Finishes bundle)
      (hsha : optToText run.req.gitSha = .ok gitSha) :
      Seals run 0 PART0_IS_LAST (encode (bundle.index gitSha))

/-- Different runs drew different salts. -/
def FreshSalts (runs : Set SealRun) : Prop := Set.InjOn (fun run => run.rand.salt) runs

/-- Nothing that the tier serves is a forgery: under a key hashed from the passphrase it opens only as a
part that one of the runs has sealed. -/
def Unforged [Aes256Gcm] (runs : Set SealRun) (passphrase : String) (read : Reads) : Prop :=
  ∀ r i bytes salt params key nonce aad plaintext, read r i = .ok (some bytes) →
    deriveKey (passwordBytes passphrase) salt params = .ok key →
    Aes256Gcm.decrypt key nonce aad (bytes.drop PasswordBlob.HEADER_LEN) = some plaintext →
    ∃ run ∈ runs, ∃ sealer partIndex isLast, run.req.sealer run.rand = .ok sealer ∧
      key = sealer.key ∧ nonce = Mxbu.nonceFor (Mxbu.nonceBase sealer.header) partIndex ∧
      aad = Mxbu.partAad sealer.header partIndex isLast ∧ run.Seals partIndex isLast plaintext

end Runs

section Opened

variable [UnicodeNormalization] [Sha256] [Argon2id] [Aes256Gcm] [Aes256GcmSeal]
  {runs : Set SealRun} {run : SealRun} {passphrase stamp ref : String} {component : Component}
  {read : Reads} {opener : MxbuOpener} {bundle : BundleMeta} {payload : List UInt8}
  {sealer : MxbuSealer}

omit [Sha256] [Aes256Gcm] [Aes256GcmSeal] in
lemma saltOf_sealer {req : SealRequest} {rand : SealEntropy} (h : req.sealer rand = .ok sealer) :
    Mxbu.saltOf sealer.header = rand.salt := by
  unfold SealRequest.sealer at h
  obtain ⟨⟨⟩, -, h⟩ := bind_eq_ok.mp h
  obtain ⟨⟨⟩, -, h⟩ := bind_eq_ok.mp h
  have hnew := mapError_eq_ok.mp h
  unfold MxbuSealer.new at hnew
  rw [guard_eq_ok] at hnew
  obtain ⟨key, -, hnew⟩ := bind_eq_ok.mp hnew.2
  obtain rfl := pure_eq_ok.mp hnew
  exact Mxbu.saltOf_buildHeader _ _

lemma Unforged.sealed (hunforged : Unforged runs passphrase read) {r : String} {i : ℕ}
    {bytes plaintext : List UInt8} {partIndex : UInt32} {isLast : Bool}
    (hread : read r i = .ok (some bytes))
    (hkey : ∃ params, deriveKey (passwordBytes passphrase) (Mxbu.saltOf opener.header) params =
      .ok opener.key) (hopen : opener.openPart partIndex isLast bytes = .ok plaintext) :
    ∃ run ∈ runs, run.rand.salt = Mxbu.saltOf opener.header ∧
      run.Seals partIndex isLast plaintext := by
  obtain ⟨params, hkey⟩ := hkey
  obtain ⟨run, hrun, sealer, partIndex', isLast', hsealer, -, -, haad, hseals⟩ :=
    hunforged r i bytes _ params _ _ _ plaintext hread hkey (Mxbu.openPart_ok hopen)
  obtain ⟨hheader, rfl, rfl⟩ := Mxbu.partAad_inj haad
  refine ⟨run, hrun, ?_, hseals⟩
  rw [hheader]
  exact (saltOf_sealer hsealer).symm

omit [Aes256Gcm] in
lemma SealRun.Finishes.spec (h : run.Finishes bundle) :
    ∃ gitSha, optToText run.req.gitSha = .ok gitSha ∧ bundle.component = run.req.component ∧
      bundle.stamp = run.req.stamp ∧ bundle.gitSha = textToOpt gitSha ∧
      bundle.createdAt = run.req.createdAt ∧ bundle.entries = run.req.entries ∧
      bundle.parts.length = run.frames.length ∧ run.frames.length + 1 < 2 ^ 32 := by
  obtain ⟨c', hfinishes⟩ := h
  obtain ⟨sealer, gitSha, parts, -, hsha, rfl, hroom, hsealed, -⟩ := sealComponent_ok hfinishes
  exact ⟨gitSha, hsha, rfl, rfl, rfl, rfl, rfl, hsealed.length_eq, hroom⟩

omit [UnicodeNormalization] [Sha256] [Argon2id] [Aes256Gcm] [Aes256GcmSeal] in
lemma toNat_place {i : ℕ} (hi : i < 2 ^ 32) : (UInt32.ofNat i).toNat = i :=
  UInt32.toNat_ofNat_of_lt' hi

omit [Aes256Gcm] in
lemma SealRun.Seals.frame_of_pos {pos : ℕ} {isLast : Bool} {plaintext : List UInt8}
    (hpos : pos + 1 < 2 ^ 32) (h : run.Seals (UInt32.ofNat (pos + 1)) isLast plaintext) :
    run.frames[pos]? = some plaintext := by
  generalize hplace : UInt32.ofNat (pos + 1) = partIndex at h
  cases h with
  | frame i cur hi hcur =>
    have hsame := congrArg UInt32.toNat hplace
    rw [toNat_place hpos, toNat_place hi] at hsame
    obtain rfl : pos = i := by omega
    exact hcur
  | index bundle gitSha hfinishes hsha =>
    have hzero := congrArg UInt32.toNat hplace
    rw [toNat_place hpos] at hzero
    exact absurd hzero (Nat.succ_ne_zero pos)

omit [Aes256Gcm] in
lemma SealRun.Seals.index_of_zero {isLast : Bool} {plaintext : List UInt8}
    (h : run.Seals 0 isLast plaintext) :
    ∃ bundle gitSha, run.Finishes bundle ∧ optToText run.req.gitSha = .ok gitSha ∧
      plaintext = encode (bundle.index gitSha) := by
  generalize hplace : (0 : UInt32) = partIndex at h
  cases h with
  | frame i cur hi hcur =>
    have hzero := congrArg UInt32.toNat hplace
    rw [toNat_place hi] at hzero
    exact absurd hzero.symm (Nat.succ_ne_zero i)
  | index bundle gitSha hfinishes hsha => exact ⟨bundle, gitSha, hfinishes, hsha, rfl⟩

omit [Argon2id] [UnicodeNormalization] [Aes256GcmSeal] in
lemma openParts_cons_ok {total pos : ℕ} {part : BackupPart} {parts : List BackupPart}
    (h : openParts read opener component ref total pos (part :: parts) = .ok payload) :
    ∃ bytes plaintext rest, read ref (UInt32.ofNat (pos + 1)).toNat = .ok (some bytes) ∧
      opener.openPart (UInt32.ofNat (pos + 1)) (pos + 1 = total) bytes = .ok plaintext ∧
      openParts read opener component ref total (pos + 1) parts = .ok rest ∧
      payload = plaintext ++ rest := by
  unfold openParts at h
  obtain ⟨found, hfound, hpart⟩ := bind_eq_ok.mp h
  obtain ⟨bytes, hbytes, hchecked⟩ := bind_eq_ok.mp hpart
  rw [guard_eq_ok] at hchecked
  obtain ⟨plaintext, hopen, hothers⟩ := bind_eq_ok.mp hchecked.2
  obtain ⟨rest, hrest, hpayload⟩ := bind_eq_ok.mp hothers
  rw [elim_eq_ok.mp hbytes] at hfound
  exact ⟨bytes, plaintext, rest, mapError_eq_ok.mp hfound, mapError_eq_ok.mp hopen, hrest,
    (pure_eq_ok.mp hpayload).symm⟩

lemma openParts_unforged (hunforged : Unforged runs passphrase read) (hfresh : FreshSalts runs)
    (hrun : run ∈ runs) (hsalt : run.rand.salt = Mxbu.saltOf opener.header)
    (hkey : ∃ params, deriveKey (passwordBytes passphrase) (Mxbu.saltOf opener.header) params =
      .ok opener.key) {total pos : ℕ} {parts : List BackupPart}
    (hlength : pos + parts.length = run.frames.length) (hroom : run.frames.length + 1 < 2 ^ 32)
    (hopen : openParts read opener component ref total pos parts = .ok payload) :
    payload = (run.frames.drop pos).flatten := by
  induction parts generalizing pos payload with
  | nil =>
    rw [List.length_nil, Nat.add_zero] at hlength
    rw [List.drop_eq_nil_of_le hlength.ge]
    exact (pure_eq_ok.mp hopen).symm
  | cons part parts ih =>
    rw [List.length_cons] at hlength
    obtain ⟨bytes, plaintext, rest, hread, hpart, hrest, rfl⟩ := openParts_cons_ok hopen
    obtain ⟨run', hrun', hsalt', hseals⟩ := hunforged.sealed hread hkey hpart
    obtain rfl : run' = run := hfresh hrun' hrun (hsalt'.trans hsalt.symm)
    have hframe := hseals.frame_of_pos (by omega)
    obtain ⟨hlt, hget⟩ := List.getElem?_eq_some_iff.mp hframe
    rw [ih (by omega) hrest, List.drop_eq_getElem_cons hlt, List.flatten_cons, hget]

omit [Sha256] [Aes256GcmSeal] in
lemma readIndex_ok (h : readIndex read passphrase stamp component = .ok (opener, bundle)) :
    ∃ part0 body index, read (componentRef stamp component) 0 = .ok (some part0) ∧
      MxbuOpener.fromPart passphrase part0 = .ok opener ∧
      opener.openPart 0 PART0_IS_LAST part0 = .ok body ∧ decode BackupIndex body = .ok index ∧
      bundle = ⟨component, stamp, textToOpt index.gitSha, index.createdAt.millis, index.entries,
        index.parts⟩ := by
  unfold readIndex at h
  obtain ⟨⟨⟩, -, h⟩ := bind_eq_ok.mp h
  obtain ⟨found, hfound, h⟩ := bind_eq_ok.mp h
  obtain ⟨part0, hpart0, h⟩ := bind_eq_ok.mp h
  obtain ⟨opener', hopener, h⟩ := bind_eq_ok.mp h
  obtain ⟨body, hbody, h⟩ := bind_eq_ok.mp h
  obtain ⟨index, hindex, h⟩ := bind_eq_ok.mp h
  obtain ⟨rfl, rfl⟩ := Prod.mk.inj (pure_eq_ok.mp h)
  obtain rfl := elim_eq_ok.mp hpart0
  exact ⟨part0, body, index, mapError_eq_ok.mp hfound, mapError_eq_ok.mp hopener,
    mapError_eq_ok.mp hbody, mapError_eq_ok.mp hindex, rfl⟩

lemma readIndex_unforged (hunforged : Unforged runs passphrase read)
    (hentries : ∀ run ∈ runs, run.req.entries.length < 2 ^ 32)
    (h : readIndex read passphrase stamp component = .ok (opener, bundle)) :
    ∃ run ∈ runs, ∃ bundle', run.rand.salt = Mxbu.saltOf opener.header ∧ run.Finishes bundle' ∧
      bundle = { bundle' with component := component, stamp := stamp } := by
  obtain ⟨part0, body, index, hread, hopener, hbody, hindex, rfl⟩ := readIndex_ok h
  obtain ⟨run, hrun, hsalt, hseals⟩ := hunforged.sealed hread (Mxbu.fromPart_ok hopener) hbody
  obtain ⟨bundle', gitSha, hfinishes, hsha, rfl⟩ := hseals.index_of_zero
  obtain ⟨gitSha', hsha', -, -, htext, -, hentries', hparts, hroom⟩ := hfinishes.spec
  obtain rfl : gitSha = gitSha' := Except.ok.inj (hsha.symm.trans hsha')
  have hwf : BackupIndex.WellFormed (bundle'.index gitSha) :=
    ⟨by show bundle'.entries.length < 2 ^ 32; rw [hentries']; exact hentries run hrun,
      by show bundle'.parts.length < 2 ^ 32; omega⟩
  obtain rfl : bundle'.index gitSha = index :=
    Except.ok.inj ((decode_encode hwf).symm.trans hindex)
  refine ⟨run, hrun, bundle', hsalt, hfinishes, ?_⟩
  unfold BundleMeta.index
  rw [htext]

lemma openComponent_unforged (hunforged : Unforged runs passphrase read) (hfresh : FreshSalts runs)
    (hentries : ∀ run ∈ runs, run.req.entries.length < 2 ^ 32)
    (h : openComponent read passphrase stamp component = .ok (bundle, payload)) :
    ∃ run ∈ runs, ∃ bundle', run.Finishes bundle' ∧
      bundle = { bundle' with component := component, stamp := stamp } ∧
      payload = run.req.payload := by
  unfold openComponent at h
  obtain ⟨⟨opener, bundle''⟩, hindex, h⟩ := bind_eq_ok.mp h
  obtain ⟨payload', hpayload, h⟩ := bind_eq_ok.mp h
  obtain ⟨rfl, rfl⟩ := Prod.mk.inj (pure_eq_ok.mp h)
  obtain ⟨part0, body, index, -, hopener, -⟩ := readIndex_ok hindex
  obtain ⟨run, hrun, bundle', hsalt, hfinishes, rfl⟩ := readIndex_unforged hunforged hentries hindex
  obtain ⟨-, -, -, -, -, -, -, hparts, hroom⟩ := hfinishes.spec
  have hframes := openParts_unforged hunforged hfresh hrun hsalt (Mxbu.fromPart_ok hopener)
    ((Nat.zero_add _).trans hparts) hroom hpayload
  refine ⟨run, hrun, bundle', hfinishes, rfl, ?_⟩
  have hpos : 0 < run.req.partSize := by
    obtain ⟨c', hfinishes⟩ := hfinishes
    obtain ⟨sealer, -, -, hsealer, -⟩ := sealComponent_ok hfinishes
    exact partSize_pos hsealer
  rw [hframes, List.drop_zero]
  exact flatten_toChunks hpos _

end Opened

/-! ## Bundles that were cut short -/

section Cut

variable [UnicodeNormalization] [Sha256] [Argon2id] [Aes256Gcm] [Aes256GcmSeal]
  {sealer : MxbuSealer} {ref passphrase stamp : String} {put : UInt32 → Option BlobError}
  {c c' : Content} {frames : List (List UInt8)} {idx : UInt32} {req : SealRequest}
  {rand : SealEntropy} {bundle : BundleMeta} {component : Component} {read read' : Reads}
  {opener : MxbuOpener} {payload : List UInt8}

omit [UnicodeNormalization] [Argon2id] [Aes256Gcm] in
lemma sealFrames_before {r : String} {i : ℕ} (hi : i < idx.toNat) :
    (sealFrames sealer ref put idx frames c).2 r i = c r i := by
  induction frames generalizing idx c with
  | nil => rfl
  | cons cur pending ih =>
    unfold sealFrames
    dsimp only
    cases hput : put idx with
    | some e => rfl
    | none =>
      dsimp only
      by_cases hlast : idx.toNat + 1 = 2 ^ 32
      · rw [if_pos hlast]
        exact putChunk_of_ne hi.ne
      · rw [if_neg hlast]
        have hnext : (idx + 1).toNat = idx.toNat + 1 := by
          have hlt := idx.toNat_lt
          rw [UInt32.toNat_add, UInt32.toNat_one]
          omega
        have hrest := @ih (putChunk c ref idx.toNat (sealer.sealPart idx pending.isEmpty cur))
          (idx + 1) (by omega)
        rw [putChunk_of_ne hi.ne] at hrest
        cases hrun : sealFrames sealer ref put (idx + 1) pending
            (putChunk c ref idx.toNat (sealer.sealPart idx pending.isEmpty cur)) with
        | mk result c'' =>
          rw [hrun] at hrest
          cases result with
          | error e => exact hrest
          | ok parts => exact hrest

omit [Aes256Gcm] in
lemma sealComponent_error {e : BackupError} (h : sealComponent req rand put c = (.error e, c')) :
    c' (componentRef req.stamp req.component) 0 = c (componentRef req.stamp req.component) 0 := by
  unfold sealComponent at h
  cases hsealer : req.sealer rand with
  | error e =>
    rw [hsealer] at h
    rw [← (Prod.mk.inj h).2]
  | ok sealer =>
    rw [hsealer] at h
    dsimp only at h
    have hbefore := @sealFrames_before _ _ sealer (componentRef req.stamp req.component) put c
      (req.payload.toChunks req.partSize) 1 (componentRef req.stamp req.component) 0 (by decide)
    cases hframes : sealFrames sealer (componentRef req.stamp req.component) put 1
        (req.payload.toChunks req.partSize) c with
    | mk result c'' =>
      rw [hframes] at h hbefore
      cases result with
      | error e =>
        rw [← (Prod.mk.inj h).2]
        exact hbefore
      | ok parts =>
        dsimp only at h
        by_cases hdeclared : req.entries ≠ [] ∧
            (req.entries.map (·.len)).foldl (· + ·) 0 ≠ UInt64.ofNat req.payload.length
        · rw [if_pos hdeclared] at h
          rw [← (Prod.mk.inj h).2]
          exact hbefore
        · rw [if_neg hdeclared] at h
          cases hsha : optToText req.gitSha with
          | error e =>
            rw [hsha] at h
            rw [← (Prod.mk.inj h).2]
            exact hbefore
          | ok gitSha =>
            rw [hsha] at h
            cases hput : put 0 with
            | some e =>
              rw [hput] at h
              rw [← (Prod.mk.inj h).2]
              exact hbefore
            | none =>
              rw [hput] at h
              cases (Prod.mk.inj h).1

omit [UnicodeNormalization] [Argon2id] [Aes256GcmSeal] in
lemma openParts_present {total pos : ℕ} {parts : List BackupPart}
    (hroom : pos + parts.length < 2 ^ 32)
    (h : openParts read opener component ref total pos parts = .ok payload) {i : ℕ} (hpos : pos < i)
    (hi : i ≤ pos + parts.length) : ∃ bytes, read ref i = .ok (some bytes) := by
  induction parts generalizing pos payload with
  | nil =>
    rw [List.length_nil] at hi
    omega
  | cons part parts ih =>
    rw [List.length_cons] at hi hroom
    obtain ⟨bytes, plaintext, rest, hread, -, hrest, -⟩ := openParts_cons_ok h
    by_cases hfirst : i = pos + 1
    · rw [toNat_place (by omega), ← hfirst] at hread
      exact ⟨bytes, hread⟩
    · exact ih (by omega) hrest (by omega) (by omega)

omit [Sha256] [Aes256GcmSeal] in
lemma readIndex_congr (h : read (componentRef stamp component) 0 =
      read' (componentRef stamp component) 0) :
    readIndex read passphrase stamp component = readIndex read' passphrase stamp component := by
  unfold readIndex
  rw [h]

lemma openComponent_missing (haead : AeadOpens) (hargon : req.argon.BelowCeiling)
    (hentries : req.entries.length < 2 ^ 32) (h : sealComponent req rand put c = (.ok bundle, c'))
    {cut : Content} (hcut : ∀ i, cut (componentRef req.stamp req.component) i =
      c' (componentRef req.stamp req.component) i ∨
        cut (componentRef req.stamp req.component) i = none) {i : ℕ} (hi : i ≤ bundle.parts.length)
    (hmissing : cut (componentRef req.stamp req.component) i = none) :
    ∃ e, openComponent (fun r i => .ok (cut r i)) req.passphrase req.stamp req.component =
      .error e := by
  cases hopen : openComponent (fun r i => .ok (cut r i)) req.passphrase req.stamp
      req.component with
  | error e => exact ⟨e, rfl⟩
  | ok opened =>
    exfalso
    unfold openComponent at hopen
    obtain ⟨⟨opener, bundle'⟩, hindex, hopen⟩ := bind_eq_ok.mp hopen
    obtain ⟨payload, hpayload, -⟩ := bind_eq_ok.mp hopen
    obtain ⟨part0, body, index, hpart0, -⟩ := readIndex_ok hindex
    have hpresent : cut (componentRef req.stamp req.component) 0 = some part0 :=
      Except.ok.inj hpart0
    have hzero : cut (componentRef req.stamp req.component) 0 =
        c' (componentRef req.stamp req.component) 0 := by
      rcases hcut 0 with hsame | hnone
      · exact hsame
      · rw [hnone] at hpresent
        cases hpresent
    obtain ⟨sealer, gitSha, parts, hsealer, -, rfl, hroom, hsealed, hheld⟩ := sealComponent_ok h
    have hlength : parts.length = (req.payload.toChunks req.partSize).length := hsealed.length_eq
    have hwhole := readIndex_sealed haead hargon hentries hsealer (by omega) hheld
    have hsame : readIndex (fun r i => .ok (cut r i)) req.passphrase req.stamp req.component =
        readIndex (fun r i => .ok (c' r i)) req.passphrase req.stamp req.component :=
      readIndex_congr (congrArg Except.ok hzero)
    rw [hsame, hwhole] at hindex
    obtain ⟨rfl, rfl⟩ := Prod.mk.inj (Except.ok.inj hindex)
    by_cases hfirst : i = 0
    · rw [hfirst, hpresent] at hmissing
      cases hmissing
    · have hend : 0 + parts.length < 2 ^ 32 := by omega
      obtain ⟨bytes, hbytes⟩ := openParts_present hend hpayload (Nat.pos_of_ne_zero hfirst)
        (by rw [Nat.zero_add]; exact hi)
      have hthere : cut (componentRef req.stamp req.component) i = some bytes := Except.ok.inj hbytes
      rw [hthere] at hmissing
      cases hmissing

omit [Aes256GcmSeal] in
lemma openComponent_unindexed (h : read (componentRef stamp component) 0 = .ok none) :
    ∃ e, openComponent read passphrase stamp component = .error e := by
  cases hopen : openComponent read passphrase stamp component with
  | error e => exact ⟨e, rfl⟩
  | ok opened =>
    exfalso
    unfold openComponent at hopen
    obtain ⟨⟨opener, bundle⟩, hindex, -⟩ := bind_eq_ok.mp hopen
    obtain ⟨part0, body, index, hpart0, -⟩ := readIndex_ok hindex
    rw [h] at hpart0
    cases hpart0

/-- **Bundles open to what was sealed.**  A finished run opens to its payload and its index; with a part
missing, or after a run that failed at any write, nothing opens; and whatever a tier without the
passphrase serves, what opens is the payload and the index of one run. -/
theorem bundles_open (haead : AeadOpens) :
    (∀ (req : SealRequest) (rand : SealEntropy) (put : UInt32 → Option BlobError) (c c' : Content)
      (bundle : BundleMeta), req.argon.BelowCeiling → req.entries.length < 2 ^ 32 →
      sealComponent req rand put c = (.ok bundle, c') →
      bundle.entries = req.entries ∧
        openComponent (fun r i => .ok (c' r i)) req.passphrase req.stamp req.component =
          .ok (bundle, req.payload) ∧
        ∀ cut : Content, (∀ i, cut (componentRef req.stamp req.component) i =
            c' (componentRef req.stamp req.component) i ∨
              cut (componentRef req.stamp req.component) i = none) →
          (∃ i ≤ bundle.parts.length, cut (componentRef req.stamp req.component) i = none) →
          ∃ e, openComponent (fun r i => .ok (cut r i)) req.passphrase req.stamp req.component =
            .error e) ∧
    (∀ (req : SealRequest) (rand : SealEntropy) (put : UInt32 → Option BlobError) (c c' : Content)
      (e : BackupError) (passphrase : String),
      c (componentRef req.stamp req.component) 0 = none →
      sealComponent req rand put c = (.error e, c') →
      ∃ e', openComponent (fun r i => .ok (c' r i)) passphrase req.stamp req.component =
        .error e') ∧
    ∀ (runs : Set SealRun) (passphrase stamp : String) (component : Component) (read : Reads)
      (bundle : BundleMeta) (payload : List UInt8), FreshSalts runs →
      (∀ run ∈ runs, run.req.entries.length < 2 ^ 32) → Unforged runs passphrase read →
      openComponent read passphrase stamp component = .ok (bundle, payload) →
      ∃ run ∈ runs, ∃ bundle', run.Finishes bundle' ∧
        bundle = { bundle' with component := component, stamp := stamp } ∧
        payload = run.req.payload := by
  refine ⟨?_, ?_, ?_⟩
  · intro req rand put c c' bundle hargon hentries hseal
    obtain ⟨hindex, hopen⟩ := openComponent_sealed haead hargon hentries hseal
    refine ⟨hindex, hopen, ?_⟩
    rintro cut hcut ⟨i, hi, hmissing⟩
    exact openComponent_missing haead hargon hentries hseal hcut hi hmissing
  · intro req rand put c c' e passphrase hempty hseal
    have hindex := sealComponent_error hseal
    rw [hempty] at hindex
    exact openComponent_unindexed (congrArg Except.ok hindex)
  · intro runs passphrase stamp component read bundle payload hfresh hentries hunforged hopen
    exact openComponent_unforged hunforged hfresh hentries hopen

end Cut

/-! ## Closed runs -/

section Closed

local instance : UnicodeNormalization := UsernameIdentity.composingNormalization
local instance : Sha256 := tailSha256
local instance : Argon2id := constantArgon2id
local instance : Aes256Gcm := tagStrippingAead
local instance : Aes256GcmSeal := tagAppendingAeadSeal

def emptyText : Text := ⟨"", by decide, by decide⟩

def emptyFile : BackupEntry := ⟨emptyText, 0, ⟨.replicate 32 0⟩⟩

/-- A request for an empty payload with a number of empty files. -/
def emptyFiles (n : ℕ) : SealRequest :=
  ⟨"correct horse battery", "20260101-000000", none, .state, List.replicate n emptyFile, [],
    ARGON2_DESKTOP_TARGET, 2, 0⟩

lemma foldl_len_emptyFiles (n : ℕ) :
    ((List.replicate n emptyFile).map (·.len)).foldl (· + ·) 0 = (0 : UInt64) := by
  induction n with
  | zero => rfl
  | succ n ih =>
    rw [List.replicate_succ, List.map_cons, List.foldl_cons]
    exact ih

def emptySealer : MxbuSealer := ⟨Mxbu.buildHeader ARGON2_DESKTOP_TARGET zeroEntropy, .replicate 32 6⟩

lemma sealer_emptyFiles (n : ℕ) : (emptyFiles n).sealer zeroEntropy = .ok emptySealer := by
  have hstamp : validateStamp "20260101-000000" = .ok () := if_pos (by decide +kernel)
  have hsize : checkPartSize 2 = .ok () := if_neg (by decide)
  have hnew : MxbuSealer.new "correct horse battery" ARGON2_DESKTOP_TARGET zeroEntropy =
      .ok emptySealer := by
    have hkey : (deriveKey (passwordBytes "correct horse battery") zeroEntropy.salt
        ARGON2_DESKTOP_TARGET) = .ok (.replicate 32 6) := by
      rfl
    unfold MxbuSealer.new
    rw [if_neg (by decide +kernel), hkey]
    rfl
  unfold SealRequest.sealer
  exact bind_eq_ok.mpr ⟨(), hstamp, bind_eq_ok.mpr ⟨(), hsize, mapError_eq_ok.mpr hnew⟩⟩

lemma sealComponent_emptyFiles (n : ℕ) :
    ∃ bundle c', sealComponent (emptyFiles n) zeroEntropy (fun _ => none) (fun _ _ => none) =
      (.ok bundle, c') ∧ bundle.entries = List.replicate n emptyFile := by
  have hsha : optToText (emptyFiles n).gitSha = .ok emptyText := rfl
  have hagrees : ¬ ((emptyFiles n).entries ≠ [] ∧
      ((emptyFiles n).entries.map (·.len)).foldl (· + ·) 0 ≠
        UInt64.ofNat (emptyFiles n).payload.length) :=
    fun h => h.2 (foldl_len_emptyFiles n)
  unfold sealComponent
  rw [sealer_emptyFiles]
  dsimp only
  rw [show (emptyFiles n).payload.toChunks (emptyFiles n).partSize = [] from toChunks_nil]
  unfold sealFrames
  dsimp only
  rw [if_neg hagrees, hsha]
  exact ⟨_, _, rfl, rfl⟩

/-- **Too many entries are lost**: an index of `2 ^ 32` entries is sealed without an error, and what
opens has another index. -/
theorem openComponent_tooManyEntries :
    ∃ bundle c', sealComponent (emptyFiles (2 ^ 32)) zeroEntropy (fun _ => none) (fun _ _ => none) =
        (.ok bundle, c') ∧
      ∀ bundle' payload, openComponent (fun r i => .ok (c' r i)) "correct horse battery"
        "20260101-000000" .state = .ok (bundle', payload) → bundle'.entries ≠ bundle.entries := by
  obtain ⟨bundle, c', hseal, hentries⟩ := sealComponent_emptyFiles (2 ^ 32)
  refine ⟨bundle, c', hseal, fun bundle' payload hopen heq => ?_⟩
  unfold openComponent at hopen
  obtain ⟨⟨opener, bundle''⟩, hindex, hopen⟩ := bind_eq_ok.mp hopen
  obtain ⟨payload', -, hopen⟩ := bind_eq_ok.mp hopen
  obtain ⟨rfl, rfl⟩ := Prod.mk.inj (pure_eq_ok.mp hopen)
  obtain ⟨part0, body, index, -, -, -, hdecode, rfl⟩ := readIndex_ok hindex
  have hwf : BackupIndex.WellFormed index := (decode_eq_ok_iff.mp hdecode).1
  have hfew : index.entries.length < 2 ^ 32 := hwf.1
  have hmany : index.entries.length = 2 ^ 32 := by
    rw [show index.entries = bundle.entries from heq, hentries, List.length_replicate]
  omega

end Closed

/-! ## One byte -/

section OneByte

local instance : UnicodeNormalization := UsernameIdentity.composingNormalization
local instance : Sha256 := tailSha256
local instance : Argon2id := constantArgon2id

/-- The places of a bundle of one frame. -/
def sealedPlaces : List (Bytes 12 × List UInt8) :=
  [(0, PART0_IS_LAST), (1, true)].map fun (partIndex, isLast) =>
    (Mxbu.nonceFor (Mxbu.nonceBase emptySealer.header) partIndex,
      Mxbu.partAad emptySealer.header partIndex isLast)

/-- A tag that tells these places apart. -/
def placeTag (nonce : Bytes 12) (aad : List UInt8) : List UInt8 :=
  List.replicate 15 0 ++ [UInt8.ofNat (sealedPlaces.idxOf (nonce, aad))]

def openPlaced (nonce : Bytes 12) (aad ct : List UInt8) : Option (List UInt8) :=
  if ct.drop (ct.length - 16) = placeTag nonce aad then some (ct.take (ct.length - 16)) else none

local instance : Aes256GcmSeal := ⟨fun _ nonce aad pt => pt ++ placeTag nonce aad⟩
local instance : Aes256Gcm := ⟨fun _ nonce aad ct => openPlaced nonce aad ct⟩

lemma length_placeTag (nonce : Bytes 12) (aad : List UInt8) : (placeTag nonce aad).length = 16 := by
  rfl

lemma openPlaced_append (nonce nonce' : Bytes 12) (aad aad' pt : List UInt8) :
    openPlaced nonce aad (pt ++ placeTag nonce' aad') =
      if placeTag nonce' aad' = placeTag nonce aad then some pt else none := by
  have hlength : (pt ++ placeTag nonce' aad').length - 16 = pt.length := by
    rw [List.length_append, length_placeTag]
    omega
  unfold openPlaced
  rw [hlength, List.take_left, List.drop_left]

lemma aeadOpens_placeTag : AeadOpens where
  opens key nonce aad pt := (openPlaced_append nonce nonce aad aad pt).trans (if_pos rfl)
  length key nonce aad pt := by
    show (pt ++ placeTag nonce aad).length = pt.length + TAG_LEN
    rw [List.length_append, length_placeTag]
    rfl

lemma decrypt_placed {key key' : Bytes 32} {nonce nonce' : Bytes 12} {aad aad' pt pt' : List UInt8}
    (hplace : (nonce', aad') ∈ sealedPlaces)
    (h : Aes256Gcm.decrypt key nonce aad (Aes256GcmSeal.encrypt key' nonce' aad' pt') = some pt) :
    nonce = nonce' ∧ aad = aad' ∧ pt = pt' := by
  have hopen : openPlaced nonce aad (pt' ++ placeTag nonce' aad') = some pt := h
  rw [openPlaced_append] at hopen
  by_cases htag : placeTag nonce' aad' = placeTag nonce aad
  · rw [if_pos htag, Option.some.injEq] at hopen
    have hlast := List.append_cancel_left htag
    rw [List.cons.injEq] at hlast
    have hindex := congrArg UInt8.toNat hlast.1
    have hle : ∀ p, sealedPlaces.idxOf p ≤ 2 := fun p => List.idxOf_le_length
    have hle' := hle (nonce, aad)
    have hle'' := hle (nonce', aad')
    rw [UInt8.toNat_ofNat_of_lt' (by show _ < 256; omega),
      UInt8.toNat_ofNat_of_lt' (by show _ < 256; omega)] at hindex
    have hsame := (List.idxOf_inj hplace).mp hindex
    obtain ⟨rfl, rfl⟩ := Prod.mk.inj hsame
    exact ⟨rfl, rfl, hopen.symm⟩
  · rw [if_neg htag] at hopen
    cases hopen

def oneByte : SealRequest :=
  ⟨"correct horse battery", "20260101-000000", none, .state, [], [7], ARGON2_DESKTOP_TARGET, 2, 0⟩

def oneByteRef : String := componentRef "20260101-000000" .state

def oneBytePart : List UInt8 := emptySealer.sealPart 1 true [7]

def oneByteIndex : BackupIndex := ⟨emptyText, [], [partOf oneBytePart], ⟨0⟩⟩

def oneByteBundle : BundleMeta := ⟨.state, "20260101-000000", none, 0, [], [partOf oneBytePart]⟩

/-- The tier after the run. -/
def oneByteTier : Content :=
  putChunk (putChunk (fun _ _ => none) oneByteRef 1 oneBytePart) oneByteRef 0
    (emptySealer.sealPart 0 PART0_IS_LAST (encode oneByteIndex))

lemma sealer_oneByte : oneByte.sealer zeroEntropy = .ok emptySealer := sealer_emptyFiles 0

lemma sealComponent_oneByte : sealComponent oneByte zeroEntropy (fun _ => none) (fun _ _ => none) =
    (.ok oneByteBundle, oneByteTier) := by
  have hframes : oneByte.payload.toChunks oneByte.partSize = [[7]] := rfl
  unfold sealComponent
  rw [sealer_oneByte]
  dsimp only
  rw [hframes]
  rfl

def oneByteRun : SealRun := ⟨oneByte, zeroEntropy, fun _ => none, fun _ _ => none⟩

lemma finishes_oneByte : oneByteRun.Finishes oneByteBundle := by
  refine ⟨oneByteTier, ?_⟩
  have hput : Function.update oneByteRun.put 0 none = fun _ => none := Function.update_eq_self 0 _
  rw [hput]
  exact sealComponent_oneByte

lemma oneByteTier_spec {r : String} {i : ℕ} {bytes : List UInt8}
    (h : oneByteTier r i = some bytes) :
    ∃ partIndex isLast plaintext, bytes = emptySealer.sealPart partIndex isLast plaintext ∧
      (Mxbu.nonceFor (Mxbu.nonceBase emptySealer.header) partIndex,
        Mxbu.partAad emptySealer.header partIndex isLast) ∈ sealedPlaces ∧
      oneByteRun.Seals partIndex isLast plaintext := by
  unfold oneByteTier putChunk at h
  by_cases hindex : r = oneByteRef ∧ i = 0
  · rw [if_pos hindex, Option.some.injEq] at h
    refine ⟨0, PART0_IS_LAST, encode oneByteIndex, h.symm, List.mem_cons_self, ?_⟩
    exact .index oneByteBundle oneByteIndex.gitSha finishes_oneByte rfl
  · rw [if_neg hindex] at h
    by_cases hpart : r = oneByteRef ∧ i = 1
    · rw [if_pos hpart, Option.some.injEq] at h
      refine ⟨1, true, [7], h.symm, List.mem_cons_of_mem _ List.mem_cons_self, ?_⟩
      exact .frame 0 [7] (by decide) rfl
    · rw [if_neg hpart] at h
      cases h

lemma unforged_oneByte : Unforged {oneByteRun} "correct horse battery"
    fun r i => .ok (oneByteTier r i) := by
  intro r i bytes salt params key nonce aad plaintext hread hkey hopen
  obtain ⟨partIndex, isLast, sealed, rfl, hplace, hseals⟩ := oneByteTier_spec (Except.ok.inj hread)
  unfold MxbuSealer.sealPart at hopen
  rw [List.drop_left' emptySealer.header.toList_length] at hopen
  obtain ⟨rfl, rfl, rfl⟩ := decrypt_placed hplace hopen
  have hsame : key = emptySealer.key := by
    unfold deriveKey at hkey
    rw [guard_eq_ok] at hkey
    exact (Except.ok.inj hkey.2).symm
  exact ⟨oneByteRun, rfl, emptySealer, partIndex, isLast, sealer_oneByte, hsame, rfl, rfl, hseals⟩

/-- The byte is opened, and it is the byte of the run; without its part, or after a run whose index was not
written, nothing is. -/
theorem bundles_open_oneByte :
    openComponent (fun r i => .ok (oneByteTier r i)) "correct horse battery" "20260101-000000" .state =
        .ok (oneByteBundle, [7]) ∧
      (∃ e, openComponent (fun r i => .ok (if i = 1 then none else oneByteTier r i))
        "correct horse battery" "20260101-000000" .state = .error e) ∧
      (∃ run ∈ ({oneByteRun} : Set SealRun), ∃ bundle', run.Finishes bundle' ∧
        oneByteBundle = { bundle' with component := .state, stamp := "20260101-000000" } ∧
        [7] = run.req.payload) := by
  obtain ⟨hsealed, -, hmixed⟩ := bundles_open aeadOpens_placeTag
  have hargon : ARGON2_DESKTOP_TARGET.BelowCeiling := by
    unfold Argon2Params.BelowCeiling
    decide
  obtain ⟨-, hopen, hmissing⟩ := hsealed oneByte zeroEntropy (fun _ => none) (fun _ _ => none)
    oneByteTier oneByteBundle hargon (by decide) sealComponent_oneByte
  refine ⟨hopen, ?_, ?_⟩
  · refine hmissing (fun r i => if i = 1 then none else oneByteTier r i) (fun i => ?_) ⟨1, le_rfl, rfl⟩
    by_cases hi : i = 1
    · exact .inr (if_pos hi)
    · exact .inl (if_neg hi)
  · refine hmixed {oneByteRun} "correct horse battery" "20260101-000000" .state _ oneByteBundle [7]
      ?_ ?_ unforged_oneByte hopen
    · exact Set.injOn_singleton _ _
    · rintro run rfl
      decide

end OneByte

end Bundles

end MaxSecu
