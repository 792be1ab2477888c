import MaxSecu.Client.Download

/-!
# The whole-buffer and the streaming download agree

The four openers run the same header checks and then the same ladder over each declared stream:
uncompressed, served, with the declared count and digest, and opening under the stream's subkey
(`OpensTo`).  `verifyAndOpen` bounds the framing fields of every stream and does not ask for a
content stream; `openSmallStreams` asks for one and bounds it alone.  So an otherwise acceptable
version with an oversized small stream is refused whole and accepted streamed, one without content
the other way round, and nothing else makes the two differ (`downloads_agree_iff`).
-/

namespace MaxSecu

open ExceptRules

/-! ## The ladder of one stream -/

section Ladder

variable [Sha256] [Hkdf] [Aes256Gcm]

/-- The declared stream is uncompressed and served as declared, and opens to the plaintext. -/
def OpensTo (ctx : VerifyContext) (manifest : Manifest) (dek : Dek) (served : List StreamChunks)
    (ms : Stream) (plaintext : List UInt8) : Prop :=
  ms.compression = .none ∧
    ∃ provided, served.find? (·.streamType = ms.streamType) = some provided ∧
      provided.chunks.length = ms.chunkCount.toNat ∧
      streamDigest provided.chunks = ms.digest.bytes ∧
      openStream (dek.streamSubkey ms.streamType) ctx.fileId manifest.version ms.streamType
        provided.chunks = .ok plaintext

abbrev OpenedAll (ctx : VerifyContext) (manifest : Manifest) (dek : Dek)
    (served : List StreamChunks) : List Stream → List OpenedStream → Prop :=
  List.Forall₂ fun ms o =>
    o.streamType = ms.streamType ∧ OpensTo ctx manifest dek served ms o.plaintext

variable {ctx : VerifyContext} {manifest : Manifest} {dek : Dek} {served : List StreamChunks}

lemma OpensTo.unique {ms : Stream} {pt pt' : List UInt8}
    (h : OpensTo ctx manifest dek served ms pt) (h' : OpensTo ctx manifest dek served ms pt') :
    pt = pt' := by
  obtain ⟨-, provided, hfind, -, -, hopen⟩ := h
  obtain ⟨-, provided', hfind', -, -, hopen'⟩ := h'
  obtain rfl : provided = provided' := Option.some.inj (hfind.symm.trans hfind')
  exact Except.ok.inj (hopen.symm.trans hopen')

lemma OpenedAll.unique {streams : List Stream} {os os' : List OpenedStream}
    (h : OpenedAll ctx manifest dek served streams os)
    (h' : OpenedAll ctx manifest dek served streams os') : os = os' := by
  induction h generalizing os' with
  | nil => cases h'; rfl
  | @cons ms o streams os ho _ ih =>
    cases h' with
    | @cons _ o' _ os' ho' hrest' =>
      have heq : o = o' := by
        cases o
        cases o'
        rw [OpenedStream.mk.injEq]
        exact ⟨ho.1.trans ho'.1.symm, ho.2.unique ho'.2⟩
      rw [heq, ih hrest']

lemma exists_openedAll_iff {streams : List Stream} :
    (∃ os, OpenedAll ctx manifest dek served streams os) ↔
      ∀ ms ∈ streams, ∃ pt, OpensTo ctx manifest dek served ms pt := by
  induction streams with
  | nil => simp
  | cons ms streams ih =>
    rw [List.forall_mem_cons, ← ih]
    constructor
    · rintro ⟨_, ⟨⟩⟩
      rename_i o os ho hrest
      exact ⟨⟨o.plaintext, ho.2⟩, os, hrest⟩
    · rintro ⟨⟨pt, hpt⟩, os, hrest⟩
      exact ⟨⟨ms.streamType, pt⟩ :: os, .cons ⟨rfl, hpt⟩ hrest⟩

lemma OpenedAll.exists_of_mem {streams : List Stream} {os : List OpenedStream}
    (h : OpenedAll ctx manifest dek served streams os) {o : OpenedStream} (ho : o ∈ os) :
    ∃ ms ∈ streams, o.streamType = ms.streamType ∧
      OpensTo ctx manifest dek served ms o.plaintext := by
  induction h with
  | nil => cases ho
  | @cons ms o' streams os hopen _ ih =>
    rcases List.mem_cons.mp ho with rfl | hrest
    · exact ⟨ms, List.mem_cons_self, hopen⟩
    · obtain ⟨ms', hms', hopen'⟩ := ih hrest
      exact ⟨ms', List.mem_cons_of_mem _ hms', hopen'⟩

lemma OpenedAll.exists_of_declared {streams : List Stream} {os : List OpenedStream}
    (h : OpenedAll ctx manifest dek served streams os) {ms : Stream} (hms : ms ∈ streams) :
    ∃ o ∈ os, o.streamType = ms.streamType ∧
      OpensTo ctx manifest dek served ms o.plaintext := by
  induction h with
  | nil => cases hms
  | @cons ms' o streams os hopen _ ih =>
    rcases List.mem_cons.mp hms with rfl | hrest
    · exact ⟨o, List.mem_cons_self, hopen⟩
    · obtain ⟨o', ho', hopen'⟩ := ih hrest
      exact ⟨o', List.mem_cons_of_mem _ ho', hopen'⟩

lemma OpenedAll.filter {streams : List Stream} {os : List OpenedStream}
    (h : OpenedAll ctx manifest dek served streams os) (p : StreamType → Bool) :
    OpenedAll ctx manifest dek served (streams.filter (p ·.streamType))
      (os.filter (p ·.streamType)) := by
  induction h with
  | nil => exact .nil
  | @cons ms o streams os ho _ ih =>
    cases hp : p ms.streamType with
    | false =>
      rw [List.filter_cons_of_neg (by simp [hp]), List.filter_cons_of_neg (by simp [ho.1, hp])]
      exact ih
    | true =>
      rw [List.filter_cons_of_pos (by simp [hp]), List.filter_cons_of_pos (by simp [ho.1, hp])]
      exact .cons ho ih

lemma openDeclared_eq_ok {d d' : Bytes 32} {os os' : List OpenedStream} {ms : Stream} :
    openDeclared ctx manifest dek served (d, os) ms = .ok (d', os') ↔
      ∃ pt, OpensTo ctx manifest dek served ms pt ∧
        addressable ms.chunkCount manifest.chunkSize = true ∧
        d' = (if ms.streamType = .content then ms.digest.bytes else d) ∧
        os' = os ++ [⟨ms.streamType, pt⟩] := by
  unfold openDeclared OpensTo
  simp only [guard_eq_ok, bind_eq_ok, elim_eq_ok, mapError_eq_ok, pure_eq_ok, not_not,
    Prod.mk.injEq]
  constructor
  · rintro ⟨hcomp, provided, hfind, hlength, haddr, hdigest, pt, hopen, rfl, rfl⟩
    exact ⟨pt, ⟨hcomp, provided, hfind, hlength, hdigest, hopen⟩, haddr, rfl, rfl⟩
  · rintro ⟨pt, ⟨hcomp, provided, hfind, hlength, hdigest, hopen⟩, haddr, rfl, rfl⟩
    exact ⟨hcomp, provided, hfind, hlength, haddr, hdigest, pt, hopen, rfl, rfl⟩

lemma openSmall_eq_ok {c c' : Option Stream} {os os' : List OpenedStream} {ms : Stream} :
    openSmall ctx manifest dek served (c, os) ms = .ok (c', os') ↔
      (ms.streamType = .content ∧ ms.compression = .none ∧ c' = some ms ∧ os' = os) ∨
      (ms.streamType ≠ .content ∧ ∃ pt, OpensTo ctx manifest dek served ms pt ∧ c' = c ∧
        os' = os ++ [⟨ms.streamType, pt⟩]) := by
  unfold openSmall OpensTo
  by_cases hcontent : ms.streamType = .content
  · simp only [guard_eq_ok, not_not, hcontent, if_true, pure_eq_ok, Prod.mk.injEq, true_and,
      ne_eq, not_true_eq_false, false_and, or_false]
    constructor
    · rintro ⟨hcomp, rfl, rfl⟩
      exact ⟨hcomp, rfl, rfl⟩
    · rintro ⟨hcomp, rfl, rfl⟩
      exact ⟨hcomp, rfl, rfl⟩
  · simp only [guard_eq_ok, bind_eq_ok, elim_eq_ok, mapError_eq_ok, pure_eq_ok, not_not, hcontent,
      if_false, Prod.mk.injEq, false_and, false_or, ne_eq, not_false_eq_true, true_and]
    constructor
    · rintro ⟨hcomp, provided, hfind, hlength, hdigest, pt, hopen, rfl, rfl⟩
      exact ⟨pt, ⟨hcomp, provided, hfind, hlength, hdigest, hopen⟩, rfl, rfl⟩
    · rintro ⟨pt, ⟨hcomp, provided, hfind, hlength, hdigest, hopen⟩, rfl, rfl⟩
      exact ⟨hcomp, provided, hfind, hlength, hdigest, pt, hopen, rfl, rfl⟩

/-! ## The two loops -/

/-- The digest the whole-buffer loop reports. -/
def contentDigestOf (d : Bytes 32) (streams : List Stream) : Bytes 32 :=
  streams.foldl (fun d ms => if ms.streamType = .content then ms.digest.bytes else d) d

/-- The content entry the other loop finds. -/
def contentEntryOf (c : Option Stream) (streams : List Stream) : Option Stream :=
  streams.foldl (fun c ms => if ms.streamType = .content then some ms else c) c

/-- The declared streams other than the content. -/
def smallOf (streams : List Stream) : List Stream :=
  streams.filter fun ms => ms.streamType ≠ .content

lemma foldlM_openDeclared_eq_ok {streams : List Stream} {d d' : Bytes 32}
    {os os' : List OpenedStream} :
    streams.foldlM (openDeclared ctx manifest dek served) (d, os) = .ok (d', os') ↔
      ∃ opened, OpenedAll ctx manifest dek served streams opened ∧
        (∀ ms ∈ streams, addressable ms.chunkCount manifest.chunkSize = true) ∧
        d' = contentDigestOf d streams ∧ os' = os ++ opened := by
  induction streams generalizing d os with
  | nil =>
    rw [foldlM_nil_eq_ok]
    constructor
    · rintro ⟨⟩
      exact ⟨[], .nil, by simp, rfl, by simp⟩
    · rintro ⟨opened, hnil, -, rfl, rfl⟩
      cases hnil
      rw [List.append_nil]
  | cons ms streams ih =>
    simp only [foldlM_cons_eq_ok, Prod.exists, openDeclared_eq_ok, ih, List.forall_mem_cons]
    constructor
    · rintro ⟨_, _, ⟨pt, hpt, haddr, rfl, rfl⟩, opened, hopened, hrest, rfl, rfl⟩
      exact ⟨⟨ms.streamType, pt⟩ :: opened, .cons ⟨rfl, hpt⟩ hopened, ⟨haddr, hrest⟩, rfl,
        by simp⟩
    · rintro ⟨_, ⟨⟩, ⟨haddr, hrest⟩, rfl, rfl⟩
      rename_i o opened ho hopened
      obtain ⟨t, pt⟩ := o
      obtain ⟨rfl, hpt⟩ := ho
      exact ⟨_, _, ⟨pt, hpt, haddr, rfl, rfl⟩, opened, hopened, hrest, rfl, by simp⟩

lemma foldlM_openSmall_eq_ok {streams : List Stream} {c c' : Option Stream}
    {os os' : List OpenedStream} :
    streams.foldlM (openSmall ctx manifest dek served) (c, os) = .ok (c', os') ↔
      ∃ opened, OpenedAll ctx manifest dek served (smallOf streams) opened ∧
        (∀ ms ∈ streams, ms.compression = .none) ∧
        c' = contentEntryOf c streams ∧ os' = os ++ opened := by
  induction streams generalizing c os with
  | nil =>
    rw [foldlM_nil_eq_ok]
    constructor
    · rintro ⟨⟩
      exact ⟨[], .nil, by simp, rfl, by simp⟩
    · rintro ⟨opened, hnil, -, rfl, rfl⟩
      cases hnil
      rw [List.append_nil]
  | cons ms streams ih =>
    simp only [foldlM_cons_eq_ok, Prod.exists, openSmall_eq_ok, ih, List.forall_mem_cons]
    by_cases hcontent : ms.streamType = .content
    · have hsmall : smallOf (ms :: streams) = smallOf streams :=
        List.filter_cons_of_neg (by simp [hcontent])
      have hentry : contentEntryOf c (ms :: streams) = contentEntryOf (some ms) streams := by
        simp [contentEntryOf, hcontent]
      rw [hsmall, hentry]
      constructor
      · rintro ⟨_, _, ⟨-, hcomp, rfl, rfl⟩ | ⟨hnot, -⟩, opened, hopened, hrest, rfl, rfl⟩
        · exact ⟨opened, hopened, ⟨hcomp, hrest⟩, rfl, rfl⟩
        · exact absurd hcontent hnot
      · rintro ⟨opened, hopened, ⟨hcomp, hrest⟩, rfl, rfl⟩
        exact ⟨_, _, .inl ⟨hcontent, hcomp, rfl, rfl⟩, opened, hopened, hrest, rfl, rfl⟩
    · have hsmall : smallOf (ms :: streams) = ms :: smallOf streams :=
        List.filter_cons_of_pos (by simp [hcontent])
      have hentry : contentEntryOf c (ms :: streams) = contentEntryOf c streams := by
        simp [contentEntryOf, hcontent]
      rw [hsmall, hentry]
      constructor
      · rintro ⟨_, _, ⟨hyes, -⟩ | ⟨-, pt, hpt, rfl, rfl⟩, opened, hopened, hrest, rfl, rfl⟩
        · exact absurd hyes hcontent
        · exact ⟨⟨ms.streamType, pt⟩ :: opened, .cons ⟨rfl, hpt⟩ hopened, ⟨hpt.1, hrest⟩, rfl,
            by simp⟩
      · rintro ⟨_, ⟨⟩, ⟨-, hrest⟩, rfl, rfl⟩
        rename_i o opened ho hopened
        obtain ⟨t, pt⟩ := o
        obtain ⟨rfl, hpt⟩ := ho
        exact ⟨_, _, .inr ⟨hcontent, pt, hpt, rfl, rfl⟩, opened, hopened, hrest, rfl, by simp⟩

lemma openSmallStreams_eq_ok {small : List OpenedStream} {contentMs : Stream} :
    openSmallStreams ctx manifest dek served = .ok (small, contentMs) ↔
      OpenedAll ctx manifest dek served (smallOf manifest.streams) small ∧
        (∀ ms ∈ manifest.streams, ms.compression = .none) ∧
        contentEntryOf none manifest.streams = some contentMs ∧
        addressable contentMs.chunkCount manifest.chunkSize = true := by
  unfold openSmallStreams
  simp only [bind_eq_ok, Prod.exists, foldlM_openSmall_eq_ok, elim_eq_ok, guard_eq_ok, not_not,
    pure_eq_ok, Prod.mk.injEq, List.nil_append]
  constructor
  · rintro ⟨_, _, ⟨opened, hopened, hcomp, rfl, rfl⟩, ms, hms, haddr, rfl, rfl⟩
    exact ⟨hopened, hcomp, hms, haddr⟩
  · rintro ⟨hopened, hcomp, hms, haddr⟩
    exact ⟨_, _, ⟨small, hopened, hcomp, rfl, rfl⟩, contentMs, hms, haddr, rfl, rfl⟩

lemma openedAll_congr {served' : List StreamChunks} {streams : List Stream}
    {os : List OpenedStream}
    (hserved : ∀ ms ∈ streams, served.find? (·.streamType = ms.streamType) =
      served'.find? (·.streamType = ms.streamType)) :
    OpenedAll ctx manifest dek served streams os ↔
      OpenedAll ctx manifest dek served' streams os := by
  induction streams generalizing os with
  | nil => simp
  | cons ms streams ih =>
    rw [List.forall_mem_cons] at hserved
    cases os with
    | nil => simp
    | cons o os =>
      have hrest : OpenedAll ctx manifest dek served streams os ↔ _ := ih hserved.2
      unfold OpenedAll at hrest ⊢
      rw [List.forall₂_cons, List.forall₂_cons, hrest]
      unfold OpensTo
      rw [hserved.1]

end Ladder

/-! ## The content entry -/

section ContentEntry

variable {streams : List Stream} {ms₀ : Stream}

lemma contentDigestOf_eq (d : Bytes 32) (c : Option Stream) :
    contentDigestOf (c.elim d (·.digest.bytes)) streams =
      (contentEntryOf c streams).elim d (·.digest.bytes) := by
  unfold contentDigestOf contentEntryOf
  induction streams generalizing c with
  | nil => rfl
  | cons ms streams ih =>
    rw [List.foldl_cons, List.foldl_cons, ← ih]
    by_cases hcontent : ms.streamType = .content
    · rw [if_pos hcontent, if_pos hcontent, Option.elim_some]
    · rw [if_neg hcontent, if_neg hcontent]

lemma contentEntryOf_eq (hcontent : ms₀.streamType = .content)
    (hunique : ∀ ms ∈ streams, ms.streamType = .content → ms = ms₀) (c : Option Stream) :
    contentEntryOf c streams = if ms₀ ∈ streams then some ms₀ else c := by
  unfold contentEntryOf
  induction streams generalizing c with
  | nil => rfl
  | cons ms streams ih =>
    rw [List.forall_mem_cons] at hunique
    rw [List.foldl_cons, ih hunique.2]
    by_cases hms : ms.streamType = .content
    · rw [if_pos hms, hunique.1 hms]
      simp
    · have hne : ms₀ ≠ ms := by
        rintro rfl
        exact hms hcontent
      simp [hms, hne]

lemma contentEntryOf_eq_some {c : Option Stream} {ms : Stream}
    (h : contentEntryOf c streams = some ms) :
    c = some ms ∨ (ms ∈ streams ∧ ms.streamType = .content) := by
  unfold contentEntryOf at h
  induction streams generalizing c with
  | nil => exact .inl h
  | cons ms' streams ih =>
    rw [List.foldl_cons] at h
    rcases ih h with hlast | ⟨hmem, hcontent⟩
    · by_cases htype : ms'.streamType = .content
      · rw [if_pos htype, Option.some.injEq] at hlast
        exact .inr ⟨hlast ▸ List.mem_cons_self, hlast ▸ htype⟩
      · rw [if_neg htype] at hlast
        exact .inl hlast
    · exact .inr ⟨List.mem_cons_of_mem _ hmem, hcontent⟩

lemma find?_content (hcontent : ms₀.streamType = .content)
    (hunique : ∀ ms ∈ streams, ms.streamType = .content → ms = ms₀) (hmem : ms₀ ∈ streams) :
    streams.find? (·.streamType = .content) = some ms₀ := by
  cases hfind : streams.find? (·.streamType = .content) with
  | none =>
    have hnone := List.find?_eq_none.mp hfind ms₀ hmem
    exact absurd (decide_eq_true hcontent) hnone
  | some ms =>
    have hms : ms.streamType = .content := by simpa using List.find?_some hfind
    rw [hunique ms (List.mem_of_find?_eq_some hfind) hms]

lemma Manifest.content_unique {b : List UInt8} {m : Manifest} (hm : decode Manifest b = .ok m)
    (hmem : ms₀ ∈ m.streams) (hcontent : ms₀.streamType = .content) :
    ∀ ms ∈ m.streams, ms.streamType = .content → ms = ms₀ := by
  intro ms hms htype
  have hascending : m.streams.Pairwise fun a b =>
      a.streamType.codepoint.toNat < b.streamType.codepoint.toNat := (decode_eq_ok_iff.mp hm).1
  have hnodup : (m.streams.map fun s => s.streamType.codepoint.toNat).Nodup :=
    (List.pairwise_map.mpr hascending).imp ne_of_lt
  exact List.inj_on_of_nodup_map hnodup hms hmem (by rw [htype, hcontent])

end ContentEntry

lemma addressable_iff {chunkCount : UInt64} {chunkSize : UInt32} :
    addressable chunkCount chunkSize = true ↔ chunkCount.toNat * chunkSize.toNat ≤ 2 ^ 38 := by
  have hsize : chunkSize.toUInt64.toNat = chunkSize.toNat := UInt32.toNat_toUInt64 chunkSize
  have hmax : MAX_ADDRESSABLE_BYTES.toNat = 2 ^ 38 := by decide
  unfold addressable checkedMul
  rw [hsize]
  by_cases hlt : chunkCount.toNat * chunkSize.toNat < 2 ^ 64
  · rw [if_pos hlt]
    simp only [decide_eq_true_eq]
    rw [UInt64.le_iff_toNat_le, UInt64.toNat_mul, hsize, hmax, Nat.mod_eq_of_lt hlt]
  · rw [if_neg hlt]
    constructor
    · intro h
      cases h
    · intro h
      omega

/-! ## The same records served both ways -/

namespace DownloadBundle

/-- The same records with the content stream split off. -/
def header (bundle : DownloadBundle) : StreamHeader :=
  { bundle.toVersionRecords with
    smallStreams := bundle.streams.filter fun s => s.streamType ≠ .content }

def contentChunks (bundle : DownloadBundle) : List (List UInt8) :=
  (bundle.streams.find? (·.streamType = .content)).elim [] StreamChunks.chunks

/-- The content chunks have the count and the digest that the manifest declares. -/
def ContentMatches [Sha256] (bundle : DownloadBundle) : Prop :=
  ∀ manifest, decode Manifest bundle.manifestBytes = .ok manifest →
    ∀ ms ∈ manifest.streams, ms.streamType = .content →
      bundle.contentChunks.length = ms.chunkCount.toNat ∧
        streamDigest bundle.contentChunks = ms.digest.bytes

/-- `fetch i` is the `i`-th content chunk. -/
def ServesContent (bundle : DownloadBundle)
    (fetch : UInt64 → Except DownloadError (List UInt8)) : Prop :=
  ∀ (i : ℕ) ct, bundle.contentChunks[i]? = some ct → fetch (UInt64.ofNat i) = .ok ct

end DownloadBundle

lemma runFrom_stashError {σ α : Type} {why : String} {x : ExceptT DownloadError (StateM σ) α}
    {a : α} {s t : σ} (hx : runFrom x s = (.ok a, t)) (e : Option DownloadError) :
    runFrom (stashError why x) (s, e) = (.ok a, (t, e)) := by
  unfold stashError
  rw [runFrom_mk]
  dsimp only
  rw [hx]

lemma runFrom_withErrorCell_eq_ok {σ α : Type} {fallback : DownloadError}
    {x : ExceptT CryptoError (StateM (σ × Option DownloadError)) α} {a : α} {s t : σ} :
    runFrom (withErrorCell fallback x) s = (.ok a, t) ↔
      ∃ e, runFrom x (s, none) = (.ok a, (t, e)) := by
  unfold withErrorCell
  rw [runFrom_mk]
  rcases runFrom x (s, none) with ⟨r, u, e⟩
  cases r with
  | error c => simp
  | ok b => simp

section Served

variable [Aes256Gcm] {ctx : VerifyContext} {bundle : DownloadBundle}

/-- With the content fetched chunk by chunk into a buffer, streaming is whole-buffer opening. -/
lemma streamContent_chunks {fetch : UInt64 → Except DownloadError (List UInt8)}
    (hfetch : bundle.ServesContent fetch) {ck : Bytes 32} {version chunkCount : UInt64}
    (hlength : bundle.contentChunks.length = chunkCount.toNat) {out : List UInt8} :
    (∃ e, runFrom (openStreamStreaming ck ctx.fileId version .content chunkCount
        (fun i => stashError "fetch" (liftM (fetch i)))
        (fun frame => stashError "sink" (modify (· ++ frame)))) ([], none) = (.ok (), (out, e))) ↔
      openStream ck ctx.fileId version .content bundle.contentChunks = .ok out := by
  have hserve : ∀ (j : ℕ) ct, bundle.contentChunks[j]? = some ct →
      ∀ s : List UInt8 × Option DownloadError,
        runFrom (stashError "fetch" (liftM (fetch (UInt64.ofNat j)))) s = (.ok ct, s) := by
    intro j ct hct ⟨s, e⟩
    exact runFrom_stashError (by rw [runFrom_liftM, hfetch j ct hct]) e
  have hstream : ∀ t, runFrom (openStreamStreaming ck ctx.fileId version .content chunkCount
      (fun i => stashError "fetch" (liftM (fetch i)))
      (fun frame => stashError "sink" (modify (· ++ frame)))) ([], none) = (.ok (), t) ↔
        ∃ out, openStream ck ctx.fileId version .content bundle.contentChunks = .ok out ∧
          t = ([] ++ out, none) := by
    intro t
    exact openStreamStreaming_eq_openStream (fun s frame => (s.1 ++ frame, s.2))
      (fun frame s => runFrom_stashError (runFrom_modify _ _) _) (by simp) (by simp) hlength hserve
  simp only [hstream, Prod.mk.injEq, List.nil_append]
  constructor
  · rintro ⟨e, out', hopen, rfl, -⟩
    exact hopen
  · intro hopen
    exact ⟨none, out, hopen, rfl, rfl⟩

variable [Sha256] [Hkdf]

lemma openedAll_header {m : Manifest} {dek : Dek} {os : List OpenedStream} :
    OpenedAll ctx m dek bundle.header.smallStreams (smallOf m.streams) os ↔
      OpenedAll ctx m dek bundle.streams (smallOf m.streams) os := by
  refine openedAll_congr fun ms hms => ?_
  have hsmall : ms.streamType ≠ .content := by simpa [smallOf] using (List.mem_filter.mp hms).2
  unfold DownloadBundle.header
  rw [List.find?_filter]
  congr 1
  funext s
  by_cases hs : s.streamType = ms.streamType
  · simp [hs, hsmall]
  · simp [hs]

lemma opensTo_content {m : Manifest} {dek : Dek} {ms : Stream} {pt : List UInt8}
    (hcontent : ms.streamType = .content)
    (hlength : bundle.contentChunks.length = ms.chunkCount.toNat)
    (hdigest : streamDigest bundle.contentChunks = ms.digest.bytes) :
    OpensTo ctx m dek bundle.streams ms pt ↔ ms.compression = .none ∧
      openStream (dek.streamSubkey .content) ctx.fileId m.version .content
        bundle.contentChunks = .ok pt := by
  unfold OpensTo DownloadBundle.contentChunks at *
  rw [hcontent]
  cases hfind : bundle.streams.find? (·.streamType = .content) with
  | none =>
    -- no chunks are no stream for either side
    simp [openStream]
  | some provided =>
    rw [hfind] at hlength hdigest
    constructor
    · rintro ⟨hcomp, _, ⟨⟩, -, -, hopen⟩
      exact ⟨hcomp, hopen⟩
    · rintro ⟨hcomp, hopen⟩
      exact ⟨hcomp, provided, rfl, hlength, hdigest, hopen⟩

/-- Under matching content, all declared streams open exactly when the small ones do, nothing is
compressed, and the content opens. -/
lemma opensAll_iff {m : Manifest} {dek : Dek} {ms₀ : Stream}
    (hmem : ms₀ ∈ m.streams) (hcontent : ms₀.streamType = .content)
    (hunique : ∀ ms ∈ m.streams, ms.streamType = .content → ms = ms₀)
    (hlength : bundle.contentChunks.length = ms₀.chunkCount.toNat)
    (hdigest : streamDigest bundle.contentChunks = ms₀.digest.bytes) :
    (∀ ms ∈ m.streams, ∃ pt, OpensTo ctx m dek bundle.streams ms pt) ↔
      (∀ ms ∈ smallOf m.streams, ∃ pt, OpensTo ctx m dek bundle.streams ms pt) ∧
        (∀ ms ∈ m.streams, ms.compression = .none) ∧
        ∃ pt, openStream (dek.streamSubkey .content) ctx.fileId m.version .content
          bundle.contentChunks = .ok pt := by
  have hopensTo : ∀ pt, OpensTo ctx m dek bundle.streams ms₀ pt ↔ _ :=
    fun _ => opensTo_content hcontent hlength hdigest
  constructor
  · intro hall
    refine ⟨fun ms hms => hall ms (List.mem_of_mem_filter hms), fun ms hms => ?_, ?_⟩
    · obtain ⟨pt, hcomp, -⟩ := hall ms hms
      exact hcomp
    · obtain ⟨pt, hpt⟩ := hall ms₀ hmem
      exact ⟨pt, ((hopensTo pt).mp hpt).2⟩
  · rintro ⟨hsmall, hcomp, pt, hopen⟩ ms hms
    by_cases htype : ms.streamType = .content
    · rw [hunique ms hms htype]
      exact ⟨pt, (hopensTo pt).mpr ⟨hcomp ms₀ hmem, hopen⟩⟩
    · exact hsmall ms (List.mem_filter.mpr ⟨hms, by simpa using htype⟩)

lemma OpenedAll.content_unique {m : Manifest} {dek : Dek} {served : List StreamChunks}
    {streams : List Stream} {opened : List OpenedStream} {ms₀ : Stream}
    (hopened : OpenedAll ctx m dek served streams opened)
    (hunique : ∀ ms ∈ streams, ms.streamType = .content → ms = ms₀) {o o' : OpenedStream}
    (ho : o ∈ opened) (ho' : o' ∈ opened) (htype : o.streamType = .content)
    (htype' : o'.streamType = .content) : o.plaintext = o'.plaintext := by
  obtain ⟨ms, hms, hsame, hopens⟩ := hopened.exists_of_mem ho
  obtain ⟨ms', hms', hsame', hopens'⟩ := hopened.exists_of_mem ho'
  obtain rfl := hunique ms hms (hsame.symm.trans htype)
  obtain rfl := hunique ms' hms' (hsame'.symm.trans htype')
  exact hopens.unique hopens'

end Served

/-! ## The caps of the two paths -/

/-- The content is declared and under the cap, and a small stream is over it. -/
def OversizedSmallStream (m : Manifest) : Prop :=
  (∃ ms ∈ m.streams, ms.streamType = .content ∧
      ms.chunkCount.toNat * m.chunkSize.toNat ≤ 2 ^ 38) ∧
    ∃ ms ∈ m.streams, ms.streamType ≠ .content ∧
      2 ^ 38 < ms.chunkCount.toNat * m.chunkSize.toNat

/-- No content is declared, and every stream is under the cap. -/
def ContentUndeclared (m : Manifest) : Prop :=
  ∀ ms ∈ m.streams, ms.streamType ≠ .content ∧
    ms.chunkCount.toNat * m.chunkSize.toNat ≤ 2 ^ 38

lemma caps_agree_iff {m : Manifest} (hunique : ∀ ms ∈ m.streams, ∀ ms' ∈ m.streams,
      ms.streamType = .content → ms'.streamType = .content → ms = ms') :
    ((∀ ms ∈ m.streams, addressable ms.chunkCount m.chunkSize = true) ↔
      ∃ ms ∈ m.streams, ms.streamType = .content ∧
        addressable ms.chunkCount m.chunkSize = true) ↔
      ¬ OversizedSmallStream m ∧ ¬ ContentUndeclared m := by
  simp only [addressable_iff]
  constructor
  · intro hiff
    constructor
    · rintro ⟨hcontent, ms, hms, -, hover⟩
      have hcap := hiff.mpr hcontent ms hms
      omega
    · intro hnone
      obtain ⟨ms, hms, hcontent, -⟩ := hiff.mp fun ms hms => (hnone ms hms).2
      exact (hnone ms hms).1 hcontent
  · rintro ⟨hsmall, hdeclared⟩
    constructor
    · intro hcaps
      by_contra hnone
      apply hdeclared
      intro ms hms
      exact ⟨fun hcontent => hnone ⟨ms, hms, hcontent, hcaps ms hms⟩, hcaps ms hms⟩
    · rintro ⟨ms₀, hmem, hcontent, hcap⟩ ms hms
      by_cases htype : ms.streamType = .content
      · rw [hunique ms hms ms₀ hmem htype hcontent]
        exact hcap
      · by_contra hover
        exact hsmall ⟨⟨ms₀, hmem, hcontent, hcap⟩, ms, hms, htype, Nat.lt_of_not_le hover⟩

/-! ## The openers -/

section Openers

variable [Ed25519] [Hkdf] [Aes256Gcm] [Hpke] [X25519] [MlKem768] {ctx : VerifyContext}
  {bundle : DownloadBundle}

lemma verifyHeader_manifest {m : Manifest} {dek : Dek} {rok : Bool} {records : VersionRecords}
    (h : verifyHeader ctx records = .ok (m, dek, rok)) :
    decode Manifest records.manifestBytes = .ok m := by
  unfold verifyHeader at h
  simp only [bind_eq_ok, guard_eq_ok, mapError_eq_ok, pure_eq_ok, Prod.mk.injEq] at h
  obtain ⟨m', hm', -, -, -, _, -, -, -, _, -, -, _, -, _, -, _, -, _, -, _, -, _, -, -, rfl, -⟩ := h
  exact hm'

variable [Sha256]

/-- Stream the content of a bundle into a buffer: the result, and what the sink received. -/
def streamContent (ctx : VerifyContext) (bundle : DownloadBundle)
    (fetch : UInt64 → Except DownloadError (List UInt8)) :
    Except DownloadError OpenedHeader × List UInt8 :=
  runFrom (verifyAndStreamContent ctx bundle.header (fun i => liftM (fetch i))
    (fun frame => modify (· ++ frame))) []

lemma verifyAndOpen_eq_ok {file : OpenedFile} :
    verifyAndOpen ctx bundle = .ok file ↔
      ∃ m dek rok, verifyHeader ctx bundle.toVersionRecords = .ok (m, dek, rok) ∧
        OpenedAll ctx m dek bundle.streams m.streams file.streams ∧
        (∀ ms ∈ m.streams, addressable ms.chunkCount m.chunkSize = true) ∧
        file.version = m.version ∧ file.fileType = m.fileType ∧
        file.contentDigest = contentDigestOf (.replicate 32 0) m.streams ∧
        file.recoveryGrantOk = rok := by
  unfold verifyAndOpen
  simp only [bind_eq_ok, Prod.exists, foldlM_openDeclared_eq_ok, pure_eq_ok, List.nil_append]
  constructor
  · rintro ⟨m, dek, rok, hheader, _, _, ⟨opened, hopened, haddr, rfl, rfl⟩, rfl⟩
    exact ⟨m, dek, rok, hheader, hopened, haddr, rfl, rfl, rfl, rfl⟩
  · rintro ⟨m, dek, rok, hheader, hopened, haddr, hversion, htype, hdigest, hrok⟩
    refine ⟨m, dek, rok, hheader, _, _, ⟨_, hopened, haddr, rfl, rfl⟩, ?_⟩
    obtain ⟨v, t, d, r, os⟩ := file
    simp only at hversion htype hdigest hrok
    rw [hversion, htype, hdigest, hrok]

lemma verifyAndStreamContent_eq_ok {σ : Type} {header : StreamHeader}
    {fetch : UInt64 → ExceptT DownloadError (StateM σ) (List UInt8)}
    {sink : List UInt8 → ExceptT DownloadError (StateM σ) Unit} {s t : σ} {h : OpenedHeader} :
    runFrom (verifyAndStreamContent ctx header fetch sink) s = (.ok h, t) ↔
      ∃ m dek rok small contentMs e,
        verifyHeader ctx header.toVersionRecords = .ok (m, dek, rok) ∧
        openSmallStreams ctx m dek header.smallStreams = .ok (small, contentMs) ∧
        runFrom (openStreamStreaming (dek.streamSubkey .content) ctx.fileId m.version .content
          contentMs.chunkCount (fun i => stashError "fetch" (fetch i))
          (fun frame => stashError "sink" (sink frame))) (s, none) = (.ok (), (t, e)) ∧
        h = ⟨m.version, m.fileType, contentMs.digest.bytes, rok, contentMs.chunkCount, small⟩ := by
  unfold verifyAndStreamContent
  simp only [runFrom_bind_eq_ok, runFrom_liftM, runFrom_withErrorCell_eq_ok, runFrom_pure,
    Prod.exists, Prod.mk.injEq, Except.ok.injEq]
  constructor
  · rintro ⟨m, dek, rok, _, ⟨hheader, rfl⟩, small, ms, _, ⟨hsmall, rfl⟩, _, _, ⟨e, hstream⟩, rfl,
      rfl⟩
    exact ⟨m, dek, rok, small, ms, e, hheader, hsmall, hstream, rfl⟩
  · rintro ⟨m, dek, rok, small, ms, e, hheader, hsmall, hstream, rfl⟩
    exact ⟨m, dek, rok, _, ⟨hheader, rfl⟩, small, ms, _, ⟨hsmall, rfl⟩, (), t, ⟨e, hstream⟩, rfl,
      rfl⟩

/-- A verified manifest declares the content once, both loops end on that entry, and the served
chunks match it. -/
lemma DownloadBundle.ContentMatches.entry (hmatch : bundle.ContentMatches) {m : Manifest}
    {dek : Dek} {rok : Bool}
    (hheader : verifyHeader ctx bundle.toVersionRecords = .ok (m, dek, rok)) {ms₀ : Stream}
    (hmem : ms₀ ∈ m.streams) (hcontent : ms₀.streamType = .content) :
    (∀ ms ∈ m.streams, ms.streamType = .content → ms = ms₀) ∧
      contentEntryOf none m.streams = some ms₀ ∧
      bundle.contentChunks.length = ms₀.chunkCount.toNat ∧
      streamDigest bundle.contentChunks = ms₀.digest.bytes := by
  have hdecode := verifyHeader_manifest hheader
  have hunique := Manifest.content_unique hdecode hmem hcontent
  have hentry := contentEntryOf_eq hcontent hunique none
  rw [if_pos hmem] at hentry
  exact ⟨hunique, hentry, hmatch m hdecode ms₀ hmem hcontent⟩

/-- What a successful streaming download has done, said of all the declared streams at once. -/
lemma streamContent_eq_ok (hmatch : bundle.ContentMatches)
    {fetch : UInt64 → Except DownloadError (List UInt8)} (hfetch : bundle.ServesContent fetch)
    {h : OpenedHeader} {out : List UInt8} :
    streamContent ctx bundle fetch = (.ok h, out) ↔
      ∃ m dek rok opened ms₀, verifyHeader ctx bundle.toVersionRecords = .ok (m, dek, rok) ∧
        OpenedAll ctx m dek bundle.streams m.streams opened ∧
        contentEntryOf none m.streams = some ms₀ ∧
        addressable ms₀.chunkCount m.chunkSize = true ∧
        (⟨.content, out⟩ ∈ opened ∧ ∀ o ∈ opened, o.streamType = .content → o.plaintext = out) ∧
        h = ⟨m.version, m.fileType, ms₀.digest.bytes, rok, ms₀.chunkCount,
          opened.filter (·.streamType ≠ .content)⟩ := by
  unfold streamContent
  rw [verifyAndStreamContent_eq_ok]
  simp only [openSmallStreams_eq_ok, openedAll_header]
  constructor
  · rintro ⟨m, dek, rok, small, ms₀, e, hheader, ⟨hsmall, hcomp, hentry, haddr⟩, hstream, rfl⟩
    obtain ⟨hmem, hcontent⟩ := (contentEntryOf_eq_some hentry).resolve_left nofun
    obtain ⟨hunique, -, hlength, hdigest⟩ := hmatch.entry hheader hmem hcontent
    have hopen := (streamContent_chunks hfetch hlength).mp ⟨e, hstream⟩
    have hall := (opensAll_iff hmem hcontent hunique hlength hdigest).mpr
      ⟨exists_openedAll_iff.mp ⟨small, hsmall⟩, hcomp, out, hopen⟩
    obtain ⟨opened, hopened⟩ := exists_openedAll_iff.mpr hall
    -- what the content opened to whole is what the sink received
    have hreceived : ∀ o ∈ opened, o.streamType = .content → o.plaintext = out := by
      intro o ho htype
      obtain ⟨ms, hms, htype', hopens⟩ := hopened.exists_of_mem ho
      rw [hunique ms hms (htype'.symm.trans htype)] at hopens
      have hpt := ((opensTo_content hcontent hlength hdigest).mp hopens).2
      exact Except.ok.inj (hpt.symm.trans hopen)
    obtain ⟨o, ho, htype, -⟩ := hopened.exists_of_declared hmem
    refine ⟨m, dek, rok, opened, ms₀, hheader, hopened, hentry, haddr, ⟨?_, hreceived⟩, ?_⟩
    · rw [hcontent] at htype
      rw [← hreceived o ho htype, ← htype]
      exact ho
    · rw [hsmall.unique (hopened.filter fun t => t ≠ .content)]
  · rintro ⟨m, dek, rok, opened, ms₀, hheader, hopened, hentry, haddr, ⟨hout, -⟩, rfl⟩
    obtain ⟨hmem, hcontent⟩ := (contentEntryOf_eq_some hentry).resolve_left nofun
    obtain ⟨hunique, -, hlength, hdigest⟩ := hmatch.entry hheader hmem hcontent
    obtain ⟨-, hcomp, -⟩ := (opensAll_iff hmem hcontent hunique hlength hdigest).mp
      (exists_openedAll_iff.mp ⟨opened, hopened⟩)
    have hopen : openStream (dek.streamSubkey .content) ctx.fileId m.version .content
        bundle.contentChunks = .ok out := by
      obtain ⟨ms, hms, htype, hopens⟩ := hopened.exists_of_mem hout
      rw [hunique ms hms htype.symm] at hopens
      exact ((opensTo_content hcontent hlength hdigest).mp hopens).2
    obtain ⟨e, hstream⟩ := (streamContent_chunks hfetch hlength).mpr hopen
    exact ⟨m, dek, rok, _, ms₀, e, hheader,
      ⟨hopened.filter fun t => t ≠ .content, hcomp, hentry, haddr⟩, hstream, rfl⟩

/-! ## Agreement -/

/-- The four openers agree on a bundle whose content `fetch` serves. -/
def DownloadsAgree (ctx : VerifyContext) (bundle : DownloadBundle)
    (fetch : UInt64 → Except DownloadError (List UInt8)) : Prop :=
  ((∃ file, verifyAndOpen ctx bundle = .ok file) ↔
      ∃ h, (streamContent ctx bundle fetch).1 = .ok h) ∧
    (∀ file h, verifyAndOpen ctx bundle = .ok file →
      (streamContent ctx bundle fetch).1 = .ok h →
        h.version = file.version ∧ h.fileType = file.fileType ∧
          h.contentDigest = file.contentDigest ∧ h.recoveryGrantOk = file.recoveryGrantOk ∧
          h.smallStreams = file.streams.filter (·.streamType ≠ .content) ∧
          ⟨.content, (streamContent ctx bundle fetch).2⟩ ∈ file.streams ∧
          ∀ o ∈ file.streams, o.streamType = .content →
            o.plaintext = (streamContent ctx bundle fetch).2) ∧
    ((∃ file, verifyAndOpen ctx bundle = .ok file) ∨
        (∃ h, (streamContent ctx bundle fetch).1 = .ok h) →
      (∃ h, verifyAndOpenHeaders ctx bundle.header = .ok h) ∧
        ∃ d, openContentDecryptor ctx bundle.header = .ok d)

/-- The header checks pass, and every declared stream is served as declared and opens. -/
def StreamsOpen (ctx : VerifyContext) (bundle : DownloadBundle) (m : Manifest) : Prop :=
  ∃ dek rok, verifyHeader ctx bundle.toVersionRecords = .ok (m, dek, rok) ∧
    ∀ ms ∈ m.streams, ∃ pt, OpensTo ctx m dek bundle.streams ms pt

variable {fetch : UInt64 → Except DownloadError (List UInt8)} {m : Manifest}

lemma StreamsOpen.unique {m' : Manifest} (h : StreamsOpen ctx bundle m)
    (h' : StreamsOpen ctx bundle m') : m = m' := by
  obtain ⟨dek, rok, hheader, -⟩ := h
  obtain ⟨dek', rok', hheader', -⟩ := h'
  cases hheader.symm.trans hheader'
  rfl

lemma StreamsOpen.content_unique (h : StreamsOpen ctx bundle m) {ms ms' : Stream}
    (hms : ms ∈ m.streams) (hms' : ms' ∈ m.streams) (htype : ms.streamType = .content)
    (htype' : ms'.streamType = .content) : ms = ms' := by
  obtain ⟨dek, rok, hheader, -⟩ := h
  exact Manifest.content_unique (verifyHeader_manifest hheader) hms' htype' ms hms htype

lemma exists_streamContent_iff (hmatch : bundle.ContentMatches)
    (hfetch : bundle.ServesContent fetch) :
    (∃ h, (streamContent ctx bundle fetch).1 = .ok h) ↔
      ∃ m, StreamsOpen ctx bundle m ∧ ∃ ms ∈ m.streams, ms.streamType = .content ∧
        addressable ms.chunkCount m.chunkSize = true := by
  constructor
  · rintro ⟨h, hstream⟩
    obtain ⟨m, dek, rok, opened, ms₀, hheader, hopened, hentry, haddr, -⟩ :=
      (streamContent_eq_ok hmatch hfetch).mp (Prod.ext hstream rfl :
        streamContent ctx bundle fetch = (.ok h, (streamContent ctx bundle fetch).2))
    obtain ⟨hmem, hcontent⟩ := (contentEntryOf_eq_some hentry).resolve_left nofun
    exact ⟨m, ⟨dek, rok, hheader, exists_openedAll_iff.mp ⟨opened, hopened⟩⟩, ms₀, hmem, hcontent,
      haddr⟩
  · rintro ⟨m, ⟨dek, rok, hheader, hall⟩, ms₀, hmem, hcontent, haddr⟩
    obtain ⟨opened, hopened⟩ := exists_openedAll_iff.mpr hall
    obtain ⟨hunique, hentry, -⟩ := hmatch.entry hheader hmem hcontent
    obtain ⟨o, ho, htype, -⟩ := hopened.exists_of_declared hmem
    rw [hcontent] at htype
    have hout : ⟨.content, o.plaintext⟩ ∈ opened := by
      rw [← htype]
      exact ho
    have hreceived : ∀ o' ∈ opened, o'.streamType = .content → o'.plaintext = o.plaintext :=
      fun o' ho' htype' => hopened.content_unique hunique ho' ho htype' htype
    have hstream : streamContent ctx bundle fetch = (.ok _, o.plaintext) :=
      (streamContent_eq_ok hmatch hfetch).mpr ⟨m, dek, rok, opened, ms₀, hheader, hopened, hentry,
        haddr, ⟨hout, hreceived⟩, rfl⟩
    exact ⟨_, congrArg Prod.fst hstream⟩

lemma exists_verifyAndOpen_iff :
    (∃ file, verifyAndOpen ctx bundle = .ok file) ↔
      ∃ m, StreamsOpen ctx bundle m ∧
        ∀ ms ∈ m.streams, addressable ms.chunkCount m.chunkSize = true := by
  constructor
  · rintro ⟨file, hfile⟩
    obtain ⟨m, dek, rok, hheader, hopened, haddr, -⟩ := verifyAndOpen_eq_ok.mp hfile
    exact ⟨m, ⟨dek, rok, hheader, exists_openedAll_iff.mp ⟨_, hopened⟩⟩, haddr⟩
  · rintro ⟨m, ⟨dek, rok, hheader, hall⟩, haddr⟩
    obtain ⟨opened, hopened⟩ := exists_openedAll_iff.mpr hall
    exact ⟨⟨_, _, _, _, _⟩, verifyAndOpen_eq_ok.mpr
      ⟨m, dek, rok, hheader, hopened, haddr, rfl, rfl, rfl, rfl⟩⟩

lemma headers_of_streamContent (hmatch : bundle.ContentMatches) {h : OpenedHeader}
    (hstream : (streamContent ctx bundle fetch).1 = .ok h) :
    (∃ h, verifyAndOpenHeaders ctx bundle.header = .ok h) ∧
      ∃ d, openContentDecryptor ctx bundle.header = .ok d := by
  obtain ⟨m, dek, rok, small, ms₀, e, hheader, hsmall, hchunks, -⟩ :=
    verifyAndStreamContent_eq_ok.mp (Prod.ext hstream rfl :
      streamContent ctx bundle fetch = (.ok h, (streamContent ctx bundle fetch).2))
  constructor
  · unfold verifyAndOpenHeaders
    simp only [bind_eq_ok, Prod.exists, pure_eq_ok]
    exact ⟨_, m, dek, rok, hheader, small, ms₀, hsmall, rfl⟩
  · obtain ⟨-, hcomp, hentry, haddr⟩ := openSmallStreams_eq_ok.mp hsmall
    obtain ⟨hmem, hcontent⟩ := (contentEntryOf_eq_some hentry).resolve_left nofun
    obtain ⟨hunique, -⟩ := hmatch.entry hheader hmem hcontent
    have hnonempty : ms₀.chunkCount ≠ 0 := by
      intro hzero
      unfold openStreamStreaming at hchunks
      rw [if_pos hzero] at hchunks
      cases congrArg Prod.fst hchunks
    unfold openContentDecryptor
    simp only [bind_eq_ok, Prod.exists, guard_eq_ok, elim_eq_ok, pure_eq_ok, not_not]
    exact ⟨_, m, dek, rok, hheader, ms₀, find?_content hcontent hunique hmem, hcomp ms₀ hmem,
      hnonempty, haddr, rfl⟩

lemma reports_agree (hmatch : bundle.ContentMatches) (hfetch : bundle.ServesContent fetch)
    {file : OpenedFile} {h : OpenedHeader} (hfile : verifyAndOpen ctx bundle = .ok file)
    (hstream : (streamContent ctx bundle fetch).1 = .ok h) :
    h.version = file.version ∧ h.fileType = file.fileType ∧
      h.contentDigest = file.contentDigest ∧ h.recoveryGrantOk = file.recoveryGrantOk ∧
      h.smallStreams = file.streams.filter (·.streamType ≠ .content) ∧
      ⟨.content, (streamContent ctx bundle fetch).2⟩ ∈ file.streams ∧
      ∀ o ∈ file.streams, o.streamType = .content →
        o.plaintext = (streamContent ctx bundle fetch).2 := by
  obtain ⟨m, dek, rok, hheader, hopened, -, hversion, htype, hdigest, hrok⟩ :=
    verifyAndOpen_eq_ok.mp hfile
  obtain ⟨m', dek', rok', opened, ms₀, hheader', hopened', hentry, -, ⟨hout, hreceived⟩, rfl⟩ :=
    (streamContent_eq_ok hmatch hfetch).mp (Prod.ext hstream rfl :
      streamContent ctx bundle fetch = (.ok h, (streamContent ctx bundle fetch).2))
  cases hheader.symm.trans hheader'
  obtain rfl := hopened.unique hopened'
  have hlast : contentDigestOf (.replicate 32 0) m.streams = _ := contentDigestOf_eq _ none
  rw [hentry] at hlast
  exact ⟨hversion.symm, htype.symm, (hdigest.trans hlast).symm, hrok.symm, rfl, hout, hreceived⟩

/-- The two paths accept the same exactly when the caps agree on the version whose streams open. -/
lemma acceptance_agrees_iff (hmatch : bundle.ContentMatches)
    (hfetch : bundle.ServesContent fetch) :
    ((∃ file, verifyAndOpen ctx bundle = .ok file) ↔
      ∃ h, (streamContent ctx bundle fetch).1 = .ok h) ↔
      ∀ m, StreamsOpen ctx bundle m → ¬ OversizedSmallStream m ∧ ¬ ContentUndeclared m := by
  have hcaps : ∀ m, StreamsOpen ctx bundle m → (_ ↔ ¬ OversizedSmallStream m ∧ _) :=
    fun m hopens => caps_agree_iff fun _ hms _ hms' => hopens.content_unique hms hms'
  rw [exists_verifyAndOpen_iff, exists_streamContent_iff hmatch hfetch]
  constructor
  · intro hiff m hopens
    rw [← hcaps m hopens]
    constructor
    · intro hall
      obtain ⟨m', hopens', hcontent⟩ := hiff.mp ⟨m, hopens, hall⟩
      cases hopens.unique hopens'
      exact hcontent
    · intro hcontent
      obtain ⟨m', hopens', hall⟩ := hiff.mpr ⟨m, hopens, hcontent⟩
      cases hopens.unique hopens'
      exact hall
  · intro hfit
    constructor
    · rintro ⟨m, hopens, hall⟩
      exact ⟨m, hopens, ((hcaps m hopens).mpr (hfit m hopens)).mp hall⟩
    · rintro ⟨m, hopens, hcontent⟩
      exact ⟨m, hopens, ((hcaps m hopens).mpr (hfit m hopens)).mpr hcontent⟩

/-- **When the download paths agree.**  On a bundle whose content matches its manifest, the
whole-buffer and the streaming path accept the same versions and report the same, and the two
openers that read less accept whenever they do, exactly when no otherwise acceptable version
declares a small stream over the cap or leaves the content undeclared. -/
theorem downloads_agree_iff (hmatch : bundle.ContentMatches) (hfetch : bundle.ServesContent fetch) :
    DownloadsAgree ctx bundle fetch ↔
      ∀ m, StreamsOpen ctx bundle m → ¬ OversizedSmallStream m ∧ ¬ ContentUndeclared m := by
  have haccept : (_ ↔ ∃ h, (streamContent ctx bundle fetch).1 = .ok h) ↔ _ :=
    acceptance_agrees_iff hmatch hfetch
  constructor
  · intro hagree
    exact haccept.mp hagree.1
  · intro hfit
    have hiff := haccept.mpr hfit
    refine ⟨hiff, ?_, ?_⟩
    · intro file h hfile hstream
      exact reports_agree hmatch hfetch hfile hstream
    · intro haccepted
      obtain ⟨h, hstream⟩ := haccepted.elim hiff.mp id
      exact headers_of_streamContent hmatch hstream

end Openers

/-! ## A version with many metadata frames -/

/-- Serve the content chunks by index. -/
def DownloadBundle.fetchContent (bundle : DownloadBundle) (i : UInt64) :
    Except DownloadError (List UInt8) :=
  bundle.contentChunks[i.toNat]?.elim (throw (.streamMissing .content)) pure

lemma DownloadBundle.servesContent_fetchContent {bundle : DownloadBundle}
    (hlength : bundle.contentChunks.length < 2 ^ 64) :
    bundle.ServesContent bundle.fetchContent := by
  intro i ct hct
  have hi : i < bundle.contentChunks.length := (List.getElem?_eq_some_iff.mp hct).1
  have hindex : (UInt64.ofNat i).toNat = i := UInt64.toNat_ofNat_of_lt' (hi.trans hlength)
  rw [DownloadBundle.fetchContent, hindex, hct]
  rfl

/-- One chunk of content and `n` empty frames of metadata, in chunks of 8 MiB. -/
def manyFramesManifest (n : UInt64) : Manifest where
  fileId := ⟨.replicate 16 9⟩
  version := 1
  fileType := .generic
  alg := .v1
  chunkSize := 8 * 1024 * 1024
  dekCommit := ⟨.replicate 32 2⟩
  streams := [⟨.content, .none, 1, ⟨.replicate 32 1⟩⟩, ⟨.metadata, .none, n, ⟨.replicate 32 1⟩⟩]
  recoveryPresent := true
  authorId := ⟨.replicate 16 1⟩
  createdAt := ⟨0⟩

/-- The author's grant of the version to a recipient. -/
def manyFramesGrant (recipientId : Id) (recipientType : RecipientType) : Grant :=
  ⟨⟨.replicate 16 9⟩, 1, recipientId, recipientType, ⟨.replicate 32 2⟩, ⟨.replicate 16 1⟩, ⟨0⟩⟩

def manyFramesBundle (n : UInt64) : DownloadBundle where
  manifestBytes := encode (manyFramesManifest n)
  manifestSig := .replicate 64 0
  genesisBytes := encode (⟨⟨.replicate 16 9⟩, ⟨.replicate 16 1⟩, 1, ⟨0⟩⟩ : Genesis)
  genesisSig := .replicate 64 0
  wrappedDek := ⟨.replicate 32 0, List.replicate 48 0⟩
  grantBytes := encode (manyFramesGrant ⟨.replicate 16 1⟩ .user)
  grantSig := .replicate 64 0
  ancestorGrants := []
  recoveryGrantBytes := encode (manyFramesGrant RECOVERY_ID .recovery)
  recoveryGrantSig := .replicate 64 0
  streams := [⟨.content, [List.replicate 17 0]⟩,
    ⟨.metadata, List.replicate n.toNat (List.replicate 16 0)⟩]

/-- The owner reads the file for the first time. -/
def firstRead : VerifyContext where
  fileId := ⟨.replicate 16 9⟩
  authorSigPub := .replicate 32 0
  ownerSigPub := .replicate 32 0
  recipientId := ⟨.replicate 16 1⟩
  recipientType := .user
  recipientSecret := ⟨.replicate 32 0⟩
  recipientMlkemSeed := none
  seenMaxVersion := none
  granterSigPub _ := none
  adminSigPub _ := none
  tombstones := none
  compromise := none

lemma decode_manyFramesManifest (n : UInt64) :
    decode Manifest (manyFramesBundle n).manifestBytes = .ok (manyFramesManifest n) := by
  refine decode_encode ?_
  change List.Pairwise _ _
  unfold manyFramesManifest
  exact List.pairwise_pair.mpr (by change 1 < 2; decide)

lemma contentMatches_manyFrames (n : UInt64) :
    letI := constantSha256
    (manyFramesBundle n).ContentMatches := by
  intro m hm ms hms hcontent
  cases (decode_manyFramesManifest n).symm.trans hm
  rcases List.mem_pair.mp hms with rfl | rfl
  · exact ⟨rfl, rfl⟩
  · cases hcontent

lemma servesContent_manyFrames (n : UInt64) :
    (manyFramesBundle n).ServesContent (manyFramesBundle n).fetchContent :=
  DownloadBundle.servesContent_fetchContent (by change 1 < 2 ^ 64; decide)

lemma openChunks_emptyFrames {ck : Bytes 32} {aad : ℕ → ChunkAad} {i n : ℕ} {out : List UInt8} :
    letI := tagStrippingAead
    openChunks ck aad i out (List.replicate n (List.replicate 16 0)) = .ok out := by
  let _ := tagStrippingAead
  induction n generalizing i out with
  | zero => rfl
  | succ n ih =>
    have hopen : openChunk ck (aad i) (List.replicate 16 0) = .ok [] := rfl
    rw [List.replicate_succ, openChunks, bind_eq_ok]
    exact ⟨[], hopen, by rw [List.append_nil]; exact ih⟩

lemma streamsOpen_manyFrames {n : UInt64} (hn : n ≠ 0) :
    letI := constantSha256
    letI := acceptingEd25519
    letI := constantHkdf
    letI := tagStrippingAead
    letI := tagStrippingHpke
    letI := constantX25519
    letI := constantMlKem768
    StreamsOpen firstRead (manyFramesBundle n) (manyFramesManifest n) := by
  let _ := constantSha256
  let _ := constantHkdf
  let _ := tagStrippingAead
  refine ⟨⟨.replicate 32 0⟩, true, ?_, ?_⟩
  · have hgenesis : decode Genesis (manyFramesBundle n).genesisBytes = .ok _ :=
      decode_encode trivial
    have hgrant : decode Grant (manyFramesBundle n).grantBytes = .ok _ :=
      decode_encode (v := manyFramesGrant ⟨.replicate 16 1⟩ .user) nofun
    have hrecovery : decode Grant (manyFramesBundle n).recoveryGrantBytes = .ok _ :=
      decode_encode (v := manyFramesGrant RECOVERY_ID .recovery) fun _ => rfl
    unfold verifyHeader recoveryGrantValid
    rw [decode_manyFramesManifest, hgenesis, hgrant, hrecovery]
    rfl
  · have hcontent : ∃ pt, openStream (.replicate 32 2) firstRead.fileId 1 .content
        [List.replicate 17 0] = .ok pt := ⟨[0], rfl⟩
    have hmetadata : ∃ pt, openStream (.replicate 32 2) firstRead.fileId 1 .metadata
        (List.replicate n.toNat (List.replicate 16 0)) = .ok pt := by
      have hframes : List.replicate n.toNat (List.replicate 16 (0 : UInt8)) ≠ [] := by
        simpa [← UInt64.toNat_inj] using hn
      unfold openStream
      rw [if_neg (by simpa using hframes)]
      exact ⟨[], openChunks_emptyFrames⟩
    have hlength : (List.replicate n.toNat (List.replicate 16 (0 : UInt8))).length = n.toNat :=
      List.length_replicate
    intro ms hms
    rcases List.mem_pair.mp hms with rfl | rfl
    · exact hcontent.imp fun pt hopen => ⟨rfl, _, rfl, rfl, rfl, hopen⟩
    · exact hmetadata.imp fun pt hopen => ⟨rfl, _, rfl, hlength, rfl, hopen⟩

theorem downloads_agree_iff_oneFrame :
    letI := constantSha256
    letI := acceptingEd25519
    letI := constantHkdf
    letI := tagStrippingAead
    letI := tagStrippingHpke
    letI := constantX25519
    letI := constantMlKem768
    DownloadsAgree firstRead (manyFramesBundle 1) (manyFramesBundle 1).fetchContent := by
  let _ := constantSha256
  let _ := acceptingEd25519
  let _ := constantHkdf
  let _ := tagStrippingAead
  let _ := tagStrippingHpke
  let _ := constantX25519
  let _ := constantMlKem768
  refine (downloads_agree_iff (contentMatches_manyFrames 1) (servesContent_manyFrames 1)).mpr ?_
  intro m hopens
  cases hopens.unique (streamsOpen_manyFrames (by decide))
  constructor
  · rintro ⟨-, ms, hms, -, hover⟩
    rcases List.mem_pair.mp hms with rfl | rfl
    · exact absurd hover (by decide)
    · exact absurd hover (by decide)
  · intro hnone
    exact (hnone _ List.mem_cons_self).1 rfl

/-- 32769 metadata frames of up to 8 MiB are over the cap: the streaming path opens the version,
the whole-buffer path does not. -/
theorem downloads_disagree :
    letI := constantSha256
    letI := acceptingEd25519
    letI := constantHkdf
    letI := tagStrippingAead
    letI := tagStrippingHpke
    letI := constantX25519
    letI := constantMlKem768
    ¬ ∀ ctx (bundle : DownloadBundle) fetch, bundle.ContentMatches → bundle.ServesContent fetch →
      DownloadsAgree ctx bundle fetch := by
  let _ := constantSha256
  let _ := acceptingEd25519
  let _ := constantHkdf
  let _ := tagStrippingAead
  let _ := tagStrippingHpke
  let _ := constantX25519
  let _ := constantMlKem768
  intro hagree
  have hmatch := contentMatches_manyFrames 32769
  have hfetch := servesContent_manyFrames 32769
  have hopens := streamsOpen_manyFrames (n := 32769) (by decide)
  have hstream := (exists_streamContent_iff hmatch hfetch).mpr
    ⟨_, hopens, _, List.mem_cons_self, rfl, by decide⟩
  obtain ⟨m, hopens', haddr⟩ :=
    exists_verifyAndOpen_iff.mp ((hagree firstRead _ _ hmatch hfetch).1.mpr hstream)
  cases hopens.unique hopens'
  have hmetadata := haddr _ (List.mem_cons_of_mem _ List.mem_cons_self)
  exact absurd hmetadata (by decide)

end MaxSecu
