import MaxSecu.Framework.History
import MaxSecu.Server.Completeness

/-!
# Finalized content under overlapping requests

Requests overlap: their calls interleave in any order.  A handler checks first and acts in a later
call, and what it checked may no longer hold then.  If every call that acts is timely, finalized
content stays as it is: of a version that is not superseded, the manifest and the chunks do not
change, and every chunk is there (`finalized_kept`).
-/

namespace MaxSecu

open AssociationList ExceptRules

namespace FileStore

/-- A version of a file, staged or finalized. -/
def versionOf (files : FileStore) (fileId : Id) (v : UInt64) : Option VersionEntry :=
  (files.lookup fileId).bind fun entry => entry.versions.lookup v

/-- A later version of the file is finalized. -/
def Superseded (files : FileStore) (fileId : Id) (v : UInt64) : Prop :=
  ∃ entry, files.lookup fileId = some entry ∧ v < entry.currentVersion

end FileStore

/-- A call of a handler is timely if what the handler was told still holds:

* a stage leaves no stored chunk past the end of its stream,
* a chunk is written into a stream that has room for it, and not into a finalized version, unless it
  is there already,
* a commit finds the streams of its version as they were when the handler read them. -/
def ServerCall.Timely (maxFileBytes : Option UInt64)
    (history : List (Event ServerCall ServerCall.Response)) : ServerCall → ServerState → Prop
  | stageVersion st nowMs, s => ¬ (FileRequest.stage st.input nowMs).Reframes maxFileBytes s
  | blob (.putChunk key body), s =>
    ∀ fileId v ver, s.files.versionOf fileId v = some ver → ∀ row ∈ ver.streams,
      row.blobRef = key.blobRef →
        key.index < row.chunkCount ∧ (ver.finalized = true → s.blobs.lookup key = some body)
  | finalizeVersion fileId v callerId _, s =>
    ∀ entry ver m, s.files.lookup fileId = some entry → entry.ownerId = callerId →
      entry.versions.lookup v = some ver → ver.finalized = false →
      ⟨versionMeta fileId v, some m⟩ ∈ history →
        ∀ row ∈ ver.streams, ∃ slot ∈ m.streams,
          slot.blobRef = row.blobRef ∧ slot.chunkCount = row.chunkCount
  | _, _ => True

/-- A call with its history: what it can do when it is timely. -/
def ServerCall.TimelyStep (faults : Bool) (maxFileBytes : Option UInt64)
    (c : Annotated ServerCall ServerCall.Response) (s : ServerState) (r : c.2.Response)
    (t : ServerState) : Prop :=
  c.2.Step faults s r t ∧ c.2.Timely maxFileBytes c.1 s

namespace ServerState

/-- What holds of the stored rows and chunks at every moment. -/
structure Settled (s : ServerState) : Prop where
  reached : s.Reached
  noStrays : ∀ fileId v, ¬ s.Strays fileId v
  filled : ∀ fileId v ver, s.files.versionOf fileId v = some ver → ver.finalized = true →
    ∀ row ∈ ver.streams, ∀ index < row.chunkCount, ⟨row.blobRef, index⟩ ∈ s.blobs

/-- What every moment keeps for the later ones. -/
structure Advances (s t : ServerState) : Prop where
  superseded : ∀ fileId v, s.files.Superseded fileId v → t.files.Superseded fileId v
  present : ∀ fileId v code index, ¬ t.files.Superseded fileId v →
    ⟨Files.blobRef fileId v code, index⟩ ∈ s.blobs → ⟨Files.blobRef fileId v code, index⟩ ∈ t.blobs
  finalized : ∀ fileId v ver, s.files.versionOf fileId v = some ver → ver.finalized = true →
    ¬ t.files.Superseded fileId v → t.files.versionOf fileId v = some ver ∧
      ∀ row ∈ ver.streams, ∀ index,
        t.blobs.lookup ⟨row.blobRef, index⟩ = s.blobs.lookup ⟨row.blobRef, index⟩

namespace Advances

variable {s t u : ServerState}

lemma refl : s.Advances s where
  superseded := fun _ _ h => h
  present := fun _ _ _ _ _ h => h
  finalized := fun _ _ _ hver _ _ => ⟨hver, fun _ _ _ => rfl⟩

lemma trans (hst : s.Advances t) (htu : t.Advances u) : s.Advances u where
  superseded := fun fileId v h => htu.superseded fileId v (hst.superseded fileId v h)
  present := by
    intro fileId v code index hlive hkey
    exact htu.present fileId v code index hlive
      (hst.present fileId v code index (fun h => hlive (htu.superseded fileId v h)) hkey)
  finalized := by
    intro fileId v ver hver hfinal hlive
    obtain ⟨hver', hsame⟩ := hst.finalized fileId v ver hver hfinal
      fun h => hlive (htu.superseded fileId v h)
    obtain ⟨hver'', hsame'⟩ := htu.finalized fileId v ver hver' hfinal hlive
    refine ⟨hver'', ?_⟩
    intro row hrow index
    rw [hsame' row hrow index, hsame row hrow index]

end Advances

end ServerState

/-! ## Versions -/

namespace FileStore

variable {files : FileStore} {fileId f : Id} {entry : FileEntry} {version v nowMs : UInt64}
  {p : ParsedStage} {row : StreamRow} {ver : VersionEntry}

lemma versionOf_eq_some : files.versionOf fileId v = some ver ↔
    ∃ entry, files.lookup fileId = some entry ∧ entry.versions.lookup v = some ver :=
  Option.bind_eq_some_iff

lemma hasRow_iff : files.HasRow fileId v row ↔
    ∃ ver, files.versionOf fileId v = some ver ∧ row ∈ ver.streams := by
  unfold HasRow
  simp only [versionOf_eq_some]
  constructor
  · intro hfound
    obtain ⟨entry, ver, hentry, hver, hrow⟩ := hfound
    exact ⟨ver, ⟨entry, hentry, hver⟩, hrow⟩
  · intro hfound
    obtain ⟨ver, ⟨entry, hentry, hver⟩, hrow⟩ := hfound
    exact ⟨entry, ver, hentry, hver, hrow⟩

lemma StageRow.versionOf (h : StageRow files p nowMs entry) :
    entry.versions.lookup v = files.versionOf p.fileId v := by
  unfold FileStore.versionOf
  cases h with
  | create _ hnew =>
    rw [hnew]
    rfl
  | restage _ hentry =>
    rw [hentry]
    rfl
  | rotate _ hentry _ =>
    rw [hentry]
    rfl

lemma versionOf_stage (h : StageRow files p nowMs entry) :
    versionOf (files.insert p.fileId (entry.stage p)) f v =
      if f = p.fileId ∧ v = p.version then some (.ofStage p) else files.versionOf f v := by
  unfold versionOf
  rw [lookup_insert_eq]
  by_cases hf : f = p.fileId
  · rw [if_pos hf, Option.bind_some, FileEntry.lookup_stage, h.versionOf]
    by_cases hv : v = p.version
    · rw [if_pos hv, if_pos ⟨hf, hv⟩]
    · rw [if_neg hv, if_neg fun h => hv h.2, hf]
      rfl
  · rw [if_neg hf, if_neg fun h => hf h.1]

lemma versionOf_finalize (hentry : files.lookup fileId = some entry)
    (hnext : version.toNat = entry.currentVersion.toNat + 1) :
    versionOf (files.insert fileId (entry.finalize version nowMs)) f v =
      if f = fileId ∧ v = version then (entry.versions.lookup version).map .finalize
      else if f = fileId ∧ 1 ≤ v.toNat ∧ v = entry.currentVersion then
        (entry.versions.lookup entry.currentVersion).map .supersede
      else files.versionOf f v := by
  unfold versionOf
  rw [lookup_insert_eq]
  by_cases hf : f = fileId
  · rw [if_pos hf, Option.bind_some, FileEntry.lookup_finalize hnext, hf, hentry, Option.bind_some]
    simp only [true_and]
  · rw [if_neg hf, if_neg fun h => hf h.1, if_neg fun h => hf h.1]

lemma superseded_stage (h : StageRow files p nowMs entry) :
    Superseded (files.insert p.fileId (entry.stage p)) f v ↔ files.Superseded f v := by
  unfold Superseded
  rw [lookup_insert_eq]
  by_cases hf : f = p.fileId
  · rw [if_pos hf, hf]
    have hcurrent : (entry.stage p).currentVersion = entry.currentVersion := rfl
    cases h with
    | create _ hnew =>
      rw [hnew]
      simp [FileEntry.create, FileEntry.stage]
    | restage _ hentry => simp [hcurrent, hentry]
    | rotate _ hentry _ => simp [hcurrent, hentry]
  · rw [if_neg hf]

lemma superseded_finalize (hentry : files.lookup fileId = some entry)
    (hnext : version.toNat = entry.currentVersion.toNat + 1) :
    Superseded (files.insert fileId (entry.finalize version nowMs)) f v ↔
      files.Superseded f v ∨ (f = fileId ∧ v = entry.currentVersion) := by
  unfold Superseded
  rw [lookup_insert_eq]
  by_cases hf : f = fileId
  · have hcurrent : (entry.finalize version nowMs).currentVersion = version := rfl
    rw [if_pos hf, hf, hentry]
    simp only [Option.some.injEq, exists_eq_left', hcurrent, true_and, UInt64.lt_iff_toNat_lt,
      hnext, ← UInt64.toNat_inj]
    omega
  · rw [if_neg hf]
    simp [hf]

end FileStore

/-! ## What each call keeps -/

namespace ServerState

variable {maxFileBytes : Option UInt64} {s : ServerState} {fileId callerId : Id}
  {version v nowMs : UInt64} {entry : FileEntry} {ver : VersionEntry} {code : UInt8}

lemma Reached.streams_of_superseded (h : s.Reached)
    (hver : s.files.versionOf fileId v = some ver) (hfinal : ver.finalized = true)
    (hsuperseded : s.files.Superseded fileId v) : ver.streams = [] := by
  obtain ⟨entry, hentry, hlt⟩ := hsuperseded
  obtain ⟨entry', hentry', hver⟩ := FileStore.versionOf_eq_some.mp hver
  obtain rfl : entry = entry' := Option.some.inj (hentry.symm.trans hentry')
  obtain ⟨ops, hops⟩ := h
  rw [← hops] at hentry
  obtain ⟨st, hrecord⟩ := (recorded_run ops fileId entry hentry).version v ver hver
  have hversion := hrecord.sameVersion
  cases hrecord.phase with
  | staged _ => exact absurd hfinal (by simp [VersionEntry.ofStage])
  | current _ hcurrent _ _ =>
    rw [← hversion, hcurrent] at hlt
    exact absurd hlt (UInt64.lt_irrefl _)
  | superseded _ _ => rfl

lemma Reached.le_current (h : s.Reached) (hentry : s.files.lookup fileId = some entry)
    (hver : entry.versions.lookup v = some ver) (hfinal : ver.finalized = true) :
    v.toNat ≤ entry.currentVersion.toNat := by
  obtain ⟨ops, hops⟩ := h
  rw [← hops] at hentry
  have hiff := (recorded_run ops fileId entry hentry).isFinalized_iff v
  rw [FileEntry.isFinalized, hver, Option.any_some] at hiff
  exact (hiff.mp hfinal).2

lemma Settled.stage {input : StageInput} {p : ParsedStage} (h : s.Settled)
    (hparse : Files.parseStage input = .ok p) (hquota : Requests.overQuota maxFileBytes p = false)
    (hstage : FileStore.StageRow s.files p nowMs entry) (hopen : entry.isFinalized p.version = false)
    (hframes : ¬ (FileRequest.stage input nowMs).Reframes maxFileBytes s) :
    Settled ⟨s.files.insert p.fileId (entry.stage p), s.blobs⟩ ∧
      s.Advances ⟨s.files.insert p.fileId (entry.stage p), s.blobs⟩ := by
  have houtcome : FileRequest.Outcome false maxFileBytes s _
      ⟨s.files.insert p.fileId (entry.stage p), s.blobs⟩ := .staged hparse hquota hstage hopen
  constructor
  · refine ⟨h.reached.outcome houtcome,
      Completeness.not_strays_step h.reached h.noStrays hframes houtcome, ?_⟩
    intro f v ver hver hfinal
    rw [FileStore.versionOf_stage hstage] at hver
    by_cases hstaged : f = p.fileId ∧ v = p.version
    · rw [if_pos hstaged] at hver
      obtain rfl := Option.some.inj hver
      exact absurd hfinal (by simp [VersionEntry.ofStage])
    · rw [if_neg hstaged] at hver
      exact h.filled f v ver hver hfinal
  · refine ⟨fun f v => (FileStore.superseded_stage hstage).mpr, fun _ _ _ _ _ hkey => hkey, ?_⟩
    intro f v ver hver hfinal _
    have hother : ¬ (f = p.fileId ∧ v = p.version) := by
      intro hself
      obtain ⟨hf, hv⟩ := hself
      rw [hf, ← hstage.versionOf, hv] at hver
      rw [FileEntry.isFinalized, hver, Option.any_some] at hopen
      rw [hfinal] at hopen
      exact absurd hopen (by simp)
    refine ⟨?_, fun _ _ _ => rfl⟩
    rw [FileStore.versionOf_stage hstage, if_neg hother]
    exact hver

lemma Settled.put {key : ChunkKey} {body : List UInt8}
    {history : List (Event ServerCall ServerCall.Response)} (h : s.Settled)
    (htimely : (ServerCall.blob (.putChunk key body)).Timely maxFileBytes history s) :
    Settled ⟨s.files, s.blobs.insert key body⟩ ∧ s.Advances ⟨s.files, s.blobs.insert key body⟩ := by
  constructor
  · refine ⟨h.reached, ?_, ?_⟩
    · intro fileId v hstray
      obtain ⟨row, hrow, key', hkey', href, hindex⟩ := hstray
      obtain rfl | hold := (AList.mem_insert _).mp hkey'
      · obtain ⟨ver, hver, hmem⟩ := FileStore.hasRow_iff.mp hrow
        exact absurd hindex
          (UInt64.not_le.mpr (htimely fileId v ver hver row hmem href.symm).1)
      · exact h.noStrays fileId v ⟨row, hrow, key', hold, href, hindex⟩
    · intro fileId v ver hver hfinal row hrow index hindex
      exact (AList.mem_insert _).mpr (.inr (h.filled fileId v ver hver hfinal row hrow index hindex))
  · refine ⟨fun _ _ hsup => hsup, fun _ _ _ _ _ hkey => (AList.mem_insert _).mpr (.inr hkey), ?_⟩
    intro fileId v ver hver hfinal _
    refine ⟨hver, ?_⟩
    intro row hrow index
    show AList.lookup _ (s.blobs.insert key body) = _
    rw [lookup_insert_eq]
    by_cases hkey : ⟨row.blobRef, index⟩ = key
    · rw [if_pos hkey, hkey]
      exact ((htimely fileId v ver hver row hrow (by rw [← hkey])).2 hfinal).symm
    · rw [if_neg hkey]

lemma Settled.commit (h : s.Settled) (hentry : s.files.lookup fileId = some entry)
    (howner : entry.ownerId = callerId) (hver : entry.versions.lookup version = some ver)
    (hopen : ver.finalized = false) (hnext : version.toNat = entry.currentVersion.toNat + 1)
    (hfull : ∀ row ∈ ver.streams, ∀ index < row.chunkCount, ⟨row.blobRef, index⟩ ∈ s.blobs) :
    Settled ⟨s.files.insert fileId (entry.finalize version nowMs), s.blobs⟩ ∧
      s.Advances ⟨s.files.insert fileId (entry.finalize version nowMs), s.blobs⟩ := by
  constructor
  · refine ⟨?_, ?_, ?_⟩
    · refine h.reached.apply (.finalizeVersion fileId version callerId nowMs) ?_
      have hrun : runFrom
          (FileStore.finalizeVersion fileId version callerId nowMs) s.files =
            (.ok (), s.files.insert fileId (entry.finalize version nowMs)) :=
        FileStore.finalizeVersion_eq_ok.mpr ⟨entry, ver, hentry, howner, hver, hopen, hnext, rfl⟩
      simp only [FileOp.apply, hrun]
    · intro f v hstray
      obtain ⟨row, hrow, key, hkey, href, hindex⟩ := hstray
      rw [FileStore.hasRow_finalize hentry hnext] at hrow
      exact h.noStrays f v ⟨row, hrow.1, key, hkey, href, hindex⟩
    · intro f v ver' hver' hfinal row hrow
      rw [FileStore.versionOf_finalize hentry hnext] at hver'
      by_cases hself : f = fileId ∧ v = version
      · rw [if_pos hself, hver, Option.map_some] at hver'
        obtain rfl := Option.some.inj hver'
        exact hfull row hrow
      · rw [if_neg hself] at hver'
        by_cases hprior : f = fileId ∧ 1 ≤ v.toNat ∧ v = entry.currentVersion
        · rw [if_pos hprior] at hver'
          obtain ⟨old, _, rfl⟩ := Option.map_eq_some_iff.mp hver'
          exact absurd hrow (by simp [VersionEntry.supersede])
        · rw [if_neg hprior] at hver'
          exact h.filled f v ver' hver' hfinal row hrow
  · refine ⟨?_, fun _ _ _ _ _ hkey => hkey, ?_⟩
    · intro f v hsup
      exact (FileStore.superseded_finalize hentry hnext).mpr (.inl hsup)
    · intro f v ver' hver' hfinal hlive
      have hlive' := (FileStore.superseded_finalize hentry hnext).not.mp hlive
      have hother : f ≠ fileId := by
        intro hf
        subst hf
        obtain ⟨entry', hentry', hver'⟩ := FileStore.versionOf_eq_some.mp hver'
        obtain rfl : entry = entry' := Option.some.inj (hentry.symm.trans hentry')
        have hle := h.reached.le_current hentry hver' hfinal
        by_cases hcurrent : v = entry.currentVersion
        · exact hlive' (.inr ⟨rfl, hcurrent⟩)
        · refine hlive' (.inl ⟨entry, hentry, UInt64.lt_iff_toNat_lt.mpr ?_⟩)
          exact lt_of_le_of_ne hle fun heq => hcurrent (UInt64.toNat_inj.mp heq)
      refine ⟨?_, fun _ _ _ => rfl⟩
      rw [FileStore.versionOf_finalize hentry hnext, if_neg fun hf => hother hf.1,
        if_neg fun hf => hother hf.1]
      exact hver'

lemma Settled.delete (h : s.Settled) (hsuperseded : s.files.Superseded fileId v) :
    Settled ⟨s.files, s.blobs.deleteStream (Files.blobRef fileId v code)⟩ ∧
      s.Advances ⟨s.files, s.blobs.deleteStream (Files.blobRef fileId v code)⟩ := by
  have hspared : ∀ f w ver, s.files.versionOf f w = some ver → ver.finalized = true →
      ∀ row ∈ ver.streams, row.blobRef ≠ Files.blobRef fileId v code := by
    intro f w ver hver hfinal row hrow href
    obtain ⟨entry, hentry, hlookup⟩ := FileStore.versionOf_eq_some.mp hver
    obtain ⟨st, _, hslot⟩ := (h.reached.slotted hentry hlookup).slot row hrow
    rw [hslot, Files.blobRef_inj] at href
    obtain ⟨rfl, rfl, _⟩ := href
    rw [h.reached.streams_of_superseded hver hfinal hsuperseded] at hrow
    exact absurd hrow (by simp)
  constructor
  · refine ⟨h.reached, ?_, ?_⟩
    · intro f w hstray
      obtain ⟨row, hrow, key, hkey, href, hindex⟩ := hstray
      exact h.noStrays f w ⟨row, hrow, key, (ChunkStore.mem_deleteStream.mp hkey).2, href, hindex⟩
    · intro f w ver hver hfinal row hrow index hindex
      exact ChunkStore.mem_deleteStream.mpr ⟨hspared f w ver hver hfinal row hrow,
        h.filled f w ver hver hfinal row hrow index hindex⟩
  · refine ⟨fun _ _ hsup => hsup, ?_, ?_⟩
    · intro f w code' index hlive hkey
      refine ChunkStore.mem_deleteStream.mpr ⟨?_, hkey⟩
      intro href
      obtain ⟨rfl, rfl, _⟩ := Files.blobRef_inj.mp href
      exact hlive hsuperseded
    · intro f w ver hver hfinal _
      refine ⟨hver, ?_⟩
      intro row hrow index
      show (s.blobs.deleteStream _).lookup _ = _
      rw [ChunkStore.lookup_deleteStream, if_neg (hspared f w ver hver hfinal row hrow)]

end ServerState

/-! ## What each handler keeps -/

def uploadDiscipline (faults : Bool) (maxFileBytes : Option UInt64) :
    Discipline (Annotated ServerCall ServerCall.Response)
      (Annotated.Response ServerCall.Response) ServerState where
  step := ServerCall.TimelyStep faults maxFileBytes
  Inv := ServerState.Settled
  Later := ServerState.Advances
  refl := fun _ => .refl
  trans := .trans

/-- The chunks of the stream were counted, and have not gone since unless the version is
superseded. -/
def ChunkSlot.Counted (slot : ChunkSlot) (fileId : Id) (v : UInt64) (s : ServerState) : Prop :=
  ∃ store : ChunkStore, store.chunkCount slot.blobRef = slot.chunkCount.toNat ∧
    (¬ s.files.Superseded fileId v → ∀ index, ⟨slot.blobRef, index⟩ ∈ store →
      ⟨slot.blobRef, index⟩ ∈ s.blobs)

lemma ChunkSlot.Counted.advances {slot : ChunkSlot} {fileId : Id} {v : UInt64} {s t : ServerState}
    {code : UInt8} (h : slot.Counted fileId v s)
    (hslot : slot.blobRef = Files.blobRef fileId v code) (hst : s.Advances t) :
    slot.Counted fileId v t := by
  obtain ⟨store, hcount, hkept⟩ := h
  refine ⟨store, hcount, ?_⟩
  intro hlive index hkey
  have hkey := hkept (fun hsup => hlive (hst.superseded fileId v hsup)) index hkey
  rw [hslot] at hkey ⊢
  exact hst.present fileId v code index hlive hkey

namespace Uploads

open Discipline

/-- What a handler was told, each call with the calls before it. -/
abbrev Trace : Type :=
  List (Event (Annotated ServerCall ServerCall.Response) (Annotated.Response ServerCall.Response))

variable {faults : Bool} {maxFileBytes : Option UInt64} {s : ServerState} {fileId callerId : Id}
  {v nowMs : UInt64} {α : Type}
  {trace : Trace} {ev : Event ServerCall ServerCall.Response}

lemma sat_read {c : ServerCall}
    {post : Trace → c.Response → ServerState → Prop}
    (hreads : ∀ s r t, c.Step faults s r t → t = s)
    (h : ∀ s' r, s.Advances s' → s'.Settled → c.Step faults s' r s' →
      post (trace ++ [⟨(trace.map Event.plain, c), r⟩]) r s') :
    (uploadDiscipline faults maxFileBytes).SatAnnotated post (Program.perform c) trace s := by
  rw [satAnnotated_perform]
  intro s' hlater hinv r t hstep
  obtain rfl := hreads s' r t hstep.1
  exact ⟨hinv, .refl, h _ r hlater hinv hstep.1⟩

lemma reads_versionMeta {t : ServerState} {r : Option VersionMeta}
    (h : (ServerCall.versionMeta fileId v).Step faults s r t) :
    t = s ∧ r = s.files.versionMeta fileId v := by
  obtain happly | ⟨_, hfails, _⟩ := h
  · obtain ⟨hr, ht⟩ := Prod.mk.inj happly
    exact ⟨ht.symm, hr.symm⟩
  · exact absurd hfails id

lemma reads_chunkCount {t : ServerState} {ref : String} {r : Except BlobError ℕ}
    (h : (ServerCall.blob (.chunkCount ref)).Step faults s r t) :
    t = s ∧ ∀ got, r = .ok got → got = s.blobs.chunkCount ref := by
  obtain happly | ⟨_, ⟨e, rfl⟩, ht⟩ := h
  · obtain ⟨hr, ht⟩ := Prod.mk.inj happly
    refine ⟨ht.symm, ?_⟩
    intro got hgot
    rw [← hr] at hgot
    exact (Except.ok.inj hgot).symm
  · exact ⟨ht, fun got hgot => absurd hgot (by simp)⟩

lemma mem_trace (h : ev ∈ trace.map Event.plain)
    {ev' : Event (Annotated ServerCall ServerCall.Response)
      (Annotated.Response ServerCall.Response)} :
    ev ∈ (trace ++ [ev']).map Event.plain := by
  rw [List.map_append]
  exact List.mem_append_left _ h

lemma sat_checkStreams {streams : List ChunkSlot}
    {post : Trace → Option Status → ServerState → Prop}
    (hslots : ∀ slot ∈ streams, ∃ code, slot.blobRef = Files.blobRef fileId v code)
    (hev : ev ∈ trace.map Event.plain)
    (hnone : ∀ trace' t, s.Advances t → ev ∈ trace'.map Event.plain →
      (∀ slot ∈ streams, slot.Counted fileId v t) → post trace' none t)
    (hsome : ∀ trace' status t, post trace' (some status) t) :
    (uploadDiscipline faults maxFileBytes).SatAnnotated post (Requests.checkStreams streams) trace
      s := by
  induction streams generalizing trace s with
  | nil => exact hnone trace s .refl hev fun slot hslot => absurd hslot (by simp)
  | cons slot streams ih =>
    rw [Requests.checkStreams]
    refine SatAnnotated.bind (sat_read (fun _ _ _ h => (reads_chunkCount h).1) ?_)
    intro s' r hlater _ hstep
    have hcounted := (reads_chunkCount hstep).2
    cases r with
    | error e => exact hsome _ _ _
    | ok got =>
      show SatAnnotated _ _ (if got = slot.chunkCount.toNat then _ else _) _ s'
      by_cases hgot : got = slot.chunkCount.toNat
      · rw [if_pos hgot]
        have hself : slot.Counted fileId v s' :=
          ⟨s'.blobs, by rw [← hcounted got rfl, hgot], fun _ _ hkey => hkey⟩
        obtain ⟨code, hcode⟩ := hslots slot List.mem_cons_self
        refine ih (fun slot' hslot' => hslots slot' (List.mem_cons_of_mem slot hslot'))
          (mem_trace hev) ?_
        intro trace' t hst hev' hrest
        refine hnone trace' t (hlater.trans hst) hev' ?_
        intro slot' hslot'
        obtain rfl | hmem := List.mem_cons.mp hslot'
        · exact hself.advances hcode hst
        · exact hrest slot' hmem
      · rw [if_neg hgot]
        exact hsome _ _ _

lemma sat_priorRefs
    {post : Trace → List String → ServerState → Prop}
    (hev : ev ∈ trace.map Event.plain)
    (h : ∀ trace' refs t, s.Advances t → ev ∈ trace'.map Event.plain →
      (∀ ref ∈ refs, 2 ≤ v ∧ ∃ code, ref = Files.blobRef fileId (v - 1) code) →
      post trace' refs t) :
    (uploadDiscipline faults maxFileBytes).SatAnnotated post (Requests.priorRefs fileId v) trace
      s := by
  unfold Requests.priorRefs
  by_cases hversion : 2 ≤ v
  · rw [if_pos hversion]
    refine SatAnnotated.bind (sat_read (fun _ _ _ h => (reads_versionMeta h).1) ?_)
    intro s' r hlater hinv hstep
    have hmeta := (reads_versionMeta hstep).2
    cases r with
    | none => exact h _ _ _ hlater (mem_trace hev) fun ref href => absurd href (by simp)
    | some m =>
      refine h _ _ _ hlater (mem_trace hev) ?_
      intro ref href
      obtain ⟨entry, ver, hentry, hver, rfl⟩ := Requests.versionMeta_eq_some.mp hmeta.symm
      obtain ⟨slot, hslot, rfl⟩ := List.mem_map.mp href
      obtain ⟨row, hrow, rfl⟩ := List.mem_map.mp hslot
      obtain ⟨st, _, href⟩ := (hinv.reached.slotted hentry hver).slot row hrow
      exact ⟨hversion, _, href⟩
  · rw [if_neg hversion]
    exact h _ _ _ .refl hev fun ref href => absurd href (by simp)

lemma sat_deleteStreams {refs : List String}
    {post : Trace → Unit → ServerState → Prop}
    (hrefs : ∀ ref ∈ refs, s.files.Superseded fileId v ∧ ∃ code, ref = Files.blobRef fileId v code)
    (h : ∀ trace' t, post trace' () t) :
    (uploadDiscipline faults maxFileBytes).SatAnnotated post (Requests.deleteStreams refs) trace
      s := by
  induction refs generalizing trace s with
  | nil => exact h trace s
  | cons ref refs ih =>
    rw [Requests.deleteStreams]
    refine SatAnnotated.bind ?_
    rw [satAnnotated_perform]
    intro s' hlater hinv r t hstep
    obtain ⟨hsup, code, rfl⟩ := hrefs ref List.mem_cons_self
    have hsup' := hlater.superseded fileId v hsup
    have hkept : t.Settled ∧ s'.Advances t := by
      obtain happly | ⟨_, _, rfl⟩ := hstep.1
      · rw [← (Prod.mk.inj happly).2]
        exact hinv.delete hsup'
      · exact ⟨hinv, .refl⟩
    refine ⟨hkept.1, hkept.2, ih ?_⟩
    intro ref href
    obtain ⟨_, hcode⟩ := hrefs ref (List.mem_cons_of_mem _ href)
    exact ⟨hkept.2.superseded fileId v hsup', hcode⟩

lemma sat_stage {input : StageInput} :
    (uploadDiscipline faults maxFileBytes).SatAnnotated (fun _ _ _ => True)
      (Requests.stageAndRespond maxFileBytes input nowMs) trace s := by
  unfold Requests.stageAndRespond
  split
  · exact trivial
  · rename_i p hparse
    by_cases hquota : Requests.overQuota maxFileBytes p = true
    · rw [if_pos hquota]
      exact trivial
    · rw [if_neg hquota]
      refine SatAnnotated.bind ?_
      rw [satAnnotated_perform]
      intro s' _ hinv r t hstep
      have hkept : t.Settled ∧ s'.Advances t := by
        obtain happly | ⟨_, hfails, _⟩ := hstep.1
        · rw [← (Prod.mk.inj happly).2]
          obtain ⟨_, hsame⟩ | ⟨version, files, hrun⟩ :=
            (FileStore.stageVersion_atomic p nowMs).run_cases s'.files
          · simp only [hsame]
            exact ⟨hinv, .refl⟩
          · obtain ⟨_, rfl, entry, hrow, hopen, rfl⟩ := FileStore.stageVersion_eq_ok.mp hrun
            simp only [hrun]
            exact hinv.stage hparse (by simpa using hquota) hrow hopen hstep.2
        · exact absurd hfails id
      refine ⟨hkept.1, hkept.2, ?_⟩
      cases r with
      | ok version => exact trivial
      | error e => exact trivial

lemma sat_putChunk {index : UInt64} {streamType : StreamType} {body : List UInt8} :
    (uploadDiscipline faults maxFileBytes).SatAnnotated (fun _ _ _ => True)
      (Requests.putChunk fileId v streamType index body callerId) trace s := by
  unfold Requests.putChunk
  refine SatAnnotated.bind (sat_read (fun _ _ _ h => (reads_versionMeta h).1) ?_)
  intro s' r _ _ _
  cases r with
  | none => exact trivial
  | some m =>
    show SatAnnotated _ _ (if m.ownerId ≠ callerId then _ else _) _ _
    split
    · exact trivial
    · split
      · exact trivial
      · split
        · exact trivial
        · split
          · exact trivial
          · split
            · exact trivial
            · refine SatAnnotated.bind ?_
              rw [satAnnotated_perform]
              intro s' _ hinv r t hstep
              have hkept : t.Settled ∧ s'.Advances t := by
                obtain happly | ⟨_, _, rfl⟩ := hstep.1
                · rw [← (Prod.mk.inj happly).2]
                  exact hinv.put hstep.2
                · exact ⟨hinv, .refl⟩
              refine ⟨hkept.1, hkept.2, ?_⟩
              cases r with
              | ok _ => exact trivial
              | error _ => exact trivial

lemma full_of_counted {m : VersionMeta} {ver : VersionEntry} (hs : s.Settled)
    (hver : s.files.versionOf fileId v = some ver) (hlive : ¬ s.files.Superseded fileId v)
    (hcounted : ∀ slot ∈ m.streams, slot.Counted fileId v s)
    (hsame : ∀ row ∈ ver.streams, ∃ slot ∈ m.streams,
      slot.blobRef = row.blobRef ∧ slot.chunkCount = row.chunkCount) :
    ∀ row ∈ ver.streams, ∀ index < row.chunkCount, ⟨row.blobRef, index⟩ ∈ s.blobs := by
  intro row hrow index hindex
  obtain ⟨slot, hslot, href, hcount⟩ := hsame row hrow
  obtain ⟨store, hstored, hkept⟩ := hcounted slot hslot
  rw [href, hcount] at hstored
  rw [href] at hkept
  have hkept := hkept hlive
  -- what was counted is still there, so it lies within the stream
  have hbound : ∀ key ∈ store, key.blobRef = row.blobRef → key.index < row.chunkCount := by
    intro key hkey hkeyRef
    refine UInt64.not_le.mp fun hpast => hs.noStrays fileId v ?_
    refine ⟨row, FileStore.hasRow_iff.mpr ⟨ver, hver, hrow⟩, key, ?_, hkeyRef, hpast⟩
    obtain ⟨ref, index⟩ := key
    subst hkeyRef
    exact hkept index hkey
  exact hkept index (ChunkStore.mem_of_chunkCount hbound hstored hindex)

lemma sat_finalizeVersion :
    (uploadDiscipline faults maxFileBytes).SatAnnotated (fun _ _ _ => True)
      (Requests.finalizeVersion fileId v callerId nowMs) trace s := by
  unfold Requests.finalizeVersion
  refine SatAnnotated.bind (sat_read (fun _ _ _ h => (reads_versionMeta h).1) ?_)
  intro s₁ r _ hinv₁ hstep
  have hmeta := (reads_versionMeta hstep).2
  cases r with
  | none => exact trivial
  | some m =>
    have hslots : ∀ slot ∈ m.streams, ∃ code, slot.blobRef = Files.blobRef fileId v code := by
      intro slot hslot
      obtain ⟨entry, ver, hentry, hver, rfl⟩ := Requests.versionMeta_eq_some.mp hmeta.symm
      obtain ⟨row, hrow, rfl⟩ := List.mem_map.mp hslot
      obtain ⟨st, _, href⟩ := (hinv₁.reached.slotted hentry hver).slot row hrow
      exact ⟨_, href⟩
    have hev : (⟨.versionMeta fileId v, some m⟩ : Event ServerCall ServerCall.Response) ∈
        (trace ++ [⟨(trace.map Event.plain, .versionMeta fileId v), some m⟩] : Trace).map
          Event.plain := by
      rw [List.map_append]
      exact List.mem_append_right _ (List.mem_singleton.mpr rfl)
    refine SatAnnotated.bind (sat_checkStreams hslots hev ?_ fun _ _ _ => trivial)
    intro trace₂ s₂ _ hev₂ hcounted
    refine SatAnnotated.bind (sat_priorRefs hev₂ ?_)
    intro trace₃ refs s₃ hlater₃ hev₃ hrefs
    refine SatAnnotated.bind ?_
    rw [satAnnotated_perform]
    intro s₄ hlater₄ hinv₄ r t hstep
    obtain happly | ⟨_, hfails, _⟩ := hstep.1
    · obtain ⟨hr, ht⟩ := Prod.mk.inj happly
      obtain ⟨hfail, hsame⟩ | ⟨_, files, hrun⟩ :=
        (FileStore.finalizeVersion_atomic fileId v callerId nowMs).run_cases s₄.files
      · simp only [hsame] at ht
        subst ht
        refine ⟨hinv₄, .refl, ?_⟩
        cases r with
        | error e => exact trivial
        | ok _ =>
          rw [hr] at hfail
          exact absurd hfail (by simp [Except.isOk, Except.toBool])
      · obtain ⟨entry, ver, hentry, howner, hver, hopen, hnext, rfl⟩ :=
          FileStore.finalizeVersion_eq_ok.mp hrun
        simp only [hrun] at hr ht
        subst hr ht
        have hversion : s₄.files.versionOf fileId v = some ver :=
          FileStore.versionOf_eq_some.mpr ⟨entry, hentry, hver⟩
        have hlive : ¬ s₄.files.Superseded fileId v := by
          intro hsuperseded
          obtain ⟨entry', hentry', hlt⟩ := hsuperseded
          obtain rfl : entry = entry' := Option.some.inj (hentry.symm.trans hentry')
          have hlt := UInt64.lt_iff_toNat_lt.mp hlt
          omega
        have hcounted₄ : ∀ slot ∈ m.streams, slot.Counted fileId v s₄ := by
          intro slot hslot
          obtain ⟨code, hcode⟩ := hslots slot hslot
          exact (hcounted slot hslot).advances hcode (hlater₃.trans hlater₄)
        have hfull := full_of_counted hinv₄ hversion hlive hcounted₄
          (hstep.2 entry ver m hentry howner hver hopen hev₃)
        have hdropped : ∀ ref ∈ refs,
            FileStore.Superseded (s₄.files.insert fileId (entry.finalize v nowMs)) fileId (v - 1) ∧
              ∃ code, ref = Files.blobRef fileId (v - 1) code := by
          intro ref href
          obtain ⟨htwo, hcode⟩ := hrefs ref href
          refine ⟨(FileStore.superseded_finalize hentry hnext).mpr (.inr ⟨rfl, ?_⟩), hcode⟩
          have htwo := UInt64.le_iff_toNat_le.mp htwo
          rw [← UInt64.toNat_inj, UInt64.toNat_sub_of_le _ _
            (UInt64.le_iff_toNat_le.mpr (by simp at htwo ⊢; omega)), hnext, UInt64.toNat_one]
          omega
        refine ⟨(hinv₄.commit hentry howner hver hopen hnext hfull).1,
          (hinv₄.commit hentry howner hver hopen hnext hfull).2, ?_⟩
        exact SatAnnotated.bind (sat_deleteStreams hdropped fun _ _ => trivial)
    · exact absurd hfails id

/-! ### Requests that run alone -/

/-- Every call of the program is timely when it runs alone. -/
def Alone (maxFileBytes : Option UInt64) (p : Handler α)
    (history : List (Event ServerCall ServerCall.Response)) (s : ServerState) : Prop :=
  (p.annotate history).EvalAll (Annotated.handle ServerCall.apply)
    (fun c s _ => c.2.Timely maxFileBytes c.1 s) s

variable {history : List (Event ServerCall ServerCall.Response)}

lemma alone_perform {c : ServerCall} :
    Alone maxFileBytes (Program.perform c) history s ↔ c.Timely maxFileBytes history s :=
  and_iff_left trivial

lemma alone_bind {β : Type} {p : Handler β} {f : β → Handler α} :
    Alone maxFileBytes (p >>= f) history s ↔ Alone maxFileBytes p history s ∧
      Alone maxFileBytes (f (p.eval ServerCall.apply s).1)
        (history ++ System.events ServerCall.apply p s) (p.eval ServerCall.apply s).2 :=
  Program.evalAll_annotate_bind

def IsRead : ServerCall → Prop
  | .versionMeta _ _ => True
  | .blob (.chunkCount _) => True
  | _ => False

def OnlyReads : Handler α → Prop
  | .done _ => True
  | .call c next => IsRead c ∧ ∀ r, OnlyReads (next r)

lemma OnlyReads.bind {β : Type} {p : Handler β} {f : β → Handler α} (h : OnlyReads p)
    (hf : ∀ a, OnlyReads (f a)) : OnlyReads (p >>= f) := by
  induction p with
  | done a => exact hf a
  | call c next ih => exact ⟨h.1, fun r => ih r (h.2 r)⟩

lemma onlyReads_checkStreams (streams : List ChunkSlot) :
    OnlyReads (Requests.checkStreams streams) := by
  induction streams with
  | nil => exact trivial
  | cons slot streams ih =>
    refine OnlyReads.bind ⟨trivial, fun _ => trivial⟩ ?_
    intro counted
    cases counted with
    | error e => exact trivial
    | ok got =>
      show OnlyReads (if got = slot.chunkCount.toNat then _ else _)
      by_cases hgot : got = slot.chunkCount.toNat
      · rw [if_pos hgot]
        exact ih
      · rw [if_neg hgot]
        exact trivial

lemma onlyReads_priorRefs : OnlyReads (Requests.priorRefs fileId v) := by
  unfold Requests.priorRefs
  by_cases hversion : 2 ≤ v
  · rw [if_pos hversion]
    refine OnlyReads.bind ⟨trivial, fun _ => trivial⟩ ?_
    intro prior
    cases prior with
    | none => exact trivial
    | some m => exact trivial
  · rw [if_neg hversion]
    exact trivial

lemma apply_read {c : ServerCall} (h : IsRead c) : (c.apply s).2 = s := by
  cases c with
  | versionMeta _ _ => rfl
  | blob c =>
    cases c with
    | chunkCount _ => rfl
    | _ => exact absurd h id
  | _ => exact absurd h id

lemma alone_reads {p : Handler α} (h : OnlyReads p) :
    Alone maxFileBytes p history s ∧ (p.eval ServerCall.apply s).2 = s ∧
      ∀ ev ∈ System.events ServerCall.apply p s, ev.response = (ev.call.apply s).1 := by
  induction p generalizing history with
  | done a => exact ⟨trivial, rfl, fun ev hev => absurd hev (by simp [System.events])⟩
  | call c next ih =>
    obtain ⟨hrest, hsame, hevents⟩ :=
      @ih (c.apply s).1 (history ++ [⟨c, (c.apply s).1⟩]) (h.2 _)
    have hread := apply_read (s := s) h.1
    refine ⟨⟨?_, ?_⟩, ?_, ?_⟩
    · cases c with
      | versionMeta _ _ => exact trivial
      | blob c =>
        cases c with
        | chunkCount _ => exact trivial
        | _ => exact absurd h.1 id
      | _ => exact absurd h.1 id
    · show Alone maxFileBytes (next (c.apply s).1) _ (c.apply s).2
      rw [hread]
      exact hrest
    · show ((next (c.apply s).1).eval ServerCall.apply (c.apply s).2).2 = s
      rw [hread]
      exact hsame
    · intro ev hev
      unfold System.events at hev
      rw [hread] at hev
      obtain rfl | hev := List.mem_cons.mp hev
      · rfl
      · exact hevents ev hev

lemma alone_deleteStreams {refs : List String} :
    Alone maxFileBytes (Requests.deleteStreams refs) history s := by
  induction refs generalizing history s with
  | nil => exact trivial
  | cons ref refs ih => exact ⟨trivial, ih⟩

lemma alone_stage {input : StageInput}
    (hframes : ¬ (FileRequest.stage input nowMs).Reframes maxFileBytes s) :
    Alone maxFileBytes (Requests.stageAndRespond maxFileBytes input nowMs) history s := by
  unfold Requests.stageAndRespond
  split
  · exact trivial
  · rename_i p hparse
    by_cases hquota : Requests.overQuota maxFileBytes p = true
    · rw [if_pos hquota]
      exact trivial
    · rw [if_neg hquota, alone_bind, alone_perform]
      refine ⟨hframes, ?_⟩
      cases ((Program.perform (.stageVersion ⟨input, p, hparse⟩ nowMs) :
        Handler _).eval ServerCall.apply s).1 with
      | ok version => exact trivial
      | error e => exact trivial

lemma alone_putChunk {index : UInt64} {streamType : StreamType} {body : List UInt8}
    (hs : s.Reached) : Alone maxFileBytes
      (Requests.putChunk fileId v streamType index body callerId) history s := by
  unfold Requests.putChunk
  rw [alone_bind, alone_perform]
  refine ⟨trivial, ?_⟩
  cases hmeta : ((Program.perform (.versionMeta fileId v) : Handler _).eval ServerCall.apply s).1 with
  | none => exact trivial
  | some m =>
    obtain ⟨entry, ver, hentry, hver, rfl⟩ := Requests.versionMeta_eq_some.mp hmeta
    show Alone _ (if entry.ownerId ≠ callerId then _ else _) _ s
    split
    · exact trivial
    · split
      · exact trivial
      · split
        · exact trivial
        · split
          · exact trivial
          · split
            · exact trivial
            · rename_i hopen _ slot hslot hindex _
              rw [alone_bind, alone_perform]
              obtain ⟨row, hrow, rfl⟩ := List.mem_map.mp (List.mem_of_find?_eq_some hslot)
              refine ⟨?_, trivial⟩
              -- no other row has the reference of the slot
              intro f w ver' hver' row' hrow' href
              obtain ⟨entry', hentry', hlookup⟩ := FileStore.versionOf_eq_some.mp hver'
              obtain ⟨rfl, rfl⟩ := (hs.slotted hentry' hlookup).version_of_blobRef
                (hs.slotted hentry hver) hrow' hrow href
              obtain rfl : entry = entry' := Option.some.inj (hentry.symm.trans hentry')
              obtain rfl : ver = ver' := Option.some.inj (hver.symm.trans hlookup)
              obtain rfl := (hs.slotted hentry hver).eq_of_blobRef hrow' hrow href
              exact ⟨UInt64.not_le.mp hindex, fun hfinal => absurd hfinal hopen⟩

lemma alone_finalizeVersion : Alone maxFileBytes
    (Requests.finalizeVersion fileId v callerId nowMs) [] s := by
  unfold Requests.finalizeVersion
  rw [alone_bind, alone_perform]
  refine ⟨trivial, ?_⟩
  cases ((Program.perform (.versionMeta fileId v) : Handler _).eval ServerCall.apply s).1 with
  | none => exact trivial
  | some m =>
    obtain ⟨hcheck, hsame, hcheckEvents⟩ := alone_reads (s := s) (onlyReads_checkStreams m.streams)
    show Alone _ (Requests.checkStreams m.streams >>= _) _ s
    rw [alone_bind, hsame]
    refine ⟨hcheck, ?_⟩
    cases ((Requests.checkStreams m.streams).eval ServerCall.apply s).1 with
    | some status => exact trivial
    | none =>
      obtain ⟨hprior, hsame', hpriorEvents⟩ := alone_reads (s := s)
        (@onlyReads_priorRefs fileId v)
      show Alone _ (Requests.priorRefs fileId v >>= _) _ s
      rw [alone_bind, hsame', alone_bind, alone_perform]
      refine ⟨hprior, ?_, ?_⟩
      · intro entry ver m' hentry _ hver _ hev row hrow
        -- whatever the handler was told is what is stored
        have hfirst : System.events ServerCall.apply
            (Program.perform (.versionMeta fileId v) : Handler _) s =
              [⟨.versionMeta fileId v, s.files.versionMeta fileId v⟩] := rfl
        have htold : some m' = s.files.versionMeta fileId v := by
          rw [hfirst] at hev
          simp only [List.nil_append, List.mem_append, List.mem_singleton] at hev
          obtain (htold | hchecks) | hpriors := hev
          · simp only [Event.mk.injEq, heq_eq_eq] at htold
            exact htold.2
          · exact hcheckEvents _ hchecks
          · exact hpriorEvents _ hpriors
        obtain rfl := Option.some.inj
          (htold.trans (Requests.versionMeta_eq_some.mpr ⟨entry, ver, hentry, hver, rfl⟩))
        exact ⟨row.slot, List.mem_map_of_mem hrow, rfl, rfl⟩
      · cases ((Program.perform (.finalizeVersion fileId v callerId nowMs) :
          Handler _).eval ServerCall.apply s).1 with
        | error e => exact trivial
        | ok _ =>
          show Alone _ (Requests.deleteStreams _ >>= _) _ _
          rw [alone_bind]
          exact ⟨alone_deleteStreams, trivial⟩

end Uploads

/-! ## Overlapping requests -/

/-- A request that stages, uploads or commits. -/
def FileRequest.IsUpload : FileRequest → Prop
  | discard _ _ => False
  | _ => True

/-- One step of requests that overlap. -/
abbrev Uploads.Next (faults : Bool) (maxFileBytes : Option UInt64) :=
  @System.Next FileRequest ServerCall ServerCall.Response Status ServerState
    (ServerCall.Step faults) (FileRequest.program maxFileBytes) FileRequest.IsUpload
    fun _ _ => False

abbrev Uploads.Reachable (faults : Bool) (maxFileBytes : Option UInt64) :=
  @System.Reachable FileRequest ServerCall ServerCall.Response Status ServerState
    (ServerCall.Step faults) (FileRequest.program maxFileBytes) FileRequest.IsUpload
    (fun _ _ => False) fun s => s = ⟨∅, ∅⟩

/-- One step of requests that overlap, where every call is timely. -/
abbrev Uploads.TimelyNext (faults : Bool) (maxFileBytes : Option UInt64) :=
  @System.Next FileRequest (Annotated ServerCall ServerCall.Response)
    (Annotated.Response ServerCall.Response) Status ServerState
    (ServerCall.TimelyStep faults maxFileBytes)
    (fun request => (request.program maxFileBytes).annotate []) FileRequest.IsUpload
    fun _ _ => False

abbrev Uploads.TimelyReachable (faults : Bool) (maxFileBytes : Option UInt64) :=
  @System.Reachable FileRequest (Annotated ServerCall ServerCall.Response)
    (Annotated.Response ServerCall.Response) Status ServerState
    (ServerCall.TimelyStep faults maxFileBytes)
    (fun request => (request.program maxFileBytes).annotate []) FileRequest.IsUpload
    (fun _ _ => False) fun s => s = ⟨∅, ∅⟩

/-- The version has the manifest and the chunks that it had, and no declared chunk is missing. -/
structure ServerState.Preserves (s t : ServerState) (fileId : Id) (v : UInt64)
    (ver : VersionEntry) : Prop where
  manifest : ∃ ver', t.files.versionOf fileId v = some ver' ∧
    ver'.manifestBytes = ver.manifestBytes ∧ ver'.manifestSig = ver.manifestSig
  streams : ∃ m, decode Manifest ver.manifestBytes = .ok m ∧ ∀ st ∈ m.streams,
    (∀ index, t.blobs.lookup ⟨Files.blobRef fileId v st.streamType.codepoint, index⟩ =
      s.blobs.lookup ⟨Files.blobRef fileId v st.streamType.codepoint, index⟩) ∧
    ∀ index < st.chunkCount, ⟨Files.blobRef fileId v st.streamType.codepoint, index⟩ ∈ t.blobs

namespace Uploads

variable {faults : Bool} {maxFileBytes : Option UInt64}

lemma sat_program {request : FileRequest} (hupload : request.IsUpload) {s : ServerState} :
    (uploadDiscipline faults maxFileBytes).SatAnnotated (fun _ _ _ => True)
      (request.program maxFileBytes) [] s := by
  cases request with
  | stage input nowMs => exact sat_stage
  | putChunk fileId version streamType index body callerId => exact sat_putChunk
  | finalize fileId version callerId nowMs => exact sat_finalizeVersion
  | discard fileId callerId => exact absurd hupload id

lemma settled_empty : ServerState.Settled ⟨∅, ∅⟩ where
  reached := ServerState.reached_empty
  noStrays := by
    intro fileId v hstray
    obtain ⟨_, _, key, hkey, _⟩ := hstray
    exact absurd hkey (by simp)
  filled := by
    intro fileId v ver hver
    exact absurd hver (by simp [FileStore.versionOf])

lemma kept_steps {S S' : System FileRequest (Annotated ServerCall ServerCall.Response)
    (Annotated.Response ServerCall.Response) Status ServerState}
    (hreach : TimelyReachable faults maxFileBytes S)
    (hsteps : Relation.ReflTransGen (TimelyNext faults maxFileBytes) S S') :
    S.shared.Settled ∧ S'.shared.Settled ∧ S.shared.Advances S'.shared := by
  have hstart : ∀ (request : FileRequest) (log : List (Completion FileRequest
      (Annotated ServerCall ServerCall.Response) (Annotated.Response ServerCall.Response) Status))
      (s : ServerState), request.IsUpload → (uploadDiscipline faults maxFileBytes).Inv s →
      (∀ c ∈ log, True) →
      (uploadDiscipline faults maxFileBytes).Sat (fun _ _ _ => True)
        ((request.program maxFileBytes).annotate []) [] s := by
    intro request _ s hupload _ _
    exact sat_program hupload
  have hkept : System.Kept (uploadDiscipline faults maxFileBytes) (fun _ _ _ => True) S := by
    refine System.reachable_kept (D := uploadDiscipline faults maxFileBytes) ?_ ?_ hstart ?_ hreach
    · intro s hs
      rw [hs]
      exact settled_empty
    · intro _ _ _ _ _ _
      trivial
    · intro _ _ _ hcrash
      exact absurd hcrash id
  have hlater := System.kept_steps (D := uploadDiscipline faults maxFileBytes)
    (fun _ _ _ _ _ _ => trivial) hstart (fun _ _ _ hcrash => absurd hcrash id) hkept hsteps
  exact ⟨hkept.inv, hlater.1.inv, hlater.2⟩

end Uploads

/-- Timely runs are runs of the handlers. -/
theorem Uploads.reachable_of_timely {faults : Bool} {maxFileBytes : Option UInt64}
    {S : System FileRequest (Annotated ServerCall ServerCall.Response)
      (Annotated.Response ServerCall.Response) Status ServerState}
    (h : TimelyReachable faults maxFileBytes S) : Reachable faults maxFileBytes S.plain :=
  System.Reachable.plain (fun _ _ _ _ hstep => hstep.1) h

/-- In every run of overlapping requests whose calls are timely, with any faults of the blob store:
once a version is finalized and until it is superseded, its manifest and the chunks of its streams
do not change, and every chunk that the manifest declares is there. -/
theorem finalized_kept {faults : Bool} {maxFileBytes : Option UInt64}
    {S S' : System FileRequest (Annotated ServerCall ServerCall.Response)
      (Annotated.Response ServerCall.Response) Status ServerState}
    (hreach : Uploads.TimelyReachable faults maxFileBytes S)
    (hsteps : Relation.ReflTransGen (Uploads.TimelyNext faults maxFileBytes) S S')
    {fileId : Id} {v : UInt64} {ver : VersionEntry}
    (hver : S.shared.files.versionOf fileId v = some ver) (hfinal : ver.finalized = true)
    (hlive : ¬ S'.shared.files.Superseded fileId v) :
    S.shared.Preserves S'.shared fileId v ver := by
  obtain ⟨hsettled, hsettled', hadvances⟩ := Uploads.kept_steps hreach hsteps
  obtain ⟨hkept, hchunks⟩ := hadvances.finalized fileId v ver hver hfinal hlive
  obtain ⟨entry, hentry, hlookup⟩ := FileStore.versionOf_eq_some.mp hver
  have hcurrent : v = entry.currentVersion := by
    by_contra hother
    refine hlive (hadvances.superseded fileId v ⟨entry, hentry, ?_⟩)
    have hle := hsettled.reached.le_current hentry hlookup hfinal
    exact UInt64.lt_iff_toNat_lt.mpr
      (lt_of_le_of_ne hle fun heq => hother (UInt64.toNat_inj.mp heq))
  obtain ⟨m, hdecode, hstreams⟩ : ∃ m, ver.Declares fileId v m := by
    obtain ⟨ops, hops⟩ := hsettled.reached
    rw [← hops] at hentry
    exact declares_run ops hentry hlookup (.inr hcurrent)
  refine ⟨⟨ver, hkept, rfl, rfl⟩, m, hdecode, ?_⟩
  intro st hst
  have hmem := List.mem_map_of_mem (f := fun st : Stream =>
    (Files.blobRef fileId v st.streamType.codepoint, st.chunkCount)) hst
  rw [← hstreams] at hmem
  obtain ⟨row, hrow, heq⟩ := List.mem_map.mp hmem
  obtain ⟨href, hcount⟩ := Prod.mk.inj heq
  rw [← href, ← hcount]
  exact ⟨hchunks row hrow, hsettled'.filled fileId v ver hkept hfinal row hrow⟩

/-! ## Requests one after another -/

namespace Uploads

variable {faults : Bool} {maxFileBytes : Option UInt64} {s : ServerState}

lemma alone_program {request : FileRequest} (hupload : request.IsUpload) (hs : s.Reached)
    (hframes : ¬ request.Reframes maxFileBytes s) :
    Alone maxFileBytes (request.program maxFileBytes) [] s := by
  cases request with
  | stage input nowMs => exact alone_stage hframes
  | putChunk fileId version streamType index body callerId => exact alone_putChunk hs
  | finalize fileId version callerId nowMs => exact alone_finalizeVersion
  | discard fileId callerId => exact absurd hupload id

/-- One at a time, all calls are timely, unless a stage reframes a stream. -/
theorem steps_serveAll {requests : List FileRequest} (hs : s.Reached)
    (h : ∀ x ∈ s.servePath maxFileBytes requests,
      x.2.1.IsUpload ∧ ¬ x.2.1.Reframes maxFileBytes x.1)
    (log : List (Completion FileRequest (Annotated ServerCall ServerCall.Response)
      (Annotated.Response ServerCall.Response) Status)) :
    ∃ log', Relation.ReflTransGen (TimelyNext faults maxFileBytes) ⟨s, [], log⟩
      ⟨s.serveAll maxFileBytes requests, [], log'⟩ := by
  induction requests generalizing s log with
  | nil => exact ⟨log, .refl⟩
  | cons request requests ih =>
    obtain ⟨hupload, hframes⟩ := h _ List.mem_cons_self
    have htimely : ((request.program maxFileBytes).annotate []).EvalAll
        (Annotated.handle ServerCall.apply) (fun c s r =>
          ServerCall.TimelyStep faults maxFileBytes c s r
            (Annotated.handle ServerCall.apply c s).2) s :=
      Program.EvalAll.mono (fun c s hok => ⟨.inl rfl, hok⟩) (alone_program hupload hs hframes)
    have hfirst : Relation.ReflTransGen (TimelyNext faults maxFileBytes) ⟨s, [], log⟩
        (System.runBeside (Annotated.handle ServerCall.apply)
          (fun request => (FileRequest.program maxFileBytes request).annotate []) ⟨s, [], log⟩
          request) :=
      System.steps_runBeside hupload htimely
    simp only [System.runBeside, Program.eval_annotate] at hfirst
    have hruns : FileRequest.Runs faults maxFileBytes s
        (request, (request.serve maxFileBytes s).1) (request.serve maxFileBytes s).2 :=
      FileRequest.runs_serve
    have hreached := hs.outcome (FileRequest.outcome hruns)
    obtain ⟨log', hrest⟩ := ih hreached (fun x hx => h x (List.mem_cons_of_mem _ hx)) _
    exact ⟨log', hfirst.trans hrest⟩

end Uploads

lemma not_superseded_of_current {files : FileStore} {fileId : Id}
    (hcurrent : (files.lookup fileId).map FileEntry.currentVersion = some 1) :
    ¬ files.Superseded fileId 1 := by
  rintro ⟨entry, hentry, hlt⟩
  rw [hentry, Option.map_some] at hcurrent
  rw [Option.some.inj hcurrent] at hlt
  exact absurd hlt (by decide)

lemma quiet_uploadsAll : ∀ x ∈ ServerState.servePath none ⟨∅, ∅⟩ uploadsAll,
    x.2.1.IsUpload ∧ ¬ x.2.1.Reframes none x.1 := by
  intro x hx
  obtain rfl | hx := List.mem_cons.mp hx
  · refine ⟨trivial, ?_⟩
    intro hlogged
    obtain ⟨_, _, _, _, _, _, _, _, key, hkey, _⟩ := hlogged
    exact absurd hkey (by simp)
  · obtain rfl := List.mem_singleton.mp hx
    exact ⟨trivial, id⟩

/-- A file of one chunk is staged, uploaded and committed. -/
def commitsUpload : List FileRequest :=
  uploadsAll ++ [.finalize ⟨.replicate 16 2⟩ 1 ⟨.replicate 16 1⟩ 0]

/-- The owner puts other bytes in place of the chunk. -/
def replacesChunk : FileRequest :=
  .putChunk ⟨.replicate 16 2⟩ 1 .content 0 [7] ⟨.replicate 16 1⟩

/-- After the commit this is refused. -/
theorem finalized_kept_replacesChunk : ∃ ver,
    (ServerState.serveAll none ⟨∅, ∅⟩ commitsUpload).files.versionOf ⟨.replicate 16 2⟩ 1 =
      some ver ∧ ver.finalized = true ∧
    (ServerState.serveAll none ⟨∅, ∅⟩ commitsUpload).Preserves
      (ServerState.serveAll none (ServerState.serveAll none ⟨∅, ∅⟩ commitsUpload) [replacesChunk])
      ⟨.replicate 16 2⟩ 1 ver := by
  obtain ⟨log, hsteps⟩ := @Uploads.steps_serveAll false none ⟨∅, ∅⟩ commitsUpload
    ServerState.reached_empty (by
      intro x hx
      have hx : x ∈ ServerState.servePath none ⟨∅, ∅⟩ uploadsAll ++ [_] := hx
      obtain hx | hx := List.mem_append.mp hx
      · exact quiet_uploadsAll x hx
      · obtain rfl := List.mem_singleton.mp hx
        exact ⟨trivial, id⟩) []
  have hreach : Uploads.TimelyReachable false none
      ⟨ServerState.serveAll none ⟨∅, ∅⟩ commitsUpload, [], log⟩ :=
    System.Reachable.steps (.init rfl) hsteps
  have hreached : (ServerState.serveAll none ⟨∅, ∅⟩ commitsUpload).Reached :=
    ServerState.reached_empty.run (@ServerState.run_serveAll false none _ commitsUpload)
  obtain ⟨log', hmore⟩ := @Uploads.steps_serveAll false none _ [replacesChunk] hreached (by
    intro x hx
    obtain rfl := List.mem_singleton.mp hx
    exact ⟨trivial, id⟩) log
  have hversion : ((ServerState.serveAll none ⟨∅, ∅⟩ commitsUpload).files.versionOf
      ⟨.replicate 16 2⟩ 1).map VersionEntry.finalized = some true := by
    decide +kernel
  have hcurrent : ((ServerState.serveAll none (ServerState.serveAll none ⟨∅, ∅⟩ commitsUpload)
      [replacesChunk]).files.lookup ⟨.replicate 16 2⟩).map FileEntry.currentVersion = some 1 := by
    decide +kernel
  generalize ServerState.serveAll none (ServerState.serveAll none ⟨∅, ∅⟩ commitsUpload)
    [replacesChunk] = t at hmore hcurrent ⊢
  generalize ServerState.serveAll none ⟨∅, ∅⟩ commitsUpload = s at hreach hmore hversion ⊢
  obtain ⟨ver, hver, hfinal⟩ := Option.map_eq_some_iff.mp hversion
  exact ⟨ver, hver, hfinal,
    finalized_kept hreach hmore hver hfinal (not_superseded_of_current hcurrent)⟩

/-- The same request, but its check comes before the commit and its write after it. -/
def writesLate : ServerState × ServerState :=
  let started := (replacesChunk.program none).runCalls ServerCall.apply 1
    (ServerState.serveAll none ⟨∅, ∅⟩ uploadsAll)
  let committed := ((FileRequest.finalize ⟨.replicate 16 2⟩ 1 ⟨.replicate 16 1⟩ 0).serve none
    started.2).2
  (committed, (started.1.eval ServerCall.apply committed).2)

lemma writesLate_reachable : ∃ S S', Uploads.Reachable false none S ∧
    Relation.ReflTransGen (Uploads.Next false none) S S' ∧ S.shared = writesLate.1 ∧
      S'.shared = writesLate.2 := by
  obtain ⟨log, hsteps⟩ := @Uploads.steps_serveAll false none ⟨∅, ∅⟩ uploadsAll
    ServerState.reached_empty quiet_uploadsAll []
  have htimely : Uploads.TimelyReachable false none
      ⟨ServerState.serveAll none ⟨∅, ∅⟩ uploadsAll, [], log⟩ :=
    System.Reachable.steps (.init rfl) hsteps
  unfold writesLate
  generalize ServerState.serveAll none ⟨∅, ∅⟩ uploadsAll = s at htimely ⊢
  have huploaded := Uploads.reachable_of_timely htimely
  have hstep : ∀ c s, ServerCall.Step false c s (c.apply s).1 (c.apply s).2 :=
    fun _ _ => .inl rfl
  obtain ⟨threads, log', hcommits, hwrites⟩ := @System.steps_overtake _ _ _ _ _ _
    (FileRequest.program none) FileRequest.IsUpload (fun _ _ => False) _ 1 replacesChunk
    (.finalize ⟨.replicate 16 2⟩ 1 ⟨.replicate 16 1⟩ 0) trivial trivial s
    (log.map Completion.plain) (Program.evalAll_of_forall hstep _ _)
    (Program.evalAll_of_forall hstep _ _) (Program.evalAll_of_forall hstep _ _)
  exact ⟨_, _, huploaded.steps hcommits, hwrites, rfl, rfl⟩

/-- The write replaces a chunk of the finalized version. -/
theorem finalized_kept_writesLate :
    ¬ ∀ S S' fileId v ver, Uploads.Reachable false none S →
      Relation.ReflTransGen (Uploads.Next false none) S S' →
      S.shared.files.versionOf fileId v = some ver → ver.finalized = true →
      ¬ S'.shared.files.Superseded fileId v → S.shared.Preserves S'.shared fileId v ver := by
  intro h
  obtain ⟨S, S', hreach, hsteps, hcommitted, hwritten⟩ := writesLate_reachable
  have hversion : (writesLate.1.files.versionOf ⟨.replicate 16 2⟩ 1).map VersionEntry.finalized =
      some true := by
    decide +kernel
  have hcurrent : (writesLate.2.files.lookup ⟨.replicate 16 2⟩).map FileEntry.currentVersion =
      some 1 := by
    decide +kernel
  have hdeclared : (writesLate.1.files.versionOf ⟨.replicate 16 2⟩ 1).bind (fun ver =>
      (decode Manifest ver.manifestBytes).toOption.map fun m =>
        m.streams.map Stream.streamType) = some [.content] := by
    decide +kernel
  have hbefore : writesLate.1.blobs.lookup
      ⟨Files.blobRef ⟨.replicate 16 2⟩ 1 StreamType.content.codepoint, 0⟩ = some [] := by
    decide +kernel
  have hafter : writesLate.2.blobs.lookup
      ⟨Files.blobRef ⟨.replicate 16 2⟩ 1 StreamType.content.codepoint, 0⟩ = some [7] := by
    decide +kernel
  rw [← hcommitted] at hversion hdeclared hbefore
  rw [← hwritten] at hcurrent hafter
  obtain ⟨ver, hver, hfinal⟩ := Option.map_eq_some_iff.mp hversion
  have hlive := not_superseded_of_current hcurrent
  obtain ⟨m, hdecode, hstreams⟩ :=
    (h S S' _ _ ver hreach hsteps hver hfinal hlive).streams
  rw [hver, Option.bind_some, hdecode] at hdeclared
  have htypes : m.streams.map Stream.streamType = [.content] := Option.some.inj hdeclared
  have hmem : StreamType.content ∈ m.streams.map Stream.streamType := by
    rw [htypes]
    exact List.mem_singleton.mpr rfl
  obtain ⟨st, hst, htype⟩ := List.mem_map.mp hmem
  have hsame := (hstreams st hst).1 0
  rw [htype, hbefore, hafter] at hsame
  exact absurd hsame (by decide)

end MaxSecu
