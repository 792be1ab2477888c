import MaxSecu.Server.Requests

/-!
# What a successful finalize establishes

A finalize counts the chunks of each stream and compares the counts with the manifest.  That tells a
complete stream from an incomplete one as long as no chunk lies past the end of its stream
(`finalize_complete_iff`).  A chunk gets there when a version is staged again with a smaller
framing: references are the same for all stages of a version, and a stage deletes nothing.
-/

namespace MaxSecu

open AssociationList

lemma ChunkStore.mem_of_chunkCount {store : ChunkStore} {blobRef : String} {count index : UInt64}
    (hbound : ∀ key ∈ store, key.blobRef = blobRef → key.index < count)
    (hcount : store.chunkCount blobRef = count.toNat) (hindex : index < count) :
    ⟨blobRef, index⟩ ∈ store := by
  have hsub : store.streamKeys blobRef ⊆
      (Finset.range count.toNat).image fun n => ⟨blobRef, UInt64.ofNat n⟩ := by
    intro key hkey
    obtain ⟨hmem, href⟩ := mem_streamKeys.mp hkey
    refine Finset.mem_image.mpr ⟨key.index.toNat, ?_, ?_⟩
    · exact Finset.mem_range.mpr (UInt64.lt_iff_toNat_lt.mp (hbound key hmem href))
    · rw [UInt64.ofNat_toNat, ← href]
  have hcard : ((Finset.range count.toNat).image fun n =>
      (⟨blobRef, UInt64.ofNat n⟩ : ChunkKey)).card ≤ (store.streamKeys blobRef).card := by
    rw [← chunkCount_eq_card, hcount]
    exact Finset.card_image_le.trans (Finset.card_range _).le
  have hall := Finset.eq_of_subset_of_card_le hsub hcard
  have hkey : (⟨blobRef, index⟩ : ChunkKey) ∈ store.streamKeys blobRef := by
    rw [hall]
    refine Finset.mem_image.mpr ⟨index.toNat, ?_, by rw [UInt64.ofNat_toNat]⟩
    exact Finset.mem_range.mpr (UInt64.lt_iff_toNat_lt.mp hindex)
  exact (mem_streamKeys.mp hkey).1

/-- Of every stream that the manifest of the version declares, exactly the chunks are there. -/
def ServerState.Complete (s : ServerState) (fileId : Id) (version : UInt64) : Prop :=
  ∃ entry ver m, s.files.lookup fileId = some entry ∧ entry.versions.lookup version = some ver ∧
    decode Manifest ver.manifestBytes = .ok m ∧ ∀ st ∈ m.streams, ∀ index : UInt64,
      ⟨Files.blobRef fileId version st.streamType.codepoint, index⟩ ∈ s.blobs ↔
        index < st.chunkCount

/-- Some stream of the version has a chunk past its end. -/
def ServerState.Strays (s : ServerState) (fileId : Id) (version : UInt64) : Prop :=
  ∃ row, s.files.HasRow fileId version row ∧
    ∃ key ∈ s.blobs, key.blobRef = row.blobRef ∧ row.chunkCount ≤ key.index

/-- The request stages a version with a stream that ends before a chunk already stored for it. -/
def FileRequest.Reframes (maxFileBytes : Option UInt64) (s : ServerState) : FileRequest → Prop
  | stage input nowMs =>
    ∃ p entry, Files.parseStage input = .ok p ∧ Requests.overQuota maxFileBytes p = false ∧
      FileStore.StageRow s.files p nowMs entry ∧ entry.isFinalized p.version = false ∧
      ∃ row ∈ p.streams, ∃ key ∈ s.blobs, key.blobRef = row.blobRef ∧ row.chunkCount ≤ key.index
  | _ => False

namespace Completeness

variable {faults : Bool} {maxFileBytes : Option UInt64} {s t : ServerState}
  {request : FileRequest × Status} {fileId callerId : Id} {version nowMs v : UInt64}
  {row : StreamRow}

lemma mem_of_mem_purged {refs : List String} {store store' : ChunkStore} {key : ChunkKey}
    (h : store.Purged faults refs store') (hkey : key ∈ store') : key ∈ store := by
  obtain ⟨bytes, hbytes⟩ := mem_iff_lookup.mp hkey
  obtain ⟨hsame, _⟩ | ⟨_, hnone⟩ := h key
  · exact mem_iff_lookup.mpr ⟨bytes, by rw [← hsame]; exact hbytes⟩
  · rw [hnone] at hbytes
    exact absurd hbytes (by simp)

lemma mem_purged {refs : List String} {store store' : ChunkStore} {key : ChunkKey}
    (h : store.Purged faults refs store') (href : key.blobRef ∉ refs) :
    key ∈ store' ↔ key ∈ store := by
  obtain ⟨hsame, _⟩ | ⟨hmem, _⟩ := h key
  · rw [← AList.lookup_isSome, ← AList.lookup_isSome, hsame]
  · exact absurd hmem href

lemma not_mem_priorRefs {entry : FileEntry} {code : UInt8} (h : s.Reached)
    (hentry : s.files.lookup fileId = some entry) :
    Files.blobRef fileId version code ∉ entry.priorRefs version := by
  unfold FileEntry.priorRefs
  by_cases hversion : 2 ≤ version
  · rw [if_pos hversion]
    cases hprior : entry.versions.lookup (version - 1) with
    | none => simp
    | some prior =>
      rw [Option.map_some, Option.getD_some]
      intro hmem
      obtain ⟨row, hrow, href⟩ := List.mem_map.mp hmem
      obtain ⟨st, _, hslot⟩ := (h.slotted hentry hprior).slot row hrow
      rw [href] at hslot
      have hsame : version = version - 1 := (Files.blobRef_inj.mp hslot).2.1
      have htwo := UInt64.le_iff_toNat_le.mp hversion
      have hnat := congrArg UInt64.toNat hsame
      rw [UInt64.toNat_sub_of_le _ _ (UInt64.le_iff_toNat_le.mpr (by simp at htwo ⊢; omega))]
        at hnat
      simp at htwo hnat
      omega
  · rw [if_neg hversion]
    simp

/-- The count check tells a complete version from an incomplete one exactly if no chunk strays. -/
lemma complete_iff (h : s.Reached)
    (houtcome : FileRequest.Outcome faults maxFileBytes s
      (.finalize fileId version callerId nowMs, .ok) t) :
    t.Complete fileId version ↔ ¬ s.Strays fileId version := by
  cases houtcome with
  | refused hstatus => exact absurd hstatus (by simp [Status.isSuccess])
  | @committed _ _ _ _ entry ver blobs hentry _ hver hopen hnext hcounts hpurged =>
    obtain ⟨m, hdecode, hstreams⟩ : ∃ m, ver.Declares fileId version m := by
      obtain ⟨ops, hops⟩ := h
      rw [← hops] at hentry
      exact declares_run ops hentry hver (.inl hopen)
    -- the streams of the manifest are the rows that were counted
    have hrow : ∀ st ∈ m.streams, ∃ row ∈ ver.streams,
        row.blobRef = Files.blobRef fileId version st.streamType.codepoint ∧
          row.chunkCount = st.chunkCount := by
      intro st hst
      have hmem := List.mem_map_of_mem (f := fun st : Stream =>
        (Files.blobRef fileId version st.streamType.codepoint, st.chunkCount)) hst
      rw [← hstreams] at hmem
      obtain ⟨row, hrow, heq⟩ := List.mem_map.mp hmem
      exact ⟨row, hrow, (Prod.mk.inj heq).1, (Prod.mk.inj heq).2⟩
    have hstream : ∀ row ∈ ver.streams, ∃ st ∈ m.streams,
        row.blobRef = Files.blobRef fileId version st.streamType.codepoint ∧
          row.chunkCount = st.chunkCount := by
      intro row hrow
      have hmem := List.mem_map_of_mem (f := fun row : StreamRow =>
        (row.blobRef, row.chunkCount)) hrow
      rw [hstreams] at hmem
      obtain ⟨st, hst, heq⟩ := List.mem_map.mp hmem
      exact ⟨st, hst, (Prod.mk.inj heq).1.symm, (Prod.mk.inj heq).2.symm⟩
    have hkeys : ∀ (code : UInt8) (index : UInt64),
        ⟨Files.blobRef fileId version code, index⟩ ∈ blobs ↔
          ⟨Files.blobRef fileId version code, index⟩ ∈ s.blobs := by
      intro code index
      exact mem_purged hpurged (not_mem_priorRefs h hentry)
    constructor
    · intro ⟨entry', ver', m', hentry', hver', hdecode', hcomplete⟩ hstrays
      obtain ⟨row, hrow, key, hkey, href, hindex⟩ := hstrays
      rw [AList.lookup_insert] at hentry'
      obtain rfl : entry.finalize version nowMs = entry' := Option.some.inj hentry'
      rw [FileEntry.lookup_finalize hnext, if_pos rfl, hver, Option.map_some] at hver'
      obtain rfl : ver.finalize = ver' := Option.some.inj hver'
      obtain rfl : m = m' := Except.ok.inj (hdecode.symm.trans hdecode')
      obtain ⟨ver', hver', hrow⟩ := hrow.streams hentry
      obtain rfl : ver = ver' := Option.some.inj (hver.symm.trans hver')
      obtain ⟨st, hst, hslot, hcount⟩ := hstream row hrow
      have hkey' : ⟨Files.blobRef fileId version st.streamType.codepoint, key.index⟩ ∈ s.blobs := by
        rw [← hslot, ← href]
        exact hkey
      have hlt := (hcomplete st hst key.index).mp ((hkeys _ _).mpr hkey')
      rw [← hcount] at hlt
      exact absurd hindex (UInt64.not_le.mpr hlt)
    · intro hnone
      refine ⟨entry.finalize version nowMs, ver.finalize, m, AList.lookup_insert _, ?_, hdecode,
        ?_⟩
      · rw [FileEntry.lookup_finalize hnext, if_pos rfl, hver, Option.map_some]
      · intro st hst index
        obtain ⟨row, hrow, hslot, hcount⟩ := hrow st hst
        have hbound : ∀ key ∈ s.blobs, key.blobRef = row.blobRef → key.index < row.chunkCount := by
          intro key hkey href
          refine UInt64.not_le.mp fun hindex => hnone ?_
          exact ⟨row, ⟨entry, ver, hentry, hver, hrow⟩, key, hkey, href, hindex⟩
        rw [hkeys, ← hslot, ← hcount]
        constructor
        · intro hkey
          exact hbound _ hkey rfl
        · intro hindex
          exact ChunkStore.mem_of_chunkCount hbound (hcounts row hrow) hindex

lemma not_strays_step (h : s.Reached) (hnone : ∀ fileId v, ¬ s.Strays fileId v)
    (hframes : ¬ request.1.Reframes maxFileBytes s)
    (houtcome : FileRequest.Outcome faults maxFileBytes s request t) (fileId : Id) (v : UInt64) :
    ¬ t.Strays fileId v := by
  intro ⟨row, hrow, key, hkey, href, hindex⟩
  cases houtcome with
  | refused _ => exact hnone fileId v ⟨row, hrow, key, hkey, href, hindex⟩
  | absent _ => exact hnone fileId v ⟨row, hrow, key, hkey, href, hindex⟩
  | staged hparse hquota hstage hopen =>
    rw [FileStore.hasRow_stage hstage] at hrow
    split at hrow
    · exact hframes ⟨_, _, hparse, hquota, hstage, hopen, row, hrow, key, hkey, href, hindex⟩
    · exact hnone fileId v ⟨row, hrow, key, hkey, href, hindex⟩
  | @put f _ version index _ body entry ver row' hentry hver _ _ hrow' _ hlt _ =>
    obtain hnew | hold := (AList.mem_insert _).mp hkey
    · -- the row of the chunk just stored is the one it was checked against
      subst hnew
      obtain ⟨entry', ver', hentry', hver', hrow⟩ := hrow
      obtain ⟨rfl, rfl⟩ := (h.slotted hentry hver).version_of_blobRef (h.slotted hentry' hver')
        hrow' hrow href
      obtain rfl : entry = entry' := Option.some.inj (hentry.symm.trans hentry')
      obtain rfl : ver = ver' := Option.some.inj (hver.symm.trans hver')
      obtain rfl := (h.slotted hentry hver).eq_of_blobRef hrow' hrow href
      exact absurd hindex (UInt64.not_le.mpr hlt)
    · exact hnone fileId v ⟨row, hrow, key, hold, href, hindex⟩
  | committed hentry _ _ _ hnext _ hpurged =>
    rw [FileStore.hasRow_finalize hentry hnext] at hrow
    exact hnone fileId v ⟨row, hrow.1, key, mem_of_mem_purged hpurged hkey, href, hindex⟩
  | discarded hentry _ _ hpurged =>
    rw [FileStore.hasRow_discardStaged hentry] at hrow
    exact hnone fileId v ⟨row, hrow.1, key, mem_of_mem_purged hpurged hkey, href, hindex⟩
  | deleted _ _ _ hpurged =>
    rw [FileStore.hasRow_eraseAll] at hrow
    exact hnone fileId v ⟨row, hrow.2, key, mem_of_mem_purged hpurged hkey, href, hindex⟩

end Completeness

/-- In every run of requests, one at a time and with any faults of the blob store, a finalize that
succeeds finds a complete version if and only if no chunk lies past the end of one of its streams.
None does in a run in which no version is staged with a stream that ends before a stored chunk. -/
theorem finalize_complete_iff {faults : Bool} {maxFileBytes : Option UInt64}
    {path : List (ServerState × FileRequest × Status)} {s t : ServerState} {fileId callerId : Id}
    {version nowMs : UInt64}
    (hrun : LabelledRun (FileRequest.Runs faults maxFileBytes) ⟨∅, ∅⟩ path s)
    (hfinal : FileRequest.Runs faults maxFileBytes s (.finalize fileId version callerId nowMs, .ok)
      t) :
    (t.Complete fileId version ↔ ¬ s.Strays fileId version) ∧
      ((∀ x ∈ path, ¬ x.2.1.Reframes maxFileBytes x.1) → ¬ s.Strays fileId version) := by
  have hreached : s.Reached := ServerState.reached_empty.run hrun
  refine ⟨Completeness.complete_iff hreached (FileRequest.outcome hfinal), fun hframes => ?_⟩
  have hinv : s.Reached ∧ ∀ fileId v, ¬ s.Strays fileId v := by
    refine @LabelledRun.invariant_of_steps _ _ _ _ _ _
      (fun s => s.Reached ∧ ∀ fileId v, ¬ s.Strays fileId v)
      (fun s request => ¬ request.1.Reframes maxFileBytes s)
      ⟨ServerState.reached_empty, ?_⟩ ?_ hrun hframes
    · intro fileId v ⟨row, _, key, hkey, _⟩
      exact absurd hkey (by simp)
    · intro s request t hinv hok hnext
      have houtcome := FileRequest.outcome hnext
      exact ⟨hinv.1.outcome houtcome,
        Completeness.not_strays_step hinv.1 hinv.2 hok houtcome⟩
  exact hinv.2 fileId version

/-- A file of one chunk, staged and uploaded. -/
def uploadsAll : List FileRequest :=
  [.stageChunks ⟨.replicate 16 2⟩ ⟨.replicate 16 1⟩ 1,
    .putChunk ⟨.replicate 16 2⟩ 1 .content 0 [] ⟨.replicate 16 1⟩]

/-- Its commit succeeds, and finds it complete. -/
theorem finalize_complete_uploadsAll : ((FileRequest.finalize ⟨.replicate 16 2⟩ 1
    ⟨.replicate 16 1⟩ 0).serve none (ServerState.serveAll none ⟨∅, ∅⟩ uploadsAll)).2.Complete
      ⟨.replicate 16 2⟩ 1 := by
  have hfinal := @FileRequest.runs_serve false none
    (ServerState.serveAll none ⟨∅, ∅⟩ uploadsAll)
    (.finalize ⟨.replicate 16 2⟩ 1 ⟨.replicate 16 1⟩ 0)
  have hstatus : ((FileRequest.finalize ⟨.replicate 16 2⟩ 1 ⟨.replicate 16 1⟩ 0).serve none
      (ServerState.serveAll none ⟨∅, ∅⟩ uploadsAll)).1 = .ok := by
    decide +kernel
  rw [hstatus] at hfinal
  have hcomplete := finalize_complete_iff (ServerState.run_serveAll uploadsAll) hfinal
  refine hcomplete.1.mpr (hcomplete.2 ?_)
  intro x hx
  obtain rfl | hx := List.mem_cons.mp hx
  · intro ⟨_, _, _, _, _, _, _, _, key, hkey, _⟩
    exact absurd hkey (by simp)
  · obtain rfl := List.mem_singleton.mp hx
    exact fun hframes => hframes

/-- A file of two chunks, of which the second is uploaded, and then staged again with one. -/
def reframes : List FileRequest :=
  [.stageChunks ⟨.replicate 16 2⟩ ⟨.replicate 16 1⟩ 2,
    .putChunk ⟨.replicate 16 2⟩ 1 .content 1 [] ⟨.replicate 16 1⟩,
    .stageChunks ⟨.replicate 16 2⟩ ⟨.replicate 16 1⟩ 1]

/-- The commit succeeds, although the only chunk that the manifest declares is missing. -/
theorem finalize_complete_reframes :
    ¬ ∀ path s t, LabelledRun (FileRequest.Runs false none) ⟨∅, ∅⟩ path s →
      FileRequest.Runs false none s
        (.finalize ⟨.replicate 16 2⟩ 1 ⟨.replicate 16 1⟩ 0, .ok) t →
      t.Complete ⟨.replicate 16 2⟩ 1 := by
  intro h
  have hfinal := @FileRequest.runs_serve false none
    (ServerState.serveAll none ⟨∅, ∅⟩ reframes)
    (.finalize ⟨.replicate 16 2⟩ 1 ⟨.replicate 16 1⟩ 0)
  have hserved : ((FileRequest.finalize ⟨.replicate 16 2⟩ 1 ⟨.replicate 16 1⟩ 0).serve none
      (ServerState.serveAll none ⟨∅, ∅⟩ reframes)).1 = .ok := by
    decide +kernel
  rw [hserved] at hfinal
  obtain ⟨entry, ver, m, hentry, hver, hdecode, hcomplete⟩ :=
    h _ _ _ (ServerState.run_serveAll reframes) hfinal
  -- the manifest declares one chunk, and chunk 0 is not there
  have hdeclared : ((((FileRequest.finalize ⟨.replicate 16 2⟩ 1 ⟨.replicate 16 1⟩ 0).serve none
      (ServerState.serveAll none ⟨∅, ∅⟩ reframes)).2.files.lookup ⟨.replicate 16 2⟩).bind
        fun entry => (entry.versions.lookup 1).bind fun ver =>
          (decode Manifest ver.manifestBytes).toOption.map fun m =>
            m.streams.map fun st => (st.streamType, st.chunkCount)) = some [(.content, 1)] := by
    decide +kernel
  have hmissing : ((FileRequest.finalize ⟨.replicate 16 2⟩ 1 ⟨.replicate 16 1⟩ 0).serve none
      (ServerState.serveAll none ⟨∅, ∅⟩ reframes)).2.blobs.lookup
        ⟨Files.blobRef ⟨.replicate 16 2⟩ 1 StreamType.content.codepoint, 0⟩ = none := by
    decide +kernel
  rw [hentry, Option.bind_some, hver, Option.bind_some, hdecode] at hdeclared
  have hstreams : m.streams.map (fun st => (st.streamType, st.chunkCount)) = [(.content, 1)] :=
    Option.some.inj hdeclared
  have hmem : (StreamType.content, (1 : UInt64)) ∈
      m.streams.map fun st => (st.streamType, st.chunkCount) := by
    rw [hstreams]
    exact List.mem_singleton.mpr rfl
  obtain ⟨st, hst, heq⟩ := List.mem_map.mp hmem
  obtain ⟨htype, hcount⟩ := Prod.mk.inj heq
  have hpresent := (hcomplete st hst 0).mpr (by rw [hcount]; decide)
  rw [htype] at hpresent
  exact AList.lookup_eq_none.mp hmissing hpresent

end MaxSecu
