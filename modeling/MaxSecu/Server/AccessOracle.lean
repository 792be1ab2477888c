import MaxSecu.Server.FileLifecycle
import MaxSecu.Server.Queries
import MaxSecu.Server.Requests

/-!
# What a user learns about the files of others

A file concerns a user who owns it or holds a wrap of one of its versions.  Two stores that agree on
the files that concern a user answer every query, re-share and deletion of theirs alike, and agree
afterwards, with one exception.  The deletion of a file that does not exist succeeds, and that of a
foreign file is refused, so the response tells which of the two it is (`access_oracle_iff`).
-/

namespace MaxSecu

open Program ExceptRules GuardedUpdate AssociationList

/-! ## Requests of one caller -/

inductive CallerRequest
  | getFile (fileId : Id) (selector : VersionSelector)
  | listFiles (filter : ListFilter)
  | listRecipients (fileId : Id)
  | addWrap (fileId : Id) (wrap : WrapInput) (nowMs : UInt64)
  /-- The request to delete a file: a discard and, where that finds it finalized, a deletion. -/
  | delete (fileId : Id)

inductive CallerResponse
  | getFile (r : Option FileView)
  | listFiles (r : FileListPage)
  | listRecipients (r : Option (List RecipientView))
  | addWrap (r : Except AddWrapError Unit)
  | delete (status : Status)

/-- The response to the caller, and the files after it.  A listing is made out to the caller. -/
def CallerRequest.serve (callerId : Id) (files : FileStore) :
    CallerRequest → CallerResponse × FileStore
  | getFile fileId selector => (.getFile (files.getFile fileId selector callerId), files)
  | listFiles filter => (.listFiles (files.listFiles { filter with callerId := callerId }), files)
  | listRecipients fileId => (.listRecipients (files.listRecipients fileId callerId), files)
  | addWrap fileId wrap nowMs =>
    let done := runFrom (FileStore.addWrap fileId wrap callerId nowMs) files
    (.addWrap done.1, done.2)
  | delete fileId =>
    let done := FileRequest.serve none ⟨files, ∅⟩ (.discard fileId callerId)
    (.delete done.1, done.2.files)

/-! ## Files that concern a user -/

/-- The user owns the file or holds a wrap of some version of it. -/
def FileEntry.Concerns (userId : Id) (entry : FileEntry) : Prop :=
  entry.ownerId = userId ∨
    ∃ v ver, entry.versions.lookup v = some ver ∧ ∃ w ∈ ver.wraps, w.recipientId = userId

/-- The same row with the same versions, in whatever order they are kept. -/
inductive FileEntry.Same (entry : FileEntry) : FileEntry → Prop
  | mk {versions : AList fun _ : UInt64 => VersionEntry} :
      (∀ v, entry.versions.lookup v = versions.lookup v) →
      Same entry { entry with versions := versions }

/-- What the two stores hold of a file: the same, or nothing that concerns the user. -/
inductive FileStore.AgreeOn (userId : Id) : Option FileEntry → Option FileEntry → Prop
  | same {entry entry' : FileEntry} : entry.Same entry' →
      AgreeOn userId (some entry) (some entry')
  | hidden {o o' : Option FileEntry} : (∀ entry ∈ o, ¬ entry.Concerns userId) →
      (∀ entry ∈ o', ¬ entry.Concerns userId) → AgreeOn userId o o'

/-- The stores are equal except for files that do not concern the user. -/
def FileStore.AgreeFor (userId : Id) (files files' : FileStore) : Prop :=
  ∀ fileId, AgreeOn userId (files.lookup fileId) (files'.lookup fileId)

namespace FileEntry.Same

variable {entry entry' : FileEntry} {userId : Id}

lemma ownerId (h : entry.Same entry') : entry.ownerId = entry'.ownerId := by
  cases h with
  | mk _ => rfl

lemma currentVersion (h : entry.Same entry') : entry.currentVersion = entry'.currentVersion := by
  cases h with
  | mk _ => rfl

lemma lookup (h : entry.Same entry') (v : UInt64) :
    entry.versions.lookup v = entry'.versions.lookup v := by
  cases h with
  | mk hversions => exact hversions v

lemma discardStaged (h : entry.Same entry') : entry.discardStaged.Same entry'.discardStaged := by
  cases h with
  | @mk versions hversions =>
    refine .mk fun v => ?_
    show _ = (FileEntry.discardStaged { entry with versions := versions }).versions.lookup v
    rw [FileEntry.lookup_discardStaged, FileEntry.lookup_discardStaged, hversions]

lemma addWrap (h : entry.Same entry') (wrap : WrapInput) (nowMs : UInt64) :
    (entry.addWrap wrap nowMs).Same (entry'.addWrap wrap nowMs) := by
  cases h with
  | @mk versions hversions =>
    show FileEntry.Same (entry.addWrap wrap nowMs) _
    refine .mk fun v => ?_
    show _ = (FileEntry.addWrap { entry with versions := versions } wrap nowMs).versions.lookup v
    rw [FileEntry.lookup_addWrap, FileEntry.lookup_addWrap, hversions, hversions]

lemma mem_deleteTargets {files files' : FileStore} {fileId targetId ownerId : Id}
    {target target' : FileEntry} (h : entry.Same entry') (htarget : target.Same target')
    (hentry : files.lookup fileId = some entry) (hentry' : files'.lookup fileId = some entry') :
    fileId ∈ files.deleteTargets targetId ownerId target ↔
      fileId ∈ files'.deleteTargets targetId ownerId target' := by
  rw [FileLifecycle.mem_deleteTargets hentry, FileLifecycle.mem_deleteTargets hentry']
  cases h with
  | mk _ =>
    cases htarget with
    | mk _ => exact Iff.rfl

end FileEntry.Same

/-! ## Queries -/

namespace AccessOracle

variable {files files' : FileStore} {entry entry' : FileEntry} {callerId fileId : Id}
  {o o' : Option FileEntry}

lemma recipientId_ne {v : UInt64} {ver : VersionEntry} (hhidden : ¬ entry.Concerns callerId)
    (hver : entry.versions.lookup v = some ver) : ∀ w ∈ ver.wraps, w.recipientId ≠ callerId := by
  intro w hw hid
  exact hhidden (.inr ⟨v, ver, hver, w, hw, hid⟩)

lemma getFile_hidden {selector : VersionSelector}
    (hhidden : ∀ entry ∈ files.lookup fileId, ¬ entry.Concerns callerId) :
    files.getFile fileId selector callerId = none := by
  rw [Option.eq_none_iff_forall_ne_some]
  intro view hview
  unfold FileStore.getFile at hview
  simp only [Option.bind_eq_bind, Option.bind_eq_some_iff, Option.ite_none_left_eq_some,
    Option.ite_none_right_eq_some] at hview
  obtain ⟨entry, hentry, _, ver, hver, _, my, hmy, _⟩ := hview
  exact recipientId_ne (hhidden entry hentry) hver my (List.mem_of_find?_eq_some hmy)
    (by simpa using List.find?_some hmy)

lemma getFile_congr {selector : VersionSelector}
    (h : FileStore.AgreeOn callerId (files.lookup fileId) (files'.lookup fileId)) :
    files.getFile fileId selector callerId = files'.getFile fileId selector callerId := by
  generalize ho : files.lookup fileId = o at h
  generalize ho' : files'.lookup fileId = o' at h
  cases h with
  | same hsame =>
    cases hsame with
    | mk hversions =>
      unfold FileStore.getFile
      simp only [ho, ho', Option.bind_eq_bind, Option.bind_some, hversions]
  | hidden hhidden hhidden' =>
    rw [getFile_hidden (ho.symm ▸ hhidden), getFile_hidden (ho'.symm ▸ hhidden')]

lemma listing_congr {filter : ListFilter}
    (h : FileStore.AgreeOn filter.callerId (files.lookup fileId) (files'.lookup fileId)) :
    (files.lookup fileId).bind (FileEntry.listing filter fileId) =
      (files'.lookup fileId).bind (FileEntry.listing filter fileId) := by
  have hhides : ∀ o : Option FileEntry, (∀ entry ∈ o, ¬ entry.Concerns filter.callerId) →
      o.bind (FileEntry.listing filter fileId) = none := by
    intro o hhidden
    cases o with
    | none => rfl
    | some entry =>
      show entry.listing filter fileId = none
      unfold FileEntry.listing
      cases hver : entry.versions.lookup entry.currentVersion with
      | none => rfl
      | some ver =>
        refine if_neg ?_
        intro ⟨_, _, hany, _⟩
        obtain ⟨w, hw, hid⟩ := List.any_eq_true.mp hany
        exact recipientId_ne (hhidden entry rfl) hver w hw (of_decide_eq_true hid)
  generalize files.lookup fileId = o at h
  generalize files'.lookup fileId = o' at h
  cases h with
  | same hsame =>
    cases hsame with
    | mk hversions =>
      simp only [Option.bind_some, FileEntry.listing, hversions]
  | hidden hhidden hhidden' => rw [hhides _ hhidden, hhides _ hhidden']

lemma listRecipients_congr
    (h : FileStore.AgreeOn callerId (files.lookup fileId) (files'.lookup fileId)) :
    files.listRecipients fileId callerId = files'.listRecipients fileId callerId := by
  have hhides : ∀ files : FileStore, (∀ entry ∈ files.lookup fileId, ¬ entry.Concerns callerId) →
      files.listRecipients fileId callerId = none := by
    intro files hhidden
    unfold FileStore.listRecipients
    cases hentry : files.lookup fileId with
    | none => rfl
    | some entry =>
      have howner : entry.ownerId ≠ callerId := fun h => hhidden entry hentry (.inl h)
      exact if_pos howner
  generalize ho : files.lookup fileId = o at h
  generalize ho' : files'.lookup fileId = o' at h
  cases h with
  | same hsame =>
    cases hsame with
    | mk hversions =>
      unfold FileStore.listRecipients
      simp only [ho, ho', Option.bind_eq_bind, Option.bind_some, hversions]
  | hidden hhidden hhidden' =>
    rw [hhides files (ho.symm ▸ hhidden), hhides files' (ho'.symm ▸ hhidden')]

/-! ## Updates -/

lemma agreeFor_insert (h : FileStore.AgreeFor callerId files files') (hsame : entry.Same entry') :
    FileStore.AgreeFor callerId (files.insert fileId entry) (files'.insert fileId entry') := by
  intro f
  rw [lookup_insert_eq, lookup_insert_eq]
  by_cases hf : f = fileId
  · rw [if_pos hf, if_pos hf]
    exact .same hsame
  · rw [if_neg hf, if_neg hf]
    exact h f

/-- The caller holds a wrap of the current version. -/
def holdsCurrent (callerId : Id) (entry : FileEntry) : Bool :=
  entry.currentVersion ≠ 0 ∧ (entry.versions.lookup entry.currentVersion).any fun ver =>
    ver.finalized ∧ ver.wraps.any fun w => w.recipientId = callerId

lemma holdsCurrent_hidden (hhidden : ¬ entry.Concerns callerId) :
    holdsCurrent callerId entry = false := by
  unfold holdsCurrent
  cases hver : entry.versions.lookup entry.currentVersion with
  | none => simp
  | some ver =>
    have hnone : (ver.wraps.any fun w => w.recipientId = callerId) = false := by
      rw [List.any_eq_false]
      intro w hw
      simpa using recipientId_ne hhidden hver w hw
    simp only [Option.any_some, hnone]
    simp

/-- A re-share asks for a wrap of the caller's in the current version, and for nothing else. -/
lemma runFrom_addWrap {wrap : WrapInput} {nowMs : UInt64} :
    runFrom (FileStore.addWrap fileId wrap callerId nowMs) files =
      if wrap.isReshareBy callerId = true then
        (files.lookup fileId).elim (.error .noAccess, files) fun entry =>
          if holdsCurrent callerId entry = true then
            (.ok (), files.insert fileId (entry.addWrap wrap nowMs))
          else
            (.error .noAccess, files)
      else
        (.error .badRequest, files) := by
  unfold FileStore.addWrap
  rw [runFrom_failIf_bind]
  by_cases hreshare : wrap.isReshareBy callerId = true
  · rw [if_neg (not_not.mpr hreshare), if_pos hreshare, runFrom_get_bind, runFrom_orFail_bind]
    cases files.lookup fileId with
    | none => rfl
    | some entry =>
      simp only [Option.elim_some, runFrom_failIf_bind, runFrom_orFail_bind]
      unfold holdsCurrent
      by_cases hzero : entry.currentVersion = 0
      · simp [hzero]
      · rw [if_neg hzero]
        cases entry.versions.lookup entry.currentVersion with
        | none => simp
        | some ver =>
          rw [Option.elim_some, Option.any_some]
          by_cases hfinal : ver.finalized = true
          · rw [if_neg (not_not.mpr hfinal)]
            by_cases hany : (ver.wraps.any fun w => w.recipientId = callerId) = true
            · rw [if_neg (not_not.mpr hany), if_pos (by simp only [hfinal, hany]; simp [hzero])]
              rfl
            · rw [if_pos hany, if_neg (by simp only [hany]; simp)]
          · rw [if_pos hfinal, if_neg (by simp [hfinal])]
  · rw [if_pos hreshare, if_neg hreshare]

lemma addWrap_hidden {wrap : WrapInput} {nowMs : UInt64}
    (hhidden : ∀ entry ∈ files.lookup fileId, ¬ entry.Concerns callerId) :
    runFrom (FileStore.addWrap fileId wrap callerId nowMs) files =
      (.error (if wrap.isReshareBy callerId = true then .noAccess else .badRequest), files) := by
  rw [runFrom_addWrap]
  by_cases hreshare : wrap.isReshareBy callerId = true
  · rw [if_pos hreshare, if_pos hreshare]
    cases hentry : files.lookup fileId with
    | none => rfl
    | some entry => simp [holdsCurrent_hidden (hhidden entry hentry)]
  · rw [if_neg hreshare, if_neg hreshare]

lemma addWrap_congr {wrap : WrapInput} {nowMs : UInt64}
    (h : FileStore.AgreeFor callerId files files') :
    (runFrom (FileStore.addWrap fileId wrap callerId nowMs) files).1 =
        (runFrom (FileStore.addWrap fileId wrap callerId nowMs) files').1 ∧
      FileStore.AgreeFor callerId
        (runFrom (FileStore.addWrap fileId wrap callerId nowMs) files).2
        (runFrom (FileStore.addWrap fileId wrap callerId nowMs) files').2 := by
  have hfile := h fileId
  generalize ho : files.lookup fileId = o at hfile
  generalize ho' : files'.lookup fileId = o' at hfile
  cases hfile with
  | @same entry entry' hsame =>
    have hholds : holdsCurrent callerId entry' = holdsCurrent callerId entry := by
      unfold holdsCurrent
      rw [hsame.currentVersion, hsame.lookup]
    rw [runFrom_addWrap, runFrom_addWrap, ho, ho', Option.elim_some, Option.elim_some, hholds]
    by_cases hreshare : wrap.isReshareBy callerId = true
    · rw [if_pos hreshare, if_pos hreshare]
      by_cases hholder : holdsCurrent callerId entry = true
      · rw [if_pos hholder, if_pos hholder]
        exact ⟨rfl, agreeFor_insert h (hsame.addWrap wrap nowMs)⟩
      · rw [if_neg hholder, if_neg hholder]
        exact ⟨rfl, h⟩
    · rw [if_neg hreshare, if_neg hreshare]
      exact ⟨rfl, h⟩
  | hidden hhidden hhidden' =>
    rw [addWrap_hidden (ho.symm ▸ hhidden), addWrap_hidden (ho'.symm ▸ hhidden')]
    exact ⟨rfl, h⟩

/-! ## Deletion -/

/-- What the deletion of a file answers, and what it leaves. -/
def deleteReply (callerId fileId : Id) (files : FileStore) : Status × FileStore :=
  (files.lookup fileId).elim (.noContent, files) fun entry =>
    if entry.ownerId ≠ callerId then
      (.notFound, files)
    else if 1 ≤ entry.currentVersion then
      (.noContent, eraseAll (files.deleteTargets fileId callerId entry) files)
    else
      (.noContent, files.insert fileId entry.discardStaged)

lemma runFrom_discardUnfinalized :
    runFrom (FileStore.discardUnfinalized fileId callerId) files =
      (files.lookup fileId).elim (.ok [], files) fun entry =>
        if entry.ownerId ≠ callerId then
          (.error .notFound, files)
        else if 1 ≤ entry.currentVersion then
          (.error .hasFinalizedVersion, files)
        else
          (.ok entry.stagedBlobRefs, files.insert fileId entry.discardStaged) := by
  unfold FileStore.discardUnfinalized
  rw [runFrom_get_bind]
  cases files.lookup fileId with
  | none => rfl
  | some entry =>
    simp only [runFrom_failIf_bind]
    rfl

/-- The handler answers so whatever the blob store holds, and whichever of its calls fail. -/
theorem runs_delete {faults : Bool} {maxFileBytes : Option UInt64} {s t : ServerState}
    {status : Status}
    (h : FileRequest.Runs faults maxFileBytes s (.discard fileId callerId, status) t) :
    (status, t.files) = deleteReply callerId fileId s.files := by
  have hwp : wp (ServerCall.Step faults) (Requests.discardFile fileId callerId)
      (fun status t => (status, t.files) = deleteReply callerId fileId s.files) s := by
    unfold Requests.discardFile deleteReply
    rw [wp_bind, Requests.wp_perform_store (c := .discardUnfinalized fileId callerId) fun _ h => h]
    simp only [ServerCall.apply, runFrom_discardUnfinalized]
    cases hentry : s.files.lookup fileId with
    | none => rfl
    | some entry =>
      simp only [Option.elim_some]
      by_cases howner : entry.ownerId = callerId
      · rw [if_neg (not_not.mpr howner), if_neg (not_not.mpr howner)]
        by_cases hfinal : 1 ≤ entry.currentVersion
        · have hdelete := FileStore.deleteFile_eq_ok.mpr ⟨entry, hentry, howner, rfl, rfl⟩
          rw [if_pos hfinal, if_pos hfinal, wp_bind,
            Requests.wp_perform_store (c := .deleteFile fileId callerId) fun _ h => h]
          simp only [ServerCall.apply, hdelete]
          rw [wp_bind, FileStore.removeAll_snd]
          exact Requests.wp_deleteStreams fun blobs _ => rfl
        · rw [if_neg hfinal, if_neg hfinal, wp_bind]
          exact Requests.wp_deleteStreams fun blobs _ => rfl
      · rw [if_pos howner, if_pos howner]
        rfl
  have hreply := wp_sound h hwp
  exact hreply

lemma serve_delete : (CallerRequest.delete fileId).serve callerId files =
    (.delete (deleteReply callerId fileId files).1, (deleteReply callerId fileId files).2) := by
  have hruns := @FileRequest.runs_serve false none ⟨files, ∅⟩ (.discard fileId callerId)
  rw [← runs_delete hruns]
  rfl

lemma deleteReply_hidden (hhidden : ∀ entry ∈ files.lookup fileId, ¬ entry.Concerns callerId) :
    deleteReply callerId fileId files =
      (if (files.lookup fileId).isSome then .notFound else .noContent, files) := by
  unfold deleteReply
  cases hentry : files.lookup fileId with
  | none => rfl
  | some entry =>
    have howner : entry.ownerId ≠ callerId := fun h => hhidden entry hentry (.inl h)
    simp [howner]

lemma agreeFor_eraseAll (h : FileStore.AgreeFor callerId files files') {targets targets' : List Id}
    (htargets : ∀ f e e', files.lookup f = some e → files'.lookup f = some e' → e.Same e' →
      (f ∈ targets ↔ f ∈ targets')) :
    FileStore.AgreeFor callerId (eraseAll targets files) (eraseAll targets' files') := by
  have hhides : ∀ (p : Prop) [Decidable p] (o : Option FileEntry),
      (∀ entry ∈ o, ¬ entry.Concerns callerId) →
      ∀ entry ∈ if p then none else o, ¬ entry.Concerns callerId := by
    intro p _ o hhidden entry hentry
    by_cases hp : p
    · simp [hp] at hentry
    · rw [if_neg hp] at hentry
      exact hhidden entry hentry
  intro f
  rw [lookup_eraseAll, lookup_eraseAll]
  have hfile := h f
  generalize ho : files.lookup f = o at hfile
  generalize ho' : files'.lookup f = o' at hfile
  cases hfile with
  | same hsame =>
    by_cases hf : f ∈ targets
    · rw [if_pos hf, if_pos ((htargets f _ _ ho ho' hsame).mp hf)]
      exact .hidden (by simp) (by simp)
    · rw [if_neg hf, if_neg ((htargets f _ _ ho ho' hsame).not.mp hf)]
      exact .same hsame
  | hidden hhidden hhidden' => exact .hidden (hhides _ _ hhidden) (hhides _ _ hhidden')

lemma deleteReply_same (h : FileStore.AgreeFor callerId files files') (hsame : entry.Same entry')
    (hentry : files.lookup fileId = some entry) (hentry' : files'.lookup fileId = some entry') :
    (deleteReply callerId fileId files).1 = (deleteReply callerId fileId files').1 ∧
      FileStore.AgreeFor callerId (deleteReply callerId fileId files).2
        (deleteReply callerId fileId files').2 := by
  unfold deleteReply
  rw [hentry, hentry', Option.elim_some, Option.elim_some, ← hsame.ownerId, ← hsame.currentVersion]
  by_cases howner : entry.ownerId = callerId
  · rw [if_neg (not_not.mpr howner), if_neg (not_not.mpr howner)]
    by_cases hfinal : 1 ≤ entry.currentVersion
    · rw [if_pos hfinal, if_pos hfinal]
      exact ⟨rfl, agreeFor_eraseAll h fun f e e' he he' hfile =>
        hfile.mem_deleteTargets hsame he he'⟩
    · rw [if_neg hfinal, if_neg hfinal]
      exact ⟨rfl, agreeFor_insert h hsame.discardStaged⟩
  · rw [if_pos howner, if_pos howner]
    exact ⟨rfl, h⟩

lemma deleteReply_agree (h : FileStore.AgreeFor callerId files files') :
    ((deleteReply callerId fileId files).1 = (deleteReply callerId fileId files').1 ↔
      (files.lookup fileId).isSome = (files'.lookup fileId).isSome) ∧
      FileStore.AgreeFor callerId (deleteReply callerId fileId files).2
        (deleteReply callerId fileId files').2 := by
  have hfile := h fileId
  generalize ho : files.lookup fileId = o at hfile
  generalize ho' : files'.lookup fileId = o' at hfile
  cases hfile with
  | same hsame =>
    obtain ⟨hreply, hafter⟩ := deleteReply_same h hsame ho ho'
    exact ⟨by simp [hreply], hafter⟩
  | hidden hhidden hhidden' =>
    rw [deleteReply_hidden (ho.symm ▸ hhidden), deleteReply_hidden (ho'.symm ▸ hhidden'), ho, ho']
    refine ⟨?_, h⟩
    cases o with
    | none => cases o' <;> simp
    | some _ => cases o' <;> simp

end AccessOracle

/-- Between stores that agree on the files that concern the caller, a request is answered alike and
leaves stores that agree, if and only if it is not to delete a file that exists in one of them
only. -/
theorem access_oracle_iff {files files' : FileStore} {callerId : Id}
    (h : files.AgreeFor callerId files') (request : CallerRequest) :
    ((request.serve callerId files).1 = (request.serve callerId files').1 ∧
      (request.serve callerId files).2.AgreeFor callerId (request.serve callerId files').2) ↔
    ∀ fileId, request = .delete fileId →
      (files.lookup fileId).isSome = (files'.lookup fileId).isSome := by
  cases request with
  | delete fileId =>
    obtain ⟨hreply, hafter⟩ := @AccessOracle.deleteReply_agree _ _ callerId fileId h
    rw [AccessOracle.serve_delete, AccessOracle.serve_delete]
    simp [hreply, hafter]
  | getFile fileId selector =>
    have hfile := @AccessOracle.getFile_congr _ _ callerId _ selector (h fileId)
    simp [CallerRequest.serve, hfile, h]
  | listFiles filter =>
    have hpage : files.listFiles { filter with callerId := callerId } =
        files'.listFiles { filter with callerId := callerId } := by
      unfold FileStore.listFiles
      rw [FileStore.listing_congr rfl fun f =>
        AccessOracle.listing_congr (h f)]
    simp [CallerRequest.serve, hpage, h]
  | listRecipients fileId =>
    have hrecipients := AccessOracle.listRecipients_congr (h fileId)
    simp [CallerRequest.serve, hrecipients, h]
  | addWrap fileId wrap nowMs =>
    obtain ⟨hreply, hafter⟩ :=
      @AccessOracle.addWrap_congr _ _ callerId fileId wrap nowMs h
    simp [CallerRequest.serve, hreply, hafter]

/-- A user staged a file, with a wrap for recovery and no other. -/
def foreignFile : FileEntry :=
  let p := CheckedStage.plainParsed ⟨.replicate 16 2⟩ ⟨.replicate 16 1⟩ 1
  (FileEntry.create p ⟨⟨.replicate 16 1⟩, 1, [], .replicate 64 0⟩ 0).stage p

lemma foreignFile_hidden : ¬ foreignFile.Concerns ⟨.replicate 16 3⟩ := by
  intro hconcerns
  obtain howner | ⟨v, ver, hver, w, hw, hid⟩ := hconcerns
  · exact absurd howner (by decide)
  · unfold foreignFile at hver
    rw [FileEntry.lookup_stage] at hver
    split at hver
    · rw [← Option.some.inj hver] at hw
      rw [List.mem_singleton.mp hw] at hid
      exact absurd hid (by decide)
    · exact absurd hver (by simp [FileEntry.create])

lemma agreeFor_foreignFile : FileStore.AgreeFor ⟨.replicate 16 3⟩
    (AList.insert ⟨.replicate 16 2⟩ foreignFile ∅) ∅ := by
  intro f
  refine .hidden ?_ (by simp)
  intro entry hentry
  rw [lookup_insert_eq] at hentry
  by_cases hf : f = ⟨.replicate 16 2⟩
  · rw [if_pos hf] at hentry
    rw [← Option.some.inj hentry]
    exact foreignFile_hidden
  · rw [if_neg hf] at hentry
    exact absurd hentry (by simp)

/-- Reading a foreign file is answered like reading one that does not exist. -/
theorem access_oracle_foreignFile :
    ((CallerRequest.getFile ⟨.replicate 16 2⟩ (.specific 1)).serve ⟨.replicate 16 3⟩
        (AList.insert ⟨.replicate 16 2⟩ foreignFile ∅)).1 =
      ((CallerRequest.getFile ⟨.replicate 16 2⟩ (.specific 1)).serve ⟨.replicate 16 3⟩ ∅).1 :=
  ((access_oracle_iff agreeFor_foreignFile _).mpr (by simp)).1

/-- Deleting it is not. -/
theorem access_oracle_deletesForeign :
    ¬ ∀ (files files' : FileStore) (callerId : Id), files.AgreeFor callerId files' →
      ∀ request : CallerRequest,
        (request.serve callerId files).1 = (request.serve callerId files').1 ∧
          (request.serve callerId files).2.AgreeFor callerId (request.serve callerId files').2 := by
  intro h
  have hreply := (h _ _ _ agreeFor_foreignFile (.delete ⟨.replicate 16 2⟩)).1
  rw [AccessOracle.serve_delete, AccessOracle.serve_delete] at hreply
  have hstatus := CallerResponse.delete.inj hreply
  exact absurd hstatus (by decide +kernel)

end MaxSecu
