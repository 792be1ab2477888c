import MaxSecu.Client.GrantChain
import MaxSecu.Server.MemoryStore

/-!
# The grants that the server serves with a wrap

With a caller's wrap the server serves the grants it descends from, as `ancestorChain` finds them by
the rows' `granted_by`.  The client walks the signed grants on its own.  The two walks are of the
same graph, and the client misses nothing: it accepts what is served exactly if it accepts all the
grants of the version that could take part in a chain (`ancestorChain_sufficient`).
-/

namespace MaxSecu

open ExceptRules

/-- The grant of a wrap and its signature, as they are served. -/
def WrapInput.grant (w : WrapInput) : List UInt8 × Bytes 64 := (w.grantBytes, w.grantSig)

/-- The row repeats granter and recipient of the grant in it. -/
structure WrapInput.StoresGrant (w : WrapInput) (g : Grant) : Prop where
  decoded : decode Grant w.grantBytes = .ok g
  grantedBy : g.grantedBy = w.grantedBy
  recipientId : g.recipientId = w.recipientId

/-- The client takes the grant as an ancestor: it is for this file, version and key, to a user. -/
def WrapInput.isAncestor (fileId : Id) (version : UInt64) (dekCommit : Hash) (w : WrapInput) :
    Bool :=
  match decode Grant w.grantBytes with
  | .ok g => (checkAncestorFields g fileId version dekCommit).isOk
  | .error _ => false

namespace AncestorChain

/-- The wraps on the way that `ancestorWalk` takes. -/
def walkWraps (wraps : List WrapInput) (author : Id) : ℕ → List Id → Id → List WrapInput
  | 0, _, _ => []
  | rounds + 1, seen, grantedBy =>
    if grantedBy = author ∨ grantedBy ∈ seen then
      []
    else
      match wraps.find? fun w => w.recipientId = grantedBy with
      | none => []
      | some anc => anc :: walkWraps wraps author rounds (grantedBy :: seen) anc.grantedBy

variable {wraps : List WrapInput} {author grantedBy : Id} {rounds : ℕ} {seen : List Id}
  {w w' : WrapInput} {fileId : Id} {version : UInt64} {dekCommit : Hash}

lemma ancestorWalk_eq : ancestorWalk wraps author rounds seen grantedBy =
    (walkWraps wraps author rounds seen grantedBy).map WrapInput.grant := by
  induction rounds generalizing seen grantedBy with
  | zero => rfl
  | succ rounds ih =>
    unfold ancestorWalk walkWraps
    by_cases hstop : grantedBy = author ∨ grantedBy ∈ seen
    · rw [if_pos hstop, if_pos hstop]
      rfl
    · rw [if_neg hstop, if_neg hstop]
      cases wraps.find? fun w => w.recipientId = grantedBy with
      | none => rfl
      | some anc =>
        show _ :: _ = _ :: _
        rw [ih]
        rfl

lemma walkWraps_spec :
    (∀ w ∈ walkWraps wraps author rounds seen grantedBy, w ∈ wraps ∧ w.recipientId ∉ seen) ∧
      ((walkWraps wraps author rounds seen grantedBy).map WrapInput.recipientId).Nodup := by
  induction rounds generalizing seen grantedBy with
  | zero => exact ⟨by simp [walkWraps], List.nodup_nil⟩
  | succ rounds ih =>
    unfold walkWraps
    by_cases hstop : grantedBy = author ∨ grantedBy ∈ seen
    · rw [if_pos hstop]
      exact ⟨by simp, List.nodup_nil⟩
    · rw [if_neg hstop]
      cases hfind : wraps.find? fun w => w.recipientId = grantedBy with
      | none => exact ⟨by simp, List.nodup_nil⟩
      | some anc =>
        have hid : anc.recipientId = grantedBy := by simpa using List.find?_some hfind
        obtain ⟨hrest, hnodup⟩ := @ih anc.grantedBy (grantedBy :: seen)
        constructor
        · intro w hw
          obtain rfl | hw := List.mem_cons.mp hw
          · rw [hid]
            exact ⟨List.mem_of_find?_eq_some hfind, fun h => hstop (.inr h)⟩
          · obtain ⟨hmem, hnew⟩ := hrest w hw
            exact ⟨hmem, fun h => hnew (List.mem_cons_of_mem _ h)⟩
        · show (_ :: _).Nodup
          rw [List.nodup_cons]
          refine ⟨?_, hnodup⟩
          rw [hid, List.mem_map]
          intro ⟨w, hw, hsame⟩
          exact (hrest w hw).2 (by rw [hsame]; exact List.mem_cons_self ..)

/-! ## What the client indexes -/

/-- The grant to a user, among those of the wraps. -/
def grantTo (wraps : List WrapInput) (id : Id) : Option (Grant × Bytes 64) :=
  (wraps.find? fun w => w.recipientId = id).bind fun w =>
    (decode Grant w.grantBytes).toOption.map fun g => (g, w.grantSig)

lemma grantTo_cons : grantTo (w :: wraps) fileId =
    if w.recipientId = fileId then
      (decode Grant w.grantBytes).toOption.map fun g => (g, w.grantSig)
    else grantTo wraps fileId := by
  unfold grantTo
  rw [List.find?_cons]
  by_cases hid : w.recipientId = fileId
  · simp [hid]
  · simp [hid]

lemma foldlM_grantTo {index : Id → Option (Grant × Bytes 64)}
    {f : (Id → Option (Grant × Bytes 64)) → List UInt8 × Bytes 64 →
      Except DownloadError (Id → Option (Grant × Bytes 64))} {p : WrapInput → Bool}
    (hf : ∀ w ∈ wraps, ∀ before after, f before w.grant = .ok after ↔ p w = true ∧
      after = fun id => (grantTo [w] id).or (before id))
    (hunique : (wraps.map WrapInput.recipientId).Nodup)
    (before : Id → Option (Grant × Bytes 64)) :
    (wraps.map WrapInput.grant).foldlM f before = .ok index ↔
      (∀ w ∈ wraps, p w = true) ∧ index = fun id => (grantTo wraps id).or (before id) := by
  induction wraps generalizing before with
  | nil =>
    rw [List.map_nil, foldlM_nil_eq_ok]
    show before = index ↔ (∀ w ∈ [], p w = true) ∧ index = before
    constructor
    · intro hindex
      exact ⟨by simp, hindex.symm⟩
    · intro ⟨_, hindex⟩
      exact hindex.symm
  | cons w wraps ih =>
    obtain ⟨hnew, hunique⟩ := List.nodup_cons.mp hunique
    -- where the first wrap is the recipient's, no later one is
    have hor : ∀ id, (grantTo wraps id).or ((grantTo [w] id).or (before id)) =
        (grantTo (w :: wraps) id).or (before id) := by
      intro id
      rw [grantTo_cons, grantTo_cons]
      by_cases hid : w.recipientId = id
      · have hnone : grantTo wraps id = none := by
          unfold grantTo
          rw [List.find?_eq_none.mpr, Option.bind_none]
          intro w' hw' hid'
          have hsame : w'.recipientId = w.recipientId := (of_decide_eq_true hid').trans hid.symm
          exact hnew (hsame ▸ List.mem_map_of_mem hw')
        rw [if_pos hid, if_pos hid, hnone, Option.none_or]
      · rw [if_neg hid, if_neg hid]
        rfl
    rw [List.map_cons, foldlM_cons_eq_ok]
    simp only [hf w (List.mem_cons_self ..)]
    constructor
    · intro ⟨mid, ⟨hp, hmid⟩, hrest⟩
      obtain ⟨hall, hindex⟩ :=
        (ih (fun w' hw' => hf w' (List.mem_cons_of_mem _ hw')) hunique mid).mp hrest
      refine ⟨List.forall_mem_cons.mpr ⟨hp, hall⟩, ?_⟩
      rw [hindex, hmid]
      exact funext hor
    · intro ⟨hall, hindex⟩
      obtain ⟨hp, hall⟩ := List.forall_mem_cons.mp hall
      refine ⟨_, ⟨hp, rfl⟩,
        (ih (fun w' hw' => hf w' (List.mem_cons_of_mem _ hw')) hunique _).mpr ⟨hall, ?_⟩⟩
      rw [hindex]
      exact (funext hor).symm

/-- The client indexes the grants by their recipients, if each of them passes as an ancestor. -/
lemma ancestorsByRecipient_eq_ok {byRecipient : Id → Option (Grant × Bytes 64)}
    (hstored : ∀ w ∈ wraps, ∃ g, w.StoresGrant g)
    (hunique : (wraps.map WrapInput.recipientId).Nodup) :
    ancestorsByRecipient (wraps.map WrapInput.grant) fileId version dekCommit = .ok byRecipient ↔
      (∀ w ∈ wraps, w.isAncestor fileId version dekCommit = true) ∧
        byRecipient = grantTo wraps := by
  unfold ancestorsByRecipient
  rw [foldlM_grantTo (p := WrapInput.isAncestor fileId version dekCommit) ?_ hunique]
  · simp
  · intro w hw before after
    obtain ⟨g, hg⟩ := hstored w hw
    have hgrantTo : (fun id => (grantTo [w] id).or (before id)) =
        Function.update before g.recipientId (some (g, w.grantSig)) := by
      funext id
      rw [grantTo_cons, hg.decoded, hg.recipientId, Function.update_apply]
      by_cases hid : w.recipientId = id
      · rw [if_pos hid, if_pos hid.symm]
        rfl
      · rw [if_neg hid, if_neg (Ne.symm hid)]
        rfl
    unfold WrapInput.isAncestor WrapInput.grant
    simp only [hg.decoded, hgrantTo, bind_eq_ok, mapError_eq_ok, pure_eq_ok, isOk_iff]
    constructor
    · intro ⟨g', hg', _, hcheck, hafter⟩
      obtain rfl : g = g' := Except.ok.inj hg'
      exact ⟨hcheck, hafter.symm⟩
    · intro ⟨hcheck, hafter⟩
      exact ⟨g, rfl, _, hcheck, hafter.symm⟩

lemma find?_recipientId (hunique : (wraps.map WrapInput.recipientId).Nodup) (hw : w ∈ wraps) :
    (wraps.find? fun w' => w'.recipientId = w.recipientId) = some w :=
  AssociationList.find?_of_nodup_map hunique hw

lemma grantTo_eq_some (hunique : (wraps.map WrapInput.recipientId).Nodup) {g : Grant}
    {sig : Bytes 64} {id : Id} : grantTo wraps id = some (g, sig) ↔
      ∃ w ∈ wraps, w.recipientId = id ∧ decode Grant w.grantBytes = .ok g ∧ w.grantSig = sig := by
  unfold grantTo
  constructor
  · intro h
    obtain ⟨w, hfind, hgrant⟩ := Option.bind_eq_some_iff.mp h
    refine ⟨w, List.mem_of_find?_eq_some hfind, by simpa using List.find?_some hfind, ?_⟩
    cases hdecode : decode Grant w.grantBytes with
    | error e =>
      rw [hdecode] at hgrant
      exact absurd hgrant (by simp [Except.toOption])
    | ok g' =>
      rw [hdecode] at hgrant
      obtain ⟨rfl, hsig⟩ := Prod.mk.inj (Option.some.inj hgrant)
      exact ⟨rfl, hsig⟩
  · intro ⟨w, hw, hid, hdecode, hsig⟩
    rw [← hid, find?_recipientId hunique hw, Option.bind_some, hdecode, ← hsig]
    rfl

/-! ## The two walks -/

section Walks

variable [Ed25519] {authorSigPub : Bytes 32} {granterSigPub : Id → Option (Bytes 32)}
  {through : List Id} {g : Grant} {sig : Bytes 64}

/-- Along a chain of the client's the server meets the wraps of its re-sharers, in their order, as
long as it has rounds left. -/
lemma walkWraps_of_chain {served : List WrapInput} (hserved : served.Sublist wraps)
    (hstored : ∀ w ∈ wraps, ∃ g, w.StoresGrant g)
    (hunique : (wraps.map WrapInput.recipientId).Nodup)
    (h : PossessionChain (grantTo served) author authorSigPub granterSigPub through g sig)
    (hlength : through.length ≤ rounds) (hnodup : through.Nodup)
    (hnew : ∀ id ∈ through, id ∉ seen) :
    (walkWraps wraps author rounds seen g.grantedBy).map WrapInput.recipientId = through ∧
      ∀ w ∈ walkWraps wraps author rounds seen g.grantedBy, w ∈ served := by
  induction h generalizing rounds seen with
  | author hgranter _ =>
    cases rounds with
    | zero => exact ⟨rfl, by simp [walkWraps]⟩
    | succ rounds =>
      unfold walkWraps
      rw [if_pos (.inl hgranter)]
      exact ⟨rfl, by simp⟩
  | @reshare g next sig nextSig pub through hgranter hnext _ _ _ ih =>
    obtain ⟨w, hw, hid, hdecode, -⟩ :=
      (grantTo_eq_some (hunique.sublist (hserved.map _))).mp hnext
    obtain ⟨next', hstore⟩ := hstored w (hserved.subset hw)
    obtain rfl : next = next' := Except.ok.inj (hdecode.symm.trans hstore.decoded)
    obtain ⟨hfirst, hnodup⟩ := List.nodup_cons.mp hnodup
    cases rounds with
    | zero => exact absurd hlength (by simp)
    | succ rounds =>
      have hgo : ¬ (g.grantedBy = author ∨ g.grantedBy ∈ seen) := by
        rw [not_or]
        exact ⟨hgranter, hnew _ (List.mem_cons_self ..)⟩
      have hfind : (wraps.find? fun w => w.recipientId = g.grantedBy) = some w := by
        rw [← hid]
        exact find?_recipientId hunique (hserved.subset hw)
      have hnew' : ∀ id ∈ through, id ∉ g.grantedBy :: seen := by
        intro id hmem hseen
        obtain rfl | hseen := List.mem_cons.mp hseen
        · exact hfirst hmem
        · exact hnew id (List.mem_cons_of_mem _ hmem) hseen
      obtain ⟨hrest, hall⟩ := ih (Nat.le_of_succ_le_succ hlength) hnodup hnew'
      unfold walkWraps
      rw [if_neg hgo, hfind]
      rw [hstore.grantedBy] at hrest hall
      constructor
      · show _ :: _ = _ :: _
        rw [hrest, hid]
      · exact List.forall_mem_cons.mpr ⟨hw, hall⟩

end Walks

variable [Ed25519] {leafWrap : WrapInput} {leaf : Grant} {authorSigPub : Bytes 32}
  {granterSigPub : Id → Option (Bytes 32)}

lemma verify_ancestorChain_iff (hunique : (wraps.map WrapInput.recipientId).Nodup)
    (hstored : ∀ w ∈ wraps, ∃ g, w.StoresGrant g) (hmem : leafWrap ∈ wraps)
    (hleaf : decode Grant leafWrap.grantBytes = .ok leaf) :
    verifyGrantChain leaf leafWrap.grantSig (ancestorChain wraps leafWrap author) fileId version
        dekCommit author authorSigPub granterSigPub none = .ok () ↔
      verifyGrantChain leaf leafWrap.grantSig
        ((wraps.filter (WrapInput.isAncestor fileId version dekCommit)).map WrapInput.grant) fileId
        version dekCommit author authorSigPub granterSigPub none = .ok () := by
  have hgranter : leafWrap.grantedBy = leaf.grantedBy := by
    obtain ⟨leaf', hstore⟩ := hstored leafWrap hmem
    obtain rfl : leaf = leaf' := Except.ok.inj (hleaf.symm.trans hstore.decoded)
    exact hstore.grantedBy.symm
  unfold ancestorChain
  rw [ancestorWalk_eq, hgranter]
  obtain ⟨hwalk, hwalkUnique⟩ := @walkWraps_spec wraps author leaf.grantedBy
    MAX_ANCESTOR_CHAIN []
  generalize hchain : walkWraps wraps author MAX_ANCESTOR_CHAIN [] leaf.grantedBy =
    chain at hwalk hwalkUnique ⊢
  have hsub := List.filter_sublist
    (p := WrapInput.isAncestor fileId version dekCommit) (l := wraps)
  generalize hserved : wraps.filter (WrapInput.isAncestor fileId version dekCommit) = served
    at hsub ⊢
  have hservedUnique := hunique.sublist (hsub.map WrapInput.recipientId)
  have hpasses : ∀ w, w ∈ served ↔ w ∈ wraps ∧ w.isAncestor fileId version dekCommit = true := by
    intro w
    rw [← hserved, List.mem_filter]
  rw [← isOk_iff, ← isOk_iff, verifyGrantChain_isOk_iff, verifyGrantChain_isOk_iff]
  simp only [ancestorsByRecipient_eq_ok (fun w hw => hstored w (hwalk w hw).1)
      hwalkUnique,
    ancestorsByRecipient_eq_ok (fun w hw => hstored w (hsub.subset hw))
      hservedUnique]
  constructor
  · intro ⟨_, through, ⟨hall, hindex⟩, hpossession, hlength, hnodup⟩
    rw [hindex] at hpossession
    refine ⟨_, through, ⟨fun w hw => ((hpasses w).mp hw).2, rfl⟩, hpossession.mono ?_, hlength,
      hnodup⟩
    intro id _ r hr
    obtain ⟨w, hw, hgrant⟩ := (grantTo_eq_some hwalkUnique).mp hr
    exact (grantTo_eq_some hservedUnique).mpr
      ⟨w, (hpasses w).mpr ⟨(hwalk w hw).1, hall w hw⟩, hgrant⟩
  · intro ⟨_, through, ⟨_, hindex⟩, hpossession, hlength, hnodup⟩
    rw [hindex] at hpossession
    have hmeets : (walkWraps wraps author MAX_ANCESTOR_CHAIN [] leaf.grantedBy).map
          WrapInput.recipientId = through ∧
        ∀ w ∈ walkWraps wraps author MAX_ANCESTOR_CHAIN [] leaf.grantedBy, w ∈ served :=
      walkWraps_of_chain hsub hstored hunique hpossession hlength hnodup (by simp)
    rw [hchain] at hmeets
    obtain ⟨hthrough, hmet⟩ := hmeets
    refine ⟨_, through, ⟨fun w hw => ((hpasses w).mp (hmet w hw)).2, rfl⟩, hpossession.mono ?_,
      hlength, hnodup⟩
    intro id hid r hr
    obtain ⟨w, hw, hwid, hgrant⟩ := (grantTo_eq_some hservedUnique).mp hr
    -- the wrap of the same recipient that the server met is this one
    rw [← hthrough, List.mem_map] at hid
    obtain ⟨w', hw', hwid'⟩ := hid
    obtain rfl : w' = w := List.inj_on_of_nodup_map hunique (hwalk w' hw').1 (hsub.subset hw)
      (hwid'.trans hwid.symm)
    exact (grantTo_eq_some hwalkUnique).mpr ⟨w', hw', hwid, hgrant⟩

/-- Where the client accepts a leaf with some wraps' grants, it takes each of them as an ancestor. -/
lemma isAncestor_of_verify (hunique : (wraps.map WrapInput.recipientId).Nodup)
    (hstored : ∀ w ∈ wraps, ∃ g, w.StoresGrant g) {leafSig : Bytes 64}
    (h : verifyGrantChain leaf leafSig (wraps.map WrapInput.grant) fileId version dekCommit author
      authorSigPub granterSigPub none = .ok ()) :
    ∀ w ∈ wraps, w.isAncestor fileId version dekCommit = true := by
  obtain ⟨_, _, hindex, _⟩ := verifyGrantChain_isOk_iff.mp (isOk_iff.mpr h)
  exact ((ancestorsByRecipient_eq_ok hstored hunique).mp hindex).1

end AncestorChain

/-- The client accepts a leaf with the ancestors that the server finds for it if and only if it
accepts it with all grants of the version that it takes as ancestors.  So it accepts it whenever it
does with all grants of the version. -/
theorem ancestorChain_sufficient [Ed25519] {wraps : List WrapInput}
    (hunique : (wraps.map WrapInput.recipientId).Nodup)
    (hstored : ∀ w ∈ wraps, ∃ g, w.StoresGrant g) {leafWrap : WrapInput}
    (hmem : leafWrap ∈ wraps) {leaf : Grant} (hleaf : decode Grant leafWrap.grantBytes = .ok leaf)
    (fileId : Id) (version : UInt64) (dekCommit : Hash) (author : Id) (authorSigPub : Bytes 32)
    (granterSigPub : Id → Option (Bytes 32)) :
    (verifyGrantChain leaf leafWrap.grantSig (ancestorChain wraps leafWrap author) fileId version
        dekCommit author authorSigPub granterSigPub none = .ok () ↔
      verifyGrantChain leaf leafWrap.grantSig
        ((wraps.filter (WrapInput.isAncestor fileId version dekCommit)).map WrapInput.grant) fileId
        version dekCommit author authorSigPub granterSigPub none = .ok ()) ∧
    (verifyGrantChain leaf leafWrap.grantSig (wraps.map WrapInput.grant) fileId version dekCommit
        author authorSigPub granterSigPub none = .ok () →
      verifyGrantChain leaf leafWrap.grantSig (ancestorChain wraps leafWrap author) fileId version
        dekCommit author authorSigPub granterSigPub none = .ok ()) := by
  have hiff := @AncestorChain.verify_ancestorChain_iff wraps author fileId version dekCommit _
    leafWrap leaf authorSigPub granterSigPub hunique hstored hmem hleaf
  refine ⟨hiff, fun hall => hiff.mpr ?_⟩
  rw [List.filter_eq_self.mpr (AncestorChain.isAncestor_of_verify hunique hstored hall)]
  exact hall

/-- The wrap of a grant, with a row that repeats it. -/
def WrapInput.storing (g : Grant) : WrapInput where
  recipientId := g.recipientId
  recipientType := Files.column g.recipientType.codepoint
  wrappedDek := []
  wrapAlg := 1
  grantedBy := g.grantedBy
  grantBytes := encode g
  grantSig := .replicate 64 0

lemma WrapInput.storing_storesGrant {g : Grant} (hg : g.WellFormed) :
    (WrapInput.storing g).StoresGrant g :=
  ⟨decode_encode hg, rfl, rfl⟩

/-- The author's grants for recovery and to a reader, and the reader's to another. -/
def resharedGrants : List Grant :=
  [⟨⟨.replicate 16 9⟩, 1, RECOVERY_ID, .recovery, ⟨.replicate 32 2⟩, ⟨.replicate 16 1⟩, ⟨0⟩⟩,
    ⟨⟨.replicate 16 9⟩, 1, ⟨.replicate 16 2⟩, .user, ⟨.replicate 32 2⟩, ⟨.replicate 16 1⟩, ⟨0⟩⟩,
    ⟨⟨.replicate 16 9⟩, 1, ⟨.replicate 16 3⟩, .user, ⟨.replicate 32 2⟩, ⟨.replicate 16 2⟩, ⟨0⟩⟩]

lemma resharedGrants_stored :
    ∀ w ∈ resharedGrants.map WrapInput.storing, ∃ g, w.StoresGrant g := by
  intro w hw
  obtain ⟨g, hg, rfl⟩ := List.mem_map.mp hw
  have hwellFormed : ∀ g ∈ resharedGrants, g.WellFormed := by
    unfold Grant.WellFormed
    decide
  exact ⟨g, WrapInput.storing_storesGrant (hwellFormed g hg)⟩

/-- The client accepts the second reader's grant with the one ancestor that the server finds. -/
theorem ancestorChain_sufficient_reshared :
    letI := acceptingEd25519
    verifyGrantChain resharedGrants[2] (.replicate 64 0)
      (ancestorChain (resharedGrants.map WrapInput.storing) (.storing resharedGrants[2])
        ⟨.replicate 16 1⟩)
      ⟨.replicate 16 9⟩ 1 ⟨.replicate 32 2⟩ ⟨.replicate 16 1⟩ (.replicate 32 0)
      (fun _ => some (.replicate 32 0)) none = .ok () := by
  let _ := acceptingEd25519
  exact (@ancestorChain_sufficient _ (resharedGrants.map WrapInput.storing) (by decide)
    resharedGrants_stored (.storing resharedGrants[2]) (by decide) resharedGrants[2]
    (by decide +kernel) _ _ _ _ _ _).1.mpr (by decide +kernel)

/-- It does not accept it with all the grants of the version: one of them is for recovery. -/
theorem ancestorChain_sufficient_rejectsRecovery :
    letI := acceptingEd25519
    ¬ ∀ (wraps : List WrapInput), (wraps.map WrapInput.recipientId).Nodup →
      (∀ w ∈ wraps, ∃ g, w.StoresGrant g) → ∀ leafWrap ∈ wraps, ∀ leaf,
      decode Grant leafWrap.grantBytes = .ok leaf →
      ∀ (fileId : Id) (version : UInt64) (dekCommit : Hash) (author : Id)
        (authorSigPub : Bytes 32) (granterSigPub : Id → Option (Bytes 32)),
      verifyGrantChain leaf leafWrap.grantSig (ancestorChain wraps leafWrap author) fileId version
          dekCommit author authorSigPub granterSigPub none = .ok () ↔
        verifyGrantChain leaf leafWrap.grantSig (wraps.map WrapInput.grant) fileId version
          dekCommit author authorSigPub granterSigPub none = .ok () := by
  let _ := acceptingEd25519
  intro h
  have hsame := h (resharedGrants.map WrapInput.storing) (by decide) resharedGrants_stored
    (.storing resharedGrants[2]) (by decide) resharedGrants[2] (by decide +kernel)
    ⟨.replicate 16 9⟩ 1 ⟨.replicate 32 2⟩ ⟨.replicate 16 1⟩ (.replicate 32 0)
    fun _ => some (.replicate 32 0)
  exact absurd (hsame.mp (by decide +kernel)) (by decide +kernel)

end MaxSecu
