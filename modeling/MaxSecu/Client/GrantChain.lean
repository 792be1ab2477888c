import MaxSecu.Client.Download

/-!
# Grant chains

A grant entails possession of the key when it was made by the author, or by someone who was granted
the key in turn.  Without an admin resolver, `verifyGrantChain` accepts a grant exactly when such a
chain leads from it to the author, over at most `MAX_GRANT_CHAIN_DEPTH` distinct re-sharers.  With
one, a path may also end at an admin who was granted nothing (`verifyGrantChain_isOk_iff_path`).
-/

namespace MaxSecu

open ExceptRules

section Chains

variable [Ed25519]

variable (byRecipient : Id → Option (Grant × Bytes 64)) (authorId : Id) (authorSigPub : Bytes 32)
  (granterSigPub : Id → Option (Bytes 32))

/-- A chain of author and re-share edges from a grant to the author, each signed by its granter.
The list is of the re-sharers, who were themselves granted the key. -/
inductive PossessionChain : List Id → Grant → Bytes 64 → Prop
  | author {g : Grant} {sig : Bytes 64} (hgranter : g.grantedBy = authorId)
      (hsig : verify authorSigPub Label.grant.text g sig = true) : PossessionChain [] g sig
  | reshare {g next : Grant} {sig nextSig : Bytes 64} {pub : Bytes 32} {through : List Id}
      (hgranter : g.grantedBy ≠ authorId) (hnext : byRecipient g.grantedBy = some (next, nextSig))
      (hpub : granterSigPub g.grantedBy = some pub)
      (hsig : verify pub Label.grant.text g sig = true)
      (hrest : PossessionChain through next nextSig) :
      PossessionChain (g.grantedBy :: through) g sig

/-- Going from granter to granter, one leaves the served grants before reaching the author: the
chain of a recovery operator, or of nobody. -/
inductive LeavesGrants : Grant → Prop
  | outside {g : Grant} (hgranter : g.grantedBy ≠ authorId) (hnone : byRecipient g.grantedBy = none) :
      LeavesGrants g
  | reshare {g next : Grant} {nextSig : Bytes 64} (hgranter : g.grantedBy ≠ authorId)
      (hnext : byRecipient g.grantedBy = some (next, nextSig)) (hrest : LeavesGrants next) :
      LeavesGrants g

variable {byRecipient authorId authorSigPub granterSigPub}

lemma PossessionChain.not_leavesGrants {through : List Id} {g : Grant} {sig : Bytes 64}
    (h : PossessionChain byRecipient authorId authorSigPub granterSigPub through g sig) :
    ¬ LeavesGrants byRecipient authorId g := by
  intro hleaves
  induction h with
  | author hgranter _ =>
    cases hleaves with
    | outside hother _ => exact hother hgranter
    | reshare hother _ _ => exact hother hgranter
  | reshare _ hnext _ _ _ ih =>
    cases hleaves with
    | outside _ hnone =>
      rw [hnext] at hnone
      cases hnone
    | reshare _ hnext' hrest =>
      rw [hnext] at hnext'
      obtain ⟨rfl, rfl⟩ := Prod.mk.inj (Option.some.inj hnext')
      exact ih hrest

lemma PossessionChain.mono {byRecipient' : Id → Option (Grant × Bytes 64)} {through : List Id}
    {g : Grant} {sig : Bytes 64}
    (h : PossessionChain byRecipient authorId authorSigPub granterSigPub through g sig)
    (hserved : ∀ id ∈ through, ∀ r, byRecipient id = some r → byRecipient' id = some r) :
    PossessionChain byRecipient' authorId authorSigPub granterSigPub through g sig := by
  induction h with
  | author hgranter hsig => exact .author hgranter hsig
  | reshare hgranter hnext hpub hsig _ ih =>
    refine .reshare hgranter (hserved _ (List.mem_cons_self ..) _ hnext) hpub hsig (ih ?_)
    intro id hid
    exact hserved id (List.mem_cons_of_mem _ hid)

/-! ## Chains that an admin may end -/

section Paths

variable (grantOf : Id → Grant → Bytes 64 → Prop) (authorId : Id) (authorSigPub : Bytes 32)
  (granterSigPub : Id → Option (Bytes 32)) (adminSigPub : Option (Id → Option (Bytes 32)))

/-- A sequence of grants, each signed by its granter, of which the last was made by `root`: by the
author, or by an admin who was granted nothing.  The list is of the granters on the way, and
`grantOf` says which grant makes a user a holder. -/
inductive GrantPath : List Id → Id → Grant → Bytes 64 → Prop
  | author {g : Grant} {sig : Bytes 64} (hgranter : g.grantedBy = authorId)
      (hsig : verify authorSigPub Label.grant.text g sig = true) : GrantPath [] authorId g sig
  | admin {g : Grant} {sig : Bytes 64} {pub : Bytes 32} (hgranter : g.grantedBy ≠ authorId)
      (hnone : ∀ next nextSig, ¬ grantOf g.grantedBy next nextSig)
      (hadmin : adminSigPub.bind (· g.grantedBy) = some pub)
      (hsig : verify pub Label.grant.text g sig = true) : GrantPath [] g.grantedBy g sig
  | reshare {g next : Grant} {sig nextSig : Bytes 64} {pub : Bytes 32} {through : List Id}
      {root : Id} (hgranter : g.grantedBy ≠ authorId) (hnext : grantOf g.grantedBy next nextSig)
      (hpub : granterSigPub g.grantedBy = some pub)
      (hsig : verify pub Label.grant.text g sig = true)
      (hrest : GrantPath through root next nextSig) :
      GrantPath (g.grantedBy :: through) root g sig

end Paths

abbrev Indexed (byRecipient : Id → Option (Grant × Bytes 64)) (id : Id) (next : Grant)
    (nextSig : Bytes 64) : Prop :=
  byRecipient id = some (next, nextSig)

variable {adminSigPub : Option (Id → Option (Bytes 32))}

lemma GrantPath.root_eq {grantOf : Id → Grant → Bytes 64 → Prop} {through : List Id} {root : Id}
    {g : Grant} {sig : Bytes 64}
    (h : GrantPath grantOf authorId authorSigPub granterSigPub none through root g sig) :
    root = authorId := by
  induction h with
  | author hgranter hsig => rfl
  | admin hgranter hnone hadmin hsig => exact absurd hadmin (by simp)
  | reshare hgranter hnext hpub hsig hrest ih => exact ih

lemma possessionChain_iff {through : List Id} {g : Grant} {sig : Bytes 64} :
    PossessionChain byRecipient authorId authorSigPub granterSigPub through g sig ↔
      ∃ root, GrantPath (Indexed byRecipient) authorId authorSigPub granterSigPub none through root
        g sig := by
  constructor
  · intro h
    refine ⟨authorId, ?_⟩
    induction h with
    | author hgranter hsig => exact .author hgranter hsig
    | reshare hgranter hnext hpub hsig _ ih => exact .reshare hgranter hnext hpub hsig ih
  · rintro ⟨root, h⟩
    induction h with
    | author hgranter hsig => exact .author hgranter hsig
    | admin hgranter hnone hadmin hsig => exact absurd hadmin (by simp)
    | reshare hgranter hnext hpub hsig hrest ih => exact .reshare hgranter hnext hpub hsig ih

/-! ## The walk -/

variable {depth : ℕ} {visited : List Id} {g next : Grant} {sig nextSig : Bytes 64}

lemma walkGrantChain_author (hgranter : g.grantedBy = authorId) :
    walkGrantChain byRecipient authorId authorSigPub granterSigPub adminSigPub depth visited g sig =
        .ok () ↔ verify authorSigPub Label.grant.text g sig = true := by
  unfold walkGrantChain
  simp only [if_pos hgranter, guard_eq_ok, pure_eq_ok, not_not, and_true]

lemma walkGrantChain_outside (hgranter : g.grantedBy ≠ authorId)
    (hnone : byRecipient g.grantedBy = none) :
    walkGrantChain byRecipient authorId authorSigPub granterSigPub adminSigPub depth visited g sig =
        .ok () ↔
      ∃ pub, adminSigPub.bind (· g.grantedBy) = some pub ∧
        verify pub Label.grant.text g sig = true := by
  unfold walkGrantChain
  simp only [if_neg hgranter, hnone]
  cases hadmin : adminSigPub.bind (· g.grantedBy) with
  | none => simp [throw, throwThe, MonadExceptOf.throw]
  | some pub =>
    simp only [guard_eq_ok, pure_eq_ok, not_not, and_true, Option.some.injEq]
    constructor
    · intro hsig
      exact ⟨pub, rfl, hsig⟩
    · rintro ⟨_, rfl, hsig⟩
      exact hsig

lemma walkGrantChain_reshare (hgranter : g.grantedBy ≠ authorId)
    (hnext : byRecipient g.grantedBy = some (next, nextSig)) :
    walkGrantChain byRecipient authorId authorSigPub granterSigPub adminSigPub depth visited g sig =
        .ok () ↔
      ∃ rest pub, depth = rest + 1 ∧ granterSigPub g.grantedBy = some pub ∧
        verify pub Label.grant.text g sig = true ∧ g.grantedBy ∉ visited ∧
        walkGrantChain byRecipient authorId authorSigPub granterSigPub adminSigPub rest
          (g.grantedBy :: visited) next nextSig = .ok () := by
  rw [walkGrantChain]
  simp only [if_neg hgranter, hnext]
  cases depth with
  | zero => simp [throw, throwThe, MonadExceptOf.throw]
  | succ depth =>
    simp only [bind_eq_ok, elim_eq_ok, guard_eq_ok, not_not]
    constructor
    · rintro ⟨pub, hpub, hsig, hfresh, hrest⟩
      exact ⟨depth, pub, rfl, hpub, hsig, hfresh, hrest⟩
    · rintro ⟨rest, pub, hdepth, hpub, hsig, hfresh, hrest⟩
      obtain rfl : depth = rest := by omega
      exact ⟨pub, hpub, hsig, hfresh, hrest⟩

/-- The walk accepts exactly the paths that fit the depth left, over distinct granters that were not
met before. -/
lemma walkGrantChain_path :
    walkGrantChain byRecipient authorId authorSigPub granterSigPub adminSigPub depth visited g sig =
        .ok () ↔
      ∃ through root, GrantPath (Indexed byRecipient) authorId authorSigPub granterSigPub
          adminSigPub through root g sig ∧
        through.length ≤ depth ∧ through.Nodup ∧ ∀ id ∈ through, id ∉ visited := by
  induction depth using Nat.strong_induction_on generalizing visited g sig with
  | _ depth ih =>
    by_cases hgranter : g.grantedBy = authorId
    · rw [walkGrantChain_author hgranter]
      constructor
      · intro hsig
        exact ⟨[], authorId, .author hgranter hsig, Nat.zero_le _, List.nodup_nil, by simp⟩
      · rintro ⟨through, root, hpath, -⟩
        cases hpath with
        | author _ hsig => exact hsig
        | admin hother _ _ _ => exact absurd hgranter hother
        | reshare hother _ _ _ _ => exact absurd hgranter hother
    cases hserved : byRecipient g.grantedBy with
    | none =>
      rw [walkGrantChain_outside hgranter hserved]
      constructor
      · rintro ⟨pub, hadmin, hsig⟩
        have hnone : ∀ next nextSig, ¬ Indexed byRecipient g.grantedBy next nextSig := by
          intro next nextSig hnext
          exact absurd (hserved.symm.trans hnext) (by simp)
        exact ⟨[], _, .admin hgranter hnone hadmin hsig, Nat.zero_le _, List.nodup_nil, by simp⟩
      · rintro ⟨through, root, hpath, -⟩
        cases hpath with
        | author hauthor _ => exact absurd hauthor hgranter
        | admin _ _ hadmin hsig => exact ⟨_, hadmin, hsig⟩
        | reshare _ hnext _ _ _ => exact absurd (hserved.symm.trans hnext) (by simp)
    | some served =>
      obtain ⟨next, nextSig⟩ := served
      rw [walkGrantChain_reshare hgranter hserved]
      constructor
      · rintro ⟨rest, pub, rfl, hpub, hsig, hfresh, hwalk⟩
        obtain ⟨through, root, hpath, hlength, hnodup, hnew⟩ :=
          (ih rest (Nat.lt_succ_self _)).mp hwalk
        refine ⟨g.grantedBy :: through, root, .reshare hgranter hserved hpub hsig hpath,
          Nat.succ_le_succ hlength, ?_, ?_⟩
        · refine List.nodup_cons.mpr ⟨fun hmem => ?_, hnodup⟩
          exact hnew _ hmem (List.mem_cons_self ..)
        · intro id hid
          rcases List.mem_cons.mp hid with rfl | hid
          · exact hfresh
          · exact fun hvisited => hnew id hid (List.mem_cons_of_mem _ hvisited)
      · rintro ⟨through, root, hpath, hlength, hnodup, hnew⟩
        cases hpath with
        | author hauthor _ => exact absurd hauthor hgranter
        | admin _ hnone _ _ => exact absurd hserved (hnone next nextSig)
        | @reshare _ next' _ nextSig' pub through _ _ hnext hpub hsig hrest =>
          obtain ⟨rfl, rfl⟩ := Prod.mk.inj (Option.some.inj (hserved.symm.trans hnext))
          obtain ⟨hfresh, hnodup⟩ := List.nodup_cons.mp hnodup
          have hdepth : depth = depth - 1 + 1 := by
            rw [List.length_cons] at hlength
            omega
          refine ⟨depth - 1, pub, hdepth, hpub, hsig, hnew _ (List.mem_cons_self ..), ?_⟩
          refine (ih (depth - 1) (by omega)).mpr ⟨through, root, hrest, ?_, hnodup, ?_⟩
          · rw [List.length_cons] at hlength
            omega
          · intro id hid hmem
            rcases List.mem_cons.mp hmem with rfl | hvisited
            · exact hfresh hid
            · exact hnew id (List.mem_cons_of_mem _ hid) hvisited

/-- The walk without an admin resolver accepts exactly the chains that fit the depth left, over
distinct re-sharers that were not met before. -/
lemma walkGrantChain_eq_ok :
    walkGrantChain byRecipient authorId authorSigPub granterSigPub none depth visited g sig =
        .ok () ↔
      ∃ through, PossessionChain byRecipient authorId authorSigPub granterSigPub through g sig ∧
        through.length ≤ depth ∧ through.Nodup ∧ ∀ id ∈ through, id ∉ visited := by
  simp only [walkGrantChain_path, possessionChain_iff, exists_and_right]

lemma verifyGrantChain_isOk_iff {leaf : Grant} {leafSig : Bytes 64}
    {ancestors : List (List UInt8 × Bytes 64)} {fileId : Id} {version : UInt64}
    {dekCommit : Hash} :
    (verifyGrantChain leaf leafSig ancestors fileId version dekCommit authorId authorSigPub
        granterSigPub none).isOk = true ↔
      ∃ byRecipient through, ancestorsByRecipient ancestors fileId version dekCommit =
          .ok byRecipient ∧
        PossessionChain byRecipient authorId authorSigPub granterSigPub through leaf leafSig ∧
        through.length ≤ MAX_GRANT_CHAIN_DEPTH ∧ through.Nodup := by
  rw [isOk_iff, verifyGrantChain, bind_eq_ok]
  simp only [walkGrantChain_eq_ok, List.not_mem_nil, not_false_eq_true, implies_true, and_true]
  constructor
  · rintro ⟨byRecipient, hancestors, through, hchain, hlength, hnodup⟩
    exact ⟨byRecipient, through, hancestors, hchain, hlength, hnodup⟩
  · rintro ⟨byRecipient, through, hancestors, hchain, hlength, hnodup⟩
    exact ⟨byRecipient, hancestors, through, hchain, hlength, hnodup⟩

/-! ## The served grants -/

omit [Ed25519]

/-- An ancestor that was served makes this user a holder. -/
def ServedGrant (ancestors : List (List UInt8 × Bytes 64)) (id : Id) (next : Grant)
    (nextSig : Bytes 64) : Prop :=
  next.recipientId = id ∧ ∃ bytes, (bytes, nextSig) ∈ ancestors ∧ decode Grant bytes = .ok next

/-- No two different ancestors make one user a holder. -/
def OneGrantEach (ancestors : List (List UInt8 × Bytes 64)) : Prop :=
  ∀ id g sig g' sig', ServedGrant ancestors id g sig → ServedGrant ancestors id g' sig' →
    g = g' ∧ sig = sig'

/-- An ancestor for this file, version and key, to a user. -/
structure AncestorBound (fileId : Id) (version : UInt64) (dekCommit : Hash) (g : Grant) : Prop where
  fileId : g.fileId = fileId
  version : g.fileVersion = version
  dekCommit : g.dekCommit = dekCommit
  recipientType : g.recipientType = .user

/-- Every ancestor that was served is a grant, and bound. -/
def AllBound (ancestors : List (List UInt8 × Bytes 64)) (fileId : Id) (version : UInt64)
    (dekCommit : Hash) : Prop :=
  ∀ a ∈ ancestors, ∃ g, decode Grant a.1 = .ok g ∧ AncestorBound fileId version dekCommit g

section Served

variable {ancestors : List (List UInt8 × Bytes 64)} {fileId : Id} {version : UInt64}
  {dekCommit : Hash} {before after : Id → Option (Grant × Bytes 64)} {id : Id}

lemma checkAncestorFields_eq_ok : checkAncestorFields g fileId version dekCommit = .ok () ↔
    AncestorBound fileId version dekCommit g := by
  unfold checkAncestorFields
  simp only [guard_eq_ok, pure_eq_ok, not_not, and_true]
  constructor
  · rintro ⟨hfile, hversion, hdek, htype⟩
    exact ⟨hfile, hversion, hdek, htype⟩
  · intro h
    exact ⟨h.fileId, h.version, h.dekCommit, h.recipientType⟩

variable (fileId version dekCommit) in
def indexAncestor (byRecipient : Id → Option (Grant × Bytes 64)) (a : List UInt8 × Bytes 64) :
    Except DownloadError (Id → Option (Grant × Bytes 64)) := do
  let g ← (decode Grant a.1).mapError fun _ => .badGrant
  checkAncestorFields g fileId version dekCommit
  pure (Function.update byRecipient g.recipientId (some (g, a.2)))

lemma indexAncestor_eq_ok {a : List UInt8 × Bytes 64} :
    indexAncestor fileId version dekCommit before a = .ok after ↔
      ∃ g, decode Grant a.1 = .ok g ∧ AncestorBound fileId version dekCommit g ∧
        after = Function.update before g.recipientId (some (g, a.2)) := by
  unfold indexAncestor
  simp only [bind_eq_ok, mapError_eq_ok, pure_eq_ok]
  constructor
  · rintro ⟨g, hg, _, hbound, rfl⟩
    exact ⟨g, hg, checkAncestorFields_eq_ok.mp hbound, rfl⟩
  · rintro ⟨g, hg, hbound, rfl⟩
    exact ⟨g, hg, (), checkAncestorFields_eq_ok.mpr hbound, rfl⟩

lemma foldlM_indexAncestor
    (h : ancestors.foldlM (indexAncestor fileId version dekCommit) before = .ok after) :
    AllBound ancestors fileId version dekCommit ∧
      (∀ id g sig, after id = some (g, sig) →
        ServedGrant ancestors id g sig ∨ before id = some (g, sig)) ∧
      (∀ id g sig, ServedGrant ancestors id g sig ∨ before id = some (g, sig) →
        (after id).isSome = true) := by
  induction ancestors generalizing before with
  | nil =>
    obtain rfl := foldlM_nil_eq_ok.mp h
    refine ⟨by simp [AllBound], fun id g sig hid => .inr hid, ?_⟩
    rintro id g sig (⟨-, bytes, hmem, -⟩ | hid)
    · exact absurd hmem List.not_mem_nil
    · rw [hid]
      rfl
  | cons a rest ih =>
    obtain ⟨mid, hround, hrest⟩ := foldlM_cons_eq_ok.mp h
    obtain ⟨next, hnext, hbound, rfl⟩ := indexAncestor_eq_ok.mp hround
    obtain ⟨hall, hsound, hcomplete⟩ := ih hrest
    refine ⟨?_, ?_, ?_⟩
    · exact List.forall_mem_cons.mpr ⟨⟨next, hnext, hbound⟩, hall⟩
    · intro id g sig hid
      obtain ⟨hrecipient, bytes, hmem, hg⟩ | hmid := hsound id g sig hid
      · exact .inl ⟨hrecipient, bytes, List.mem_cons_of_mem a hmem, hg⟩
      · rw [Function.update_apply] at hmid
        by_cases hsame : id = next.recipientId
        · rw [if_pos hsame] at hmid
          obtain ⟨rfl, rfl⟩ := Prod.mk.inj (Option.some.inj hmid)
          exact .inl ⟨hsame.symm, a.1, List.mem_cons_self, hnext⟩
        · rw [if_neg hsame] at hmid
          exact .inr hmid
    · intro id g sig hid
      by_cases hsame : id = next.recipientId
      · apply hcomplete id next a.2
        right
        rw [Function.update_apply, if_pos hsame]
      · obtain ⟨hrecipient, bytes, hmem, hg⟩ | hbefore := hid
        · obtain heq | hmem := List.mem_cons.mp hmem
          · rw [← heq] at hnext
            obtain rfl := Except.ok.inj (hg.symm.trans hnext)
            exact absurd hrecipient.symm hsame
          · exact hcomplete id g sig (.inl ⟨hrecipient, bytes, hmem, hg⟩)
        · apply hcomplete id g sig
          right
          rw [Function.update_apply, if_neg hsame]
          exact hbefore

lemma exists_foldlM_indexAncestor (h : AllBound ancestors fileId version dekCommit)
    (before : Id → Option (Grant × Bytes 64)) :
    ∃ after, ancestors.foldlM (indexAncestor fileId version dekCommit) before = .ok after := by
  induction ancestors generalizing before with
  | nil => exact ⟨before, rfl⟩
  | cons a rest ih =>
    obtain ⟨⟨g, hg, hbound⟩, hrest⟩ := List.forall_mem_cons.mp h
    obtain ⟨after, hafter⟩ := ih hrest (Function.update before g.recipientId (some (g, a.2)))
    exact ⟨after, foldlM_cons_eq_ok.mpr ⟨_, indexAncestor_eq_ok.mpr ⟨g, hg, hbound, rfl⟩, hafter⟩⟩

lemma indexed_eq_served (hsole : OneGrantEach ancestors) {byRecipient : Id → Option (Grant × Bytes 64)}
    (h : ancestorsByRecipient ancestors fileId version dekCommit = .ok byRecipient) :
    Indexed byRecipient = ServedGrant ancestors := by
  obtain ⟨-, hsound, hcomplete⟩ := foldlM_indexAncestor h
  funext id g sig
  apply propext
  constructor
  · intro hindexed
    exact (hsound id g sig hindexed).resolve_right (by simp)
  · intro hserved
    obtain ⟨⟨g', sig'⟩, hsome⟩ := Option.isSome_iff_exists.mp (hcomplete id g sig (.inl hserved))
    have hserved' := (hsound id g' sig' hsome).resolve_right (by simp)
    obtain ⟨rfl, rfl⟩ := hsole id g sig g' sig' hserved hserved'
    exact hsome

end Served

/-- **The chain verifier accepts exactly the bounded paths**: every ancestor is bound, and a sequence
of at most `MAX_GRANT_CHAIN_DEPTH` re-shares by distinct granters other than the author leads from
the grant to the author or, with a resolver for them, to an admin. -/
theorem verifyGrantChain_isOk_iff_path [Ed25519] {ancestors : List (List UInt8 × Bytes 64)}
    (hsole : OneGrantEach ancestors) (leaf : Grant) (leafSig : Bytes 64) (fileId : Id)
    (version : UInt64) (dekCommit : Hash) (authorId : Id) (authorSigPub : Bytes 32)
    (granterSigPub : Id → Option (Bytes 32)) (adminSigPub : Option (Id → Option (Bytes 32))) :
    ((verifyGrantChain leaf leafSig ancestors fileId version dekCommit authorId authorSigPub
        granterSigPub adminSigPub).isOk = true ↔
      AllBound ancestors fileId version dekCommit ∧
        ∃ through root, GrantPath (ServedGrant ancestors) authorId authorSigPub granterSigPub
            adminSigPub through root leaf leafSig ∧
          through.length ≤ MAX_GRANT_CHAIN_DEPTH ∧ through.Nodup) ∧
    (adminSigPub = none → ∀ through root, GrantPath (ServedGrant ancestors) authorId authorSigPub
      granterSigPub adminSigPub through root leaf leafSig → root = authorId) := by
  refine ⟨?_, ?_⟩
  · rw [isOk_iff, verifyGrantChain, bind_eq_ok]
    simp only [walkGrantChain_path, List.not_mem_nil, not_false_eq_true, implies_true, and_true]
    constructor
    · rintro ⟨byRecipient, hindex, hpath⟩
      rw [indexed_eq_served hsole hindex] at hpath
      exact ⟨(foldlM_indexAncestor hindex).1, hpath⟩
    · rintro ⟨hall, hpath⟩
      obtain ⟨byRecipient, hindex⟩ := exists_foldlM_indexAncestor hall fun _ => none
      refine ⟨byRecipient, hindex, ?_⟩
      rw [indexed_eq_served hsole hindex]
      exact hpath
  · rintro rfl through root hpath
    exact hpath.root_eq

end Chains

section Examples

/-- Signatures under one key are good. -/
abbrev oneKeyEd25519 : Ed25519 where
  validKey _ := true
  verifyStrict pk _ _ := pk = .replicate 32 1
  publicKey seed := seed
  sign _ _ := .replicate 64 0

attribute [local instance] oneKeyEd25519

def oneFileGrant (grantedBy recipient : UInt8) : Grant :=
  ⟨⟨.replicate 16 9⟩, 1, ⟨.replicate 16 recipient⟩, .user, ⟨.replicate 32 2⟩,
    ⟨.replicate 16 grantedBy⟩, ⟨0⟩⟩

def oneAncestor (grantedBy recipient : UInt8) : List (List UInt8 × Bytes 64) :=
  [(encode (oneFileGrant grantedBy recipient), .replicate 64 0)]

lemma decode_oneFileGrant (grantedBy recipient : UInt8) :
    decode Grant (encode (oneFileGrant grantedBy recipient)) =
      .ok (oneFileGrant grantedBy recipient) := by
  have hwellFormed : (oneFileGrant grantedBy recipient).WellFormed := by
    intro htype
    exact absurd htype (by simp [oneFileGrant])
  exact decode_encode hwellFormed

lemma oneAncestor_sole (grantedBy recipient : UInt8) :
    OneGrantEach (oneAncestor grantedBy recipient) := by
  rintro id g sig g' sig' ⟨-, bytes, hmem, hg⟩ ⟨-, bytes', hmem', hg'⟩
  obtain ⟨rfl, rfl⟩ := Prod.mk.inj (List.mem_singleton.mp hmem)
  obtain ⟨rfl, rfl⟩ := Prod.mk.inj (List.mem_singleton.mp hmem')
  exact ⟨Except.ok.inj (hg.symm.trans hg'), rfl⟩

/-- The reader's grant was made by a re-sharer, and the re-sharer's by an admin. -/
theorem verifyGrantChain_isOk_iff_path_admin :
    AllBound (oneAncestor 7 2) ⟨.replicate 16 9⟩ 1 ⟨.replicate 32 2⟩ ∧
      ∃ through root, GrantPath (ServedGrant (oneAncestor 7 2)) ⟨.replicate 16 1⟩ (.replicate 32 0)
          (fun _ => some (.replicate 32 1)) (some fun _ => some (.replicate 32 1)) through root
          (oneFileGrant 2 3) (.replicate 64 0) ∧
        through.length ≤ MAX_GRANT_CHAIN_DEPTH ∧ through.Nodup := by
  apply (verifyGrantChain_isOk_iff_path (oneAncestor_sole 7 2) _ _ _ _ _ _ _ _ _).1.mp
  decide +kernel

/-- The same sequences, with the author among those who re-share or end them as admins. -/
inductive LooseGrantPath (grantOf : Id → Grant → Bytes 64 → Prop) (authorId : Id)
    (authorSigPub : Bytes 32) (granterSigPub : Id → Option (Bytes 32))
    (adminSigPub : Option (Id → Option (Bytes 32))) : List Id → Id → Grant → Bytes 64 → Prop
  | author {g : Grant} {sig : Bytes 64} (hgranter : g.grantedBy = authorId)
      (hsig : verify authorSigPub Label.grant.text g sig = true) :
      LooseGrantPath grantOf authorId authorSigPub granterSigPub adminSigPub [] authorId g sig
  | admin {g : Grant} {sig : Bytes 64} {pub : Bytes 32}
      (hnone : ∀ next nextSig, ¬ grantOf g.grantedBy next nextSig)
      (hadmin : adminSigPub.bind (· g.grantedBy) = some pub)
      (hsig : verify pub Label.grant.text g sig = true) :
      LooseGrantPath grantOf authorId authorSigPub granterSigPub adminSigPub [] g.grantedBy g sig
  | reshare {g next : Grant} {sig nextSig : Bytes 64} {pub : Bytes 32} {through : List Id}
      {root : Id} (hnext : grantOf g.grantedBy next nextSig)
      (hpub : granterSigPub g.grantedBy = some pub)
      (hsig : verify pub Label.grant.text g sig = true)
      (hrest : LooseGrantPath grantOf authorId authorSigPub granterSigPub adminSigPub through root
        next nextSig) :
      LooseGrantPath grantOf authorId authorSigPub granterSigPub adminSigPub
        (g.grantedBy :: through) root g sig

/-- The author's grant is not good under the author's key, but under the one resolved for the author
as a granter, and an admin granted the author the key. -/
theorem verifyGrantChain_authorReshares :
    ¬ ∀ (ancestors : List (List UInt8 × Bytes 64)), OneGrantEach ancestors →
      ∀ (leaf : Grant) (leafSig : Bytes 64) (fileId : Id) (version : UInt64) (dekCommit : Hash)
        (authorId : Id) (authorSigPub : Bytes 32) (granterSigPub : Id → Option (Bytes 32))
        (adminSigPub : Option (Id → Option (Bytes 32))),
      AllBound ancestors fileId version dekCommit →
      ((verifyGrantChain leaf leafSig ancestors fileId version dekCommit authorId authorSigPub
          granterSigPub adminSigPub).isOk = true ↔
        ∃ through root, LooseGrantPath (ServedGrant ancestors) authorId authorSigPub granterSigPub
            adminSigPub through root leaf leafSig ∧
          through.length ≤ MAX_GRANT_CHAIN_DEPTH ∧ through.Nodup) := by
  intro h
  have hbound : AllBound (oneAncestor 7 1) ⟨.replicate 16 9⟩ 1 ⟨.replicate 32 2⟩ := by
    intro a ha
    obtain rfl := List.mem_singleton.mp ha
    exact ⟨oneFileGrant 7 1, decode_oneFileGrant 7 1, rfl, rfl, rfl, rfl⟩
  have hiff := h (oneAncestor 7 1) (oneAncestor_sole 7 1) (oneFileGrant 1 3) (.replicate 64 0) _ _ _
    ⟨.replicate 16 1⟩ (.replicate 32 0) (fun _ => some (.replicate 32 1))
    (some fun _ => some (.replicate 32 1)) hbound
  have hserved : ServedGrant (oneAncestor 7 1) (oneFileGrant 1 3).grantedBy (oneFileGrant 7 1)
      (.replicate 64 0) := ⟨rfl, _, List.mem_singleton_self _, decode_oneFileGrant 7 1⟩
  have hnone : ∀ next nextSig,
      ¬ ServedGrant (oneAncestor 7 1) (oneFileGrant 7 1).grantedBy next nextSig := by
    rintro next nextSig ⟨hrecipient, bytes, hmem, hnext⟩
    obtain ⟨rfl, -⟩ := Prod.mk.inj (List.mem_singleton.mp hmem)
    obtain rfl := Except.ok.inj (hnext.symm.trans (decode_oneFileGrant 7 1))
    exact absurd hrecipient (by decide)
  have hpath := hiff.mpr ⟨_, _, .reshare hserved rfl (by decide +kernel)
    (.admin hnone rfl (by decide +kernel)), by decide, by decide⟩
  exact absurd hpath (by decide +kernel)

end Examples

end MaxSecu
