import Mathlib.Data.String.Basic
import MaxSecu.Framework.Retention
import MaxSecu.Server.DropboxListing

/-!
# Pruning the backups

A backup is a folder of the cold tier with a stamp for a name.  Its manifest is written last, so that a
folder without one is no backup.  When a backup is published the older ones are deleted, each with its
manifest first.

A tier may fail at every step and a failed deletion may have removed a part (`Tier`).  `prune_safe`
says what is left: the newest backups and the protected one as they were, and no backup that still has
its manifest without its parts.
-/

namespace MaxSecu

namespace Bundles

open ExceptRules
open DropboxTier (sortNames sortNames_perm sortNames_pairwise)

/-- What a cold tier holds, by stream and index. -/
abbrev Content := String → ℕ → Option (List UInt8)

inductive Component
  | db
  | state

def Component.asStr : Component → String
  | db => "db"
  | state => "state"

def componentRef (stamp : String) (component : Component) : String :=
  "_backup/" ++ stamp ++ "/" ++ component.asStr

def manifestRef (stamp : String) : String := "_backup/" ++ stamp ++ "/manifest"

/-! ## Folders -/

def IsName (s : String) : Prop := s ≠ "" ∧ '/' ∉ s.toList

def child (folder name : String) : String := folder ++ "/" ++ name

/-- The stream is this folder, or is inside it. -/
def Under (folder ref : String) : Prop := ref = folder ∨ (folder ++ "/").toList <+: ref.toList

lemma takeWhile_name {s : String} (hs : IsName s) (rest : List Char)
    (hrest : rest = [] ∨ rest.head? = some '/') :
    (s.toList ++ rest).takeWhile (· ≠ '/') = s.toList := by
  have hall : ∀ c ∈ s.toList, decide (c ≠ '/') = true := by
    intro c hc
    exact decide_eq_true fun heq => hs.2 (heq ▸ hc)
  rw [List.takeWhile_append_of_pos hall]
  rcases hrest with rfl | hhead
  · rw [List.takeWhile_nil, List.append_nil]
  · cases rest with
    | nil => cases hhead
    | cons c rest =>
      obtain rfl := Option.some.inj hhead
      rw [List.takeWhile_cons_of_neg (by simp), List.append_nil]

lemma toList_child (folder name : String) :
    (child folder name).toList = (folder ++ "/").toList ++ name.toList := by
  rw [child, String.toList_append]

lemma Under.name {folder name ref : String} (hname : IsName name) (h : Under (child folder name) ref) :
    ((ref.toList.drop (folder ++ "/").toList.length).takeWhile (· ≠ '/')) = name.toList := by
  rcases h with rfl | ⟨rest, hrest⟩
  · have hname' := takeWhile_name hname [] (Or.inl rfl)
    rw [List.append_nil] at hname'
    rwa [toList_child, List.drop_left]
  · have happend : (child folder name ++ "/").toList ++ rest =
        (folder ++ "/").toList ++ (name.toList ++ '/' :: rest) := by
      rw [child]
      simp only [String.toList_append]
      simp
    rw [← hrest, happend, List.drop_left]
    exact takeWhile_name hname _ (Or.inr rfl)

lemma Under.unique {folder a b ref : String} (ha : IsName a) (hb : IsName b)
    (h : Under (child folder a) ref) (h' : Under (child folder b) ref) : a = b :=
  String.toList_injective ((h.name ha).symm.trans (h'.name hb))

lemma Under.inside {folder name ref : String} (h : Under (child folder name) ref) :
    (folder ++ "/").toList <+: ref.toList := by
  have hpre : (folder ++ "/").toList <+: (child folder name).toList := by
    rw [toList_child]
    exact List.prefix_append _ _
  rcases h with rfl | h
  · exact hpre
  · refine (hpre.trans ?_).trans h
    rw [String.toList_append]
    exact List.prefix_append _ _

lemma manifestRef_eq (stamp : String) :
    manifestRef stamp = child (child "_backup" stamp) "manifest" := by
  apply String.toList_injective
  simp [manifestRef, child]

lemma componentRef_eq (stamp : String) (component : Component) :
    componentRef stamp component = child (child "_backup" stamp) component.asStr := by
  apply String.toList_injective
  simp [componentRef, child]

lemma isName_manifest : IsName "manifest" := by
  constructor <;> decide

lemma isName_component (component : Component) : IsName component.asStr := by
  cases component <;> constructor <;> decide

lemma not_under_manifest {stamp ref : String} {component : Component}
    (h : Under (componentRef stamp component) ref) : ¬ Under (manifestRef stamp) ref := by
  rw [componentRef_eq] at h
  rw [manifestRef_eq]
  intro hmanifest
  have heq := h.unique (isName_component component) isName_manifest hmanifest
  cases component <;> exact absurd heq (by decide)

/-! ## A tier that may fail -/

/-- What the listing of the backups may name: each folder once, and every folder that is not empty. -/
structure Lists (content : Content) (names : List String) : Prop where
  distinct : names.Nodup
  segment : ∀ s ∈ names, IsName s
  complete : ∀ s, IsName s → ∀ ref i, Under (child "_backup" s) ref → content ref i ≠ none → s ∈ names

/-- The answer to a deletion of a stream.  A failed one has removed some of it. -/
structure DeleteAnswer (ref : String) where
  error : Option BlobError
  removed : String → ℕ → Bool
  within : ∀ r i, removed r i = true → Under ref r
  whole : error = none → ∀ i, removed ref i = true

/-- What a tier with this content answers during a pruning, where no call is made twice. -/
structure Tier (content : Content) where
  listing : Except BlobError (Option (List String))
  lists : ∀ names, listing = .ok (some names) → Lists content names
  get : String → Option BlobError
  delete : (ref : String) → DeleteAnswer ref

namespace Tier

variable {content : Content} (tier : Tier content)

/-- The stamps with a manifest. -/
def bundlesOf : List String → Except BlobError (List String)
  | [] => pure []
  | stamp :: stamps => do
    let manifest ← (tier.get (manifestRef stamp)).elim (pure (content (manifestRef stamp) 0)) throw
    let bundles ← bundlesOf stamps
    pure (if manifest.isSome then stamp :: bundles else bundles)

def deleteStream (ref : String) (c : Content) : Except BlobError Unit × Content :=
  ((tier.delete ref).error.elim (.ok ()) .error,
    fun r i => if (tier.delete ref).removed r i then none else c r i)

/-- The manifest goes first. -/
def deleteBundle (stamp : String) (c : Content) : Except BlobError Unit × Content :=
  match tier.deleteStream (manifestRef stamp) c with
  | (.error e, c) => (.error e, c)
  | (.ok (), c) =>
    match tier.deleteStream (componentRef stamp .db) c with
    | (.error e, c) => (.error e, c)
    | (.ok (), c) => tier.deleteStream (componentRef stamp .state) c

def deleteBundles : List String → Content → Except BlobError Unit × Content
  | [], c => (.ok (), c)
  | stamp :: stamps, c =>
    match tier.deleteBundle stamp c with
    | (.error e, c) => (.error e, c)
    | (.ok (), c) => deleteBundles stamps c

/-- Delete all but the newest backups, and not the protected one. -/
def pruneProtecting (keep : ℕ) (protect : Option String) : Except BlobError (List String) × Content :=
  match tier.listing with
  | .error e => (.error e, content)
  | .ok none => (.ok [], content)
  | .ok (some names) =>
    match tier.bundlesOf (sortNames names) with
    | .error e => (.error e, content)
    | .ok bundles =>
      if bundles.length ≤ keep then (.ok [], content)
      else
        let victims := (bundles.take (bundles.length - keep)).filter fun s => some s ≠ protect
        match tier.deleteBundles victims content with
        | (.error e, c) => (.error e, c)
        | (.ok (), c) => (.ok victims, c)

def prune (keep : ℕ) : Except BlobError (List String) × Content := tier.pruneProtecting keep none

end Tier

def putManifest (content : Content) (stamp : String) (bytes : List UInt8) : Content := fun r i =>
  if r = manifestRef stamp ∧ i = 0 then some bytes else content r i

/-- Publish a backup: write its manifest, and prune without it. -/
def commitBundle (content : Content) (stamp : String) (bytes : List UInt8)
    (write : Except (BlobError × Bool) Unit) (tier : Tier (putManifest content stamp bytes))
    (keep : ℕ) : Except BlobError (List String) × Content :=
  match write with
  | .error (e, written) => (.error e, if written then putManifest content stamp bytes else content)
  | .ok () => tier.pruneProtecting keep (some stamp)

/-! ## A tier in memory -/

/-- The child of a folder that a path leads to. -/
def childOf (head path : String) : Option String :=
  if head.toList.isPrefixOf path.toList then
    let name := (path.toList.drop head.toList.length).takeWhile (· ≠ '/')
    if name = [] then none else some (String.ofList name)
  else none

/-- The children of a folder, in order and each once. -/
def childrenOf (folder : String) (paths : List String) : List String :=
  sortNames ((paths.filterMap
    (childOf (String.ofList (folder.toList.rdropWhile (· = '/')) ++ "/"))).dedup)

def contentOf (chunks : List (String × ℕ × List UInt8)) : Content := fun r i =>
  (chunks.find? fun c => c.1 = r ∧ c.2.1 = i).map (·.2.2)

def pathOf (chunk : String × ℕ × List UInt8) : String := chunk.1 ++ "/" ++ toString chunk.2.1

lemma childOf_eq_some {path name : String} (h : childOf "_backup/" path = some name) :
    IsName name := by
  unfold childOf at h
  split at h
  · dsimp only at h
    split at h
    · cases h
    · rename_i hne
      obtain rfl := Option.some.inj h
      refine ⟨fun hempty => hne ?_, fun hslash => ?_⟩
      · have hlist := congrArg String.toList hempty
        simpa using hlist
      · rw [String.toList_ofList] at hslash
        have hstop := List.mem_takeWhile_imp hslash
        simp at hstop
  · cases h

lemma childOf_under {path name : String} (hname : IsName name)
    (h : Under (child "_backup" name) path) : childOf "_backup/" path = some name := by
  have hstart : ("_backup/".toList).isPrefixOf path.toList = true :=
    List.isPrefixOf_iff_prefix.mpr h.inside
  have hsegment : (path.toList.drop "_backup/".toList.length).takeWhile (· ≠ '/') = name.toList :=
    h.name hname
  have hne : ¬ name.toList = [] := fun hnil => hname.1 (String.toList_injective hnil)
  unfold childOf
  rw [if_pos hstart]
  dsimp only
  rw [hsegment, if_neg hne, String.ofList_toList]

lemma lists_childrenOf (chunks : List (String × ℕ × List UInt8)) :
    Lists (contentOf chunks) (childrenOf "_backup" (chunks.map pathOf)) := by
  have hhead : String.ofList ("_backup".toList.rdropWhile (· = '/')) ++ "/" = "_backup/" := by
    decide
  unfold childrenOf
  rw [hhead]
  have hmem : ∀ s, s ∈ sortNames (((chunks.map pathOf).filterMap (childOf "_backup/")).dedup) ↔
      ∃ path ∈ chunks.map pathOf, childOf "_backup/" path = some s := by
    intro s
    rw [(sortNames_perm _).mem_iff, List.mem_dedup, List.mem_filterMap]
  refine ⟨(sortNames_perm _).nodup_iff.mpr (List.nodup_dedup _), fun s hs => ?_,
    fun s hs r i hunder hheld => (hmem s).mpr ?_⟩
  · obtain ⟨path, -, hchild⟩ := (hmem s).mp hs
    exact childOf_eq_some hchild
  · unfold contentOf at hheld
    obtain ⟨bytes, hbytes⟩ := Option.ne_none_iff_exists'.mp hheld
    obtain ⟨chunk, hfind, -⟩ := Option.map_eq_some_iff.mp hbytes
    have hchunk : chunk.1 = r ∧ chunk.2.1 = i := by simpa using List.find?_some hfind
    refine ⟨pathOf chunk, List.mem_map_of_mem (List.mem_of_find?_eq_some hfind),
      childOf_under hs ?_⟩
    have hlonger : r.toList ++ '/' :: (toString chunk.2.1).toList = (pathOf chunk).toList := by
      rw [pathOf, hchunk.1]
      simp
    rcases hunder with rfl | hinside
    · refine Or.inr ?_
      rw [← hlonger, String.toList_append]
      exact ⟨(toString chunk.2.1).toList, by simp⟩
    · refine Or.inr (hinside.trans ?_)
      rw [← hlonger]
      exact List.prefix_append _ _

/-- A deletion that removes the chunks of the stream. -/
def deletesAll (ref : String) : DeleteAnswer ref where
  error := none
  removed r _ := decide (r = ref)
  within _ _ h := Or.inl (of_decide_eq_true h)
  whole _ _ := decide_eq_true rfl

/-- A tier that keeps its chunks in memory, and never fails. -/
def memoryTier (chunks : List (String × ℕ × List UInt8)) : Tier (contentOf chunks) where
  listing := .ok (some (childrenOf "_backup" (chunks.map pathOf)))
  lists _ h := Option.some.inj (Except.ok.inj h) ▸ lists_childrenOf chunks
  get _ := none
  delete := deletesAll

/-! ## What a deletion leaves -/

def Shrinks (c c' : Content) : Prop := ∀ r i, c' r i = c r i ∨ c' r i = none

/-- The manifest and the parts are gone. -/
def Gone (c : Content) (stamp : String) : Prop :=
  ∀ i, c (manifestRef stamp) i = none ∧ ∀ component, c (componentRef stamp component) i = none

/-- Of these backups something was deleted, of each of them the manifest first. -/
structure Deleted (stamps : List String) (c c' : Content) : Prop where
  shrinks : Shrinks c c'
  outside : ∀ r, (∀ s ∈ stamps, ¬ Under (child "_backup" s) r) → c' r = c r
  first : ∀ s, IsName s → ∀ component r i, Under (componentRef s component) r → c' r i ≠ c r i →
    c' (manifestRef s) 0 = none

variable {content c c' c'' : Content} {tier : Tier content} {stamp ref r : String} {i : ℕ}
  {stamps : List String}

lemma Shrinks.refl (c : Content) : Shrinks c c := fun _ _ => Or.inl rfl

lemma Shrinks.trans (h : Shrinks c c') (h' : Shrinks c' c'') : Shrinks c c'' := by
  intro r i
  rcases h' r i with heq | hnone
  · rw [heq]
    exact h r i
  · exact Or.inr hnone

lemma Shrinks.none (h : Shrinks c c') (hnone : c r i = none) : c' r i = none := by
  rcases h r i with heq | hgone
  · rw [heq, hnone]
  · exact hgone

lemma Shrinks.gone (h : Shrinks c c') (hgone : Gone c stamp) : Gone c' stamp := fun i =>
  ⟨h.none (hgone i).1, fun component => h.none ((hgone i).2 component)⟩

lemma Deleted.refl (stamps : List String) (c : Content) : Deleted stamps c c :=
  ⟨.refl c, fun _ _ => rfl, fun _ _ _ _ _ _ hne => absurd rfl hne⟩

lemma Deleted.mono {more : List String} (hsub : ∀ s ∈ stamps, s ∈ more)
    (h : Deleted stamps c c') : Deleted more c c' :=
  ⟨h.shrinks, fun r hr => h.outside r fun s hs => hr s (hsub s hs), h.first⟩

lemma Deleted.trans {more : List String} (h : Deleted stamps c c') (h' : Deleted more c' c'') :
    Deleted (stamps ++ more) c c'' := by
  refine ⟨h.shrinks.trans h'.shrinks, fun r hr => ?_, fun s hs component r i hunder hne => ?_⟩
  · rw [h'.outside r fun s hs => hr s (List.mem_append_right _ hs),
      h.outside r fun s hs => hr s (List.mem_append_left _ hs)]
  · by_cases hstep : c'' r i = c' r i
    · rw [hstep] at hne
      exact h'.shrinks.none (h.first s hs component r i hunder hne)
    · exact h'.first s hs component r i hunder hstep

lemma deleteStream_of_not_under (h : ¬ Under ref r) : (tier.deleteStream ref c).2 r = c r := by
  funext i
  unfold Tier.deleteStream
  exact if_neg fun hremoved => h ((tier.delete ref).within r i hremoved)

lemma deleteStream_shrinks (tier : Tier content) (ref : String) (c : Content) :
    Shrinks c (tier.deleteStream ref c).2 := by
  intro r i
  unfold Tier.deleteStream
  dsimp only
  split
  · exact Or.inr rfl
  · exact Or.inl rfl

lemma deleteStream_ok (tier : Tier content) (ref : String) (c : Content)
    (h : (tier.deleteStream ref c).1 = .ok ()) (i : ℕ) :
    (tier.deleteStream ref c).2 ref i = none := by
  unfold Tier.deleteStream at h ⊢
  cases herror : (tier.delete ref).error with
  | none => exact if_pos ((tier.delete ref).whole herror i)
  | some e =>
    rw [herror] at h
    cases h

lemma under_stamp_of_manifest (h : Under (manifestRef stamp) r) : Under (child "_backup" stamp) r := by
  rw [manifestRef_eq] at h
  exact Or.inr h.inside

lemma under_stamp_of_component {component : Component} (h : Under (componentRef stamp component) r) :
    Under (child "_backup" stamp) r := by
  rw [componentRef_eq] at h
  exact Or.inr h.inside

lemma eq_of_changed {s : String} {component : Component} (hs : IsName s) (hstamp : IsName stamp)
    (href : ∀ r, Under ref r → Under (child "_backup" stamp) r)
    (hunder : Under (componentRef s component) r)
    (hne : (tier.deleteStream ref c).2 r i ≠ c r i) : s = stamp ∧ Under ref r := by
  have hin : Under ref r := by
    by_contra hout
    exact hne (congrFun (deleteStream_of_not_under hout) i)
  exact ⟨(under_stamp_of_component hunder).unique hs hstamp (href r hin), hin⟩

lemma deleted_manifest (tier : Tier content) (hstamp : IsName stamp) (c : Content) :
    Deleted [stamp] c (tier.deleteStream (manifestRef stamp) c).2 := by
  refine ⟨deleteStream_shrinks tier _ c, fun r hr => ?_, fun s hs component r i hunder hne => ?_⟩
  · refine deleteStream_of_not_under fun hunder => ?_
    exact hr stamp List.mem_cons_self (under_stamp_of_manifest hunder)
  · obtain ⟨rfl, hmanifest⟩ := eq_of_changed hs hstamp (fun _ => under_stamp_of_manifest) hunder hne
    exact absurd hmanifest (not_under_manifest hunder)

lemma deleted_component (tier : Tier content) (hstamp : IsName stamp) (component : Component)
    (hgone : c (manifestRef stamp) 0 = none) :
    Deleted [stamp] c (tier.deleteStream (componentRef stamp component) c).2 := by
  have hshrinks := deleteStream_shrinks tier (componentRef stamp component) c
  refine ⟨hshrinks, fun r hr => ?_, fun s hs component' r i hunder hne => ?_⟩
  · refine deleteStream_of_not_under fun hunder => ?_
    exact hr stamp List.mem_cons_self (under_stamp_of_component hunder)
  · obtain ⟨rfl, -⟩ := eq_of_changed hs hstamp (fun _ => under_stamp_of_component) hunder hne
    exact hshrinks.none hgone

/-- However far a deletion comes, the manifest goes first; one that ends well leaves nothing. -/
lemma deleteBundle_spec (tier : Tier content) (hstamp : IsName stamp) (c : Content) :
    Deleted [stamp] c (tier.deleteBundle stamp c).2 ∧
      ((tier.deleteBundle stamp c).1 = .ok () → Gone (tier.deleteBundle stamp c).2 stamp) := by
  have hmanifest := deleted_manifest tier hstamp c
  have hunlisted := deleteStream_ok tier (manifestRef stamp) c
  unfold Tier.deleteBundle
  cases hm : tier.deleteStream (manifestRef stamp) c with
  | mk result c₁ =>
    rw [hm] at hmanifest hunlisted
    cases result with
    | error e => exact ⟨hmanifest, fun h => by cases h⟩
    | ok =>
      dsimp only
      have hnone := hunlisted rfl
      have hdb := deleted_component tier hstamp .db (hnone 0)
      have hdbGone := deleteStream_ok tier (componentRef stamp .db) c₁
      cases hd : tier.deleteStream (componentRef stamp .db) c₁ with
      | mk result c₂ =>
        rw [hd] at hdb hdbGone
        have hboth : Deleted [stamp] c c₂ := (hmanifest.trans hdb).mono (by simp)
        cases result with
        | error e => exact ⟨hboth, fun h => by cases h⟩
        | ok =>
          dsimp only
          have hstate := deleted_component tier hstamp .state (hdb.shrinks.none (hnone 0))
          refine ⟨(hboth.trans hstate).mono (by simp), fun h i => ?_⟩
          refine ⟨hstate.shrinks.none (hdb.shrinks.none (hnone i)), fun component => ?_⟩
          cases component with
          | db => exact hstate.shrinks.none (hdbGone rfl i)
          | state => exact deleteStream_ok tier (componentRef stamp .state) c₂ h i

lemma deleteBundles_spec (tier : Tier content) (hstamps : ∀ s ∈ stamps, IsName s) (c : Content) :
    Deleted stamps c (tier.deleteBundles stamps c).2 ∧
      ((tier.deleteBundles stamps c).1 = .ok () →
        ∀ s ∈ stamps, Gone (tier.deleteBundles stamps c).2 s) := by
  induction stamps generalizing c with
  | nil => exact ⟨.refl [] c, fun _ s hs => by cases hs⟩
  | cons stamp stamps ih =>
    have hstep := deleteBundle_spec tier (hstamps stamp List.mem_cons_self) c
    unfold Tier.deleteBundles
    cases hb : tier.deleteBundle stamp c with
    | mk result c₁ =>
      rw [hb] at hstep
      obtain ⟨hdeleted, hgone⟩ := hstep
      cases result with
      | error e =>
        exact ⟨hdeleted.mono (by simp), fun h => by cases h⟩
      | ok =>
        dsimp only
        obtain ⟨hrest, hrestGone⟩ := ih (fun s hs => hstamps s (List.mem_cons_of_mem _ hs)) c₁
        refine ⟨hdeleted.trans hrest, fun h s hs => ?_⟩
        rcases List.mem_cons.mp hs with rfl | hs
        · exact hrest.shrinks.gone (hgone rfl)
        · exact hrestGone h s hs

lemma deleteBundles_ok (tier : Tier content) (hquiet : ∀ ref, (tier.delete ref).error = none)
    (stamps : List String) (c : Content) : (tier.deleteBundles stamps c).1 = .ok () := by
  have hstream : ∀ ref c, (tier.deleteStream ref c).1 = .ok () := by
    intro ref c
    unfold Tier.deleteStream
    rw [hquiet ref]
    rfl
  have hbundle : ∀ stamp c, (tier.deleteBundle stamp c).1 = .ok () := by
    intro stamp c
    unfold Tier.deleteBundle
    have hmanifest := hstream (manifestRef stamp) c
    cases hm : tier.deleteStream (manifestRef stamp) c with
    | mk result c₁ =>
      rw [hm] at hmanifest
      obtain rfl : result = .ok () := hmanifest
      dsimp only
      have hdb := hstream (componentRef stamp .db) c₁
      cases hd : tier.deleteStream (componentRef stamp .db) c₁ with
      | mk result c₂ =>
        rw [hd] at hdb
        obtain rfl : result = .ok () := hdb
        exact hstream _ _
  induction stamps generalizing c with
  | nil => rfl
  | cons stamp stamps ih =>
    have hstep := hbundle stamp c
    unfold Tier.deleteBundles
    cases hb : tier.deleteBundle stamp c with
    | mk result c₁ =>
      rw [hb] at hstep
      obtain rfl : result = .ok () := hstep
      exact ih c₁

/-! ## Which backups are deleted -/

/-- The backups: the names under which there is a manifest. -/
def manifested (content : Content) : Set String :=
  {s | IsName s ∧ (content (manifestRef s) 0).isSome = true}

lemma bundlesOf_ok {bundles : List String} (h : tier.bundlesOf stamps = .ok bundles) :
    bundles = stamps.filter fun s => (content (manifestRef s) 0).isSome := by
  induction stamps generalizing bundles with
  | nil =>
    obtain rfl := pure_eq_ok.mp h
    rfl
  | cons stamp stamps ih =>
    unfold Tier.bundlesOf at h
    obtain ⟨manifest, hmanifest, h⟩ := bind_eq_ok.mp h
    obtain ⟨rest, hrest, h⟩ := bind_eq_ok.mp h
    obtain rfl := pure_eq_ok.mp h
    have hread : manifest = content (manifestRef stamp) 0 := by
      cases hget : tier.get (manifestRef stamp) with
      | none =>
        rw [hget] at hmanifest
        exact (pure_eq_ok.mp hmanifest).symm
      | some e =>
        rw [hget] at hmanifest
        cases hmanifest
    rw [hread, ih hrest, List.filter_cons]

lemma bundlesOf_quiet (hquiet : ∀ ref, tier.get ref = none) (stamps : List String) :
    ∃ bundles, tier.bundlesOf stamps = .ok bundles := by
  induction stamps with
  | nil => exact ⟨[], rfl⟩
  | cons stamp stamps ih =>
    obtain ⟨rest, hrest⟩ := ih
    unfold Tier.bundlesOf
    rw [hquiet, Option.elim_none, hrest]
    exact ⟨_, rfl⟩

lemma bundles_sorted {names bundles : List String} (hlists : Lists content names)
    (h : tier.bundlesOf (sortNames names) = .ok bundles) :
    bundles.Pairwise (· < ·) ∧ ∀ s, s ∈ bundles ↔ s ∈ manifested content := by
  have hmem : ∀ s, s ∈ sortNames names ↔ s ∈ names := fun s => (sortNames_perm names).mem_iff
  rw [bundlesOf_ok h]
  constructor
  · have hdistinct : (sortNames names).Nodup := (sortNames_perm names).nodup_iff.mpr hlists.distinct
    have hboth := (sortNames_pairwise names).and hdistinct
    exact (hboth.imp fun h => lt_of_le_of_ne h.1 h.2).filter _
  · intro s
    rw [List.mem_filter, hmem]
    constructor
    · rintro ⟨hs, hmanifest⟩
      exact ⟨hlists.segment s hs, hmanifest⟩
    · rintro ⟨hs, hmanifest⟩
      refine ⟨hlists.complete s hs (manifestRef s) 0 ?_ ?_, hmanifest⟩
      · rw [manifestRef_eq]
        exact Or.inr (by rw [toList_child (child "_backup" s)]; exact List.prefix_append _ _)
      · exact Option.isSome_iff_ne_none.mp hmanifest

structure Tier.Quiet (tier : Tier content) : Prop where
  listing : ∃ names, tier.listing = .ok (some names)
  get : ∀ ref, tier.get ref = none
  delete : ∀ ref, (tier.delete ref).error = none

/-- The backups that a pruning may delete. -/
def outdated (content : Content) (keep : ℕ) (protect : Option String) : Set String :=
  {s | s ∈ manifested content ∧ ¬ Retention.Newest (manifested content) keep s ∧ protect ≠ some s}

lemma pruneProtecting_spec (tier : Tier content) (keep : ℕ) (protect : Option String) :
    ∃ victims, (∀ s ∈ victims, s ∈ outdated content keep protect) ∧
      Deleted victims content (tier.pruneProtecting keep protect).2 ∧
      (tier.Quiet → (tier.pruneProtecting keep protect).1 = .ok victims ∧
        (∀ s, s ∈ victims ↔ s ∈ outdated content keep protect) ∧
        ∀ s ∈ victims, Gone (tier.pruneProtecting keep protect).2 s) := by
  have hnothing : ∀ s ∈ ([] : List String), s ∈ outdated content keep protect :=
    fun s hs => absurd hs List.not_mem_nil
  unfold Tier.pruneProtecting
  cases hlisting : tier.listing with
  | error e =>
    refine ⟨[], hnothing, .refl _ _, fun hquiet => ?_⟩
    obtain ⟨names, hnames⟩ := hquiet.listing
    rw [hlisting] at hnames
    cases hnames
  | ok listed =>
    cases listed with
    | none =>
      refine ⟨[], hnothing, .refl _ _, fun hquiet => ?_⟩
      obtain ⟨names, hnames⟩ := hquiet.listing
      rw [hlisting] at hnames
      cases hnames
    | some names =>
      dsimp only
      cases hbundles : tier.bundlesOf (sortNames names) with
      | error e =>
        refine ⟨[], hnothing, .refl _ _, fun hquiet => ?_⟩
        obtain ⟨bundles, hok⟩ := bundlesOf_quiet hquiet.get (sortNames names)
        rw [hbundles] at hok
        cases hok
      | ok bundles =>
        dsimp only
        obtain ⟨hsorted, hmem⟩ := bundles_sorted (tier.lists names hlisting) hbundles
        have hold : ∀ s, s ∈ bundles.take (bundles.length - keep) ↔ s ∈ manifested content ∧
            ¬ Retention.Newest (manifested content) keep s :=
          fun s => Retention.mem_take_iff hsorted hmem
        have hvictims : ∀ s, s ∈ ((bundles.take (bundles.length - keep)).filter
            fun s => some s ≠ protect) ↔ s ∈ outdated content keep protect := by
          intro s
          rw [List.mem_filter, hold, decide_eq_true_eq, ne_comm]
          exact and_assoc
        by_cases hfew : bundles.length ≤ keep
        · rw [if_pos hfew]
          rw [Nat.sub_eq_zero_of_le hfew, List.take_zero, List.filter_nil] at hvictims
          exact ⟨[], hnothing, .refl _ _, fun _ => ⟨rfl, hvictims, fun s hs => by cases hs⟩⟩
        · rw [if_neg hfew]
          have hnames : ∀ s ∈ ((bundles.take (bundles.length - keep)).filter
              fun s => some s ≠ protect), IsName s := fun s hs => ((hvictims s).mp hs).1.1
          obtain ⟨hdeleted, hgone⟩ := deleteBundles_spec tier hnames content
          have hend := fun hquiet => deleteBundles_ok tier hquiet
            ((bundles.take (bundles.length - keep)).filter fun s => some s ≠ protect) content
          refine ⟨_, fun s => (hvictims s).mp, ?_⟩
          cases hrun : tier.deleteBundles ((bundles.take (bundles.length - keep)).filter
              fun s => some s ≠ protect) content with
          | mk result c =>
            rw [hrun] at hdeleted hgone hend
            cases result with
            | error e => exact ⟨hdeleted, fun hquiet => by cases hend hquiet.delete⟩
            | ok => exact ⟨hdeleted, fun _ => ⟨rfl, hvictims, hgone rfl⟩⟩

end Bundles

open Bundles in
/-- **Pruning is safe.**  Whatever the tier holds and wherever it fails, the newest backups, the
protected one and the folders without a manifest are as they were, no part of a backup is deleted while
its manifest is there, and nothing outside the backups changes.  If nothing fails, the backups that are
left are exactly the newest and the protected one.  A backup that was just published is whole. -/
theorem prune_safe {content : Content} (tier : Tier content) (keep : ℕ) (protect : Option String) :
    (∀ s, IsName s → Retention.Newest (manifested content) keep s ∨ protect = some s ∨
        s ∉ manifested content →
      ∀ r, Under (child "_backup" s) r → (tier.pruneProtecting keep protect).2 r = content r) ∧
    (∀ s, IsName s → ∀ component r i, Under (componentRef s component) r →
      (tier.pruneProtecting keep protect).2 r i ≠ content r i →
      (tier.pruneProtecting keep protect).2 (manifestRef s) 0 = none) ∧
    (∀ r, ¬ "_backup/".toList <+: r.toList →
      (tier.pruneProtecting keep protect).2 r = content r) ∧
    (tier.Quiet →
      (∃ victims, (tier.pruneProtecting keep protect).1 = .ok victims ∧
        ∀ s, s ∈ victims ↔ s ∈ outdated content keep protect) ∧
      (∀ s ∈ outdated content keep protect, Gone (tier.pruneProtecting keep protect).2 s) ∧
      manifested (tier.pruneProtecting keep protect).2 =
        {s | s ∈ manifested content ∧
          (Retention.Newest (manifested content) keep s ∨ protect = some s)}) ∧
    ∀ (old : Content) (stamp : String) (manifest : List UInt8)
      (fresh : Tier (putManifest old stamp manifest)), IsName stamp →
      ∀ r, Under (child "_backup" stamp) r →
        (commitBundle old stamp manifest (.ok ()) fresh keep).2 r =
          putManifest old stamp manifest r := by
  have hkept : ∀ {content : Content} (tier : Tier content) (protect : Option String) (s : String),
      IsName s → s ∉ outdated content keep protect → ∀ r, Under (child "_backup" s) r →
      (tier.pruneProtecting keep protect).2 r = content r := by
    intro content tier protect s hs hkeep r hr
    obtain ⟨victims, hvictims, hdeleted, -⟩ := pruneProtecting_spec tier keep protect
    refine hdeleted.outside r fun t ht ht' => hkeep ?_
    obtain rfl := hr.unique hs (hvictims t ht).1.1 ht'
    exact hvictims s ht
  obtain ⟨victims, hvictims, hdeleted, hquiet⟩ := pruneProtecting_spec tier keep protect
  refine ⟨fun s hs hwhy => hkept tier protect s hs fun hold => ?_, hdeleted.first,
    fun r hr => hdeleted.outside r fun s hs hunder => hr hunder.inside, fun hnone => ?_,
    fun old stamp manifest fresh hstamp => hkept fresh (some stamp) stamp hstamp
      fun hold => hold.2.2 rfl⟩
  · obtain ⟨hmem, hnewer, hother⟩ := hold
    rcases hwhy with hnew | hprotected | hincomplete
    · exact hnewer hnew
    · exact hother hprotected
    · exact hincomplete hmem
  · obtain ⟨hrun, hall, hgone⟩ := hquiet hnone
    refine ⟨⟨victims, hrun, hall⟩, fun s hs => hgone s ((hall s).mpr hs), ?_⟩
    ext s
    constructor
    · rintro ⟨hs, hmanifest⟩
      have hleft : s ∉ victims := by
        intro hvictim
        rw [(hgone s hvictim 0).1] at hmanifest
        cases hmanifest
      have hbefore : s ∈ manifested content := by
        refine ⟨hs, ?_⟩
        rcases hdeleted.shrinks (manifestRef s) 0 with heq | hlost
        · rw [← heq]
          exact hmanifest
        · rw [hlost] at hmanifest
          cases hmanifest
      refine ⟨hbefore, ?_⟩
      by_contra hneither
      rw [not_or] at hneither
      exact hleft ((hall s).mpr ⟨hbefore, hneither.1, hneither.2⟩)
    · rintro ⟨⟨hs, hmanifest⟩, hwhy⟩
      have hsame := hkept tier protect s hs (fun hold => hwhy.elim hold.2.1 hold.2.2)
        (manifestRef s) (under_stamp_of_manifest (Or.inl rfl))
      refine ⟨hs, ?_⟩
      rw [hsame]
      exact hmanifest

end MaxSecu
