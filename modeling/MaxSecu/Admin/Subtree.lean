import MaxSecu.Framework.GraphSearch
import MaxSecu.Encoding.Types

/-!
# The subtree of a revocation

Who has to be tombstoned when a user is cut off from a file: the user and everyone the user granted
access to, by any chain of grants, unless the owner reaches them without that user.  The grants are
those of the audit sink, in any order and with any cycles.

`CutsOff` says what the set is for.  The search starts from the owner without counting it as
reached, so a grant back to the owner puts the owner into the set: it is right exactly when that
does not happen (`cutsOff_iff`).
-/

namespace MaxSecu

open Relation

/-- A grant as the audit sink has it. -/
structure GrantEdge where
  fileId : Id
  grantedBy : Id
  recipient : Id
  deriving DecidableEq

section Search

variable (edges : List GrantEdge) (fileId : Id)

/-- Those a user granted the file to, outside of `avoid`; one in `avoid` passes nothing on. -/
def grantedTo (avoid : Finset Id) (node : Id) : List Id :=
  if node ∈ avoid then []
  else
    ((edges.filter fun e => e.fileId = fileId ∧ e.grantedBy = node).map GrantEdge.recipient).filter
      fun recipient => recipient ∉ avoid

def Grants (a b : Id) : Prop := ⟨fileId, a, b⟩ ∈ edges

/-- The same with neither of them in the set. -/
def GrantsAvoiding (avoid : Finset Id) (a b : Id) : Prop :=
  a ∉ avoid ∧ b ∉ avoid ∧ Grants edges fileId a b

variable {edges fileId} {avoid : Finset Id} {a b u r owner : Id}

lemma mem_grantedTo : b ∈ grantedTo edges fileId avoid a ↔ GrantsAvoiding edges fileId avoid a b := by
  unfold grantedTo GrantsAvoiding Grants
  by_cases ha : a ∈ avoid
  · simp [ha]
  · rw [if_neg ha]
    simp only [List.mem_filter, List.mem_map, decide_eq_true_eq]
    constructor
    · rintro ⟨⟨e, ⟨he, rfl, rfl⟩, rfl⟩, hb⟩
      exact ⟨ha, hb, he⟩
    · rintro ⟨-, hb, he⟩
      exact ⟨⟨_, ⟨he, rfl, rfl⟩, rfl⟩, hb⟩

lemma grantedTo_mem (edges : List GrantEdge) (fileId : Id) (avoid : Finset Id) (a : Id) :
    ∀ b ∈ grantedTo edges fileId avoid a, b ∈ (edges.map GrantEdge.recipient).toFinset := by
  intro b hb
  obtain ⟨-, -, he⟩ := mem_grantedTo.mp hb
  exact List.mem_toFinset.mpr (List.mem_map.mpr ⟨_, he, rfl⟩)

variable (edges fileId) in
/-- The grants of a file outside of `avoid`. -/
def grantGraph (avoid : Finset Id) : FiniteGraph Id where
  succ := grantedTo edges fileId avoid
  nodes := (edges.map GrantEdge.recipient).toFinset
  succ_mem := grantedTo_mem edges fileId avoid

/-- Everyone reached from `start` by grants outside of `avoid`; `start` itself only by a grant back
to it. -/
def reachableFrom (start : Id) (edges : List GrantEdge) (fileId : Id) (avoid : Finset Id) :
    Finset Id :=
  (grantGraph edges fileId avoid).search start

lemma mem_reachableFrom :
    b ∈ reachableFrom a edges fileId avoid ↔ TransGen (GrantsAvoiding edges fileId avoid) a b := by
  have hedge : (grantGraph edges fileId avoid).Edge = GrantsAvoiding edges fileId avoid :=
    funext fun a => funext fun b => propext mem_grantedTo
  rw [reachableFrom, FiniteGraph.mem_search, hedge]

lemma grantsAvoiding_empty : GrantsAvoiding edges fileId ∅ = Grants edges fileId := by
  funext a b
  simp [GrantsAvoiding]

/-- The user and all below them, but for those the owner reaches without the user. -/
def revocationSubtree (edges : List GrantEdge) (fileId r owner : Id) : Finset Id :=
  let authorized := reachableFrom owner edges fileId {r}
  let fromR := reachableFrom r edges fileId ∅
  insert r (fromR.filter fun node => node ∉ authorized)

lemma mem_revocationSubtree : u ∈ revocationSubtree edges fileId r owner ↔
    u = r ∨ TransGen (Grants edges fileId) r u ∧
      ¬ TransGen (GrantsAvoiding edges fileId {r}) owner u := by
  rw [revocationSubtree, Finset.mem_insert, Finset.mem_filter, mem_reachableFrom,
    mem_reachableFrom, grantsAvoiding_empty]

end Search

/-! ## What the set is for -/

/-- The set cuts the user off, and no one who has the file without the user. -/
structure CutsOff (edges : List GrantEdge) (fileId r owner : Id) (set : Finset Id) : Prop where
  exact : ∀ u, u ∈ set ↔ u = r ∨ TransGen (Grants edges fileId) r u ∧
    ¬ ReflTransGen (GrantsAvoiding edges fileId {r}) owner u
  ownerStays : owner ∉ set
  survivors : ∀ u, u ∉ set →
    (ReflTransGen (Grants edges fileId) owner u ∨ TransGen (Grants edges fileId) r u) →
      ReflTransGen (GrantsAvoiding edges fileId set) owner u

variable {edges : List GrantEdge} {fileId r owner u : Id}

lemma avoids_or_below (hpath : ReflTransGen (Grants edges fileId) owner u) (hne : owner ≠ r) :
    ReflTransGen (GrantsAvoiding edges fileId {r}) owner u ∨ u = r ∨
      TransGen (Grants edges fileId) r u := by
  induction hpath with
  | refl => exact .inl .refl
  | @tail v w _ hgrant ih =>
    obtain havoid | rfl | hbelow := ih
    · by_cases hw : w = r
      · exact .inr (.inl hw)
      · by_cases hv : v = r
        · exact .inr (.inr (hv ▸ .single hgrant))
        · exact .inl (havoid.tail ⟨by simpa using hv, by simpa using hw, hgrant⟩)
    · exact .inr (.inr (.single hgrant))
    · exact .inr (.inr (hbelow.tail hgrant))

lemma avoids_set {set : Finset Id}
    (hset : ∀ v, ReflTransGen (GrantsAvoiding edges fileId {r}) owner v → v ∉ set)
    (hpath : ReflTransGen (GrantsAvoiding edges fileId {r}) owner u) :
    ReflTransGen (GrantsAvoiding edges fileId set) owner u := by
  induction hpath with
  | refl => exact .refl
  | @tail v w hpath hgrant ih =>
    exact ih.tail ⟨hset v hpath, hset w (hpath.tail hgrant), hgrant.2.2⟩

/-- **The subtree is exact** unless the owner is below the user and not, by another cycle, below
itself. -/
theorem cutsOff_iff (hne : owner ≠ r) :
    CutsOff edges fileId r owner (revocationSubtree edges fileId r owner) ↔
      (TransGen (Grants edges fileId) r owner →
        TransGen (GrantsAvoiding edges fileId {r}) owner owner) := by
  constructor
  · intro h hbelow
    by_contra hback
    exact h.ownerStays (mem_revocationSubtree.mpr (.inr ⟨hbelow, hback⟩))
  · intro h
    have hexact : ∀ u, u ∈ revocationSubtree edges fileId r owner ↔ u = r ∨
        TransGen (Grants edges fileId) r u ∧
          ¬ ReflTransGen (GrantsAvoiding edges fileId {r}) owner u := by
      intro u
      rw [mem_revocationSubtree]
      by_cases hu : u = owner
      · subst hu
        constructor
        · rintro (heq | ⟨hbelow, hback⟩)
          · exact .inl heq
          · exact absurd (h hbelow) hback
        · rintro (heq | ⟨-, hrefl⟩)
          · exact .inl heq
          · exact absurd .refl hrefl
      · have hsame : ReflTransGen (GrantsAvoiding edges fileId {r}) owner u ↔
            TransGen (GrantsAvoiding edges fileId {r}) owner u := by
          rw [reflTransGen_iff_eq_or_transGen]
          simp [hu]
        rw [hsame]
    have hkept : ∀ v, ReflTransGen (GrantsAvoiding edges fileId {r}) owner v →
        v ∉ revocationSubtree edges fileId r owner := by
      intro v hpath hmem
      obtain rfl | ⟨-, hnot⟩ := (hexact v).mp hmem
      · obtain heq | ⟨w, -, hgrant⟩ := hpath.cases_tail
        · exact hne heq.symm
        · exact hgrant.2.1 (Finset.mem_singleton_self _)
      · exact hnot hpath
    refine ⟨hexact, hkept owner .refl, ?_⟩
    intro u hu hhad
    rw [hexact] at hu
    obtain ⟨hother, hauthorized⟩ := not_or.mp hu
    have hreached : TransGen (Grants edges fileId) r u →
        ReflTransGen (GrantsAvoiding edges fileId {r}) owner u := by
      intro hbelow
      by_contra hnot
      exact hauthorized ⟨hbelow, hnot⟩
    have hpath : ReflTransGen (GrantsAvoiding edges fileId {r}) owner u := by
      obtain hpath | hbelow := hhad
      · obtain havoid | heq | hbelow := avoids_or_below hpath hne
        · exact havoid
        · exact absurd heq hother
        · exact hreached hbelow
      · exact hreached hbelow
    exact avoids_set hkept hpath

section Examples

/-- The user of one byte. -/
def numbered (n : UInt8) : Id := ⟨.replicate 16 n⟩

/-- The owner grants to two users, and each of them to a third. -/
def twoPaths : List GrantEdge :=
  [⟨numbered 9, numbered 1, numbered 2⟩, ⟨numbered 9, numbered 1, numbered 3⟩,
    ⟨numbered 9, numbered 2, numbered 4⟩, ⟨numbered 9, numbered 3, numbered 4⟩]

/-- One of the two is revoked: the third user stays. -/
theorem cutsOff_twoPaths : CutsOff twoPaths (numbered 9) (numbered 2) (numbered 1)
    (revocationSubtree twoPaths (numbered 9) (numbered 2) (numbered 1)) := by
  have hne : numbered 1 ≠ numbered 2 := by decide
  apply (cutsOff_iff hne).mpr
  intro hbelow
  obtain ⟨w, -, hgrant⟩ := TransGen.tail'_iff.mp hbelow
  have hnone : ∀ e ∈ twoPaths, e.recipient ≠ numbered 1 := by decide
  exact absurd rfl (hnone _ hgrant)

/-- A user granted access by the owner grants it back: revoking the user takes the owner's. -/
theorem cutsOff_grantedBack : ¬ ∀ (edges : List GrantEdge) (fileId r owner : Id), owner ≠ r →
    CutsOff edges fileId r owner (revocationSubtree edges fileId r owner) := by
  intro h
  have hcuts := h [⟨numbered 9, numbered 1, numbered 2⟩, ⟨numbered 9, numbered 2, numbered 1⟩] (numbered 9)
    (numbered 2) (numbered 1) (by decide)
  exact hcuts.ownerStays (by decide +kernel)

end Examples

end MaxSecu
