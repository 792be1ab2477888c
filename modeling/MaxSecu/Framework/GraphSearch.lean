import Mathlib.Tactic
import Mathlib.Data.Finset.Card
import Mathlib.Logic.Relation

/-!
# Searching a finite graph with a stack

The search keeps the nodes it has met and a stack of those it has not gone on from.  The start is on
the stack and not among the nodes met, so it is found only if an edge leads back to it.

Whatever the edges are, the search ends with exactly the nodes that one or more of them lead to
(`mem_search`).
-/

/-- Successors of every node, all among finitely many nodes. -/
structure FiniteGraph (α : Type) where
  succ : α → List α
  nodes : Finset α
  succ_mem : ∀ a, ∀ b ∈ succ a, b ∈ nodes

namespace FiniteGraph

variable {α : Type} [DecidableEq α] (G : FiniteGraph α)

def Edge (a b : α) : Prop := b ∈ G.succ a

/-- Put a node that was not met before among those met and on the stack. -/
def meet (state : Finset α × List α) (x : α) : Finset α × List α :=
  if x ∈ state.1 then state else (insert x state.1, x :: state.2)

/-- The loop takes a node off the stack and meets its successors. -/
def step (seen : Finset α) (node : α) (stack : List α) : Finset α × List α :=
  (G.succ node).foldl meet (seen, stack)

variable {G} {seen : Finset α} {stack xs : List α} {a b x y : α}

lemma meet_of_mem (hx : x ∈ seen) : meet (seen, stack) x = (seen, stack) := if_pos hx

lemma meet_of_notMem (hx : x ∉ seen) : meet (seen, stack) x = (insert x seen, x :: stack) :=
  if_neg hx

lemma mem_meet_seen : y ∈ (meet (seen, stack) x).1 ↔ y ∈ seen ∨ y = x := by
  by_cases hx : x ∈ seen
  · rw [meet_of_mem hx]
    constructor
    · exact fun hy => .inl hy
    · rintro (hy | rfl)
      · exact hy
      · exact hx
  · rw [meet_of_notMem hx, Finset.mem_insert, or_comm]

lemma mem_meet_stack (hy : y ∈ (meet (seen, stack) x).2) : y ∈ stack ∨ y = x := by
  by_cases hx : x ∈ seen
  · rw [meet_of_mem hx] at hy
    exact .inl hy
  · rw [meet_of_notMem hx] at hy
    exact (List.mem_cons.mp hy).symm

lemma mem_foldl_seen : y ∈ (xs.foldl meet (seen, stack)).1 ↔ y ∈ seen ∨ y ∈ xs := by
  induction xs generalizing seen stack with
  | nil => simp
  | cons x rest ih =>
    rw [List.foldl_cons]
    have hstate : meet (seen, stack) x = ((meet (seen, stack) x).1, (meet (seen, stack) x).2) := rfl
    rw [hstate, ih, mem_meet_seen, List.mem_cons, or_assoc]

lemma mem_foldl_stack (hy : y ∈ (xs.foldl meet (seen, stack)).2) : y ∈ stack ∨ y ∈ xs := by
  induction xs generalizing seen stack with
  | nil => exact .inl hy
  | cons x rest ih =>
    rw [List.foldl_cons] at hy
    obtain hstack | hrest := ih hy
    · obtain hold | rfl := mem_meet_stack hstack
      · exact .inl hold
      · exact .inr List.mem_cons_self
    · exact .inr (List.mem_cons_of_mem x hrest)

/-- What is met for the first time is on the stack. -/
lemma foldl_stack (hy : y ∈ stack ∨ y ∈ xs ∧ y ∉ seen) :
    y ∈ (xs.foldl meet (seen, stack)).2 := by
  induction xs generalizing seen stack with
  | nil => exact hy.resolve_right fun h => absurd h.1 List.not_mem_nil
  | cons x rest ih =>
    rw [List.foldl_cons]
    by_cases hx : x ∈ seen
    · rw [meet_of_mem hx]
      apply ih
      obtain hstack | ⟨hmem, hnew⟩ := hy
      · exact .inl hstack
      · obtain rfl | hrest := List.mem_cons.mp hmem
        · exact absurd hx hnew
        · exact .inr ⟨hrest, hnew⟩
    · rw [meet_of_notMem hx]
      apply ih
      obtain hstack | ⟨hmem, hnew⟩ := hy
      · exact .inl (List.mem_cons_of_mem x hstack)
      · by_cases heq : y = x
        · exact .inl (by simp [heq])
        · obtain rfl | hrest := List.mem_cons.mp hmem
          · exact absurd rfl heq
          · refine .inr ⟨hrest, ?_⟩
            simp [heq, hnew]

/-- Every node met is one less to meet, and one more on the stack. -/
lemma foldl_measure (hxs : ∀ x ∈ xs, x ∈ G.nodes) :
    (G.nodes \ (xs.foldl meet (seen, stack)).1).card + (xs.foldl meet (seen, stack)).2.length =
      (G.nodes \ seen).card + stack.length := by
  induction xs generalizing seen stack with
  | nil => rfl
  | cons x rest ih =>
    rw [List.foldl_cons]
    have hstate : meet (seen, stack) x = ((meet (seen, stack) x).1, (meet (seen, stack) x).2) := rfl
    rw [hstate, ih fun y hy => hxs y (List.mem_cons_of_mem x hy)]
    by_cases hx : x ∈ seen
    · rw [meet_of_mem hx]
    · have hunmet : x ∈ G.nodes \ seen := Finset.mem_sdiff.mpr ⟨hxs x List.mem_cons_self, hx⟩
      have herase : G.nodes \ insert x seen = (G.nodes \ seen).erase x :=
        Finset.sdiff_insert G.nodes seen x
      have hcard := Finset.card_erase_add_one hunmet
      rw [meet_of_notMem hx]
      simp only [List.length_cons]
      rw [herase]
      omega

lemma step_measure (seen : Finset α) (node : α) (stack : List α) :
    (G.nodes \ (G.step seen node stack).1).card + (G.step seen node stack).2.length =
      (G.nodes \ seen).card + stack.length :=
  foldl_measure (G.succ_mem node)

variable (G) in
def searchLoop (seen : Finset α) : List α → Finset α
  | [] => seen
  | node :: stack => searchLoop (G.step seen node stack).1 (G.step seen node stack).2
termination_by stack => (G.nodes \ seen).card + stack.length
decreasing_by
  rw [step_measure, List.length_cons]
  omega

variable (G) in
/-- The nodes that one or more edges lead to from `start`. -/
def search (start : α) : Finset α := G.searchLoop ∅ [start]

/-- All that is met or on the stack is reached from the start. -/
lemma searchLoop_sound {P : α → Prop} (hedge : ∀ a b, (a = x ∨ P a) → G.Edge a b → P b)
    (hseen : ∀ y ∈ seen, P y) (hstack : ∀ y ∈ stack, y = x ∨ P y) :
    ∀ y ∈ G.searchLoop seen stack, P y := by
  induction seen, stack using searchLoop.induct G with
  | case1 seen =>
    rw [searchLoop]
    exact hseen
  | case2 seen node stack ih =>
    rw [searchLoop]
    have hnode : node = x ∨ P node := hstack node List.mem_cons_self
    apply ih
    · intro y hy
      obtain hold | hsucc := mem_foldl_seen.mp hy
      · exact hseen y hold
      · exact hedge node y hnode hsucc
    · intro y hy
      obtain hold | hsucc := mem_foldl_stack hy
      · exact hstack y (List.mem_cons_of_mem node hold)
      · exact .inr (hedge node y hnode hsucc)

/-- At the end no edge leads out of what was met: a node is on the stack until its successors are
met. -/
lemma searchLoop_closed
    (hopen : ∀ a, a = x ∨ a ∈ seen → a ∈ stack ∨ ∀ b, G.Edge a b → b ∈ seen) :
    ∀ a, a = x ∨ a ∈ G.searchLoop seen stack → ∀ b, G.Edge a b → b ∈ G.searchLoop seen stack := by
  induction seen, stack using searchLoop.induct G with
  | case1 seen =>
    rw [searchLoop]
    exact fun a ha => (hopen a ha).resolve_left List.not_mem_nil
  | case2 seen node stack ih =>
    rw [searchLoop]
    apply ih
    intro a ha
    have hgrows : ∀ b, b ∈ seen → b ∈ (G.step seen node stack).1 :=
      fun b hb => mem_foldl_seen.mpr (.inl hb)
    by_cases hold : a = x ∨ a ∈ seen
    · obtain hstack | hclosed := hopen a hold
      · obtain rfl | hrest := List.mem_cons.mp hstack
        · exact .inr fun b hb => mem_foldl_seen.mpr (.inr hb)
        · exact .inl (foldl_stack (.inl hrest))
      · exact .inr fun b hb => hgrows b (hclosed b hb)
    · obtain hx | hmem := ha
      · exact absurd (.inl hx) hold
      · obtain hseen | hsucc := mem_foldl_seen.mp hmem
        · exact absurd (.inr hseen) hold
        · exact .inl (foldl_stack (.inr ⟨hsucc, fun h => hold (.inr h)⟩))

/-- **The search finds exactly what one or more edges lead to.** -/
theorem mem_search : b ∈ G.search a ↔ Relation.TransGen G.Edge a b := by
  constructor
  · refine searchLoop_sound (x := a) ?_ (by simp) (by simp) b
    rintro c d (rfl | hreach) hedge
    · exact .single hedge
    · exact hreach.tail hedge
  · have hclosed : ∀ c, c = a ∨ c ∈ G.search a → ∀ d, G.Edge c d → d ∈ G.search a :=
      searchLoop_closed (by simp)
    intro hreach
    induction hreach with
    | single hedge => exact hclosed a (.inl rfl) _ hedge
    | tail _ hedge ih => exact hclosed _ (.inr ih) _ hedge

end FiniteGraph
