import Mathlib.Tactic
import Mathlib.Data.List.Basic

/-!
# Answers in pages

An answer comes in pages, and a page says how to ask for the next one, or that it is the last.  What
the pages carry is joined on the way.  Which answer a request gets may depend on all the requests
before it.

With enough rounds the loop returns the join of the pages (`fetch_served`), and it returns one result
only (`fetch_unique`).
-/

namespace Paging

variable {ρ α β ε : Type} (ask : List ρ → Except ε (α × β)) (next : α → Except ε (Option ρ))
  (join : β → β → β)

/-- Ask for the further pages after one, when the requests were sent and something was collected.
Every round asks for a page. -/
def fetch : ℕ → List ρ → α → β → Option (Except ε β)
  | 0, _, _, _ => none
  | rounds + 1, sent, page, collected =>
    match next page with
    | .error e => some (.error e)
    | .ok none => some (.ok collected)
    | .ok (some request) =>
      match ask (sent ++ [request]) with
      | .error e => some (.error e)
      | .ok (page, more) => fetch rounds (sent ++ [request]) page (join collected more)

/-- The loop comes from one page to another one. -/
inductive Reaches (sent₀ : List ρ) (page₀ : α) (collected₀ : β) : List ρ → α → β → Prop
  | start : Reaches sent₀ page₀ collected₀ sent₀ page₀ collected₀
  | step {sent : List ρ} {page page' : α} {collected more : β} {request : ρ} :
      Reaches sent₀ page₀ collected₀ sent page collected → next page = .ok (some request) →
      ask (sent ++ [request]) = .ok (page', more) →
      Reaches sent₀ page₀ collected₀ (sent ++ [request]) page' (join collected more)

/-- After a page there are further pages with these contents. -/
def Served : List ρ → α → List β → Prop
  | _, page, [] => next page = .ok none
  | sent, page, more :: rest =>
    ∃ request page', next page = .ok (some request) ∧
      ask (sent ++ [request]) = .ok (page', more) ∧ Served (sent ++ [request]) page' rest

variable {ask next join} {sent sent₀ : List ρ} {page page₀ page' : α} {collected collected₀ more : β}
  {request : ρ} {rounds rounds' : ℕ} {r r' : Except ε β}

lemma fetch_step (hnext : next page = .ok (some request))
    (hask : ask (sent ++ [request]) = .ok (page', more)) :
    fetch ask next join (rounds + 1) sent page collected =
      fetch ask next join rounds (sent ++ [request]) page' (join collected more) := by
  rw [fetch, hnext]
  dsimp only
  rw [hask]

/-- More rounds change nothing. -/
lemma fetch_add (k : ℕ) (h : fetch ask next join rounds sent page collected = some r) :
    fetch ask next join (rounds + k) sent page collected = some r := by
  induction rounds generalizing sent page collected with
  | zero => exact absurd h (by simp [fetch])
  | succ rounds ih =>
    rw [Nat.succ_add_eq_add_succ, Nat.add_succ]
    unfold fetch at h ⊢
    cases hnext : next page with
    | error e =>
      rw [hnext] at h
      exact h
    | ok o =>
      rw [hnext] at h
      cases o with
      | none => exact h
      | some request =>
        dsimp only at h ⊢
        cases hask : ask (sent ++ [request]) with
        | error e =>
          rw [hask] at h
          exact h
        | ok x =>
          rw [hask] at h
          exact ih h

lemma fetch_unique (h : fetch ask next join rounds sent page collected = some r)
    (h' : fetch ask next join rounds' sent page collected = some r') : r = r' := by
  have hr := fetch_add rounds' h
  have hr' := fetch_add rounds h'
  rw [Nat.add_comm] at hr'
  exact Option.some.inj (hr.symm.trans hr')

theorem fetch_served {items : List β} (h : Served ask next sent page items)
    (hrounds : items.length < rounds) :
    fetch ask next join rounds sent page collected = some (.ok (items.foldl join collected)) := by
  induction items generalizing sent page collected rounds with
  | nil =>
    obtain ⟨rounds, rfl⟩ := Nat.exists_eq_succ_of_ne_zero (Nat.pos_iff_ne_zero.mp hrounds)
    have hlast : next page = .ok none := h
    rw [Nat.succ_eq_add_one, fetch, hlast]
    rfl
  | cons more rest ih =>
    obtain ⟨request, page', hnext, hask, hrest⟩ := h
    obtain ⟨rounds, rfl⟩ := Nat.exists_eq_succ_of_ne_zero (Nat.ne_zero_of_lt hrounds)
    rw [Nat.succ_eq_add_one, fetch_step hnext hask, ih hrest (Nat.lt_of_succ_lt_succ hrounds)]
    rfl

end Paging
