import Mathlib.Tactic
import Mathlib.Data.List.Basic

/-!
# Runs of a labelled transition relation

`LabelledRun next s path t` is a run from `s` to `t`: `path` lists the states it passed through,
each with the label of the step taken there, and up to each of these it is a run too (`before`).  A
property that holds at the start and is kept by the steps of a run holds at its end
(`invariant_of_steps`).  When steps keep it exactly if their states
and labels meet a condition, it holds all along exactly if every step meets it (`all_iff`).  What
can be done only once is done at most once in a run (`countP_le_one`).  A run is simulated step by
step (`simulates`), and a preorder that steps follow relates each of its states to its end
(`extends_end`).
-/

/-- A run from `s`, with the states it left and the labels of its steps, in order. -/
inductive LabelledRun {σ ι : Type} (next : σ → ι → σ → Prop) (s : σ) : List (σ × ι) → σ → Prop
  | start : LabelledRun next s [] s
  | step {path : List (σ × ι)} {t u : σ} {i : ι} :
      LabelledRun next s path t → next t i u → LabelledRun next s (path ++ [(t, i)]) u

namespace LabelledRun

variable {σ ι : Type} {next : σ → ι → σ → Prop} {s t : σ} {path : List (σ × ι)}

/-- What holds at the start and is kept by the steps of the run holds at its end. -/
theorem invariant_of_steps {Inv : σ → Prop} {Ok : σ → ι → Prop} (hinit : Inv s)
    (hstep : ∀ t i u, Inv t → Ok t i → next t i u → Inv u) (hrun : LabelledRun next s path t)
    (hok : ∀ x ∈ path, Ok x.1 x.2) : Inv t := by
  induction hrun with
  | start => exact hinit
  | @step path t u i _ hnext ih =>
    have hbefore : ∀ x ∈ path, Ok x.1 x.2 := fun x hx => hok x (List.mem_append_left _ hx)
    have hlast : Ok t i := hok (t, i) (by simp)
    exact hstep t i u (ih hbefore) hlast hnext

/-- What holds at the start and is kept by every step holds at the end of every run. -/
theorem invariant {Inv : σ → Prop} (hinit : Inv s)
    (hstep : ∀ t i u, Inv t → next t i u → Inv u) (hrun : LabelledRun next s path t) : Inv t := by
  induction hrun with
  | start => exact hinit
  | @step _ t u i _ hnext ih => exact hstep t i u ih hnext

/-- If an invariant makes states good, steps that meet a condition keep it, and a step that does not
leads from it to a state that is not good, then all states of a run are good exactly when all its
steps meet the condition. -/
theorem all_iff {Inv Good : σ → Prop} {Ok : σ → ι → Prop} (hinit : Inv s)
    (hgood : ∀ t, Inv t → Good t) (hkeep : ∀ t i u, Inv t → Ok t i → next t i u → Inv u)
    (hbreak : ∀ t i u, Inv t → next t i u → Good u → Ok t i) (hrun : LabelledRun next s path t) :
    ((∀ x ∈ path, Good x.1) ∧ Good t) ↔ ∀ x ∈ path, Ok x.1 x.2 := by
  induction hrun with
  | start => simp [hgood s hinit]
  | @step path t u i hrun hnext ih =>
    have hsplit : (∀ x ∈ path ++ [(t, i)], Good x.1) ↔ (∀ x ∈ path, Good x.1) ∧ Good t := by
      simp [or_imp, forall_and]
    have hsplit' : (∀ x ∈ path ++ [(t, i)], Ok x.1 x.2) ↔ (∀ x ∈ path, Ok x.1 x.2) ∧ Ok t i := by
      simp [or_imp, forall_and]
    rw [hsplit, hsplit', ih]
    constructor
    · rintro ⟨hok, hu⟩
      have hinv : Inv t := invariant_of_steps hinit hkeep hrun hok
      exact ⟨hok, hbreak t i u hinv hnext hu⟩
    · rintro ⟨hok, hlast⟩
      have hinv : Inv t := invariant_of_steps hinit hkeep hrun hok
      exact ⟨hok, hgood u (hkeep t i u hinv hlast hnext)⟩

/-- What a step that does not meet the condition loses, and no step gives back, is lost at the end of
every run with such a step. -/
lemma lost {Inv Lost : σ → Prop} {Ok : σ → ι → Prop} (hinit : Inv s)
    (hkeep : ∀ t i u, Inv t → Ok t i → next t i u → Inv u)
    (hlose : ∀ t i u, Inv t → ¬ Ok t i → next t i u → Lost u)
    (hlost : ∀ t i u, Lost t → next t i u → Lost u) (hrun : LabelledRun next s path t)
    (hnot : ¬ ∀ x ∈ path, Ok x.1 x.2) : Lost t := by
  induction hrun with
  | start => exact absurd (by simp) hnot
  | @step path t u i hrun hnext ih =>
    by_cases hbefore : ∀ x ∈ path, Ok x.1 x.2
    · have hinv : Inv t := invariant_of_steps hinit hkeep hrun hbefore
      refine hlose t i u hinv (fun hlast => hnot ?_) hnext
      exact List.forall_mem_append.mpr ⟨hbefore, List.forall_mem_singleton.mpr hlast⟩
    · exact hlost t i u (ih hbefore) hnext

/-- A run got to each state it left by the steps before that one. -/
lemma before {before after : List (σ × ι)} {i : ι} {u : σ}
    (hrun : LabelledRun next s (before ++ (t, i) :: after) u) : LabelledRun next s before t := by
  generalize hpath : before ++ (t, i) :: after = path at hrun
  induction hrun generalizing after with
  | start => exact absurd hpath (by simp)
  | @step path t' u j hrun hnext ih =>
    obtain rfl | ⟨after', last, rfl⟩ := List.eq_nil_or_concat after
    · obtain ⟨rfl, hlast⟩ := List.append_inj' hpath rfl
      obtain ⟨rfl, -⟩ := Prod.mk.inj (List.singleton_inj.mp hlast)
      exact hrun
    · rw [List.concat_eq_append, ← List.cons_append, ← List.append_assoc] at hpath
      exact ih (List.append_inj' hpath rfl).1

/-- A run goes on with another from where it ended. -/
lemma trans {more : List (σ × ι)} {u : σ} (hrun : LabelledRun next s path t)
    (hmore : LabelledRun next t more u) : LabelledRun next s (path ++ more) u := by
  induction hmore with
  | start =>
    rw [List.append_nil]
    exact hrun
  | step _ hnext ih =>
    rw [← List.append_assoc]
    exact ih.step hnext

/-- The run up to a state it left, and the step taken there. -/
lemma of_mem (hrun : LabelledRun next s path t) {x : σ × ι} (hx : x ∈ path) :
    ∃ before after u, path = before ++ x :: after ∧ LabelledRun next s before x.1 ∧
      next x.1 x.2 u := by
  induction hrun with
  | start => exact absurd hx (by simp)
  | @step path t u i hrun hnext ih =>
    obtain hold | hnew := List.mem_append.mp hx
    · obtain ⟨before, after, v, rfl, hbefore, hstep⟩ := ih hold
      exact ⟨before, after ++ [(t, i)], v, by simp, hbefore, hstep⟩
    · obtain rfl := List.mem_singleton.mp hnew
      exact ⟨path, [], u, rfl, hrun, hnext⟩

/-- Where every step from the invariant is a step of another system, so is the run. -/
theorem simulates {σ' ι' : Type} {next' : σ' → ι' → σ' → Prop} {Inv : σ → Prop} (f : σ → σ')
    (g : σ → ι → ι') (hinit : Inv s)
    (hstep : ∀ t i u, Inv t → next t i u → Inv u ∧ next' (f t) (g t i) (f u))
    (hrun : LabelledRun next s path t) :
    Inv t ∧ LabelledRun next' (f s) (path.map fun x => (f x.1, g x.1 x.2)) (f t) := by
  induction hrun with
  | start => exact ⟨hinit, .start⟩
  | @step path t u i _ hnext ih =>
    obtain ⟨hinv, hrun'⟩ := ih
    obtain ⟨hinv', hnext'⟩ := hstep t i u hinv hnext
    rw [List.map_append]
    exact ⟨hinv', hrun'.step hnext'⟩

/-- A preorder that steps follow relates each state of a run to its end. -/
theorem extends_end {R : σ → σ → Prop} (hrefl : ∀ s, R s s)
    (htrans : ∀ s t u, R s t → R t u → R s u) (hstep : ∀ t i u, next t i u → R t u)
    (hrun : LabelledRun next s path t) : R s t ∧ ∀ x ∈ path, R x.1 t := by
  induction hrun with
  | start => exact ⟨hrefl s, by simp⟩
  | @step path t u i _ hnext ih =>
    obtain ⟨hstart, hpast⟩ := ih
    have hlast : R t u := hstep t i u hnext
    refine ⟨htrans s t u hstart hlast, ?_⟩
    intro x hx
    obtain hx | hx := List.mem_append.mp hx
    · exact htrans x.1 t u (hpast x hx) hlast
    · obtain rfl := List.mem_singleton.mp hx
      exact hlast

/-- What makes a thing done, and is excluded once it is done, happens at most once, if the steps
after it do not undo it. -/
theorem countP_le_one (p : ι → Bool) (Done : σ → Prop) (Ok : ι → Prop)
    (hdone : ∀ t i u, next t i u → p i = true → Done u)
    (hexcluded : ∀ t i u, Done t → next t i u → p i = false)
    (hkeep : ∀ t i u, Done t → Ok i → next t i u → Done u) (hrun : LabelledRun next s path t)
    (hok : path.Pairwise fun x y => p x.2 = true → Ok y.2) :
    path.countP (fun x => p x.2) ≤ 1 := by
  have hcount : path.countP (fun x => p x.2) ≤ 1 ∧
      (0 < path.countP (fun x => p x.2) → Done t) := by
    induction hrun with
    | start => simp
    | @step path t u i _ hnext ih =>
      obtain ⟨hbefore, _, hlast⟩ := List.pairwise_append.mp hok
      obtain ⟨hle, hpast⟩ := ih hbefore
      rw [List.countP_append, List.countP_singleton]
      by_cases hpos : 0 < path.countP (fun x => p x.2)
      · have hi : p i = false := hexcluded t i u (hpast hpos) hnext
        obtain ⟨x, hx, hpx⟩ := List.countP_pos_iff.mp hpos
        have hu : Done u := hkeep t i u (hpast hpos) (hlast x hx (t, i) (by simp) hpx) hnext
        rw [if_neg (by simp [hi])]
        exact ⟨by omega, fun _ => hu⟩
      · by_cases hi : p i = true
        · rw [if_pos hi]
          exact ⟨by omega, fun _ => hdone t i u hnext hi⟩
        · rw [if_neg hi]
          exact ⟨by omega, fun hpos' => absurd hpos' (by omega)⟩
  exact hcount.1

end LabelledRun
