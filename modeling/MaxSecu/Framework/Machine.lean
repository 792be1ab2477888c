import Mathlib.Tactic
import Mathlib.Data.List.Basic

/-!
# Deterministic machines with output

A `Machine` takes one input at a time, moves to a next state and emits a list of outputs.  `run`
is its final state and everything it has emitted, in order.  A property of states and emitted
output that holds at the start and is kept by every step holds after every run (`run_invariant`);
one that also speaks of the inputs is shown by `run_induction`.
-/

/-- An initial state, and one step on one input. -/
structure Machine (σ ι ο : Type) where
  init : σ
  step : σ → ι → σ × List ο

namespace Machine

variable {σ ι ο : Type} (M : Machine σ ι ο)

/-- The state after a list of inputs, and the output emitted on the way. -/
def run (inputs : List ι) : σ × List ο :=
  inputs.foldl (fun (s, out) i => ((M.step s i).1, out ++ (M.step s i).2)) (M.init, [])

@[simp] lemma run_nil : M.run [] = (M.init, []) := rfl

lemma run_append_singleton (inputs : List ι) (i : ι) :
    M.run (inputs ++ [i]) =
      ((M.step (M.run inputs).1 i).1, (M.run inputs).2 ++ (M.step (M.run inputs).1 i).2) := by
  simp [run]

/-- Induction over a run: a property of the inputs taken so far, the state and the output. -/
theorem run_induction {Inv : List ι → σ → List ο → Prop} (hinit : Inv [] M.init [])
    (hstep : ∀ inputs s out i, Inv inputs s out →
      Inv (inputs ++ [i]) (M.step s i).1 (out ++ (M.step s i).2))
    (inputs : List ι) : Inv inputs (M.run inputs).1 (M.run inputs).2 := by
  induction inputs using List.reverseRecOn with
  | nil => exact hinit
  | append_singleton inputs i ih =>
    rw [run_append_singleton]
    exact hstep _ _ _ i ih

/-- Invariant rule: what holds initially and is kept by every step holds after every run. -/
theorem run_invariant {Inv : σ → List ο → Prop} (hinit : Inv M.init [])
    (hstep : ∀ s out i, Inv s out → Inv (M.step s i).1 (out ++ (M.step s i).2))
    (inputs : List ι) : Inv (M.run inputs).1 (M.run inputs).2 :=
  @run_induction σ ι ο M (fun _ => Inv) hinit (fun _ => hstep) inputs

/-- What every step keeps of a state, later states keep: `R` relates a state to the later ones. -/
theorem run_extend {R : σ → σ → Prop} (hrefl : ∀ s, R s s)
    (htrans : ∀ {s t u}, R s t → R t u → R s u) (hstep : ∀ s i, R s (M.step s i).1)
    (inputs later : List ι) : R (M.run inputs).1 (M.run (inputs ++ later)).1 := by
  induction later using List.reverseRecOn with
  | nil =>
    rw [List.append_nil]
    exact hrefl _
  | append_singleton later i ih =>
    rw [← List.append_assoc, run_append_singleton]
    exact htrans ih (hstep _ i)

/-- If an invariant makes states good, steps that meet a condition keep it, and a step that does not
leads from it to a state that is not good, then all states of a run are good exactly when all its
steps meet the condition. -/
theorem run_iff {Inv Good : List ι → σ → Prop} {Ok : σ → ι → Prop} (hinit : Inv [] M.init)
    (hgood : ∀ inputs s, Inv inputs s → Good inputs s)
    (hkeep : ∀ inputs s i, Inv inputs s → Ok s i → Inv (inputs ++ [i]) (M.step s i).1)
    (hbreak : ∀ inputs s i, Inv inputs s → Good (inputs ++ [i]) (M.step s i).1 → Ok s i)
    (inputs : List ι) :
    (∀ done, done <+: inputs → Good done (M.run done).1) ↔
      ∀ done i, done ++ [i] <+: inputs → Ok (M.run done).1 i := by
  -- the invariant holds up to the first step that does not meet the condition
  have hinv : (∀ done i, done ++ [i] <+: inputs → Inv done (M.run done).1 →
      Ok (M.run done).1 i) → ∀ done, done <+: inputs → Inv done (M.run done).1 := by
    intro hok done
    induction done using List.reverseRecOn with
    | nil => exact fun _ => hinit
    | append_singleton done i ih =>
      intro hprefix
      rw [run_append_singleton]
      have hdone := ih ((List.prefix_append done [i]).trans hprefix)
      exact hkeep done _ i hdone (hok done i hprefix hdone)
  constructor
  · intro hall
    have hok : ∀ done i, done ++ [i] <+: inputs → Inv done (M.run done).1 →
        Ok (M.run done).1 i := by
      intro done i hprefix hdone
      have hnext := hall _ hprefix
      rw [run_append_singleton] at hnext
      exact hbreak done _ i hdone hnext
    intro done i hprefix
    exact hok done i hprefix (hinv hok done ((List.prefix_append done [i]).trans hprefix))
  · intro hok done hprefix
    exact hgood done _ (hinv (fun done i h _ => hok done i h) done hprefix)

end Machine
