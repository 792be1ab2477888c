import Mathlib.Tactic
import Mathlib.Data.List.Basic

/-!
# Programs that make calls

A `Program` returns a value or makes a call and goes on with its response.  What a call does to the
state is a relation, so a call may fail or have several outcomes.

`Exec` runs a program alone: to its end, or to a point where it is cut off.  `wp` is the weakest
precondition for the complete runs, with a rule for sequencing (`wp_bind`) and one for programs
that can fail (`wp_bindExcept`).  Where every call has a chosen outcome, `eval` computes the run.
-/

/-- A program whose calls are of type `ε`; the response to the call `e` is of type `ρ e`. -/
inductive Program (ε : Type) (ρ : ε → Type) (α : Type) : Type
  | done (a : α)
  | call (e : ε) (next : ρ e → Program ε ρ α)

namespace Program

variable {ε : Type} {ρ : ε → Type} {α β σ : Type}

def bind : Program ε ρ α → (α → Program ε ρ β) → Program ε ρ β
  | done a, f => f a
  | call e next, f => call e fun r => (next r).bind f

instance : Monad (Program ε ρ) where
  pure := done
  bind := bind

/-- Make one call and return its response. -/
def perform (e : ε) : Program ε ρ (ρ e) := call e done

@[simp] lemma pure_eq (a : α) : (pure a : Program ε ρ α) = done a := rfl

@[simp] lemma done_bind (a : α) (f : α → Program ε ρ β) : (done a : Program ε ρ α) >>= f = f a :=
  rfl

@[simp] lemma call_bind (e : ε) (next : ρ e → Program ε ρ α) (f : α → Program ε ρ β) :
    call e next >>= f = call e fun r => next r >>= f := rfl

/-! ## Runs of one program -/

/-- A run from one state to another: `some a` if the program returned `a`, and `none` if it was cut
off on the way. -/
inductive Exec (step : (e : ε) → σ → ρ e → σ → Prop) : Program ε ρ α → σ → Option α → σ → Prop
  | returns (a : α) (s : σ) : Exec step (done a) s (some a) s
  | cut (p : Program ε ρ α) (s : σ) : Exec step p s none s
  | call {e : ε} {next : ρ e → Program ε ρ α} {r : ρ e} {o : Option α} {s t u : σ} :
      step e s r t → Exec step (next r) t o u → Exec step (call e next) s o u

/-- `post` holds at the end of every complete run from `s`. -/
def wp (step : (e : ε) → σ → ρ e → σ → Prop) :
    Program ε ρ α → (α → σ → Prop) → σ → Prop
  | done a, post, s => post a s
  | call e next, post, s => ∀ r t, step e s r t → wp step (next r) post t

variable {step : (e : ε) → σ → ρ e → σ → Prop}

@[simp] lemma wp_done {a : α} {post : α → σ → Prop} {s : σ} :
    wp step (done a) post s ↔ post a s := Iff.rfl

lemma wp_call {e : ε} {next : ρ e → Program ε ρ α} {post : α → σ → Prop} {s : σ} :
    wp step (call e next) post s ↔ ∀ r t, step e s r t → wp step (next r) post t := Iff.rfl

lemma wp_perform {e : ε} {post : ρ e → σ → Prop} {s : σ} :
    wp step (perform e) post s ↔ ∀ r t, step e s r t → post r t := Iff.rfl

lemma wp_bind {p : Program ε ρ α} {f : α → Program ε ρ β} {post : β → σ → Prop} {s : σ} :
    wp step (p >>= f) post s ↔ wp step p (fun a t => wp step (f a) post t) s := by
  induction p generalizing s with
  | done a => exact Iff.rfl
  | call e next ih =>
    rw [call_bind, wp_call, wp_call]
    exact forall_congr' fun r => forall_congr' fun t => imp_congr_right fun _ => ih r

lemma wp_mono {p : Program ε ρ α} {post post' : α → σ → Prop} {s : σ}
    (h : wp step p post s) (himp : ∀ a t, post a t → post' a t) : wp step p post' s := by
  induction p generalizing s with
  | done a => exact himp a s h
  | call e next ih => exact fun r t hstep => ih r (h r t hstep)

lemma wp_of_forall {p : Program ε ρ α} {post : α → σ → Prop} {s : σ} (h : ∀ a t, post a t) :
    wp step p post s := by
  induction p generalizing s with
  | done a => exact h a s
  | call e next ih => exact fun r t _ => ih r

/-- With fewer outcomes of the calls there is less to show. -/
lemma wp_step_mono {step' : (e : ε) → σ → ρ e → σ → Prop}
    (hstep : ∀ e s r t, step' e s r t → step e s r t) {p : Program ε ρ α}
    {post : α → σ → Prop} {s : σ} (h : wp step p post s) : wp step' p post s := by
  induction p generalizing s with
  | done a => exact h
  | call e next ih => exact fun r t hr => ih r (h r t (hstep e s r t hr))

/-- The weakest precondition speaks of the complete runs. -/
theorem wp_sound {p : Program ε ρ α} {post : α → σ → Prop} {a : α} {s t : σ}
    (hexec : Exec step p s (some a) t) (h : wp step p post s) : post a t := by
  generalize ho : some a = o at hexec
  induction hexec with
  | returns b s =>
    cases ho
    exact h
  | cut p s => cases ho
  | call hstep _ ih => exact ih (h _ _ hstep) ho

/-! ## Programs that can fail -/

variable {ξ : Type}

section Outcomes

variable {P : α → Prop} {Q : ξ → Prop}

/-- What is to be shown of a computation that succeeded. -/
lemma after_ok {a : α} (h : P a) :
    (∀ b, (.ok a : Except ξ α) = .ok b → P b) ∧ ∀ e, (.ok a : Except ξ α) = .error e → Q e :=
  ⟨fun _ hb => Except.ok.inj hb ▸ h, fun _ he => absurd he (by simp)⟩

/-- What is to be shown of a computation that failed. -/
lemma after_error {e : ξ} (h : Q e) :
    (∀ b, (.error e : Except ξ α) = .ok b → P b) ∧
      ∀ e', (.error e : Except ξ α) = .error e' → Q e' :=
  ⟨fun _ hb => absurd hb (by simp), fun _ he => Except.error.inj he ▸ h⟩

end Outcomes

/-- In a failing computation the second part runs only after the first succeeded. -/
lemma wp_bindExcept {x : ExceptT ξ (Program ε ρ) α} {f : α → ExceptT ξ (Program ε ρ) β}
    {post : Except ξ β → σ → Prop} {s : σ} :
    wp step (x >>= f).run post s ↔
      wp step x.run
        (fun r t => (∀ a, r = .ok a → wp step (f a).run post t) ∧
          ∀ e, r = .error e → post (.error e) t) s := by
  have hrun : (x >>= f).run = x.run >>= ExceptT.bindCont f := rfl
  have hcases : ∀ (r : Except ξ α) (t : σ), wp step (ExceptT.bindCont f r) post t ↔
      (∀ a, r = .ok a → wp step (f a).run post t) ∧ ∀ e, r = .error e → post (.error e) t := by
    intro r t
    cases r with
    | error e => simp [ExceptT.bindCont]
    | ok a => simp [ExceptT.bindCont, ExceptT.run]
  rw [hrun, wp_bind]
  constructor
  · intro h
    exact wp_mono h fun r t hr => (hcases r t).mp hr
  · intro h
    exact wp_mono h fun r t hr => (hcases r t).mpr hr

/-- What the result of a success is, whatever the first part did. -/
lemma wp_bind_ok {x : ExceptT ξ (Program ε ρ) α} {f : α → ExceptT ξ (Program ε ρ) β}
    {P : β → Prop} {s : σ}
    (h : ∀ a t, wp step (f a).run (fun r _ => ∀ b, r = .ok b → P b) t) :
    wp step (x >>= f).run (fun r _ => ∀ b, r = .ok b → P b) s := by
  refine wp_bindExcept.mpr (wp_of_forall ?_)
  intro r t
  exact ⟨fun a _ => h a t, fun e _ b hb => absurd hb (by simp)⟩

/-- A computation that cannot fail, among ones that can. -/
lemma wp_lift {p : Program ε ρ α} {post : Except ξ α → σ → Prop} {s : σ} :
    wp step (liftM p : ExceptT ξ (Program ε ρ) α).run post s ↔
      wp step p (fun a t => post (.ok a) t) s :=
  wp_bind (f := fun a => done (Except.ok a))

/-! ## Computed runs -/

/-- The run in which `handler` chooses the outcome of every call. -/
def eval (handler : (e : ε) → σ → ρ e × σ) : Program ε ρ α → σ → α × σ
  | done a, s => (a, s)
  | call e next, s => eval handler (next (handler e s).1) (handler e s).2

/-- The first calls of the computed run: what is left to do, and the state after them. -/
def runCalls (handler : (e : ε) → σ → ρ e × σ) : ℕ → Program ε ρ α → σ → Program ε ρ α × σ
  | n + 1, call e next, s => runCalls handler n (next (handler e s).1) (handler e s).2
  | 0, p, s => (p, s)
  | _ + 1, done a, s => (done a, s)

/-- Every call of the computed run has the property. -/
def EvalAll (handler : (e : ε) → σ → ρ e × σ) (ok : (e : ε) → σ → ρ e → Prop) :
    Program ε ρ α → σ → Prop
  | done _, _ => True
  | call e next, s =>
    ok e s (handler e s).1 ∧ EvalAll handler ok (next (handler e s).1) (handler e s).2

instance decidableEvalAll {handler : (e : ε) → σ → ρ e × σ} {ok : (e : ε) → σ → ρ e → Prop}
    [∀ e s r, Decidable (ok e s r)] :
    (p : Program ε ρ α) → (s : σ) → Decidable (EvalAll handler ok p s)
  | done _, _ => .isTrue trivial
  | call _ next, _ => @instDecidableAnd _ _ _ (decidableEvalAll (next _) _)

lemma evalAll_of_forall {handler : (e : ε) → σ → ρ e × σ} {ok : (e : ε) → σ → ρ e → Prop}
    (h : ∀ e s, ok e s (handler e s).1) (p : Program ε ρ α) (s : σ) : EvalAll handler ok p s := by
  induction p generalizing s with
  | done a => trivial
  | call e next ih => exact ⟨h e s, ih _ _⟩

lemma EvalAll.mono {handler : (e : ε) → σ → ρ e × σ} {ok ok' : (e : ε) → σ → ρ e → Prop}
    (himp : ∀ e s, ok e s (handler e s).1 → ok' e s (handler e s).1) {p : Program ε ρ α} {s : σ}
    (h : EvalAll handler ok p s) : EvalAll handler ok' p s := by
  induction p generalizing s with
  | done a => trivial
  | call e next ih => exact ⟨himp e s h.1, ih _ h.2⟩

lemma exec_evalAll {handler : (e : ε) → σ → ρ e × σ} {ok : (e : ε) → σ → ρ e → Prop}
    (h : ∀ e s, step e s (handler e s).1 (handler e s).2) (p : Program ε ρ α) (s : σ)
    (hok : EvalAll handler ok p s) :
    Exec (fun e s r t => step e s r t ∧ ok e s r) p s (some (eval handler p s).1)
      (eval handler p s).2 := by
  induction p generalizing s with
  | done a => exact .returns a s
  | call e next ih => exact .call ⟨h e s, hok.1⟩ (ih _ _ hok.2)

lemma exec_eval {handler : (e : ε) → σ → ρ e × σ}
    (h : ∀ e s, step e s (handler e s).1 (handler e s).2) (p : Program ε ρ α) (s : σ) :
    Exec step p s (some (eval handler p s).1) (eval handler p s).2 := by
  induction p generalizing s with
  | done a => exact .returns a s
  | call e next ih => exact .call (h e s) (ih _ _)

end Program
