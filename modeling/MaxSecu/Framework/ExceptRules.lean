import Mathlib.Tactic
import Mathlib.Data.List.Basic

/-!
# Inversion of failing computations

When an `Except` computation returns a value, every step of it did.  These rules take such a
computation apart: a sequence, a check that throws, and an option that must be present.

The second half does the same for computations that also change a state, and keep what they did to
it when they fail.
-/

namespace ExceptRules

variable {ε α β σ : Type}

lemma bind_eq_ok {x : Except ε α} {f : α → Except ε β} {b : β} :
    (x >>= f) = .ok b ↔ ∃ a, x = .ok a ∧ f a = .ok b := by
  cases x with
  | error e => simp [bind, Except.bind]
  | ok a => simp [bind, Except.bind]

lemma pure_eq_ok {a b : α} : (pure a : Except ε α) = .ok b ↔ a = b := by
  simp [pure, Except.pure]

/-- A check that throws when `p` holds. -/
lemma guard_eq_ok {p : Prop} [Decidable p] {e : ε} {x : Except ε α} {a : α} :
    (if p then throw e else x) = .ok a ↔ ¬ p ∧ x = .ok a := by
  by_cases hp : p
  · simp [hp, throw, throwThe, MonadExceptOf.throw]
  · simp [hp]

/-- An option that must be present. -/
lemma elim_eq_ok {e : ε} {o : Option α} {a : α} :
    o.elim (throw e) pure = (.ok a : Except ε α) ↔ o = some a := by
  cases o with
  | none => simp [throw, throwThe, MonadExceptOf.throw]
  | some b => simp [pure, Except.pure]

/-- A loop that threads a state returns one when every round does. -/
lemma foldlM_cons_eq_ok {f : σ → α → Except ε σ} {a : α} {l : List α} {s t : σ} :
    (a :: l).foldlM f s = .ok t ↔ ∃ u, f s a = .ok u ∧ l.foldlM f u = .ok t := by
  rw [List.foldlM_cons, bind_eq_ok]

lemma foldlM_nil_eq_ok {f : σ → α → Except ε σ} {s t : σ} :
    [].foldlM f s = .ok t ↔ s = t := by
  rw [List.foldlM_nil, pure_eq_ok]

/-- A loop over a list returns a list when every round returns its element. -/
lemma mapM_eq_ok {f : α → Except ε β} {l : List α} {bs : List β} :
    l.mapM f = .ok bs ↔ List.Forall₂ (fun a b => f a = .ok b) l bs := by
  induction l generalizing bs with
  | nil => rw [List.mapM_nil, pure_eq_ok, List.forall₂_nil_left_iff, eq_comm]
  | cons a l ih =>
    rw [List.mapM_cons, bind_eq_ok, List.forall₂_cons_left_iff]
    simp only [bind_eq_ok, pure_eq_ok, ih]
    constructor
    · rintro ⟨b, hb, bs', hbs, rfl⟩
      exact ⟨b, bs', hb, hbs, rfl⟩
    · rintro ⟨b, bs', hb, hbs, rfl⟩
      exact ⟨b, hb, bs', hbs, rfl⟩

/-- Such a loop returns when every round does. -/
lemma exists_mapM_eq_ok {f : α → Except ε β} {l : List α} :
    (∃ bs, l.mapM f = .ok bs) ↔ ∀ a ∈ l, ∃ b, f a = .ok b := by
  simp only [mapM_eq_ok]
  induction l with
  | nil => simp
  | cons a l ih =>
    rw [List.forall_mem_cons, ← ih]
    constructor
    · rintro ⟨_, hrounds⟩
      obtain ⟨b, bs, hb, hbs, -⟩ := List.forall₂_cons_left_iff.mp hrounds
      exact ⟨⟨b, hb⟩, bs, hbs⟩
    · rintro ⟨⟨b, hb⟩, bs, hbs⟩
      exact ⟨b :: bs, .cons hb hbs⟩

lemma isOk_iff {x : Except ε Unit} : x.isOk = true ↔ x = .ok () := by
  cases x with
  | error e => simp [Except.isOk, Except.toBool]
  | ok u => simp [Except.isOk, Except.toBool]

lemma mapError_eq_ok {ε' : Type} {g : ε → ε'} {x : Except ε α} {a : α} :
    x.mapError g = .ok a ↔ x = .ok a := by
  cases x with
  | error e => simp [Except.mapError]
  | ok b => simp [Except.mapError]

/-! ## Computations with a state that outlives a failure -/

/-- The result, and the state the computation leaves behind. -/
def runFrom (x : ExceptT ε (StateM σ) α) (s : σ) : Except ε α × σ :=
  (x.run.run s).run

lemma runFrom_bind (x : ExceptT ε (StateM σ) α) (f : α → ExceptT ε (StateM σ) β) (s : σ) :
    runFrom (x >>= f) s =
      match runFrom x s with
      | (.ok a, u) => runFrom (f a) u
      | (.error e, u) => (.error e, u) := by
  unfold runFrom
  simp only [ExceptT.run_bind, StateT.run_bind, Id.run_bind]
  rcases (x.run.run s).run with ⟨r, u⟩
  cases r with
  | error e => rfl
  | ok a => rfl

lemma runFrom_bind_eq_ok {x : ExceptT ε (StateM σ) α} {f : α → ExceptT ε (StateM σ) β} {b : β}
    {s t : σ} :
    runFrom (x >>= f) s = (.ok b, t) ↔
      ∃ a u, runFrom x s = (.ok a, u) ∧ runFrom (f a) u = (.ok b, t) := by
  rw [runFrom_bind]
  rcases runFrom x s with ⟨r, u⟩
  cases r with
  | error e => simp
  | ok a => simp

lemma runFrom_mk (f : σ → Except ε α × σ) (s : σ) :
    runFrom (ExceptT.mk f : ExceptT ε (StateM σ) α) s = f s := rfl

lemma runFrom_pure (a : α) (s : σ) :
    runFrom (pure a : ExceptT ε (StateM σ) α) s = (.ok a, s) := rfl

lemma runFrom_liftM (x : Except ε α) (s : σ) :
    runFrom (liftM x : ExceptT ε (StateM σ) α) s = (x, s) := by
  cases x <;> rfl

lemma runFrom_modify (f : σ → σ) (s : σ) :
    runFrom (modify f : ExceptT ε (StateM σ) PUnit) s = (.ok ⟨⟩, f s) := rfl

lemma runFrom_get (s : σ) : runFrom (get : ExceptT ε (StateM σ) σ) s = (.ok s, s) := rfl

lemma runFrom_throw (e : ε) (s : σ) :
    runFrom (throw e : ExceptT ε (StateM σ) α) s = (.error e, s) := rfl

lemma runFrom_tryCatch (x : ExceptT ε (StateM σ) α) (f : ε → ExceptT ε (StateM σ) α) (s : σ) :
    runFrom (tryCatch x f) s =
      match runFrom x s with
      | (.ok a, u) => (.ok a, u)
      | (.error e, u) => runFrom (f e) u := by
  unfold runFrom tryCatch
  simp only [instMonadExceptOfMonadExceptOf, tryCatchThe, MonadExceptOf.tryCatch, ExceptT.tryCatch,
    ExceptT.mk, ExceptT.run, StateT.run_bind, Id.run_bind]
  rcases StateT.run x s with ⟨r, u⟩
  cases r with
  | error e => rfl
  | ok a => rfl

lemma runFrom_adapt {ε' : Type} (f : ε → ε') (x : ExceptT ε (StateM σ) α) (s : σ) :
    runFrom (ExceptT.adapt f x) s = ((runFrom x s).1.mapError f, (runFrom x s).2) := rfl

lemma runFrom_adapt_eq_ok {ε' : Type} {f : ε → ε'} {x : ExceptT ε (StateM σ) α} {s t : σ} {a : α} :
    runFrom (ExceptT.adapt f x) s = (.ok a, t) ↔ runFrom x s = (.ok a, t) := by
  rw [runFrom_adapt, Prod.ext_iff, Prod.ext_iff, mapError_eq_ok]

lemma runFrom_bind_ok {x : ExceptT ε (StateM σ) α} {f : α → ExceptT ε (StateM σ) β} {s u : σ}
    {a : α} (h : runFrom x s = (.ok a, u)) : runFrom (x >>= f) s = runFrom (f a) u := by
  rw [runFrom_bind, h]

lemma runFrom_bind_error {x : ExceptT ε (StateM σ) α} {f : α → ExceptT ε (StateM σ) β} {s u : σ}
    {e : ε} (h : runFrom x s = (.error e, u)) : runFrom (x >>= f) s = (.error e, u) := by
  rw [runFrom_bind, h]

/-- A sequence fails in its first part, or it ends as its second part does. -/
lemma runFrom_bind_eq {x : ExceptT ε (StateM σ) α} {f : α → ExceptT ε (StateM σ) β} {s t : σ}
    {r : Except ε β} :
    runFrom (x >>= f) s = (r, t) ↔
      (∃ e, runFrom x s = (.error e, t) ∧ r = .error e) ∨
        ∃ a u, runFrom x s = (.ok a, u) ∧ runFrom (f a) u = (r, t) := by
  rcases hx : runFrom x s with ⟨rx, u⟩
  cases rx with
  | error e =>
    rw [runFrom_bind_error hx]
    simp [and_comm, eq_comm]
  | ok a =>
    rw [runFrom_bind_ok hx]
    simp

/-! ## Computations on a larger state -/

variable {τ : Type}

/-- `y` does on a larger state what `x` does on the part of it that `proj` reads. -/
def Projects (proj : τ → σ) (y : ExceptT ε (StateM τ) α) (x : ExceptT ε (StateM σ) α) : Prop :=
  ∀ s, runFrom x (proj s) = ((runFrom y s).1, proj (runFrom y s).2)

variable {proj : τ → σ}

lemma Projects.pure (a : α) :
    Projects proj (Pure.pure a : ExceptT ε (StateM τ) α) (Pure.pure a) := fun _ => rfl

lemma Projects.lift (x : Except ε α) :
    Projects proj (liftM x : ExceptT ε (StateM τ) α) (liftM x) := by
  intro s
  rw [runFrom_liftM, runFrom_liftM]

lemma Projects.bind {y : ExceptT ε (StateM τ) α} {x : ExceptT ε (StateM σ) α}
    {g : α → ExceptT ε (StateM τ) β} {f : α → ExceptT ε (StateM σ) β} (h : Projects proj y x)
    (hrest : ∀ a, Projects proj (g a) (f a)) : Projects proj (y >>= g) (x >>= f) := by
  intro s
  have hfirst := h s
  rcases hy : runFrom y s with ⟨r, u⟩
  rw [hy] at hfirst
  cases r with
  | error e => rw [runFrom_bind_error hfirst, runFrom_bind_error hy]
  | ok a =>
    rw [runFrom_bind_ok hfirst, runFrom_bind_ok hy]
    exact hrest a u

end ExceptRules
