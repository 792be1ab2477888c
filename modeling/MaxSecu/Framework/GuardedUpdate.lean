import MaxSecu.Framework.ExceptRules

/-!
# Checks before a write

Operations on a shared store that check first and write last: `failIf` and `orFail` are the checks.
Each check has a rule for when a run gets past it.  `Follows` bounds what a run does to the store.  An operation is `Atomic` if a failure leaves the
store as it was, as one is whose checks all come before its first write.  A `transaction` may check
after it wrote, and a failure takes back what it wrote.
-/

namespace GuardedUpdate

open ExceptRules

variable {ε α β σ : Type}

def failIf (p : Prop) [Decidable p] (e : ε) : ExceptT ε (StateM σ) Unit :=
  if p then throw e else pure ()

def orFail (o : Option α) (e : ε) : ExceptT ε (StateM σ) α := o.elim (throw e) pure

/-! ## When a run succeeds -/

section Success

variable {f : α → ExceptT ε (StateM σ) β} {e : ε} {b : β} {s t : σ}

lemma runFrom_failIf (p : Prop) [Decidable p] (e : ε) (s : σ) :
    runFrom (failIf p e) s = if p then (.error e, s) else (.ok (), s) := by
  unfold failIf
  by_cases hp : p
  · rw [if_pos hp, if_pos hp]
    exact runFrom_throw e s
  · rw [if_neg hp, if_neg hp]
    exact runFrom_pure () s

lemma runFrom_failIf_bind {p : Prop} [Decidable p] {f : Unit → ExceptT ε (StateM σ) β} :
    runFrom (failIf p e >>= f) s = if p then (.error e, s) else runFrom (f ()) s := by
  rw [runFrom_bind, runFrom_failIf]
  by_cases hp : p
  · rw [if_pos hp, if_pos hp]
  · rw [if_neg hp, if_neg hp]

lemma failIf_bind_eq_ok {p : Prop} [Decidable p] {f : Unit → ExceptT ε (StateM σ) β} :
    runFrom (failIf p e >>= f) s = (.ok b, t) ↔ ¬ p ∧ runFrom (f ()) s = (.ok b, t) := by
  rw [runFrom_failIf_bind]
  by_cases hp : p
  · simp [hp]
  · simp [hp]

lemma runFrom_orFail_bind {o : Option α} :
    runFrom (orFail o e >>= f) s = o.elim (.error e, s) fun a => runFrom (f a) s := by
  cases o with
  | none =>
    have hfail : runFrom (orFail none e : ExceptT ε (StateM σ) α) s = (.error e, s) :=
      runFrom_throw e s
    rw [runFrom_bind_error hfail]
    rfl
  | some a =>
    have hfound : runFrom (orFail (some a) e : ExceptT ε (StateM σ) α) s = (.ok a, s) :=
      runFrom_pure a s
    rw [runFrom_bind_ok hfound]
    rfl

lemma orFail_bind_eq_ok {o : Option α} :
    runFrom (orFail o e >>= f) s = (.ok b, t) ↔
      ∃ a, o = some a ∧ runFrom (f a) s = (.ok b, t) := by
  rw [runFrom_orFail_bind]
  cases o with
  | none => simp
  | some a => simp

lemma orFail_eq_ok {o : Option α} {a : α} :
    runFrom (orFail o e : ExceptT ε (StateM σ) α) s = (.ok a, t) ↔ o = some a ∧ s = t := by
  cases o with
  | none =>
    have hfail : runFrom (orFail none e : ExceptT ε (StateM σ) α) s = (.error e, s) :=
      runFrom_throw e s
    rw [hfail]
    simp
  | some b =>
    have hfound : runFrom (orFail (some b) e : ExceptT ε (StateM σ) α) s = (.ok b, s) :=
      runFrom_pure b s
    rw [hfound]
    simp

lemma runFrom_liftM_bind {x : Except ε α} :
    runFrom (liftM x >>= f) s = match x with
      | .ok a => runFrom (f a) s
      | .error e => (.error e, s) := by
  rw [runFrom_bind, runFrom_liftM]
  cases x with
  | error e => rfl
  | ok a => rfl

lemma liftM_bind_eq_ok {x : Except ε α} :
    runFrom (liftM x >>= f) s = (.ok b, t) ↔ ∃ a, x = .ok a ∧ runFrom (f a) s = (.ok b, t) := by
  rw [runFrom_liftM_bind]
  cases x with
  | error e => simp
  | ok a => simp

/-- A part whose failures are renamed. -/
lemma adapt_bind_eq_ok {ξ : Type} {g : ξ → ε} {x : ExceptT ξ (StateM σ) α} :
    runFrom (ExceptT.adapt g x >>= f) s = (.ok b, t) ↔
      ∃ a u, runFrom x s = (.ok a, u) ∧ runFrom (f a) u = (.ok b, t) := by
  rw [runFrom_bind_eq_ok]
  simp only [runFrom_adapt, Prod.mk.injEq, mapError_eq_ok]
  constructor
  · rintro ⟨a, u, ⟨ha, rfl⟩, h⟩
    exact ⟨a, _, Prod.ext ha rfl, h⟩
  · rintro ⟨a, u, ha, h⟩
    exact ⟨a, u, ⟨by rw [ha], by rw [ha]⟩, h⟩

lemma runFrom_get_bind {f : σ → ExceptT ε (StateM σ) β} :
    runFrom (get >>= f) s = runFrom (f s) s := runFrom_bind_ok (runFrom_get s)

lemma get_bind_eq_ok {f : σ → ExceptT ε (StateM σ) β} :
    runFrom (get >>= f) s = (.ok b, t) ↔ runFrom (f s) s = (.ok b, t) := by
  rw [runFrom_get_bind]

lemma set_bind_eq_ok {u : σ} {f : PUnit → ExceptT ε (StateM σ) β} :
    runFrom (set u >>= f) s = (.ok b, t) ↔ runFrom (f ⟨⟩) u = (.ok b, t) := by
  have hset : runFrom (set u : ExceptT ε (StateM σ) PUnit) s = (.ok ⟨⟩, u) := rfl
  rw [runFrom_bind_ok hset]

lemma set_pure_eq_ok {u : σ} {a : β} :
    runFrom (set u >>= fun _ => pure a : ExceptT ε (StateM σ) β) s = (.ok b, t) ↔
      a = b ∧ u = t := by
  have hset : runFrom (set u : ExceptT ε (StateM σ) PUnit) s = (.ok ⟨⟩, u) := rfl
  rw [runFrom_bind_ok hset, runFrom_pure]
  simp

end Success

/-! ## Transactions -/

/-- Run the operation, and keep what it wrote only if it succeeds. -/
def transaction (x : ExceptT ε (StateM σ) α) : ExceptT ε (StateM σ) α :=
  ExceptT.mk fun s =>
    match runFrom x s with
    | (.ok a, t) => (.ok a, t)
    | (.error e, _) => (.error e, s)

lemma transaction_eq_ok {x : ExceptT ε (StateM σ) α} {a : α} {s t : σ} :
    runFrom (transaction x) s = (.ok a, t) ↔ runFrom x s = (.ok a, t) := by
  unfold transaction
  rw [runFrom_mk]
  rcases runFrom x s with ⟨r, u⟩
  cases r with
  | error e => simp
  | ok a => simp

/-! ## What a run does to the state -/

/-- Whether it fails or not, a run goes to a state that is related to the one it started from. -/
def Follows (R : σ → σ → Prop) (x : ExceptT ε (StateM σ) α) : Prop := ∀ s, R s (runFrom x s).2

namespace Follows

variable {R : σ → σ → Prop} {f : α → ExceptT ε (StateM σ) β}

lemma bind {x : ExceptT ε (StateM σ) α} (htrans : ∀ s t u, R s t → R t u → R s u)
    (hx : Follows R x) (hf : ∀ a, Follows R (f a)) : Follows R (x >>= f) := by
  intro s
  have hfirst := hx s
  rw [runFrom_bind]
  rcases hrun : runFrom x s with ⟨r, t⟩
  rw [hrun] at hfirst
  cases r with
  | error e => exact hfirst
  | ok a => exact htrans s t _ hfirst (hf a t)

lemma failIf_bind {p : Prop} [Decidable p] {e : ε} {f : Unit → ExceptT ε (StateM σ) β}
    (hrefl : ∀ s, R s s) (hf : Follows R (f ())) : Follows R (failIf p e >>= f) := by
  intro s
  rw [runFrom_failIf_bind]
  by_cases hp : p
  · rw [if_pos hp]
    exact hrefl s
  · rw [if_neg hp]
    exact hf s

lemma orFail {o : Option α} {e : ε} (hrefl : ∀ s, R s s) :
    Follows R (orFail o e : ExceptT ε (StateM σ) α) := by
  intro s
  cases o with
  | none => exact hrefl s
  | some a => exact hrefl s

lemma orFail_bind {o : Option α} {e : ε} (hrefl : ∀ s, R s s) (hf : ∀ a, Follows R (f a)) :
    Follows R (GuardedUpdate.orFail o e >>= f) := by
  intro s
  rw [runFrom_orFail_bind]
  cases o with
  | none => exact hrefl s
  | some a => exact hf a s

lemma liftM_bind {x : Except ε α} (hrefl : ∀ s, R s s) (hf : ∀ a, Follows R (f a)) :
    Follows R (liftM x >>= f) := by
  intro s
  rw [runFrom_liftM_bind]
  cases x with
  | error e => exact hrefl s
  | ok a => exact hf a s

end Follows

/-! ## What a failure leaves behind -/

/-- A failure leaves the state as it was. -/
def Atomic (x : ExceptT ε (StateM σ) α) : Prop :=
  ∀ s e t, runFrom x s = (.error e, t) → t = s

namespace Atomic

variable {f : α → ExceptT ε (StateM σ) β}

lemma get_bind {f : σ → ExceptT ε (StateM σ) β} (h : ∀ s, Atomic (f s)) : Atomic (get >>= f) := by
  intro s e t hrun
  rw [runFrom_get_bind] at hrun
  exact h s s e t hrun

lemma failIf_bind {p : Prop} [Decidable p] {e : ε} {f : Unit → ExceptT ε (StateM σ) β}
    (h : Atomic (f ())) : Atomic (failIf p e >>= f) := by
  intro s e' t hrun
  rw [runFrom_bind, runFrom_failIf] at hrun
  by_cases hp : p
  · rw [if_pos hp] at hrun
    exact (Prod.mk.inj hrun).2.symm
  · rw [if_neg hp] at hrun
    exact h s e' t hrun

lemma orFail_bind {o : Option α} {e : ε} (h : ∀ a, o = some a → Atomic (f a)) :
    Atomic (orFail o e >>= f) := by
  intro s e' t hrun
  rw [runFrom_orFail_bind] at hrun
  cases o with
  | none => exact (Prod.mk.inj hrun).2.symm
  | some a => exact h a rfl s e' t hrun

lemma liftM_bind {x : Except ε α} (h : ∀ a, x = .ok a → Atomic (f a)) :
    Atomic (liftM x >>= f) := by
  intro s e' t hrun
  rw [runFrom_liftM_bind] at hrun
  cases x with
  | error e => exact (Prod.mk.inj hrun).2.symm
  | ok a => exact h a rfl s e' t hrun

/-- A part whose failures are renamed, and that nothing can fail after. -/
lemma adapt {ξ : Type} {g : ξ → ε} {x : ExceptT ξ (StateM σ) α} (h : Atomic x) :
    Atomic (ExceptT.adapt g x) := by
  intro s e t hrun
  rw [runFrom_adapt] at hrun
  obtain ⟨hresult, rfl⟩ := Prod.mk.inj hrun
  rcases hx : runFrom x s with ⟨r, u⟩
  cases r with
  | error e' => exact h s e' u hx
  | ok a =>
    rw [hx] at hresult
    exact absurd hresult (by simp [Except.mapError])

lemma bind_pure {x : ExceptT ε (StateM σ) α} {g : α → β} (h : Atomic x) :
    Atomic (x >>= fun a => Pure.pure (g a)) := by
  intro s e t hrun
  rw [runFrom_bind] at hrun
  rcases hx : runFrom x s with ⟨r, u⟩
  rw [hx] at hrun
  cases r with
  | error e' =>
    obtain ⟨-, rfl⟩ := Prod.mk.inj hrun
    exact h s e' _ hx
  | ok b => exact absurd (Prod.mk.inj hrun).1 (by simp)

/-- A write that nothing can fail after. -/
lemma set_pure {u : σ} {a : β} : Atomic (set u >>= fun _ => pure a : ExceptT ε (StateM σ) β) := by
  intro s e t hrun
  have hset : runFrom (set u : ExceptT ε (StateM σ) PUnit) s = (.ok ⟨⟩, u) := rfl
  rw [runFrom_bind_ok hset, runFrom_pure] at hrun
  exact absurd (Prod.mk.inj hrun).1 (by simp)

lemma pure (a : α) : Atomic (pure a : ExceptT ε (StateM σ) α) := by
  intro s e t hrun
  rw [runFrom_pure] at hrun
  exact absurd (Prod.mk.inj hrun).1 (by simp)

lemma transaction (x : ExceptT ε (StateM σ) α) : Atomic (transaction x) := by
  intro s e t hrun
  unfold GuardedUpdate.transaction at hrun
  rw [runFrom_mk] at hrun
  rcases hx : runFrom x s with ⟨r, u⟩
  rw [hx] at hrun
  cases r with
  | error e' => exact (Prod.mk.inj hrun).2.symm
  | ok a => exact absurd (Prod.mk.inj hrun).1 (by simp)

/-- A run fails and leaves the state as it was, or it succeeds. -/
lemma run_cases {x : ExceptT ε (StateM σ) α} (h : Atomic x) (s : σ) :
    ((runFrom x s).1.isOk = false ∧ (runFrom x s).2 = s) ∨ ∃ a t, runFrom x s = (.ok a, t) := by
  rcases hrun : runFrom x s with ⟨r, t⟩
  cases r with
  | error e => exact .inl ⟨rfl, h s e t hrun⟩
  | ok a => exact .inr ⟨a, t, rfl⟩

end Atomic

end GuardedUpdate
