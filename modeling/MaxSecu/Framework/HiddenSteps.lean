import MaxSecu.Framework.LabelledRun
import MaxSecu.Framework.Programs

/-!
# Steps that cannot be observed

A system with visible and with hidden steps is compared with one that has the visible ones alone.  If
a relation between their states is kept by the hidden steps, and each visible step of one system can
be matched by the other, then the visible labels of the one are possible exactly when those of the
other are, wherever hidden steps are put in (`possible_iff`).

The visible steps may be runs of programs.  If each call that a program makes can be matched, so can
its runs (`Program.Exec.matched`).
-/

namespace Program

variable {ε : Type} {ρ : ε → Type} {α β σ τ ξ : Type}

/-- Every call that the program can make is of the kind. -/
def Makes (ok : ε → Prop) : Program ε ρ α → Prop
  | done _ => True
  | call e next => ok e ∧ ∀ r, Makes ok (next r)

variable {ok : ε → Prop}

lemma Makes.bind {p : Program ε ρ α} {f : α → Program ε ρ β} (h : p.Makes ok)
    (hf : ∀ a, (f a).Makes ok) : (p >>= f).Makes ok := by
  induction p with
  | done a => exact hf a
  | call e next ih => exact ⟨h.1, fun r => ih r (h.2 r)⟩

/-- A run is matched by one with the same responses and the same result. -/
theorem Exec.matched {step : (e : ε) → σ → ρ e → σ → Prop} {step' : (e : ε) → τ → ρ e → τ → Prop}
    {R : σ → τ → Prop}
    (hstep : ∀ e s t r s', ok e → R s t → step e s r s' → ∃ t', step' e t r t' ∧ R s' t')
    {p : Program ε ρ α} {s s' : σ} {t : τ} {o : Option α} (hexec : Exec step p s o s')
    (hmakes : p.Makes ok) (hrel : R s t) : ∃ t', Exec step' p t o t' ∧ R s' t' := by
  induction hexec generalizing t with
  | returns a s => exact ⟨t, .returns a t, hrel⟩
  | cut p s => exact ⟨t, .cut p t, hrel⟩
  | @call e next r o s s₁ s' hcall _ ih =>
    obtain ⟨t₁, hcall', hrel₁⟩ := hstep e s t r s₁ hmakes.1 hrel hcall
    obtain ⟨t', hexec', hrel'⟩ := ih (hmakes.2 r) hrel₁
    exact ⟨t', .call hcall' hexec', hrel'⟩

/-- What every call keeps, every run keeps. -/
lemma Exec.invariant {step : (e : ε) → σ → ρ e → σ → Prop} {R : σ → σ → Prop}
    (hrefl : ∀ s, R s s) (htrans : ∀ s t u, R s t → R t u → R s u)
    (hstep : ∀ e s r t, ok e → step e s r t → R s t) {p : Program ε ρ α} {s t : σ} {o : Option α}
    (hexec : Exec step p s o t) (hmakes : p.Makes ok) : R s t := by
  induction hexec with
  | returns a s => exact hrefl s
  | cut p s => exact hrefl s
  | @call e next r o s s₁ t hcall _ ih =>
    exact htrans s s₁ t (hstep e s r s₁ hmakes.1 hcall) (ih (hmakes.2 r))

end Program

namespace LabelledRun

variable {σ τ α β : Type}

lemma eq_of_nil {next : σ → α → σ → Prop} {s t : σ} (hrun : LabelledRun next s [] t) : t = s := by
  generalize hpath : ([] : List (σ × α)) = path at hrun
  cases hrun with
  | start => rfl
  | step _ _ => exact absurd hpath (by simp)

def Possible (next : σ → α → σ → Prop) (s : σ) (labels : List α) : Prop :=
  ∃ path t, LabelledRun next s path t ∧ path.map Prod.snd = labels

end LabelledRun

namespace HiddenSteps

open LabelledRun

variable {σ τ α β : Type}

/-- A visible step or a hidden one, which is a function of the state. -/
inductive Step (next : τ → α → τ → Prop) (hide : β → τ → τ) : τ → α ⊕ β → τ → Prop
  | visible {t t' : τ} {a : α} : next t a t' → Step next hide t (.inl a) t'
  | hidden (t : τ) (b : β) : Step next hide t (.inr b) (hide b t)

variable {next : σ → α → σ → Prop} {next' : τ → α → τ → Prop} {hide : β → τ → τ}
  {R : List (α ⊕ β) → σ → τ → Prop} {Ok : List (α ⊕ β) → α ⊕ β → Prop} {s : σ} {t : τ}
  {events : List (α ⊕ β)}

/-- Every run with hidden steps has one without them, and the states are related. -/
lemma visible_of_run (hinit : R [] s t)
    (hhidden : ∀ past s t b, R past s t → Ok past (.inr b) → R (past ++ [.inr b]) s (hide b t))
    (hback : ∀ past s t a t', R past s t → Ok past (.inl a) → next' t a t' →
      ∃ s', next s a s' ∧ R (past ++ [.inl a]) s' t')
    {path : List (τ × (α ⊕ β))} {t' : τ} (hrun : LabelledRun (Step next' hide) t path t')
    (hok : ∀ past e, past ++ [e] <+: path.map Prod.snd → Ok past e) :
    ∃ path' s', LabelledRun next s path' s' ∧
      path'.map Prod.snd = (path.map Prod.snd).filterMap Sum.getLeft? ∧
      R (path.map Prod.snd) s' t' := by
  induction hrun with
  | start => exact ⟨[], s, .start, rfl, hinit⟩
  | @step path t₁ t₂ e _ hnext ih =>
    rw [List.map_append] at hok
    obtain ⟨path', s₁, hrun', hlabels, hrel⟩ := ih
      fun past e' he' => hok past e' (he'.trans (List.prefix_append _ _))
    have hlast := hok _ e (List.prefix_refl _)
    rw [List.map_append, List.filterMap_append, ← hlabels]
    cases hnext with
    | @visible _ a hnext =>
      obtain ⟨s₂, hmatch, hrel'⟩ := hback _ _ _ _ _ hrel hlast hnext
      exact ⟨path' ++ [(s₁, a)], s₂, hrun'.step hmatch, List.map_append, hrel'⟩
    | hidden b =>
      exact ⟨path', s₁, hrun', (List.append_nil _).symm, hhidden _ _ _ _ hrel hlast⟩

/-- Hidden steps can be put into a run anywhere, and the states are related. -/
lemma run_of_visible (hinit : R [] s t)
    (hhidden : ∀ past s t b, R past s t → Ok past (.inr b) → R (past ++ [.inr b]) s (hide b t))
    (hforth : ∀ past s t a s', R past s t → Ok past (.inl a) → next s a s' →
      ∃ t', next' t a t' ∧ R (past ++ [.inl a]) s' t')
    {path : List (σ × α)} {s' : σ} (hrun : LabelledRun next s path s')
    (hlabels : path.map Prod.snd = events.filterMap Sum.getLeft?)
    (hok : ∀ past e, past ++ [e] <+: events → Ok past e) :
    ∃ path' t', LabelledRun (Step next' hide) t path' t' ∧ path'.map Prod.snd = events ∧
      R events s' t' := by
  induction events using List.reverseRecOn generalizing path s' with
  | nil =>
    obtain rfl : path = [] := List.map_eq_nil_iff.mp hlabels
    rw [hrun.eq_of_nil]
    exact ⟨[], t, .start, rfl, hinit⟩
  | append_singleton events e ih =>
    have hbefore : ∀ past e', past ++ [e'] <+: events → Ok past e' :=
      fun past e' he' => hok past e' (he'.trans (List.prefix_append _ _))
    have hlast := hok events e (List.prefix_refl _)
    cases e with
    | inr b =>
      have hsame : (events ++ [Sum.inr b]).filterMap Sum.getLeft? =
          events.filterMap Sum.getLeft? := by
        rw [List.filterMap_append]
        exact List.append_nil _
      rw [hsame] at hlabels
      obtain ⟨path', t₁, hrun', hevents, hrel⟩ := ih hrun hlabels hbefore
      refine ⟨path' ++ [(t₁, .inr b)], _, hrun'.step (.hidden t₁ b), ?_,
        hhidden _ _ _ _ hrel hlast⟩
      rw [List.map_append, hevents]
      rfl
    | inl a =>
      cases hrun with
      | start => exact absurd hlabels (by simp)
      | @step path s₁ s₂ a' hrun hnext =>
        rw [List.map_append, List.filterMap_append] at hlabels
        obtain ⟨hearlier, ha⟩ := List.append_inj' hlabels rfl
        obtain rfl : a' = a := by simpa using ha
        obtain ⟨path', t₁, hrun', hevents, hrel⟩ := ih hrun hearlier hbefore
        obtain ⟨t₂, hmatch, hrel'⟩ := hforth _ _ _ _ _ hrel hlast hnext
        refine ⟨path' ++ [(t₁, .inl a')], t₂, hrun'.step (.visible hmatch), ?_, hrel'⟩
        rw [List.map_append, hevents]
        rfl

/-- **Hidden steps are not observed.** -/
theorem possible_iff (hinit : R [] s t)
    (hhidden : ∀ past s t b, R past s t → Ok past (.inr b) → R (past ++ [.inr b]) s (hide b t))
    (hforth : ∀ past s t a s', R past s t → Ok past (.inl a) → next s a s' →
      ∃ t', next' t a t' ∧ R (past ++ [.inl a]) s' t')
    (hback : ∀ past s t a t', R past s t → Ok past (.inl a) → next' t a t' →
      ∃ s', next s a s' ∧ R (past ++ [.inl a]) s' t')
    (hok : ∀ past e, past ++ [e] <+: events → Ok past e) :
    Possible next s (events.filterMap Sum.getLeft?) ↔ Possible (Step next' hide) t events := by
  constructor
  · intro hpossible
    obtain ⟨path, s', hrun, hlabels⟩ := hpossible
    obtain ⟨path', t', hrun', hevents, _⟩ :=
      run_of_visible hinit hhidden hforth hrun hlabels hok
    exact ⟨path', t', hrun', hevents⟩
  · intro hpossible
    obtain ⟨path, t', hrun, rfl⟩ := hpossible
    obtain ⟨path', s', hrun', hlabels, _⟩ := visible_of_run hinit hhidden hback hrun hok
    exact ⟨path', s', hrun', hlabels⟩

end HiddenSteps
