import MaxSecu.Framework.Interleaving

/-!
# The calls of interleaved programs

`System.traces` has the calls that each operation made, whether it is under way or returned.  How
many of all these calls have a property changes only where a call is made, and then by one if the
call has it (`count_next`).

`Program.Along` says that a property holds of the calls of one program wherever it stands, whatever
the responses.  It then holds of every trace of every reachable system (`reachable_along`).
-/

namespace Program

variable {ε : Type} {ρ : ε → Type} {α β ξ : Type}

/-- `ok` holds of the calls made so far and of those made at any later point, and `post` of the calls
and the result at the end. -/
def Along (ok : List (Event ε ρ) → Prop) (post : List (Event ε ρ) → α → Prop) :
    Program ε ρ α → List (Event ε ρ) → Prop
  | done a, trace => ok trace ∧ post trace a
  | call e next, trace => ok trace ∧ ∀ r, Along ok post (next r) (trace ++ [⟨e, r⟩])

variable {ok : List (Event ε ρ) → Prop} {post post' : List (Event ε ρ) → α → Prop}
  {p : Program ε ρ α} {trace : List (Event ε ρ)}

lemma Along.here (h : p.Along ok post trace) : ok trace := by
  cases p with
  | done a => exact h.1
  | call e next => exact h.1

lemma Along.mono (h : p.Along ok post trace) (himp : ∀ trace a, ok trace → post trace a →
    post' trace a) : p.Along ok post' trace := by
  induction p generalizing trace with
  | done a => exact ⟨h.1, himp trace a h.1 h.2⟩
  | call e next ih => exact ⟨h.1, fun r => ih r (h.2 r)⟩

lemma Along.bind {f : α → Program ε ρ β} {post : List (Event ε ρ) → β → Prop}
    (h : p.Along ok (fun trace' a => (f a).Along ok post trace') trace) :
    (p >>= f).Along ok post trace := by
  induction p generalizing trace with
  | done a => exact h.2
  | call e next ih => exact ⟨h.1, fun r => ih r (h.2 r)⟩

end Program

namespace System

variable {ο ε : Type} {ρ : ε → Type} {α σ : Type}

/-- The calls of every operation under way and of every one that returned. -/
def traces (S : System ο ε ρ α σ) : List (List (Event ε ρ)) :=
  S.threads.map Thread.trace ++ S.log.map Completion.trace

variable {step : (e : ε) → σ → ρ e → σ → Prop} {program : ο → Program ε ρ α} {may : ο → Prop}
  {crash : σ → σ → Prop} {init : σ → Prop}

/-- What every program keeps along its calls holds of all traces. -/
theorem reachable_along {ok : List (Event ε ρ) → Prop} {post : List (Event ε ρ) → α → Prop}
    (hprogram : ∀ op, may op → (program op).Along ok post [])
    {S : System ο ε ρ α σ} (hreach : Reachable step program may crash init S) :
    ∀ trace ∈ S.traces, ok trace := by
  have hall : (∀ th ∈ S.threads, th.rest.Along ok post th.trace) ∧ ∀ c ∈ S.log, ok c.trace := by
    induction hreach with
    | init _ => simp
    | @next S S' _ hnext ih =>
      obtain ⟨hthreads, hlog⟩ := ih
      cases hnext with
      | start op hmay =>
        refine ⟨?_, hlog⟩
        intro th hth
        obtain hold | hnew := List.mem_append.mp hth
        · exact hthreads th hold
        · obtain rfl := List.mem_singleton.mp hnew
          exact hprogram op hmay
      | @call s t before after log op since trace e next r _ =>
        refine ⟨?_, hlog⟩
        intro th hth
        have hcaller := hthreads ⟨op, since, trace, .call e next⟩ (by simp)
        have hcases : th = ⟨op, since, trace ++ [⟨e, r⟩], next r⟩ ∨
            th ∈ before ++ ⟨op, since, trace, .call e next⟩ :: after := by
          simp only [List.mem_append, List.mem_cons] at hth ⊢
          tauto
        obtain rfl | hother := hcases
        · exact hcaller.2 r
        · exact hthreads th hother
      | @finish s before after log op since trace a =>
        have hreturns := hthreads ⟨op, since, trace, .done a⟩ (by simp)
        constructor
        · intro th hth
          apply hthreads th
          simp only [List.mem_append, List.mem_cons] at hth ⊢
          tauto
        · intro c hc
          obtain hold | hnew := List.mem_append.mp hc
          · exact hlog c hold
          · obtain rfl := List.mem_singleton.mp hnew
            exact hreturns.1
      | crash _ => exact ⟨by simp, hlog⟩
  intro trace htrace
  obtain hthread | hdone := List.mem_append.mp htrace
  · obtain ⟨th, hth, rfl⟩ := List.mem_map.mp hthread
    exact (hall.1 th hth).here
  · obtain ⟨c, hc, rfl⟩ := List.mem_map.mp hdone
    exact hall.2 c hc

/-! ## Counting -/

/-- How many of all the calls have the property. -/
def count (ok : Event ε ρ → Bool) (S : System ο ε ρ α σ) : ℕ := S.traces.flatten.countP ok

lemma count_eq {ok : Event ε ρ → Bool} {S : System ο ε ρ α σ} :
    S.count ok = (S.threads.map fun th => th.trace.countP ok).sum +
      (S.log.map fun c => c.trace.countP ok).sum := by
  simp [count, traces, List.countP_append, List.countP_flatten, Function.comp_def]

/-- A step that makes a call counts it; any other leaves the state as it is, or is a crash. -/
lemma count_next (ok : Event ε ρ → Bool) {S S' : System ο ε ρ α σ}
    (h : Next step program may crash S S') :
    (∃ e r, step e S.shared r S'.shared ∧
        S'.count ok = S.count ok + if ok ⟨e, r⟩ then 1 else 0) ∨
      (S'.shared = S.shared ∧ S'.count ok = S.count ok) ∨
      (crash S.shared S'.shared ∧ S'.count ok ≤ S.count ok) := by
  simp only [count_eq]
  cases h with
  | start op _ => exact .inr (.inl ⟨rfl, by simp⟩)
  | @call s t before after log op since trace e next r hstep =>
    refine .inl ⟨e, r, hstep, ?_⟩
    simp only [List.map_append, List.map_cons, List.sum_append, List.sum_cons,
      List.countP_append, List.countP_singleton]
    omega
  | @finish s before after log op since trace a =>
    refine .inr (.inl ⟨rfl, ?_⟩)
    simp only [List.map_append, List.map_cons, List.map_nil, List.sum_append, List.sum_cons,
      List.sum_nil]
    omega
  | crash hcrash =>
    refine .inr (.inr ⟨hcrash, ?_⟩)
    simp

/-- The calls of the traces that pass a filter are no more than some other calls, if this is so of
each trace. -/
lemma countP_filter_le {ε : Type} {p q : ε → Bool} {f : List ε → Bool} {traces : List (List ε)}
    (h : ∀ trace ∈ traces, f trace → trace.countP q ≤ trace.countP p) :
    (traces.filter f).flatten.countP q ≤ traces.flatten.countP p := by
  induction traces with
  | nil => simp
  | cons trace traces ih =>
    have hrest := ih fun trace' htrace' => h trace' (List.mem_cons_of_mem _ htrace')
    have hfirst := h trace List.mem_cons_self
    by_cases hf : f trace
    · rw [List.filter_cons_of_pos hf, List.flatten_cons, List.flatten_cons, List.countP_append,
        List.countP_append]
      have hle := hfirst hf
      omega
    · rw [List.filter_cons_of_neg hf, List.flatten_cons, List.countP_append]
      omega

end System
