import MaxSecu.Framework.Interleaving

/-!
# Calls that carry their history

What a call does may be restricted by what its own program was told before.  `annotate` lets each
call carry the calls that its program made before it, so that a step relation can speak of them.
The annotated programs run as the programs themselves do: without the annotations, each of their
systems is one of these (`Reachable.plain`).
-/

variable {ο ε : Type} {ρ : ε → Type} {α β σ : Type}

abbrev Annotated (ε : Type) (ρ : ε → Type) : Type := List (Event ε ρ) × ε

abbrev Annotated.Response (ρ : ε → Type) (c : Annotated ε ρ) : Type := ρ c.2

/-- A call has the outcome it has without its history. -/
def Annotated.handle (handler : (e : ε) → σ → ρ e × σ) (c : Annotated ε ρ) (s : σ) :
    Annotated.Response ρ c × σ :=
  handler c.2 s

/-- The event without the history of its call. -/
def Event.plain (ev : Event (Annotated ε ρ) (Annotated.Response ρ)) : Event ε ρ :=
  ⟨ev.call.2, ev.response⟩

namespace Program

/-- Each call carries the calls before it, the first of which are `trace`. -/
def annotate (trace : List (Event ε ρ)) :
    Program ε ρ α → Program (Annotated ε ρ) (Annotated.Response ρ) α
  | done a => done a
  | call e next => call (trace, e) fun r => (next r).annotate (trace ++ [⟨e, r⟩])

def plain : Program (Annotated ε ρ) (Annotated.Response ρ) α → Program ε ρ α
  | done a => done a
  | call c next => call c.2 fun r => (next r).plain

lemma plain_annotate (p : Program ε ρ α) (trace : List (Event ε ρ)) :
    (p.annotate trace).plain = p := by
  induction p generalizing trace with
  | done a => rfl
  | call e next ih =>
    show call e (fun r => ((next r).annotate (trace ++ [⟨e, r⟩])).plain) = call e next
    simp only [ih]

section Eval

variable {handler : (e : ε) → σ → ρ e × σ}
  {ok : (c : Annotated ε ρ) → σ → ρ c.2 → Prop}

lemma eval_annotate (p : Program ε ρ α) (trace : List (Event ε ρ)) (s : σ) :
    (p.annotate trace).eval (Annotated.handle handler) s = p.eval handler s := by
  induction p generalizing trace s with
  | done a => rfl
  | call e next ih => exact ih _ _ _

lemma evalAll_annotate_bind {p : Program ε ρ α} {f : α → Program ε ρ β}
    {trace : List (Event ε ρ)} {s : σ} :
    EvalAll (Annotated.handle handler) ok ((p >>= f).annotate trace) s ↔
      EvalAll (Annotated.handle handler) ok (p.annotate trace) s ∧
        EvalAll (Annotated.handle handler) ok ((f (p.eval handler s).1).annotate
          (trace ++ System.events handler p s)) (p.eval handler s).2 := by
  induction p generalizing trace s with
  | done a =>
    rw [System.events, List.append_nil]
    exact (and_iff_right trivial).symm
  | call e next ih =>
    have hrest := @ih (handler e s).1 (trace ++ [⟨e, (handler e s).1⟩]) (handler e s).2
    rw [List.append_assoc, List.singleton_append] at hrest
    exact (and_congr_right fun _ => hrest).trans and_assoc.symm

end Eval

end Program

namespace Discipline

variable (D : Discipline (Annotated ε ρ) (Annotated.Response ρ) σ)

/-- The annotated program keeps the discipline.  Its history is what the trace shows. -/
def SatAnnotated (post : List (Event (Annotated ε ρ) (Annotated.Response ρ)) → α → σ → Prop)
    (p : Program ε ρ α) (trace : List (Event (Annotated ε ρ) (Annotated.Response ρ))) (s : σ) :
    Prop :=
  D.Sat post (p.annotate (trace.map Event.plain)) trace s

variable {D} {post : List (Event (Annotated ε ρ) (Annotated.Response ρ)) → α → σ → Prop}
  {trace : List (Event (Annotated ε ρ) (Annotated.Response ρ))} {s : σ}

lemma satAnnotated_call {e : ε} {next : ρ e → Program ε ρ α} :
    D.SatAnnotated post (.call e next) trace s ↔
      ∀ s', D.Later s s' → D.Inv s' → ∀ r t, D.step (trace.map Event.plain, e) s' r t →
        D.Inv t ∧ D.Later s' t ∧
          D.SatAnnotated post (next r) (trace ++ [⟨(trace.map Event.plain, e), r⟩]) t := by
  unfold SatAnnotated
  simp only [List.map_append, List.map_cons, List.map_nil]
  exact Iff.rfl

lemma satAnnotated_perform {e : ε}
    {post : List (Event (Annotated ε ρ) (Annotated.Response ρ)) → ρ e → σ → Prop} :
    D.SatAnnotated post (Program.perform e) trace s ↔
      ∀ s', D.Later s s' → D.Inv s' → ∀ r t, D.step (trace.map Event.plain, e) s' r t →
        D.Inv t ∧ D.Later s' t ∧ post (trace ++ [⟨(trace.map Event.plain, e), r⟩]) r t :=
  satAnnotated_call

lemma SatAnnotated.bind {p : Program ε ρ α} {f : α → Program ε ρ β}
    {post : List (Event (Annotated ε ρ) (Annotated.Response ρ)) → β → σ → Prop}
    (h : D.SatAnnotated (fun trace' a t => D.SatAnnotated post (f a) trace' t) p trace s) :
    D.SatAnnotated post (p >>= f) trace s := by
  induction p generalizing trace s with
  | done a => exact h
  | call e next ih =>
    rw [Program.call_bind]
    rw [satAnnotated_call] at h ⊢
    intro s' hlater hinv r t hstep
    obtain ⟨hinv', hlater', hnext⟩ := h s' hlater hinv r t hstep
    exact ⟨hinv', hlater', ih r hnext⟩

end Discipline

/-! ## The systems without annotations -/

def Thread.plain (th : Thread ο (Annotated ε ρ) (Annotated.Response ρ) α) : Thread ο ε ρ α :=
  ⟨th.op, th.since, th.trace.map Event.plain, th.rest.plain⟩

def Completion.plain (c : Completion ο (Annotated ε ρ) (Annotated.Response ρ) α) :
    Completion ο ε ρ α :=
  ⟨c.op, c.since, c.trace.map Event.plain, c.result⟩

namespace System

def plain (S : System ο (Annotated ε ρ) (Annotated.Response ρ) α σ) : System ο ε ρ α σ :=
  ⟨S.shared, S.threads.map Thread.plain, S.log.map Completion.plain⟩

section

variable {step : (e : ε) → σ → ρ e → σ → Prop}
  {step' : (c : Annotated ε ρ) → σ → ρ c.2 → σ → Prop} {program : ο → Program ε ρ α}
  {may : ο → Prop} {crash : σ → σ → Prop} {init : σ → Prop}
  {S S' : System ο (Annotated ε ρ) (Annotated.Response ρ) α σ}

lemma Next.plain (hstep : ∀ c s r t, step' c s r t → step c.2 s r t)
    (h : Next step' (fun op => (program op).annotate []) may crash S S') :
    Next step program may crash S.plain S'.plain := by
  cases h with
  | @start s threads log op hmay =>
    have hstart := @Next.start _ _ _ _ _ step program may crash s (threads.map Thread.plain)
      (log.map Completion.plain) op hmay
    unfold System.plain
    rw [List.map_append, List.map_singleton]
    simpa [Thread.plain, Program.plain_annotate] using hstart
  | @call s t before after log op since trace c next r hcall =>
    have hplain := @Next.call _ _ _ _ _ step program may crash s t (before.map Thread.plain)
      (after.map Thread.plain) (log.map Completion.plain) op since (trace.map Event.plain) c.2
      (fun r => (next r).plain) r (hstep c s r t hcall)
    simpa [System.plain, Thread.plain, Program.plain, Event.plain] using hplain
  | @finish s before after log op since trace a =>
    have hplain := @Next.finish _ _ _ _ _ step program may crash s (before.map Thread.plain)
      (after.map Thread.plain) (log.map Completion.plain) op since (trace.map Event.plain) a
    simpa [System.plain, Thread.plain, Program.plain, Completion.plain] using hplain
  | @crash s t threads log hcrashed =>
    exact .crash hcrashed

/-- Without the annotations, the annotated programs run as the programs themselves. -/
theorem Reachable.plain (hstep : ∀ c s r t, step' c s r t → step c.2 s r t)
    (h : Reachable step' (fun op => (program op).annotate []) may crash init S) :
    Reachable step program may crash init S.plain := by
  induction h with
  | init hs => exact .init hs
  | next _ hnext ih => exact .next ih (hnext.plain hstep)

end

end System
