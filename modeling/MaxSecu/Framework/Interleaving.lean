import Mathlib.Logic.Relation
import MaxSecu.Framework.Programs

/-!
# Programs that run interleaved

Any number of operations, each a program, run on one shared state: at every moment one of them makes
its next call, a new operation starts, one returns, or a crash changes the shared state and all
operations under way vanish.  The log records every operation that returned, with the calls it made
and how much of the log there was when it started.

A `Discipline` is what all calls keep: an invariant of the shared state, and a preorder from each
state to the later ones.  `Sat` says that a program, interrupted anywhere by others that keep the
discipline, keeps it itself and ends in a postcondition.  If every operation does, then in every
reachable system each completion in the log is good (`reachable_kept`).
-/

/-- A call that was made, and the response to it. -/
structure Event (ε : Type) (ρ : ε → Type) where
  call : ε
  response : ρ call

/-- What the calls of all programs keep. -/
structure Discipline (ε : Type) (ρ : ε → Type) (σ : Type) where
  step : (e : ε) → σ → ρ e → σ → Prop
  Inv : σ → Prop
  Later : σ → σ → Prop
  refl : ∀ s, Later s s
  trans : ∀ {s t u}, Later s t → Later t u → Later s u

namespace Discipline

variable {ε : Type} {ρ : ε → Type} {α β σ : Type} (D : Discipline ε ρ σ)

/-- Each call of the program keeps the discipline, whatever the others did before it, and `post`
holds of the calls made, the result and the state at the end. -/
def Sat (post : List (Event ε ρ) → α → σ → Prop) :
    Program ε ρ α → List (Event ε ρ) → σ → Prop
  | .done a, trace, s => post trace a s
  | .call e next, trace, s =>
    ∀ s', D.Later s s' → D.Inv s' → ∀ r t, D.step e s' r t →
      D.Inv t ∧ D.Later s' t ∧ Sat post (next r) (trace ++ [⟨e, r⟩]) t

variable {D} {post post' : List (Event ε ρ) → α → σ → Prop} {p : Program ε ρ α}
  {trace : List (Event ε ρ)} {s t : σ}

lemma sat_done {a : α} : D.Sat post (.done a) trace s ↔ post trace a s := Iff.rfl

lemma Sat.mono (h : D.Sat post p trace s)
    (himp : ∀ trace a t, D.Later s t → post trace a t → post' trace a t) :
    D.Sat post' p trace s := by
  induction p generalizing trace s with
  | done a => exact himp trace a s (D.refl s) h
  | call e next ih =>
    intro s' hlater hinv r t hstep
    obtain ⟨hinv', hlater', hnext⟩ := h s' hlater hinv r t hstep
    refine ⟨hinv', hlater', ih r hnext ?_⟩
    intro trace' a u hu hpost
    exact himp trace' a u (D.trans hlater (D.trans hlater' hu)) hpost

lemma Sat.bind {f : α → Program ε ρ β} {post : List (Event ε ρ) → β → σ → Prop}
    (h : D.Sat (fun trace' a t => D.Sat post (f a) trace' t) p trace s) :
    D.Sat post (p >>= f) trace s := by
  induction p generalizing trace s with
  | done a => exact h
  | call e next ih =>
    intro s' hlater hinv r t hstep
    obtain ⟨hinv', hlater', hnext⟩ := h s' hlater hinv r t hstep
    exact ⟨hinv', hlater', ih r hnext⟩

/-- In a failing computation the second part runs only after the first succeeded. -/
lemma Sat.bindExcept {ξ : Type} {x : ExceptT ξ (Program ε ρ) α}
    {f : α → ExceptT ξ (Program ε ρ) β} {post : List (Event ε ρ) → Except ξ β → σ → Prop}
    (h : D.Sat (fun trace' r t => (∀ a, r = .ok a → D.Sat post (f a).run trace' t) ∧
      ∀ e, r = .error e → post trace' (.error e) t) x.run trace s) :
    D.Sat post (x >>= f).run trace s := by
  have hrun : (x >>= f).run = x.run >>= ExceptT.bindCont f := rfl
  rw [hrun]
  apply Sat.bind
  apply Sat.mono h
  intro trace' r t _ hr
  cases r with
  | error e => exact hr.2 e rfl
  | ok a => exact hr.1 a rfl

/-- A computation that cannot fail, among ones that can. -/
lemma Sat.lift {ξ : Type} {post : List (Event ε ρ) → Except ξ α → σ → Prop}
    (h : D.Sat (fun trace' a t => post trace' (.ok a) t) p trace s) :
    D.Sat post (liftM p : ExceptT ξ (Program ε ρ) α).run trace s :=
  Sat.bind (f := fun a => Program.done (Except.ok a)) h

/-- The others cannot invalidate what a program satisfies. -/
lemma Sat.later (hstable : ∀ trace a s t, D.Later s t → post trace a s → post trace a t)
    (h : D.Sat post p trace s) (hlater : D.Later s t) : D.Sat post p trace t := by
  cases p with
  | done a => exact hstable trace a s t hlater h
  | call e next => exact fun s' hs' => h s' (D.trans hlater hs')

end Discipline

/-! ## Systems -/

/-- An operation under way: how long the log was when it started, the calls it has made, and what
it has left to do. -/
structure Thread (ο ε : Type) (ρ : ε → Type) (α : Type) where
  op : ο
  since : ℕ
  trace : List (Event ε ρ)
  rest : Program ε ρ α

structure Completion (ο ε : Type) (ρ : ε → Type) (α : Type) where
  op : ο
  since : ℕ
  trace : List (Event ε ρ)
  result : α

structure System (ο ε : Type) (ρ : ε → Type) (α σ : Type) where
  shared : σ
  threads : List (Thread ο ε ρ α)
  log : List (Completion ο ε ρ α)

namespace System

variable {ο ε : Type} {ρ : ε → Type} {α σ : Type}

/-- One step of the system: an operation starts, makes a call or returns, or all vanish. -/
inductive Next (step : (e : ε) → σ → ρ e → σ → Prop) (program : ο → Program ε ρ α)
    (may : ο → Prop) (crash : σ → σ → Prop) : System ο ε ρ α σ → System ο ε ρ α σ → Prop
  | start {s threads log} (op : ο) : may op →
      Next step program may crash ⟨s, threads, log⟩
        ⟨s, threads ++ [⟨op, log.length, [], program op⟩], log⟩
  | call {s t before after log op since trace e next} (r : ρ e) : step e s r t →
      Next step program may crash ⟨s, before ++ ⟨op, since, trace, .call e next⟩ :: after, log⟩
        ⟨t, before ++ ⟨op, since, trace ++ [⟨e, r⟩], next r⟩ :: after, log⟩
  | finish {s before after log op since trace a} :
      Next step program may crash ⟨s, before ++ ⟨op, since, trace, .done a⟩ :: after, log⟩
        ⟨s, before ++ after, log ++ [⟨op, since, trace, a⟩]⟩
  | crash {s t threads log} : crash s t →
      Next step program may crash ⟨s, threads, log⟩ ⟨t, [], log⟩

/-- The systems a run reaches from a shared state on which nothing has run. -/
inductive Reachable (step : (e : ε) → σ → ρ e → σ → Prop) (program : ο → Program ε ρ α)
    (may : ο → Prop) (crash : σ → σ → Prop) (init : σ → Prop) : System ο ε ρ α σ → Prop
  | init {s} : init s → Reachable step program may crash init ⟨s, [], []⟩
  | next {S S'} : Reachable step program may crash init S →
      Next step program may crash S S' → Reachable step program may crash init S'

lemma Reachable.steps {step : (e : ε) → σ → ρ e → σ → Prop} {program : ο → Program ε ρ α}
    {may : ο → Prop} {crash : σ → σ → Prop} {init : σ → Prop} {S S' : System ο ε ρ α σ}
    (h : Reachable step program may crash init S)
    (hsteps : Relation.ReflTransGen (Next step program may crash) S S') :
    Reachable step program may crash init S' := by
  induction hsteps with
  | refl => exact h
  | tail _ hnext ih => exact .next ih hnext

/-! ## One operation after another -/

/-- The calls of the run in which `handler` chooses the outcome of every call. -/
def events (handler : (e : ε) → σ → ρ e × σ) : Program ε ρ α → σ → List (Event ε ρ)
  | .done _, _ => []
  | .call e next, s => ⟨e, (handler e s).1⟩ :: events handler (next (handler e s).1) (handler e s).2

/-- Run one more operation from its start to its end, while the others wait. -/
def runBeside (handler : (e : ε) → σ → ρ e × σ) (program : ο → Program ε ρ α)
    (S : System ο ε ρ α σ) (op : ο) : System ο ε ρ α σ :=
  ⟨((program op).eval handler S.shared).2, S.threads,
    S.log ++ [⟨op, S.log.length, events handler (program op) S.shared,
      ((program op).eval handler S.shared).1⟩]⟩

/-- Run one operation to its end while nothing else is under way. -/
def runAlone (handler : (e : ε) → σ → ρ e × σ) (program : ο → Program ε ρ α)
    (S : System ο ε ρ α σ) (op : ο) : System ο ε ρ α σ :=
  ⟨((program op).eval handler S.shared).2, [],
    S.log ++ [⟨op, S.log.length, events handler (program op) S.shared,
      ((program op).eval handler S.shared).1⟩]⟩

section Alone

variable {step : (e : ε) → σ → ρ e → σ → Prop} {program : ο → Program ε ρ α} {may : ο → Prop}
  {crash : σ → σ → Prop} {init : σ → Prop} {handler : (e : ε) → σ → ρ e × σ}

/-- The last operation runs to its end, and the others wait. -/
lemma steps_finish {op : ο} {since : ℕ} {before : List (Thread ο ε ρ α)}
    {log : List (Completion ο ε ρ α)} {p : Program ε ρ α} {s : σ} {trace : List (Event ε ρ)}
    (h : p.EvalAll handler (fun e s r => step e s r (handler e s).2) s) :
    Relation.ReflTransGen (Next step program may crash)
      ⟨s, before ++ [⟨op, since, trace, p⟩], log⟩
      ⟨(p.eval handler s).2, before,
        log ++ [⟨op, since, trace ++ events handler p s, (p.eval handler s).1⟩]⟩ := by
  induction p generalizing trace s with
  | done a =>
    rw [events, List.append_nil]
    have hfinish : Next step program may crash
        ⟨s, before ++ ⟨op, since, trace, .done a⟩ :: [], log⟩
        ⟨s, before ++ [], log ++ [⟨op, since, trace, a⟩]⟩ := .finish
    rw [List.append_nil] at hfinish
    exact .single hfinish
  | call e next ih =>
    have hcall : Next step program may crash
        ⟨s, before ++ ⟨op, since, trace, .call e next⟩ :: [], log⟩
        ⟨(handler e s).2, before ++ ⟨op, since, trace ++ [⟨e, (handler e s).1⟩],
          next (handler e s).1⟩ :: [], log⟩ := .call _ h.1
    have hrest := @ih (handler e s).1 (handler e s).2 (trace ++ [⟨e, (handler e s).1⟩]) h.2
    rw [List.append_assoc] at hrest
    exact .head hcall hrest

/-- The last operation makes some calls, and the others wait. -/
lemma steps_runCalls (n : ℕ) {op : ο} {since : ℕ} {before : List (Thread ο ε ρ α)}
    {log : List (Completion ο ε ρ α)} {p : Program ε ρ α} {s : σ} {trace : List (Event ε ρ)}
    (h : p.EvalAll handler (fun e s r => step e s r (handler e s).2) s) :
    Relation.ReflTransGen (Next step program may crash)
      ⟨s, before ++ [⟨op, since, trace, p⟩], log⟩
      ⟨(p.runCalls handler n s).2, before ++ [⟨op, since, trace ++ (events handler p s).take n,
        (p.runCalls handler n s).1⟩], log⟩ := by
  induction n generalizing p s trace with
  | zero =>
    rw [List.take_zero, List.append_nil]
    exact .refl
  | succ n ih =>
    cases p with
    | done a =>
      rw [events, List.take_nil, List.append_nil]
      exact .refl
    | call e next =>
      have hcall : Next step program may crash
          ⟨s, before ++ ⟨op, since, trace, .call e next⟩ :: [], log⟩
          ⟨(handler e s).2, before ++ ⟨op, since, trace ++ [⟨e, (handler e s).1⟩],
            next (handler e s).1⟩ :: [], log⟩ := .call _ h.1
      have hrest := @ih (next (handler e s).1) (handler e s).2
        (trace ++ [⟨e, (handler e s).1⟩]) h.2
      rw [List.append_assoc] at hrest
      exact .head hcall hrest

/-- A permitted operation starts and runs to its end, and the others wait. -/
lemma steps_runBeside {op : ο} (hmay : may op) {before : List (Thread ο ε ρ α)}
    {log : List (Completion ο ε ρ α)} {s : σ}
    (h : (program op).EvalAll handler (fun e s r => step e s r (handler e s).2) s) :
    Relation.ReflTransGen (Next step program may crash) ⟨s, before, log⟩
      (runBeside handler program ⟨s, before, log⟩ op) :=
  .head (.start op hmay) (steps_finish h)

/-- One operation makes its first calls, another runs from its start to its end, and the first goes
on to its end. -/
lemma steps_overtake (n : ℕ) {op op' : ο} (hmay : may op) (hmay' : may op') (s : σ)
    (log : List (Completion ο ε ρ α))
    (hfirst : (program op).EvalAll handler (fun e s r => step e s r (handler e s).2) s)
    (hother : (program op').EvalAll handler (fun e s r => step e s r (handler e s).2)
      ((program op).runCalls handler n s).2)
    (hrest : ((program op).runCalls handler n s).1.EvalAll handler
      (fun e s r => step e s r (handler e s).2)
      ((program op').eval handler ((program op).runCalls handler n s).2).2) :
    ∃ threads log',
      Relation.ReflTransGen (Next step program may crash) ⟨s, [], log⟩
        ⟨((program op').eval handler ((program op).runCalls handler n s).2).2, threads, log'⟩ ∧
      Relation.ReflTransGen (Next step program may crash)
        ⟨((program op').eval handler ((program op).runCalls handler n s).2).2, threads, log'⟩
        ⟨(((program op).runCalls handler n s).1.eval handler
            ((program op').eval handler ((program op).runCalls handler n s).2).2).2, [],
          log ++ [⟨op', log.length,
              events handler (program op') ((program op).runCalls handler n s).2,
              ((program op').eval handler ((program op).runCalls handler n s).2).1⟩] ++
            [⟨op, log.length,
              (events handler (program op) s).take n ++
                events handler ((program op).runCalls handler n s).1
                  ((program op').eval handler ((program op).runCalls handler n s).2).2,
              (((program op).runCalls handler n s).1.eval handler
                ((program op').eval handler ((program op).runCalls handler n s).2).2).1⟩]⟩ := by
  have hstart : Next step program may crash ⟨s, [], log⟩
      ⟨s, [] ++ [⟨op, log.length, [], program op⟩], log⟩ := .start op hmay
  have hcalls := @steps_runCalls _ _ _ _ _ step program may crash handler n op
    log.length [] log (program op) s [] hfirst
  have hbeside := @steps_runBeside _ _ _ _ _ step program may crash handler op' hmay'
    ([] ++ [⟨op, log.length, [] ++ (events handler (program op) s).take n,
      ((program op).runCalls handler n s).1⟩]) log
    ((program op).runCalls handler n s).2 hother
  exact ⟨_, _, (Relation.ReflTransGen.head hstart hcalls).trans hbeside, steps_finish hrest⟩

lemma Reachable.runAlone (h : ∀ e s, step e s (handler e s).1 (handler e s).2) {op : ο}
    (hmay : may op) {s : σ} {log : List (Completion ο ε ρ α)}
    (hreach : Reachable step program may crash init ⟨s, [], log⟩) :
    Reachable step program may crash init (System.runAlone handler program ⟨s, [], log⟩ op) :=
  hreach.steps (steps_runBeside hmay (Program.evalAll_of_forall h _ s))

/-- Permitted operations, one after another, lead to a reachable system. -/
lemma Reachable.runAll (h : ∀ e s, step e s (handler e s).1 (handler e s).2) {ops : List ο}
    (hmay : ∀ op ∈ ops, may op) {s : σ} {log : List (Completion ο ε ρ α)}
    (hreach : Reachable step program may crash init ⟨s, [], log⟩) :
    Reachable step program may crash init
      (ops.foldl (System.runAlone handler program) ⟨s, [], log⟩) := by
  induction ops generalizing s log with
  | nil => exact hreach
  | cons op ops ih =>
    have hfirst := hreach.runAlone h (hmay op (by simp))
    exact ih (fun op' hop' => hmay op' (List.mem_cons_of_mem op hop')) hfirst

end Alone

/-! ## The discipline of a system -/

/-- The shared state keeps the invariant, every completion is good, and every operation under way
ends in a good completion.  Whether a completion is good may depend on the log that its operation
found when it started. -/
structure Kept (D : Discipline ε ρ σ)
    (Good : List (Completion ο ε ρ α) → Completion ο ε ρ α → σ → Prop)
    (S : System ο ε ρ α σ) : Prop where
  inv : D.Inv S.shared
  threads : ∀ th ∈ S.threads, th.since ≤ S.log.length ∧
    D.Sat (fun trace a s => Good (S.log.take th.since) ⟨th.op, th.since, trace, a⟩ s)
      th.rest th.trace S.shared
  log : ∀ c ∈ S.log, c.since ≤ S.log.length ∧ Good (S.log.take c.since) c S.shared

variable {D : Discipline ε ρ σ} {program : ο → Program ε ρ α} {may : ο → Prop}
  {crash : σ → σ → Prop} {init : σ → Prop}
  {Good : List (Completion ο ε ρ α) → Completion ο ε ρ α → σ → Prop}

lemma kept_next (hstable : ∀ log c s t, D.Later s t → Good log c s → Good log c t)
    (hstart : ∀ op log s, may op → D.Inv s → (∀ c ∈ log, Good (log.take c.since) c s) →
      D.Sat (fun trace a t => Good log ⟨op, log.length, trace, a⟩ t) (program op) [] s)
    (hcrash : ∀ s t, D.Inv s → crash s t → D.Inv t ∧ D.Later s t)
    {S S' : System ο ε ρ α σ} (hkept : Kept D Good S)
    (hnext : Next D.step program may crash S S') : Kept D Good S' := by
  cases hnext with
  | @start s threads log op hmay =>
    refine ⟨hkept.inv, ?_, hkept.log⟩
    intro th hth
    rcases List.mem_append.mp hth with hold | hnew
    · exact hkept.threads th hold
    · obtain rfl := List.mem_singleton.mp hnew
      have hsat := hstart op log s hmay hkept.inv fun c hc => (hkept.log c hc).2
      refine ⟨le_rfl, ?_⟩
      simpa only [List.take_length] using hsat
  | @call s t before after log op since trace e next r hstep =>
    have hcaller := hkept.threads ⟨op, since, trace, .call e next⟩ (by simp)
    obtain ⟨hinv, hlater, hsat⟩ := hcaller.2 s (D.refl s) hkept.inv r t hstep
    refine ⟨hinv, ?_, ?_⟩
    · intro th hth
      have hcases : th = ⟨op, since, trace ++ [⟨e, r⟩], next r⟩ ∨
          th ∈ before ++ ⟨op, since, trace, .call e next⟩ :: after := by
        simp only [List.mem_append, List.mem_cons] at hth ⊢
        tauto
      rcases hcases with rfl | hother
      · exact ⟨hcaller.1, hsat⟩
      · obtain ⟨hsince, hsat'⟩ := hkept.threads th hother
        exact ⟨hsince, hsat'.later (fun _ _ _ _ => hstable _ _ _ _) hlater⟩
    · intro c hc
      obtain ⟨hsince, hgood⟩ := hkept.log c hc
      exact ⟨hsince, hstable _ _ _ _ hlater hgood⟩
  | @finish s before after log op since trace a =>
    have hreturns := hkept.threads ⟨op, since, trace, .done a⟩ (by simp)
    have htake : ∀ (c : Completion ο ε ρ α) {n}, n ≤ log.length →
        (log ++ [c]).take n = log.take n :=
      fun c n hn => List.take_append_of_le_length hn
    have hlonger : ∀ (c : Completion ο ε ρ α) {n}, n ≤ log.length → n ≤ (log ++ [c]).length := by
      intro c n hn
      simp only [List.length_append, List.length_singleton]
      omega
    refine ⟨hkept.inv, ?_, ?_⟩
    · intro th hth
      obtain ⟨hsince, hsat⟩ := hkept.threads th (by
        simp only [List.mem_append, List.mem_cons] at hth ⊢
        tauto)
      refine ⟨hlonger _ hsince, ?_⟩
      simpa only [htake _ hsince] using hsat
    · intro c hc
      rcases List.mem_append.mp hc with hold | hnew
      · obtain ⟨hsince, hgood⟩ := hkept.log c hold
        refine ⟨hlonger _ hsince, ?_⟩
        simpa only [htake _ hsince] using hgood
      · obtain rfl := List.mem_singleton.mp hnew
        refine ⟨hlonger _ hreturns.1, ?_⟩
        rw [htake _ hreturns.1]
        exact Discipline.sat_done.mp hreturns.2
  | @crash s t threads log hcrashed =>
    obtain ⟨hinv, hlater⟩ := hcrash s t hkept.inv hcrashed
    refine ⟨hinv, fun th hth => absurd hth (by simp), ?_⟩
    intro c hc
    obtain ⟨hsince, hgood⟩ := hkept.log c hc
    exact ⟨hsince, hstable _ _ _ _ hlater hgood⟩

lemma later_next (hcrash : ∀ s t, D.Inv s → crash s t → D.Inv t ∧ D.Later s t)
    {S S' : System ο ε ρ α σ} (hkept : Kept D Good S)
    (hnext : Next D.step program may crash S S') : D.Later S.shared S'.shared := by
  cases hnext with
  | start _ _ => exact D.refl _
  | @call s t before after log op since trace e next r hstep =>
    have hcaller := hkept.threads ⟨op, since, trace, .call e next⟩ (by simp)
    obtain ⟨_, hlater, _⟩ := hcaller.2 s (D.refl s) hkept.inv r t hstep
    exact hlater
  | finish => exact D.refl _
  | crash hcrashed => exact (hcrash _ _ hkept.inv hcrashed).2

/-- Further steps keep the discipline, and lead to a later state. -/
theorem kept_steps (hstable : ∀ log c s t, D.Later s t → Good log c s → Good log c t)
    (hstart : ∀ op log s, may op → D.Inv s → (∀ c ∈ log, Good (log.take c.since) c s) →
      D.Sat (fun trace a t => Good log ⟨op, log.length, trace, a⟩ t) (program op) [] s)
    (hcrash : ∀ s t, D.Inv s → crash s t → D.Inv t ∧ D.Later s t)
    {S S' : System ο ε ρ α σ} (hkept : Kept D Good S)
    (hsteps : Relation.ReflTransGen (Next D.step program may crash) S S') :
    Kept D Good S' ∧ D.Later S.shared S'.shared := by
  induction hsteps with
  | refl => exact ⟨hkept, D.refl _⟩
  | tail _ hnext ih =>
    exact ⟨kept_next hstable hstart hcrash ih.1 hnext,
      D.trans ih.2 (later_next hcrash ih.1 hnext)⟩

/-- If every operation satisfies the discipline, every reachable system keeps it. -/
theorem reachable_kept (hinit : ∀ s, init s → D.Inv s)
    (hstable : ∀ log c s t, D.Later s t → Good log c s → Good log c t)
    (hstart : ∀ op log s, may op → D.Inv s → (∀ c ∈ log, Good (log.take c.since) c s) →
      D.Sat (fun trace a t => Good log ⟨op, log.length, trace, a⟩ t) (program op) [] s)
    (hcrash : ∀ s t, D.Inv s → crash s t → D.Inv t ∧ D.Later s t)
    {S : System ο ε ρ α σ} (hreach : Reachable D.step program may crash init S) :
    Kept D Good S := by
  induction hreach with
  | init hs => exact ⟨hinit _ hs, fun th hth => absurd hth (by simp),
      fun c hc => absurd hc (by simp)⟩
  | next _ hnext ih => exact kept_next hstable hstart hcrash ih hnext

end System
