import MaxSecu.Framework.Interleaving
import MaxSecu.Framework.LabelledRun

/-!
# One program beside others

A program runs beside any number of operations on one shared state: at every moment an operation
starts, makes a call or returns, or the program itself makes a call.

`Guarded` says that a program makes none of certain calls unless some response gave it cause.  While
no operation gets such a response, operations that are guarded stay so, and make none of these calls
(`Next.guarded`).
-/

namespace Program

variable {ε : Type} {ρ : ε → Type} {α β ξ : Type}

lemma call_ne_done {e : ε} {next : ρ e → Program ε ρ α} {a : α} : call e next ≠ done a := by
  simp

/-- Unless a response is one that `Finds`, the program makes no call that `Writes`, and ends with a
result that has the property. -/
def Guarded (Writes : ε → Prop) (Finds : (e : ε) → ρ e → Prop) (post : α → Prop) :
    Program ε ρ α → Prop
  | done a => post a
  | call e next => ¬ Writes e ∧ ∀ r, ¬ Finds e r → Guarded Writes Finds post (next r)

variable {Writes Writes' : ε → Prop} {Finds : (e : ε) → ρ e → Prop} {post post' : α → Prop}
  {p : Program ε ρ α}

lemma Guarded.mono (h : p.Guarded Writes Finds post) (hwrites : ∀ e, Writes' e → Writes e)
    (hpost : ∀ a, post a → post' a) : p.Guarded Writes' Finds post' := by
  induction p with
  | done a => exact hpost a h
  | call e next ih => exact ⟨fun hw => h.1 (hwrites e hw), fun r hr => ih r (h.2 r hr)⟩

lemma Guarded.bind {f : α → Program ε ρ β} {post : β → Prop}
    (h : p.Guarded Writes Finds fun a => (f a).Guarded Writes Finds post) :
    (p >>= f).Guarded Writes Finds post := by
  induction p with
  | done a => exact h
  | call e next ih => exact ⟨h.1, fun r hr => ih r (h.2 r hr)⟩

/-- In a failing computation the second part runs only after the first succeeded. -/
lemma Guarded.bindExcept {x : ExceptT ξ (Program ε ρ) α} {f : α → ExceptT ξ (Program ε ρ) β}
    {post : Except ξ β → Prop}
    (h : x.run.Guarded Writes Finds fun r => (∀ a, r = .ok a →
      (f a).run.Guarded Writes Finds post) ∧ ∀ e, r = .error e → post (.error e)) :
    (x >>= f).run.Guarded Writes Finds post := by
  have hrun : (x >>= f).run = x.run >>= ExceptT.bindCont f := rfl
  rw [hrun]
  apply Guarded.bind
  apply Guarded.mono h (fun _ hw => hw)
  intro r hr
  cases r with
  | error e => exact hr.2 e rfl
  | ok a => exact hr.1 a rfl

/-- A computation that cannot fail, among ones that can. -/
lemma Guarded.lift {post : Except ξ α → Prop}
    (h : p.Guarded Writes Finds fun a => post (.ok a)) :
    (liftM p : ExceptT ξ (Program ε ρ) α).run.Guarded Writes Finds post :=
  Guarded.bind (f := fun a => Program.done (Except.ok a)) h

end Program

/-- The operations under way, each with what it has left to do, beside the program. -/
structure Beside (ο ε : Type) (ρ : ε → Type) (α β σ : Type) where
  shared : σ
  threads : List (ο × Program ε ρ α)
  mine : Program ε ρ β

namespace Beside

variable {ο ε : Type} {ρ : ε → Type} {α β σ : Type}

inductive Move (ο ε : Type) (ρ : ε → Type)
  | start (op : ο)
  | call (event : Event ε ρ)
  | finish
  | mine (event : Event ε ρ)

/-- An operation starts, makes a call or returns, or the program makes a call. -/
inductive Next (step : (e : ε) → σ → ρ e → σ → Prop) (program : ο → Program ε ρ α) :
    Beside ο ε ρ α β σ → Move ο ε ρ → Beside ο ε ρ α β σ → Prop
  | start {s threads mine} (op : ο) :
      Next step program ⟨s, threads, mine⟩ (.start op) ⟨s, threads ++ [(op, program op)], mine⟩
  | call {s t before after op mine e next} (r : ρ e) : step e s r t →
      Next step program ⟨s, before ++ (op, .call e next) :: after, mine⟩ (.call ⟨e, r⟩)
        ⟨t, before ++ (op, next r) :: after, mine⟩
  | finish {s before after op mine a} :
      Next step program ⟨s, before ++ (op, .done a) :: after, mine⟩ .finish
        ⟨s, before ++ after, mine⟩
  | mine {s t threads e next} (r : ρ e) : step e s r t →
      Next step program ⟨s, threads, .call e next⟩ (.mine ⟨e, r⟩) ⟨t, threads, next r⟩

variable {step : (e : ε) → σ → ρ e → σ → Prop} {program : ο → Program ε ρ α}
  {W W' : Beside ο ε ρ α β σ} {move : Move ο ε ρ} {Writes : ε → Prop}
  {Finds : (e : ε) → ρ e → Prop}

/-- No operation under way makes a call that `Writes`, unless it `Finds` something first. -/
def AllGuarded (Writes : ε → Prop) (Finds : (e : ε) → ρ e → Prop) (W : Beside ο ε ρ α β σ) :
    Prop :=
  ∀ th ∈ W.threads, th.2.Guarded Writes Finds fun _ => True

/-- A move in which nothing is found keeps the operations guarded, and writes nothing unless the
program itself does. -/
theorem Next.guarded (hnext : Next step program W move W')
    (hstart : ∀ op, move = .start op → (program op).Guarded Writes Finds fun _ => True)
    (hfinds : ∀ e r t, move = .call ⟨e, r⟩ → step e W.shared r t → ¬ Finds e r)
    (h : W.AllGuarded Writes Finds) :
    W'.AllGuarded Writes Finds ∧ ∀ e r, move = .call ⟨e, r⟩ → ¬ Writes e := by
  cases hnext with
  | start op =>
    refine ⟨?_, fun e r hmove => absurd hmove (by simp)⟩
    intro th hth
    obtain hth | hth := List.mem_append.mp hth
    · exact h th hth
    · obtain rfl := List.mem_singleton.mp hth
      exact hstart op rfl
  | @call s t before after op mine e next r hstep =>
    have hcaller : (Program.call e next).Guarded Writes Finds fun _ => True :=
      h (op, .call e next) (by simp)
    refine ⟨?_, ?_⟩
    · intro th hth
      obtain hth | hth := List.mem_append.mp hth
      · exact h th (List.mem_append_left _ hth)
      · obtain rfl | hth := List.mem_cons.mp hth
        · exact hcaller.2 r (hfinds e r t rfl hstep)
        · exact h th (List.mem_append_right _ (List.mem_cons_of_mem _ hth))
    · rintro e' r' hmove
      obtain ⟨rfl, -⟩ := Event.mk.inj (Move.call.inj hmove)
      exact hcaller.1
  | @finish s before after op mine a =>
    refine ⟨?_, fun e r hmove => absurd hmove (by simp)⟩
    intro th hth
    obtain hth | hth := List.mem_append.mp hth
    · exact h th (List.mem_append_left _ hth)
    · exact h th (List.mem_append_right _ (List.mem_cons_of_mem _ hth))
  | mine r hstep => exact ⟨h, fun e r hmove => absurd hmove (by simp)⟩

/-- A move that is not the program's own leaves what the program has left to do. -/
lemma Next.mine_eq (hnext : Next step program W move W') (hother : ∀ event, move ≠ .mine event) :
    W'.mine = W.mine := by
  cases hnext with
  | start op => rfl
  | call r hstep => rfl
  | finish => rfl
  | mine r hstep => exact absurd rfl (hother _)

/-- Such a move leaves what its call does not change. -/
lemma Next.frame (hnext : Next step program W move W') (hother : ∀ event, move ≠ .mine event)
    {P : σ → Prop} (hkeep : ∀ e r s t, move = .call ⟨e, r⟩ → step e s r t → P s → P t)
    (h : P W.shared) : P W'.shared := by
  cases hnext with
  | start op => exact h
  | call r hstep => exact hkeep _ r _ _ rfl hstep h
  | finish => exact h
  | mine r hstep => exact absurd rfl (hother _)

/-! ## Computed runs -/

/-- Whose turn it is: a new operation's, the first of those under way, or the program's. -/
inductive Turn (ο : Type)
  | start (op : ο)
  | first
  | mine

/-- One turn, where `handler` chooses the outcome of a call. -/
def take (handler : (e : ε) → σ → ρ e × σ) (program : ο → Program ε ρ α)
    (W : Beside ο ε ρ α β σ) : Turn ο → Beside ο ε ρ α β σ
  | .start op => ⟨W.shared, W.threads ++ [(op, program op)], W.mine⟩
  | .first =>
    match W.threads with
    | [] => W
    | (op, .call e next) :: after =>
      ⟨(handler e W.shared).2, (op, next (handler e W.shared).1) :: after, W.mine⟩
    | (_, .done _) :: after => ⟨W.shared, after, W.mine⟩
  | .mine =>
    match W.mine with
    | .call e next => ⟨(handler e W.shared).2, W.threads, next (handler e W.shared).1⟩
    | .done _ => W

lemma run_take {handler : (e : ε) → σ → ρ e × σ}
    (h : ∀ e s, step e s (handler e s).1 (handler e s).2) (W : Beside ο ε ρ α β σ) (turn : Turn ο) :
    ∃ path, LabelledRun (Next step program) W path (W.take handler program turn) ∧
      ∀ x ∈ path, ∀ op, x.2 = .start op → turn = .start op := by
  have hstay : LabelledRun (Next step program) W [] W := .start
  have hmove : ∀ {move : Move ο ε ρ} {W' : Beside ο ε ρ α β σ}, Next step program W move W' →
      (∀ op, move = .start op → turn = .start op) →
      ∃ path, LabelledRun (Next step program) W path W' ∧
        ∀ x ∈ path, ∀ op, x.2 = .start op → turn = .start op :=
    fun hnext hop => ⟨[] ++ [(W, _)], hstay.step hnext, by simpa using hop⟩
  have hidle : ∃ path, LabelledRun (Next step program) W path W ∧
      ∀ x ∈ path, ∀ op, x.2 = .start op → turn = .start op := ⟨[], hstay, by simp⟩
  obtain ⟨s, threads, mine⟩ := W
  cases turn with
  | start op =>
    apply hmove (.start op)
    intro op' hop
    rw [Move.start.inj hop]
  | first =>
    cases threads with
    | nil => exact hidle
    | cons th after =>
      obtain ⟨op, p⟩ := th
      cases p with
      | done a =>
        have hfinish : Next step program ⟨s, [] ++ (op, .done a) :: after, mine⟩ .finish
          ⟨s, [] ++ after, mine⟩ := .finish
        exact hmove hfinish (by simp)
      | call e next =>
        have hcall : Next step program ⟨s, [] ++ (op, .call e next) :: after, mine⟩
            (.call ⟨e, (handler e s).1⟩)
            ⟨(handler e s).2, [] ++ (op, next (handler e s).1) :: after, mine⟩ := .call _ (h e s)
        exact hmove hcall (by simp)
  | mine =>
    cases mine with
    | done b => exact hidle
    | call e next => exact hmove (.mine _ (h e s)) (by simp)

/-- The turns make a run, in which only the operations named there start. -/
theorem run_foldl_take {handler : (e : ε) → σ → ρ e × σ}
    (h : ∀ e s, step e s (handler e s).1 (handler e s).2) (turns : List (Turn ο))
    (W : Beside ο ε ρ α β σ) :
    ∃ path, LabelledRun (Next step program) W path (turns.foldl (take handler program) W) ∧
      ∀ x ∈ path, ∀ op, x.2 = .start op → .start op ∈ turns := by
  induction turns generalizing W with
  | nil => exact ⟨[], .start, by simp⟩
  | cons turn rest ih =>
    obtain ⟨path, hrun, hstart⟩ := @run_take _ _ _ _ _ _ step program handler h W turn
    obtain ⟨path', hrun', hstart'⟩ := ih (W.take handler program turn)
    refine ⟨path ++ path', hrun.trans hrun', ?_⟩
    intro x hx op hop
    obtain hx | hx := List.mem_append.mp hx
    · exact List.mem_cons.mpr (.inl (hstart x hx op hop).symm)
    · exact List.mem_cons_of_mem turn (hstart' x hx op hop)

end Beside
