import Mathlib.Tactic
import Mathlib.Data.List.Basic
import Mathlib.Logic.Equiv.Basic

/-!
# Prefix readers and exact codecs

A `PrefixReader β ε α` consumes a prefix of a symbol list and returns a value, or rejects with
an error of type `ε`.

`Reads get wf put` is the one law a field codec has to satisfy: the reader succeeds exactly on
the inputs that start with the encoding `put a` of a well-formed value `a`, and it returns that
`a` with the rest of the input.  Read from right to left it is the round trip, from left to
right it says that every accepted spelling is the canonical one.  `RejectsWithin get E` bounds
the errors a reader can raise.

The laws are closed under the ways a record reader is built: sequencing, a counted list
(`readMany`), and a counted list whose keys must ascend (`readAscending`).
-/

/-- A reader that consumes a prefix of its input or rejects. -/
abbrev PrefixReader (β ε α : Type) := StateT (List β) (Except ε) α

namespace PrefixReader

variable {β ε α γ κ : Type}

/-! ## Running a reader -/

lemma run_pure (a : α) (bs : List β) :
    (pure a : PrefixReader β ε α).run bs = .ok (a, bs) := rfl

lemma run_throw (e : ε) (bs : List β) :
    (throw e : PrefixReader β ε α).run bs = .error e := rfl

lemma run_pure_eq_ok {a b : α} {bs rest : List β} :
    (pure a : PrefixReader β ε α).run bs = .ok (b, rest) ↔ a = b ∧ bs = rest := by
  rw [run_pure]
  simp

lemma run_throw_eq_ok {e : ε} {b : α} {bs rest : List β} :
    (throw e : PrefixReader β ε α).run bs = .ok (b, rest) ↔ False := by
  rw [run_throw]
  simp

/-- A sequence succeeds when its first part does and its second part does on what is left. -/
lemma run_bind_eq_ok {x : PrefixReader β ε α} {f : α → PrefixReader β ε γ} {bs rest : List β}
    {c : γ} :
    (x >>= f).run bs = .ok (c, rest) ↔
      ∃ a mid, x.run bs = .ok (a, mid) ∧ (f a).run mid = .ok (c, rest) := by
  rw [StateT.run_bind]
  cases h : x.run bs with
  | error e => simp [bind, Except.bind]
  | ok p => exact ⟨fun hf => ⟨p.1, p.2, rfl, hf⟩, by rintro ⟨a, mid, ⟨⟩, hf⟩; exact hf⟩

lemma run_bind_eq_error {x : PrefixReader β ε α} {f : α → PrefixReader β ε γ} {bs : List β}
    {e : ε} :
    (x >>= f).run bs = .error e ↔
      x.run bs = .error e ∨ ∃ a mid, x.run bs = .ok (a, mid) ∧ (f a).run mid = .error e := by
  rw [StateT.run_bind]
  cases h : x.run bs with
  | error e' => simp [bind, Except.bind]
  | ok p => exact ⟨fun hf => .inr ⟨p.1, p.2, rfl, hf⟩, by
      rintro (⟨⟨⟩⟩ | ⟨a, mid, ⟨⟩, hf⟩); exact hf⟩

/-! ## Exactness -/

/-- `get` accepts exactly the encodings of well-formed values, and returns them. -/
def Reads (get : PrefixReader β ε α) (wf : α → Prop) (put : α → List β) : Prop :=
  ∀ bs a rest, get.run bs = .ok (a, rest) ↔ wf a ∧ bs = put a ++ rest

namespace Reads

variable {get : PrefixReader β ε α} {wf : α → Prop} {put : α → List β}

/-- Round trip, on an input that continues with `rest`. -/
lemma run_put (h : Reads get wf put) {a : α} (ha : wf a) (rest : List β) :
    get.run (put a ++ rest) = .ok (a, rest) :=
  (h _ _ _).mpr ⟨ha, rfl⟩

/-- Two encodings of well-formed values, one a prefix of the other's input, spell one value. -/
lemma put_append_inj (h : Reads get wf put) {a b : α} {r s : List β} (ha : wf a) (hb : wf b)
    (heq : put a ++ r = put b ++ s) : a = b ∧ r = s := by
  have hrun := h.run_put ha r
  rw [heq, h.run_put hb s] at hrun
  simpa [eq_comm] using hrun

lemma put_inj (h : Reads get wf put) {a b : α} (ha : wf a) (hb : wf b) (heq : put a = put b) :
    a = b :=
  (h.put_append_inj (r := []) (s := []) ha hb (by rw [heq])).1

/-- A reader of `α` reads any type in bijection with `α`. -/
lemma equiv (h : Reads get wf put) (f : α ≃ γ) :
    Reads (do let a ← get; pure (f a)) (fun c => wf (f.symm c)) fun c => put (f.symm c) := by
  intro bs c rest
  simp only [run_bind_eq_ok, run_pure_eq_ok, h _ _ _]
  constructor
  · rintro ⟨a, mid, ⟨ha, rfl⟩, rfl, rfl⟩
    simpa using ha
  · rintro ⟨hc, rfl⟩
    exact ⟨f.symm c, rest, ⟨hc, rfl⟩, f.apply_symm_apply c, rfl⟩

end Reads

/-! ## Which errors a reader can raise -/

/-- Every error `get` raises satisfies `E`. -/
def RejectsWithin (get : PrefixReader β ε α) (E : ε → Prop) : Prop :=
  ∀ bs e, get.run bs = .error e → E e

namespace RejectsWithin

variable {E : ε → Prop}

protected lemma pure (a : α) : RejectsWithin (pure a : PrefixReader β ε α) E := by
  intro bs e h
  rw [run_pure] at h
  cases h

protected lemma throw {e : ε} (he : E e) : RejectsWithin (throw e : PrefixReader β ε α) E := by
  intro bs e' h
  rw [run_throw] at h
  cases h
  exact he

protected lemma bind {x : PrefixReader β ε α} {f : α → PrefixReader β ε γ}
    (hx : RejectsWithin x E) (hf : ∀ a, RejectsWithin (f a) E) : RejectsWithin (x >>= f) E := by
  intro bs e h
  rcases run_bind_eq_error.mp h with h | ⟨a, mid, -, h⟩
  · exact hx _ _ h
  · exact hf a _ _ h

protected lemma ite {c : Prop} [Decidable c] {x y : PrefixReader β ε α}
    (hx : RejectsWithin x E) (hy : RejectsWithin y E) : RejectsWithin (if c then x else y) E := by
  split
  · exact hx
  · exact hy

end RejectsWithin

/-! ## Record readers

A record reader reads the fields of a record in order and then builds the record.  `Exact` carries
both laws through such a reader: after each field, what is left has to be exact for the records
whose field has the value just read. -/

/-- The reader satisfies both laws. -/
structure Exact (get : PrefixReader β ε α) (wf : α → Prop) (put : α → List β)
    (E : ε → Prop) : Prop where
  reads : Reads get wf put
  rejects : RejectsWithin get E

namespace Exact

variable {E : ε → Prop} {x : PrefixReader β ε α} {wfx : α → Prop} {putx : α → List β}
  {f : α → PrefixReader β ε γ} {wf : γ → Prop} {put : γ → List β}

protected lemma pure {c : γ} (h : ∀ c', wf c' ↔ c' = c) :
    Exact (pure c : PrefixReader β ε γ) wf (fun _ => []) E where
  reads := by
    intro bs c' rest
    rw [run_pure_eq_ok, h c', List.nil_append, eq_comm]
  rejects := .pure c

/-- Read the part `proj` of a record, then the rest of the record. -/
lemma seq (proj : γ → α) (hx : Exact x wfx putx E)
    (hf : ∀ a, wfx a → Exact (f a) (fun c => wf c ∧ proj c = a) put E)
    (hwf : ∀ c, wf c → wfx (proj c)) :
    Exact (x >>= f) wf (fun c => putx (proj c) ++ put c) E where
  reads := by
    intro bs c rest
    rw [run_bind_eq_ok]
    constructor
    · rintro ⟨a, mid, hrun, hrest⟩
      obtain ⟨ha, rfl⟩ := (hx.reads _ _ _).mp hrun
      obtain ⟨⟨hc, rfl⟩, rfl⟩ := ((hf a ha).reads _ _ _).mp hrest
      exact ⟨hc, by rw [List.append_assoc]⟩
    · rintro ⟨hc, rfl⟩
      exact ⟨proj c, put c ++ rest, (hx.reads _ _ _).mpr ⟨hwf c hc, by rw [List.append_assoc]⟩,
        ((hf _ (hwf c hc)).reads _ _ _).mpr ⟨⟨hc, rfl⟩, rfl⟩⟩
  rejects := by
    intro bs e he
    rcases run_bind_eq_error.mp he with he | ⟨a, mid, hrun, he⟩
    · exact hx.rejects _ _ he
    · exact (hf a ((hx.reads _ _ _).mp hrun).1).rejects _ _ he

/-- A check between two fields, on what has been read so far. -/
lemma guard {p : Prop} [Decidable p] {e : ε} {y : PrefixReader β ε γ}
    (hy : ¬ p → Exact y wf put E) (he : E e) (hwf : ∀ c, wf c → ¬ p) :
    Exact (if p then throw e else y) wf put E := by
  by_cases hp : p
  · rw [if_pos hp]
    refine ⟨fun bs c rest => ?_, .throw he⟩
    rw [run_throw_eq_ok]
    exact ⟨False.elim, fun h => hwf c h.1 hp⟩
  · rw [if_neg hp]
    exact hy hp

lemma of_iff {wf' : γ → Prop} {y : PrefixReader β ε γ} (hy : Exact y wf put E)
    (h : ∀ c, wf c ↔ wf' c) : Exact y wf' put E :=
  ⟨fun bs c rest => by rw [hy.reads, h], hy.rejects⟩

/-- Read a count, then that many items, then the rest of the record. -/
lemma counted {tag : PrefixReader β ε κ} {putTag : κ → List β} {toNat : κ → ℕ} {ofNat : ℕ → κ}
    {items : ℕ → PrefixReader β ε (List α)} {P : List α → Prop} {putItems : List α → List β}
    {f : List α → PrefixReader β ε γ} {list : γ → List α}
    (htag : Exact tag (fun _ => True) putTag E)
    (hitems : ∀ n, Exact (items n) (fun l => l.length = n ∧ P l) putItems E)
    (hcount : ∀ k, ofNat (toNat k) = k)
    (hf : ∀ k l, l.length = toNat k → P l → Exact (f l) (fun c => wf c ∧ list c = l) put E)
    (hwf : ∀ c, wf c → toNat (ofNat (list c).length) = (list c).length ∧ P (list c)) :
    Exact (tag >>= fun k => items (toNat k) >>= f) wf
      (fun c => putTag (ofNat (list c).length) ++ (putItems (list c) ++ put c)) E := by
  refine seq (fun c => ofNat (list c).length) htag (fun k _ => ?_) fun _ _ => trivial
  refine seq list (hitems (toNat k)) (fun l hl => ?_) ?_
  · refine (hf k l hl.1 hl.2).of_iff fun c => ?_
    constructor
    · rintro ⟨hc, rfl⟩
      exact ⟨⟨hc, by rw [hl.1, hcount]⟩, rfl⟩
    · rintro ⟨⟨hc, -⟩, rfl⟩
      exact ⟨hc, rfl⟩
  · rintro c ⟨hc, rfl⟩
    exact ⟨(hwf c hc).1.symm, (hwf c hc).2⟩

end Exact

/-! ## Counted raw symbols -/

/-- Take exactly `n` symbols; `short needed remaining` is the rejection when fewer are left. -/
def take (short : ℕ → ℕ → ε) (n : ℕ) : PrefixReader β ε (List β) := fun bs =>
  if bs.length < n then .error (short n bs.length) else .ok (bs.take n, bs.drop n)

lemma take_reads (short : ℕ → ℕ → ε) (n : ℕ) :
    Reads (take short n : PrefixReader β ε (List β)) (fun s => s.length = n) id := by
  intro bs s rest
  simp only [take, StateT.run, id]
  split
  · rename_i hshort
    constructor
    · rintro ⟨⟩
    · rintro ⟨rfl, rfl⟩
      simp at hshort
  · rename_i hlong
    simp only [Except.ok.injEq, Prod.mk.injEq]
    constructor
    · rintro ⟨rfl, rfl⟩
      exact ⟨by rw [List.length_take]; omega, (List.take_append_drop n bs).symm⟩
    · rintro ⟨rfl, rfl⟩
      simp

lemma take_rejectsWithin {short : ℕ → ℕ → ε} {n : ℕ} {E : ε → Prop} (h : ∀ k r, E (short k r)) :
    RejectsWithin (take short n : PrefixReader β ε (List β)) E := by
  intro bs e he
  simp only [take, StateT.run] at he
  split at he
  · cases he
    exact h _ _
  · cases he

/-! ## Counted lists -/

def readMany (get : PrefixReader β ε α) : ℕ → PrefixReader β ε (List α)
  | 0 => pure []
  | n + 1 => do
    let a ← get
    let as ← readMany get n
    pure (a :: as)

lemma readMany_reads {get : PrefixReader β ε α} {wf : α → Prop} {put : α → List β}
    (h : Reads get wf put) (n : ℕ) :
    Reads (readMany get n) (fun l => l.length = n ∧ ∀ a ∈ l, wf a)
      (fun l => l.flatMap put) := by
  induction n with
  | zero =>
    intro bs l rest
    rw [readMany, run_pure_eq_ok]
    constructor
    · rintro ⟨rfl, rfl⟩
      simp
    · rintro ⟨⟨hlen, -⟩, rfl⟩
      obtain rfl := List.length_eq_zero_iff.mp hlen
      simp
  | succ n ih =>
    intro bs l rest
    simp only [readMany, run_bind_eq_ok, run_pure_eq_ok, h _ _ _, ih _ _ _]
    constructor
    · rintro ⟨a, _, ⟨ha, rfl⟩, as, _, ⟨⟨hlen, has⟩, rfl⟩, rfl, rfl⟩
      refine ⟨⟨by simp [hlen], ?_⟩, by simp⟩
      rintro b (_ | ⟨_, hb⟩)
      · exact ha
      · exact has b hb
    · rintro ⟨⟨hlen, hwf⟩, rfl⟩
      cases l with
      | nil => simp at hlen
      | cons a as =>
        refine ⟨a, _, ⟨hwf a (by simp), ?_⟩, as, rest,
          ⟨⟨by simpa using hlen, fun b hb => hwf b (by simp [hb])⟩, rfl⟩, rfl, rfl⟩
        simp

lemma readMany_rejectsWithin {get : PrefixReader β ε α} {E : ε → Prop}
    (h : RejectsWithin get E) (n : ℕ) : RejectsWithin (readMany get n) E := by
  induction n with
  | zero => exact .pure _
  | succ n ih => exact h.bind fun a => ih.bind fun as => .pure _

/-! ## Counted lists in ascending key order

The loop keeps the key of the item before it and rejects a key that does not exceed it, which
catches an unsorted list and a repeated key in one comparison. -/

section Ascending

variable [LT κ] [LE κ] [DecidableLE κ]

/-- Read `n` items whose keys must strictly ascend from `prev` on. -/
def readAscending (get : PrefixReader β ε α) (key : α → κ) (disorder : ε) :
    ℕ → Option κ → PrefixReader β ε (List α)
  | 0, _ => pure []
  | n + 1, prev => do
    let a ← get
    if prev.any (fun p => key a ≤ p) then
      throw disorder
    else
      let as ← readAscending get key disorder n (some (key a))
      pure (a :: as)

end Ascending

section AscendingLaws

variable [LinearOrder κ]

/-- The order rule `readAscending` enforces: keys ascend, starting above `prev`. -/
def AscendsFrom (key : α → κ) (prev : Option κ) (l : List α) : Prop :=
  (∀ p ∈ prev, ∀ a ∈ l, p < key a) ∧ l.Pairwise (fun a b => key a < key b)

lemma ascendsFrom_nil (key : α → κ) (prev : Option κ) : AscendsFrom key prev [] := by
  simp [AscendsFrom]

lemma ascendsFrom_cons {key : α → κ} {prev : Option κ} {a : α} {l : List α} :
    AscendsFrom key prev (a :: l) ↔
      (∀ p ∈ prev, p < key a) ∧ AscendsFrom key (some (key a)) l := by
  simp only [AscendsFrom, List.pairwise_cons, List.forall_mem_cons, Option.mem_def,
    Option.some.injEq, forall_eq']
  constructor
  · rintro ⟨hprev, hhead, htail⟩
    exact ⟨fun p hp => (hprev p hp).1, hhead, htail⟩
  · rintro ⟨hprev, hhead, htail⟩
    exact ⟨fun p hp => ⟨hprev p hp, fun b hb => (hprev p hp).trans (hhead b hb)⟩, hhead, htail⟩

lemma readAscending_reads {get : PrefixReader β ε α} {wf : α → Prop} {put : α → List β}
    (h : Reads get wf put) (key : α → κ) (disorder : ε) (n : ℕ) (prev : Option κ) :
    Reads (readAscending get key disorder n prev)
      (fun l => l.length = n ∧ AscendsFrom key prev l ∧ ∀ a ∈ l, wf a)
      (fun l => l.flatMap put) := by
  induction n generalizing prev with
  | zero =>
    intro bs l rest
    rw [readAscending, run_pure_eq_ok]
    constructor
    · rintro ⟨rfl, rfl⟩
      exact ⟨⟨rfl, ascendsFrom_nil key prev, by simp⟩, by simp⟩
    · rintro ⟨⟨hlen, -⟩, rfl⟩
      obtain rfl := List.length_eq_zero_iff.mp hlen
      simp
  | succ n ih =>
    intro bs l rest
    have hguard : ∀ a : α, (prev.any fun p => decide (key a ≤ p)) = true ↔
        ¬ ∀ p ∈ prev, p < key a := by
      intro a
      cases prev <;> simp
    simp only [readAscending, run_bind_eq_ok, h _ _ _]
    constructor
    · rintro ⟨a, _, ⟨ha, rfl⟩, hrest⟩
      split at hrest
      · exact (run_throw_eq_ok.mp hrest).elim
      · rename_i hord
        rw [hguard, not_not] at hord
        simp only [run_bind_eq_ok, run_pure_eq_ok, ih _ _ _ _] at hrest
        obtain ⟨as, _, ⟨⟨hlen, hasc, has⟩, rfl⟩, rfl, rfl⟩ := hrest
        refine ⟨⟨by simp [hlen], ascendsFrom_cons.mpr ⟨hord, hasc⟩, ?_⟩, by simp⟩
        rintro b (_ | ⟨_, hb⟩)
        · exact ha
        · exact has b hb
    · rintro ⟨⟨hlen, hasc, hwf⟩, rfl⟩
      cases l with
      | nil => simp at hlen
      | cons a as =>
        obtain ⟨hord, hasc⟩ := ascendsFrom_cons.mp hasc
        refine ⟨a, as.flatMap put ++ rest, ⟨hwf a (by simp), by simp⟩, ?_⟩
        rw [if_neg (by rw [hguard, not_not]; exact hord)]
        simp only [run_bind_eq_ok, run_pure_eq_ok, ih _ _ _ _]
        exact ⟨as, rest, ⟨⟨by simpa using hlen, hasc, fun b hb => hwf b (by simp [hb])⟩, rfl⟩,
          rfl, rfl⟩

lemma readAscending_rejectsWithin {get : PrefixReader β ε α} {E : ε → Prop} {key : α → κ}
    {disorder : ε} (h : RejectsWithin get E) (hd : E disorder) (n : ℕ) (prev : Option κ) :
    RejectsWithin (readAscending get key disorder n prev) E := by
  induction n generalizing prev with
  | zero => exact .pure _
  | succ n ih =>
    exact h.bind fun a => .ite (.throw hd) ((ih _).bind fun as => .pure _)

end AscendingLaws

end PrefixReader
