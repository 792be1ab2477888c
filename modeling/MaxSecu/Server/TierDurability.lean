import MaxSecu.Server.WriteBackTier

/-!
# The write-back tier loses no chunk

Any number of operations run interleaved, any store call may fail, and the process may restart at
any moment.  When all puts of a key carry the same bytes and nothing is deleted, a chunk whose put
succeeded is from then on held by the local store or the cold tier.

Every call keeps two things: what is in the cold tier stays there, and what is in one of the stores
stays in one of them.  The second rests on the flag `inCold`: an index entry with it, and a victim
an operation holds with it, names a chunk that the cold tier has.  Only then may the local copy be
dropped without an upload.
-/

namespace MaxSecu

open Discipline

def TierState.fresh (capacityBytes clock : ℕ) : TierState :=
  ⟨∅, ∅, LocalIndex.empty capacityBytes, clock⟩

/-- A restart keeps the stores and loses the index. -/
def TierState.restart (s : TierState) : TierState :=
  { s with index := LocalIndex.empty s.index.capacityBytes }

/-- The chunk is on the local store or in the cold tier. -/
def TierState.Holds (s : TierState) (key : ChunkKey) : Prop :=
  key ∈ s.localStore ∨ key ∈ s.coldTier

/-- The index does not claim cold backing that is not there. -/
def TierState.ColdBacked (s : TierState) : Prop :=
  ∀ key, s.index.inColdOf key = some true → key ∈ s.coldTier

/-- The same of victims that were taken from the index. -/
def Victim.ColdBacked (s : TierState) (victims : List Victim) : Prop :=
  ∀ v ∈ victims, v.inCold = true → v.key ∈ s.coldTier

section Index

variable {index : LocalIndex} {key k : ChunkKey} {size now : ℕ} {inCold pinned : Bool}

lemma LocalIndex.inColdOf_recordPut {b : Bool}
    (h : (index.recordPut key size now inCold pinned).1.inColdOf k = some b) :
    (k = key ∧ b = inCold) ∨ index.inColdOf k = some b := by
  obtain ⟨e, he, hcold⟩ := LocalIndex.inColdOf_eq_some.mp h
  rw [LocalIndex.recordPut_spec.lookup k] at he
  by_cases hvictim : k ∈ (index.recordPut key size now inCold pinned).2.map Victim.key
  · rw [if_pos hvictim] at he
    exact absurd he (by simp)
  · rw [if_neg hvictim, LocalIndex.lookup_set] at he
    by_cases hk : k = key
    · rw [if_pos hk] at he
      obtain rfl := Option.some.inj he
      exact .inl ⟨hk, hcold.symm⟩
    · rw [if_neg hk] at he
      exact .inr (LocalIndex.inColdOf_eq_some.mpr ⟨e, he, hcold⟩)

lemma LocalIndex.victim_recordPut {v : Victim}
    (h : v ∈ (index.recordPut key size now inCold pinned).2) :
    index.inColdOf v.key = some v.inCold := by
  obtain ⟨hne, e, he, hcold, -⟩ := LocalIndex.recordPut_spec.victim v h
  rw [LocalIndex.lookup_set, if_neg hne] at he
  exact LocalIndex.inColdOf_eq_some.mpr ⟨e, he, hcold⟩

lemma LocalIndex.inColdOf_recordAccess :
    (index.recordAccess key now).inColdOf k = index.inColdOf k := by
  unfold LocalIndex.inColdOf
  rw [LocalIndex.lookup_recordAccess]
  by_cases hk : k = key
  · subst hk
    cases hlookup : index.entries.lookup k <;> simp
  · rw [if_neg hk]

end Index

/-! ## The discipline -/

/-- The bytes in both stores are those of the key, and cold backing is as the index says. -/
structure TierState.Sound (content : ChunkKey → List UInt8) (s : TierState) : Prop where
  localBytes : ∀ key b, s.localStore.lookup key = some b → b = content key
  coldBytes : ∀ key b, s.coldTier.lookup key = some b → b = content key
  coldBacked : s.ColdBacked

/-- The cold tier keeps its chunks, and no chunk leaves both stores. -/
structure TierState.Keeps (s t : TierState) : Prop where
  cold : ∀ key, key ∈ s.coldTier → key ∈ t.coldTier
  holds : ∀ key, s.Holds key → t.Holds key

lemma TierState.Keeps.refl (s : TierState) : s.Keeps s := ⟨fun _ h => h, fun _ h => h⟩

lemma TierState.Keeps.trans {s t u : TierState} (hst : s.Keeps t) (htu : t.Keeps u) :
    s.Keeps u :=
  ⟨fun key h => htu.cold key (hst.cold key h), fun key h => htu.holds key (hst.holds key h)⟩

lemma Victim.ColdBacked.later {s t : TierState} {victims : List Victim}
    (h : Victim.ColdBacked s victims) (hlater : s.Keeps t) : Victim.ColdBacked t victims :=
  fun v hv hcold => hlater.cold v.key (h v hv hcold)

def tierDiscipline (content : ChunkKey → List UInt8) :
    Discipline TierCall TierCall.Response TierState where
  step := TierCall.Step
  Inv := TierState.Sound content
  Later := TierState.Keeps
  refl := TierState.Keeps.refl
  trans := TierState.Keeps.trans

/-- All calls so far succeeded. -/
def Clean (trace : List (Event TierCall TierCall.Response)) : Prop :=
  ∀ ev ∈ trace, ev.call.Succeeded ev.response

variable {content : ChunkKey → List UInt8} {s : TierState} {key : ChunkKey} {bytes : List UInt8}
  {inCold pinned : Bool} {size now idle : ℕ}
  {trace : List (Event TierCall TierCall.Response)}

/-! ### Calls to the stores -/

lemma not_clean_append {ev : Event TierCall TierCall.Response}
    (h : ¬ ev.call.Succeeded ev.response) : ¬ Clean (trace ++ [ev]) :=
  fun hclean => h (hclean ev (by simp))

/-- A call to the local store either keeps the discipline with its effect, or fails without one. -/
lemma sat_onLocal {c : StoreCall}
    {post : List (Event TierCall TierCall.Response) → Except BlobError c.Output → TierState → Prop}
    (hok : ∀ s', s.Keeps s' → s'.Sound content →
      TierState.Sound content { s' with localStore := (c.apply s'.localStore).2 } ∧
        s'.Keeps { s' with localStore := (c.apply s'.localStore).2 } ∧
        ∀ trace', post trace' (.ok (c.apply s'.localStore).1)
          { s' with localStore := (c.apply s'.localStore).2 })
    (hfail : ∀ s' e trace', s.Keeps s' → ¬ Clean trace' → post trace' (.error e) s') :
    (tierDiscipline content).Sat post (onLocal c).run trace s := by
  intro s' hlater hinv r t hstep
  cases r with
  | error e =>
    obtain rfl : t = s' := hstep
    refine ⟨hinv, TierState.Keeps.refl t, ?_⟩
    apply hfail t e _ hlater
    apply not_clean_append
    rintro ⟨out, hout⟩
    exact absurd hout (by simp)
  | ok out =>
    obtain ⟨rfl, rfl⟩ := hstep
    obtain ⟨hinv', hlater', hpost⟩ := hok s' hlater hinv
    exact ⟨hinv', hlater', hpost _⟩

lemma sat_onCold {c : StoreCall}
    {post : List (Event TierCall TierCall.Response) → Except BlobError c.Output → TierState → Prop}
    (hok : ∀ s', s.Keeps s' → s'.Sound content →
      TierState.Sound content { s' with coldTier := (c.apply s'.coldTier).2 } ∧
        s'.Keeps { s' with coldTier := (c.apply s'.coldTier).2 } ∧
        ∀ trace', post trace' (.ok (c.apply s'.coldTier).1)
          { s' with coldTier := (c.apply s'.coldTier).2 })
    (hfail : ∀ s' e trace', s.Keeps s' → ¬ Clean trace' → post trace' (.error e) s') :
    (tierDiscipline content).Sat post (onCold c).run trace s := by
  intro s' hlater hinv r t hstep
  cases r with
  | error e =>
    obtain rfl : t = s' := hstep
    refine ⟨hinv, TierState.Keeps.refl t, ?_⟩
    apply hfail t e _ hlater
    apply not_clean_append
    rintro ⟨out, hout⟩
    exact absurd hout (by simp)
  | ok out =>
    obtain ⟨rfl, rfl⟩ := hstep
    obtain ⟨hinv', hlater', hpost⟩ := hok s' hlater hinv
    exact ⟨hinv', hlater', hpost _⟩

lemma bytes_insert {store : ChunkStore} (key : ChunkKey)
    (h : ∀ k b, store.lookup k = some b → b = content k) :
    ∀ k b, (store.insert key (content key)).lookup k = some b → b = content k := by
  intro k b hb
  by_cases hk : k = key
  · subst hk
    rw [AList.lookup_insert] at hb
    exact (Option.some.inj hb).symm
  · rw [AList.lookup_insert_ne hk] at hb
    exact h k b hb

lemma keeps_localPut (key : ChunkKey) (hs : s.Sound content) :
    TierState.Sound content
        { s with localStore := s.localStore.insert key (content key) } ∧
      s.Keeps { s with localStore := s.localStore.insert key (content key) } := by
  refine ⟨⟨bytes_insert key hs.localBytes, hs.coldBytes, hs.coldBacked⟩, ⟨fun _ h => h, ?_⟩⟩
  intro k hk
  rcases hk with hlocal | hcold
  · exact .inl ((AList.mem_insert _).mpr (.inr hlocal))
  · exact .inr hcold

lemma keeps_coldPut (key : ChunkKey) (hs : s.Sound content) :
    TierState.Sound content { s with coldTier := s.coldTier.insert key (content key) } ∧
      s.Keeps { s with coldTier := s.coldTier.insert key (content key) } := by
  have hgrows : ∀ k, k ∈ s.coldTier → k ∈ s.coldTier.insert key (content key) :=
    fun k hk => (AList.mem_insert _).mpr (.inr hk)
  refine ⟨⟨hs.localBytes, bytes_insert key hs.coldBytes, ?_⟩, ⟨hgrows, ?_⟩⟩
  · intro k hk
    exact hgrows k (hs.coldBacked k hk)
  · intro k hk
    rcases hk with hlocal | hcold
    · exact .inl hlocal
    · exact .inr (hgrows k hcold)

lemma keeps_localDelete (hs : s.Sound content) (hcold : key ∈ s.coldTier) :
    TierState.Sound content { s with localStore := s.localStore.erase key } ∧
      s.Keeps { s with localStore := s.localStore.erase key } := by
  refine ⟨⟨?_, hs.coldBytes, hs.coldBacked⟩, ⟨fun _ h => h, ?_⟩⟩
  · intro k b hb
    by_cases hk : k = key
    · subst hk
      rw [AList.lookup_erase] at hb
      exact absurd hb (by simp)
    · rw [AList.lookup_erase_ne hk] at hb
      exact hs.localBytes k b hb
  · intro k hk
    by_cases heq : k = key
    · exact .inr (heq ▸ hcold)
    · rcases hk with hlocal | hcold'
      · exact .inl (AList.mem_erase.mpr ⟨heq, hlocal⟩)
      · exact .inr hcold'

/-! ### Calls to the index -/

/-- A section under the index lock is safe when every entry with cold backing that it leaves has
it. -/
lemma sat_onIndex {c : IndexCall}
    {post : List (Event TierCall TierCall.Response) → c.Output → TierState → Prop}
    (h : ∀ s', s.Keeps s' → s'.Sound content →
      TierState.ColdBacked { s' with index := (c.apply s'.index).2 } ∧
        ∀ out trace', c.Returns s'.index out →
          post trace' out { s' with index := (c.apply s'.index).2 }) :
    (tierDiscipline content).Sat post (onIndex c) trace s := by
  intro s' hlater hinv out t hstep
  obtain ⟨hreturns, rfl⟩ := hstep
  obtain ⟨hbacked, hpost⟩ := h s' hlater hinv
  exact ⟨⟨hinv.localBytes, hinv.coldBytes, hbacked⟩, ⟨fun _ h => h, fun _ h => h⟩,
    hpost _ _ hreturns⟩

lemma sat_clockNow {post : List (Event TierCall TierCall.Response) → ℕ → TierState → Prop}
    (h : ∀ s' time trace', s.Keeps s' → post trace' time s') :
    (tierDiscipline content).Sat post clockNow trace s := by
  intro s' hlater hinv time t hstep
  obtain ⟨-, rfl⟩ := hstep
  exact ⟨hinv, TierState.Keeps.refl t, h t time _ hlater⟩

lemma coldBacked_recordPut (hs : s.ColdBacked) (hkey : inCold = true → key ∈ s.coldTier) :
    TierState.ColdBacked { s with index := (s.index.recordPut key size now inCold pinned).1 } := by
  intro k hk
  rcases LocalIndex.inColdOf_recordPut hk with ⟨rfl, hcold⟩ | hold
  · exact hkey hcold.symm
  · exact hs k hold

lemma coldBacked_victims_recordPut (hs : s.ColdBacked) :
    Victim.ColdBacked s (s.index.recordPut key size now inCold pinned).2 := by
  intro v hv hcold
  have hindexed := LocalIndex.victim_recordPut hv
  rw [hcold] at hindexed
  exact hs v.key hindexed

lemma coldBacked_recordHit (hs : s.ColdBacked) : TierState.ColdBacked
    { s with index := ((IndexCall.recordHit key size now pinned).apply s.index).2 } := by
  by_cases hcontains : s.index.contains key = true
  · intro k hk
    have hk' : (s.index.recordAccess key now).inColdOf k = some true := by
      simpa [IndexCall.apply, hcontains] using hk
    rw [LocalIndex.inColdOf_recordAccess] at hk'
    exact hs k hk'
  · have hrecorded : TierState.ColdBacked
        { s with index := (s.index.recordPut key size now false pinned).1 } :=
      coldBacked_recordPut hs fun h => absurd h (by simp)
    simpa [IndexCall.apply, hcontains] using hrecorded

lemma coldBacked_idleVictims (hs : s.ColdBacked) {victims : List Victim}
    (h : victims.Perm (s.index.idleVictims now idle)) : Victim.ColdBacked s victims := by
  intro v hv hcold
  obtain ⟨e, he, hflag, -⟩ := LocalIndex.mem_idleVictims (h.mem_iff.mp hv)
  apply hs v.key
  rw [LocalIndex.inColdOf_eq_some]
  exact ⟨e, he, hflag.trans hcold⟩

/-! ## The operations -/

lemma sat_offload (hcold : inCold = true → key ∈ s.coldTier) :
    (tierDiscipline content).Sat (fun _ _ _ => True) (WriteBackTier.offload key inCold).run
      trace s := by
  have hdelete : ∀ {s : TierState} {trace}, key ∈ s.coldTier →
      (tierDiscipline content).Sat (fun _ _ _ => True) (onLocal (.deleteChunk key)).run trace s := by
    intro s trace hmem
    apply sat_onLocal
    · intro s' hlater hs'
      have hkeeps := keeps_localDelete hs' (hlater.cold key hmem)
      exact ⟨hkeeps.1, hkeeps.2, fun _ => trivial⟩
    · exact fun _ _ _ _ _ => trivial
  unfold WriteBackTier.offload
  by_cases hflag : inCold = true
  · rw [if_pos hflag]
    exact hdelete (hcold hflag)
  · rw [if_neg hflag]
    apply Sat.bindExcept
    apply sat_onLocal
    · intro s' hlater hs'
      refine ⟨hs', TierState.Keeps.refl s', ?_⟩
      intro trace'
      apply Program.after_ok
      cases hlookup : s'.localStore.lookup key with
      | none =>
        simp only [StoreCall.apply, hlookup, Option.elim_none]
        exact trivial
      | some b =>
        simp only [StoreCall.apply, hlookup, Option.elim_some]
        obtain rfl := hs'.localBytes key b hlookup
        apply Sat.bindExcept
        apply sat_onCold
        · intro u _ hu
          have hkeeps := keeps_coldPut key hu
          refine ⟨hkeeps.1, hkeeps.2, ?_⟩
          intro trace''
          apply Program.after_ok
          apply hdelete
          exact (AList.mem_insert _).mpr (.inl rfl)
        · exact fun _ _ _ _ _ => Program.after_error trivial
    · exact fun _ _ _ _ _ => Program.after_error trivial

lemma sat_localRead
    {post : List (Event TierCall TierCall.Response) → Except BlobError (Option (List UInt8)) →
      TierState → Prop}
    (h : ∀ s' r trace', s.Keeps s' → s'.Sound content →
      (∀ b, r = .ok (some b) → key ∈ s'.localStore ∧ b = content key) →
      (r = .ok none → key ∉ s'.localStore) → (Clean trace' → ∃ b, r = .ok b) → post trace' r s') :
    (tierDiscipline content).Sat post (onLocal (.getChunk key)).run trace s := by
  intro s' hlater hinv r t hstep
  have hunchanged : t = s' := by
    cases r with
    | error e => exact hstep
    | ok out => exact hstep.2
  subst hunchanged
  refine ⟨hinv, TierState.Keeps.refl t, h t r _ hlater hinv ?_ ?_ ?_⟩
  · rintro b rfl
    have hlookup : t.localStore.lookup key = some b := hstep.1.symm
    exact ⟨AssociationList.mem_iff_lookup.mpr ⟨b, hlookup⟩, hinv.localBytes key b hlookup⟩
  · rintro rfl
    exact AList.lookup_eq_none.mp hstep.1.symm
  · intro hclean
    exact hclean ⟨.localStore (.getChunk key), r⟩ (by simp)

lemma sat_readopt (hcold : inCold = true → key ∈ s.coldTier) :
    (tierDiscipline content).Sat (fun _ _ _ => True) (WriteBackTier.readopt key inCold) trace s := by
  unfold WriteBackTier.readopt
  apply Sat.bind
  apply sat_localRead
  intro s' r trace' hlater hs' _ _ _
  cases r.toOption.join with
  | none => exact trivial
  | some b =>
    simp only [Option.elim_some]
    apply Sat.bind
    apply sat_clockNow
    intro u time _ hlater'
    apply sat_onIndex
    intro v hlater'' hv
    refine ⟨?_, fun _ _ _ => trivial⟩
    apply coldBacked_recordPut hv.coldBacked
    exact fun h => hlater''.cold key (hlater'.cold key (hlater.cold key (hcold h)))

lemma sat_readoptAll {victims : List Victim} (hcold : Victim.ColdBacked s victims) :
    (tierDiscipline content).Sat (fun _ _ _ => True)
      (victims.forM fun u => WriteBackTier.readopt u.key u.inCold) trace s := by
  induction victims generalizing trace s with
  | nil => exact trivial
  | cons v rest ih =>
    show (tierDiscipline content).Sat _ (WriteBackTier.readopt v.key v.inCold >>=
      fun _ => rest.forM fun u => WriteBackTier.readopt u.key u.inCold) trace s
    apply Sat.bind
    apply Sat.mono (sat_readopt (hcold v (by simp)))
    intro _ _ t hlater _
    apply ih
    exact Victim.ColdBacked.later (fun u hu => hcold u (List.mem_cons_of_mem v hu)) hlater

lemma sat_offloadVictims {victims : List Victim} (hcold : Victim.ColdBacked s victims) :
    (tierDiscipline content).Sat (fun _ _ _ => True) (WriteBackTier.offloadVictims victims)
      trace s := by
  induction victims generalizing trace s with
  | nil => exact trivial
  | cons v rest ih =>
    rw [WriteBackTier.offloadVictims]
    apply Sat.bind
    apply Sat.mono (sat_offload (hcold v (by simp)))
    intro _ r t hlater _
    have hcold' : Victim.ColdBacked t (v :: rest) := hcold.later hlater
    have hrest : Victim.ColdBacked t rest := fun u hu => hcold' u (List.mem_cons_of_mem v hu)
    by_cases hok : r.isOk = true
    · rw [if_pos hok]
      exact ih hrest
    · rw [if_neg hok]
      apply Sat.bind
      apply Sat.mono (sat_readopt (hcold' v (by simp)))
      intro _ _ u hlater' _
      exact sat_readoptAll (hrest.later hlater')

lemma sat_runIdleSweep : (tierDiscipline content).Sat (fun _ _ _ => True)
    (WriteBackTier.runIdleSweep idle) trace s := by
  unfold WriteBackTier.runIdleSweep
  apply Sat.bind
  apply sat_clockNow
  intro s' time _ _
  apply Sat.bind
  apply sat_onIndex
  intro u _ hu
  refine ⟨hu.coldBacked, ?_⟩
  intro victims _ hreturns
  exact sat_offloadVictims (coldBacked_idleVictims hu.coldBacked hreturns)

/-- What follows the arrival of a chunk on the local store: it is recorded, and others make room
for it. -/
lemma sat_record {α : Type} {size : ℕ} {pinned : Bool} {rest : TierM α}
    {post : List (Event TierCall TierCall.Response) → Except BlobError α → TierState → Prop}
    (hkey : inCold = true → key ∈ s.coldTier)
    (hrest : ∀ t trace', s.Keeps t → (tierDiscipline content).Sat post rest.run trace' t) :
    (tierDiscipline content).Sat post
      (do
        let now ← clockNow
        let victims : List Victim ← onIndex (.recordPut key size now inCold pinned)
        WriteBackTier.offloadVictims victims
        rest : TierM α).run trace s := by
  apply Sat.bindExcept
  apply Sat.lift
  apply sat_clockNow
  intro s' time _ hlater
  apply Program.after_ok
  apply Sat.bindExcept
  apply Sat.lift
  apply sat_onIndex
  intro u hlater' hu
  refine ⟨coldBacked_recordPut hu.coldBacked fun h => ?_, ?_⟩
  · exact hlater'.cold key (hlater.cold key (hkey h))
  · rintro victims _ rfl
    apply Program.after_ok
    apply Sat.bindExcept
    apply Sat.lift
    apply Sat.mono (sat_offloadVictims ?_)
    · intro _ _ t hlater'' _
      apply Program.after_ok
      apply hrest
      exact hlater.trans (hlater'.trans ⟨hlater''.cold, hlater''.holds⟩)
    · exact coldBacked_victims_recordPut hu.coldBacked

lemma sat_putChunk : (tierDiscipline content).Sat (fun _ r t => r = .ok () → t.Holds key)
    (WriteBackTier.putChunk key (content key)).run trace s := by
  unfold WriteBackTier.putChunk
  apply Sat.bindExcept
  apply sat_onLocal
  · intro s' _ hs'
    have hkeeps := keeps_localPut key hs'
    refine ⟨hkeeps.1, hkeeps.2, ?_⟩
    intro trace'
    apply Program.after_ok
    have hheld : TierState.Holds { s' with localStore := s'.localStore.insert key (content key) }
        key := .inl ((AList.mem_insert _).mpr (.inl rfl))
    apply sat_record
    · exact fun h => absurd h (by simp)
    · intro t _ hlater _
      exact hlater.holds key hheld
  · exact fun _ _ _ _ _ => Program.after_error fun h => absurd h (by simp)

/-- What a read promises: the bytes of a chunk that was held when it started, unless a call
failed. -/
def ReadPromise (content : ChunkKey → List UInt8) (key : ChunkKey) (held : Prop)
    (trace : List (Event TierCall TierCall.Response))
    (r : Except BlobError (Option (List UInt8))) : Prop :=
  held → Clean trace → r = .ok (some (content key))

lemma sat_rehydrate {held : Prop} (hheld : held → key ∈ s.coldTier) :
    (tierDiscipline content).Sat (fun trace' r _ => ReadPromise content key held trace' r)
      (WriteBackTier.rehydrate key).run trace s := by
  have hfailed : ∀ {e : BlobError} {trace : List (Event TierCall TierCall.Response)},
      ¬ Clean trace → ReadPromise content key held trace (.error e) :=
    fun hdirty _ hclean => absurd hclean hdirty
  unfold WriteBackTier.rehydrate
  apply Sat.bindExcept
  apply sat_onCold
  · intro s' hlater hs'
    refine ⟨hs', TierState.Keeps.refl s', ?_⟩
    intro trace'
    apply Program.after_ok
    cases hlookup : s'.coldTier.lookup key with
    | none =>
      simp only [StoreCall.apply, hlookup, Option.elim_none]
      intro h _
      have hmem : key ∈ s'.coldTier := hlater.cold key (hheld h)
      exact absurd hmem (AList.lookup_eq_none.mp hlookup)
    | some b =>
      simp only [StoreCall.apply, hlookup, Option.elim_some]
      obtain rfl := hs'.coldBytes key b hlookup
      have hcold : key ∈ s'.coldTier := AssociationList.mem_iff_lookup.mpr ⟨_, hlookup⟩
      apply Sat.bindExcept
      apply sat_onLocal
      · intro u hlater' hu
        have hkeeps := keeps_localPut key hu
        refine ⟨hkeeps.1, hkeeps.2, ?_⟩
        intro trace''
        apply Program.after_ok
        apply sat_record
        · exact fun _ => hlater'.cold key hcold
        · exact fun _ _ _ _ _ => rfl
      · intro _ e _ _ hdirty
        exact Program.after_error (hfailed hdirty)
  · intro _ e _ _ hdirty
    exact Program.after_error (hfailed hdirty)

/-- A read whose calls all succeed returns the bytes of a chunk that was held when it started. -/
lemma sat_getChunk {held : Prop} (hheld : held → s.Holds key) :
    (tierDiscipline content).Sat (fun trace' r _ => ReadPromise content key held trace' r)
      (WriteBackTier.getChunk key).run trace s := by
  unfold WriteBackTier.getChunk
  apply Sat.bindExcept
  apply sat_localRead
  intro s' r trace' hlater hs' hsome hnone hclean
  refine ⟨?_, ?_⟩
  · rintro found rfl
    cases found with
    | none =>
      simp only [Option.elim_none]
      apply sat_rehydrate
      intro h
      rcases hlater.holds key (hheld h) with hlocal | hcold
      · exact absurd hlocal (hnone rfl)
      · exact hcold
    | some b =>
      simp only [Option.elim_some]
      obtain ⟨-, rfl⟩ := hsome b rfl
      apply Sat.bindExcept
      apply Sat.lift
      apply sat_clockNow
      intro u time _ _
      apply Program.after_ok
      apply Sat.bindExcept
      apply Sat.lift
      apply sat_onIndex
      intro v _ hv
      refine ⟨coldBacked_recordHit hv.coldBacked, ?_⟩
      intro _ _ _
      apply Program.after_ok
      exact fun _ _ => rfl
  · rintro e rfl _ hclean'
    obtain ⟨b, hb⟩ := hclean hclean'
    exact absurd hb (by simp)

lemma sat_chunkCount {blobRef : String} : (tierDiscipline content).Sat (fun _ _ _ => True)
    (WriteBackTier.chunkCount blobRef).run trace s := by
  unfold WriteBackTier.chunkCount
  apply Sat.bindExcept
  apply sat_onLocal
  · intro s' _ hs'
    refine ⟨hs', TierState.Keeps.refl s', ?_⟩
    intro trace'
    apply Program.after_ok
    apply Sat.bindExcept
    have hread : (tierDiscipline content).Sat (fun _ _ _ => True)
        (onCold (.chunkCount blobRef)).run trace' s' :=
      sat_onCold (fun u _ hu => ⟨hu, TierState.Keeps.refl u, fun _ => trivial⟩)
        fun _ _ _ _ _ => trivial
    apply Sat.lift
    apply Sat.mono hread
    intro _ r t _ _
    apply Program.after_ok
    cases r.toOption with
    | none => exact trivial
    | some n =>
      apply Sat.bindExcept
      apply Sat.lift
      apply sat_onIndex
      intro u _ hu
      exact ⟨hu.coldBacked, fun _ _ _ => ⟨fun _ _ => trivial, fun _ _ => trivial⟩⟩
  · exact fun _ _ _ _ _ => Program.after_error trivial

/-! ## The system of all operations -/

/-- Nothing is deleted, and all puts of a key carry the same bytes. -/
def TierOp.Permitted (content : ChunkKey → List UInt8) : TierOp → Prop
  | putChunk key bytes => bytes = content key
  | deleteStream _ => False
  | deleteChunk _ => False
  | _ => True

/-- An operation of the tier that returned. -/
abbrev TierCompletion := Completion TierOp TierCall TierCall.Response (Except BlobError TierReply)

/-- The tier after any interleaving of permitted operations, with any store calls failing and any
restarts, from empty stores. -/
def TierReachable (content : ChunkKey → List UInt8) (idle capacityBytes : ℕ) :
    System TierOp TierCall TierCall.Response (Except BlobError TierReply) TierState → Prop :=
  System.Reachable TierCall.Step (fun op => (op.program idle).run) (TierOp.Permitted content)
    (fun s t => t = s.restart) fun s => ∃ clock, s = TierState.fresh capacityBytes clock

/-- The operation was a put of the chunk, and it succeeded. -/
def PutSucceeded (key : ChunkKey) (c : TierCompletion) : Prop :=
  ∃ bytes, c.op = .putChunk key bytes ∧ c.result = .ok .done

/-- A put that succeeded leaves the chunk held, and a read whose calls all succeeded returned the
bytes if such a put had returned when the read started. -/
structure GoodCompletion (content : ChunkKey → List UInt8) (before : List TierCompletion)
    (c : TierCompletion) (s : TierState) : Prop where
  put : ∀ key, PutSucceeded key c → s.Holds key
  get : ∀ key, c.op = .getChunk key → (∃ p ∈ before, PutSucceeded key p) → Clean c.trace →
    c.result = .ok (.chunk (some (content key)))

lemma goodCompletion_other {before : List TierCompletion} {c : TierCompletion}
    (hput : ∀ key bytes, c.op ≠ .putChunk key bytes) (hget : ∀ key, c.op ≠ .getChunk key) :
    GoodCompletion content before c s :=
  ⟨fun key ⟨bytes, hop, _⟩ => absurd hop (hput key bytes), fun key hop => absurd hop (hget key)⟩

lemma sat_program {op : TierOp} {log : List TierCompletion} (hmay : op.Permitted content)
    (hlog : ∀ c ∈ log, GoodCompletion content (log.take c.since) c s) :
    (tierDiscipline content).Sat
      (fun trace' r t => GoodCompletion content log ⟨op, log.length, trace', r⟩ t)
      (op.program idle).run [] s := by
  cases op with
  | putChunk key bytes =>
    obtain rfl : bytes = content key := hmay
    unfold TierOp.program
    apply Sat.bindExcept
    apply Sat.mono sat_putChunk
    intro trace' r t _ hheld
    refine ⟨?_, ?_⟩
    · rintro _ rfl
      refine ⟨?_, fun k h => absurd h (by simp)⟩
      rintro k ⟨bytes, hop, -⟩
      obtain ⟨rfl, -⟩ := TierOp.putChunk.inj hop
      exact hheld rfl
    · rintro e rfl
      exact ⟨fun k ⟨_, _, h⟩ => absurd h (by simp), fun k h => absurd h (by simp)⟩
  | getChunk key =>
    have hheld : (∃ p ∈ log, PutSucceeded key p) → s.Holds key := by
      rintro ⟨p, hp, hput⟩
      exact (hlog p hp).put key hput
    unfold TierOp.program
    apply Sat.bindExcept
    apply Sat.mono (sat_getChunk hheld)
    intro trace' r t _ hpromise
    refine ⟨?_, ?_⟩
    · rintro bytes rfl
      refine ⟨fun k ⟨_, h, _⟩ => absurd h (by simp), ?_⟩
      intro k hop hbefore hclean
      obtain rfl := TierOp.getChunk.inj hop
      obtain rfl := Except.ok.inj (hpromise hbefore hclean)
      rfl
    · rintro e rfl
      refine ⟨fun k ⟨_, h, _⟩ => absurd h (by simp), ?_⟩
      intro k hop hbefore hclean
      obtain rfl := TierOp.getChunk.inj hop
      exact absurd (hpromise hbefore hclean) (by simp)
  | runIdleSweep =>
    apply Sat.bindExcept
    apply Sat.lift
    apply Sat.mono sat_runIdleSweep
    intro _ _ _ _ _
    exact ⟨fun _ _ => goodCompletion_other (by simp) (by simp), fun _ h => absurd h (by simp)⟩
  | chunkCount blobRef =>
    apply Sat.bindExcept
    apply Sat.mono sat_chunkCount
    intro _ _ _ _ _
    exact ⟨fun _ _ => goodCompletion_other (by simp) (by simp),
      fun _ _ => goodCompletion_other (by simp) (by simp)⟩
  | deleteStream blobRef => exact absurd hmay id
  | deleteChunk key => exact absurd hmay id
  | setClock time =>
    apply Sat.bindExcept
    apply Sat.lift
    intro s' _ hs' r t hstep
    obtain rfl : t = { s' with clock := time } := hstep
    refine ⟨⟨hs'.localBytes, hs'.coldBytes, hs'.coldBacked⟩, ⟨fun _ h => h, fun _ h => h⟩, ?_⟩
    exact ⟨fun _ _ => goodCompletion_other (by simp) (by simp), fun _ h => absurd h (by simp)⟩

lemma TierState.Sound.lookup (hs : s.Sound content) (hheld : s.Holds key) :
    s.localStore.lookup key = some (content key) ∨ s.coldTier.lookup key = some (content key) := by
  rcases hheld with hlocal | hcold
  · obtain ⟨b, hb⟩ := AssociationList.mem_iff_lookup.mp hlocal
    exact .inl (hs.localBytes key b hb ▸ hb)
  · obtain ⟨b, hb⟩ := AssociationList.mem_iff_lookup.mp hcold
    exact .inr (hs.coldBytes key b hb ▸ hb)

lemma tierReachable_kept {capacityBytes : ℕ}
    {S : System TierOp TierCall TierCall.Response (Except BlobError TierReply) TierState}
    (hS : TierReachable content idle capacityBytes S) :
    System.Kept (tierDiscipline content) (GoodCompletion content) S := by
  refine System.reachable_kept (D := tierDiscipline content) ?_ ?_ ?_ ?_ hS
  · rintro s ⟨clock, rfl⟩
    exact ⟨fun key b h => absurd h (by simp [TierState.fresh]),
      fun key b h => absurd h (by simp [TierState.fresh]),
      fun key h => absurd h (by simp [TierState.fresh, LocalIndex.inColdOf])⟩
  · intro log c s t hlater hgood
    exact ⟨fun key hput => hlater.holds key (hgood.put key hput), hgood.get⟩
  · intro op log s hmay _ hlog
    exact sat_program hmay hlog
  · rintro s t hs rfl
    refine ⟨⟨hs.localBytes, hs.coldBytes, ?_⟩, ⟨fun _ h => h, fun _ h => h⟩⟩
    exact fun key h => absurd h (by simp [TierState.restart, LocalIndex.inColdOf])

/-- In every reachable moment, a chunk whose put succeeded is held with its bytes; and a read whose
store calls all succeeded, of a chunk whose put had succeeded before, returned those bytes. -/
theorem writeBackTier_losesNoChunk {capacityBytes : ℕ}
    {S : System TierOp TierCall TierCall.Response (Except BlobError TierReply) TierState}
    (hS : TierReachable content idle capacityBytes S) :
    (∀ c ∈ S.log, ∀ key, PutSucceeded key c →
      S.shared.localStore.lookup key = some (content key) ∨
        S.shared.coldTier.lookup key = some (content key)) ∧
    ∀ c ∈ S.log, ∀ key, c.op = .getChunk key →
      (∃ p ∈ S.log.take c.since, PutSucceeded key p) → Clean c.trace →
      c.result = .ok (.chunk (some (content key))) := by
  have hkept := tierReachable_kept hS
  constructor
  · intro c hc key hput
    exact hkept.inv.lookup ((hkept.log c hc).2.put key hput)
  · intro c hc key hop hbefore hclean
    exact (hkept.log c hc).2.get key hop hbefore hclean

/-! ## A run -/

/-- Operations one after another from empty stores, no call failing. -/
def tierRun (idle capacityBytes : ℕ) (ops : List TierOp) :
    System TierOp TierCall TierCall.Response (Except BlobError TierReply) TierState :=
  ops.foldl (System.runAlone TierCall.succeed fun op => (op.program idle).run)
    ⟨TierState.fresh capacityBytes 0, [], []⟩

lemma tierReachable_tierRun {capacityBytes : ℕ} {ops : List TierOp}
    (h : ∀ op ∈ ops, op.Permitted content) :
    TierReachable content idle capacityBytes (tierRun idle capacityBytes ops) :=
  System.Reachable.runAll (fun e s => (e.step_succeed s).1) h (.init ⟨0, rfl⟩)

lemma clean_events {α : Type} (p : TierProgram α) (s : TierState) :
    Clean (System.events TierCall.succeed p s) := by
  induction p generalizing s with
  | done a => exact fun ev hev => absurd hev (by simp [System.events])
  | call e next ih =>
    intro ev hev
    rcases List.mem_cons.mp hev with rfl | hev
    · exact (e.step_succeed s).2
    · exact ih _ _ ev hev

/-- Two chunks of one byte on a store with room for one: the first moves to the cold tier, and is
read from there. -/
def evictingRun : System TierOp TierCall TierCall.Response (Except BlobError TierReply) TierState :=
  tierRun 0 1 [.putChunk ⟨"ab/1/1", 0⟩ [7], .putChunk ⟨"ab/1/1", 1⟩ [7], .getChunk ⟨"ab/1/1", 0⟩]

theorem writeBackTier_losesNoChunk_evicted :
    ∃ c ∈ evictingRun.log, c.op = .getChunk ⟨"ab/1/1", 0⟩ ∧
      c.result = .ok (.chunk (some [7])) := by
  have hreach : TierReachable (fun _ => [7]) 0 1 evictingRun := by
    apply tierReachable_tierRun
    intro op hop
    simp only [List.mem_cons, List.not_mem_nil, or_false] at hop
    rcases hop with rfl | rfl | rfl
    · exact rfl
    · exact rfl
    · exact trivial
  have hget := (writeBackTier_losesNoChunk hreach).2 (evictingRun.log.get ⟨2, by decide +kernel⟩)
    (List.get_mem ..) ⟨"ab/1/1", 0⟩ rfl
  refine ⟨evictingRun.log.get ⟨2, by decide +kernel⟩, List.get_mem .., rfl, hget ?_ ?_⟩
  · refine ⟨evictingRun.log.get ⟨0, by decide +kernel⟩, ?_, [7], rfl, by decide +kernel⟩
    exact List.mem_of_getElem? (i := 0) rfl
  · exact clean_events _ _

end MaxSecu
