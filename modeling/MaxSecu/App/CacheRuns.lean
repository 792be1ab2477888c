import MaxSecu.App.CacheBackends

/-!
# Runs of the blob cache

After every run of calls the backend holds exactly the indexed blobs, within the cap, and what is read
under a key is what was put there last, unless it was removed by name, was larger than the cap, or went
for room as one of the least recently used (`blobCache_exact`).  Files and memory give the same answers.
-/

namespace MaxSecu

open AssociationList Recency

namespace BlobOp

/-- How many bytes may stay besides, and the entries that may go. -/
def room (c : BackedCache) : BlobOp → Option (ℕ × AList fun _ : BlobKey => BlobEntry)
  | put ns idHex sub ciphertext =>
    match blobKey ns idHex sub, c.cap with
    | some key, some cap =>
      if ciphertext.length ≤ cap then some (cap - ciphertext.length, c.index.erase key) else none
    | _, _ => none
  | setCap newCap => some (newCap, c.index)
  | _ => none

/-- What can be read under a key after a call, when the victims went for room. -/
def leaves (op : BlobOp) (cap : Option ℕ) (victims : List BlobKey)
    (read : BlobKey → Option (List UInt8)) (key : BlobKey) : Option (List UInt8) :=
  if op.removes key then none
  else
    match op.putUnder key with
    | some bytes => if cap.any (· < bytes.length) then none else some bytes
    | none => if key ∈ victims then none else read key

def answer (read : BlobKey → Option (List UInt8)) : BlobOp → BlobAnswer
  | put _ idHex _ _ => .put ((validatedKey idHex).map fun _ => ())
  | get ns idHex sub => .get ((blobKey ns idHex sub).bind read)
  | _ => .done

end BlobOp

namespace BackedCache

/-- A call that stores a blob with which the sizes no longer add up to a machine word. -/
def Overflows (c : BackedCache) : BlobOp → Prop
  | .put ns idHex sub ciphertext =>
    ∃ key, blobKey ns idHex sub = some key ∧ ¬ c.cap.any (· < ciphertext.length) ∧
      2 ^ 64 ≤ weight BlobEntry.sizeBytes (c.index.erase key) + ciphertext.length
  | _ => False

/-- What a call does: the victims are the least recently used, as few as make enough room, and under
the other keys there is what was there, unless the call is about them. -/
structure Effect (used : List (Option BlobKey)) (c : BackedCache) (op : BlobOp)
    (victims : List BlobKey) (c' : BackedCache) : Prop where
  room : (op.room c).elim (victims = []) fun x =>
    EvictsLeastRecent BlobEntry.sizeBytes x.1 (fun _ _ => True) used x.2 victims
      (eraseAll victims x.2)
  reads : ∀ key, c'.backend.read key = op.leaves c.cap victims c.backend.read key

/-- What holds after every run: the blobs are those of the index, within the cap, and the stamps
follow the history. -/
structure Sound (used : List (Option BlobKey)) (c : BackedCache) : Prop where
  consistent : c.Consistent
  capped : ∀ cap, c.cap = some cap → c.totalBytes ≤ cap
  stamps : Stamps used c.tick fun a => (c.index.lookup a).map BlobEntry.lastUsed

variable {used : List (Option BlobKey)} {c c' d d' : BackedCache} {key : BlobKey}
  {keys victims : List BlobKey} {ns : Ns} {idHex id : List Char} {sub : UInt32}
  {bytes : List UInt8} {op : BlobOp} {answer : BlobAnswer}

lemma sound_openDisk (cap : Option ℕ) : Sound [] (openDisk cap) where
  consistent :=
    { holds := fun name => by simp [openDisk]
      sizes := fun key => rfl
      held := rfl
      counts := rfl }
  capped := fun cap' _ => Nat.zero_le cap'
  stamps := .none

lemma sound_openMemory (cap : Option ℕ) : Sound [] (openMemory cap) where
  consistent :=
    { holds := fun key => by simp [openMemory]
      sizes := fun key => rfl
      held := rfl
      counts := rfl }
  capped := fun cap' _ => Nat.zero_le cap'
  stamps := .none

lemma Sound.removeAll (h : Sound used c) (keys : List BlobKey) :
    Sound used (c.removeAll keys) where
  consistent := h.consistent.removeAll keys
  capped := by
    intro cap hcap
    rw [cap_removeAll] at hcap
    exact totalBytes_removeAll_le.trans (h.capped cap hcap)
  stamps := by
    rw [tick_removeAll]
    refine h.stamps.restrict fun a s hs => ?_
    rw [index_removeAll, lookup_eraseAll] at hs
    by_cases ha : a ∈ keys
    · rw [if_pos ha] at hs
      exact absurd hs (by simp)
    · rwa [if_neg ha] at hs

lemma Sound.pass (h : Sound used c) : Sound (used ++ [none]) c :=
  ⟨h.consistent, h.capped, h.stamps.pass⟩

lemma Sound.miss (h : Sound used c) (hkey : key ∉ c.index) : Sound (used ++ [some key]) c := by
  refine ⟨h.consistent, h.capped, h.stamps.miss ?_⟩
  rw [AList.lookup_eq_none.mpr hkey]
  rfl

lemma removeEntry_eq_removeAll : c.removeEntry key = c.removeAll [key] := rfl

lemma Sound.evicts {capacity : ℕ} (h : Sound used c)
    (hdrains : Drains BlobEntry.sizeBytes BlobEntry.lastUsed capacity (fun _ _ => True) c.index
      victims (eraseAll victims c.index)) :
    EvictsLeastRecent BlobEntry.sizeBytes capacity (fun _ _ => True) used c.index victims
      (eraseAll victims c.index) :=
  hdrains.leastRecent h.stamps

lemma weight_le_of_evicts {capacity : ℕ} {m : AList fun _ : BlobKey => BlobEntry}
    (h : EvictsLeastRecent BlobEntry.sizeBytes capacity (fun _ _ => True) used m victims
      (eraseAll victims m)) :
    weight BlobEntry.sizeBytes (eraseAll victims m) ≤ capacity := by
  obtain hfits | hnone := h.settled
  · exact hfits
  · have hempty : (eraseAll victims m).entries = [] := by
      rw [List.eq_nil_iff_forall_not_mem]
      intro e he
      exact hnone e.1 e.2 (AList.mem_lookup_iff.mpr he) trivial
    unfold weight
    rw [hempty]
    exact Nat.zero_le _

/-! ## One call -/

lemma blobKey_of_valid (hid : validatedKey idHex = .ok id) :
    blobKey ns idHex sub = some ⟨ns, id, sub⟩ := by
  unfold blobKey
  rw [hid]
  rfl

lemma blobKey_of_invalid {e : String} (hid : validatedKey idHex = .error e) :
    blobKey ns idHex sub = none := by
  unfold blobKey
  rw [hid]
  rfl

lemma Sound.keep (h : Sound used c) (hkey : key ∉ c.index)
    (hcap : ∀ cap, c.cap = some cap → c.totalBytes + bytes.length ≤ cap) :
    Sound (used ++ [some key]) (c.keep key bytes (c.totalBytes + bytes.length)) where
  consistent := h.consistent.keep hkey
  capped := hcap
  stamps := by
    refine (h.stamps.use key).restrict fun a s hs => ?_
    have hs' : ((c.index.insert key ⟨bytes.length, c.tick + 1⟩).lookup a).map
        BlobEntry.lastUsed = some s := hs
    rw [lookup_insert_eq] at hs'
    by_cases ha : a = key
    · rw [if_pos ha] at hs' ⊢
      exact hs'
    · rw [if_neg ha] at hs' ⊢
      exact hs'

lemma Sound.put (h : Sound used c) (hfits : ¬ c.Overflows (.put ns idHex sub bytes)) :
    ∃ c' victims, c.step (.put ns idHex sub bytes) =
        some ((BlobOp.put ns idHex sub bytes).answer c.backend.read, c') ∧
      Sound (used ++ [blobKey ns idHex sub]) c' ∧
      Effect used c (.put ns idHex sub bytes) victims c' := by
  cases hid : validatedKey idHex with
  | error e =>
    have hkey : blobKey ns idHex sub = none := blobKey_of_invalid hid
    refine ⟨c, [], ?_, ?_, ?_, ?_⟩
    · unfold step BackedCache.put BlobOp.answer
      dsimp only
      rw [hid]
      rfl
    · rw [hkey]
      exact h.pass
    · unfold BlobOp.room
      dsimp only
      rw [hkey]
      rfl
    · intro k
      unfold BlobOp.leaves BlobOp.putUnder BlobOp.removes
      simp [hkey]
  | ok id =>
    have hkey : blobKey ns idHex sub = some ⟨ns, id, sub⟩ := blobKey_of_valid hid
    set key : BlobKey := ⟨ns, id, sub⟩ with hkeydef
    have hremoved : Sound used (c.removeEntry key) := by
      rw [removeEntry_eq_removeAll]
      exact h.removeAll [key]
    have habsent : key ∉ (c.removeEntry key).index := by
      rw [index_removeEntry, AList.mem_erase]
      exact fun hmem => hmem.1 rfl
    have hunder : ∀ k, (BlobOp.put ns idHex sub bytes).putUnder k =
        if k = key then some bytes else none := by
      intro k
      unfold BlobOp.putUnder
      dsimp only
      rw [hkey]
      by_cases hk : k = key
      · rw [if_pos hk, if_pos (by rw [hk])]
      · rw [if_neg hk, if_neg fun heq => hk (Option.some.inj heq).symm]
    by_cases hlarge : c.cap.any (· < bytes.length)
    · refine ⟨c.removeEntry key, [], ?_, ?_, ?_, ?_⟩
      · unfold step BackedCache.put BlobOp.answer
        dsimp only
        rw [hid]
        dsimp only
        rw [← hkeydef, cap_removeEntry, if_pos hlarge]
        rfl
      · rw [hkey]
        exact hremoved.miss habsent
      · unfold BlobOp.room
        dsimp only
        rw [hkey]
        cases hcap : c.cap with
        | none => rfl
        | some cap =>
          rw [hcap] at hlarge
          have hlt : cap < bytes.length := by simpa using hlarge
          dsimp only
          rw [if_neg (by omega)]
          rfl
      · intro k
        unfold BlobOp.leaves
        rw [hunder, h.consistent.read_removeEntry]
        by_cases hk : k = key
        · simp [hk, hlarge, BlobOp.removes]
        · simp [hk, BlobOp.removes]
    · have hrange : (c.removeEntry key).totalBytes + bytes.length < 2 ^ 64 := by
        by_contra hover
        refine hfits ⟨key, hkey, hlarge, ?_⟩
        rw [hremoved.consistent.counts, index_removeEntry] at hover
        omega
      obtain ⟨victims, hroom, hdrained⟩ := hremoved.consistent.makeRoom
        (by rw [cap_removeEntry]; exact hlarge) hrange
      have hrest := hremoved.removeAll victims
      have habsent' : key ∉ ((c.removeEntry key).removeAll victims).index := by
        rw [index_removeAll, mem_eraseAll]
        exact fun hmem => habsent hmem.2
      have hle := @totalBytes_removeAll_le (c.removeEntry key) victims
      let rest := (c.removeEntry key).removeAll victims
      refine ⟨rest.keep key bytes (rest.totalBytes + bytes.length), victims, ?_, ?_, ?_, ?_⟩
      · unfold step BackedCache.put BlobOp.answer addU64
        dsimp only
        rw [hid]
        dsimp only
        rw [← hkeydef, if_neg (by rw [cap_removeEntry]; exact hlarge), hroom, Option.bind_eq_bind,
          Option.bind_some, if_pos (by omega)]
        rfl
      · rw [hkey]
        refine hrest.keep habsent' fun cap hcap => ?_
        rw [cap_removeAll, cap_removeEntry] at hcap
        rw [cap_removeEntry, hcap] at hdrained
        have hfit := weight_le_of_evicts (hremoved.evicts hdrained)
        rw [hrest.consistent.counts, index_removeAll]
        rw [hcap] at hlarge
        have hlength : bytes.length ≤ cap := by simpa using hlarge
        omega
      · unfold BlobOp.room
        dsimp only
        rw [hkey]
        cases hcap : c.cap with
        | none =>
          rw [cap_removeEntry, hcap] at hdrained
          exact hdrained
        | some cap =>
          rw [cap_removeEntry, hcap] at hdrained
          rw [hcap] at hlarge
          have hlength : bytes.length ≤ cap := by simpa using hlarge
          dsimp only
          rw [if_pos hlength]
          have hevicts := hremoved.evicts hdrained
          rw [index_removeEntry] at hevicts
          exact hevicts
      · intro k
        unfold BlobOp.leaves
        rw [hunder]
        show (((c.removeEntry key).removeAll victims).backend.write key bytes).read k = _
        rw [Backend.read_write, hremoved.consistent.read_removeAll,
          h.consistent.read_removeEntry]
        by_cases hk : k = key
        · simp [hk, hlarge, BlobOp.removes]
        · simp [hk, BlobOp.removes]

lemma Sound.get (h : Sound used c) :
    ∃ c', c.step (.get ns idHex sub) =
        some ((BlobOp.get ns idHex sub).answer c.backend.read, c') ∧
      Sound (used ++ [blobKey ns idHex sub]) c' ∧ Effect used c (.get ns idHex sub) [] c' := by
  have hreads : ∀ c' : BackedCache, c'.backend = c.backend →
      Effect used c (.get ns idHex sub) [] c' := by
    intro c' hsame
    refine ⟨rfl, fun k => ?_⟩
    rw [hsame]
    rfl
  cases hid : validatedKey idHex with
  | error e =>
    have hkey : blobKey ns idHex sub = none := blobKey_of_invalid hid
    refine ⟨c, ?_, ?_, hreads c rfl⟩
    · unfold step BackedCache.get BlobOp.answer
      dsimp only
      rw [hid, hkey]
      rfl
    · rw [hkey]
      exact h.pass
  | ok id =>
    have hkey : blobKey ns idHex sub = some ⟨ns, id, sub⟩ := blobKey_of_valid hid
    set key : BlobKey := ⟨ns, id, sub⟩ with hkeydef
    by_cases hmem : key ∈ c.index
    · obtain ⟨e, he⟩ := mem_iff_lookup.mp hmem
      obtain ⟨bytes, hread, -⟩ := h.consistent.read_of_lookup he
      let touched : BackedCache :=
        { c with
          tick := c.tick + 1
          index := adjust key (fun e => { e with lastUsed := c.tick + 1 }) c.index }
      refine ⟨touched, ?_, ?_, hreads touched rfl⟩
      · unfold step BackedCache.get BlobOp.answer
        dsimp only
        rw [hid, hkey]
        dsimp only
        rw [← hkeydef, if_pos hmem, hread, Option.bind_some, hread]
      · rw [hkey]
        have hsizes : ∀ a, ((adjust key (fun e => { e with lastUsed := c.tick + 1 })
            c.index).lookup a).map BlobEntry.sizeBytes =
              (c.index.lookup a).map BlobEntry.sizeBytes := by
          intro a
          rw [lookup_adjust]
          by_cases ha : a = key
          · rw [if_pos ha, ha, Option.map_map]
            rfl
          · rw [if_neg ha]
        refine ⟨⟨?_, ?_, h.consistent.held, ?_⟩, h.capped, ?_⟩
        · refine h.consistent.holds.congr fun k => ?_
          exact mem_adjust.symm
        · intro a
          exact (h.consistent.sizes a).trans (hsizes a).symm
        · exact h.consistent.counts.trans (weight_congr fun a => (hsizes a).symm)
        · refine (h.stamps.use key).restrict fun a s hs => ?_
          have hs' : ((adjust key (fun e => { e with lastUsed := c.tick + 1 })
              c.index).lookup a).map BlobEntry.lastUsed = some s := hs
          rw [lookup_adjust] at hs'
          by_cases ha : a = key
          · rw [if_pos ha] at hs' ⊢
            obtain ⟨e', he', rfl⟩ := Option.map_eq_some_iff.mp hs'
            obtain ⟨e'', -, rfl⟩ := Option.map_eq_some_iff.mp he'
            rfl
          · rw [if_neg ha] at hs' ⊢
            exact hs'
    · refine ⟨c, ?_, ?_, hreads c rfl⟩
      · unfold step BackedCache.get BlobOp.answer
        dsimp only
        rw [hid, hkey]
        dsimp only
        rw [← hkeydef, if_neg hmem, Option.bind_some, h.consistent.read_eq_none hmem]
      · rw [hkey]
        exact h.miss hmem

lemma Sound.setCap (newCap : ℕ) (h : Sound used c) :
    ∃ c' victims, c.step (.setCap newCap) =
        some ((BlobOp.setCap newCap).answer c.backend.read, c') ∧
      Sound (used ++ [none]) c' ∧ Effect used c (.setCap newCap) victims c' := by
  let next : BackedCache := { c with cap := some newCap }
  have hnext : next.Consistent := ⟨h.consistent.holds, h.consistent.sizes, h.consistent.held,
    h.consistent.counts⟩
  have htest : ∀ total ≤ next.totalBytes, (fun total => some (decide (newCap < total))) total =
      some (decide (newCap < total)) := fun _ _ => rfl
  obtain ⟨victims, hevict, hdrains⟩ :=
    hnext.evictWhile (next.index.entries.length + 1) htest (Nat.lt_succ_self _)
  have hevicts := hdrains.leastRecent h.stamps
  have hfit := weight_le_of_evicts hevicts
  have hrest := h.removeAll victims
  refine ⟨next.removeAll victims, victims, ?_, ⟨hnext.removeAll victims, ?_, ?_⟩, ⟨hevicts, ?_⟩⟩
  · have hset : c.setCap newCap = some (next.removeAll victims) := hevict
    unfold step
    dsimp only
    rw [hset]
    rfl
  · intro cap hcap
    rw [cap_removeAll] at hcap
    obtain rfl : newCap = cap := Option.some.inj hcap
    rw [(hnext.removeAll victims).counts, index_removeAll]
    exact hfit
  · have hstamps := hrest.stamps
    rw [index_removeAll, tick_removeAll] at hstamps ⊢
    exact hstamps.pass
  · intro k
    rw [hnext.read_removeAll]
    rfl

lemma Sound.remove (h : Sound used c) (hroom : op.room c = none)
    (hunder : ∀ k, op.putUnder k = none) (hkeys : ∀ k ∈ keys, op.removes k = true)
    (hall : ∀ k ∈ c.index, op.removes k = true → k ∈ keys) :
    Sound (used ++ [none]) (c.removeAll keys) ∧ Effect used c op [] (c.removeAll keys) := by
  refine ⟨(h.removeAll keys).pass, ?_, fun k => ?_⟩
  · rw [hroom]
    rfl
  · unfold BlobOp.leaves
    rw [h.consistent.read_removeAll, hunder]
    by_cases hk : k ∈ keys
    · rw [if_pos hk, if_pos (hkeys k hk)]
    · rw [if_neg hk]
      by_cases hremoves : op.removes k = true
      · rw [if_pos hremoves]
        exact h.consistent.read_eq_none fun hmem => hk (hall k hmem hremoves)
      · rw [if_neg hremoves]
        simp

lemma evict_eq_removeAll :
    c.evict ns idHex sub = c.removeAll (blobKey ns idHex sub).toList := by
  unfold evict blobKey
  cases validatedKey idHex <;> rfl

lemma Consistent.clearAndZeroize (h : c.Consistent) :
    c.clearAndZeroize = c.removeAll c.index.keys := by
  have hempty : (c.removeAll c.index.keys).totalBytes = 0 := by
    have hkeys : ∀ a : BlobKey, ((eraseAll c.index.keys c.index).lookup a).map
        BlobEntry.sizeBytes = none := by
      intro a
      rw [lookup_eraseAll]
      by_cases ha : a ∈ c.index.keys
      · rw [if_pos ha]
        rfl
      · rw [if_neg ha, AList.lookup_eq_none.mpr fun hmem => ha (AList.mem_keys.mp hmem)]
        rfl
    have hweight := @weight_congr BlobKey _ BlobEntry BlobEntry.sizeBytes
      (eraseAll c.index.keys c.index) BlobEntry BlobEntry.sizeBytes ∅ hkeys
    rw [(h.removeAll _).counts, index_removeAll, hweight]
    rfl
  unfold BackedCache.clearAndZeroize
  rw [← hempty]

lemma Sound.step (h : Sound used c) (hfits : ¬ c.Overflows op) :
    ∃ c' victims, c.step op = some (op.answer c.backend.read, c') ∧
      Sound (used ++ [op.used]) c' ∧ Effect used c op victims c' := by
  cases op with
  | put ns idHex sub ciphertext => exact h.put hfits
  | get ns idHex sub =>
    obtain ⟨c', hget⟩ := @Sound.get used c ns idHex sub h
    exact ⟨c', [], hget⟩
  | setCap newCap => exact h.setCap newCap
  | evict ns idHex sub =>
    refine ⟨c.evict ns idHex sub, [], rfl, ?_⟩
    rw [evict_eq_removeAll]
    refine h.remove rfl (fun _ => rfl) (fun k hk => ?_) fun k _ hk => ?_
    · exact decide_eq_true (Option.mem_toList.mp hk)
    · exact Option.mem_toList.mpr (of_decide_eq_true hk)
  | evictPrefix ns idHex =>
    refine ⟨c.evictPrefix ns idHex, [], rfl, ?_⟩
    refine h.remove rfl (fun _ => rfl) (fun k hk => ?_) fun k hmem hk => ?_
    · exact (List.mem_filter.mp hk).2
    · exact List.mem_filter.mpr ⟨AList.mem_keys.mp hmem, hk⟩
  | clearAndZeroize =>
    refine ⟨c.clearAndZeroize, [], rfl, ?_⟩
    rw [h.consistent.clearAndZeroize]
    exact h.remove rfl (fun _ => rfl) (fun _ _ => rfl) fun k hmem _ => AList.mem_keys.mp hmem

lemma Sound.step_overflows (h : Sound used c) (hover : c.Overflows op) : c.step op = none := by
  cases op with
  | put ns idHex sub ciphertext =>
    obtain ⟨key, hkey, hlarge, hsum⟩ := hover
    cases hid : validatedKey idHex with
    | error e =>
      rw [blobKey_of_invalid hid] at hkey
      exact absurd hkey (by simp)
    | ok id =>
      obtain rfl := Option.some.inj ((blobKey_of_valid hid).symm.trans hkey)
      have hremoved := (h.consistent.removeEntry ⟨ns, id, sub⟩).counts
      rw [index_removeEntry] at hremoved
      unfold BackedCache.step BackedCache.put
      dsimp only
      rw [hid]
      dsimp only
      rw [if_neg (by rw [cap_removeEntry]; exact hlarge), cap_removeEntry]
      cases hcap : c.cap with
      | none =>
        have hroom : evictWhile (exceeds none ciphertext.length)
            ((c.removeEntry ⟨ns, id, sub⟩).index.entries.length + 1)
            (c.removeEntry ⟨ns, id, sub⟩) = some (c.removeEntry ⟨ns, id, sub⟩) := rfl
        unfold addU64
        rw [hroom, Option.bind_eq_bind, Option.bind_some, if_neg (by omega)]
        rfl
      | some cap =>
        rw [evictWhile_overflow (by omega)]
        rfl
  | _ => exact hover.elim

lemma Sound.of_step (h : Sound used c) (hstep : c.step op = some (answer, c')) :
    ¬ c.Overflows op ∧ answer = op.answer c.backend.read ∧ Sound (used ++ [op.used]) c' ∧
      ∃ victims, Effect used c op victims c' := by
  have hfits : ¬ c.Overflows op := by
    intro hover
    rw [h.step_overflows hover] at hstep
    exact absurd hstep (by simp)
  obtain ⟨d, victims, hanswered, hsound, heffect⟩ := h.step hfits
  rw [hanswered] at hstep
  obtain ⟨hanswer, hnext⟩ := Prod.mk.inj (Option.some.inj hstep)
  rw [← hnext]
  exact ⟨hfits, hanswer.symm, hsound, victims, heffect⟩

/-! ## Runs -/

variable {ops : List BlobOp} {answers : List BlobAnswer} {start : BackedCache}

lemma run_append_singleton :
    start.run (ops ++ [op]) = (start.run ops).bind fun x =>
      (x.2.step op).map fun y => (x.1 ++ [y.1], y.2) := by
  unfold run
  rw [List.foldlM_append, Option.bind_eq_bind]
  congr 1
  funext x
  obtain ⟨before, c⟩ := x
  rw [List.foldlM_cons, Option.bind_eq_bind]
  dsimp only
  cases c.step op <;> rfl

lemma run_append_singleton_eq_some (hrun : start.run (ops ++ [op]) = some (answers, c')) :
    ∃ before c answer, start.run ops = some (before, c) ∧ c.step op = some (answer, c') := by
  rw [run_append_singleton] at hrun
  obtain ⟨x, hbefore, hlast⟩ := Option.bind_eq_some_iff.mp hrun
  obtain ⟨y, hstep, heq⟩ := Option.map_eq_some_iff.mp hlast
  obtain ⟨-, hnext⟩ := Prod.mk.inj heq
  refine ⟨x.1, x.2, y.1, hbefore, ?_⟩
  rw [hstep, ← hnext]

lemma sound_of_run (hstart : Sound [] start) (hrun : start.run ops = some (answers, c)) :
    Sound (ops.map BlobOp.used) c := by
  induction ops using List.reverseRecOn generalizing answers c with
  | nil =>
    obtain ⟨-, rfl⟩ := Prod.mk.inj (Option.some.inj hrun)
    exact hstart
  | append_singleton ops op ih =>
    obtain ⟨before, c, answer, hbefore, hstep⟩ := run_append_singleton_eq_some hrun
    rw [List.map_append]
    exact ((ih hbefore).of_step hstep).2.2.1

/-! ## What was put last -/

/-- The calls neither put anything under the key nor remove it by name. -/
def Untouched (key : BlobKey) (ops : List BlobOp) : Prop :=
  ∀ op ∈ ops, op.putUnder key = none ∧ op.removes key = false

/-- The blob of a key went for room in the last call. -/
def WentForRoom (start : BackedCache) (done : List BlobOp) (op : BlobOp) (key : BlobKey) : Prop :=
  ∃ before c after c' victims, start.run done = some (before, c) ∧
    start.run (done ++ [op]) = some (after, c') ∧
    Effect (done.map BlobOp.used) c op victims c' ∧ key ∈ c.index ∧ key ∈ victims

lemma put_of_read (hstart : Sound [] start) (hrun : start.run ops = some (answers, c))
    (hempty : start.backend.read key = none) (hread : c.backend.read key = some bytes) :
    ∃ before op after, ops = before ++ op :: after ∧ op.putUnder key = some bytes ∧
      Untouched key after := by
  induction ops using List.reverseRecOn generalizing answers c with
  | nil =>
    obtain ⟨-, rfl⟩ := Prod.mk.inj (Option.some.inj hrun)
    rw [hempty] at hread
    exact absurd hread (by simp)
  | append_singleton ops op ih =>
    obtain ⟨before, d, answer, hbefore, hstep⟩ := run_append_singleton_eq_some hrun
    obtain ⟨-, -, -, victims, heffect⟩ := (sound_of_run hstart hbefore).of_step hstep
    rw [heffect.reads] at hread
    unfold BlobOp.leaves at hread
    by_cases hremoves : op.removes key = true
    · rw [if_pos hremoves] at hread
      exact absurd hread (by simp)
    · rw [if_neg hremoves] at hread
      cases hunder : op.putUnder key with
      | some bytes' =>
        rw [hunder] at hread
        dsimp only at hread
        by_cases hlarge : d.cap.any (· < bytes'.length) = true
        · rw [if_pos hlarge] at hread
          exact absurd hread (by simp)
        · rw [if_neg hlarge] at hread
          obtain rfl := Option.some.inj hread
          exact ⟨ops, op, [], rfl, hunder, fun _ hmem => absurd hmem List.not_mem_nil⟩
      | none =>
        rw [hunder] at hread
        dsimp only at hread
        by_cases hvictim : key ∈ victims
        · rw [if_pos hvictim] at hread
          exact absurd hread (by simp)
        · rw [if_neg hvictim] at hread
          obtain ⟨first, put, after, rfl, hput, huntouched⟩ := ih hbefore hread
          refine ⟨first, put, after ++ [op], by simp, hput, fun x hx => ?_⟩
          obtain hx | hx := List.mem_append.mp hx
          · exact huntouched x hx
          · rw [List.mem_singleton.mp hx]
            exact ⟨hunder, Bool.eq_false_iff.mpr hremoves⟩

lemma read_of_put {before after : List BlobOp} (hstart : Sound [] start)
    (hrun : start.run (before ++ op :: after) = some (answers, c))
    (hput : op.putUnder key = some bytes) (huntouched : Untouched key after) :
    c.backend.read key = some bytes ∨
      (∃ first d, start.run before = some (first, d) ∧ d.cap.any (· < bytes.length)) ∨
      ∃ mid last rest, after = mid ++ last :: rest ∧
        WentForRoom start (before ++ op :: mid) last key := by
  induction after using List.reverseRecOn generalizing answers c with
  | nil =>
    obtain ⟨first, d, answer, hbefore, hstep⟩ := run_append_singleton_eq_some hrun
    obtain ⟨-, -, -, victims, heffect⟩ := (sound_of_run hstart hbefore).of_step hstep
    by_cases hlarge : d.cap.any (· < bytes.length) = true
    · exact .inr (.inl ⟨first, d, hbefore, hlarge⟩)
    · left
      have hkept : op.removes key = false := by
        cases op with
        | put ns idHex sub ciphertext => rfl
        | _ => exact absurd hput (by simp [BlobOp.putUnder])
      rw [heffect.reads]
      unfold BlobOp.leaves
      rw [hkept, hput, if_neg (by simp)]
      dsimp only
      rw [if_neg hlarge]
  | append_singleton after last ih =>
    rw [← List.cons_append, ← List.append_assoc] at hrun
    obtain ⟨first, d, answer, hbefore, hstep⟩ := run_append_singleton_eq_some hrun
    have hsound := sound_of_run hstart hbefore
    obtain ⟨-, -, -, victims, heffect⟩ := hsound.of_step hstep
    obtain hread | hlarge | hroom :=
      ih hbefore fun x hx => huntouched x (List.mem_append_left _ hx)
    · obtain ⟨hunder, hremoves⟩ := huntouched last (by simp)
      by_cases hvictim : key ∈ victims
      · right; right
        have hindexed : key ∈ d.index := by
          rw [← hsound.consistent.holds.isSome_read, hread]
          rfl
        exact ⟨after, last, [], rfl, first, d, answers, c, victims, hbefore, hrun, heffect,
          hindexed, hvictim⟩
      · left
        rw [heffect.reads]
        unfold BlobOp.leaves
        rw [hremoves, hunder, if_neg (by simp)]
        dsimp only
        rw [if_neg hvictim, hread]
    · exact .inr (.inl hlarge)
    · obtain ⟨mid, x, rest, rfl, hwent⟩ := hroom
      exact .inr (.inr ⟨mid, x, rest ++ [last], by simp, hwent⟩)

/-! ## The same cache in files and in memory -/

/-- Two caches that differ in their backends only, and these hold the same. -/
structure Alike (c d : BackedCache) : Prop where
  cap : c.cap = d.cap
  totalBytes : c.totalBytes = d.totalBytes
  tick : c.tick = d.tick
  index : c.index = d.index
  reads : ∀ key, c.backend.read key = d.backend.read key

lemma Alike.removeEntry (h : c.Alike d) (key : BlobKey) :
    (c.removeEntry key).Alike (d.removeEntry key) := by
  unfold BackedCache.removeEntry
  rw [← h.index]
  cases c.index.lookup key with
  | none => exact h
  | some e =>
    refine ⟨h.cap, ?_, h.tick, rfl, fun other => ?_⟩
    · show c.totalBytes - e.sizeBytes = d.totalBytes - e.sizeBytes
      rw [h.totalBytes]
    · show (c.backend.remove key).read other = (d.backend.remove key).read other
      rw [Backend.read_remove, Backend.read_remove, h.reads]

lemma Alike.removeAll (h : c.Alike d) (keys : List BlobKey) :
    (c.removeAll keys).Alike (d.removeAll keys) := by
  induction keys generalizing c d with
  | nil => exact h
  | cons k keys ih => exact ih (h.removeEntry k)

lemma Alike.keep {total : ℕ} (h : c.Alike d) :
    (c.keep key bytes total).Alike (d.keep key bytes total) := by
  refine ⟨h.cap, rfl, ?_, ?_, fun other => ?_⟩
  · show c.tick + 1 = d.tick + 1
    rw [h.tick]
  · show c.index.insert key ⟨bytes.length, c.tick + 1⟩ = d.index.insert key ⟨bytes.length, d.tick + 1⟩
    rw [h.index, h.tick]
  · show (c.backend.write key bytes).read other = (d.backend.write key bytes).read other
    rw [Backend.read_write, Backend.read_write, h.reads]

lemma Alike.evictWhile {tooMany : ℕ → Option Bool} (rounds : ℕ) (h : c.Alike d) :
    Option.Rel Alike (BackedCache.evictWhile tooMany rounds c)
      (BackedCache.evictWhile tooMany rounds d) := by
  induction rounds generalizing c d with
  | zero => exact .some h
  | succ rounds ih =>
    unfold BackedCache.evictWhile evictOne
    rw [← h.totalBytes, ← h.index]
    cases tooMany c.totalBytes with
    | none => exact .none
    | some go =>
      cases go with
      | false => exact .some h
      | true =>
        cases c.index.entries.argmin fun e => e.2.lastUsed with
        | none => exact .some h
        | some victim => exact ih (h.removeEntry victim.1)

/-- The same answer, and caches that are alike. -/
def SameAnswer {α : Type} (x y : α × BackedCache) : Prop := x.1 = y.1 ∧ x.2.Alike y.2

lemma Alike.put (h : c.Alike d) :
    Option.Rel SameAnswer (c.put ns idHex sub bytes) (d.put ns idHex sub bytes) := by
  unfold BackedCache.put
  cases validatedKey idHex with
  | error e => exact .some ⟨rfl, h⟩
  | ok id =>
    have hremoved := h.removeEntry ⟨ns, id, sub⟩
    dsimp only
    rw [← hremoved.cap, ← hremoved.index]
    generalize c.removeEntry ⟨ns, id, sub⟩ = c at hremoved ⊢
    generalize d.removeEntry ⟨ns, id, sub⟩ = d at hremoved ⊢
    by_cases hlarge : c.cap.any (· < bytes.length) = true
    · rw [if_pos hlarge, if_pos hlarge]
      exact .some ⟨rfl, hremoved⟩
    · rw [if_neg hlarge, if_neg hlarge]
      have hloop := @Alike.evictWhile c d (exceeds c.cap bytes.length)
        (c.index.entries.length + 1) hremoved
      generalize BackedCache.evictWhile (exceeds c.cap bytes.length) (c.index.entries.length + 1) c =
        x at hloop ⊢
      generalize BackedCache.evictWhile (exceeds c.cap bytes.length) (c.index.entries.length + 1) d =
        y at hloop ⊢
      cases hloop with
      | none => exact .none
      | some hrest =>
        rw [Option.bind_eq_bind, Option.bind_some, Option.bind_eq_bind, Option.bind_some,
          ← hrest.totalBytes]
        cases addU64 _ bytes.length with
        | none => exact .none
        | some total => exact .some ⟨rfl, hrest.keep⟩

lemma Alike.get (h : c.Alike d) (hc : c.Consistent) :
    SameAnswer (c.get ns idHex sub) (d.get ns idHex sub) := by
  unfold BackedCache.get
  cases validatedKey idHex with
  | error e => exact ⟨rfl, h⟩
  | ok id =>
    dsimp only
    rw [← h.index]
    by_cases hmem : (⟨ns, id, sub⟩ : BlobKey) ∈ c.index
    · obtain ⟨e, he⟩ := mem_iff_lookup.mp hmem
      obtain ⟨bytes, hread, -⟩ := hc.read_of_lookup he
      rw [if_pos hmem, if_pos hmem, ← h.reads, hread]
      refine ⟨rfl, h.cap, h.totalBytes, ?_, ?_, h.reads⟩
      · show c.tick + 1 = d.tick + 1
        rw [h.tick]
      · show adjust _ _ _ = adjust _ _ _
        rw [h.tick]
    · rw [if_neg hmem, if_neg hmem]
      exact ⟨rfl, h⟩

lemma Alike.step (h : c.Alike d) (hc : c.Consistent) (op : BlobOp) :
    Option.Rel SameAnswer (c.step op) (d.step op) := by
  cases op with
  | put ns idHex sub ciphertext =>
    have hput := @Alike.put c d ns idHex sub ciphertext h
    unfold BackedCache.step
    dsimp only
    generalize c.put ns idHex sub ciphertext = x at hput ⊢
    generalize d.put ns idHex sub ciphertext = y at hput ⊢
    cases hput with
    | none => exact .none
    | some hsame => exact .some ⟨congrArg BlobAnswer.put hsame.1, hsame.2⟩
  | get ns idHex sub =>
    have hget := @Alike.get c d ns idHex sub h hc
    exact .some ⟨congrArg BlobAnswer.get hget.1, hget.2⟩
  | setCap newCap =>
    have hcapped : Alike { c with cap := some newCap } { d with cap := some newCap } :=
      ⟨rfl, h.totalBytes, h.tick, h.index, h.reads⟩
    have hloop := @Alike.evictWhile _ _ (fun total => some (newCap < total))
      (c.index.entries.length + 1) hcapped
    unfold BackedCache.step BackedCache.setCap
    dsimp only
    rw [← h.index]
    rw [← h.index] at hloop
    generalize BackedCache.evictWhile _ _ _ = x at hloop ⊢
    generalize BackedCache.evictWhile _ _ _ = y at hloop ⊢
    cases hloop with
    | none => exact .none
    | some hrest => exact .some ⟨rfl, hrest⟩
  | evict ns idHex sub =>
    refine .some ⟨rfl, ?_⟩
    rw [evict_eq_removeAll, evict_eq_removeAll]
    exact h.removeAll _
  | evictPrefix ns idHex =>
    refine .some ⟨rfl, ?_⟩
    unfold BackedCache.evictPrefix
    rw [← h.index]
    exact h.removeAll _
  | clearAndZeroize =>
    refine .some ⟨rfl, ?_⟩
    unfold BackedCache.clearAndZeroize
    rw [← h.index]
    have hrest := h.removeAll c.index.keys
    exact ⟨hrest.cap, rfl, hrest.tick, hrest.index, hrest.reads⟩

lemma Alike.run (h : c.Alike d) (hc : Sound [] c) (ops : List BlobOp) :
    Option.Rel SameAnswer (c.run ops) (d.run ops) := by
  induction ops using List.reverseRecOn with
  | nil => exact .some ⟨rfl, h⟩
  | append_singleton ops op ih =>
    rw [run_append_singleton, run_append_singleton]
    have hsound := fun answers c' hrun => @sound_of_run c' ops answers c hc hrun
    generalize c.run ops = x at ih hsound ⊢
    generalize d.run ops = y at ih ⊢
    cases ih with
    | none => exact .none
    | @some x y hsame =>
      have hstep := hsame.2.step (hsound x.1 x.2 rfl).consistent op
      rw [Option.bind_some, Option.bind_some, hsame.1]
      generalize x.2.step op = u at hstep ⊢
      generalize y.2.step op = v at hstep ⊢
      cases hstep with
      | none => exact .none
      | some hnext =>
        refine .some ⟨?_, hnext.2⟩
        dsimp only
        rw [hnext.1]

lemma alike_open (cap : Option ℕ) : (openDisk cap).Alike (openMemory cap) :=
  ⟨rfl, rfl, rfl, rfl, fun _ => rfl⟩

/-- What can be seen of a run: the answers, the total and the index. -/
def seen (x : List BlobAnswer × BackedCache) :
    List BlobAnswer × ℕ × AList fun _ : BlobKey => BlobEntry :=
  (x.1, x.2.totalBytes, x.2.index)

lemma seen_eq_of_rel {x y : Option (List BlobAnswer × BackedCache)}
    (h : Option.Rel SameAnswer x y) : x.map seen = y.map seen := by
  cases h with
  | none => rfl
  | @some x y hsame =>
    show some (x.1, x.2.totalBytes, x.2.index) = some (y.1, y.2.totalBytes, y.2.index)
    rw [hsame.1, hsame.2.totalBytes, hsame.2.index]

end BackedCache

open BackedCache

/-- **The blob cache.**  After any calls, with files or in memory, the backend holds exactly the
indexed blobs, and the total is the sum of their sizes and within the cap.

A further call ends in a panic if a sum leaves the range of a machine word.  Otherwise it answers from
what can be read, and evicts the least recently used blobs, as few as make enough room.  What can be
read under a key was put there last and not removed since.  Conversely, what was put there last and not
removed since can be read, unless it was larger than the cap or went for room.

Files and memory give the same answers, totals and indexes. -/
theorem blobCache_exact (cap : Option ℕ) (ops : List BlobOp) :
    (∀ start, start = openDisk cap ∨ start = openMemory cap → ∀ answers c,
      start.run ops = some (answers, c) →
      c.backend.Holds (· ∈ c.index) ∧
      c.backend.bytesHeld = c.totalBytes ∧
      (∀ key, (c.backend.read key).map List.length =
        (c.index.lookup key).map BlobEntry.sizeBytes) ∧
      (∀ cap', c.cap = some cap' → c.totalBytes ≤ cap') ∧
      (∀ op, c.Overflows op ∧ c.step op = none ∨
        ∃ c' victims, c.step op = some (op.answer c.backend.read, c') ∧
          Effect (ops.map BlobOp.used) c op victims c') ∧
      ∀ key bytes,
        (c.backend.read key = some bytes → ∃ before op after, ops = before ++ op :: after ∧
          op.putUnder key = some bytes ∧ Untouched key after) ∧
        ∀ before op after, ops = before ++ op :: after → op.putUnder key = some bytes →
          Untouched key after →
          c.backend.read key = some bytes ∨
          (∃ first d, start.run before = some (first, d) ∧ d.cap.any (· < bytes.length)) ∨
          ∃ mid last rest, after = mid ++ last :: rest ∧
            WentForRoom start (before ++ op :: mid) last key) ∧
    ((openDisk cap).run ops).map seen = ((openMemory cap).run ops).map seen := by
  constructor
  · intro start hopen answers c hrun
    have hstart : Sound [] start ∧ ∀ key, start.backend.read key = none := by
      obtain rfl | rfl := hopen
      · exact ⟨sound_openDisk cap, fun _ => rfl⟩
      · exact ⟨sound_openMemory cap, fun _ => rfl⟩
    obtain ⟨hopened, hempty⟩ := hstart
    have hsound := sound_of_run hopened hrun
    refine ⟨hsound.consistent.holds, hsound.consistent.held, hsound.consistent.sizes,
      hsound.capped, fun op => ?_, fun key bytes => ⟨fun hread => ?_, ?_⟩⟩
    · by_cases hover : c.Overflows op
      · exact .inl ⟨hover, hsound.step_overflows hover⟩
      · obtain ⟨c', victims, hstep, -, heffect⟩ := hsound.step hover
        exact .inr ⟨c', victims, hstep, heffect⟩
    · exact put_of_read hopened hrun (hempty key) hread
    · rintro before op after rfl hput huntouched
      exact read_of_put hopened hrun hput huntouched
  · exact seen_eq_of_rel ((alike_open cap).run (sound_openDisk cap) ops)

/-- Two blobs that do not fit together into four bytes. -/
def twoPuts : List BlobOp :=
  [.put .frag ['A', 'a'] 0 [1, 2, 3], .put .content ['b', 'B'] 7 [4, 5]]

/-- The second one is held. -/
theorem blobCache_exact_twoPuts :
    ∃ answers c, (openDisk (some 4)).run twoPuts = some (answers, c) ∧
      c.totalBytes = 2 ∧ c.backend.bytesHeld = 2 ∧
      c.backend.read ⟨.content, ['b', 'b'], 7⟩ = some [4, 5] ∧
      ∃ before op after, twoPuts = before ++ op :: after ∧
        op.putUnder ⟨.content, ['b', 'b'], 7⟩ = some [4, 5] := by
  have hrun : ((openDisk (some 4)).run twoPuts).map (fun x => (x.2.totalBytes,
      x.2.backend.read ⟨.content, ['b', 'b'], 7⟩)) = some (2, some [4, 5]) := by decide +kernel
  obtain ⟨⟨answers, c⟩, hrun, hvalues⟩ := Option.map_eq_some_iff.mp hrun
  obtain ⟨htotal, hread⟩ := Prod.mk.inj hvalues
  obtain ⟨-, hheld, -, -, -, hkeys⟩ :=
    (blobCache_exact (some 4) twoPuts).1 _ (.inl rfl) answers c hrun
  obtain ⟨before, op, after, hsplit, hput, -⟩ := (hkeys _ _).1 hread
  exact ⟨answers, c, hrun, htotal, hheld.trans htotal, hread, before, op, after, hsplit, hput⟩

end MaxSecu
