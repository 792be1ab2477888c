import MaxSecu.Server.EnrollOnce

/-!
# Names and accounts

A registration puts the normalized username into the binding it signs, but the store keeps the user
under the username as it was sent.  So two spellings of one name are two accounts with one name in
their bindings, and the binding of a user whose spelling is not the normal one is not found under the
name in it.

Over a run of registrations, every binding is found under its name and no two have one name exactly
when every registered username was in normal form (`register_oneName`).
-/

namespace MaxSecu

open ExceptRules GuardedUpdate AssociationList

/-- The username and the id of a registration that succeeded. -/
def DirectoryRequest.registered : DirectoryRequest × DirectoryResponse → Option (String × Id)
  | (.register req _ _ _, .registered (.ok id)) => some (req.username, id)
  | _ => none

/-- The request does not publish a binding. -/
def DirectoryRequest.Enrolls : DirectoryRequest → Prop
  | .publish _ _ => False
  | _ => True

namespace UsernameIdentity

open DirectoryRequest

/-- Different registrations drew different ids. -/
def FreshIds (path : DirectoryPath MemoryDirectory) : Prop :=
  path.Pairwise fun x y => ∀ r ∈ registered x.2, ∀ r' ∈ registered y.2, r.2 ≠ r'.2

section

variable [UnicodeNormalization]

/-- Every binding is found under the name in it, and the names in two bindings are different. -/
structure OneName (s : MemoryDirectory) : Prop where
  distinct : ∀ id id' row row' b b', s.bindings.lookup id = some row →
    s.bindings.lookup id' = some row' → decode DirBinding row.2.bindingBytes = .ok b →
    decode DirBinding row'.2.bindingBytes = .ok b' → id ≠ id' → b.username ≠ b'.username
  found : ∀ id row b, s.bindings.lookup id = some row →
    decode DirBinding row.2.bindingBytes = .ok b →
    s.bindingByUsername b.username.str = some row.2

/-- The users are the registered ones, and each has its binding, with the normalized name. -/
structure Enrolled (path : DirectoryPath MemoryDirectory) (s : MemoryDirectory) : Prop where
  users : ∀ name, ∀ u ∈ s.users.lookup name,
    (∃ x ∈ path, registered x.2 = some (name, u.userId)) ∧
    ∃ row b, s.bindings.lookup u.userId = some row ∧
      decode DirBinding row.2.bindingBytes = .ok b ∧ b.userId = u.userId ∧
      b.username.str = UnicodeNormalization.nfc name
  names : ∀ x ∈ path, ∀ name id, registered x.2 = some (name, id) →
    ∃ u ∈ s.users.lookup name, u.userId = id
  bindings : ∀ id, ∀ row ∈ s.bindings.lookup id, ∃ name, ∃ u ∈ s.users.lookup name, u.userId = id
  apart : ∀ name name' u u', s.users.lookup name = some u → s.users.lookup name' = some u' →
    u.userId = u'.userId → name = name'

lemma decode_signBinding [Ed25519] (signer : SigningKey) (b : DirBinding) :
    decode DirBinding (signBinding signer b).bindingBytes = .ok b :=
  decode_encode trivial

variable [Ed25519] [Sha256] {cfg : DirectoryConfig} {s t : MemoryDirectory}
  {path : DirectoryPath MemoryDirectory} {x : DirectoryRequest × DirectoryResponse}

lemma runs_cases (hruns : Runs cfg MemoryDirectory.store s x t) (henrolls : x.1.Enrolls) :
    (registered x = none ∧ t.users = s.users ∧ t.bindings = s.bindings) ∨
      ∃ name u row b, registered x = some (name, u.userId) ∧ name ∉ s.users ∧
        decode DirBinding row.2.bindingBytes = .ok b ∧ b.userId = u.userId ∧
        b.username.str = UnicodeNormalization.nfc name ∧ t.users = s.users.insert name u ∧
        t.bindings = s.bindings.insert u.userId row := by
  obtain ⟨request, response⟩ := x
  cases request with
  | publish binding signature => exact absurd henrolls id
  | issueKey keyHash expiresAtMs =>
    obtain ⟨_, rfl, hissue⟩ := runs_issueKey hruns
    obtain ⟨-, rfl⟩ := Prod.mk.inj hissue
    exact .inl ⟨rfl, rfl, rfl⟩
  | register req userId nowMs dbNowMs =>
    obtain ⟨delegation, r, rfl, hregister⟩ := runs_register hruns
    cases r with
    | error e =>
      obtain rfl := atomic_register MemoryDirectory.atomic_enroll s e t hregister
      exact .inl ⟨rfl, rfl, rfl⟩
    | ok id =>
      obtain ⟨rfl, encPub, sigPub, username, signer, mlkemPub, isAdmin, _, _, hname, henroll⟩ :=
        register_ok hregister
      obtain ⟨_, hfree, _, rfl⟩ := MemoryDirectory.enroll_ok dbNowMs henroll
      have hstr : username.str = UnicodeNormalization.nfc req.username := by
        unfold Text.new at hname
        split at hname
        · exact absurd hname (by simp)
        · exact (congrArg Text.str (Except.ok.inj hname)).symm
      refine .inr ⟨req.username, ⟨id, encPub, sigPub⟩, _, enrollmentBinding username id encPub
        sigPub mlkemPub (.new (if isAdmin then [.user, .admin] else [.user])), rfl, hfree, ?_, rfl,
        hstr, rfl, rfl⟩
      cases isAdmin with
      | false => exact decode_signBinding _ _
      | true => exact decode_signBinding _ _

lemma Enrolled.next (h : Enrolled path s) (hruns : Runs cfg MemoryDirectory.store s x t)
    (henrolls : x.1.Enrolls) (hfresh : FreshIds (path ++ [(s, x)])) :
    Enrolled (path ++ [(s, x)]) t := by
  have hold : ∀ {name u}, u ∈ s.users.lookup name →
      ∃ y ∈ path ++ [(s, x)], registered y.2 = some (name, u.userId) := by
    intro name u hu
    obtain ⟨⟨y, hy, hregistered⟩, _⟩ := h.users name u hu
    exact ⟨y, List.mem_append_left _ hy, hregistered⟩
  obtain ⟨hnone, husers, hbindings⟩ | ⟨name, u, row, b, hsome, hfree, hdecode, hid, hstr, husers,
    hbindings⟩ := runs_cases hruns henrolls
  · refine ⟨?_, ?_, ?_, ?_⟩
    · intro name u hu
      rw [husers] at hu
      rw [hbindings]
      exact ⟨hold hu, (h.users name u hu).2⟩
    · intro y hy name id hregistered
      rw [husers]
      obtain hy | hy := List.mem_append.mp hy
      · exact h.names y hy name id hregistered
      · obtain rfl := List.mem_singleton.mp hy
        exact absurd (hnone.symm.trans hregistered) (by simp)
    · rw [husers, hbindings]
      exact h.bindings
    · rw [husers]
      exact h.apart
  · -- the drawn id is nobody's
    have hother : ∀ name' u', u' ∈ s.users.lookup name' → u'.userId ≠ u.userId := by
      intro name' u' hu'
      obtain ⟨⟨y, hy, hregistered⟩, _⟩ := h.users name' u' hu'
      exact (List.pairwise_append.mp hfresh).2.2 y hy (s, x) (by simp) _ hregistered _ hsome
    have hlookup : ∀ name' u', u' ∈ t.users.lookup name' →
        (name' = name ∧ u' = u) ∨ (name' ≠ name ∧ u' ∈ s.users.lookup name') := by
      intro name' u' hu'
      rw [husers] at hu'
      exact (lookup_insert_cases hu').imp_left fun ⟨hname, hsame⟩ => ⟨hname, hsame.symm⟩
    have hkept : ∀ name' u', u' ∈ s.users.lookup name' → u' ∈ t.users.lookup name' := by
      intro name' u' hu'
      have hname : name' ≠ name := by
        intro hname
        rw [hname] at hu'
        exact hfree (mem_iff_lookup.mpr ⟨u', hu'⟩)
      rw [husers, lookup_insert_eq, if_neg hname]
      exact hu'
    have hnew : u ∈ t.users.lookup name := by
      rw [husers, lookup_insert_eq, if_pos rfl]
      rfl
    refine ⟨?_, ?_, ?_, ?_⟩
    · intro name' u' hu'
      obtain ⟨rfl, rfl⟩ | ⟨_, hu'⟩ := hlookup name' u' hu'
      · refine ⟨⟨(s, x), by simp, hsome⟩, row, b, ?_, hdecode, hid, hstr⟩
        rw [hbindings, lookup_insert_eq, if_pos rfl]
      · refine ⟨hold hu', ?_⟩
        rw [hbindings, lookup_insert_eq, if_neg (hother name' u' hu')]
        exact (h.users name' u' hu').2
    · intro y hy name' id hregistered
      obtain hy | hy := List.mem_append.mp hy
      · obtain ⟨u', hu', hid'⟩ := h.names y hy name' id hregistered
        exact ⟨u', hkept name' u' hu', hid'⟩
      · obtain rfl := List.mem_singleton.mp hy
        obtain ⟨rfl, rfl⟩ := Prod.mk.inj (Option.some.inj (hsome.symm.trans hregistered))
        exact ⟨u, hnew, rfl⟩
    · intro id row' hrow'
      rw [hbindings, lookup_insert_eq] at hrow'
      by_cases hid' : id = u.userId
      · exact ⟨name, u, hnew, hid'.symm⟩
      · rw [if_neg hid'] at hrow'
        obtain ⟨name', u', hu', hid''⟩ := h.bindings id row' hrow'
        exact ⟨name', u', hkept name' u' hu', hid''⟩
    · intro name₁ name₂ u₁ u₂ hu₁ hu₂ hids
      obtain ⟨rfl, rfl⟩ | ⟨_, hu₁⟩ := hlookup name₁ u₁ hu₁
      · obtain ⟨rfl, -⟩ | ⟨_, hu₂⟩ := hlookup name₂ u₂ hu₂
        · rfl
        · exact absurd hids.symm (hother name₂ u₂ hu₂)
      · obtain ⟨rfl, rfl⟩ | ⟨_, hu₂⟩ := hlookup name₂ u₂ hu₂
        · exact absurd hids (hother name₁ u₁ hu₁)
        · exact h.apart name₁ name₂ u₁ u₂ hu₁ hu₂ hids

theorem enrolled_run (husers : s.users = ∅) (hbindings : s.bindings = ∅)
    (hrun : LabelledRun (Runs cfg MemoryDirectory.store) s path t)
    (henrolls : ∀ x ∈ path, x.2.1.Enrolls) (hfresh : FreshIds path) : Enrolled path t := by
  induction hrun with
  | start => exact ⟨by simp [husers], by simp, by simp [hbindings], by simp [husers]⟩
  | @step path t u x hrun hnext ih =>
    have hbefore := ih (fun y hy => henrolls y (List.mem_append_left _ hy))
      (List.pairwise_append.mp hfresh).1
    exact hbefore.next hnext (henrolls (t, x) (by simp)) hfresh

omit [Ed25519] [Sha256] in
lemma Enrolled.oneName (h : Enrolled path s)
    (hnfc : ∀ x ∈ path, ∀ r ∈ registered x.2, UnicodeNormalization.nfc r.1 = r.1) : OneName s := by
  have howner : ∀ id row b, s.bindings.lookup id = some row →
      decode DirBinding row.2.bindingBytes = .ok b →
      ∃ u, s.users.lookup b.username.str = some u ∧ u.userId = id := by
    intro id row b hrow hb
    obtain ⟨name, u, hu, rfl⟩ := h.bindings id row hrow
    obtain ⟨⟨x, hx, hregistered⟩, row', b', hrow', hb', _, hstr⟩ := h.users name u hu
    obtain rfl := Option.some.inj (hrow.symm.trans hrow')
    obtain rfl := Except.ok.inj (hb.symm.trans hb')
    rw [hstr, hnfc x hx _ hregistered]
    exact ⟨u, hu, rfl⟩
  constructor
  · intro id id' row row' b b' hrow hrow' hb hb' hne hname
    obtain ⟨u, hu, rfl⟩ := howner id row b hrow hb
    obtain ⟨u', hu', rfl⟩ := howner id' row' b' hrow' hb'
    rw [hname, hu'] at hu
    exact hne (congrArg UserRecord.userId (Option.some.inj hu)).symm
  · intro id row b hrow hb
    obtain ⟨u, hu, rfl⟩ := howner id row b hrow hb
    unfold MemoryDirectory.bindingByUsername MemoryDirectory.bindingByUserId
    rw [hu, Option.bind_some, hrow]
    rfl

omit [Ed25519] [Sha256] in
/-- A registered username that is not in normal form is not the name its binding is found under. -/
lemma Enrolled.nfc (h : Enrolled path s) (hone : OneName s) {x} (hx : x ∈ path) {name : String}
    {id : Id} (hregistered : registered x.2 = some (name, id)) :
    UnicodeNormalization.nfc name = name := by
  obtain ⟨u, hu, rfl⟩ := h.names x hx name id hregistered
  obtain ⟨_, row, b, hrow, hb, hid, hstr⟩ := h.users name u hu
  have hfound := hone.found u.userId row b hrow hb
  unfold MemoryDirectory.bindingByUsername MemoryDirectory.bindingByUserId at hfound
  obtain ⟨u', hu', hfound⟩ := Option.bind_eq_some_iff.mp hfound
  obtain ⟨row', hrow', hsame⟩ := Option.map_eq_some_iff.mp hfound
  obtain ⟨_, row'', b', hrow'', hb', hid', _⟩ := h.users _ u' hu'
  obtain rfl := Option.some.inj (hrow'.symm.trans hrow'')
  rw [hsame] at hb'
  obtain rfl := Except.ok.inj (hb.symm.trans hb')
  rw [hstr] at hu'
  exact h.apart _ _ u' u hu' hu (hid'.symm.trans hid)

/-- **One name, one account.**  After a run of registrations into an empty directory, every binding
is found under the name in it and no two have one name, exactly when every registered username was in
normal form. -/
theorem register_oneName (husers : s.users = ∅) (hbindings : s.bindings = ∅)
    (hrun : LabelledRun (Runs cfg MemoryDirectory.store) s path t)
    (henrolls : ∀ x ∈ path, x.2.1.Enrolls) (hfresh : FreshIds path) :
    OneName t ↔ ∀ x ∈ path, ∀ r ∈ registered x.2, UnicodeNormalization.nfc r.1 = r.1 := by
  have henrolled := enrolled_run husers hbindings hrun henrolls hfresh
  constructor
  · intro hone x hx r hr
    exact henrolled.nfc hone hx hr
  · exact henrolled.oneName

end

section Runs

/-- A normalization that composes the accent of one name, and leaves other names as they are. -/
abbrev composingNormalization : UnicodeNormalization where
  isNfc s := decide (s ≠ "e\u0301")
  nfc s := if s = "e\u0301" then "\u00e9" else s
  isNfc_nfc s := by
    by_cases hs : s = "e\u0301"
    · rw [if_pos hs]
      decide
    · rw [if_neg hs]
      exact decide_eq_true hs

local instance : UnicodeNormalization := composingNormalization

local instance : Ed25519 := acceptingEd25519

local instance : Sha256 := tailSha256

/-- A server that signs its bindings, without a delegation. -/
def signingConfig : DirectoryConfig := ⟨some ⟨.replicate 32 1⟩, some (.replicate 32 1), none⟩

/-- Two registration keys are out, and nobody is enrolled. -/
def twoKeys : MemoryDirectory where
  users := ∅
  bindings := ∅
  regKeys := {sha256 "k".toByteArray.data.toList, sha256 "l".toByteArray.data.toList}
  firstAdminClaimed := false

def registers (username registrationKey : String) (userId : Id) : DirectoryRequest :=
  .register ⟨username, some (.replicate 32 2), some (.replicate 32 3), none, registrationKey⟩ userId
    0 0

def afterRegisters (username registrationKey : String) (userId : Id) (s : MemoryDirectory) :
    MemoryDirectory :=
  ((registers username registrationKey userId).serve signingConfig MemoryDirectory.store s).2

/-- The composed spelling registers, then some other name. -/
def spelledPath (other : String) : DirectoryPath MemoryDirectory :=
  [(twoKeys, registers "\u00e9" "k" ⟨.replicate 16 1⟩, .registered (.ok ⟨.replicate 16 1⟩)),
    (afterRegisters "\u00e9" "k" ⟨.replicate 16 1⟩ twoKeys,
      registers other "l" ⟨.replicate 16 2⟩, .registered (.ok ⟨.replicate 16 2⟩))]

def afterSpelled (other : String) : MemoryDirectory :=
  afterRegisters other "l" ⟨.replicate 16 2⟩ (afterRegisters "\u00e9" "k" ⟨.replicate 16 1⟩ twoKeys)

lemma runs_spelled {other : String}
    (hfirst : ((registers "\u00e9" "k" ⟨.replicate 16 1⟩).serve signingConfig
      MemoryDirectory.store twoKeys).1 = .registered (.ok ⟨.replicate 16 1⟩))
    (hsecond : ((registers other "l" ⟨.replicate 16 2⟩).serve signingConfig MemoryDirectory.store
      (afterRegisters "\u00e9" "k" ⟨.replicate 16 1⟩ twoKeys)).1 =
        .registered (.ok ⟨.replicate 16 2⟩)) :
    LabelledRun (Runs signingConfig MemoryDirectory.store) twoKeys (spelledPath other)
      (afterSpelled other) :=
  .step (.step .start ⟨none, Prod.ext hfirst rfl⟩) ⟨none, Prod.ext hsecond rfl⟩

lemma fresh_spelled (other : String) : FreshIds (spelledPath other) := by
  simp [FreshIds, spelledPath, registers, registered]
  decide

/-- Two names in normal form are two accounts. -/
theorem register_oneName_normal : OneName (afterSpelled "e") := by
  refine (register_oneName rfl rfl (runs_spelled (by decide +kernel) (by decide +kernel)) ?_
    (fresh_spelled "e")).mpr ?_
  · simp [spelledPath, registers, DirectoryRequest.Enrolls]
  · simp [spelledPath, registers, registered]
    decide

/-- What the server signs for the decomposed spelling. -/
def spelledBinding : DirBinding :=
  enrollmentBinding ⟨"\u00e9", by decide, by decide⟩ ⟨.replicate 16 2⟩ (.replicate 32 2)
    (.replicate 32 3) none (.new [.user])

/-- The two spellings of one name are two accounts. -/
theorem register_oneName_spelled :
    ¬ ∀ (cfg : DirectoryConfig) (s t : MemoryDirectory) (path : DirectoryPath MemoryDirectory),
      s.users = ∅ → s.bindings = ∅ → LabelledRun (Runs cfg MemoryDirectory.store) s path t →
      (∀ x ∈ path, x.2.1.Enrolls) → FreshIds path → OneName t := by
  intro h
  have hone := h signingConfig twoKeys (afterSpelled "e\u0301") _ rfl rfl
    (runs_spelled (by decide +kernel) (by decide +kernel))
    (by simp [spelledPath, registers, DirectoryRequest.Enrolls]) (fresh_spelled _)
  have hrow : (afterSpelled "e\u0301").bindings.lookup ⟨.replicate 16 2⟩ =
      some (1, signBinding ⟨.replicate 32 1⟩ spelledBinding) := by
    decide +kernel
  have hfound := hone.found _ _ _ hrow (decode_signBinding _ _)
  exact absurd hfound (by decide +kernel)

end Runs

end UsernameIdentity

end MaxSecu
