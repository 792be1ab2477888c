import MaxSecu.Client.Sanitize
import MaxSecu.Framework.Paging
import MaxSecu.Server.BlobStore

/-!
# Listing a stream on the cold tier

A folder of Dropbox is listed page by page.  The count of its entries and their names are what pruning
and finalizing go by, so a page that cannot be read must not make them shorter.

A page that does not say whether there are more is read as the last one.  The listings are exact in all
other cases (`listings_failClosed_iff`).
-/

namespace MaxSecu

open ExceptRules Paging
open Sanitize (PathComponent Platform components isControl)

inductive Json
  | null
  | bool (b : Bool)
  | number (literal : String)
  | string (s : String)
  | array (elements : List Json)
  | object (members : List (String × Json))

namespace Json

def get (v : Json) (key : String) : Option Json :=
  match v with
  | object members => members.lookup key
  | _ => none

def asBool : Json → Option Bool
  | bool b => some b
  | _ => none

def asStr : Json → Option String
  | string s => some s
  | _ => none

def asArray : Json → Option (List Json)
  | array elements => some elements
  | _ => none

end Json

/-- A call of the API: its path, and the JSON in its body. -/
structure RpcRequest where
  path : String
  body : Json

structure DropboxResponse where
  status : UInt16
  body : List UInt8

/-- The tier: the root of its folder, how paths are read, how JSON is parsed, how bytes are decoded for
a message, and the transport.  What a request is answered may depend on all those before it. -/
structure DropboxTier where
  root : String
  platform : Platform
  parse : List UInt8 → Except String Json
  fromUtf8Lossy : List UInt8 → List Char
  postJson : List RpcRequest → Except BlobError DropboxResponse

/-! ## Paths and messages -/

def isNormal : PathComponent → Bool
  | .normal _ => true
  | _ => false

/-- Every component must be a plain one. -/
def guardBlobRef (platform : Platform) (blobRef : String) : Except BlobError Unit :=
  if blobRef = "" then throw ⟨"dropbox_path", "empty blob_ref"⟩
  else if (components platform blobRef.toList).all isNormal then pure ()
  else throw ⟨"dropbox_path", "unsafe blob_ref component"⟩

def ensureLeadingSlash (path : String) : String :=
  if path.toList.head? = some '/' then path else "/" ++ path

def streamPath (platform : Platform) (root blobRef : String) : Except BlobError String := do
  guardBlobRef platform blobRef
  pure (ensureLeadingSlash (root ++ "/" ++ blobRef))

namespace DropboxTier

def isWhitespace (c : Char) : Bool :=
  (0x9 ≤ c.val && c.val ≤ 0xd) || c.val == 0x20 || c.val == 0x85 || c.val == 0xa0 ||
    c.val == 0x1680 || (0x2000 ≤ c.val && c.val ≤ 0x200a) || c.val == 0x2028 || c.val == 0x2029 ||
    c.val == 0x202f || c.val == 0x205f || c.val == 0x3000

def trim (s : List Char) : List Char :=
  ((s.dropWhile isWhitespace).reverse.dropWhile isWhitespace).reverse

/-- At most 200 bytes in one line. -/
def snippet (used : ℕ) : List Char → List Char
  | [] => []
  | c :: cs =>
    let c := if isControl c then ' ' else c
    if 200 < used + c.utf8Size then [] else c :: snippet (used + c.utf8Size) cs

variable (tier : DropboxTier)

def errDetail (body : List UInt8) : String :=
  if body = [] then ""
  else
    match (tier.parse body).toOption.bind fun v => (v.get "error_summary").bind Json.asStr with
    | some summary => summary
    | none => String.ofList (trim (snippet 0 (tier.fromUtf8Lossy body)))

def httpMsg (resp : DropboxResponse) : String :=
  let detail := tier.errDetail resp.body
  if detail = "" then "dropbox http " ++ toString resp.status
  else "dropbox http " ++ toString resp.status ++ ": " ++ detail

def isPathNotFound (resp : DropboxResponse) : Bool :=
  if resp.status ≠ 409 then false
  else
    match tier.parse resp.body with
    | .ok v => ((v.get "error_summary").bind Json.asStr).any fun s =>
        decide ("not_found".toList <:+: s.toList)
    | .error _ => false

/-! ## Pages -/

/-- The entries of a page must be an array. -/
def listFolderEntryCount (v : Json) : Except BlobError ℕ :=
  match (v.get "entries").bind Json.asArray with
  | some entries => pure entries.length
  | none => throw ⟨"dropbox_chunk_count", "missing/invalid entries"⟩

/-- And for their names, each must have one. -/
def listFolderEntryNames (v : Json) : Except BlobError (List String) :=
  match (v.get "entries").bind Json.asArray with
  | some entries => entries.mapM fun e =>
      match (e.get "name").bind Json.asStr with
      | some name => pure name
      | none => throw ⟨"dropbox_list_prefix", "entry without a name"⟩
  | none => throw ⟨"dropbox_list_prefix", "missing/invalid entries"⟩

section Listing

variable {β : Type} (op : String) (entries : Json → Except BlobError β)

def readPage (resp : DropboxResponse) : Except BlobError (Json × β) :=
  if resp.status ≠ 200 then throw ⟨op, tier.httpMsg resp⟩
  else do
    let v ← (tier.parse resp.body).mapError fun e => ⟨op, "malformed response: " ++ e⟩
    let more ← entries v
    pure (v, more)

/-- A page that does not say whether there are more is read as the last one. -/
def hasMore (v : Json) : Bool := ((v.get "has_more").bind Json.asBool).getD false

def continueFrom (v : Json) : Except BlobError (Option RpcRequest) :=
  if hasMore v then
    match (v.get "cursor").bind Json.asStr with
    | some cursor =>
      pure (some ⟨"/2/files/list_folder/continue", .object [("cursor", .string cursor)]⟩)
    | none => throw ⟨op, "has_more without cursor"⟩
  else pure none

def askPage (sent : List RpcRequest) : Except BlobError (Json × β) := do
  let resp ← tier.postJson sent
  tier.readPage op entries resp

def listFolder (path : String) : RpcRequest :=
  ⟨"/2/files/list_folder", .object [("path", .string path)]⟩

/-- List a folder in so many rounds; a folder that is not there is empty. -/
def listing (join : β → β → β) (absent : β) (blobRef : String) (rounds : ℕ) :
    Option (Except BlobError β) :=
  match streamPath tier.platform tier.root blobRef with
  | .error e => some (.error e)
  | .ok path =>
    match tier.postJson [listFolder path] with
    | .error e => some (.error e)
    | .ok resp =>
      if tier.isPathNotFound resp then some (.ok absent)
      else
        match tier.readPage op entries resp with
        | .error e => some (.error e)
        | .ok (v, first) =>
          fetch (tier.askPage op entries) (continueFrom op) join rounds [listFolder path] v first

end Listing

def chunkCount (blobRef : String) (rounds : ℕ) : Option (Except BlobError ℕ) :=
  tier.listing "dropbox_chunk_count" listFolderEntryCount (· + ·) 0 blobRef rounds

def sortNames (names : List String) : List String := names.mergeSort fun a b => decide (a ≤ b)

def listPrefix (pre : String) (rounds : ℕ) : Option (Except BlobError (Option (List String))) :=
  (tier.listing "dropbox_list_prefix" listFolderEntryNames (· ++ ·) [] pre rounds).map fun r =>
    r.map fun names => some (sortNames names)

/-! ## What a listing asks and gets -/

section Runs

variable {β : Type} (op : String) (entries : Json → Except BlobError β) (blobRef : String)

/-- The requests that a listing has sent when it waits for an answer. -/
inductive Asks : List RpcRequest → Prop
  | first {path : String} : streamPath tier.platform tier.root blobRef = .ok path →
      Asks [listFolder path]
  | further {sent : List RpcRequest} {v : Json} {more : β} {request : RpcRequest} :
      Asks sent → tier.askPage op entries sent = .ok (v, more) →
      continueFrom op v = .ok (some request) → Asks (sent ++ [request])

/-- A page with its entries, which says whether there are more and how to go on. -/
structure WellFormed (v : Json) : Prop where
  entries : ∃ elements, v.get "entries" = some (.array elements)
  more : v.get "has_more" = some (.bool false) ∨
    v.get "has_more" = some (.bool true) ∧ ∃ cursor, v.get "cursor" = some (.string cursor)

/-- The last request got no page: the transport failed, or the status is another one and not that of a
missing folder, or the body is no page. -/
def BadAnswer (sent : List RpcRequest) : Prop :=
  ∀ resp, tier.postJson sent = .ok resp →
    ¬ (sent.length = 1 ∧ tier.isPathNotFound resp = true) ∧
      (resp.status = 200 → ∀ v, tier.parse resp.body = .ok v → ¬ WellFormed v)

def Fails {γ : Type} (run : ℕ → Option (Except BlobError γ)) : Prop :=
  (∃ rounds e, run rounds = some (.error e)) ∧ ∀ rounds x, run rounds ≠ some (.ok x)

/-- Every page that is read says whether there are more. -/
def SaysWhetherMore : Prop :=
  ∀ sent v more, tier.Asks op entries blobRef sent → tier.askPage op entries sent = .ok (v, more) →
    ∃ b, v.get "has_more" = some (.bool b)

/-- An honest folder: the request gets the first of these pages, and so on. -/
def Answers : List RpcRequest → List (List Json) → Prop
  | _, [] => False
  | sent, [page] => ∃ body v, tier.postJson sent = .ok ⟨200, body⟩ ∧ tier.parse body = .ok v ∧
      v.get "entries" = some (.array page) ∧ v.get "has_more" = some (.bool false)
  | sent, page :: next :: rest => ∃ body v cursor, tier.postJson sent = .ok ⟨200, body⟩ ∧
      tier.parse body = .ok v ∧ v.get "entries" = some (.array page) ∧
      v.get "has_more" = some (.bool true) ∧ v.get "cursor" = some (.string cursor) ∧
      Answers (sent ++ [⟨"/2/files/list_folder/continue", .object [("cursor", .string cursor)]⟩])
        (next :: rest)

end Runs

variable {tier} {β : Type} {op blobRef path : String} {entries : Json → Except BlobError β}
  {join : β → β → β} {absent : β} {sent : List RpcRequest} {v : Json} {more : β}
  {resp : DropboxResponse} {rounds rounds' : ℕ}

lemma readPage_eq_ok : tier.readPage op entries resp = .ok (v, more) ↔
    resp.status = 200 ∧ tier.parse resp.body = .ok v ∧ entries v = .ok more := by
  unfold readPage
  by_cases hstatus : resp.status = 200
  · rw [if_neg (not_not.mpr hstatus)]
    cases hparse : tier.parse resp.body with
    | error e =>
      constructor
      · intro h
        exact absurd h (by simp [Except.mapError, bind, Except.bind])
      · intro h
        exact absurd h.2.1 (by simp)
    | ok w =>
      show (do let more ← entries w; pure (w, more)) = Except.ok (v, more) ↔ _
      rw [bind_eq_ok]
      constructor
      · intro ⟨x, hx, hpair⟩
        obtain ⟨rfl, rfl⟩ := Prod.mk.inj (pure_eq_ok.mp hpair)
        exact ⟨hstatus, rfl, hx⟩
      · intro ⟨_, hw, hmore⟩
        obtain rfl := Except.ok.inj hw
        exact ⟨more, hmore, rfl⟩
  · rw [if_pos hstatus]
    constructor
    · intro h
      exact absurd h (by simp [throw, throwThe, MonadExceptOf.throw])
    · intro h
      exact absurd h.1 hstatus

lemma askPage_eq_ok : tier.askPage op entries sent = .ok (v, more) ↔
    ∃ resp, tier.postJson sent = .ok resp ∧ resp.status = 200 ∧ tier.parse resp.body = .ok v ∧
      entries v = .ok more := by
  unfold askPage
  rw [bind_eq_ok]
  simp only [readPage_eq_ok]

lemma isPathNotFound_of_ok (h : resp.status = 200) : tier.isPathNotFound resp = false := by
  unfold isPathNotFound
  rw [h, if_pos (by decide)]

lemma listing_of_first (hpath : streamPath tier.platform tier.root blobRef = .ok path)
    (hfirst : tier.askPage op entries [listFolder path] = .ok (v, more)) :
    tier.listing op entries join absent blobRef rounds =
      fetch (tier.askPage op entries) (continueFrom op) join rounds [listFolder path] v more := by
  obtain ⟨resp, hresp, hstatus, hrest⟩ := askPage_eq_ok.mp hfirst
  unfold listing
  rw [hpath]
  dsimp only
  rw [hresp]
  dsimp only
  rw [isPathNotFound_of_ok hstatus, if_neg (by simp), readPage_eq_ok.mpr ⟨hstatus, hrest⟩]

lemma listing_unique {r r' : Except BlobError β}
    (h : tier.listing op entries join absent blobRef rounds = some r)
    (h' : tier.listing op entries join absent blobRef rounds' = some r') : r = r' := by
  unfold listing at h h'
  cases hpath : streamPath tier.platform tier.root blobRef with
  | error e =>
    rw [hpath] at h h'
    exact Option.some.inj (h.symm.trans h')
  | ok path =>
    rw [hpath] at h h'
    dsimp only at h h'
    cases hresp : tier.postJson [listFolder path] with
    | error e =>
      rw [hresp] at h h'
      exact Option.some.inj (h.symm.trans h')
    | ok resp =>
      rw [hresp] at h h'
      dsimp only at h h'
      by_cases hmissing : tier.isPathNotFound resp = true
      · rw [if_pos hmissing] at h h'
        exact Option.some.inj (h.symm.trans h')
      · rw [if_neg hmissing] at h h'
        cases hread : tier.readPage op entries resp with
        | error e =>
          rw [hread] at h h'
          exact Option.some.inj (h.symm.trans h')
        | ok x =>
          rw [hread] at h h'
          exact fetch_unique h h'

lemma Asks.reaches (h : tier.Asks op entries blobRef sent)
    (hask : tier.askPage op entries sent = .ok (v, more)) (join : β → β → β) (absent : β) :
    ∃ collected k, ∀ rounds, tier.listing op entries join absent blobRef (rounds + k) =
      fetch (tier.askPage op entries) (continueFrom op) join rounds sent v collected := by
  induction h generalizing v more with
  | first hpath => exact ⟨more, 0, fun _ => listing_of_first hpath hask⟩
  | @further sent w first request _ hpage hnext ih =>
    obtain ⟨collected, k, hk⟩ := ih hpage
    refine ⟨join collected more, k + 1, fun rounds => ?_⟩
    rw [Nat.add_comm k 1, ← Nat.add_assoc, hk]
    exact fetch_step hnext hask

lemma Asks.fails (h : tier.Asks op entries blobRef sent)
    (hask : ∀ v more, tier.askPage op entries sent ≠ .ok (v, more))
    (hfound : ∀ resp, tier.postJson sent = .ok resp →
      ¬ (sent.length = 1 ∧ tier.isPathNotFound resp = true)) (join : β → β → β) (absent : β) :
    ∃ rounds e, tier.listing op entries join absent blobRef rounds = some (.error e) := by
  cases h with
  | @first path hpath =>
    cases hresp : tier.postJson [listFolder path] with
    | error e =>
      refine ⟨0, e, ?_⟩
      unfold listing
      rw [hpath]
      dsimp only
      rw [hresp]
    | ok resp =>
      have hmissing : ¬ tier.isPathNotFound resp = true := fun hyes => hfound resp hresp ⟨rfl, hyes⟩
      cases hread : tier.readPage op entries resp with
      | error e =>
        refine ⟨0, e, ?_⟩
        unfold listing
        rw [hpath]
        dsimp only
        rw [hresp]
        dsimp only
        rw [if_neg hmissing, hread]
      | ok x =>
        refine absurd ?_ (hask x.1 x.2)
        exact askPage_eq_ok.mpr ⟨resp, hresp, readPage_eq_ok.mp hread⟩
  | @further sent w first request hasks hpage hnext =>
    obtain ⟨collected, k, hk⟩ := hasks.reaches hpage join absent
    cases hlast : tier.askPage op entries (sent ++ [request]) with
    | error e =>
      refine ⟨1 + k, e, ?_⟩
      rw [hk, fetch, hnext]
      dsimp only
      rw [hlast]
    | ok x => exact absurd hlast (hask x.1 x.2)

lemma hasMore_eq_false (h : ∀ b, v.get "has_more" ≠ some (.bool b)) : hasMore v = false := by
  unfold hasMore
  cases hget : v.get "has_more" with
  | none => rfl
  | some w =>
    cases w with
    | bool b => exact absurd hget (h b)
    | null => rfl
    | number literal => rfl
    | string s => rfl
    | array elements => rfl
    | object members => rfl

/-- **Where a listing fails closed.**  A bad answer makes the listing fail, whichever answer it is, if
and only if every page that is read says whether there are more. -/
lemma failsClosed_iff (join : β → β → β) (absent : β) (hentries : ∀ v more, entries v = .ok more →
      ∃ elements, v.get "entries" = some (.array elements)) :
    (∀ sent, tier.Asks op entries blobRef sent → tier.BadAnswer sent →
      Fails (tier.listing op entries join absent blobRef)) ↔
    tier.SaysWhetherMore op entries blobRef := by
  constructor
  · intro hfails sent v more hasks hask
    obtain ⟨resp, hresp, hstatus, hparse, -⟩ := askPage_eq_ok.mp hask
    by_contra hnone
    have hno : ∀ b, v.get "has_more" ≠ some (.bool b) := fun b hb => hnone ⟨b, hb⟩
    have hbad : tier.BadAnswer sent := by
      intro resp' hresp'
      obtain rfl := Except.ok.inj (hresp.symm.trans hresp')
      refine ⟨?_, ?_⟩
      · rw [isPathNotFound_of_ok hstatus]
        simp
      · intro _ w hw hwell
        obtain rfl := Except.ok.inj (hparse.symm.trans hw)
        obtain hmore | ⟨hmore, -⟩ := hwell.more
        · exact hno false hmore
        · exact hno true hmore
    obtain ⟨collected, k, hk⟩ := hasks.reaches hask join absent
    refine (hfails sent hasks hbad).2 (1 + k) collected ?_
    have hlast : continueFrom op v = .ok none := by
      unfold continueFrom
      rw [hasMore_eq_false hno]
      rfl
    rw [hk, fetch, hlast]
  · intro hsays sent hasks hbad
    have herror : ∃ rounds e, tier.listing op entries join absent blobRef rounds =
        some (.error e) := by
      by_cases hask : ∀ v more, tier.askPage op entries sent ≠ .ok (v, more)
      · exact hasks.fails hask (fun resp hresp => (hbad resp hresp).1) join absent
      · push Not at hask
        obtain ⟨v, more, hask⟩ := hask
        obtain ⟨resp, hresp, hstatus, hparse, hmore⟩ := askPage_eq_ok.mp hask
        have hbroken := (hbad resp hresp).2 hstatus v hparse
        obtain ⟨b, hb⟩ := hsays sent v more hasks hask
        obtain ⟨collected, k, hk⟩ := hasks.reaches hask join absent
        -- there are more pages, and nothing to ask for them with
        cases b with
        | false => exact absurd ⟨hentries v more hmore, .inl hb⟩ hbroken
        | true =>
          have hcursor : (v.get "cursor").bind Json.asStr = none := by
            cases hget : (v.get "cursor").bind Json.asStr with
            | none => rfl
            | some cursor =>
              refine absurd ⟨hentries v more hmore, .inr ⟨hb, cursor, ?_⟩⟩ hbroken
              obtain ⟨w, hw, hstr⟩ := Option.bind_eq_some_iff.mp hget
              cases w with
              | string s =>
                obtain rfl := Option.some.inj hstr
                exact hw
              | _ => exact absurd hstr (by simp [Json.asStr])
          refine ⟨1 + k, ⟨op, "has_more without cursor"⟩, ?_⟩
          have hnext : continueFrom op v = .error ⟨op, "has_more without cursor"⟩ := by
            unfold continueFrom hasMore
            rw [hb, hcursor]
            rfl
          rw [hk, fetch, hnext]
    refine ⟨herror, fun rounds x hx => ?_⟩
    obtain ⟨rounds', e, he⟩ := herror
    exact absurd (listing_unique hx he) (by simp)

/-! ## Honest folders -/

variable {page : List Json} {rest : List (List Json)} {item : List Json → β}

lemma Answers.served (h : tier.Answers sent (page :: rest))
    (hentries : ∀ p ∈ page :: rest, ∀ v, v.get "entries" = some (.array p) →
      entries v = .ok (item p)) :
    ∃ v, tier.askPage op entries sent = .ok (v, item page) ∧
      Served (tier.askPage op entries) (continueFrom op) sent v (rest.map item) := by
  induction rest generalizing sent page with
  | nil =>
    obtain ⟨body, v, hresp, hparse, hpage, hmore⟩ := h
    refine ⟨v, ?_, ?_⟩
    · exact askPage_eq_ok.mpr ⟨_, hresp, rfl, hparse, hentries page (by simp) v hpage⟩
    · show continueFrom op v = .ok none
      unfold continueFrom hasMore
      rw [hmore]
      rfl
  | cons next rest ih =>
    obtain ⟨body, v, cursor, hresp, hparse, hpage, hmore, hcursor, hrest⟩ := h
    obtain ⟨w, hask, hserved⟩ := ih hrest fun p hp => hentries p (List.mem_cons_of_mem page hp)
    refine ⟨v, ?_, ?_⟩
    · exact askPage_eq_ok.mpr ⟨_, hresp, rfl, hparse, hentries page (by simp) v hpage⟩
    · refine ⟨_, w, ?_, hask, hserved⟩
      unfold continueFrom hasMore
      rw [hmore, hcursor]
      rfl

lemma listing_answers (join : β → β → β) (absent : β)
    (hpath : streamPath tier.platform tier.root blobRef = .ok path)
    (h : tier.Answers [listFolder path] (page :: rest))
    (hentries : ∀ p ∈ page :: rest, ∀ v, v.get "entries" = some (.array p) →
      entries v = .ok (item p)) (hrounds : rest.length < rounds) :
    tier.listing op entries join absent blobRef rounds =
      some (.ok ((rest.map item).foldl join (item page))) := by
  obtain ⟨v, hask, hserved⟩ := h.served hentries
  rw [listing_of_first hpath hask]
  exact fetch_served hserved (by rw [List.length_map]; exact hrounds)

lemma foldl_length (n : ℕ) : (rest.map List.length).foldl (· + ·) n = n + rest.flatten.length := by
  induction rest generalizing n with
  | nil => rfl
  | cons p rest ih =>
    rw [List.map_cons, List.foldl_cons, ih, List.flatten_cons, List.length_append, Nat.add_assoc]

def nameOf (e : Json) : Option String := (e.get "name").bind Json.asStr

lemma foldl_names (names : List String) :
    (rest.map fun p => p.filterMap nameOf).foldl (· ++ ·) names =
      names ++ rest.flatten.filterMap nameOf := by
  induction rest generalizing names with
  | nil => simp
  | cons p rest ih =>
    rw [List.map_cons, List.foldl_cons, ih, List.flatten_cons, List.filterMap_append,
      List.append_assoc]

lemma listFolderEntryCount_eq (h : v.get "entries" = some (.array page)) :
    listFolderEntryCount v = .ok page.length := by
  unfold listFolderEntryCount
  rw [h]
  rfl

lemma listFolderEntryNames_eq (h : v.get "entries" = some (.array page))
    (hnames : ∀ e ∈ page, (nameOf e).isSome) :
    listFolderEntryNames v = .ok (page.filterMap nameOf) := by
  unfold listFolderEntryNames
  rw [h]
  show (page.mapM _) = Except.ok _
  rw [mapM_eq_ok]
  clear h
  induction page with
  | nil => exact .nil
  | cons e page ih =>
    obtain ⟨name, hname⟩ := Option.isSome_iff_exists.mp (hnames e (by simp))
    rw [List.filterMap_cons_some hname]
    refine .cons ?_ (ih fun e' he' => hnames e' (List.mem_cons_of_mem e he'))
    unfold nameOf at hname
    rw [hname]
    rfl

lemma entries_of_count {n : ℕ} (h : listFolderEntryCount v = .ok n) :
    ∃ elements, v.get "entries" = some (.array elements) := by
  unfold listFolderEntryCount at h
  cases hget : v.get "entries" with
  | none =>
    rw [hget] at h
    exact absurd h (by simp [throw, throwThe, MonadExceptOf.throw])
  | some w =>
    rw [hget] at h
    cases w with
    | array elements => exact ⟨elements, rfl⟩
    | _ => exact absurd h (by simp [Json.asArray, throw, throwThe, MonadExceptOf.throw])

lemma entries_of_names {names : List String} (h : listFolderEntryNames v = .ok names) :
    ∃ elements, v.get "entries" = some (.array elements) := by
  have hcount : ∃ n, listFolderEntryCount v = .ok n := by
    unfold listFolderEntryNames at h
    unfold listFolderEntryCount
    cases hentries : (v.get "entries").bind Json.asArray with
    | none =>
      rw [hentries] at h
      exact absurd h (by simp [throw, throwThe, MonadExceptOf.throw])
    | some elements => exact ⟨elements.length, rfl⟩
  obtain ⟨n, hn⟩ := hcount
  exact entries_of_count hn

lemma sortNames_perm (names : List String) : (sortNames names).Perm names :=
  List.mergeSort_perm names _

lemma sortNames_pairwise (names : List String) : (sortNames names).Pairwise (· ≤ ·) := by
  have hsorted : (sortNames names).Pairwise fun a b => decide (a ≤ b) = true := by
    refine List.pairwise_mergeSort ?_ ?_ names
    · intro a b c hab hbc
      simp only [decide_eq_true_eq] at hab hbc ⊢
      exact String.le_trans hab hbc
    · intro a b
      simpa using String.le_total a b
  exact hsorted.imp of_decide_eq_true

lemma fails_listPrefix_iff : Fails (tier.listPrefix blobRef) ↔
    Fails (tier.listing "dropbox_list_prefix" listFolderEntryNames (· ++ ·) [] blobRef) := by
  unfold Fails listPrefix
  constructor
  · intro ⟨⟨rounds, e, herror⟩, hnever⟩
    refine ⟨⟨rounds, e, ?_⟩, fun rounds x hx => ?_⟩
    · obtain ⟨r, hr, heq⟩ := Option.map_eq_some_iff.mp herror
      cases r with
      | error e' =>
        obtain rfl := Except.error.inj heq
        exact hr
      | ok names => exact absurd heq (by simp [Except.map])
    · refine hnever rounds (some (sortNames x)) ?_
      rw [hx]
      rfl
  · intro ⟨⟨rounds, e, herror⟩, hnever⟩
    refine ⟨⟨rounds, e, ?_⟩, fun rounds x hx => ?_⟩
    · rw [herror]
      rfl
    · obtain ⟨r, hr, heq⟩ := Option.map_eq_some_iff.mp hx
      cases r with
      | error e' => exact absurd heq (by simp [Except.map])
      | ok names => exact hnever rounds names hr

end DropboxTier

open DropboxTier

/-- **Listing a cold stream.**  However a folder is cut into pages, the count is that of its entries, and
the names are theirs in order.

A bad answer makes a listing fail, whichever answer it is, if and only if every page that the listing
reads says whether there are more.  A page that does not is read as the last one, and what it leaves out
is missing. -/
theorem listings_failClosed_iff (tier : DropboxTier) (blobRef : String) :
    (∀ path pages, streamPath tier.platform tier.root blobRef = .ok path →
      tier.Answers [listFolder path] pages → ∀ rounds, pages.length ≤ rounds →
      tier.chunkCount blobRef rounds = some (.ok pages.flatten.length) ∧
      ((∀ e ∈ pages.flatten, (nameOf e).isSome) → ∃ names,
        tier.listPrefix blobRef rounds = some (.ok (some names)) ∧
        names.Perm (pages.flatten.filterMap nameOf) ∧ names.Pairwise (· ≤ ·))) ∧
    ((∀ sent, tier.Asks "dropbox_chunk_count" listFolderEntryCount blobRef sent →
        tier.BadAnswer sent → Fails (tier.chunkCount blobRef)) ↔
      tier.SaysWhetherMore "dropbox_chunk_count" listFolderEntryCount blobRef) ∧
    ((∀ sent, tier.Asks "dropbox_list_prefix" listFolderEntryNames blobRef sent →
        tier.BadAnswer sent → Fails (tier.listPrefix blobRef)) ↔
      tier.SaysWhetherMore "dropbox_list_prefix" listFolderEntryNames blobRef) := by
  refine ⟨fun path pages hpath hanswers rounds hrounds => ?_, ?_, ?_⟩
  · cases pages with
    | nil => exact hanswers.elim
    | cons page rest =>
      have hless : rest.length < rounds := Nat.lt_of_succ_le hrounds
      constructor
      · unfold chunkCount
        rw [listing_answers (· + ·) 0 hpath hanswers (fun p _ v => listFolderEntryCount_eq) hless,
          foldl_length, List.flatten_cons, List.length_append]
      · intro hnames
        have hentries : ∀ p ∈ page :: rest, ∀ v : Json, v.get "entries" = some (.array p) →
            listFolderEntryNames v = .ok (p.filterMap nameOf) := by
          intro p hp v hv
          exact listFolderEntryNames_eq hv fun e he => hnames e (List.mem_flatten.mpr ⟨p, hp, he⟩)
        refine ⟨sortNames ((page :: rest).flatten.filterMap nameOf), ?_, sortNames_perm _,
          sortNames_pairwise _⟩
        unfold listPrefix
        rw [listing_answers (· ++ ·) [] hpath hanswers hentries hless, foldl_names,
          List.flatten_cons, List.filterMap_append]
        rfl
  · exact failsClosed_iff (· + ·) 0 fun _ _ => entries_of_count
  · rw [← failsClosed_iff (· ++ ·) [] fun _ _ => entries_of_names]
    simp only [fails_listPrefix_iff]

/-! ## A folder with two entries -/

/-- The body of a page that does not say whether there are more. -/
def silentPage : List UInt8 := "\x7b\"entries\":[\x7b\"name\":\"0\"\x7d],\"cursor\":\"c\"\x7d".toUTF8.toList

/-- The bodies of the two pages that say it. -/
def firstPage : List UInt8 :=
  "\x7b\"entries\":[\x7b\"name\":\"0\"\x7d],\"has_more\":true,\"cursor\":\"c\"\x7d".toUTF8.toList

def lastPage : List UInt8 := "\x7b\"entries\":[\x7b\"name\":\"1\"\x7d],\"has_more\":false\x7d".toUTF8.toList

def entry (name : String) : Json := .object [("name", .string name)]

def silentJson : Json := .object [("entries", .array [entry "0"]), ("cursor", .string "c")]

def firstJson : Json :=
  .object [("entries", .array [entry "0"]), ("has_more", .bool true), ("cursor", .string "c")]

def lastJson : Json := .object [("entries", .array [entry "1"]), ("has_more", .bool false)]

def parsePages (body : List UInt8) : Except String Json :=
  if body = silentPage then pure silentJson
  else if body = firstPage then pure firstJson
  else if body = lastPage then pure lastJson
  else throw "expected value at line 1 column 1"

/-- A tier whose first answer is the given page, and whose second answer is the last page. -/
def twoPageTier (first : List UInt8) : DropboxTier :=
  ⟨"/maxsecu", .posix, parsePages, fun _ => [], fun sent =>
    .ok ⟨200, if sent.length = 1 then first else lastPage⟩⟩

lemma parsePages_silent : parsePages silentPage = .ok silentJson := by
  unfold parsePages
  rw [if_pos rfl]
  rfl

lemma parsePages_first : parsePages firstPage = .ok firstJson := by
  unfold parsePages
  rw [if_neg (by decide +kernel), if_pos rfl]
  rfl

lemma parsePages_last : parsePages lastPage = .ok lastJson := by
  unfold parsePages
  rw [if_neg (by decide +kernel), if_neg (by decide +kernel), if_pos rfl]
  rfl

lemma streamPath_twoPages : streamPath .posix "/maxsecu" "ab/1/1" = .ok "/maxsecu/ab/1/1" := by
  decide +kernel

/-- The first page is read as the last one, and the count is one too small. -/
theorem chunkCount_silentPage :
    ¬ ∀ sent, (twoPageTier silentPage).Asks "dropbox_chunk_count" listFolderEntryCount "ab/1/1" sent →
      (twoPageTier silentPage).BadAnswer sent →
      Fails ((twoPageTier silentPage).chunkCount "ab/1/1") := by
  intro h
  have hbad : (twoPageTier silentPage).BadAnswer [listFolder "/maxsecu/ab/1/1"] := by
    intro resp hresp
    obtain rfl := Except.ok.inj hresp
    refine ⟨?_, fun _ v hv hwell => ?_⟩
    · rw [isPathNotFound_of_ok rfl]
      simp
    · have hsilent : silentJson = v := Except.ok.inj (parsePages_silent.symm.trans hv)
      have hnone : v.get "has_more" = none := by
        rw [← hsilent]
        rfl
      obtain hmore | ⟨hmore, -⟩ := hwell.more
      · exact absurd (hnone.symm.trans hmore) (by simp)
      · exact absurd (hnone.symm.trans hmore) (by simp)
  have hask : (twoPageTier silentPage).askPage "dropbox_chunk_count" listFolderEntryCount
      [listFolder "/maxsecu/ab/1/1"] = .ok (silentJson, 1) :=
    askPage_eq_ok.mpr ⟨⟨200, silentPage⟩, rfl, rfl, parsePages_silent, rfl⟩
  refine (h _ (.first streamPath_twoPages) hbad).2 1 1 ?_
  unfold chunkCount
  rw [listing_of_first streamPath_twoPages hask]
  rfl

/-- When the first page says that there are more, both entries are counted. -/
theorem listings_failClosed_iff_twoPages :
    (twoPageTier firstPage).chunkCount "ab/1/1" 2 = some (.ok 2) ∧
      ∃ names, (twoPageTier firstPage).listPrefix "ab/1/1" 2 = some (.ok (some names)) ∧
        names.Perm ["0", "1"] := by
  have hanswers : (twoPageTier firstPage).Answers [listFolder "/maxsecu/ab/1/1"]
      [[entry "0"], [entry "1"]] :=
    ⟨firstPage, firstJson, "c", rfl, parsePages_first, rfl, rfl, rfl, lastPage, lastJson, rfl,
      parsePages_last, rfl, rfl⟩
  obtain ⟨hcount, hnames⟩ := (listings_failClosed_iff (twoPageTier firstPage) "ab/1/1").1 _ _
    streamPath_twoPages hanswers 2 le_rfl
  have hnamed : ∀ e ∈ [[entry "0"], [entry "1"]].flatten, (nameOf e).isSome := by
    intro e he
    simp only [List.flatten_cons, List.flatten_nil, List.append_nil, List.cons_append,
      List.nil_append, List.mem_cons, List.not_mem_nil, or_false] at he
    obtain rfl | rfl := he <;> rfl
  obtain ⟨names, hlist, hperm, -⟩ := hnames hnamed
  exact ⟨hcount, names, hlist, hperm⟩

end MaxSecu
