import FeedStore.Proofs.Pagination
import FeedStore.Proofs.Refresh
import FeedStore.Proofs.Unnoticed
import FeedStore.Proofs.Writes

/-!
# Readers and refreshes do not overwrite each other

A reader's call changes the status, the star or the share code of entries, and a refresh notices
none of that. Conversely a refresh, however far it gets, retains everything that such a call looks
at (`Session.Retains`), so the call answers the same after it and makes the very same change
(`ReaderCall.steady`). Therefore the two may run in either order
(`Reachable.refreshFeed_commutes`).
-/

namespace FeedStore

/-! ## What a refresh leaves of a session -/

/-- The second session has everything of the first one that readers have a say in; new entries come
behind, and readers have done nothing to them yet. -/
structure Session.Retains (s t : Session) : Prop where
  access : t.access = s.access
  now : t.now = s.now
  feeds : t.store.feeds = s.store.feeds
  categories : t.store.categories = s.store.categories
  rows : ∃ f news, t.store.entries.rows = s.store.entries.rows.map f ++ news
    ∧ (∀ e : Entry, e.Persists (f e))
    ∧ ∀ e ∈ news, s.store.entries.lastId < e.id ∧ e.shareCode = ""

namespace Session.Retains

variable {s t : Session}

theorem refl (s : Session) : s.Retains s where
  access := rfl
  now := rfl
  feeds := rfl
  categories := rfl
  rows := ⟨fun e => e, [], by simp, fun _ => ⟨rfl, rfl, rfl, rfl, rfl, rfl, rfl, rfl, rfl⟩,
    fun e he => by cases he⟩

/-- What a refresh has done, however far it got. -/
theorem refreshFeed (hs : s.store.Integrity) (user feed : Id) (cs : List Candidate)
    (update : Bool) : s.Retains ((Action.refreshFeed user feed cs update).perform s).2 := by
  obtain ⟨front, created, -, hrun⟩ := Action.writes_refreshFeed user feed cs update s
  have hrec := Action.reconciles_reconcileAll hs hrun
  have hrest : ((Action.refreshFeed user feed cs update).perform s).2.access = s.access
      ∧ ((Action.refreshFeed user feed cs update).perform s).2.now = s.now := by
    have hev := Action.evolves_reconcileAll user feed update cs s
    unfold Action.Evolves at hev
    rw [Action.perform_refreshFeed]
    cases hall : (Action.reconcileAll user feed update cs).perform s with
    | mk r u =>
        rw [hall] at hev
        cases r with
        | error e => exact ⟨hev.access, hev.now⟩
        | ok created => exact ⟨hev.access, hev.now⟩
  refine ⟨hrest.1, hrest.2, hrec.spares.feeds, hrec.spares.categories, _, _,
    hrec.rows.trans List.map_append,
    fun e => Entry.persists_foldl_seen feed update s.now e front, fun e he => ?_⟩
  obtain ⟨d, hd, rfl⟩ := List.mem_map.1 he
  obtain ⟨c, -, v, hv, rfl⟩ := Action.of_mem_newRows hd
  have hp := Entry.persists_foldl_seen feed update s.now (c.toEntry user feed s.now v.id) front
  exact ⟨lt_of_lt_of_eq (hrec.fresh v hv) hp.id.symm, hp.shareCode⟩

variable {p q : Entry → Bool}

/-- Rows that persist are counted as before, and new ones are not counted. -/
theorem countP_eq (h : s.Retains t) (hp : ∀ e e', e.Persists e' → q e' = p e)
    (hnew : ∀ e : Entry, s.store.entries.lastId < e.id → e.shareCode = "" → q e = false) :
    t.store.entries.rows.countP q = s.store.entries.rows.countP p := by
  obtain ⟨f, news, hrows, hf, hnews⟩ := h.rows
  have hnone : news.countP q = 0 :=
    List.countP_eq_zero.2 fun e he => by simp [hnew e (hnews e he).1 (hnews e he).2]
  rw [hrows, List.countP_append, hnone, Nat.add_zero, List.countP_map]
  exact congrArg (List.countP · s.store.entries.rows) (funext fun e => hp e (f e) (hf e))

theorem any_eq (h : s.Retains t) (hp : ∀ e e', e.Persists e' → q e' = p e)
    (hnew : ∀ e : Entry, s.store.entries.lastId < e.id → e.shareCode = "" → q e = false) :
    t.store.entries.rows.any q = s.store.entries.rows.any p := by
  have hcount := h.countP_eq hp hnew
  rw [Bool.eq_iff_iff, List.any_eq_true, List.any_eq_true, ← List.countP_pos_iff,
    ← List.countP_pos_iff, hcount]

/-- A row that persists is found again. -/
theorem find?_eq (h : s.Retains t) {κ : Type} {k : Entry → κ}
    (hp : ∀ e e', e.Persists e' → q e' = p e) (hk : ∀ e e', e.Persists e' → k e' = k e)
    (hnew : ∀ e : Entry, s.store.entries.lastId < e.id → e.shareCode = "" → q e = false) :
    (t.store.entries.rows.find? q).map k = (s.store.entries.rows.find? p).map k := by
  obtain ⟨f, news, hrows, hf, hnews⟩ := h.rows
  have hnone : news.find? q = none :=
    List.find?_eq_none.2 fun e he => by simp [hnew e (hnews e he).1 (hnews e he).2]
  have hqf : q ∘ f = p := funext fun e => hp e (f e) (hf e)
  have hkf : k ∘ f = k := funext fun e => hk e (f e) (hf e)
  rw [hrows, List.find?_append, hnone, Option.or_none, List.find?_map, hqf, Option.map_map, hkf]

end Session.Retains

/-- What the engine refuses is a matter of what it lets a caller do, not of the rows. -/
theorem Session.refusal?_congr {s t : Session} (h : t.access = s.access) (statement : Statement)
    (extent : Extent) : t.refusal? statement extent = s.refusal? statement extent := by
  unfold Session.refusal?
  rw [h]

/-- Statements are refused for the same reasons as before. -/
theorem Session.Retains.refusal? {s t : Session} (h : s.Retains t) (statement : Statement)
    (extent : Extent) : t.refusal? statement extent = s.refusal? statement extent :=
  Session.refusal?_congr h.access statement extent

theorem Entry.Persists.isListed {e e' : Entry} (h : e.Persists e') (user : Id) (ids : List Id) :
    e'.isListed user ids = e.isListed user ids := by
  rw [Entry.isListed, Entry.isListed, h.userId, h.id]

namespace Store

variable {s t : Store} {user : Id} {ids : List Id}

/-- The entry is a listed one of the user and shown on global lists. -/
def countsShown (s : Store) (user : Id) (ids : List Id) (e : Entry) : Bool :=
  ((s.listed? e).map fun l => l.entry.isListed user ids && s.shownGlobally l.feed).getD false

theorem countShown_eq : s.countShown user ids = s.entries.rows.countP (s.countsShown user ids) := by
  unfold countShown listed
  rw [List.countP_filterMap]
  rfl

theorem countsShown_congr {e e' : Entry} (hfeeds : t.feeds = s.feeds)
    (hcategories : t.categories = s.categories) (hid : e'.id = e.id)
    (huser : e'.userId = e.userId) (hfeed : e'.feedId = e.feedId) :
    t.countsShown user ids e' = s.countsShown user ids e := by
  unfold countsShown listed? shownGlobally
  rw [hfeeds, hcategories, hfeed]
  cases s.feeds.find? (·.id == e.feedId) with
  | none => rfl
  | some f =>
      dsimp only [Option.bind_eq_bind, Option.bind_some]
      cases s.categories.find? (·.id == f.categoryId) with
      | none => rfl
      | some c =>
          show (e'.isListed user ids && _) = (e.isListed user ids && _)
          rw [Entry.isListed, Entry.isListed, hid, huser]

theorem countsShown_of_not_isListed {e : Entry} (h : e.isListed user ids = false) :
    s.countsShown user ids e = false := by
  unfold countsShown
  cases hl : s.listed? e with
  | none => rfl
  | some l => simp [(of_listed? hl).1, h]

end Store

theorem Unnoticed.countShown {now : Int} {last : Id} {g : Entry → Entry}
    (h : Unnoticed now last g) (s : Store) (user : Id) (ids : List Id) :
    (s.mapEntries g).countShown user ids = s.countShown user ids := by
  rw [Store.countShown_eq, Store.countShown_eq]
  show (List.map g s.entries.rows).countP _ = _
  rw [List.countP_map]
  exact congrArg (List.countP · s.entries.rows) (funext fun e =>
    Store.countsShown_congr rfl rfl (h.id e) (h.userId e) (h.feedId e))

theorem Session.Retains.countShown {s t : Session} (h : s.Retains t) {user : Id} {ids : List Id}
    (hlater : ∀ e : Entry, s.store.entries.lastId < e.id → e.isListed user ids = false) :
    t.store.countShown user ids = s.store.countShown user ids := by
  rw [Store.countShown_eq, Store.countShown_eq]
  refine h.countP_eq (fun e e' he => ?_) fun e he _ => ?_
  · exact Store.countsShown_congr h.feeds h.categories he.id he.userId he.feedId
  · exact Store.countsShown_of_not_isListed (hlater e he)

theorem Entry.Persists.isOwn {e e' : Entry} (h : e.Persists e') (user id : Id) :
    e'.isOwn user id = e.isOwn user id := by
  rw [Entry.isOwn, Entry.isOwn, h.userId, h.id]

/-! ## Calls of readers -/

/-- A call of a reader that changes entries. -/
inductive ReaderCall where
  | setStatus (user : Id) (entries : List Id) (status : Status)
  | setStatusCount (user : Id) (entries : List Id) (status : Status)
  | setStar (user : Id) (entries : List Id) (starred : Bool)
  | toggleStar (user entry : Id)
  | share (user entry : Id) (drawn : String)
  | unshare (user entry : Id)
  deriving DecidableEq, Repr

namespace ReaderCall

/-- What the call answers with. -/
abbrev Answer : ReaderCall → Type
  | setStatusCount _ _ _ => Nat
  | share _ _ _ => Option String
  | _ => Unit

def action : (r : ReaderCall) → Action r.Answer
  | setStatus user entries status => .setStatus user entries status
  | setStatusCount user entries status => .setStatusCount user entries status
  | setStar user entries starred => .setStar user entries starred
  | toggleStar user entry => .toggleStar user entry
  | share user entry drawn => .share user entry drawn
  | unshare user entry => .unshare user entry

/-- The entries that the call names. -/
def ids : ReaderCall → List Id
  | setStatus _ entries _ | setStatusCount _ entries _ | setStar _ entries _ => entries
  | toggleStar _ entry | share _ entry _ | unshare _ entry => [entry]

end ReaderCall

namespace Action

variable {α : Type} {s t : Session} {user entry : Id} {entries : List Id}

/-- The action makes one unnoticed change, and the same one in every session that retains what
this one has. -/
def Steady (a : Action α) (s : Session) : Prop :=
  ∃ g r, Unnoticed s.now s.store.entries.lastId g
    ∧ ∀ t, s.Retains t → a.perform t = (r, t.mapEntries g)

theorem mapEntries_id (s : Session) : s.mapEntries (fun e => e) = s := by
  unfold Session.mapEntries Store.mapEntries Table.mapRows
  rw [List.map_id']

theorem unnoticed_id (now : Int) (last : Id) : Unnoticed now last fun e => e :=
  ⟨fun _ => rfl, fun _ => rfl, fun _ => rfl, fun _ => rfl, fun _ _ => rfl, fun _ _ => rfl⟩

/-- An action that always answers the same and changes nothing. -/
theorem steady_of_same {a : Action α} {r : Except StoreError α}
    (h : ∀ t, s.Retains t → a.perform t = (r, t)) : a.Steady s :=
  ⟨fun e => e, r, unnoticed_id _ _, fun t ht => by rw [mapEntries_id, h t ht]⟩

/-- A change by which a reader marks some of the listed entries. -/
theorem unnoticed_ite {now : Int} {last : Id} {p : Entry → Bool} {f : Entry → Entry}
    (hp : ∀ e e', e.Persists e' → p e' = p e) (hlater : ∀ e : Entry, last < e.id → p e = false)
    (hf : ∀ e, (f e).id = e.id ∧ (f e).userId = e.userId ∧ (f e).feedId = e.feedId
      ∧ (f e).hash = e.hash)
    (hrefreshed : ∀ c e, f (e.refreshed c now) = (f e).refreshed c now) :
    Unnoticed now last fun e => if p e then f e else e where
  id e := by rw [apply_ite Entry.id, (hf e).1, ite_self]
  userId e := by rw [apply_ite Entry.userId, (hf e).2.1, ite_self]
  feedId e := by rw [apply_ite Entry.feedId, (hf e).2.2.1, ite_self]
  hash e := by rw [apply_ite Entry.hash, (hf e).2.2.2, ite_self]
  refreshed c e := by
    have hsame : p (e.refreshed c now) = p e :=
      hp e _ ⟨rfl, rfl, rfl, rfl, rfl, rfl, rfl, rfl, rfl⟩
    rw [hsame]
    split
    · exact hrefreshed c e
    · rfl
  later e he := if_neg (by rw [hlater e he]; exact Bool.false_ne_true)

theorem steady_now_bind {f : Int → Action α} (h : (f s.now).Steady s) :
    (Action.now >>= f).Steady s := by
  obtain ⟨g, r, hg, hrun⟩ := h
  refine ⟨g, r, hg, fun t ht => ?_⟩
  rw [perform_bind, perform_now, ht.now]
  exact hrun t ht

/-- A statement that marks the same rows wherever it runs, if it is not refused there. -/
theorem steady_modify_bind {extent : Extent} {context : String} {statement : Statement}
    {p : Entry → Bool} {f : Entry → Entry} {w : Store → Except Fault (Nat × Store)}
    {k : Nat → Action α} {r : Nat → Except StoreError α}
    (hw : ∀ t, s.Retains t → w t.store = .ok (t.store.modifyEntries p f))
    (hk : ∀ n t, (k n).perform t = (r n, t))
    (hp : ∀ e e', e.Persists e' → p e' = p e)
    (hlater : ∀ e : Entry, s.store.entries.lastId < e.id → p e = false)
    (hf : ∀ e, (f e).id = e.id ∧ (f e).userId = e.userId ∧ (f e).feedId = e.feedId
      ∧ (f e).hash = e.hash)
    (hrefreshed : ∀ c e, f (e.refreshed c s.now) = (f e).refreshed c s.now) :
    (writeWithin extent context statement w >>= k).Steady s := by
  cases hr : s.refusal? statement extent with
  | some fault =>
      refine steady_of_same (r := .error (.ofFault context fault)) fun t ht => ?_
      rw [perform_bind, perform_writeWithin, ht.refusal?, hr]
  | none =>
      refine ⟨_, r (s.store.entries.count p), unnoticed_ite hp hlater hf hrefreshed,
        fun t ht => ?_⟩
      have hcount : t.store.entries.count p = s.store.entries.count p :=
        ht.countP_eq hp fun e he _ => hlater e he
      rw [perform_bind, perform_writeWithin, ht.refusal?, hr, hw t ht]
      refine (hk _ _).trans ?_
      rw [← hcount]
      rfl

/-- What is read after a change that it does not notice is what would have been read before. -/
theorem steady_bind_readWithin {β : Type} {a : Action β} {extent : Extent} {context : String}
    {tables : List TableName} {f : Store → Except Fault α} (ha : a.Steady s)
    (hf : ∀ t g, s.Retains t → Unnoticed s.now s.store.entries.lastId g →
      f (t.store.mapEntries g) = f s.store) :
    (a >>= fun _ => readWithin extent context tables f).Steady s := by
  obtain ⟨g, r, hg, hrun⟩ := ha
  cases r with
  | error e =>
      refine ⟨g, .error e, hg, fun t ht => ?_⟩
      rw [perform_bind, hrun t ht]
  | ok x =>
      refine ⟨g, ((readWithin extent context tables f).perform s).1, hg, fun t ht => ?_⟩
      have hsame : (t.mapEntries g).refusal? (.select tables) extent
          = s.refusal? (.select tables) extent := ht.refusal? _ _
      rw [perform_bind, hrun t ht]
      dsimp only
      rw [perform_readWithin, perform_readWithin, hsame,
        show f (t.mapEntries g).store = f s.store from hf t g ht hg]
      cases s.refusal? (.select tables) extent with
      | some fault => rfl
      | none => rfl

/-- An action that looks first at what a refresh does not change. -/
theorem steady_read_bind {β : Type} {context : String} {tables : List TableName} {f : Store → β}
    {k : β → Action α} (hf : ∀ t, s.Retains t → f t.store = f s.store)
    (hk : (k (f s.store)).Steady s) : (read context tables f >>= k).Steady s := by
  unfold read
  cases hr : s.refusal? (.select tables) {} with
  | some fault =>
      refine steady_of_same (r := .error (.ofFault context fault)) fun t ht => ?_
      rw [perform_bind, perform_readWithin, ht.refusal?, hr]
  | none =>
      obtain ⟨g, r, hg, hrun⟩ := hk
      refine ⟨g, r, hg, fun t ht => ?_⟩
      rw [perform_bind, perform_readWithin, ht.refusal?, hr]
      dsimp only
      rw [hf t ht]
      exact hrun t ht

theorem steady_bind_pure {β : Type} {a : Action β} (ha : a.Steady s) (x : α) :
    (a >>= fun _ => pure x).Steady s := by
  obtain ⟨g, r, hg, hrun⟩ := ha
  refine ⟨g, r.map fun _ => x, hg, fun t ht => ?_⟩
  rw [perform_bind, hrun t ht]
  cases r with
  | error e => rfl
  | ok y => rfl

/-! ### One call at a time -/

theorem isListed_of_later {e : Entry} {last : Id} (hids : ∀ i ∈ entries, i ≤ last)
    (he : last < e.id) : e.isListed user entries = false := by
  rw [Entry.isListed, Bool.and_eq_false_iff]
  refine Or.inr (Bool.eq_false_iff.2 fun hmem => ?_)
  exact Int.not_le.2 he (hids _ (List.contains_iff_mem.1 hmem))

theorem steady_setStatus (hids : ∀ i ∈ entries, i ≤ s.store.entries.lastId) (user : Id)
    (status : Status) : (setStatus user entries status).Steady s := by
  unfold setStatus
  split
  · exact steady_of_same fun _ _ => rfl
  · exact steady_now_bind (steady_modify_bind (fun _ _ => rfl) (fun _ _ => rfl)
      (fun _ _ h => h.isListed _ _) (fun _ => isListed_of_later hids)
      (fun _ => ⟨rfl, rfl, rfl, rfl⟩) fun _ _ => rfl)

/-- Counting what is shown comes after setting the status, and sees the same rows. -/
theorem steady_setStatusCount (hids : ∀ i ∈ entries, i ≤ s.store.entries.lastId) (user : Id)
    (status : Status) : (setStatusCount user entries status).Steady s := by
  unfold setStatusCount
  split
  · exact steady_of_same fun _ _ => rfl
  · refine steady_bind_readWithin (steady_setStatus hids user status) fun t g ht hg => ?_
    rw [hg.countShown, ht.countShown fun e => isListed_of_later hids]

theorem steady_setStar (hids : ∀ i ∈ entries, i ≤ s.store.entries.lastId) (user : Id)
    (starred : Bool) : (setStar user entries starred).Steady s := by
  unfold setStar
  split
  · exact steady_of_same fun _ _ => rfl
  · exact steady_now_bind (steady_modify_bind (fun _ _ => rfl) perform_orNothing
      (fun _ _ h => h.isListed _ _) (fun _ => isListed_of_later hids)
      (fun _ => ⟨rfl, rfl, rfl, rfl⟩) fun _ _ => rfl)

theorem isOwn_of_later {e : Entry} {last : Id} (hid : entry ≤ last) (he : last < e.id) :
    e.isOwn user entry = false := by
  rw [Entry.isOwn, Bool.and_eq_false_iff, beq_eq_false_iff_ne (a := e.id)]
  exact Or.inr (ne_of_gt (lt_of_le_of_lt hid he))

theorem steady_toggleStar (hid : entry ≤ s.store.entries.lastId) (user : Id) :
    (toggleStar user entry).Steady s := by
  unfold toggleStar change write
  exact steady_now_bind (steady_modify_bind (fun _ _ => rfl) perform_orNothing
    (fun _ _ h => h.isOwn _ _) (fun _ => isOwn_of_later hid)
    (fun _ => ⟨rfl, rfl, rfl, rfl⟩) fun _ _ => rfl)

/-- Another entry than this one carries the code, and there is this one. -/
def codeTaken (s : Store) (user entry : Id) (code : String) : Bool :=
  code != "" && s.entries.holds (Entry.isOwn user entry)
    && s.entries.holds fun e => !e.isOwn user entry && e.shareCode == code

/-- A code is taken after a refresh exactly if it was taken before: new entries carry none. -/
theorem codeTaken_of_retains (h : s.Retains t) (hid : entry ≤ s.store.entries.lastId) (user : Id)
    (code : String) : codeTaken t.store user entry code = codeTaken s.store user entry code := by
  unfold codeTaken
  by_cases hcode : code = ""
  · simp [hcode]
  · have hown : t.store.entries.holds (Entry.isOwn user entry)
        = s.store.entries.holds (Entry.isOwn user entry) :=
      h.any_eq (fun _ _ he => he.isOwn _ _) fun e he _ => isOwn_of_later hid he
    have hother : t.store.entries.holds (fun e => !e.isOwn user entry && e.shareCode == code)
        = s.store.entries.holds fun e => !e.isOwn user entry && e.shareCode == code := by
      refine h.any_eq (fun e e' he => by rw [he.isOwn, he.shareCode]) fun e _ he => ?_
      rw [he, Bool.and_eq_false_iff, beq_eq_false_iff_ne]
      exact Or.inr (Ne.symm hcode)
    rw [hown, hother]

theorem steady_storeShareCode (hid : entry ≤ s.store.entries.lastId) (user : Id) (code : String)
    {k : Nat → Action α} {r : Nat → Except StoreError α} (hk : ∀ n t, (k n).perform t = (r n, t))
    (context : String) (statement : Statement) :
    (write context statement (·.setShareCode user entry code) >>= k).Steady s := by
  have hset : ∀ t, s.Retains t → t.store.setShareCode user entry code
      = if codeTaken s.store user entry code then .error (.duplicate .shareCode)
        else .ok (t.store.modifyEntries (Entry.isOwn user entry) fun e =>
          { e with shareCode := code }) := fun t ht => by
    rw [← codeTaken_of_retains ht hid]
    rfl
  unfold write
  by_cases htaken : codeTaken s.store user entry code = true
  · simp only [if_pos htaken] at hset
    cases hr : s.refusal? statement {} with
    | some fault =>
        refine steady_of_same (r := .error (.ofFault context fault)) fun t ht => ?_
        rw [perform_bind, perform_writeWithin, ht.refusal?, hr]
    | none =>
        refine steady_of_same (r := .error (.ofFault context (.duplicate .shareCode)))
          fun t ht => ?_
        rw [perform_bind, perform_writeWithin, ht.refusal?, hr, hset t ht]
  · simp only [if_neg htaken] at hset
    exact steady_modify_bind hset hk (fun _ _ h => h.isOwn _ _) (fun _ => isOwn_of_later hid)
      (fun _ => ⟨rfl, rfl, rfl, rfl⟩) fun _ _ => rfl

theorem steady_share (hid : entry ≤ s.store.entries.lastId) (user : Id) (drawn : String) :
    (share user entry drawn).Steady s := by
  unfold share fetchShareCode
  refine steady_read_bind (fun t ht => ?_) ?_
  · exact ht.find?_eq (fun _ _ h => h.isOwn _ _) (fun _ _ h => h.shareCode)
      fun e he _ => isOwn_of_later hid he
  · cases s.store.shareCode? user entry with
    | none => exact steady_of_same fun _ _ => rfl
    | some code =>
        dsimp only
        split
        · exact steady_of_same fun _ _ => rfl
        · exact steady_bind_pure (steady_storeShareCode hid user drawn (fun _ _ => rfl) _ _) _

theorem steady_unshare (hid : entry ≤ s.store.entries.lastId) (user : Id) :
    (unshare user entry).Steady s :=
  steady_storeShareCode hid user "" perform_orNothing _ _

end Action

/-- A reader's call makes one change, the same before a refresh and after it. -/
theorem ReaderCall.steady (r : ReaderCall) {s : Session}
    (hids : ∀ i ∈ r.ids, i ≤ s.store.entries.lastId) : r.action.Steady s := by
  cases r with
  | setStatus user entries status => exact Action.steady_setStatus hids user status
  | setStatusCount user entries status => exact Action.steady_setStatusCount hids user status
  | setStar user entries starred => exact Action.steady_setStar hids user starred
  | toggleStar user entry =>
      exact Action.steady_toggleStar (hids entry (List.mem_singleton_self _)) user
  | share user entry drawn =>
      exact Action.steady_share (hids entry (List.mem_singleton_self _)) user drawn
  | unshare user entry => exact Action.steady_unshare (hids entry (List.mem_singleton_self _)) user

/-! ## In either order -/

/-- Neither action notices whether the other one has run before it, and the session is the same
after both, in whichever order. -/
structure Action.Commute {α β : Type} (a : Action α) (b : Action β) (s : Session) : Prop where
  first : (a.perform (b.perform s).2).1 = (a.perform s).1
  second : (b.perform (a.perform s).2).1 = (b.perform s).1
  session : (b.perform (a.perform s).2).2 = (a.perform (b.perform s).2).2

/-- A refresh, whether it goes through or fails midway, and a reader's call on entries that are
there before both give the same answers and leave the same tables and the same work behind, in
whichever order they run. -/
theorem Reachable.refreshFeed_commutes {s : Session} (hs : Reachable s) (user feed : Id)
    (cs : List Candidate) (update : Bool) (r : ReaderCall)
    (hids : ∀ i ∈ r.ids, s.store.hasEntry i = true) :
    Action.Commute (.refreshFeed user feed cs update) r.action s := by
  have hbound : ∀ i ∈ r.ids, i ≤ s.store.entries.lastId := fun i hi => by
    obtain ⟨e, he, rfl⟩ := Table.holds_id_iff.1 (hids i hi)
    exact hs.integrity.entries.bounded e he
  obtain ⟨g, answer, hg, hrun⟩ := r.steady hbound
  have hbefore := hrun s (.refl s)
  have hafter := hrun _ (.refreshFeed hs.integrity user feed cs update)
  have hoverlooks : (Action.refreshFeed user feed cs update).Overlooks g s :=
    hg.refreshFeed le_rfl cs
  unfold Action.Overlooks at hoverlooks
  refine ⟨?_, ?_, ?_⟩
  · rw [hbefore, hoverlooks]
  · rw [hbefore, hafter]
  · rw [hbefore, hoverlooks, hafter]

/-- A refresh that shows an entry again and adds one, and a reader who removes that entry. -/
theorem Reachable.refreshFeed_commutes_removal :
    (∀ i ∈ [1, 2], Session.published.store.hasEntry i = true)
      ∧ Action.Commute (.refreshFeed 1 1 [.bare "a" 10, .bare "d" 40] true)
          (.setStatusCount 1 [1, 2] .removed) .published := by
  have hids : ∀ i ∈ [1, 2], Session.published.store.hasEntry i = true := by decide +kernel
  exact ⟨hids, Reachable.refreshFeed_commutes (Reachable.subscribed.run _) 1 1 _ true
    (.setStatusCount 1 [1, 2] .removed) hids⟩

end FeedStore
