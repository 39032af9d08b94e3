import FeedStore.Proofs.Integrity

/-!
# Changes that a refresh does not notice

A refresh writes the columns of an entry that its feed supplies and stamps the row with the time. A
change of rows that it cannot tell from none is `Unnoticed`: it keeps what a refresh looks at, comes
to the same before and after an entry is shown again, and leaves later entries alone. Every
statement of a refresh answers the same after such a change and leaves the same change behind
(`Action.Overlooks`), and so does the refresh, whether it goes through or not
(`Unnoticed.refreshFeed`).
-/

namespace FeedStore

/-- The change keeps what a refresh looks at, comes to the same before and after an entry is shown
again, and leaves entries alone whose identifiers are given out later. -/
structure Unnoticed (now : Int) (last : Id) (g : Entry → Entry) : Prop where
  id : ∀ e, (g e).id = e.id
  userId : ∀ e, (g e).userId = e.userId
  feedId : ∀ e, (g e).feedId = e.feedId
  hash : ∀ e, (g e).hash = e.hash
  refreshed : ∀ c e, g (e.refreshed c now) = (g e).refreshed c now
  later : ∀ e : Entry, last < e.id → g e = e

namespace Table

variable {α : Type} {t : Table α} {g f : α → α} {p : α → Bool}

/-- The table after every row has been changed. -/
def mapRows (g : α → α) (t : Table α) : Table α := { t with rows := t.rows.map g }

theorem find?_mapRows (hp : ∀ r, p (g r) = p r) : (t.mapRows g).find? p = (t.find? p).map g := by
  unfold find? mapRows
  rw [List.find?_map, show p ∘ g = p from funext hp]

theorem holds_mapRows (hp : ∀ r, p (g r) = p r) : (t.mapRows g).holds p = t.holds p := by
  unfold holds mapRows
  rw [List.any_map]
  exact congrArg t.rows.any (funext hp)

/-- A new row that is not changed may as well be added before the others are changed. -/
theorem add_mapRows {make : Id → α} (hg : g (make (t.lastId + 1)) = make (t.lastId + 1)) :
    (t.mapRows g).add make = ((t.add make).1, (t.add make).2.mapRows g) := by
  unfold add mapRows
  dsimp only
  rw [List.map_append, List.map_singleton, hg]

theorem modify_mapRows (hp : ∀ r, p (g r) = p r) (hf : ∀ r, g (f r) = f (g r)) :
    (t.mapRows g).modify p f = (t.modify p f).mapRows g := by
  unfold modify mapRows
  dsimp only
  rw [List.map_map, List.map_map]
  refine congrArg (Table.mk · t.lastId) (List.map_congr_left fun r _ => ?_)
  rw [Function.comp_apply, Function.comp_apply, hp, apply_ite g, hf]

end Table

/-- The store after every entry has been changed. -/
def Store.mapEntries (g : Entry → Entry) (s : Store) : Store :=
  { s with entries := s.entries.mapRows g }

/-- The session after every entry has been changed. -/
def Session.mapEntries (g : Entry → Entry) (s : Session) : Session :=
  { s with store := s.store.mapEntries g }

namespace Action

variable {α β : Type} {g : Entry → Entry} {s : Session}

/-- The action answers the same after the change, and leaves the same change behind. -/
def Overlooks (a : Action α) (g : Entry → Entry) (s : Session) : Prop :=
  a.perform (s.mapEntries g) = ((a.perform s).1, (a.perform s).2.mapEntries g)

theorem overlooks_pure (a : α) : (pure a : Action α).Overlooks g s := rfl

theorem overlooks_throw (e : StoreError) : (throw e : Action α).Overlooks g s := rfl

theorem overlooks_bind {a : Action α} {f : α → Action β} (ha : a.Overlooks g s)
    (hf : ∀ x t, a.perform s = (.ok x, t) → (f x).Overlooks g t) : (a >>= f).Overlooks g s := by
  unfold Overlooks at ha ⊢
  rw [perform_bind, perform_bind, ha]
  cases h : a.perform s with
  | mk r t =>
      cases r with
      | error e => rfl
      | ok x => exact hf x t h

theorem overlooks_now_bind {f : Int → Action β} (hf : (f s.now).Overlooks g s) :
    (Action.now >>= f).Overlooks g s :=
  overlooks_bind rfl fun x t h => by
    obtain ⟨rfl, rfl⟩ : s.now = x ∧ s = t := by simpa using h
    exact hf

theorem overlooks_readWithin {extent : Extent} {context : String} {tables : List TableName}
    {f : Store → Except Fault α} (hf : f (s.store.mapEntries g) = f s.store) :
    (readWithin extent context tables f).Overlooks g s := by
  unfold Overlooks
  rw [perform_readWithin, perform_readWithin]
  have hsame : (s.mapEntries g).refusal? (.select tables) extent
      = s.refusal? (.select tables) extent := rfl
  rw [hsame]
  cases s.refusal? (.select tables) extent with
  | some fault => rfl
  | none =>
      dsimp only
      rw [show f (s.mapEntries g).store = f s.store from hf]

theorem overlooks_read {context : String} {tables : List TableName} {f : Store → α}
    (hf : f (s.store.mapEntries g) = f s.store) : (read context tables f).Overlooks g s :=
  overlooks_readWithin (congrArg Except.ok hf)

theorem overlooks_write {context : String} {statement : Statement}
    {f : Store → Except Fault (α × Store)}
    (hf : f (s.store.mapEntries g) = (f s.store).map fun r => (r.1, r.2.mapEntries g)) :
    (write context statement f).Overlooks g s := by
  unfold Overlooks write
  rw [perform_writeWithin, perform_writeWithin]
  have hsame : (s.mapEntries g).refusal? statement {} = s.refusal? statement {} := rfl
  rw [hsame]
  cases s.refusal? statement {} with
  | some fault => rfl
  | none =>
      dsimp only
      rw [show f (s.mapEntries g).store = _ from hf]
      cases f s.store with
      | error fault => rfl
      | ok r => rfl

theorem overlooks_change {context : String} {statement : Statement} {f : Store → α × Store}
    (hf : f (s.store.mapEntries g) = ((f s.store).1, (f s.store).2.mapEntries g)) :
    (change context statement f).Overlooks g s :=
  overlooks_write (congrArg Except.ok hf)

theorem overlooks_transaction {purpose : Purpose} {body : Action α} (h : body.Overlooks g s) :
    (transaction purpose body).Overlooks g s := by
  unfold Overlooks at h ⊢
  rw [perform_transaction, perform_transaction, h]
  have hsame : (s.mapEntries g).access = s.access := rfl
  rw [hsame]
  split
  · cases body.perform s with
    | mk r t =>
        cases r with
        | error e => rfl
        | ok a => rfl
  · rfl

end Action

/-! ## Statements of a refresh -/

namespace Unnoticed

open Table

variable {now : Int} {last : Id} {g : Entry → Entry}

/-! ### What they do to the tables -/

theorem isItem (h : Unnoticed now last g) (feed : Id) (hash : String) (e : Entry) :
    (g e).isItem feed hash = e.isItem feed hash := by
  rw [Entry.isItem, Entry.isItem, h.feedId, h.hash]

theorem item?_isSome (h : Unnoticed now last g) (s : Store) (feed : Id) (hash : String) :
    ((s.mapEntries g).item? feed hash).isSome = (s.item? feed hash).isSome := by
  unfold Store.item? Store.mapEntries
  rw [find?_mapRows (h.isItem feed hash), Option.isSome_map]

theorem addEntry (h : Unnoticed now last g) {s : Store} (hlast : last ≤ s.entries.lastId)
    (user feed : Id) (c : Candidate) (time : Int) :
    (s.mapEntries g).addEntry user feed c time
      = (s.addEntry user feed c time).map fun r => (r.1, r.2.mapEntries g) := by
  have hrow := h.later (c.toEntry user feed time (s.entries.lastId + 1))
    (Int.lt_add_one_of_le hlast)
  unfold Store.addEntry Store.mapEntries
  rw [add_mapRows hrow]
  show (if !s.hasUser user || !s.hasFeed feed then _ else _) = _
  split
  · rfl
  · rfl

theorem putEnclosure (h : Unnoticed now last g) (s : Store) (user entry : Id)
    (url mimeType : String) (size : Int) :
    (s.mapEntries g).putEnclosure user entry url mimeType size
      = (s.putEnclosure user entry url mimeType size).map fun r => (r.1, r.2.mapEntries g) := by
  have hentry : (s.mapEntries g).hasEntry entry = s.hasEntry entry :=
    holds_mapRows fun e => by rw [h.id]
  have huser : (s.mapEntries g).hasUser user = s.hasUser user := rfl
  have hfind : (s.mapEntries g).enclosures.find? (Store.isEnclosure entry url)
      = s.enclosures.find? (Store.isEnclosure entry url) := rfl
  unfold Store.putEnclosure
  rw [hentry, huser, hfind]
  cases s.enclosures.find? (Store.isEnclosure entry url) with
  | some x => rfl
  | none =>
      dsimp only
      split
      · rfl
      · rfl

theorem refreshEntry (h : Unnoticed now last g) (s : Store) (user feed : Id) (c : Candidate) :
    (s.mapEntries g).refreshEntry user feed c now
      = ((s.refreshEntry user feed c now).1, (s.refreshEntry user feed c now).2.mapEntries g) := by
  have hp : ∀ e, ((g e).userId == user && (g e).isItem feed c.hash)
      = (e.userId == user && e.isItem feed c.hash) := fun e => by rw [h.userId, h.isItem]
  have hid : (fun e : Entry => e.id) ∘ g = fun e => e.id := funext h.id
  unfold Store.refreshEntry Store.modifyEntries Store.mapEntries
  dsimp only
  rw [find?_mapRows hp, modify_mapRows hp (h.refreshed c), Option.map_map, hid]

/-- An entry whose identifier is given out later looks the same. -/
theorem listedEntry (h : Unnoticed now last g) (s : Store) {id : Id} (hid : last < id) :
    (s.mapEntries g).listedEntry id = s.listedEntry id := by
  have hfind : (s.mapEntries g).entries.find? (·.id == id) = s.entries.find? (·.id == id) := by
    refine (find?_mapRows fun e => by rw [h.id]).trans ?_
    cases he : s.entries.find? (·.id == id) with
    | none => rfl
    | some e =>
        have heid : e.id = id := by simpa using List.find?_some he
        rw [Option.map_some, h.later e (heid ▸ hid)]
  unfold Store.listedEntry
  rw [hfind]
  rfl

/-! ### What they answer -/

open FeedStore.Action

variable {s : Session} {user feed : Id} {update : Bool}

theorem putEnclosures (h : Unnoticed now last g) (user entry : Id) (offers : List EnclosureOffer)
    (stored : List Enclosure) : (putEnclosures user entry offers stored).Overlooks g s := by
  induction offers generalizing stored s with
  | nil => exact overlooks_pure stored
  | cons offer offers ih =>
      unfold Action.putEnclosures
      dsimp only
      split
      · exact ih stored
      · exact overlooks_bind (overlooks_write (h.putEnclosure _ _ _ _ _ _)) fun x t _ => ih _

theorem updateEnclosures (h : Unnoticed now last g) (user entry : Id)
    (offers : List EnclosureOffer) : (updateEnclosures user entry offers).Overlooks g s := by
  unfold Action.updateEnclosures
  split
  · exact overlooks_pure ()
  · refine overlooks_bind (h.putEnclosures user entry offers []) fun stored t _ => ?_
    exact overlooks_bind (overlooks_change rfl) fun _ u _ => overlooks_pure ()

theorem fetchEntry (h : Unnoticed now last g) {id : Id} (hid : last < id) :
    (fetchEntry id).Overlooks g s := by
  unfold Action.fetchEntry
  refine overlooks_bind (overlooks_readWithin (h.listedEntry _ hid)) fun l t _ => ?_
  cases l.view with
  | ok view => exact overlooks_pure view
  | error e => exact overlooks_throw e

theorem createEntry (h : Unnoticed now last g) (hlast : last ≤ s.store.entries.lastId)
    (c : Candidate) : (createEntry user feed c).Overlooks g s := by
  unfold Action.createEntry
  refine overlooks_now_bind (overlooks_bind (overlooks_write (h.addEntry hlast _ _ _ _))
    fun id t hwrite => ?_)
  obtain ⟨store, hadd, rfl⟩ := of_perform_write hwrite
  obtain ⟨-, -, rfl, rfl⟩ := Store.of_addEntry hadd
  refine overlooks_bind (h.putEnclosures user _ c.enclosures []) fun xs u _ => ?_
  exact overlooks_bind (h.fetchEntry (Int.lt_add_one_of_le hlast)) fun view v _ => overlooks_pure _

theorem updateEntry (h : Unnoticed s.now last g) (c : Candidate) :
    (updateEntry user feed c).Overlooks g s := by
  unfold Action.updateEntry
  refine overlooks_now_bind (overlooks_bind (overlooks_change (h.refreshEntry _ _ _ c))
    fun id t _ => ?_)
  cases id with
  | none => exact overlooks_throw _
  | some id => exact h.updateEnclosures user id c.enclosures

theorem reconcile (h : Unnoticed s.now last g) (hlast : last ≤ s.store.entries.lastId)
    (c : Candidate) : (reconcile user feed update c).Overlooks g s := by
  unfold Action.reconcile itemExists
  refine overlooks_bind (overlooks_read (h.item?_isSome _ _ _)) fun found t hread => ?_
  obtain ⟨-, rfl⟩ := of_perform_read hread
  split
  · split
    · exact overlooks_bind (h.updateEntry c) fun _ u _ => overlooks_pure none
    · exact overlooks_pure none
  · exact overlooks_bind (h.createEntry hlast c) fun view u _ => overlooks_pure _

/-- Identifiers only count up, so what is given out later stays so candidate by candidate. -/
theorem reconcileAll (h : Unnoticed s.now last g) (hlast : last ≤ s.store.entries.lastId)
    (cs : List Candidate) : (reconcileAll user feed update cs).Overlooks g s := by
  induction cs generalizing s with
  | nil => exact overlooks_pure []
  | cons c cs ih =>
      unfold Action.reconcileAll
      refine overlooks_bind (overlooks_transaction (h.reconcile hlast c)) fun created t hrun => ?_
      have hev : s.Evolves t :=
        (evolves_transaction (evolves_reconcile user feed update c s)).of_perform hrun
      refine overlooks_bind (ih (hev.now ▸ h) ?_) fun more u _ => overlooks_pure _
      exact hlast.trans hev.store.counted.entries

/-- A refresh overlooks the change, whether it goes through or not. -/
theorem refreshFeed (h : Unnoticed s.now last g) (hlast : last ≤ s.store.entries.lastId)
    (cs : List Candidate) : (refreshFeed user feed cs update).Overlooks g s := by
  unfold Action.refreshFeed
  refine overlooks_bind (h.reconcileAll hlast cs) fun created t _ => ?_
  exact overlooks_bind (by rfl) fun _ u _ => overlooks_pure created

end Unnoticed

end FeedStore
