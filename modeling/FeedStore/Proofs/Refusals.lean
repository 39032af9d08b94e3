import FeedStore.Proofs.FeedRemoval

/-!
# What writes are refused for

A write on single rows, or on listed ones, succeeds or says why it does not, and then nothing has
happened. Each of these commands is refused on stated terms (`Command.terms?`): what is created has
to have a name that is not taken and to refer to rows that are there, in this order, and what is
changed or taken away has to be there. A command obeys its terms (`Command.obeys`): without the
engine in the way it ends in an error if and only if the terms say so, with that very error, and
after an error, also one of the engine, the session is as it was.
-/

namespace FeedStore

/-! ## Terms -/

/-- The terms on which a write is refused. What is created must not be blank or taken or refer to
nothing; what is changed or taken away must not be missing; and a list of identifiers must not be
too long to be bound. -/
inductive Terms where
  | creates (reason context : String) (key : UniqueKey) (blank taken dangling : Prop)
  | reaches (missing : Prop)
  | reachesAll (context : String) (ids : List Id) (missing : Prop)

/-- The error that the terms call for. -/
inductive Terms.Refuse : Terms → StoreError → Prop
  | blank {reason context : String} {key : UniqueKey} {blank taken dangling : Prop} (h : blank) :
      Refuse (.creates reason context key blank taken dangling) (.invalidInput reason)
  | taken {reason context : String} {key : UniqueKey} {blank taken dangling : Prop}
      (hblank : ¬ blank) (h : taken) :
      Refuse (.creates reason context key blank taken dangling)
        (.conflict context (.duplicate key))
  | dangling {reason context : String} {key : UniqueKey} {blank taken dangling : Prop}
      (hblank : ¬ blank) (htaken : ¬ taken) (h : dangling) :
      Refuse (.creates reason context key blank taken dangling) (.query context .foreignKey)
  | missing {missing : Prop} (h : missing) : Refuse (.reaches missing) .nothingUpdated
  | tooMany {context : String} {ids : List Id} {missing : Prop} (h : maxValues < ids.length + 3) :
      Refuse (.reachesAll context ids missing) (.query context .tooManyValues)
  | missingAll {context : String} {ids : List Id} {missing : Prop}
      (hbound : ids.length + 3 ≤ maxValues) (h : missing) :
      Refuse (.reachesAll context ids missing) .nothingUpdated

namespace Command

/-- The terms of a command that creates, changes or takes away rows by name. -/
def terms? (c : Command) (s : Store) : Option Terms :=
  match c with
  | createUser username =>
    let name := Text.trim username
    some (.creates "username cannot be empty" ("unable to create user " ++ Text.quoted name)
      .username (name = "") (∃ u ∈ s.users.rows, u.username = name) False)
  | createCategory user title _ =>
    let title := Action.cleanTitle title
    some (.creates "category title cannot be empty"
      ("unable to create category " ++ Text.quoted title) .categoryTitle (title = "")
      (∃ c ∈ s.categories.rows, c.userId = user ∧ c.title = title)
      (∀ u ∈ s.users.rows, u.id ≠ user))
  | createFeed user offer =>
    let address := Text.trim offer.feedUrl
    some (.creates "feed URL cannot be empty" ("unable to create feed " ++ Text.quoted address)
      .feedUrl (address = "") (∃ f ∈ s.feeds.rows, f.userId = user ∧ f.feedUrl = address)
      ((∀ u ∈ s.users.rows, u.id ≠ user) ∨ ∀ c ∈ s.categories.rows, c.id ≠ offer.categoryId))
  | removeUser user => some (.reaches (∀ u ∈ s.users.rows, u.id ≠ user))
  | hideCategory user category _ | removeCategory user category =>
    some (.reaches (∀ c ∈ s.categories.rows, ¬ (c.userId = user ∧ c.id = category)))
  | hideFeed user feed _ | updateFetchState user feed _ | recordFeedError user feed _ _ =>
    some (.reaches (∀ f ∈ s.feeds.rows, ¬ (f.userId = user ∧ f.id = feed)))
  | updateText user entry _ _ _ | toggleStar user entry | unshare user entry =>
    some (.reaches (∀ e ∈ s.entries.rows, ¬ (e.userId = user ∧ e.id = entry)))
  | updateProgression user enclosure _ =>
    some (.reaches (∀ x ∈ s.enclosures.rows, ¬ (x.userId = user ∧ x.id = enclosure)))
  | setStatus _ ids _ =>
    some (.reachesAll ("unable to update entries statuses " ++ idList ids) ids False)
  | setStar user ids _ =>
    some (.reachesAll ("unable to update bookmark state " ++ idList ids) ids
      (ids ≠ [] ∧ ∀ e ∈ s.entries.rows, ¬ (e.userId = user ∧ e.id ∈ ids)))
  | _ => none

end Command

/-! ## Errors of actions -/

theorem Session.Ready.refusal?_of_lt {s : Session} (hr : s.Ready) {statement : Statement}
    {extent : Extent} (hlt : maxValues < extent.values) :
    s.refusal? statement extent = some .tooManyValues := by
  unfold Session.refusal?
  rw [show s.access = {} from hr, if_neg (by decide), if_pos hlt]

namespace Action

variable {α β : Type}

/-- The error that the action ends in, if it does not succeed. -/
def error? (a : Action α) (s : Session) : Option StoreError :=
  match (a.perform s).1 with
  | .ok _ => none
  | .error e => some e

/-- An error leaves the session as it was, and without the engine in the way the errors are those
that the terms call for. -/
structure Obeys (a : Action α) (τ : Terms) (s : Session) : Prop where
  atomic : a.error? s ≠ none → (a.perform s).2 = s
  exact : s.Ready → ∀ e, a.error? s = some e ↔ τ.Refuse e

variable {a b : Action α} {τ : Terms} {s : Session} {context : String} {statement : Statement}

theorem error?_of_perform_ok {x : α} {t : Session} (h : a.perform s = (.ok x, t)) :
    a.error? s = none := by
  unfold error?
  rw [h]

theorem error?_of_perform_error {e : StoreError} {t : Session}
    (h : a.perform s = (.error e, t)) : a.error? s = some e := by
  unfold error?
  rw [h]

theorem Obeys.congr (h : b.Obeys τ s) (heq : a.perform s = b.perform s) : a.Obeys τ s := by
  refine ⟨?_, ?_⟩
  · unfold error?
    rw [heq]
    exact h.atomic
  · unfold error?
    rw [heq]
    exact h.exact

theorem obeys_now_bind {f : Int → Action α} (h : (f s.now).Obeys τ s) :
    (now >>= f).Obeys τ s :=
  h.congr (by rw [perform_bind]; rfl)

/-! ### Creating -/

variable {reason : String} {key : UniqueKey} {blank taken dangling missing : Prop}

theorem atomic_write {f : Store → Except Fault (α × Store)}
    (h : (write context statement f).error? s ≠ none) :
    ((write context statement f).perform s).2 = s := by
  unfold error? write at h
  unfold write
  rw [perform_writeWithin] at h ⊢
  cases hrefusal : s.refusal? statement {} with
  | some fault => rfl
  | none =>
      rw [hrefusal] at h
      dsimp only at h ⊢
      cases hf : f s.store with
      | error fault => rfl
      | ok r =>
          rw [hf] at h
          exact absurd rfl h

theorem error?_write (hr : s.Ready) {f : Store → Except Fault (α × Store)} {e : StoreError} :
    (write context statement f).error? s = some e
      ↔ ∃ fault, f s.store = .error fault ∧ .ofFault context fault = e := by
  unfold error? write
  rw [perform_writeWithin, hr.refusal? _ .empty]
  dsimp only
  cases f s.store with
  | error fault => simp
  | ok r => simp

/-- A row is added unless it is refused for the key or for the rows that it refers to. -/
theorem obeys_write {f : Store → Except Fault (α × Store)}
    (hf : ∀ fault, f s.store = .error fault
      ↔ taken ∧ fault = .duplicate key ∨ ¬ taken ∧ dangling ∧ fault = .foreignKey) :
    (write context statement f).Obeys (.creates reason context key False taken dangling) s := by
  refine ⟨atomic_write, fun hr e => ?_⟩
  rw [error?_write hr]
  constructor
  · rintro ⟨fault, hfault, rfl⟩
    rcases (hf fault).1 hfault with ⟨htaken, rfl⟩ | ⟨hfree, hdangling, rfl⟩
    · exact .taken not_false htaken
    · exact .dangling not_false hfree hdangling
  · intro h
    cases h with
    | blank h => exact h.elim
    | taken hblank h => exact ⟨_, (hf _).2 (Or.inl ⟨h, rfl⟩), rfl⟩
    | dangling hblank htaken h => exact ⟨_, (hf _).2 (Or.inr ⟨htaken, h, rfl⟩), rfl⟩

/-- What is blank is turned down first. -/
theorem obeys_guard [Decidable blank] {k : β → Action α}
    (h : a.Obeys (.creates reason context key False taken dangling) s) :
    (if blank then (throw (.invalidInput reason) : Action β) >>= k else a).Obeys
      (.creates reason context key blank taken dangling) s := by
  by_cases hblank : blank
  · rw [if_pos hblank]
    refine ⟨fun _ => rfl, fun _ e => ?_⟩
    have herror : ((throw (.invalidInput reason) : Action β) >>= k).error? s
        = some (.invalidInput reason) := rfl
    rw [herror, Option.some.injEq]
    constructor
    · rintro rfl
      exact .blank hblank
    · intro h
      cases h with
      | blank h => rfl
      | taken hnot h => exact absurd hblank hnot
      | dangling hnot htaken h => exact absurd hblank hnot
  · rw [if_neg hblank]
    refine ⟨h.atomic, fun hr e => (h.exact hr e).trans ⟨fun h => ?_, fun h => ?_⟩⟩
    · cases h with
      | blank h => exact h.elim
      | taken hnot h => exact .taken hblank h
      | dangling hnot htaken h => exact .dangling hblank htaken h
    · cases h with
      | blank h => exact absurd h hblank
      | taken hnot h => exact .taken not_false h
      | dangling hnot htaken h => exact .dangling not_false htaken h

/-! ### Changing and taking away -/

/-- The action changes nothing, and ends in an error if and only if something is missing. -/
def Judges (a : Action α) (missing : Prop) : Prop :=
  ∀ s, missing ∧ a.perform s = (.error .nothingUpdated, s)
    ∨ ¬ missing ∧ ∃ x, a.perform s = (.ok x, s)

theorem judges_pure (x : α) : (pure x : Action α).Judges False :=
  fun _ => Or.inr ⟨not_false, x, rfl⟩

theorem judges_orNothing {n : Nat} (h : n = 0 ↔ missing) : (orNothing n).Judges missing := by
  intro s
  rw [perform_orNothing]
  by_cases hzero : n = 0
  · rw [if_pos hzero]
    exact Or.inl ⟨h.1 hzero, rfl⟩
  · rw [if_neg hzero]
    exact Or.inr ⟨fun hmissing => hzero (h.2 hmissing), (), rfl⟩

theorem Judges.error?_eq_some_iff (h : a.Judges missing) {e : StoreError} :
    a.error? s = some e ↔ missing ∧ e = .nothingUpdated := by
  rcases h s with ⟨hmissing, hrun⟩ | ⟨hthere, x, hrun⟩
  · rw [error?_of_perform_error hrun, Option.some.injEq]
    exact ⟨fun heq => ⟨hmissing, heq.symm⟩, fun heq => heq.2.symm⟩
  · rw [error?_of_perform_ok hrun]
    exact ⟨fun heq => (Option.some_ne_none e heq.symm).elim, fun heq => absurd heq.1 hthere⟩

theorem perform_writeWithin_bind (extent : Extent) (context : String) (statement : Statement)
    (f : Store → β × Store) (k : β → Action α) (s : Session) :
    (writeWithin extent context statement (fun s => .ok (f s)) >>= k).perform s
      = match s.refusal? statement extent with
        | some fault => (.error (.ofFault context fault), s)
        | none => (k (f s.store).1).perform { s with store := (f s.store).2 } := by
  rw [perform_bind, perform_writeWithin]
  cases s.refusal? statement extent with
  | some fault => rfl
  | none => rfl

/-- Rows are written, and then it is judged whether there were any. -/
theorem atomic_writeWithin_bind {extent : Extent} {f : Store → β × Store} {k : β → Action α}
    (hk : (k (f s.store).1).Judges missing) (hsame : missing → (f s.store).2 = s.store)
    (h : (writeWithin extent context statement (fun s => .ok (f s)) >>= k).error? s ≠ none) :
    ((writeWithin extent context statement (fun s => .ok (f s)) >>= k).perform s).2 = s := by
  unfold error? at h
  rw [perform_writeWithin_bind] at h ⊢
  cases hrefusal : s.refusal? statement extent with
  | some fault => rfl
  | none =>
      rw [hrefusal] at h
      dsimp only at h ⊢
      rcases hk { s with store := (f s.store).2 } with ⟨hmissing, hrun⟩ | ⟨-, x, hrun⟩
      · rw [hrun, hsame hmissing]
      · rw [hrun] at h
        exact absurd rfl h

theorem error?_writeWithin_bind {extent : Extent} {f : Store → β × Store} {k : β → Action α}
    (hrefusal : s.refusal? statement extent = none) :
    (writeWithin extent context statement (fun s => .ok (f s)) >>= k).error? s
      = (k (f s.store).1).error? { s with store := (f s.store).2 } := by
  unfold error?
  rw [perform_writeWithin_bind, hrefusal]

theorem obeys_change {f : Store → β × Store} {k : β → Action α}
    (hk : (k (f s.store).1).Judges missing) (hsame : missing → (f s.store).2 = s.store) :
    (change context statement f >>= k).Obeys (.reaches missing) s := by
  refine ⟨atomic_writeWithin_bind hk hsame, fun hr e => ?_⟩
  refine (iff_of_eq (congrArg (· = some e)
    (error?_writeWithin_bind (hr.refusal? _ .empty)))).trans ?_
  rw [hk.error?_eq_some_iff]
  constructor
  · rintro ⟨hmissing, rfl⟩
    exact .missing hmissing
  · intro h
    cases h with
    | missing h => exact ⟨h, rfl⟩

theorem obeys_pure (x : α) {ids : List Id} (hbound : ids.length + 3 ≤ maxValues)
    (hthere : ¬ missing) : (pure x : Action α).Obeys (.reachesAll context ids missing) s := by
  refine ⟨fun h => absurd rfl h, fun _ e => iff_of_false (Option.some_ne_none e).symm fun h => ?_⟩
  cases h with
  | tooMany h => exact absurd hbound (Nat.not_le.2 h)
  | missingAll _ h => exact hthere h

theorem obeys_writeWithin {ids : List Id} {f : Store → β × Store} {k : β → Action α}
    (hk : (k (f s.store).1).Judges missing) (hsame : missing → (f s.store).2 = s.store) :
    (writeWithin { values := ids.length + 3 } context statement (fun s => .ok (f s)) >>= k).Obeys
      (.reachesAll context ids missing) s := by
  refine ⟨atomic_writeWithin_bind hk hsame, fun hr e => ?_⟩
  rcases Nat.lt_or_ge maxValues (ids.length + 3) with hlt | hbound
  · have hrefusal : s.refusal? statement { values := ids.length + 3 } = some .tooManyValues :=
      hr.refusal?_of_lt hlt
    have herror : (writeWithin { values := ids.length + 3 } context statement
        (fun s => .ok (f s)) >>= k).error? s = some (.query context .tooManyValues) := by
      unfold error?
      rw [perform_writeWithin_bind, hrefusal]
      rfl
    rw [herror, Option.some.injEq]
    constructor
    · rintro rfl
      exact .tooMany hlt
    · intro h
      cases h with
      | tooMany h => rfl
      | missingAll hbound h => exact absurd hbound (Nat.not_le.2 hlt)
  · rw [error?_writeWithin_bind (hr.refusal? _ (.of_values hbound)), hk.error?_eq_some_iff]
    constructor
    · rintro ⟨hmissing, rfl⟩
      exact .missingAll hbound hmissing
    · intro h
      cases h with
      | tooMany h => exact absurd hbound (Nat.not_le.2 h)
      | missingAll _ h => exact ⟨h, rfl⟩

end Action

/-! ## Rows that are not there -/

namespace Store

open Table

variable {s : Store}

theorem count_ownCategory_eq_zero_iff {user category : Id} :
    s.categories.count (ownCategory user category) = 0
      ↔ ∀ c ∈ s.categories.rows, ¬ (c.userId = user ∧ c.id = category) :=
  count_eq_zero_iff fun _ => ownCategory_iff

theorem count_ownFeed_eq_zero_iff {user feed : Id} :
    s.feeds.count (ownFeed user feed) = 0
      ↔ ∀ f ∈ s.feeds.rows, ¬ (f.userId = user ∧ f.id = feed) :=
  count_eq_zero_iff fun _ => ownFeed_iff

theorem modifyFeed_eq_self {user feed : Id} {f : Feed → Feed}
    (h : (s.modifyFeed user feed f).1 = 0) : (s.modifyFeed user feed f).2 = s := by
  unfold modifyFeed
  rw [modify_of_count_eq_zero f h]

theorem modifyEntries_eq_self {p : Entry → Bool} {f : Entry → Entry}
    (h : (s.modifyEntries p f).1 = 0) : (s.modifyEntries p f).2 = s := by
  unfold modifyEntries
  rw [modify_of_count_eq_zero f h]

theorem eraseCategories_eq_self {p : Category → Bool}
    (h : ∀ c ∈ s.categories.rows, p c = false) : s.eraseCategories p = s := by
  have hids : s.categoryIds p = [] := by
    unfold categoryIds select
    rw [List.filter_eq_nil_iff.2 fun c hc => Bool.eq_false_iff.1 (h c hc), List.map_nil]
  unfold eraseCategories
  rw [hids, erase_eq_self h]
  show s.eraseFeeds (fun _ => false) = s
  exact eraseFeeds_eq_self fun _ _ => rfl

/-- What belongs to a user who is not there does not exist. -/
theorem eraseUser_eq_self (hs : s.Integrity) {user : Id} (h : ∀ u ∈ s.users.rows, u.id ≠ user) :
    s.eraseUser user = s := by
  have hgone : ∀ {i : Id}, s.hasUser i = true → i ≠ user := by
    rintro i hi rfl
    obtain ⟨u, hu, hid⟩ := holds_id_iff.1 hi
    exact h u hu hid
  have husers : ∀ u ∈ s.users.rows, (u.id == user) = false := fun u hu =>
    beq_eq_false_iff_ne.2 (h u hu)
  have hcategories : ∀ c ∈ s.categories.rows, categoryGoesWith user c = false := fun c hc =>
    beq_eq_false_iff_ne.2 (hgone (hs.categoryUser c hc))
  have hfeeds : ∀ f ∈ s.feeds.rows, feedGoesWith user [] f = false := fun f hf =>
    Bool.or_eq_false_iff.2 ⟨beq_eq_false_iff_ne.2 (hgone (hs.feedUser f hf)), rfl⟩
  have hentries : ∀ e ∈ s.entries.rows, entryGoesWith user [] e = false := fun e he =>
    Bool.or_eq_false_iff.2 ⟨beq_eq_false_iff_ne.2 (hgone (hs.entryUser e he)), rfl⟩
  have henclosures : ∀ x ∈ s.enclosures.rows, enclosureGoesWith user [] x = false := fun x hx =>
    Bool.or_eq_false_iff.2 ⟨beq_eq_false_iff_ne.2 (hgone (hs.enclosureUser x hx)), rfl⟩
  have hids : s.categoryIds (categoryGoesWith user) = []
      ∧ s.feedIds (feedGoesWith user []) = [] ∧ s.entryIds (entryGoesWith user []) = [] := by
    unfold categoryIds feedIds entryIds select
    rw [List.filter_eq_nil_iff.2 fun c hc => Bool.eq_false_iff.1 (hcategories c hc),
      List.filter_eq_nil_iff.2 fun f hf => Bool.eq_false_iff.1 (hfeeds f hf),
      List.filter_eq_nil_iff.2 fun e he => Bool.eq_false_iff.1 (hentries e he)]
    exact ⟨rfl, rfl, rfl⟩
  obtain ⟨hcategoryIds, hfeedIds, hentryIds⟩ := hids
  unfold eraseUser
  simp only [hcategoryIds, hfeedIds, hentryIds, erase_eq_self husers, erase_eq_self hcategories,
    erase_eq_self hfeeds, erase_eq_self hentries, erase_eq_self henclosures]

/-! ## Rows that cannot be added -/

/-- A row that is taken is refused for that, even if it also refers to nothing. -/
theorem guards_eq_error_iff {α : Type} {taken dangling : Bool} {T D : Prop} {key : UniqueKey}
    {r : α} {fault : Fault} (htaken : taken = true ↔ T) (hdangling : dangling = true ↔ D) :
    (if taken then .error (.duplicate key) else if dangling then .error .foreignKey else .ok r
        : Except Fault α) = .error fault
      ↔ T ∧ fault = .duplicate key ∨ ¬ T ∧ D ∧ fault = .foreignKey := by
  rw [← htaken, ← hdangling]
  cases taken with
  | true => simp [eq_comm]
  | false =>
      cases dangling with
      | true => simp [eq_comm]
      | false => simp

theorem not_hasUser_iff {user : Id} :
    (!s.hasUser user) = true ↔ ∀ u ∈ s.users.rows, u.id ≠ user := by
  rw [Bool.not_eq_true', Bool.eq_false_iff, Ne, hasUser, holds_id_iff]
  simp

theorem not_hasCategory_iff {category : Id} :
    (!s.hasCategory category) = true ↔ ∀ c ∈ s.categories.rows, c.id ≠ category := by
  rw [Bool.not_eq_true', Bool.eq_false_iff, Ne, hasCategory, holds_id_iff]
  simp

theorem addUser_eq_error_iff {name : String} {now : Int} {fault : Fault} :
    s.addUser name now = .error fault
      ↔ (∃ u ∈ s.users.rows, u.username = name) ∧ fault = .duplicate .username
        ∨ ¬ (∃ u ∈ s.users.rows, u.username = name) ∧ False ∧ fault = .foreignKey :=
  guards_eq_error_iff (by simp [holds_iff]) (iff_of_false Bool.false_ne_true not_false)

theorem addCategory_eq_error_iff {user : Id} {title : String} {hide : Bool} {fault : Fault} :
    s.addCategory user title hide = .error fault
      ↔ (∃ c ∈ s.categories.rows, c.userId = user ∧ c.title = title)
          ∧ fault = .duplicate .categoryTitle
        ∨ ¬ (∃ c ∈ s.categories.rows, c.userId = user ∧ c.title = title)
          ∧ (∀ u ∈ s.users.rows, u.id ≠ user) ∧ fault = .foreignKey :=
  guards_eq_error_iff (by simp [holds_iff]) not_hasUser_iff

theorem addFeed_eq_error_iff {user : Id} {offer : FeedOffer} {fault : Fault} :
    s.addFeed user offer = .error fault
      ↔ (∃ f ∈ s.feeds.rows, f.userId = user ∧ f.feedUrl = offer.feedUrl)
          ∧ fault = .duplicate .feedUrl
        ∨ ¬ (∃ f ∈ s.feeds.rows, f.userId = user ∧ f.feedUrl = offer.feedUrl)
          ∧ ((∀ u ∈ s.users.rows, u.id ≠ user)
            ∨ ∀ c ∈ s.categories.rows, c.id ≠ offer.categoryId) ∧ fault = .foreignKey :=
  guards_eq_error_iff (by simp [holds_iff])
    (Bool.or_eq_true_iff.trans (or_congr not_hasUser_iff not_hasCategory_iff))

end Store

/-! ## Commands -/

namespace Action

open Table Store

variable {s : Session} {τ : Terms}

theorem obeys_createUser {username : String}
    (hτ : (Command.createUser username).terms? s.store = some τ) :
    (createUser username).Obeys τ s := by
  obtain rfl := Option.some.inj hτ
  unfold createUser
  dsimp only
  exact obeys_guard (obeys_now_bind (obeys_write fun _ => addUser_eq_error_iff))

theorem obeys_createCategory {user : Id} {title : String} {hide : Bool}
    (hτ : (Command.createCategory user title hide).terms? s.store = some τ) :
    (createCategory user title hide).Obeys τ s := by
  obtain rfl := Option.some.inj hτ
  unfold createCategory
  dsimp only
  exact obeys_guard (obeys_write fun _ => addCategory_eq_error_iff)

theorem obeys_createFeed {user : Id} {offer : FeedOffer}
    (hτ : (Command.createFeed user offer).terms? s.store = some τ) :
    (createFeed user offer).Obeys τ s := by
  obtain rfl := Option.some.inj hτ
  have haddress : (cleanOffer offer).feedUrl = Text.trim offer.feedUrl := rfl
  have hfault : ∀ fault, s.store.addFeed user (cleanOffer offer) = .error fault ↔ _ :=
    fun _ => addFeed_eq_error_iff
  simp only [haddress, categoryId_cleanOffer] at hfault
  unfold createFeed
  dsimp only
  rw [haddress]
  exact obeys_guard (obeys_write hfault)

theorem obeys_removeUser (hs : s.store.Integrity) {user : Id}
    (hτ : (Command.removeUser user).terms? s.store = some τ) : (removeUser user).Obeys τ s := by
  obtain rfl := Option.some.inj hτ
  unfold removeUser
  exact obeys_change (judges_orNothing (count_eq_zero_iff fun _ => beq_iff_eq))
    fun hmissing => eraseUser_eq_self hs hmissing

theorem obeys_hideCategory {user category : Id} {hide : Bool}
    (hτ : (Command.hideCategory user category hide).terms? s.store = some τ) :
    (hideCategory user category hide).Obeys τ s := by
  obtain rfl := Option.some.inj hτ
  unfold hideCategory
  refine obeys_change (judges_orNothing count_ownCategory_eq_zero_iff) fun hmissing => ?_
  unfold Store.hideCategory
  rw [modify_of_count_eq_zero _ (count_ownCategory_eq_zero_iff.2 hmissing)]

theorem obeys_removeCategory {user category : Id}
    (hτ : (Command.removeCategory user category).terms? s.store = some τ) :
    (removeCategory user category).Obeys τ s := by
  obtain rfl := Option.some.inj hτ
  unfold removeCategory
  refine obeys_change (judges_orNothing count_ownCategory_eq_zero_iff) fun hmissing => ?_
  exact eraseCategories_eq_self fun c hc =>
    Bool.eq_false_iff.2 fun hown => hmissing c hc (ownCategory_iff.1 hown)

theorem obeys_modifyFeed {context : String} {statement : Statement} (user feed : Id)
    (f : Feed → Feed) :
    (change context statement (·.modifyFeed user feed f) >>= orNothing).Obeys
      (.reaches (∀ f ∈ s.store.feeds.rows, ¬ (f.userId = user ∧ f.id = feed))) s :=
  obeys_change (judges_orNothing count_ownFeed_eq_zero_iff)
    fun hmissing => modifyFeed_eq_self (count_ownFeed_eq_zero_iff.2 hmissing)

theorem obeys_hideFeed {user feed : Id} {hide : Bool}
    (hτ : (Command.hideFeed user feed hide).terms? s.store = some τ) :
    (hideFeed user feed hide).Obeys τ s := by
  obtain rfl := Option.some.inj hτ
  exact obeys_modifyFeed user feed _

theorem obeys_updateFetchState {user feed : Id} {state : FetchState}
    (hτ : (Command.updateFetchState user feed state).terms? s.store = some τ) :
    (updateFetchState user feed state).Obeys τ s := by
  obtain rfl := Option.some.inj hτ
  exact obeys_modifyFeed user feed _

/-- A failure is noted, and its number given, if and only if the feed is there. -/
theorem failFeed_eq_none_iff {user feed : Id} {message : String} {now nextCheckAt : Int} :
    (s.store.failFeed user feed message now nextCheckAt).1 = none
      ↔ ∀ f ∈ s.store.feeds.rows, ¬ (f.userId = user ∧ f.id = feed) := by
  unfold failFeed feed? Table.find?
  dsimp only
  rw [Option.map_eq_none_iff, List.find?_eq_none]
  -- noting a failure makes no feed anybody else's
  have hkeeps : ∀ f, ownFeed user feed (if ownFeed user feed f then
      f.failed message now nextCheckAt else f) = ownFeed user feed f := by
    intro f
    split
    · rfl
    · rfl
  constructor
  · intro h f hf hown
    exact h _ (mem_rows_modify.2 ⟨f, hf, rfl⟩) ((hkeeps f).trans (ownFeed_iff.2 hown))
  · intro h f' hf' hown
    obtain ⟨f, hf, rfl⟩ := mem_rows_modify.1 hf'
    exact h f hf (ownFeed_iff.1 ((hkeeps f).symm.trans hown))

theorem obeys_recordFeedError {user feed : Id} {message : String} {nextCheckAt : Int}
    (hτ : (Command.recordFeedError user feed message nextCheckAt).terms? s.store = some τ) :
    (recordFeedError user feed message nextCheckAt).Obeys τ s := by
  obtain rfl := Option.some.inj hτ
  unfold recordFeedError
  refine obeys_now_bind (obeys_change (fun t => ?_) fun hmissing => ?_)
  · rw [← failFeed_eq_none_iff]
    cases (s.store.failFeed user feed message s.now nextCheckAt).1 with
    | none => exact Or.inl ⟨rfl, rfl⟩
    | some count => exact Or.inr ⟨Option.some_ne_none count, count, rfl⟩
  · exact modifyFeed_eq_self (count_ownFeed_eq_zero_iff.2 hmissing)

theorem obeys_modifyOwn {context : String} {statement : Statement} (user entry : Id)
    (f : Entry → Entry) :
    (change context statement (·.modifyEntries (Entry.isOwn user entry) f) >>= orNothing).Obeys
      (.reaches (∀ e ∈ s.store.entries.rows, ¬ (e.userId = user ∧ e.id = entry))) s := by
  have hcount : (s.store.modifyEntries (Entry.isOwn user entry) f).1 = 0
      ↔ ∀ e ∈ s.store.entries.rows, ¬ (e.userId = user ∧ e.id = entry) :=
    count_eq_zero_iff fun _ => Entry.isOwn_iff
  exact obeys_change (judges_orNothing hcount)
    fun hmissing => modifyEntries_eq_self (hcount.2 hmissing)

theorem obeys_updateText {user entry : Id} {title content : String} {readingTime : Int}
    (hτ : (Command.updateText user entry title content readingTime).terms? s.store = some τ) :
    (updateText user entry title content readingTime).Obeys τ s := by
  obtain rfl := Option.some.inj hτ
  exact obeys_now_bind (obeys_modifyOwn user entry _)

theorem obeys_toggleStar {user entry : Id}
    (hτ : (Command.toggleStar user entry).terms? s.store = some τ) :
    (toggleStar user entry).Obeys τ s := by
  obtain rfl := Option.some.inj hτ
  exact obeys_now_bind (obeys_modifyOwn user entry _)

theorem obeys_unshare {user entry : Id}
    (hτ : (Command.unshare user entry).terms? s.store = some τ) :
    (unshare user entry).Obeys τ s := by
  obtain rfl := Option.some.inj hτ
  exact obeys_modifyOwn user entry _

theorem obeys_updateProgression {user enclosure : Id} {seconds : Int}
    (hτ : (Command.updateProgression user enclosure seconds).terms? s.store = some τ) :
    (updateProgression user enclosure seconds).Obeys τ s := by
  obtain rfl := Option.some.inj hτ
  have hcount : s.store.enclosures.count (fun x => x.userId == user && x.id == enclosure) = 0
      ↔ ∀ x ∈ s.store.enclosures.rows, ¬ (x.userId = user ∧ x.id = enclosure) :=
    count_eq_zero_iff fun x => by simp
  unfold updateProgression
  refine obeys_change (judges_orNothing hcount) fun hmissing => ?_
  unfold setProgression
  dsimp only
  rw [modify_of_count_eq_zero _ (hcount.2 hmissing)]

theorem obeys_setStatus {user : Id} {ids : List Id} {status : Status}
    (hτ : (Command.setStatus user ids status).terms? s.store = some τ) :
    (setStatus user ids status).Obeys τ s := by
  obtain rfl := Option.some.inj hτ
  unfold setStatus
  split
  · subst ids
    exact obeys_pure () (by decide) not_false
  · exact obeys_now_bind (obeys_writeWithin (judges_pure ()) False.elim)

theorem obeys_setStar {user : Id} {ids : List Id} {starred : Bool}
    (hτ : (Command.setStar user ids starred).terms? s.store = some τ) :
    (setStar user ids starred).Obeys τ s := by
  obtain rfl := Option.some.inj hτ
  unfold setStar
  split
  · subst ids
    exact obeys_pure () (by decide) fun h => h.1 rfl
  · rename_i hne
    have hcount : (s.store.setStar user ids starred s.now).1 = 0
        ↔ ids ≠ [] ∧ ∀ e ∈ s.store.entries.rows, ¬ (e.userId = user ∧ e.id ∈ ids) :=
      (count_eq_zero_iff fun e => by simp [Entry.isListed]).trans (and_iff_right hne).symm
    exact obeys_now_bind (obeys_writeWithin (judges_orNothing hcount)
      fun hmissing => modifyEntries_eq_self (hcount.2 hmissing))

end Action

namespace Command

/-- The error that the command answers with, if it does not succeed. -/
def error? : Command → Session → Option StoreError
  | createUser username => Action.error? (.createUser username)
  | removeUser user => Action.error? (.removeUser user)
  | removeUserLater user => Action.error? (.removeUserLater user)
  | createCategory user title hide => Action.error? (.createCategory user title hide)
  | hideCategory user category hide => Action.error? (.hideCategory user category hide)
  | removeCategory user category => Action.error? (.removeCategory user category)
  | createFeed user offer => Action.error? (.createFeed user offer)
  | hideFeed user feed hide => Action.error? (.hideFeed user feed hide)
  | updateFetchState user feed state => Action.error? (.updateFetchState user feed state)
  | recordFeedError user feed message nextCheckAt =>
    Action.error? (.recordFeedError user feed message nextCheckAt)
  | resetFeedErrors user => Action.error? (.resetFeedErrors user)
  | removeFeed user feed => Action.error? (.removeFeed user feed)
  | refreshFeed user feed candidates update =>
    Action.error? (.refreshFeed user feed candidates update)
  | updateText user entry title content readingTime =>
    Action.error? (.updateText user entry title content readingTime)
  | updateProgression user enclosure seconds =>
    Action.error? (.updateProgression user enclosure seconds)
  | sweep feed hashes => Action.error? (.sweep feed hashes)
  | setStatus user entries status => Action.error? (.setStatus user entries status)
  | setStatusCount user entries status => Action.error? (.setStatusCount user entries status)
  | setStar user entries starred => Action.error? (.setStar user entries starred)
  | toggleStar user entry => Action.error? (.toggleStar user entry)
  | archive status days limit => Action.error? (.archive status days limit)
  | flushHistory user => Action.error? (.flushHistory user)
  | markAll user => Action.error? (.markAll user)
  | markAllBefore user before => Action.error? (.markAllBefore user before)
  | markFeed user feed before => Action.error? (.markFeed user feed before)
  | markCategory user category before => Action.error? (.markCategory user category before)
  | markShown user => Action.error? (.markShown user)
  | share user entry drawn => Action.error? (.share user entry drawn)
  | unshare user entry => Action.error? (.unshare user entry)
  | runPending => fun _ => none
  | setClock _ => fun _ => none

/-- The command obeys its terms. -/
structure Obeys (c : Command) (τ : Terms) (s : Session) : Prop where
  atomic : c.error? s ≠ none → c.next s = s
  exact : s.Ready → ∀ e, c.error? s = some e ↔ τ.Refuse e

variable {c : Command} {τ : Terms} {s : Session}

theorem obeys_of_action {α : Type} {a : Action α} (h : a.Obeys τ s) (herror : c.error? = a.error?)
    (hnext : c.next = after a) : c.Obeys τ s := by
  refine ⟨?_, ?_⟩
  · rw [herror, hnext]
    exact h.atomic
  · rw [herror]
    exact h.exact

theorem obeys (hs : s.store.Integrity) (hτ : c.terms? s.store = some τ) : c.Obeys τ s := by
  cases c with
  | createUser username => exact obeys_of_action (Action.obeys_createUser hτ) rfl rfl
  | createCategory user title hide => exact obeys_of_action (Action.obeys_createCategory hτ) rfl rfl
  | createFeed user offer => exact obeys_of_action (Action.obeys_createFeed hτ) rfl rfl
  | removeUser user => exact obeys_of_action (Action.obeys_removeUser hs hτ) rfl rfl
  | hideCategory user category hide =>
      exact obeys_of_action (Action.obeys_hideCategory hτ) rfl rfl
  | removeCategory user category => exact obeys_of_action (Action.obeys_removeCategory hτ) rfl rfl
  | hideFeed user feed hide => exact obeys_of_action (Action.obeys_hideFeed hτ) rfl rfl
  | updateFetchState user feed state =>
      exact obeys_of_action (Action.obeys_updateFetchState hτ) rfl rfl
  | recordFeedError user feed message nextCheckAt =>
      exact obeys_of_action (Action.obeys_recordFeedError hτ) rfl rfl
  | updateText user entry title content readingTime =>
      exact obeys_of_action (Action.obeys_updateText hτ) rfl rfl
  | toggleStar user entry => exact obeys_of_action (Action.obeys_toggleStar hτ) rfl rfl
  | unshare user entry => exact obeys_of_action (Action.obeys_unshare hτ) rfl rfl
  | updateProgression user enclosure seconds =>
      exact obeys_of_action (Action.obeys_updateProgression hτ) rfl rfl
  | setStatus user ids status => exact obeys_of_action (Action.obeys_setStatus hτ) rfl rfl
  | setStar user ids starred => exact obeys_of_action (Action.obeys_setStar hτ) rfl rfl
  | _ => cases hτ

end Command

/-- A write on terms ends in an error if and only if the terms say so, and with that error. An error
leaves the session as it was, also if the engine does not let the caller in at the moment. -/
theorem Reachable.refuses_exactly {s : Session} (hs : Reachable s) {c : Command} {τ : Terms}
    (hτ : c.terms? s.store = some τ) :
    (∀ e, c.error? s = some e ↔ τ.Refuse e)
      ∧ ∀ t : Session, t.store = s.store → c.error? t ≠ none → c.next t = t := by
  have hobeys : c.Obeys τ s := Command.obeys hs.integrity hτ
  refine ⟨hobeys.exact hs.ready, fun t hstore => ?_⟩
  rw [← hstore] at hτ
  have hobeys : c.Obeys τ t := Command.obeys (hstore ▸ hs.integrity) hτ
  exact hobeys.atomic

/-- An offer of an address that is taken but for a blank, in a category that is not there. -/
theorem Reachable.refuses_exactly_taken :
    (Command.createFeed 1 (.bare 7 " a")).error? .subscribed
        = some (.conflict "unable to create feed \"a\"" (.duplicate .feedUrl))
      ∧ (Command.createFeed 1 (.bare 7 " a")).next .subscribed = .subscribed := by
  obtain ⟨hexact, hatomic⟩ := Reachable.subscribed.refuses_exactly
    (c := .createFeed 1 (.bare 7 " a")) rfl
  have hblank : ¬ Text.trim " a" = "" := by decide +kernel
  have htaken : ∃ f ∈ Session.subscribed.store.feeds.rows,
      f.userId = 1 ∧ f.feedUrl = Text.trim " a" := by decide +kernel
  have hcontext : "unable to create feed " ++ Text.quoted (Text.trim " a")
      = "unable to create feed \"a\"" := by decide +kernel
  have herror := (hexact _).2 (.taken hblank htaken)
  refine ⟨hcontext ▸ herror, hatomic .subscribed rfl ?_⟩
  rw [herror]
  exact Option.some_ne_none _

end FeedStore
