import FeedStore.Proofs.Loss
import FeedStore.Proofs.Tenants

/-!
# Removing a feed as a whole

The entries of a feed go in batches, each a statement of its own, before the feed goes. The loop
ends however many entries there are (`Action.batches_iff`), and for a feed of the user all of it
comes to one deletion of the feed with whatever lies in it, whoever's it is. The user is asked
for by every batch, the feed's owner only by the last statement. So a user who has entries in a
feed of somebody else loses them, and is told that nothing has been removed
(`Reachable.removesWhole_iff`).
-/

namespace FeedStore

/-! ## The loop -/

namespace Action

/-- The statement that erases a batch of the entries of a user in a feed. -/
def eraseOnce (user feed : Id) : Action Nat :=
  change ("unable to delete entries of feed #" ++ toString feed) (.delete .entries [.entries])
    (·.removeEntriesUpTo eraseBatch (Entry.isOf user feed))

/-- Erasing batches until one of them finds nothing or fails ends in this way, however many batches
that takes. -/
inductive Batches (user feed : Id) : Session → Except StoreError Unit × Session → Prop
  | failed {s t : Session} {e : StoreError} (h : (eraseOnce user feed).perform s = (.error e, t)) :
      Batches user feed s (.error e, t)
  | last {s t : Session} (h : (eraseOnce user feed).perform s = (.ok 0, t)) :
      Batches user feed s (.ok (), t)
  | more {s t : Session} {n : Nat} {r : Except StoreError Unit × Session} (hn : n ≠ 0)
      (h : (eraseOnce user feed).perform s = (.ok n, t)) (rest : Batches user feed t r) :
      Batches user feed s r

variable {α : Type} {user feed : Id} {s : Session} {r r' : Except StoreError Unit × Session}

/-- The loop ends in one way only. -/
theorem Batches.unique (h : Batches user feed s r) (h' : Batches user feed s r') : r = r' := by
  induction h with
  | failed h =>
      cases h' with
      | failed h' =>
          cases h.symm.trans h'
          rfl
      | last h' => cases h.symm.trans h'
      | more _ h' _ => cases h.symm.trans h'
  | last h =>
      cases h' with
      | failed h' => cases h.symm.trans h'
      | last h' =>
          cases h.symm.trans h'
          rfl
      | more hn h' _ =>
          cases h.symm.trans h'
          exact absurd rfl hn
  | more hn h _ ih =>
      cases h' with
      | failed h' => cases h.symm.trans h'
      | last h' =>
          cases h.symm.trans h'
          exact absurd rfl hn
      | more _ h' rest =>
          cases h.symm.trans h'
          exact ih rest

/-- A bound on the number of batches that exceeds the number of entries does not show. -/
theorem batches_eraseEntries {batches : Nat} (hs : s.store.Integrity)
    (hb : s.store.entries.count (Entry.isOf user feed) < batches) :
    Batches user feed s ((eraseEntries user feed batches).perform s) := by
  induction batches generalizing s with
  | zero => cases hb
  | succ batches ih =>
      have hloop : (eraseEntries user feed (batches + 1)).perform s
          = (eraseOnce user feed >>= fun erased =>
              if erased = 0 then pure () else eraseEntries user feed batches).perform s := rfl
      rw [hloop, perform_bind]
      cases h : (eraseOnce user feed).perform s with
      | mk r t =>
          cases r with
          | error e => exact .failed h
          | ok n =>
              obtain ⟨rfl, rfl⟩ := of_perform_change h
              dsimp only
              split
              · rename_i hzero
                rw [hzero] at h
                exact .last h
              · rename_i hsome
                have hless := Store.count_batch_lt hs.entries hsome
                refine .more hsome h (ih (hs.eraseEntries _) ?_)
                exact Nat.lt_of_lt_of_le hless (Nat.le_of_lt_succ hb)

/-- The loop ends, and what it comes to is a single deletion. -/
theorem batches_iff (hr : s.Ready) (hs : s.store.Integrity) :
    Batches user feed s r
      ↔ r = (.ok (), { s with store := s.store.eraseEntries (Entry.isOf user feed) }) := by
  have hb : s.store.entries.count (Entry.isOf user feed) < s.store.entries.rows.length + 1 :=
    Nat.lt_succ_of_le List.countP_le_length
  have hend := batches_eraseEntries hs hb
  rw [perform_eraseEntries hr hs hb] at hend
  exact ⟨fun h => h.unique hend, fun h => h ▸ hend⟩

/-- Closed or locked by somebody else, the store refuses whatever writes. -/
theorem exists_refusal {a : Access} (hmissing : a.missing = []) (hne : a ≠ {})
    (statement : Statement) (hw : statement.writes = true) (s : Session) :
    ∃ fault, ({ s with access := a } : Session).refusal? statement {} = some fault := by
  obtain ⟨isOpen, locked, missing⟩ := a
  obtain rfl : missing = [] := hmissing
  cases isOpen with
  | false => exact ⟨.closed, rfl⟩
  | true =>
      cases locked with
      | true =>
          have hnames : ∀ names : List (TableName × String),
              names.find? (fun n => !({ locked := true } : Access).has n.1) = none := by
            intro names
            simp [Access.has]
          exact ⟨.locked, by simp [Session.refusal?, hnames, hw]⟩
      | false => exact absurd rfl hne

theorem perform_change_of_refused (context : String) {statement : Statement} (f : Store → α × Store)
    {t : Session} {fault : Fault} (h : t.refusal? statement {} = some fault) :
    (change context statement f).perform t = (.error (.ofFault context fault), t) := by
  unfold change write
  rw [perform_writeWithin, h]

/-- The first batch is refused already. -/
theorem perform_removeFeed_of_refused {a : Access} (hmissing : a.missing = []) (hne : a ≠ {})
    (user feed : Id) (s : Session) :
    ∃ e, (removeFeed user feed).perform { s with access := a }
      = (.error e, { s with access := a }) := by
  obtain ⟨fault, hfault⟩ := exists_refusal hmissing hne (.delete .entries [.entries]) rfl s
  have honce := perform_change_of_refused ("unable to delete entries of feed #" ++ toString feed)
    (·.removeEntriesUpTo eraseBatch (Entry.isOf user feed)) hfault
  refine ⟨.ofFault ("unable to delete entries of feed #" ++ toString feed) fault, ?_⟩
  show ((eraseOnce user feed >>= _) >>= _).perform { s with access := a } = _
  rw [perform_bind, perform_bind, show (eraseOnce user feed).perform _ = _ from honce]

end Action

/-! ## What is left -/

namespace Store

open Table

variable {s t : Store} {user feed : Id}

/-- The feed is gone with all of its entries and their enclosures, whoever's they are, and
everything else is as it was. -/
structure LacksFeed (s t : Store) (feed : Id) : Prop where
  users : t.users = s.users
  categories : t.categories = s.categories
  feeds : t.feeds = s.feeds.erase fun f => f.id == feed
  entries : t.entries = s.entries.erase fun e => e.feedId == feed
  enclosures : t.enclosures = s.enclosures.erase fun x =>
    s.entries.holds fun e => e.id == x.entryId && e.feedId == feed

/-- A single deletion of a feed of the user takes everything of the feed along. -/
theorem lacksFeed_removeFeed (hs : s.Integrity) (h : s.HasFeedOf user feed) :
    s.LacksFeed (s.removeFeed user feed).2 feed := by
  obtain ⟨f, hf, hown⟩ := h
  obtain ⟨-, hid⟩ := ownFeed_iff.1 hown
  have hfeeds : ∀ g ∈ s.feeds.rows, ownFeed user feed g = (g.id == feed) := by
    intro g hg
    rw [Bool.eq_iff_iff, beq_iff_eq]
    refine ⟨fun hg => (ownFeed_iff.1 hg).2, fun heq => ?_⟩
    rwa [hs.feeds.distinct.eq_of_eq hg hf (heq.trans hid.symm)]
  have hentries : ∀ e : Entry,
      (s.feedIds (ownFeed user feed)).contains e.feedId = (e.feedId == feed) := by
    intro e
    rw [Bool.eq_iff_iff, List.contains_iff_mem, mem_feedIds, beq_iff_eq]
    constructor
    · rintro ⟨g, -, hg, heq⟩
      exact heq.symm.trans (ownFeed_iff.1 hg).2
    · exact fun heq => ⟨f, hf, hown, hid.trans heq.symm⟩
  refine ⟨rfl, rfl, erase_congr hfeeds, erase_congr fun e _ => hentries e, ?_⟩
  refine erase_congr fun x _ => ?_
  rw [Bool.eq_iff_iff, List.contains_iff_mem, mem_entryIds, holds_iff]
  simp only [hentries, Bool.and_eq_true, beq_iff_eq]
  exact exists_congr fun e => and_congr_right fun _ => and_comm

/-- The store stays the same only if no entry is to go. -/
theorem eraseEntries_eq_self_iff {p : Entry → Bool} :
    s.eraseEntries p = s ↔ ∀ e ∈ s.entries.rows, p e = false := by
  constructor
  · intro hsame
    have hrows : s.entries.rows.filter (fun e => !p e) = s.entries.rows :=
      congrArg (fun s : Store => s.entries.rows) hsame
    exact fun e he => (Bool.not_eq_eq_eq_not ..).1 (List.filter_eq_self.1 hrows e he)
  · intro hnone
    have hids : s.entryIds p = [] := by
      unfold entryIds select
      rw [List.filter_eq_nil_iff.2 fun e he => Bool.eq_false_iff.1 (hnone e he), List.map_nil]
    unfold eraseEntries
    rw [hids, erase_eq_self hnone]
    show { s with enclosures := s.enclosures.erase fun _ => false } = s
    rw [erase_eq_self fun _ _ => rfl]

/-- Of a feed of the user the loop takes away some of what the deletion of the feed takes away. -/
theorem withoutFeed_of_hasFeedOf (h : s.HasFeedOf user feed) :
    s.withoutFeed user feed = (s.removeFeed user feed).2 := by
  obtain ⟨f, hf, hown⟩ := h
  let p := fun e : Entry => (s.feedIds (ownFeed user feed)).contains e.feedId
  have hgoes : ∀ e ∈ s.entries.rows, Entry.isOf user feed e = true → p e = true := by
    intro e _ he
    have hfeed : e.feedId = feed := eq_of_beq (Bool.and_eq_true_iff.1 he).2
    exact List.contains_iff_mem.2
      (mem_feedIds.2 ⟨f, hf, hown, (ownFeed_iff.1 hown).2.trans hfeed.symm⟩)
  show ({ (s.eraseEntries (Entry.isOf user feed)).eraseEntries p with
    feeds := s.feeds.erase (ownFeed user feed) } : Store) = _
  rw [eraseEntries_absorbs hgoes]
  rfl

/-- Where no feed is to go, the store stays the same. -/
theorem eraseFeeds_eq_self {p : Feed → Bool} (h : ∀ f ∈ s.feeds.rows, p f = false) :
    s.eraseFeeds p = s := by
  have hids : s.feedIds p = [] := by
    unfold feedIds select
    rw [List.filter_eq_nil_iff.2 fun f hf => Bool.eq_false_iff.1 (h f hf), List.map_nil]
  unfold eraseFeeds
  rw [hids, erase_eq_self h]
  show s.eraseEntries (fun _ => false) = s
  exact eraseEntries_eq_self_iff.2 fun _ _ => rfl

/-- Of a feed that is not the user's there is nothing to delete after the loop. -/
theorem withoutFeed_of_not_hasFeedOf (h : ¬ s.HasFeedOf user feed) :
    s.withoutFeed user feed = s.eraseEntries (Entry.isOf user feed) :=
  eraseFeeds_eq_self fun f hf => Bool.eq_false_iff.2 fun hown => h ⟨f, hf, hown⟩

end Store

/-! ## All or nothing -/

namespace Session

/-- Removing the feed is all or nothing. After an error the session is as it was. Otherwise the feed
is gone with everything in it and nothing else, as after a single deletion of the feed. -/
def RemovesWhole (s : Session) (user feed : Id) : Prop :=
  match (Action.removeFeed user feed).perform s with
  | (.error _, t) => t = s
  | (.ok (), t) => s.store.LacksFeed t.store feed
      ∧ t = { s with store := (s.store.removeFeed user feed).2 }

end Session

namespace Action

open Store

variable {s : Session} {user feed : Id}

theorem perform_removeFeed_of_hasFeedOf (hr : s.Ready) (hs : s.store.Integrity)
    (h : s.store.HasFeedOf user feed) :
    (removeFeed user feed).perform s
      = (.ok (), { s with store := (s.store.removeFeed user feed).2 }) := by
  obtain ⟨f, hf, hown⟩ := h
  have hcount : s.store.feeds.count (ownFeed user feed) ≠ 0 :=
    Nat.ne_of_gt (List.countP_pos_iff.2 ⟨f, hf, hown⟩)
  rw [perform_removeFeed hr hs, if_neg hcount, withoutFeed_of_hasFeedOf ⟨f, hf, hown⟩]

theorem perform_removeFeed_of_not_hasFeedOf (hr : s.Ready) (hs : s.store.Integrity)
    (h : ¬ s.store.HasFeedOf user feed) :
    (removeFeed user feed).perform s
      = (.error .nothingUpdated,
          { s with store := s.store.eraseEntries (Entry.isOf user feed) }) := by
  have hcount : s.store.feeds.count (ownFeed user feed) = 0 :=
    List.countP_eq_zero.2 fun f hf hown => h ⟨f, hf, hown⟩
  rw [perform_removeFeed hr hs, if_pos hcount, withoutFeed_of_not_hasFeedOf h]

end Action

open FeedStore.Action Store in
/-- Removing a feed is all or nothing exactly for a feed of the user, which is then removed, and for
a feed in which the user has no entries. In a feed of somebody else the entries of the user go,
and then nothing is said to have been removed. -/
theorem Reachable.removesWhole_iff {s : Session} (hs : Reachable s) (user feed : Id) :
    (s.RemovesWhole user feed ↔ s.store.HasFeedOf user feed
        ∨ ∀ e ∈ s.store.entries.rows, e.isOf user feed = false)
      ∧ (s.store.HasFeedOf user feed → (removeFeed user feed).perform s
          = (.ok (), { s with store := (s.store.removeFeed user feed).2 }))
      ∧ (¬ s.store.HasFeedOf user feed → (removeFeed user feed).perform s
          = (.error .nothingUpdated,
              { s with store := s.store.eraseEntries (Entry.isOf user feed) }))
      ∧ (∀ r, Batches user feed s r
          ↔ r = (.ok (), { s with store := s.store.eraseEntries (Entry.isOf user feed) }))
      ∧ (∀ a : Access, a.missing = [] → a ≠ {} →
          ∃ e, (removeFeed user feed).perform { s with access := a }
            = (.error e, { s with access := a })) := by
  have hr := hs.ready
  have hint := hs.integrity
  refine ⟨?_, perform_removeFeed_of_hasFeedOf hr hint, perform_removeFeed_of_not_hasFeedOf hr hint,
    fun r => batches_iff hr hint,
    fun a hmissing hne => perform_removeFeed_of_refused hmissing hne user feed s⟩
  unfold Session.RemovesWhole
  by_cases hown : s.store.HasFeedOf user feed
  · rw [perform_removeFeed_of_hasFeedOf hr hint hown]
    exact iff_of_true ⟨lacksFeed_removeFeed hint hown, rfl⟩ (Or.inl hown)
  · rw [perform_removeFeed_of_not_hasFeedOf hr hint hown, or_iff_right hown,
      ← eraseEntries_eq_self_iff]
    exact ⟨congrArg Session.store, fun hsame => by dsimp only; rw [hsame]⟩

/-- A feed in which its owner and another user have an entry each. -/
def Session.shared : Session :=
  Session.subscribed.run
    [.createUser "bob", .refreshFeed 1 1 [.bare "a" 1] false, .refreshFeed 2 1 [.bare "b" 2] false]

theorem Reachable.shared : Reachable .shared := Reachable.subscribed.run _

theorem Session.not_hasFeedOf_shared : ¬ Session.shared.store.HasFeedOf 2 1 := by
  unfold Store.HasFeedOf
  decide +kernel

/-- The owner removes the feed with the entry of the other user, who gets at an entry as well. -/
theorem Reachable.removesWhole_iff_shared :
    Session.shared.RemovesWhole 1 1 ∧ ¬ Session.shared.RemovesWhole 2 1
      ∧ ((Action.removeFeed 2 1).perform .shared).1 = .error .nothingUpdated := by
  have hown : Session.shared.store.HasFeedOf 1 1 := by
    unfold Store.HasFeedOf
    decide +kernel
  have hentries : ¬ ∀ e ∈ Session.shared.store.entries.rows, e.isOf 2 1 = false := by
    decide +kernel
  obtain ⟨howner, -⟩ := Reachable.shared.removesWhole_iff 1 1
  obtain ⟨hother, -, hperform, -⟩ := Reachable.shared.removesWhole_iff 2 1
  refine ⟨howner.2 (Or.inl hown), fun hwhole => ?_, by rw [hperform Session.not_hasFeedOf_shared]⟩
  exact (hother.1 hwhole).elim Session.not_hasFeedOf_shared hentries

/-- An error does not mean that nothing has been removed. -/
theorem Reachable.not_forall_removesWhole :
    ¬ ∀ (s : Session) (user feed : Id), Reachable s → s.RemovesWhole user feed := by
  intro h
  have hwhole := h .shared 2 1 .shared
  unfold Session.RemovesWhole at hwhole
  rw [Action.perform_removeFeed_of_not_hasFeedOf Reachable.shared.ready Reachable.shared.integrity
    Session.not_hasFeedOf_shared] at hwhole
  have hnone := Store.eraseEntries_eq_self_iff.1 (congrArg Session.store hwhole)
  exact absurd hnone (by decide +kernel)

end FeedStore
