import FeedStore.Proofs.Marking

/-!
# Marking a category feed by feed

What a user marks as read in some feeds one after the other is what lies in any of them: an entry
that an earlier feed has taken is unread no more, so none is marked or counted twice
(`Action.perform_markFeeds`). Marking a category reaches the same entries with one statement. So it
leaves the same session behind as marking the user's feeds in the category, in whatever order, and
answers with what their answers add up to (`Reachable.marks_category_by_feeds`).
-/

namespace FeedStore

/-! ## What is due -/

/-- The feeds of the user in a category. -/
def Store.feedsIn (s : Store) (user category : Id) : List Id :=
  s.feedIds fun f => f.userId == user && f.categoryId == category

/-- The entry is an unread one of the user, lies in one of the feeds and was published before the
moment. -/
def Entry.isDue (user : Id) (before : Int) (feeds : List Id) (e : Entry) : Bool :=
  e.isUnreadOf user && (feeds.contains e.feedId && decide (e.publishedAt < before))

/-- The entry is an unread one of the user, was published before the moment, and lies in a feed of
the user in the category. -/
structure Entry.DueIn (s : Store) (user category : Id) (before : Int) (e : Entry) : Prop where
  owner : e.userId = user
  unread : e.status = .known .unread
  published : e.publishedAt < before
  feed : ∃ f ∈ s.feeds.rows, f.id = e.feedId ∧ f.userId = user ∧ f.categoryId = category

namespace Store

variable {s : Store} {user category feed : Id}

theorem mem_feedsIn : feed ∈ s.feedsIn user category
    ↔ ∃ f ∈ s.feeds.rows, f.id = feed ∧ f.userId = user ∧ f.categoryId = category := by
  simp only [feedsIn, mem_feedIds, Bool.and_eq_true, beq_iff_eq]
  exact exists_congr fun f => and_congr_right fun _ => and_comm

theorem isFeedIn_eq (s : Store) (user category feed : Id) :
    s.isFeedIn user category feed = (s.feedsIn user category).contains feed := by
  rw [Bool.eq_iff_iff, isFeedIn_iff, List.contains_iff_mem, mem_feedsIn]

end Store

namespace Entry

variable {user : Id} {before : Int} {feeds feeds' : List Id} {feed : Id}

theorem isDue_cons (feed : Id) (feeds : List Id) : isDue user before (feed :: feeds)
    = fun e => e.isDue user before [feed] || e.isDue user before feeds := by
  funext e
  simp only [isDue, List.contains_cons, List.contains_nil, Bool.or_false]
  cases e.isUnreadOf user <;> cases e.feedId == feed <;> simp

theorem isDue_withStatus_read (now : Int) (e : Entry) :
    (e.withStatus .read now).isDue user before feeds = false := by
  simp [isDue, isUnreadOf, hasStatus, withStatus]

theorem isDue_of_subset (h : feeds ⊆ feeds') {e : Entry} (hdue : e.isDue user before feeds = true) :
    e.isDue user before feeds' = true := by
  simp only [isDue, Bool.and_eq_true, List.contains_iff_mem] at hdue ⊢
  exact ⟨hdue.1, h hdue.2.1, hdue.2.2⟩

/-- The order of the feeds does not matter. -/
theorem isDue_perm (user : Id) (before : Int) (h : feeds.Perm feeds') :
    isDue user before feeds = isDue user before feeds' :=
  funext fun _ => Bool.eq_iff_iff.2 ⟨isDue_of_subset h.subset, isDue_of_subset h.symm.subset⟩

theorem isDue_feedsIn_iff {s : Store} {category : Id} {e : Entry} :
    e.isDue user before (s.feedsIn user category) = true ↔ e.DueIn s user category before := by
  simp only [isDue, Bool.and_eq_true, Action.isUnreadOf_iff, List.contains_iff_mem,
    Store.mem_feedsIn, decide_eq_true_eq]
  constructor
  · rintro ⟨⟨howner, hunread⟩, hfeed, hpublished⟩
    exact ⟨howner, hunread, hpublished, hfeed⟩
  · rintro ⟨howner, hunread, hpublished, hfeed⟩
    exact ⟨⟨howner, hunread⟩, hfeed, hpublished⟩

end Entry

/-! ## One feed after the other -/

namespace Session

variable {s : Session} {user : Id} {before : Int} {feed : Id} {feeds feeds' : List Id}

/-- The session after what is due in the feeds has been marked as read. -/
def markingDue (s : Session) (user : Id) (before : Int) (feeds : List Id) : Session :=
  s.moving .read (Entry.isDue user before feeds)

theorem markingDue_markingDue :
    (s.markingDue user before [feed]).markingDue user before feeds
      = s.markingDue user before (feed :: feeds) := by
  unfold markingDue moving
  rw [Entry.isDue_cons feed feeds,
    ← Table.modify_modify fun e _ _ => Entry.isDue_withStatus_read s.now e]

/-- What has been marked in some feeds is due no more, the rest still is. -/
theorem count_isDue_markingDue :
    (s.markingDue user before feeds).store.entries.count (Entry.isDue user before feeds')
      = s.store.entries.count fun e =>
          e.isDue user before feeds' && !e.isDue user before feeds :=
  Table.count_modify fun e _ _ => Entry.isDue_withStatus_read _ e

/-- Marking again, in some of the feeds, finds nothing and changes nothing. -/
theorem markingDue_again (h : feeds' ⊆ feeds) :
    (s.markingDue user before feeds).store.entries.count (Entry.isDue user before feeds') = 0
      ∧ (s.markingDue user before feeds).markingDue user before feeds'
        = s.markingDue user before feeds := by
  have hnone : (s.markingDue user before feeds).store.entries.count
      (Entry.isDue user before feeds') = 0 := by
    rw [count_isDue_markingDue]
    refine List.countP_eq_zero.2 fun e _ => ?_
    cases hdue : e.isDue user before feeds' with
    | true => simp [Entry.isDue_of_subset h hdue]
    | false => simp
  refine ⟨hnone, ?_⟩
  rw [markingDue, moving, Table.modify_of_count_eq_zero _ hnone]

end Session

namespace Action

variable {s : Session} (user category feed : Id) (before : Int)

theorem perform_markFeed (hr : s.Ready) :
    (markFeed user feed before).perform s
      = (.ok (s.store.entries.count (Entry.isDue user before [feed])),
        s.markingDue user before [feed]) := by
  have hdue : Entry.isDue user before [feed]
      = fun e => e.isUnreadOf user && (e.feedId == feed && decide (e.publishedAt < before)) := by
    funext e
    rw [Entry.isDue, List.contains_cons, List.contains_nil, Bool.or_false]
  unfold Session.markingDue
  rw [hdue]
  exact perform_markRead hr

theorem perform_markCategory (hr : s.Ready) :
    (markCategory user category before).perform s
      = (.ok (s.store.entries.count (Entry.isDue user before (s.store.feedsIn user category))),
        s.markingDue user before (s.store.feedsIn user category)) := by
  have hdue : Entry.isDue user before (s.store.feedsIn user category)
      = fun e => e.isUnreadOf user
          && (decide (e.publishedAt < before) && s.store.isFeedIn user category e.feedId) := by
    funext e
    rw [Entry.isDue, Store.isFeedIn_eq, Bool.and_comm (decide _)]
  unfold Session.markingDue
  rw [hdue]
  exact perform_markRead hr

/-- Marking feeds one after the other marks what is due in any of them, each entry once. -/
theorem perform_markFeeds (feeds : List Id) (hr : s.Ready) :
    ∃ counts, (feeds.mapM fun f => markFeed user f before).perform s
        = (.ok counts, s.markingDue user before feeds)
      ∧ counts.sum = s.store.entries.count (Entry.isDue user before feeds) := by
  induction feeds generalizing s with
  | nil =>
      have hnone : s.store.entries.count (Entry.isDue user before []) = 0 :=
        List.countP_eq_zero.2 fun e _ => by simp [Entry.isDue]
      have hself : s.markingDue user before [] = s := by
        rw [Session.markingDue, Session.moving, Table.modify_of_count_eq_zero _ hnone]
      rw [hself, hnone]
      exact ⟨[], rfl, rfl⟩
  | cons feed feeds ih =>
      obtain ⟨counts, hperform, hsum⟩ := ih (s := s.markingDue user before [feed]) hr
      refine ⟨s.store.entries.count (Entry.isDue user before [feed]) :: counts, ?_, ?_⟩
      · rw [List.mapM_cons, perform_bind, perform_markFeed user feed before hr]
        dsimp only
        rw [perform_bind, hperform, Session.markingDue_markingDue]
        rfl
      · rw [List.sum_cons, hsum, Session.count_isDue_markingDue, Entry.isDue_cons feed feeds,
          Table.count_or]

end Action

/-! ## The category -/

open FeedStore.Action in
/-- Marking some feeds as read one after the other and marking the category at once leave the same
session behind: what is due in the category has been marked, and nothing else has changed. The
counts of the feeds add up to the count of the category, and doing any of it again finds nothing. -/
structure Session.MarksCategory (s : Session) (user category : Id) (before : Int)
    (feeds : List Id) (counts : List Nat) (t : Session) : Prop where
  feedByFeed : (feeds.mapM fun f => markFeed user f before).perform s = (.ok counts, t)
  atOnce : (markCategory user category before).perform s = (.ok counts.sum, t)
  feedsAgain : ∀ feed ∈ feeds, (markFeed user feed before).perform t = (.ok 0, t)
  categoryAgain : (markCategory user category before).perform t = (.ok 0, t)
  rows : List.Forall₂
    (fun e e' =>
      e.DueIn s.store user category before
          ∧ e' = { e with status := .known .read, changedAt := s.now }
        ∨ ¬ e.DueIn s.store user category before ∧ e' = e)
    s.store.entries.rows t.store.entries.rows
  rest : t = { s with store := { s.store with
    entries := { s.store.entries with rows := t.store.entries.rows } } }

/-- Marking a category comes to marking the user's feeds in it, each once and in any order, and
marking a single feed, whichever it is, finds nothing more when it is done again. -/
theorem Reachable.marks_category_by_feeds {s : Session} (hs : Reachable s) (user category : Id)
    (before : Int) :
    (∀ feeds, feeds.Perm (s.store.feedsIn user category) →
        ∃ counts t, s.MarksCategory user category before feeds counts t)
      ∧ ∀ feed, ∃ n t, (Action.markFeed user feed before).perform s = (.ok n, t)
          ∧ (Action.markFeed user feed before).perform t = (.ok 0, t) := by
  have hready (feeds : List Id) : (s.markingDue user before feeds).Ready := hs.ready
  refine ⟨fun feeds hfeeds => ?_, fun feed => ?_⟩
  · obtain ⟨counts, hperform, hsum⟩ := Action.perform_markFeeds user before feeds hs.ready
    have hcategory := Action.perform_markCategory user category before hs.ready
    have hdue := Entry.isDue_perm user before hfeeds
    refine ⟨counts, _, hperform, ?_, fun feed hfeed => ?_, ?_, ?_, rfl⟩
    · rw [hsum, hdue, Session.markingDue, hdue]
      exact hcategory
    · have hone : [feed] ⊆ feeds := List.cons_subset.2 ⟨hfeed, List.nil_subset feeds⟩
      obtain ⟨hnone, hself⟩ := s.markingDue_again hone
      rw [Action.perform_markFeed user feed before (hready feeds), hnone, hself]
    · obtain ⟨hnone, hself⟩ := s.markingDue_again hfeeds.symm.subset
      have hperform := Action.perform_markCategory user category before (hready feeds)
      have hsame : (s.markingDue user before feeds).store.feedsIn user category
          = s.store.feedsIn user category := rfl
      rw [hsame, hnone, hself] at hperform
      exact hperform
    · rw [Session.markingDue, hdue]
      exact Session.forall₂_moving fun e _ => Entry.isDue_feedsIn_iff
  · obtain ⟨hnone, hself⟩ := s.markingDue_again (List.Subset.refl [feed])
    refine ⟨_, _, Action.perform_markFeed user feed before hs.ready, ?_⟩
    rw [Action.perform_markFeed user feed before (hready [feed]), hnone, hself]

/-- Of three feeds two are in the category; the second one is marked first. -/
theorem Reachable.marks_category_by_feeds_backwards :
    ∃ s t, Reachable s ∧ s.store.feedsIn 1 1 = [1, 2]
      ∧ s.MarksCategory 1 1 25 [2, 1] [1, 2] t := by
  let s := Session.subscribed.run
    [.createFeed 1 (.bare 1 "b"), .createCategory 1 "more" false, .createFeed 1 (.bare 2 "c"),
      .refreshFeed 1 1 [.bare "a" 10, .bare "b" 20, .bare "c" 30] false,
      .refreshFeed 1 2 [.bare "a" 10, .bare "b" 30] false, .refreshFeed 1 3 [.bare "a" 10] false]
  have hs : Reachable s := Reachable.subscribed.run _
  have hfeeds : s.store.feedsIn 1 1 = [1, 2] := by decide +kernel
  have hcounts : ((([2, 1] : List Id).mapM fun f => Action.markFeed 1 f 25).perform s).1
      = .ok [1, 2] := by decide +kernel
  obtain ⟨hperm, -⟩ := hs.marks_category_by_feeds 1 1 25
  obtain ⟨counts, t, hmarks⟩ := hperm [2, 1] (by rw [hfeeds]; decide)
  rw [hmarks.feedByFeed] at hcounts
  obtain rfl := Except.ok.inj hcounts
  exact ⟨s, t, hs, hfeeds, hmarks⟩

end FeedStore
