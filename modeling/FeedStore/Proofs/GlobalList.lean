import FeedStore.Proofs.FeedRemoval
import FeedStore.Proofs.Marking

/-!
# The global unread list and clearing it

The global unread list of a user has what the user has not read in feeds that are shown on
global lists, whoever's the feeds are. What marks the list as read asks also for the feeds to be
the user's. So marking reaches what of the list lies in feeds of the user
(`Store.marksShown_eq`), and an entry in a shown feed of somebody else stays on the list. It
clears the list exactly if there is no such entry (`Reachable.clearsUnread_iff`).
-/

namespace FeedStore

/-- The additions that ask for what is on a global unread list. -/
def Addition.unreadShown : List Addition := [.filter (.status .unread), .filter .shown]

/-! ## What is listed and what is marked -/

namespace Store

open Table

variable {s : Store} {user : Id} {e : Entry}

/-- The entry is on the global unread list of the user. -/
def listsUnread (s : Store) (user : Id) (e : Entry) : Bool :=
  e.isUnreadOf user && s.feeds.holds fun f => f.id == e.feedId && s.shownGlobally f

/-- The entry lies in a feed of the user. -/
def houses (s : Store) (user : Id) (e : Entry) : Bool := s.feeds.holds (ownFeed user e.feedId)

/-- The entry is one that the statement for the shown feeds of the user marks as read. -/
def marksShown (s : Store) (user : Id) (e : Entry) : Bool :=
  e.isUnreadOf user && s.isShownFeedOf user e.feedId

theorem houses_iff : s.houses user e = true ↔ s.HasFeedOf user e.feedId := holds_iff

theorem listsUnread_iff :
    s.listsUnread user e = true ↔ Query.Asks user Addition.unreadShown s e := by
  have hshown : (s.feeds.holds fun f => f.id == e.feedId && s.shownGlobally f) = true
      ↔ Filter.shown.Admits s e := by
    simp [Filter.Admits, shownGlobally, holds_iff]
  unfold listsUnread
  rw [Bool.and_eq_true, Action.isUnreadOf_iff, hshown]
  simp [Query.Asks, Addition.unreadShown, Addition.Admits, Filter.Admits, and_assoc]

/-- What is marked is what of the list lies in feeds of the user. -/
theorem marksShown_eq (hs : s.Integrity) (user : Id) (e : Entry) :
    s.marksShown user e = (s.listsUnread user e && s.houses user e) := by
  have hfeed : s.isShownFeedOf user e.feedId = true
      ↔ (s.feeds.holds fun f => f.id == e.feedId && s.shownGlobally f) = true
        ∧ s.houses user e = true := by
    unfold isShownFeedOf houses
    rw [holds_iff, holds_iff, holds_iff]
    constructor
    · rintro ⟨f, hf, hp⟩
      simp only [Bool.and_eq_true, beq_iff_eq] at hp
      obtain ⟨⟨hid, huser⟩, hshown⟩ := hp
      exact ⟨⟨f, hf, by simp [hid, hshown]⟩, f, hf, ownFeed_iff.2 ⟨huser, hid⟩⟩
    · rintro ⟨⟨f, hf, hp⟩, g, hg, hown⟩
      obtain ⟨hid, hshown⟩ := Bool.and_eq_true_iff.1 hp
      obtain ⟨huser, hid'⟩ := ownFeed_iff.1 hown
      -- there is only one feed with that identifier
      obtain rfl := hs.feeds.distinct.eq_of_eq hf hg ((eq_of_beq hid).trans hid'.symm)
      exact ⟨f, hf, by simp [hid', huser, hshown]⟩
  unfold marksShown listsUnread
  rw [Bool.eq_iff_iff, Bool.and_eq_true, hfeed, Bool.and_eq_true, Bool.and_eq_true, and_assoc]

/-- The list is what is marked and what lies in feeds of somebody else. -/
theorem count_listsUnread (hs : s.Integrity) (user : Id) :
    s.entries.count (s.listsUnread user)
      = s.entries.count (s.marksShown user)
        + s.entries.count fun e => s.listsUnread user e && !s.houses user e := by
  have hmarked : s.entries.count (s.marksShown user)
      = s.entries.count fun e => s.listsUnread user e && s.houses user e :=
    congrArg s.entries.count (funext fun e => marksShown_eq hs user e)
  have hsplit := List.countP_eq_countP_filter_add s.entries.rows (s.listsUnread user)
    (s.houses user)
  rw [List.countP_filter, List.countP_filter] at hsplit
  rw [hmarked]
  exact hsplit

/-- After marking, only what lies in feeds of somebody else is left on the list. -/
theorem count_listsUnread_marked (hs : s.Integrity) (user : Id) (now : Int) :
    (s.entries.modify (s.marksShown user) (Entry.withStatus .read now)).count (s.listsUnread user)
      = s.entries.count fun e => s.listsUnread user e && !s.houses user e := by
  have hread (e : Entry) : s.listsUnread user (e.withStatus .read now) = false := by
    simp [listsUnread, Entry.isUnreadOf, Entry.hasStatus, Entry.withStatus]
  rw [count_modify fun e _ _ => hread e]
  congr 1
  funext e
  rw [marksShown_eq hs]
  cases s.listsUnread user e <;> simp

end Store

/-! ## Clearing the list -/

namespace Action

open Store

variable {s : Session} {user : Id}

theorem conditionsFit_unreadShown (user : Id) :
    (Query.built user Addition.unreadShown).ConditionsFit := by
  have hvalues : (Query.built user Addition.unreadShown).values = 2 := rfl
  have hdepth : Condition.depth (Query.built user Addition.unreadShown).allConditions = 8 := rfl
  refine ⟨by rw [hvalues]; decide, by rw [hdepth]; decide, fun c hc => ?_⟩
  have hc : c ∈ [Condition.status .unread, .shown] := hc
  rcases List.mem_pair.1 hc with rfl | rfl
  · rfl
  · rfl

theorem perform_countUnread (hr : s.Ready) (hs : s.store.Integrity) (user : Id) :
    (countUnread user).perform s = (.ok (s.store.entries.count (s.store.listsUnread user)), s) := by
  have hcount : ((Query.built user Addition.unreadShown).sorted s.store).length
      = s.store.entries.count (s.store.listsUnread user) :=
    (Query.denotes_sorted hs user _).length_eq hs fun e _ => listsUnread_iff
  show (countEntries (Query.built user Addition.unreadShown)).perform s = _
  rw [perform_countEntries hr (conditionsFit_unreadShown user), hcount]

theorem perform_markShown (hr : s.Ready) (user : Id) :
    (markShown user).perform s
      = (.ok (s.store.entries.count (s.store.marksShown user)),
        s.moving .read (s.store.marksShown user)) :=
  perform_markRead hr

end Action

/-- Marking the shown feeds of the user as read answers with the number that the global unread list
had, and leaves none on it. -/
def Session.ClearsUnread (s : Session) (user : Id) : Prop :=
  ∃ n t, (Action.countUnread user).perform s = (.ok n, s)
    ∧ (Action.markShown user).perform s = (.ok n, t)
    ∧ (Action.countUnread user).perform t = (.ok 0, t)

open FeedStore.Action in
/-- Marking clears the global unread list exactly if all that is on it lies in feeds of the user,
and then it marks what is on the list and nothing else. In any case it answers with the number of
those on the list that lie in feeds of the user, and the others stay. -/
theorem Reachable.clearsUnread_iff {s : Session} (hs : Reachable s) (user : Id) :
    (s.ClearsUnread user ↔ ∀ e ∈ s.store.entries.rows,
        Query.Asks user Addition.unreadShown s.store e → s.store.HasFeedOf user e.feedId)
      ∧ ((∀ e ∈ s.store.entries.rows,
          Query.Asks user Addition.unreadShown s.store e → s.store.HasFeedOf user e.feedId) →
        (markShown user).MarksAsked user Addition.unreadShown s)
      ∧ ∃ t own others, own = s.store.entries.count (s.store.marksShown user)
        ∧ others = s.store.entries.count (fun e =>
            s.store.listsUnread user e && !s.store.houses user e)
        ∧ (countUnread user).perform s = (.ok (own + others), s)
        ∧ (markShown user).perform s = (.ok own, t)
        ∧ (countUnread user).perform t = (.ok others, t) := by
  have hr := hs.ready
  have hint := hs.integrity
  let t := ((markShown user).perform s).2
  have hmark := perform_markShown hr user
  have hanswer : (markShown user).perform s
      = (.ok (s.store.entries.count (s.store.marksShown user)), t) :=
    Prod.ext (by rw [hmark]) rfl
  have ht : Reachable t := hs.step (.markShown user)
  have hbefore := perform_countUnread hr hint user
  have hafter := perform_countUnread ht.ready ht.integrity user
  have hleft : t.store.entries.count (t.store.listsUnread user)
      = s.store.entries.count fun e => s.store.listsUnread user e && !s.store.houses user e := by
    rw [show t = _ from congrArg Prod.snd hmark]
    exact Store.count_listsUnread_marked hint user s.now
  rw [hleft] at hafter
  rw [Store.count_listsUnread hint] at hbefore
  have hnone : (s.store.entries.count fun e =>
        s.store.listsUnread user e && !s.store.houses user e) = 0
      ↔ ∀ e ∈ s.store.entries.rows, Query.Asks user Addition.unreadShown s.store e →
        s.store.HasFeedOf user e.feedId := by
    unfold Table.count
    rw [List.countP_eq_zero]
    refine forall₂_congr fun e _ => ?_
    rw [← Store.listsUnread_iff, ← Store.houses_iff]
    cases s.store.listsUnread user e <;> cases s.store.houses user e <;> simp
  refine ⟨⟨fun hclears => ?_, fun hown => ?_⟩, fun hown => ?_, t, _, _, rfl, rfl, hbefore,
    hanswer, hafter⟩
  · obtain ⟨n, u, -, hu, hzero⟩ := hclears
    obtain rfl : u = t := congrArg Prod.snd hu.symm
    obtain ⟨hleft, -⟩ := Prod.mk.inj (hafter.symm.trans hzero)
    exact hnone.1 (Except.ok.inj hleft)
  · have hnone := hnone.2 hown
    rw [hnone] at hbefore hafter
    exact ⟨_, t, hbefore, hanswer, hafter⟩
  · refine marksAsked_markRead hs (conditionsFit_unreadShown user) List.mem_cons_self
      fun e he => ?_
    show s.store.marksShown user e = true ↔ _
    rw [Store.marksShown_eq hint, Bool.and_eq_true, Store.listsUnread_iff, Store.houses_iff]
    exact and_iff_left_of_imp (hown e he)

/-- Of two users with an unread entry each in the feed of the first one, only the first one clears
the list. -/
theorem Reachable.clearsUnread_iff_shared :
    Reachable .shared ∧ Session.shared.ClearsUnread 1 ∧ ¬ Session.shared.ClearsUnread 2 := by
  obtain ⟨howner, -⟩ := Reachable.shared.clearsUnread_iff 1
  obtain ⟨hother, -⟩ := Reachable.shared.clearsUnread_iff 2
  have hown : ∀ e ∈ Session.shared.store.entries.rows,
      Session.shared.store.listsUnread 1 e = true → Session.shared.store.houses 1 e = true := by
    decide +kernel
  have hforeign : ∃ e ∈ Session.shared.store.entries.rows,
      Session.shared.store.listsUnread 2 e = true ∧ Session.shared.store.houses 2 e = false := by
    decide +kernel
  refine ⟨.shared, howner.2 fun e he hasks => ?_, fun hclears => ?_⟩
  · exact Store.houses_iff.1 (hown e he (Store.listsUnread_iff.2 hasks))
  · obtain ⟨e, he, hlisted, hnot⟩ := hforeign
    have hfeed := hother.1 hclears e he (Store.listsUnread_iff.1 hlisted)
    exact Bool.false_ne_true (hnot.symm.trans (Store.houses_iff.2 hfeed))

/-- An entry in a shown feed of somebody else is counted and not marked. -/
theorem Reachable.not_forall_clearsUnread :
    ¬ ∀ (s : Session) (user : Id), Reachable s → s.ClearsUnread user := by
  intro h
  obtain ⟨n, t, hcount, hmark, -⟩ := h .shared 2 .shared
  have hone : ((Action.countUnread 2).perform .shared).1 = .ok 1 := by decide +kernel
  have hzero : ((Action.markShown 2).perform .shared).1 = .ok 0 := by decide +kernel
  rw [hcount] at hone
  rw [hmark] at hzero
  cases Except.ok.inj hone
  cases Except.ok.inj hzero

end FeedStore
