import FeedStore.Proofs.EntryChanges
import FeedStore.Proofs.Refusals

/-!
# What commands do to feeds

Four commands change feeds that are there: hiding one, noting a fetch or a failed fetch of one, and
forgetting the failures of all feeds of a user (`Command.edit`). All others leave them as they are or
take some of them away, and one creates a feed (`Command.Subscribes`). So every feed after a command
was there before, or the command has created it (`Command.origin_feed`), and what has become of a feed
that is still there is known exactly (`Command.eq_edit_of_id_eq`).
-/

namespace FeedStore

namespace Command

open Store

/-- What the command makes of a feed that is there. -/
def edit (c : Command) (now : Int) (f : Feed) : Feed :=
  match c with
  | hideFeed user feed hide => if ownFeed user feed f then { f with hideGlobally := hide } else f
  | updateFetchState user feed state => if ownFeed user feed f then f.fetched state else f
  | recordFeedError user feed message nextCheckAt =>
    if ownFeed user feed f then f.failed message now nextCheckAt else f
  | resetFeedErrors user => if f.userId == user then f.withoutErrors else f
  | _ => f

/-- The command creates the feed. -/
def Subscribes (c : Command) (s : Session) (f : Feed) : Prop :=
  match c with
  | createFeed user offer => ((Action.createFeed user offer).perform s).1 = .ok f
  | _ => False

end Command

/-! ## Answers -/

namespace Action

open Store

variable {s : Session} {user feed : Id}

theorem perform_createFeed (hr : s.Ready) (user : Id) (offer : FeedOffer) :
    (createFeed user offer).perform s =
      if (cleanOffer offer).feedUrl = "" then (.error (.invalidInput "feed URL cannot be empty"), s)
      else match s.store.addFeed user (cleanOffer offer) with
        | .ok (row, store) => (.ok row, { s with store })
        | .error fault =>
          let context := "unable to create feed " ++ Text.quoted (cleanOffer offer).feedUrl
          (.error (.ofFault context fault), s) := by
  unfold createFeed
  dsimp only
  split
  · rfl
  · unfold write
    rw [perform_writeWithin, hr.refusal? _ .empty]
    dsimp only
    cases s.store.addFeed user (cleanOffer offer) with
    | ok r => rfl
    | error fault => rfl

theorem perform_recordFeedError (hr : s.Ready) (user feed : Id) (message : String)
    (nextCheckAt : Int) :
    (recordFeedError user feed message nextCheckAt).perform s =
      let (count, store) := s.store.failFeed user feed message s.now nextCheckAt
      ((match count with
        | some count => .ok count
        | none => .error .nothingUpdated), { s with store }) := by
  unfold recordFeedError
  rw [perform_bind, perform_now]
  dsimp only
  rw [perform_bind, perform_change_of_ready hr]
  cases (s.store.failFeed user feed message s.now nextCheckAt).1 with
  | some count => rfl
  | none => rfl

end Action

/-! ## Feeds before and after -/

/-- The number of failures of a feed, with the one that is noted. -/
theorem Store.fst_failFeed_of_mem {s : Store} (hs : s.Integrity) {f : Feed}
    (hf : f ∈ s.feeds.rows) (message : String) (now nextCheckAt : Int) :
    (s.failFeed f.userId f.id message now nextCheckAt).1 = some (f.errorCount + 1) := by
  have hown : ownFeed f.userId f.id f = true := ownFeed_iff.2 ⟨rfl, rfl⟩
  have hmem : f.failed message now nextCheckAt
      ∈ (s.failFeed f.userId f.id message now nextCheckAt).2.feeds.rows :=
    Table.mem_rows_modify.2 ⟨f, hf, by rw [if_pos hown]⟩
  have hfind : (s.failFeed f.userId f.id message now nextCheckAt).2.feed? f.userId f.id
      = some (f.failed message now nextCheckAt) := by
    refine Table.find?_eq_some_of_unique hmem hown fun g hg hp => ?_
    obtain ⟨g₀, hg₀, rfl⟩ := Table.mem_rows_modify.1 hg
    by_cases hg₀own : ownFeed f.userId f.id g₀ = true
    · rw [hs.feeds.distinct.eq_of_eq hg₀ hf (ownFeed_iff.1 hg₀own).2, if_pos hown]
    · rw [if_neg hg₀own] at hp
      exact absurd hp hg₀own
  exact congrArg (Option.map (·.errorCount)) hfind

namespace Command

open Store

variable {c : Command} {s : Session} {f f' : Feed}

/-- The command has nothing to do with feeds. -/
def sparesFeeds : Command → Bool
  | createFeed _ _ | hideFeed _ _ _ | updateFetchState _ _ _ | recordFeedError _ _ _ _
  | resetFeedErrors _ => false
  | c => !c.erases

theorem feeds_next_of_spares (hr : s.Ready) (hs : s.store.Integrity) (hc : c.sparesFeeds = true) :
    (c.next s).store.feeds = s.store.feeds := by
  rcases c.writes_next hr hs with hsame | hw
  · rw [hsame]
  cases c with
  | createUser username =>
      obtain ⟨row, hadd⟩ := hw
      obtain ⟨-, -, ht⟩ := of_addUser hadd
      rw [ht]
  | createCategory user title hide =>
      obtain ⟨row, hadd⟩ := hw
      obtain ⟨-, -, -, ht⟩ := of_addCategory hadd
      rw [ht]
  | refreshFeed user feed cs update =>
      obtain ⟨front, created, -, hrun⟩ := hw
      exact congrArg (·.store.feeds) (Action.reconciles_reconcileAll hs hrun).spares
  | archive status days limit =>
      obtain ⟨cutoff, ht⟩ := hw
      rw [ht]
      rfl
  | share user entry drawn =>
      obtain ⟨n, hset⟩ := hw
      obtain ⟨-, -, ht⟩ := of_setShareCode hset
      rw [ht]
  | unshare user entry =>
      obtain ⟨n, hset⟩ := hw
      obtain ⟨-, -, ht⟩ := of_setShareCode hset
      rw [ht]
  | removeUserLater user => exact hw.elim
  | setClock now => exact hw.elim
  | createFeed | hideFeed | updateFetchState | recordFeedError | resetFeedErrors => cases hc
  | removeUser | removeCategory | removeFeed | sweep | runPending => cases hc
  | _ =>
      rw [show _ = _ from hw]
      rfl

theorem exists_new_of_rows_eq
    (h : (c.next s).store.feeds.rows = s.store.feeds.rows.map (c.edit s.now)) :
    ∃ new, (c.next s).store.feeds.rows = s.store.feeds.rows.map (c.edit s.now) ++ new
      ∧ ∀ f ∈ new, c.Subscribes s f :=
  ⟨[], by rw [h, List.append_nil], fun _ hf => nomatch hf⟩

/-- A command that can take no feed away changes those that are there as it does, and adds those that it
creates. -/
theorem rows_feeds_next (c : Command) (hr : s.Ready) (hs : s.store.Integrity)
    (hc : c.erases = false) :
    ∃ new, (c.next s).store.feeds.rows = s.store.feeds.rows.map (c.edit s.now) ++ new
      ∧ ∀ f ∈ new, c.Subscribes s f := by
  cases c with
  | createFeed user offer =>
      have hnext : (createFeed user offer).next s = ((Action.createFeed user offer).perform s).2 :=
        rfl
      have hcreates : ∀ f, (createFeed user offer).Subscribes s f
          ↔ ((Action.createFeed user offer).perform s).1 = .ok f := fun _ => Iff.rfl
      have hedit : (createFeed user offer).edit s.now = id := rfl
      simp only [hnext, hcreates]
      rw [hedit, List.map_id, Action.perform_createFeed hr]
      split
      · exact ⟨[], (List.append_nil _).symm, fun f hf => nomatch hf⟩
      · cases hadd : s.store.addFeed user (Action.cleanOffer offer) with
        | ok r =>
            obtain ⟨row, store⟩ := r
            obtain ⟨-, -, -, rfl, rfl⟩ := of_addFeed hadd
            exact ⟨[_], rfl, List.forall_mem_singleton.2 rfl⟩
        | error fault => exact ⟨[], (List.append_nil _).symm, fun f hf => nomatch hf⟩
  | hideFeed user feed hide =>
      refine exists_new_of_rows_eq ?_
      show ((Action.hideFeed user feed hide).perform s).2.store.feeds.rows = _
      rw [Action.hideFeed, Action.perform_change_orNothing_of_ready hr]
      rfl
  | updateFetchState user feed state =>
      refine exists_new_of_rows_eq ?_
      show ((Action.updateFetchState user feed state).perform s).2.store.feeds.rows = _
      rw [Action.updateFetchState, Action.perform_change_orNothing_of_ready hr]
      rfl
  | recordFeedError user feed message nextCheckAt =>
      refine exists_new_of_rows_eq ?_
      show ((Action.recordFeedError user feed message nextCheckAt).perform s).2.store.feeds.rows = _
      rw [Action.perform_recordFeedError hr]
      rfl
  | resetFeedErrors user =>
      refine exists_new_of_rows_eq ?_
      show ((Action.resetFeedErrors user).perform s).2.store.feeds.rows = _
      rw [Action.resetFeedErrors, Action.perform_change_of_ready hr]
      rfl
  | removeUser | removeCategory | removeFeed | sweep | runPending => cases hc
  | _ =>
      refine exists_new_of_rows_eq ?_
      rw [feeds_next_of_spares hr hs rfl]
      exact (List.map_id _).symm

/-- Every feed after a command is what the command has made of a feed, or one that it has created. -/
theorem origin_feed (c : Command) (hs : Reachable s) (hf' : f' ∈ (c.next s).store.feeds.rows) :
    (∃ f ∈ s.store.feeds.rows, f' = c.edit s.now f) ∨ c.Subscribes s f' := by
  cases hc : c.erases with
  | true =>
      have hedit : c.edit s.now = id := by
        cases c with
        | removeUser | removeCategory | removeFeed | sweep | runPending => rfl
        | _ => cases hc
      have hf : f' ∈ s.store.feeds.rows := (shrinks_next hs.ready hs.integrity hc).feeds hf'
      exact Or.inl ⟨f', hf, by rw [hedit]; rfl⟩
  | false =>
      obtain ⟨new, hrows, hnew⟩ := c.rows_feeds_next hs.ready hs.integrity hc
      rw [hrows] at hf'
      rcases List.mem_append.1 hf' with hold | hadded
      · obtain ⟨f, hf, rfl⟩ := List.mem_map.1 hold
        exact Or.inl ⟨f, hf, rfl⟩
      · exact Or.inr (hnew f' hadded)

/-- A feed that is created has what was offered and an identifier of its own, and nothing is known of
fetches. -/
theorem Subscribes.exists_offer (hr : s.Ready) (h : c.Subscribes s f) :
    ∃ user offer, f = FeedOffer.toFeed offer user (s.store.feeds.lastId + 1) := by
  cases c with
  | createFeed user offer =>
      have h : ((Action.createFeed user offer).perform s).1 = .ok f := h
      rw [Action.perform_createFeed hr] at h
      split at h
      · cases h
      · cases hadd : s.store.addFeed user (Action.cleanOffer offer) with
        | ok r =>
            obtain ⟨row, store⟩ := r
            rw [hadd] at h
            obtain rfl : row = f := Except.ok.inj h
            obtain ⟨-, -, -, hrow, -⟩ := of_addFeed hadd
            exact ⟨user, _, hrow⟩
        | error fault =>
            rw [hadd] at h
            cases h
  | _ => exact h.elim

theorem Subscribes.id_eq (hr : s.Ready) (h : c.Subscribes s f) :
    f.id = s.store.feeds.lastId + 1 := by
  obtain ⟨user, offer, rfl⟩ := h.exists_offer hr
  rfl

/-- No feed that is there has the identifier of one that is created. -/
theorem Subscribes.id_ne (hs : Reachable s) (h : c.Subscribes s f') (hf : f ∈ s.store.feeds.rows) :
    f'.id ≠ f.id := by
  have hbound : f.id ≤ s.store.feeds.lastId := hs.integrity.feeds.bounded f hf
  rw [h.id_eq hs.ready]
  unfold Id at *
  omega

@[simp] theorem id_edit (c : Command) (now : Int) (f : Feed) : (c.edit now f).id = f.id := by
  unfold edit
  split
  · split <;> rfl
  · split <;> rfl
  · split <;> rfl
  · split <;> rfl
  · rfl

@[simp] theorem userId_edit (c : Command) (now : Int) (f : Feed) :
    (c.edit now f).userId = f.userId := by
  unfold edit
  split
  · split <;> rfl
  · split <;> rfl
  · split <;> rfl
  · split <;> rfl
  · rfl

/-- A feed that is there before and after a command is what the command makes of it. -/
theorem eq_edit_of_id_eq (c : Command) (hs : Reachable s) (hf : f ∈ s.store.feeds.rows)
    (hf' : f' ∈ (c.next s).store.feeds.rows) (hid : f'.id = f.id) : f' = c.edit s.now f := by
  rcases c.origin_feed hs hf' with ⟨g, hg, rfl⟩ | hnew
  · rw [id_edit] at hid
    rw [hs.integrity.feeds.distinct.eq_of_eq hg hf hid]
  · exact absurd hid (hnew.id_ne hs hf)

end Command

end FeedStore
