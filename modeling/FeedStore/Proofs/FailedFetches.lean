import FeedStore.Proofs.FeedChanges
import Mathlib.Data.List.Induction

/-!
# Failed fetches over a run

A feed is stored with the number of its failures and the message of the last one. The record starts
over when the feed is created or fetched and when its owner has all failures forgotten
(`Command.StartsOver`). Along any run it tells of exactly the failures noted since then
(`Session.tells_failures_run`): a command either starts the record over or adds to it the failure that
it notes, if it notes one (`Feed.Tells.edit`).
-/

namespace FeedStore

/-! ## The record of a feed -/

/-- The feed has the record of these failures, the last of them behind. -/
structure Feed.Tells (f : Feed) (messages : List String) : Prop where
  count : f.errorCount = messages.length
  message : f.errorMessage = messages.getLastD ""

/-- The second row has the same record of failures, caching headers and schedule as the first one. -/
structure Feed.KeepsRecord (f f' : Feed) : Prop where
  errorCount : f'.errorCount = f.errorCount
  errorMessage : f'.errorMessage = f.errorMessage
  etagHeader : f'.etagHeader = f.etagHeader
  lastModifiedHeader : f'.lastModifiedHeader = f.lastModifiedHeader
  checkedAt : f'.checkedAt = f.checkedAt
  nextCheckAt : f'.nextCheckAt = f.nextCheckAt

theorem Feed.KeepsRecord.refl (f : Feed) : f.KeepsRecord f := ⟨rfl, rfl, rfl, rfl, rfl, rfl⟩

namespace Command

/-- With the command the record of a feed of the owner starts over. -/
def StartsOver (owner feed : Id) (c : Command) (s : Session) : Prop :=
  match c with
  | createFeed _ _ => ∃ f, c.Subscribes s f ∧ f.id = feed
  | updateFetchState _ id _ => id = feed ∧ c.error? s = none
  | resetFeedErrors user => user = owner
  | _ => False

/-- The message of the failure of the feed that the command notes, if it succeeds in noting one. -/
def failure? (feed : Id) (c : Command) (s : Session) : Option String :=
  match c with
  | recordFeedError _ id message _ => if id = feed ∧ c.error? s = none then some message else none
  | _ => none

/-- The owner of the feed has the command write its record. -/
def Concerns (c : Command) (f : Feed) : Prop :=
  match c with
  | updateFetchState user feed _ => f.userId = user ∧ f.id = feed
  | recordFeedError user feed _ _ => f.userId = user ∧ f.id = feed
  | resetFeedErrors user => f.userId = user
  | _ => False

variable {c : Command} {s : Session} {f : Feed} {user feed : Id}

/-- A command on one feed succeeds exactly for the owner. -/
theorem succeeds_iff_own (hs : Reachable s) (hf : f ∈ s.store.feeds.rows)
    (hτ : c.terms? s.store
      = some (.reaches (∀ f ∈ s.store.feeds.rows, ¬ (f.userId = user ∧ f.id = feed)))) :
    feed = f.id ∧ c.error? s = none ↔ Store.ownFeed user feed f = true := by
  have hexact := (Command.obeys hs.integrity hτ).exact hs.ready
  rw [Store.ownFeed_iff]
  constructor
  · rintro ⟨rfl, hnone⟩
    refine ⟨by_contra fun hforeign => ?_, rfl⟩
    have herror := (hexact _).2 (.missing fun g hg hown => hforeign ?_)
    · rw [hnone] at herror
      cases herror
    · rw [← hs.integrity.feeds.distinct.eq_of_eq hg hf hown.2]
      exact hown.1
  · rintro ⟨huser, hid⟩
    refine ⟨hid.symm, Option.eq_none_iff_forall_ne_some.2 fun e he => ?_⟩
    cases (hexact e).1 he with
    | missing h => exact h f hf ⟨huser, hid⟩

/-- A command on one feed does nothing for anybody else. -/
theorem misses_of_foreign (hs : Reachable s)
    (hτ : c.terms? s.store
      = some (.reaches (∀ f ∈ s.store.feeds.rows, ¬ (f.userId = user ∧ f.id = feed))))
    (hforeign : ∀ f ∈ s.store.feeds.rows, ¬ (f.userId = user ∧ f.id = feed)) :
    c.error? s = some .nothingUpdated ∧ c.next s = s := by
  have hobeys := Command.obeys hs.integrity hτ
  have herror := (hobeys.exact hs.ready _).2 (.missing hforeign)
  exact ⟨herror, hobeys.atomic (by rw [herror]; exact Option.some_ne_none _)⟩

/-- Only who is concerned finds the record changed. -/
theorem keepsRecord_edit (h : ¬ c.Concerns f) (now : Int) : f.KeepsRecord (c.edit now f) := by
  cases c with
  | hideFeed user feed hide =>
      unfold edit
      dsimp only
      split
      · exact ⟨rfl, rfl, rfl, rfl, rfl, rfl⟩
      · exact .refl f
  | updateFetchState user feed state =>
      rw [edit, if_neg fun hown => h (Store.ownFeed_iff.1 hown)]
      exact .refl f
  | recordFeedError user feed message nextCheckAt =>
      rw [edit, if_neg fun hown => h (Store.ownFeed_iff.1 hown)]
      exact .refl f
  | resetFeedErrors user =>
      rw [edit, if_neg fun hown => h (eq_of_beq hown)]
      exact .refl f
  | _ => exact .refl f

end Command

namespace Feed

open Command

variable {c : Command} {s : Session} {f f' : Feed} {messages : List String}

theorem Tells.of_keepsRecord (h : f.Tells messages) (hkeeps : f.KeepsRecord f') :
    f'.Tells messages :=
  ⟨hkeeps.errorCount.trans h.count, hkeeps.errorMessage.trans h.message⟩

/-- After a command that starts the record over, there is nothing in it. -/
theorem tells_edit_of_startsOver (hs : Reachable s) (hf : f ∈ s.store.feeds.rows)
    (h : c.StartsOver f.userId f.id s) : (c.edit s.now f).Tells [] := by
  cases c with
  | createFeed user offer =>
      obtain ⟨g, hnew, hid⟩ := h
      exact absurd hid (hnew.id_ne hs hf)
  | updateFetchState user feed state =>
      rw [Command.edit, if_pos ((succeeds_iff_own hs hf rfl).1 h)]
      exact ⟨rfl, rfl⟩
  | resetFeedErrors user =>
      rw [Command.edit, if_pos (beq_iff_eq.2 (Eq.symm h))]
      exact ⟨rfl, rfl⟩
  | _ => exact h.elim

/-- Any other command adds to the record the failure that it notes, if it notes one. -/
theorem Tells.edit (hs : Reachable s) (hf : f ∈ s.store.feeds.rows) (hf' : f.Tells messages)
    (h : ¬ c.StartsOver f.userId f.id s) :
    (c.edit s.now f).Tells (messages ++ (c.failure? f.id s).toList) := by
  have hkept : ∀ d : Command, ¬ d.Concerns f → d.failure? f.id s = none →
      (d.edit s.now f).Tells (messages ++ (d.failure? f.id s).toList) := by
    intro d hd hnone
    rw [hnone, Option.toList_none, List.append_nil]
    exact hf'.of_keepsRecord (keepsRecord_edit hd s.now)
  cases c with
  | updateFetchState user feed state =>
      refine hkept _ (fun hconcerned => h ?_) rfl
      exact (succeeds_iff_own hs hf rfl).2 (Store.ownFeed_iff.2 hconcerned)
  | resetFeedErrors user => exact hkept _ (fun hconcerned => h (Eq.symm hconcerned)) rfl
  | recordFeedError user feed message nextCheckAt =>
      have hsucceeds := succeeds_iff_own hs hf
        (c := .recordFeedError user feed message nextCheckAt) rfl
      by_cases hown : Store.ownFeed user feed f = true
      · have hnoted : (recordFeedError user feed message nextCheckAt).failure? f.id s
            = some message := if_pos (hsucceeds.2 hown)
        rw [hnoted, Command.edit, if_pos hown]
        constructor
        · show f.errorCount + 1 = _
          rw [hf'.count, Option.toList_some, List.length_append, List.length_singleton]
          rfl
        · show message = _
          rw [Option.toList_some, List.getLastD_concat]
      · refine hkept _ (fun hconcerned => hown (Store.ownFeed_iff.2 hconcerned)) ?_
        exact if_neg fun hboth => hown (hsucceeds.1 hboth)
  | _ => exact hkept _ not_false rfl

end Feed

/-! ## Along a run -/

namespace Session

/-- The messages of the failures of the feed that a run notes, in its order. -/
def failures (feed : Id) (s : Session) : List Command → List String
  | [] => []
  | c :: cs => (c.failure? feed s).toList ++ (c.next s).failures feed cs

/-- These are the messages of the failures of the feed that the run has noted since the record of the
feed last started over. -/
def Recent (s : Session) (owner feed : Id) (cs : List Command) (messages : List String) : Prop :=
  ∃ front c back, cs = front ++ c :: back
    ∧ c.StartsOver owner feed (s.run front)
    ∧ (c.next (s.run front)).RunsWithout (Command.StartsOver owner feed) back
    ∧ messages = (c.next (s.run front)).failures feed back

variable {s : Session} {owner feed : Id} {c : Command} {cs : List Command} {messages : List String}

theorem run_append (s : Session) (front back : List Command) :
    s.run (front ++ back) = (s.run front).run back :=
  List.foldl_append

theorem failures_concat (s : Session) (feed : Id) (cs : List Command) (c : Command) :
    s.failures feed (cs ++ [c]) = s.failures feed cs ++ (c.failure? feed (s.run cs)).toList := by
  induction cs generalizing s with
  | nil => exact List.append_nil _
  | cons d cs ih =>
      rw [List.cons_append, failures, failures, ih, List.append_assoc]
      rfl

theorem RunsWithout.concat {P : Command → Session → Prop} (h : s.RunsWithout P cs)
    (hc : ¬ P c (s.run cs)) : s.RunsWithout P (cs ++ [c]) := by
  induction cs generalizing s with
  | nil => exact .cons hc (runsWithout_of_forall fun _ hd => nomatch hd)
  | cons d cs ih => exact .cons h.head (ih h.tail hc)

theorem recent_of_startsOver (hc : c.StartsOver owner feed (s.run cs)) :
    s.Recent owner feed (cs ++ [c]) [] :=
  ⟨cs, c, [], rfl, hc, runsWithout_of_forall (fun _ hd => nomatch hd), rfl⟩

theorem Recent.concat (h : s.Recent owner feed cs messages)
    (hc : ¬ c.StartsOver owner feed (s.run cs)) :
    s.Recent owner feed (cs ++ [c]) (messages ++ (c.failure? feed (s.run cs)).toList) := by
  obtain ⟨front, d, back, rfl, hd, hback, rfl⟩ := h
  have hrun : s.run (front ++ d :: back) = (d.next (s.run front)).run back :=
    s.run_append front (d :: back)
  rw [hrun] at hc ⊢
  refine ⟨front, d, back ++ [c], ?_, hd, hback.concat hc, ?_⟩
  · rw [List.append_assoc, List.cons_append]
  · rw [failures_concat]

/-- Every feed at the end of a run has the record of its recent failures. -/
theorem exists_recent (now : Int) (cs : List Command) {f : Feed}
    (hf : f ∈ (({ now } : Session).run cs).store.feeds.rows) :
    ∃ messages, ({ now } : Session).Recent f.userId f.id cs messages ∧ f.Tells messages := by
  induction cs using List.reverseRecOn generalizing f with
  | nil => cases hf
  | append_singleton cs c ih =>
      have hs : Reachable (({ now } : Session).run cs) := (Reachable.fresh now).run cs
      rw [run_append] at hf
      rcases c.origin_feed hs hf with ⟨g, hg, rfl⟩ | hnew
      · obtain ⟨messages, hrecent, htells⟩ := ih hg
        rw [Command.userId_edit, Command.id_edit]
        by_cases hc : c.StartsOver g.userId g.id (({ now } : Session).run cs)
        · exact ⟨[], recent_of_startsOver hc, Feed.tells_edit_of_startsOver hs hg hc⟩
        · exact ⟨_, hrecent.concat hc, htells.edit hs hg hc⟩
      · have hc : c.StartsOver f.userId f.id (({ now } : Session).run cs) := by
          cases c with
          | createFeed user offer => exact ⟨f, hnew, rfl⟩
          | _ => exact hnew.elim
        obtain ⟨user, offer, rfl⟩ := hnew.exists_offer hs.ready
        exact ⟨[], recent_of_startsOver hc, rfl, rfl⟩

/-- After any run the record of every feed tells of its recent failures, the owner who notes one more is
told how many there are with it, and nobody else reaches the record: noting a fetch or a failure of a
feed of somebody else does nothing, forgetting the failures leaves other users' feeds as they are, and
the other commands change neither the record nor the caching headers nor the schedule. -/
theorem tells_failures_run {now : Int} {cs : List Command} {s : Session}
    (hrun : ({ now } : Session).run cs = s) :
    (∀ f ∈ s.store.feeds.rows, ∃ messages,
        ({ now } : Session).Recent f.userId f.id cs messages ∧ f.Tells messages
          ∧ (∀ message nextCheckAt,
            ((Action.recordFeedError f.userId f.id message nextCheckAt).perform s).1
                = .ok (messages ++ [message]).length
              ∧ ({ now } : Session).Recent f.userId f.id
                (cs ++ [.recordFeedError f.userId f.id message nextCheckAt]) (messages ++ [message]))
          ∧ ∀ user ≠ f.userId, f ∈ (Command.next (.resetFeedErrors user) s).store.feeds.rows)
      ∧ (∀ user feed, (∀ f ∈ s.store.feeds.rows, ¬ (f.userId = user ∧ f.id = feed)) →
          (∀ message nextCheckAt,
            (Command.recordFeedError user feed message nextCheckAt).error? s = some .nothingUpdated
              ∧ (Command.recordFeedError user feed message nextCheckAt).next s = s)
          ∧ ∀ state, (Command.updateFetchState user feed state).error? s = some .nothingUpdated
              ∧ (Command.updateFetchState user feed state).next s = s)
      ∧ ∀ c : Command, ∀ f ∈ s.store.feeds.rows, ∀ f' ∈ (c.next s).store.feeds.rows,
          f'.id = f.id → ¬ c.Concerns f → f.KeepsRecord f' := by
  subst hrun
  have hs : Reachable (({ now } : Session).run cs) := (Reachable.fresh now).run cs
  refine ⟨fun f hf => ?_, fun user feed hforeign => ?_, fun c f hf f' hf' hid hc => ?_⟩
  · obtain ⟨messages, hrecent, htells⟩ := exists_recent now cs hf
    refine ⟨messages, hrecent, htells, fun message nextCheckAt => ⟨?_, ?_⟩, fun user huser => ?_⟩
    · rw [Action.perform_recordFeedError hs.ready]
      dsimp only
      rw [Store.fst_failFeed_of_mem hs.integrity hf, htells.count, List.length_append]
      rfl
    · have hsucceeds := (Command.succeeds_iff_own hs hf rfl
        (c := .recordFeedError f.userId f.id message nextCheckAt)).2 (Store.ownFeed_iff.2 ⟨rfl, rfl⟩)
      have hnoted : (Command.recordFeedError f.userId f.id message nextCheckAt).failure? f.id
          (({ now } : Session).run cs) = some message := if_pos hsucceeds
      have hlonger := hrecent.concat
        (c := .recordFeedError f.userId f.id message nextCheckAt) not_false
      rwa [hnoted, Option.toList_some] at hlonger
    · obtain ⟨new, hrows, -⟩ :=
        (Command.resetFeedErrors user).rows_feeds_next hs.ready hs.integrity rfl
      rw [hrows]
      refine List.mem_append_left _ (List.mem_map.2 ⟨f, hf, ?_⟩)
      exact if_neg fun hown => huser (eq_of_beq hown).symm
  · exact ⟨fun message nextCheckAt => Command.misses_of_foreign hs rfl hforeign,
      fun state => Command.misses_of_foreign hs rfl hforeign⟩
  · rw [c.eq_edit_of_id_eq hs hf hf' hid]
    exact Command.keepsRecord_edit hc _

/-- A feed fails, is fetched, and fails twice more; in between somebody else claims a failure. -/
theorem tells_failures_run_fetched :
    ∃ cs s f messages, ({ now := 0 } : Session).run cs = s ∧ f ∈ s.store.feeds.rows
      ∧ ({ now := 0 } : Session).Recent f.userId f.id cs messages ∧ messages.length = 2
      ∧ messages.getLastD "" = "gone"
      ∧ ((Action.recordFeedError f.userId f.id "gone" 7).perform s).1 = .ok 3
      ∧ (Command.recordFeedError 2 f.id "gone" 7).error? s = some .nothingUpdated := by
  let cs : List Command :=
    [.createUser "ann", .createCategory 1 "news" false, .createFeed 1 (.bare 1 "a"),
      .recordFeedError 1 1 "slow" 1,
      .updateFetchState 1 1
        { etagHeader := "", lastModifiedHeader := "", checkedAt := 2, nextCheckAt := 3 },
      .recordFeedError 1 1 "slow" 4, .recordFeedError 2 1 "lost" 5, .recordFeedError 1 1 "gone" 6]
  have hrun : ({ now := 0 } : Session).run cs = ({ now := 0 } : Session).run cs := rfl
  obtain ⟨hfeeds, hforeign, -⟩ := tells_failures_run hrun
  obtain ⟨f, hf, hid, hcount, hmessage⟩ : ∃ f ∈ (({ now := 0 } : Session).run cs).store.feeds.rows,
      f.id = 1 ∧ f.errorCount = 2 ∧ f.errorMessage = "gone" := by decide +kernel
  obtain ⟨messages, hrecent, htells, hanswer, -⟩ := hfeeds f hf
  have hlength : messages.length = 2 := Int.natCast_inj.1 (htells.count.symm.trans hcount)
  have howners : ∀ f ∈ (({ now := 0 } : Session).run cs).store.feeds.rows, f.userId ≠ 2 := by
    decide +kernel
  refine ⟨cs, _, f, messages, rfl, hf, hrecent, hlength, htells.message.symm.trans hmessage, ?_, ?_⟩
  · rw [(hanswer "gone" 7).1, List.length_append, hlength]
    rfl
  · exact ((hforeign 2 f.id fun g hg hown => howners g hg hown.1).1 "gone" 7).1

end Session

end FeedStore
