import FeedStore.Proofs.EnclosureReads
import FeedStore.Proofs.EntryChanges
import FeedStore.Proofs.Parts
import FeedStore.Proofs.Progress

/-!
# Tags come back as they were written

A diary is kept beside a run, of the candidates that have been written to a feed
(`Session.written`). Only a refresh writes tags, so what is stored with an entry are at all times
the tags of the candidate that has been written last to its feed under its hash (`Store.TaggedBy`,
kept by a candidate, by a batch and by every command). Whoever reads the entry gets these tags back,
whatever they are, and never an error about them (`Session.carriesTags_run`). An entry that a
refresh gives back has been read when it was created, so it has the tags of its first candidate,
also if a later one of the same batch has been written over it since
(`Session.not_forall_created_lastWritten`).
-/

namespace FeedStore

/-! ## What has been written -/

/-- The candidate that has been written last to the feed under the hash. The two tell an entry
apart, so it is the one that the entry shows. -/
def lastWritten? (feed : Id) (hash : String) (log : List (Id × Candidate)) : Option Candidate :=
  Candidate.last? hash ((log.filter (·.1 == feed)).map (·.2))

namespace Action

/-- What a batch writes to the feed, up to the first candidate that fails: newcomers, and with
updates the other candidates as well. -/
def written (user feed : Id) (update : Bool) : List Candidate → Session → List (Id × Candidate)
  | [], _ => []
  | c :: cs, s =>
    match (transaction .refresh (reconcile user feed update c)).perform s with
    | (.error _, _) => []
    | (.ok created, t) =>
      (if created.isSome || update then [(feed, c)] else []) ++ written user feed update cs t

end Action

/-- What a command writes to a feed. -/
def Command.written (c : Command) (s : Session) : List (Id × Candidate) :=
  match c with
  | refreshFeed user feed cs update => Action.written user feed update cs s
  | _ => []

/-- What the commands of a run write to feeds, oldest first. -/
def Session.written (s : Session) : List Command → List (Id × Candidate)
  | [] => []
  | c :: cs => c.written s ++ (c.next s).written cs

section

variable {feed : Id} {hash : String} {c : Candidate} {cs : List Candidate}
  {log log' : List (Id × Candidate)}

theorem lastWritten?_append :
    lastWritten? feed hash (log ++ log')
      = (lastWritten? feed hash log').or (lastWritten? feed hash log) := by
  simp [lastWritten?, Candidate.last?, List.getLast?_append]

theorem lastWritten?_concat_self :
    lastWritten? feed c.hash (log ++ [(feed, c)]) = some c := by
  simp [lastWritten?, Candidate.last?]

theorem lastWritten?_concat_of_ne {other : Id} (h : ¬ (other = feed ∧ hash = c.hash)) :
    lastWritten? other hash (log ++ [(feed, c)]) = lastWritten? other hash log := by
  have hnone : lastWritten? other hash [(feed, c)] = none := by
    by_cases hfeed : feed = other
    · have hne : c.hash ≠ hash := fun heq => h ⟨hfeed.symm, heq.symm⟩
      simp [lastWritten?, Candidate.last?, hfeed, hne]
    · simp [lastWritten?, Candidate.last?, hfeed]
  rw [lastWritten?_append, hnone, Option.none_or]

theorem lastWritten?_map (cs : List Candidate) :
    lastWritten? feed hash (cs.map (feed, ·)) = Candidate.last? hash cs := by
  simp [lastWritten?, List.filter_map, Function.comp_def]

end

/-! ## What is stored -/

/-- The tags of every entry are stored as those of the candidate that has been written last. -/
def Store.TaggedBy (log : List (Id × Candidate)) (s : Store) : Prop :=
  ∀ e ∈ s.entries.rows, ∃ c, lastWritten? e.feedId e.hash log = some c
    ∧ e.tags = Json.TextArray.encode c.tags

namespace Action

open Store

variable {user feed : Id} {update : Bool} {c : Candidate} {cs : List Candidate} {s t : Session}
  {log : List (Id × Candidate)}

/-- A candidate that goes through is noted if it has been written, and then its entry has its
tags. -/
theorem Settles.taggedBy {r : Option EntryView} (h : Settles user feed update c s t r)
    (hs : s.store.TaggedBy log) :
    t.store.TaggedBy (log ++ if r.isSome || update then [(feed, c)] else []) := by
  cases h with
  | known hmem hrows _ =>
      intro e' he'
      rw [hrows] at he'
      obtain ⟨e, he, rfl⟩ := List.mem_map.1 he'
      obtain ⟨d, hd, htags⟩ := hs e he
      cases update with
      | false =>
          rw [Entry.seen_false]
          exact ⟨d, by simpa using hd, htags⟩
      | true =>
          show ∃ d, lastWritten? _ _ (log ++ [(feed, c)]) = some d ∧ _
          by_cases hitem : e.isItem feed c.hash = true
          · have hseen : e.seen feed true s.now c = e.refreshed c s.now := by
              rw [Entry.seen, hitem]
              rfl
            obtain ⟨hfeed, hhash⟩ := Entry.isItem_iff.1 hitem
            rw [hseen]
            refine ⟨c, ?_, rfl⟩
            show lastWritten? e.feedId e.hash _ = _
            rw [hfeed, hhash]
            exact lastWritten?_concat_self
          · rw [Entry.seen_of_not_isItem (Bool.not_eq_true _ ▸ hitem),
              lastWritten?_concat_of_ne fun h => hitem (Entry.isItem_iff.2 h)]
            exact ⟨d, hd, htags⟩
  | @new v f hnew hentries _ _ _ =>
      show t.store.TaggedBy (log ++ [(feed, c)])
      intro e he
      rw [hentries, Table.rows_add, List.mem_append, List.mem_singleton] at he
      rcases he with he | rfl
      · obtain ⟨d, hd, htags⟩ := hs e he
        rw [lastWritten?_concat_of_ne fun h => hnew (mem_hashes.2 ⟨e, he, h⟩)]
        exact ⟨d, hd, htags⟩
      · exact ⟨c, lastWritten?_concat_self, rfl⟩

/-- However far a batch gets, what it has written is noted. -/
theorem taggedBy_reconcileAll {r : Except StoreError (List EntryView)} (hs : s.store.Integrity)
    (h : (reconcileAll user feed update cs).perform s = (r, t)) (htagged : s.store.TaggedBy log) :
    t.store.TaggedBy (log ++ written user feed update cs s) := by
  induction cs generalizing s log r with
  | nil =>
      cases h
      rw [written, List.append_nil]
      exact htagged
  | cons c cs ih =>
      rw [reconcileAll, perform_bind] at h
      have hev := evolves_reconcile user feed update c s
      cases hc : (transaction .refresh (reconcile user feed update c)).perform s with
      | mk created u =>
          rw [hc] at h
          rw [written, hc]
          cases created with
          | error e =>
              cases h
              obtain rfl := eq_of_perform_transaction_error hev hc
              rw [List.append_nil]
              exact htagged
          | ok created =>
              have hstep := of_perform_transaction hc
              have hu : u.store.Integrity := hs.steps (hev.of_perform hstep).store
              have hsettles := (reconcile_settles hs hstep).2.2
              rw [← List.append_assoc]
              dsimp only at h
              rw [perform_bind] at h
              cases hrest : (reconcileAll user feed update cs).perform u with
              | mk more w =>
                  rw [hrest] at h
                  obtain rfl : w = t := by
                    cases more with
                    | error e => exact congrArg Prod.snd h
                    | ok more => exact congrArg Prod.snd h
                  exact ih hu hrest (hsettles.taggedBy htagged)

end Action

namespace Command

variable {c : Command} {s : Session} {log : List (Id × Candidate)}

/-- Nothing but a refresh changes tags. -/
theorem Edits.tags {e e' : Entry} (h : c.Edits s e e')
    (hc : ∀ user feed cs update, c ≠ refreshFeed user feed cs update) : e'.tags = e.tags := by
  cases h with
  | refresh h _ => exact absurd h (hc _ _ _ _)
  | _ => rfl

/-- A command that is no refresh writes nothing, and leaves tags as they are. -/
theorem taggedBy_next_of_not_refresh (hs : Reachable s) (htagged : s.store.TaggedBy log)
    (hc : ∀ user feed cs update, c ≠ refreshFeed user feed cs update) :
    (c.next s).store.TaggedBy (log ++ c.written s) := by
  have hnone : c.written s = [] := by
    cases c with
    | refreshFeed user feed cs update => exact absurd rfl (hc user feed cs update)
    | _ => rfl
  rw [hnone, List.append_nil]
  intro e' he'
  rcases c.origin_next hs he' with ⟨e, he, rfl | hedit⟩ | hadds
  · exact htagged e' he
  · obtain ⟨d, hd, htags⟩ := htagged e he
    have hendures := hedit.endures
    exact ⟨d, by rw [hendures.feedId, hendures.hash, hd], (hedit.tags hc).trans htags⟩
  · cases c with
    | refreshFeed user feed cs update => exact absurd rfl (hc user feed cs update)
    | _ => exact hadds.elim

theorem taggedBy_next (c : Command) (hs : Reachable s) (htagged : s.store.TaggedBy log) :
    (c.next s).store.TaggedBy (log ++ c.written s) := by
  cases c with
  | refreshFeed user feed cs update =>
      show ((Action.refreshFeed user feed cs update).perform s).2.store.TaggedBy _
      rw [Action.perform_refreshFeed]
      cases hrun : (Action.reconcileAll user feed update cs).perform s with
      | mk r t =>
          have htags := Action.taggedBy_reconcileAll hs.integrity hrun htagged
          cases r with
          | error e => exact htags
          | ok created => exact htags
  | _ => exact taggedBy_next_of_not_refresh hs htagged fun _ _ _ _ h => by cases h

end Command

theorem Session.taggedBy_run {s : Session} {log : List (Id × Candidate)} (hs : Reachable s)
    (htagged : s.store.TaggedBy log) (cs : List Command) :
    (s.run cs).store.TaggedBy (log ++ s.written cs) := by
  induction cs generalizing s log with
  | nil =>
      rw [written, List.append_nil]
      exact htagged
  | cons c cs ih =>
      rw [written, ← List.append_assoc]
      exact ih (hs.step c) (c.taggedBy_next hs htagged)

/-! ## Errors about tags -/

namespace Action

variable {α β : Type}

/-- The action does not fail on the tags of an entry. -/
def DecodesTags (a : Action α) (s : Session) : Prop :=
  ∀ id t, a.perform s ≠ (.error (.invalidTags id), t)

/-- The action has nothing to do with tags: it does not fail on them, whatever is stored. -/
def LeavesTags (a : Action α) : Prop := ∀ s, a.DecodesTags s

theorem ofFault_ne_invalidTags (context : String) (fault : Fault) (id : Id) :
    StoreError.ofFault context fault ≠ .invalidTags id := by
  cases fault <;> exact fun h => by cases h

namespace LeavesTags

theorem pure (a : α) : (Pure.pure a : Action α).LeavesTags := by
  intro s id t h
  cases h

theorem bind {a : Action α} {f : α → Action β} (ha : a.LeavesTags) (hf : ∀ x, (f x).LeavesTags) :
    (a >>= f).LeavesTags := by
  intro s id t h
  rw [perform_bind] at h
  cases hrun : a.perform s with
  | mk r u =>
      rw [hrun] at h
      cases r with
      | error e =>
          cases h
          exact ha s id t hrun
      | ok x => exact hf x u id t h

theorem readWithin (extent : Extent) (context : String) (tables : List TableName)
    (f : Store → Except Fault α) : (Action.readWithin extent context tables f).LeavesTags := by
  intro s id t h
  rw [perform_readWithin] at h
  split at h
  · exact ofFault_ne_invalidTags _ _ _ (Except.error.inj (congrArg Prod.fst h))
  · cases hf : f s.store with
    | error fault =>
        rw [hf] at h
        exact ofFault_ne_invalidTags _ _ _ (Except.error.inj (congrArg Prod.fst h))
    | ok a =>
        rw [hf] at h
        cases h

theorem transaction {purpose : Purpose} {body : Action α} (h : body.LeavesTags) :
    (Action.transaction purpose body).LeavesTags := by
  intro s id t hrun
  rw [perform_transaction] at hrun
  split at hrun
  · cases hbody : body.perform s with
    | mk r u =>
        rw [hbody] at hrun
        cases r with
        | error e =>
            cases hrun
            exact h s id u hbody
        | ok a => cases hrun
  · cases hrun

end LeavesTags

theorem leavesTags_neighbour (trail : Trail) (side : Side) (time : Int) :
    (neighbour trail side time).LeavesTags :=
  .readWithin _ _ _ _

/-- Looking for neighbours decodes no tags. -/
theorem leavesTags_neighbours (trail : Trail) : (neighbours trail).LeavesTags := by
  have hascending : (ascendingNeighbours trail).LeavesTags := by
    refine .bind (.readWithin _ _ _ _) fun time => ?_
    cases time with
    | none => exact .pure _
    | some time =>
        exact .bind (leavesTags_neighbour trail .before time) fun _ =>
          .bind (leavesTags_neighbour trail .after time) fun _ => .pure _
  refine .bind hascending.transaction fun found => ?_
  cases trail.direction with
  | ascending => exact .pure _
  | descending => exact .pure _

open Store

variable {user feed : Id} {update : Bool} {c : Candidate} {cs : List Candidate} {s t : Session}

/-- No entry of another user is updated. -/
theorem perform_updateEntry_of_foreign (hr : s.Ready)
    (h : ¬ ∃ e ∈ s.store.entries.rows, e.userId = user ∧ e.isItem feed c.hash = true) :
    ((updateEntry user feed c).perform s).1 = .error .nothingUpdated := by
  have hnone : (s.store.refreshEntry user feed c s.now).1 = none := by
    refine Option.map_eq_none_iff.2 (List.find?_eq_none.2 fun e he hp => h ⟨e, he, ?_⟩)
    obtain ⟨howner, hitem⟩ := Bool.and_eq_true_iff.1 hp
    exact ⟨eq_of_beq howner, hitem⟩
  unfold updateEntry
  rw [perform_bind, perform_now]
  dsimp only
  rw [perform_bind, perform_change_of_ready hr, hnone]
  rfl

/-- No entry is created without its user and its feed. -/
theorem perform_createEntry_of_missing (hr : s.Ready)
    (h : ¬ (s.store.hasUser user = true ∧ s.store.hasFeed feed = true)) :
    ((createEntry user feed c).perform s).1 = .error (.query
      ("unable to create entry " ++ Text.quoted c.url ++ " (feed #" ++ toString feed ++ ")")
      .foreignKey) := by
  have hadd : s.store.addEntry user feed c s.now = .error .foreignKey := by
    unfold Store.addEntry
    refine if_pos ?_
    rw [← Bool.not_and, Bool.not_eq_true', ← Bool.not_eq_true, Bool.and_eq_true]
    exact h
  unfold createEntry write
  rw [perform_bind, perform_now]
  dsimp only
  rw [perform_bind, perform_writeWithin, hr.refusal? _ .empty, hadd]
  rfl

/-- There are two reasons only why a candidate fails: its entry is somebody else's, or there is no
such user or feed. -/
theorem error_of_perform_reconcile (hr : s.Ready) (hs : s.store.Integrity)
    (hreadable : s.store.Readable) {e : StoreError}
    (h : (reconcile user feed update c).perform s = (.error e, t)) :
    e = .nothingUpdated ∨ ∃ context, e = .query context .foreignKey := by
  have hrun := h
  unfold reconcile itemExists at hrun
  rw [perform_bind, perform_read_of_ready hr] at hrun
  dsimp only at hrun
  by_cases hmem : c.hash ∈ s.store.hashes feed
  · rw [if_pos (item?_isSome.2 hmem)] at hrun
    cases update with
    | false => cases hrun
    | true =>
        by_cases hown : ∃ e ∈ s.store.entries.rows, e.userId = user ∧ e.isItem feed c.hash = true
        · obtain ⟨a, ha, howner, hitem⟩ := hown
          obtain ⟨u, hupdate⟩ := exists_perform_updateEntry hr
            (howner ▸ hs.entryUser a ha) ha howner hitem
          rw [perform_reconcile_of_known hr hmem hupdate] at h
          cases h
        · have hforeign := perform_updateEntry_of_foreign hr hown
          rw [if_pos rfl, perform_bind] at hrun
          cases hupdate : (updateEntry user feed c).perform s with
          | mk r u =>
              rw [hupdate] at hforeign hrun
              obtain rfl : r = .error .nothingUpdated := hforeign
              cases hrun
              exact Or.inl rfl
  · rw [if_neg fun hsome => hmem (item?_isSome.1 hsome), perform_bind] at hrun
    by_cases hthere : s.store.hasUser user = true ∧ s.store.hasFeed feed = true
    · obtain ⟨v, u, hcreate⟩ :=
        exists_perform_createEntry hr hs hreadable hthere.1 hthere.2 hmem
      rw [perform_reconcile_of_new hr hmem hcreate] at h
      cases h
    · have hmissing := perform_createEntry_of_missing (c := c) hr hthere
      cases hcreate : (createEntry user feed c).perform s with
      | mk r u =>
          rw [hcreate] at hmissing hrun
          obtain rfl : r = .error _ := hmissing
          cases hrun
          exact Or.inr ⟨_, rfl⟩

/-- So a refresh does not fail on tags either. -/
theorem perform_refreshFeed_ne_invalidTags (hs : Reachable s) (id : Id) :
    (refreshFeed user feed cs update).perform s ≠ (.error (.invalidTags id), t) := by
  intro h
  rw [perform_refreshFeed_error_iff] at h
  obtain ⟨k, c, created, -, hfront, hfail⟩ := exists_of_perform_reconcileAll_error h
  have hev := (evolves_reconcileAll user feed update (cs.take k) s).of_perform hfront
  have ht : t.Ready := hev.access.trans hs.ready
  have hopen : t.access.isOpen = true := by rw [show t.access = {} from ht]
  rw [perform_reconcileAll_singleton, perform_transaction, if_pos hopen] at hfail
  cases hrec : (reconcile user feed update c).perform t with
  | mk r u =>
      rw [hrec] at hfail
      cases r with
      | ok r => cases hfail
      | error e =>
          have hreasons := error_of_perform_reconcile ht (hs.integrity.steps hev.store)
            (hs.readable.steps hev.store) hrec
          obtain rfl : e = .invalidTags id := Except.error.inj (congrArg Prod.fst hfail)
          rcases hreasons with hreason | ⟨context, hreason⟩
          · cases hreason
          · cases hreason

/-! ## New entries -/

/-- A batch that has gone through has written its newcomers, and with updates all of it. -/
theorem written_of_ok {created : List EntryView} (hs : s.store.Integrity)
    (h : (reconcileAll user feed update cs).perform s = (.ok created, t)) :
    written user feed update cs s
      = (if update then cs else Candidate.newcomers (s.store.hashes feed) cs).map (feed, ·) := by
  induction cs generalizing s t created with
  | nil => cases update <;> rfl
  | cons c cs ih =>
      unfold reconcileAll at h
      obtain ⟨r, u, htrans, hrest⟩ := of_perform_bind h
      obtain ⟨more, w, hmore, -⟩ := of_perform_bind hrest
      have hstep := of_perform_transaction htrans
      have hu : u.store.Integrity :=
        hs.steps ((evolves_reconcile user feed update c s).of_perform hstep).store
      rw [written, htrans]
      dsimp only
      rw [ih hu hmore]
      cases (reconcile_settles hs hstep).2.2 with
      | known hmem hrows _ =>
          rw [Candidate.newcomers, if_pos hmem,
            Candidate.newcomers_congr (hashes_of_known hrows) cs]
          cases update <;> rfl
      | new hnew hentries _ _ _ =>
          rw [Candidate.newcomers, if_neg hnew,
            Candidate.newcomers_congr (hashes_of_new hentries) cs]
          cases update <;> rfl

end Action

namespace Candidate

variable {c : Candidate} {cs front back : List Candidate}

theorem last?_append_cons (h : c.hash ∉ back.map (·.hash)) :
    last? c.hash (front ++ c :: back) = some c := by
  have hback : back.filter (·.hash == c.hash) = [] := by
    refine List.filter_eq_nil_iff.2 fun d hd heq => h ?_
    exact List.mem_map.2 ⟨d, hd, eq_of_beq heq⟩
  simp [last?, hback]

/-- A newcomer is the only one of its hash. -/
theorem last?_newcomers {known : List String} (h : c ∈ newcomers known cs) :
    last? c.hash (newcomers known cs) = some c := by
  obtain ⟨front, back, hsplit⟩ := List.append_of_mem h
  have hpairwise := pairwise_hash_newcomers known cs
  rw [hsplit, List.pairwise_append, List.pairwise_cons] at hpairwise
  rw [hsplit]
  refine last?_append_cons fun hmem => ?_
  obtain ⟨d, hd, heq⟩ := List.mem_map.1 hmem
  exact hpairwise.2.1.1 d hd heq.symm

end Candidate

/-- The view has the tags of the first candidate of its hash. That is the one that the batch has
written last, unless it comes with updates and a later candidate has the same hash. -/
def Candidate.TagsFirst (feed : Id) (update : Bool) (cs : List Candidate)
    (log : List (Id × Candidate)) (v : EntryView) : Prop :=
  ∃ front c back, cs = front ++ c :: back ∧ c.hash = v.hash ∧ v.hash ∉ front.map (·.hash)
    ∧ v.feedId = feed ∧ v.tags = c.tags
    ∧ (update = false ∨ v.hash ∉ back.map (·.hash) → lastWritten? feed v.hash log = some c)

namespace Action

variable {user feed : Id} {update : Bool} {cs : List Candidate} {s t : Session}

theorem tagsFirst_of_created {created : List EntryView} {log : List (Id × Candidate)}
    (hs : s.store.Integrity)
    (h : (reconcileAll user feed update cs).perform s = (.ok created, t)) {v : EntryView}
    (hv : v ∈ created) :
    Candidate.TagsFirst feed update cs (log ++ written user feed update cs s) v := by
  have hmakes := (reconciles_reconcileAll hs h).makes
  obtain ⟨c, hc, f, hfind, hview⟩ := exists_of_forall₂ hmakes hv
  obtain ⟨-, front, back, hsplit, hfront⟩ := Candidate.mem_newcomers.1 hc
  have hfeed : f.id = feed := by simpa using List.find?_some hfind
  have hhash : v.hash = c.hash := by rw [hview.view]; rfl
  refine ⟨front, c, back, hsplit, hhash.symm, ?_, by rw [hview.view]; exact hfeed,
    by rw [hview.view]; rfl, fun hlast => ?_⟩
  · rw [hhash]
    intro hmem
    obtain ⟨d, hd, heq⟩ := List.mem_map.1 hmem
    exact hfront d hd heq
  · rw [hhash] at hlast ⊢
    rw [lastWritten?_append, written_of_ok hs h, lastWritten?_map]
    have hbatch : Candidate.last? c.hash
        (if update then cs else Candidate.newcomers (s.store.hashes feed) cs) = some c := by
      cases update with
      | false => exact Candidate.last?_newcomers hc
      | true =>
          rw [if_pos rfl, hsplit]
          exact Candidate.last?_append_cons (hlast.resolve_left (Bool.noConfusion ·))
    rw [hbatch, Option.some_or]

end Action

/-! ## All reads -/

open FeedStore.Action in
/-- Whoever reads an entry gets the tags of the candidate that has been written last to its feed
under its hash, as the log has it. -/
structure Session.CarriesTags (s : Session) (log : List (Id × Candidate)) : Prop where
  /-- What is stored decodes. -/
  stored : ∀ e ∈ s.store.entries.rows, ∃ c, lastWritten? e.feedId e.hash log = some c
    ∧ Json.TextArray.decode? e.tags = some c.tags
  /-- Every entry is found when its user asks for it, and comes with these tags. -/
  found : ∀ e ∈ s.store.entries.rows, ∃ v c, v.id = e.id ∧ v.tags = c.tags
    ∧ lastWritten? e.feedId e.hash log = some c
    ∧ (Action.entries (Query.built e.userId [.entry e.id])).perform s = (.ok [v], s)
    ∧ (firstEntry (Query.built e.userId [.entry e.id])).perform s = (.ok (some v), s)
  /-- Whatever a listing shows has these tags. -/
  entries : ∀ q vs t, (Action.entries q).perform s = (.ok vs, t) → ∀ v ∈ vs,
    ∃ c, lastWritten? v.feedId v.hash log = some c ∧ v.tags = c.tags
  /-- So does a query that is asked for one entry. -/
  first : ∀ q v t, (firstEntry q).perform s = (.ok (some v), t) →
    ∃ c, lastWritten? v.feedId v.hash log = some c ∧ v.tags = c.tags
  /-- A refresh shows a new entry as it has been created. -/
  refresh : ∀ user feed cs update created t,
    (refreshFeed user feed cs update).perform s = (.ok created, t) → ∀ v ∈ created,
      Candidate.TagsFirst feed update cs (log ++ Action.written user feed update cs s) v
  /-- No way to read entries fails on tags. -/
  decodes : ∀ q : Query, (Action.entries q).DecodesTags s ∧ (firstEntry q).DecodesTags s
    ∧ (countEntries q).DecodesTags s ∧ (entryIds q).DecodesTags s
  neighboursDecode : ∀ trail, (neighbours trail).DecodesTags s
  refreshDecodes : ∀ user feed cs update, (refreshFeed user feed cs update).DecodesTags s

namespace Action

open Store

variable {s t : Session} {q : Query} {log : List (Id × Candidate)}

/-- A shown row has the tags that are stored with it. -/
theorem carries_of_shownAs (htagged : s.store.TaggedBy log) {l : Listed} {v : EntryView}
    (hl : l ∈ s.store.listed) (hv : l.ShownAs s.store v) :
    ∃ c, lastWritten? v.feedId v.hash log = some c ∧ v.tags = c.tags := by
  obtain ⟨c, hlast, hstored⟩ := htagged l.entry (of_mem_listed hl).1
  obtain ⟨status, tags, -, htags, rfl⟩ := hv
  refine ⟨c, hlast, ?_⟩
  have hdecode := congrArg Json.TextArray.decode? (htags.symm.trans hstored)
  rw [Json.TextArray.decode?_encode, Json.TextArray.decode?_encode] at hdecode
  exact Option.some.inj hdecode

/-- Every entry is found by its user, with the tags that are stored with it. -/
theorem exists_found (hs : Reachable s) (htagged : s.store.TaggedBy log) {e : Entry}
    (he : e ∈ s.store.entries.rows) :
    ∃ v c, v.id = e.id ∧ v.tags = c.tags ∧ lastWritten? e.feedId e.hash log = some c
      ∧ (entries (Query.built e.userId [.entry e.id])).perform s = (.ok [v], s)
      ∧ (firstEntry (Query.built e.userId [.entry e.id])).perform s = (.ok (some v), s) := by
  obtain ⟨l, hl, rfl⟩ := hs.integrity.exists_listed he
  obtain ⟨status, tags, hstatus, htags⟩ := hs.readable _ he
  have hshown : l.ShownAs s.store
      { l.viewWith status tags with enclosures := s.store.attached l.entry.id } :=
    ⟨status, tags, hstatus, htags, rfl⟩
  obtain ⟨c, hlast, hcarries⟩ := carries_of_shownAs htagged hl hshown
  obtain ⟨hentries, hfirst⟩ := perform_entries_of_shownAs hs hl hshown rfl
  exact ⟨_, c, rfl, hcarries, hlast, hentries, hfirst⟩

theorem carries_of_perform_entries (hs : Reachable s) (htagged : s.store.TaggedBy log)
    {vs : List EntryView} (h : (entries q).perform s = (.ok vs, t)) :
    ∀ v ∈ vs, ∃ c, lastWritten? v.feedId v.hash log = some c ∧ v.tags = c.tags := by
  intro v hv
  rcases perform_entries_or hs q with ⟨e, -, hfails⟩ | ⟨ls, ws, -, hlisted, hws, hshown⟩
  · cases hfails.symm.trans h
  · cases hws.symm.trans h
    obtain ⟨l, hl, hlv⟩ := exists_shownAs hshown hv
    exact carries_of_shownAs htagged (hlisted l hl).1 hlv

/-- A listing that fails has failed before it looked at tags. -/
theorem decodesTags_entries (hs : Reachable s) (q : Query) : (entries q).DecodesTags s := by
  intro id t h
  rcases perform_entries_or hs q with ⟨e, hrows, hfails⟩ | ⟨ls, vs, -, -, hvs, -⟩
  · cases hfails.symm.trans h
    exact LeavesTags.readWithin _ _ _ _ s id s hrows
  · cases hvs.symm.trans h

theorem decodesTags_firstEntry (hs : Reachable s) (q : Query) : (firstEntry q).DecodesTags s := by
  intro id t h
  unfold firstEntry at h
  rw [perform_bind] at h
  cases hentries : (entries { q with limit := some 1 }).perform s with
  | mk r u =>
      rw [hentries] at h
      cases r with
      | error e =>
          cases h
          exact decodesTags_entries hs _ id _ hentries
      | ok vs => cases h

end Action

open FeedStore.Action in
theorem Reachable.carriesTags {s : Session} {log : List (Id × Candidate)} (hs : Reachable s)
    (htagged : s.store.TaggedBy log) : s.CarriesTags log where
  stored e he := by
    obtain ⟨c, hlast, htags⟩ := htagged e he
    exact ⟨c, hlast, by rw [htags, Json.TextArray.decode?_encode]⟩
  found e he := exists_found hs htagged he
  entries q vs t h := carries_of_perform_entries hs htagged h
  first q v t h := by
    obtain ⟨vs, u, hentries, hhead⟩ := of_perform_bind h
    have hv : v ∈ vs := List.mem_of_head? (Except.ok.inj (Prod.mk.inj hhead).1)
    exact carries_of_perform_entries hs htagged hentries v hv
  refresh user feed cs update created t h v hv := by
    obtain ⟨u, hrun, -⟩ := perform_refreshFeed_ok_iff.1 h
    exact tagsFirst_of_created hs.integrity hrun hv
  decodes q := ⟨decodesTags_entries hs q, decodesTags_firstEntry hs q,
    LeavesTags.readWithin _ _ _ _ s, LeavesTags.readWithin _ _ _ _ s⟩
  neighboursDecode trail := leavesTags_neighbours trail s
  refreshDecodes user feed cs update id t := perform_refreshFeed_ne_invalidTags hs id

/-- After any run of a new session every read carries the tags of the candidate that has been
written last, and whatever a list of tags is, writing and reading it gives it back. -/
theorem Session.carriesTags_run (now : Int) (commands : List Command) :
    (({ now } : Session).run commands).CarriesTags (({ now } : Session).written commands)
      ∧ ∀ tags : List String, Json.TextArray.decode? (Json.TextArray.encode tags) = some tags := by
  have htagged : (({ now } : Session).run commands).store.TaggedBy
      (({ now } : Session).written commands) := by
    have hempty : ({ now } : Session).store.TaggedBy [] := fun e he => by cases he
    have hrun := Session.taggedBy_run (.fresh now) hempty commands
    rwa [List.nil_append] at hrun
  exact ⟨(Reachable.run (.fresh now) commands).carriesTags htagged, Json.TextArray.decode?_encode⟩

/-- An entry that a refresh gives back need not have the tags of the candidate that has been written
last to it: here that is the second one of the batch, and it is the first one that is read. -/
theorem Session.not_forall_created_lastWritten :
    ¬ ∀ (now : Int) (commands : List Command) (user feed : Id) (cs : List Candidate)
        (update : Bool) (created : List EntryView) (t : Session),
      (Action.refreshFeed user feed cs update).perform (({ now } : Session).run commands)
          = (.ok created, t) →
        ∀ v ∈ created, ∃ c, lastWritten? v.feedId v.hash (({ now } : Session).written commands
            ++ Action.written user feed update cs (({ now } : Session).run commands)) = some c
          ∧ v.tags = c.tags := by
  intro h
  let commands : List Command := [.createUser "ann", .createCategory 1 "news" false,
    .createFeed 1 (.bare 1 "a")]
  let cs : List Candidate :=
    [{ Candidate.bare "a" 1 with tags := ["x"] }, { Candidate.bare "a" 1 with tags := ["y"] }]
  have hfirst : ((Action.refreshFeed 1 1 cs true).perform
      (({ now := 0 } : Session).run commands)).1.toOption.map
        (·.map fun v => (v.feedId, v.hash, v.tags)) = some [(1, "a", ["x"])] := by decide +kernel
  have hsecond : (lastWritten? 1 "a" (({ now := 0 } : Session).written commands
      ++ Action.written 1 1 true cs (({ now := 0 } : Session).run commands))).map (·.tags)
        = some ["y"] := by decide +kernel
  cases hrun : (Action.refreshFeed 1 1 cs true).perform (({ now := 0 } : Session).run commands) with
  | mk r t =>
      rw [hrun] at hfirst
      cases r with
      | error e => cases hfirst
      | ok created =>
          have hcreated : created.map (fun v => (v.feedId, v.hash, v.tags)) = [(1, "a", ["x"])] :=
            Option.some.inj hfirst
          obtain ⟨v, hv, hview⟩ := List.mem_map.1 (hcreated ▸ List.mem_singleton_self _)
          obtain ⟨hfeed, hhash, htags⟩ : v.feedId = 1 ∧ v.hash = "a" ∧ v.tags = ["x"] := by
            simpa using hview
          obtain ⟨c, hlast, hcarries⟩ := h 0 commands 1 1 cs true created t hrun v hv
          rw [hfeed, hhash] at hlast
          rw [hlast, Option.map_some, ← hcarries, htags] at hsecond
          exact absurd hsecond (by decide)

end FeedStore
