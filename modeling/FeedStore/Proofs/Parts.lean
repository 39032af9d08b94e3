import FeedStore.Proofs.Statement

/-!
# How far a refresh gets

A refresh takes its candidates one after the other, each in a transaction of its own, so it can
be cut at any place: refreshing a front part and then the rest is refreshing the whole
(`Action.reconcileAll_append`), since what the front part has put off makes no
difference to the rest (`Action.DisregardsJobs`). The first candidate that fails leaves the
session exactly as the candidates before it have made it
(`Action.exists_of_perform_reconcileAll_error`), and no other candidate can be that one.
-/

namespace FeedStore.Action

variable {α β : Type}

/-! ## What waits makes no difference -/

/-- The action does the same whatever waits, and leaves waiting what waits. -/
def DisregardsJobs (a : Action α) : Prop :=
  ∀ (s : Session) (jobs : List Job),
    a.perform { s with jobs } = ((a.perform s).1, { (a.perform s).2 with jobs })

namespace DisregardsJobs

theorem pure (a : α) : (Pure.pure a : Action α).DisregardsJobs := by
  intro s jobs
  rfl

theorem throw (e : StoreError) : (MonadExcept.throw e : Action α).DisregardsJobs := by
  intro s jobs
  rfl

theorem now : Action.now.DisregardsJobs := by
  intro s jobs
  rfl

theorem bind {a : Action α} {f : α → Action β} (ha : a.DisregardsJobs)
    (hf : ∀ x, (f x).DisregardsJobs) : (a >>= f).DisregardsJobs := by
  intro s jobs
  rw [perform_bind, perform_bind, ha s jobs]
  cases a.perform s with
  | mk r t =>
      cases r with
      | error e => rfl
      | ok x => exact hf x t jobs

theorem readWithin (extent : Extent) (context : String) (tables : List TableName)
    (f : Store → Except Fault α) : (readWithin extent context tables f).DisregardsJobs := by
  intro s jobs
  rw [perform_readWithin, perform_readWithin]
  have hsame : Session.refusal? { s with jobs } (.select tables) extent
      = s.refusal? (.select tables) extent := rfl
  rw [hsame]
  cases s.refusal? (.select tables) extent with
  | some fault => rfl
  | none => rfl

theorem write (context : String) (statement : Statement)
    (f : Store → Except Fault (α × Store)) : (write context statement f).DisregardsJobs := by
  intro s jobs
  unfold Action.write
  rw [perform_writeWithin, perform_writeWithin]
  have hsame : Session.refusal? { s with jobs } statement {} = s.refusal? statement {} := rfl
  rw [hsame]
  cases s.refusal? statement {} with
  | some fault => rfl
  | none =>
      dsimp only
      cases f s.store with
      | error fault => rfl
      | ok r => rfl

theorem transaction {purpose : Purpose} {body : Action α} (h : body.DisregardsJobs) :
    (transaction purpose body).DisregardsJobs := by
  intro s jobs
  rw [perform_transaction, perform_transaction, h s jobs]
  dsimp only
  split
  · cases body.perform s with
    | mk r t =>
        cases r with
        | error e => rfl
        | ok a => rfl
  · rfl

theorem putEnclosures (user entry : Id) (offers : List EnclosureOffer) (stored : List Enclosure) :
    (putEnclosures user entry offers stored).DisregardsJobs := by
  induction offers generalizing stored with
  | nil => exact .pure stored
  | cons offer offers ih =>
      unfold Action.putEnclosures
      dsimp only
      split
      · exact ih stored
      · exact bind (write _ _ _) fun x => ih _

theorem updateEnclosures (user entry : Id) (offers : List EnclosureOffer) :
    (updateEnclosures user entry offers).DisregardsJobs := by
  unfold Action.updateEnclosures
  split
  · exact .pure ()
  · exact bind (putEnclosures user entry offers []) fun stored =>
      bind (write _ _ _) fun _ => .pure ()

theorem fetchEntry (id : Id) : (fetchEntry id).DisregardsJobs := by
  unfold Action.fetchEntry
  refine bind (readWithin _ _ _ _) fun listed => ?_
  cases listed.view with
  | ok view => exact .pure view
  | error e => exact .throw e

theorem createEntry (user feed : Id) (c : Candidate) :
    (createEntry user feed c).DisregardsJobs := by
  unfold Action.createEntry
  exact bind now fun time => bind (write _ _ _) fun id =>
    bind (putEnclosures user id c.enclosures []) fun enclosures =>
      bind (fetchEntry id) fun view => .pure _

theorem updateEntry (user feed : Id) (c : Candidate) :
    (updateEntry user feed c).DisregardsJobs := by
  unfold Action.updateEntry
  refine bind now fun time => bind (write _ _ _) fun id => ?_
  cases id with
  | none => exact .throw _
  | some id => exact updateEnclosures user id c.enclosures

theorem reconcile (user feed : Id) (update : Bool) (c : Candidate) :
    (reconcile user feed update c).DisregardsJobs := by
  unfold Action.reconcile
  have hread : (itemExists feed c.hash).DisregardsJobs := by
    unfold itemExists Action.read
    exact readWithin _ _ _ _
  refine bind hread fun found => ?_
  split
  · split
    · exact bind (updateEntry user feed c) fun _ => .pure none
    · exact .pure none
  · exact bind (createEntry user feed c) fun view => .pure (some view)

theorem reconcileAll (user feed : Id) (update : Bool) (cs : List Candidate) :
    (reconcileAll user feed update cs).DisregardsJobs := by
  induction cs with
  | nil => exact .pure []
  | cons c cs ih =>
      unfold Action.reconcileAll
      exact bind (transaction (reconcile user feed update c)) fun created =>
        bind ih fun more => .pure _

end DisregardsJobs

/-! ## Cutting a batch -/

variable {user feed : Id} {update : Bool} {cs front back : List Candidate} {s t u : Session}

/-- A batch can be cut at any place. -/
theorem reconcileAll_append (front back : List Candidate) :
    reconcileAll user feed update (front ++ back) = do
      let made ← reconcileAll user feed update front
      let more ← reconcileAll user feed update back
      return made ++ more := by
  induction front with
  | nil => simp [reconcileAll]
  | cons c front ih =>
      simp only [List.cons_append, reconcileAll, ih, bind_assoc, pure_bind, List.append_assoc]

/-- A transaction that fails leaves the whole session as it was. -/
theorem eq_of_perform_transaction_error {purpose : Purpose} {body : Action α} {e : StoreError}
    (hbody : body.Evolves s) (h : (transaction purpose body).perform s = (.error e, t)) :
    t = s := by
  rw [perform_transaction] at h
  split at h
  · unfold Evolves at hbody
    cases hb : body.perform s with
    | mk r u =>
        rw [hb] at h hbody
        cases r with
        | ok a => cases h
        | error e' =>
            cases h
            have hrest : u = { s with store := u.store } := hbody.rest
            rw [hrest]
  · cases h
    rfl

theorem perform_reconcileAll_singleton (c : Candidate) (s : Session) :
    (reconcileAll user feed update [c]).perform s =
      match (transaction .refresh (reconcile user feed update c)).perform s with
      | (.error e, t) => (.error e, t)
      | (.ok created, t) => (.ok created.toList, t) := by
  rw [reconcileAll, perform_bind]
  cases (transaction .refresh (reconcile user feed update c)).perform s with
  | mk r t =>
      cases r with
      | error e => rfl
      | ok created =>
          show (Except.ok (created.toList ++ []), t) = _
          rw [List.append_nil]

/-- A batch that fails has gone through up to one candidate, which fails on its own in the
session that those before it leave and does not change it. -/
theorem exists_of_perform_reconcileAll_error {e : StoreError}
    (h : (reconcileAll user feed update cs).perform s = (.error e, t)) :
    ∃ k c created, cs[k]? = some c
      ∧ (reconcileAll user feed update (cs.take k)).perform s = (.ok created, t)
      ∧ (reconcileAll user feed update [c]).perform t = (.error e, t) := by
  induction cs generalizing s with
  | nil => cases h
  | cons c cs ih =>
      rw [reconcileAll, perform_bind] at h
      cases hc : (transaction .refresh (reconcile user feed update c)).perform s with
      | mk r u =>
          rw [hc] at h
          cases r with
          | error e' =>
              cases h
              obtain rfl := eq_of_perform_transaction_error
                (evolves_reconcile user feed update c s) hc
              refine ⟨0, c, [], rfl, rfl, ?_⟩
              rw [perform_reconcileAll_singleton, hc]
          | ok created =>
              dsimp only at h
              rw [perform_bind] at h
              cases hrest : (reconcileAll user feed update cs).perform u with
              | mk r v =>
                  rw [hrest] at h
                  cases r with
                  | ok more => cases h
                  | error e' =>
                      cases h
                      obtain ⟨k, d, made, hd, hmade, hfail⟩ := ih hrest
                      refine ⟨k + 1, d, created.toList ++ made, hd, ?_, hfail⟩
                      rw [List.take_succ_cons, reconcileAll, perform_bind, hc]
                      dsimp only
                      rw [perform_bind, hmade]
                      rfl

/-! ## Refreshing part by part -/

/-- Where a refresh ends is reached by the command for it. -/
theorem reachable_of_refreshFeed {r : Except StoreError (List EntryView)} (hs : Reachable s)
    (h : (refreshFeed user feed cs update).perform s = (r, t)) : Reachable t := by
  have hnext : Command.next (.refreshFeed user feed cs update) s = t := congrArg Prod.snd h
  exact hnext ▸ hs.step (.refreshFeed user feed cs update)

theorem perform_refreshFeed_ok_iff {created : List EntryView} :
    (refreshFeed user feed cs update).perform s = (.ok created, t)
      ↔ ∃ u, (reconcileAll user feed update cs).perform s = (.ok created, u)
        ∧ t = { u with jobs := s.jobs ++ [{ work := .sweep feed (cs.map (·.hash)) }] } := by
  have hev := evolves_reconcileAll user feed update cs s
  unfold Evolves at hev
  rw [perform_refreshFeed]
  cases hrec : (reconcileAll user feed update cs).perform s with
  | mk r u =>
      rw [hrec] at hev
      have hjobs : u.jobs = s.jobs := hev.jobs
      cases r with
      | error e => simp
      | ok made =>
          constructor
          · intro h
            cases h
            exact ⟨u, rfl, by rw [hjobs]⟩
          · rintro ⟨v, hv, rfl⟩
            cases hv
            rw [← hjobs]

theorem perform_refreshFeed_error_iff {e : StoreError} :
    (refreshFeed user feed cs update).perform s = (.error e, t)
      ↔ (reconcileAll user feed update cs).perform s = (.error e, t) := by
  rw [perform_refreshFeed]
  cases (reconcileAll user feed update cs).perform s with
  | mk r u =>
      cases r with
      | error e' => rfl
      | ok made => simp

/-- The candidates in front of a place go through, and the one in that place then fails on its
own and changes nothing. -/
structure StopsAt (user feed : Id) (update : Bool) (cs : List Candidate) (s : Session) (k : Nat)
    (e : StoreError) (u : Session) : Prop where
  through : ∃ created, (refreshFeed user feed (cs.take k) update).perform s = (.ok created, u)
  fails : ∃ c, cs[k]? = some c ∧ (refreshFeed user feed [c] update).perform u = (.error e, u)

/-- A batch does not go through beyond a candidate that fails. -/
theorem StopsAt.le {k k' : Nat} {e e' : StoreError} {u u' : Session}
    (h : StopsAt user feed update cs s k e u) (h' : StopsAt user feed update cs s k' e' u') :
    k' ≤ k := by
  obtain ⟨created, hthrough⟩ := h.through
  obtain ⟨created', hthrough'⟩ := h'.through
  obtain ⟨c, hc, hfail⟩ := h.fails
  obtain ⟨t, hfront, rfl⟩ := perform_refreshFeed_ok_iff.1 hthrough
  obtain ⟨t', hlonger, -⟩ := perform_refreshFeed_ok_iff.1 hthrough'
  refine Nat.le_of_not_lt fun hlt => ?_
  -- otherwise the longer front part would have gone through the candidate that fails
  obtain ⟨n, rfl⟩ := Nat.exists_eq_add_of_lt hlt
  obtain ⟨hk, rfl⟩ := List.getElem?_eq_some_iff.1 hc
  have hcut : cs.take (k + n + 1) = cs.take k ++ ([cs[k]] ++ (cs.drop (k + 1)).take n) := by
    rw [Nat.add_assoc, List.take_add, List.drop_eq_getElem_cons hk, List.take_succ_cons]
    rfl
  rw [hcut, reconcileAll_append] at hlonger
  obtain ⟨made, v, hmade, hrest⟩ := of_perform_bind hlonger
  obtain ⟨more, w, hmore, -⟩ := of_perform_bind hrest
  rw [hfront] at hmade
  cases hmade
  rw [reconcileAll_append] at hmore
  obtain ⟨one, x, hone, -⟩ := of_perform_bind hmore
  rw [perform_refreshFeed_error_iff, DisregardsJobs.reconcileAll, hone] at hfail
  cases hfail

/-- A refresh that fails stops at one candidate: those in front of it have gone through, and
the session is the one that they leave, with nothing put off. A refresh that goes through is
the same as refreshing any front part and then the rest, and puts off one sweep with the hash
of every candidate. -/
theorem refreshFeed_in_parts (user feed : Id) (cs : List Candidate) (update : Bool)
    (s : Session) :
    match (refreshFeed user feed cs update).perform s with
    | (.error e, t) =>
      ∃ k u, StopsAt user feed update cs s k e u ∧ t = { u with jobs := s.jobs }
        ∧ ∀ k' e' u', StopsAt user feed update cs s k' e' u' → k' = k
    | (.ok created, t) =>
      t.jobs = s.jobs ++ [{ work := .sweep feed (cs.map (·.hash)) }]
        ∧ ∀ front back, cs = front ++ back →
          ∃ made u more v, (refreshFeed user feed front update).perform s = (.ok made, u)
            ∧ u.now = s.now
            ∧ (refreshFeed user feed back update).perform u = (.ok more, v)
            ∧ created = made ++ more ∧ t = { v with jobs := t.jobs } := by
  cases hrun : (refreshFeed user feed cs update).perform s with
  | mk r t =>
      cases r with
      | error e =>
          obtain ⟨k, c, created, hc, hfront, hfail⟩ :=
            exists_of_perform_reconcileAll_error (perform_refreshFeed_error_iff.1 hrun)
          have hjobs : t.jobs = s.jobs :=
            ((evolves_reconcileAll user feed update (cs.take k) s).of_perform hfront).jobs
          have hstops : StopsAt user feed update cs s k e
              { t with jobs :=
                s.jobs ++ [{ work := .sweep feed ((cs.take k).map (·.hash)) }] } := by
            refine ⟨⟨created, perform_refreshFeed_ok_iff.2 ⟨t, hfront, rfl⟩⟩, c, hc, ?_⟩
            rw [perform_refreshFeed_error_iff, DisregardsJobs.reconcileAll, hfail]
          refine ⟨k, _, hstops, by rw [← hjobs], fun k' e' u' hstops' => ?_⟩
          exact Nat.le_antisymm (hstops.le hstops') (hstops'.le hstops)
      | ok created =>
          obtain ⟨w, hwhole, rfl⟩ := perform_refreshFeed_ok_iff.1 hrun
          refine ⟨rfl, fun front back hcs => ?_⟩
          rw [hcs, reconcileAll_append] at hwhole
          obtain ⟨made, u, hmade, hrest⟩ := of_perform_bind hwhole
          obtain ⟨more, v, hmore, hlast⟩ := of_perform_bind hrest
          cases hlast
          have hnow : u.now = s.now :=
            ((evolves_reconcileAll user feed update front s).of_perform hmade).now
          have hback := DisregardsJobs.reconcileAll user feed update back u
            (s.jobs ++ [{ work := .sweep feed (front.map (·.hash)) }])
          rw [hmore] at hback
          exact ⟨made, _, more, _, perform_refreshFeed_ok_iff.2 ⟨u, hmade, rfl⟩, hnow,
            perform_refreshFeed_ok_iff.2 ⟨_, hback, rfl⟩, rfl, rfl⟩

end FeedStore.Action

namespace FeedStore

/-- Two users, the first of whom has a feed with one entry. -/
def Session.joined : Session :=
  Session.subscribed.run [.refreshFeed 1 1 [.bare "a" 10] false, .createUser "bob"]

namespace Action

/-- The second user brings a new entry into the feed, and then fails on the entry that the first one
has there: the new entry stays, what follows is never looked at, and no sweep waits. -/
theorem refreshFeed_in_parts_half_done :
    Reachable .joined ∧ ∃ t u,
      (refreshFeed 2 1 [.bare "b" 20, .bare "a" 30, .bare "c" 40] true).perform .joined
          = (.error .nothingUpdated, t)
        ∧ StopsAt 2 1 true [.bare "b" 20, .bare "a" 30, .bare "c" 40] .joined 1 .nothingUpdated u
        ∧ t = { u with jobs := Session.joined.jobs }
        ∧ (∀ k e u', StopsAt 2 1 true [.bare "b" 20, .bare "a" 30, .bare "c" 40] .joined k e u' →
          k = 1)
        ∧ Session.joined.store.entries.rows.map (·.hash) = ["a"]
        ∧ t.store.entries.rows.map (·.hash) = ["a", "b"] := by
  have hparts := refreshFeed_in_parts 2 1 [.bare "b" 20, .bare "a" 30, .bare "c" 40] true .joined
  obtain ⟨t, ht⟩ : ∃ t, (refreshFeed 2 1 [.bare "b" 20, .bare "a" 30, .bare "c" 40] true).perform
      .joined = (.error .nothingUpdated, t) := ⟨_, rfl⟩
  rw [ht] at hparts
  obtain ⟨k, u, hstops, hrest, honly⟩ := hparts
  have hfirst : ∃ v, StopsAt 2 1 true [.bare "b" 20, .bare "a" 30, .bare "c" 40] .joined 1
      .nothingUpdated v := ⟨_, ⟨_, rfl⟩, _, rfl, rfl⟩
  obtain ⟨v, hv⟩ := hfirst
  obtain rfl := honly 1 _ v hv
  have hhashes : ((refreshFeed 2 1 [.bare "b" 20, .bare "a" 30, .bare "c" 40] true).perform
      .joined).2.store.entries.rows.map (·.hash) = ["a", "b"] := by rfl
  rw [ht] at hhashes
  exact ⟨Reachable.subscribed.run _, t, u, ht, hstops, hrest, honly, rfl, hhashes⟩

end Action

end FeedStore
