import FeedStore.Proofs.Pagination
import FeedStore.Proofs.Progress

/-!
# Refreshes of one feed that run at the same time

Several refreshes of a feed take turns: in each turn one of them compares its next candidate with
the store, in one transaction, or ends by putting off its sweep (`Fetch.turn`). A refresh that takes
its turns alone is the refresh of the whole batch (`Fetch.turns_alone`). However the turns of
several are interleaved, every hash of the feed is accounted for: it was there before or belongs to
a candidate that had its turn, and exactly one of the refreshes has made an entry of each new one.
That is the invariant (`Race.Sound`) that every turn keeps, and at the end it says that together
they have created every item once (`Reachable.race_creates_once`).
-/

namespace FeedStore

/-! ## Taking turns -/

/-- A refresh on its way: the candidates that had their turn, those that have not, the entries made
so far and, once it has ended, its answer. -/
structure Fetch where
  update : Bool
  past : List Candidate := []
  rest : List Candidate
  created : List EntryView := []
  answer : Option (Except StoreError (List EntryView)) := none

namespace Fetch

/-- One turn of a refresh. Once it has ended it takes no more turns. -/
def turn (user feed : Id) (k : Fetch) (s : Session) : Fetch × Session :=
  match k.answer, k.rest with
  | some _, _ => (k, s)
  | none, [] =>
    ({ k with answer := some (.ok k.created) },
      Command.after (Action.putOff (.sweep feed (k.past.map (·.hash)))) s)
  | none, c :: cs =>
    match (Action.transaction .refresh (Action.reconcile user feed k.update c)).perform s with
    | (.ok r, t) =>
      ({ k with past := k.past ++ [c], rest := cs, created := k.created ++ r.toList }, t)
    | (.error e, t) => ({ k with answer := some (.error e) }, t)

/-- So many turns at most are left to take. -/
def turnsLeft (k : Fetch) : Nat := if k.answer.isSome then 0 else k.rest.length + 1

variable {user feed : Id} {k k' : Fetch} {s t : Session}

/-- What a turn of a refresh can do. -/
inductive Turns (user feed : Id) (k : Fetch) (s : Session) : Fetch → Session → Prop
  | idle {a : Except StoreError (List EntryView)} (answered : k.answer = some a) :
      Turns user feed k s k s
  | finish (waiting : k.answer = none) (done : k.rest = []) :
      Turns user feed k s { k with answer := some (.ok k.created) }
        { s with jobs := s.jobs ++ [{ work := .sweep feed (k.past.map (·.hash)) }] }
  | take {c : Candidate} {cs : List Candidate} {r : Option EntryView} {t : Session}
      (waiting : k.answer = none) (next : k.rest = c :: cs)
      (run : (Action.transaction .refresh (Action.reconcile user feed k.update c)).perform s
        = (.ok r, t)) :
      Turns user feed k s
        { k with past := k.past ++ [c], rest := cs, created := k.created ++ r.toList } t
  | fail {c : Candidate} {cs : List Candidate} {e : StoreError} {t : Session}
      (waiting : k.answer = none) (next : k.rest = c :: cs)
      (run : (Action.transaction .refresh (Action.reconcile user feed k.update c)).perform s
        = (.error e, t)) :
      Turns user feed k s { k with answer := some (.error e) } t

theorem turns_turn (user feed : Id) (k : Fetch) (s : Session) :
    Turns user feed k s (k.turn user feed s).1 (k.turn user feed s).2 := by
  unfold turn
  split
  · rename_i ha
    exact .idle ha
  · rename_i hwaiting hdone
    exact .finish hwaiting hdone
  · rename_i c cs hwaiting hnext
    split
    · rename_i r t hrun
      exact .take hwaiting hnext hrun
    · rename_i e t hrun
      exact .fail hwaiting hnext hrun

/-- Every turn brings the end nearer. -/
theorem Turns.turnsLeft_le (h : Turns user feed k s k' t) : k'.turnsLeft ≤ k.turnsLeft - 1 := by
  cases h with
  | idle answered =>
      unfold turnsLeft
      rw [answered]
      exact Nat.le_refl 0
  | finish waiting done => exact Nat.zero_le _
  | take waiting next run =>
      unfold turnsLeft
      rw [waiting, next]
      exact Nat.le_refl _
  | fail waiting next run => exact Nat.zero_le _

/-- The candidates of a refresh stay the same. -/
theorem Turns.past_append_rest (h : Turns user feed k s k' t) :
    k'.past ++ k'.rest = k.past ++ k.rest := by
  cases h with
  | idle answered => rfl
  | finish waiting done => rfl
  | take waiting next run =>
      rw [next]
      exact List.append_assoc _ _ _
  | fail waiting next run => rfl

/-- What is left to do of a refresh that has not ended. -/
def remaining (user feed : Id) (k : Fetch) : Action (List EntryView) := do
  let more ← Action.reconcileAll user feed k.update k.rest
  Action.putOff (.sweep feed ((k.past ++ k.rest).map (·.hash)))
  return k.created ++ more

/-- Some turns of a refresh that runs alone. -/
def turns (user feed : Id) (n : Nat) (p : Fetch × Session) : Fetch × Session :=
  (fun q : Fetch × Session => q.1.turn user feed q.2)^[n] p

theorem turns_of_answered {a : Except StoreError (List EntryView)} (h : k.answer = some a) (n : Nat)
    (s : Session) : turns user feed n (k, s) = (k, s) := by
  refine Function.iterate_fixed ?_ n
  show k.turn user feed s = (k, s)
  unfold turn
  rw [h]

/-- First the next candidate, then what is left to do after it. -/
theorem remaining_cons (user feed : Id) (update : Bool) (past : List Candidate) (c : Candidate)
    (cs : List Candidate) (created : List EntryView) :
    remaining user feed { update, past, rest := c :: cs, created }
      = Action.transaction .refresh (Action.reconcile user feed update c) >>= fun r =>
        remaining user feed
          { update, past := past ++ [c], rest := cs, created := created ++ r.toList } := by
  simp only [remaining, Action.reconcileAll, bind_assoc, pure_bind, List.append_assoc,
    List.singleton_append]

/-- A refresh that takes its turns alone does what is left to do. -/
theorem turns_turnsLeft (h : k.answer = none) :
    (turns user feed k.turnsLeft (k, s)).1.answer = some ((k.remaining user feed).perform s).1
      ∧ (turns user feed k.turnsLeft (k, s)).2 = ((k.remaining user feed).perform s).2 := by
  obtain ⟨update, past, rest, created, answer⟩ := k
  obtain rfl : answer = none := h
  induction rest generalizing past created s with
  | nil =>
      unfold remaining
      rw [List.append_nil, Action.perform_bind]
      refine ⟨?_, rfl⟩
      show some (Except.ok created) = some (Except.ok (created ++ []))
      rw [List.append_nil]
  | cons c cs ih =>
      have hfirst : turns user feed (cs.length + 1 + 1)
            (({ update, past, rest := c :: cs, created } : Fetch), s)
          = turns user feed (cs.length + 1)
            (turn user feed { update, past, rest := c :: cs, created } s) :=
        Function.iterate_succ_apply _ _ _
      show (turns user feed (cs.length + 1 + 1) _).1.answer = _
        ∧ (turns user feed (cs.length + 1 + 1) _).2 = _
      rw [hfirst, remaining_cons, Action.perform_bind]
      unfold turn
      dsimp only
      rcases (Action.transaction .refresh (Action.reconcile user feed update c)).perform s
        with ⟨e | r, t⟩
      · dsimp only
        rw [turns_of_answered rfl]
        exact ⟨rfl, rfl⟩
      · exact ih (past ++ [c]) (created ++ r.toList)

/-- A refresh is what it does when it takes its turns alone. -/
theorem turns_alone (user feed : Id) (cs : List Candidate) (update : Bool) (s : Session) :
    (turns user feed (cs.length + 1) ({ update, rest := cs }, s)).1.answer
        = some ((Action.refreshFeed user feed cs update).perform s).1
      ∧ (turns user feed (cs.length + 1) ({ update, rest := cs }, s)).2
        = ((Action.refreshFeed user feed cs update).perform s).2 :=
  turns_turnsLeft (k := { update, rest := cs }) rfl

end Fetch

/-- Some refreshes that take turns in a session. -/
structure Race where
  session : Session
  fetches : List Fetch

namespace Race

/-- Refreshes of these batches, with or without updates, before the first turn. -/
def start (s : Session) (batches : List (List Candidate × Bool)) : Race :=
  { session := s, fetches := batches.map fun b => { update := b.2, rest := b.1 } }

/-- A turn: which refresh takes it, and what the clock says. -/
abbrev Turn := Nat × Int

/-- The refresh with that number takes a turn, if there is one. -/
def turn (user feed : Id) (r : Race) (m : Turn) : Race :=
  match r.fetches[m.1]? with
  | none => r
  | some k =>
    { session := (k.turn user feed { r.session with now := m.2 }).2
      fetches := r.fetches.set m.1 (k.turn user feed { r.session with now := m.2 }).1 }

/-- Turns are taken in the given order. -/
def run (user feed : Id) (r : Race) (schedule : List Turn) : Race :=
  schedule.foldl (turn user feed) r

/-- The hashes of the candidates that had their turn. -/
def pasts (r : Race) : List String := r.fetches.flatMap fun k => k.past.map (·.hash)

/-- The hashes of the entries that have been made. -/
def createds (r : Race) : List String := r.fetches.flatMap fun k => k.created.map (·.hash)

/-- Every hash is accounted for: it was there in the beginning or has had its turn, and what is new
has been made by one refresh, once. -/
structure Sound (user feed : Id) (s : Session) (r : Race) : Prop where
  accepts : r.session.Accepts user feed
  answers : ∀ k ∈ r.fetches, ∀ a, k.answer = some a → a = .ok k.created ∧ k.rest = []
  own : ∀ k ∈ r.fetches, k.created.map (·.hash) ⊆ k.past.map (·.hash)
  hashes : ∀ hash, hash ∈ r.session.store.hashes feed
    ↔ hash ∈ s.store.hashes feed ∨ hash ∈ r.pasts
  created : ∀ hash, hash ∈ r.createds ↔ hash ∉ s.store.hashes feed ∧ hash ∈ r.pasts
  once : r.createds.Nodup

/-- Where one list grows at its end, all of them together grow by as much. -/
theorem perm_flatMap_set {α β : Type} {f : α → List β} {a a' : α} {xs : List β}
    (hf : f a' = f a ++ xs) {l : List α} {i : Nat} (h : l[i]? = some a) :
    ((l.set i a').flatMap f).Perm (xs ++ l.flatMap f) := by
  induction l generalizing i with
  | nil => cases h
  | cons b l ih =>
      cases i with
      | zero =>
          obtain rfl : b = a := by simpa using h
          rw [List.set_cons_zero, List.flatMap_cons, List.flatMap_cons, hf, List.append_assoc]
          exact List.perm_append_comm_assoc _ _ _
      | succ i =>
          rw [List.set_cons_succ, List.flatMap_cons, List.flatMap_cons]
          exact ((ih (by simpa using h)).append_left _).trans (List.perm_append_comm_assoc _ _ _)

variable {user feed : Id} {s t : Session} {r : Race} {k k' : Fetch} {i : Nat}

theorem sound_start (h : s.Accepts user feed) (batches : List (List Candidate × Bool)) :
    (start s batches).Sound user feed s := by
  have hfresh : ∀ k ∈ (start s batches).fetches,
      k.past = [] ∧ k.created = [] ∧ k.answer = none := by
    intro k hk
    obtain ⟨b, -, rfl⟩ := List.mem_map.1 hk
    exact ⟨rfl, rfl, rfl⟩
  have hpasts : (start s batches).pasts = [] :=
    List.flatMap_eq_nil_iff.2 fun k hk => by rw [(hfresh k hk).1, List.map_nil]
  have hcreateds : (start s batches).createds = [] :=
    List.flatMap_eq_nil_iff.2 fun k hk => by rw [(hfresh k hk).2.1, List.map_nil]
  refine ⟨h, fun k hk a ha => ?_, fun k hk => ?_, ?_, ?_, ?_⟩
  · rw [(hfresh k hk).2.2] at ha
    cases ha
  · rw [(hfresh k hk).2.1]
    exact List.nil_subset _
  · intro hash
    rw [hpasts]
    exact (or_iff_left List.not_mem_nil).symm
  · intro hash
    rw [hpasts, hcreateds]
    exact iff_of_false List.not_mem_nil fun hmem => List.not_mem_nil hmem.2
  · rw [hcreateds]
    exact List.nodup_nil

/-- A refresh goes on: the hashes in `xs` have their turn, and entries are made of those in `ys`,
the new ones among them. -/
theorem Sound.set (h : r.Sound user feed s) (hk : r.fetches[i]? = some k)
    (accepts : t.Accepts user feed)
    (answers : ∀ a, k'.answer = some a → a = .ok k'.created ∧ k'.rest = [])
    (xs ys : List String) (hpast : k'.past.map (·.hash) = k.past.map (·.hash) ++ xs)
    (hcreated : k'.created.map (·.hash) = k.created.map (·.hash) ++ ys)
    (hashes : ∀ hash, hash ∈ t.store.hashes feed ↔ hash ∈ r.session.store.hashes feed ∨ hash ∈ xs)
    (new : ∀ hash, hash ∈ ys ↔ hash ∈ xs ∧ hash ∉ r.session.store.hashes feed) (once : ys.Nodup) :
    ({ session := t, fetches := r.fetches.set i k' } : Race).Sound user feed s := by
  have hpasts := perm_flatMap_set (f := fun k : Fetch => k.past.map (·.hash)) hpast hk
  have hcreateds := perm_flatMap_set (f := fun k : Fetch => k.created.map (·.hash)) hcreated hk
  have hmem := List.mem_of_getElem? hk
  refine ⟨accepts, fun l hl => ?_, fun l hl => ?_, fun hash => ?_, fun hash => ?_, ?_⟩
  · rcases List.mem_or_eq_of_mem_set hl with hl | rfl
    · exact h.answers l hl
    · exact answers
  · rcases List.mem_or_eq_of_mem_set hl with hl | rfl
    · exact h.own l hl
    · rw [hpast, hcreated]
      exact List.append_subset.2 ⟨List.Subset.trans (h.own k hmem) (List.subset_append_left _ _),
        fun x hx => List.mem_append_right _ ((new x).1 hx).1⟩
  · have hold := h.hashes hash
    have hnow := hpasts.mem_iff (a := hash)
    rw [List.mem_append] at hnow
    exact ((hashes hash).trans (or_congr_left hold)).trans
      (or_assoc.trans (or_congr_right (or_comm.trans hnow.symm)))
  · have hnow := hpasts.mem_iff (a := hash)
    have hmade := hcreateds.mem_iff (a := hash)
    rw [List.mem_append] at hnow hmade
    refine hmade.trans (Iff.trans ?_ (and_congr_right' hnow.symm))
    rw [new, h.hashes]
    constructor
    · rintro (⟨hx, hold⟩ | hmade)
      · exact ⟨fun hs => hold (Or.inl hs), Or.inl hx⟩
      · obtain ⟨hs, hp⟩ := (h.created hash).1 hmade
        exact ⟨hs, Or.inr hp⟩
    · rintro ⟨hs, hx⟩
      by_cases hp : hash ∈ r.pasts
      · exact Or.inr ((h.created hash).2 ⟨hs, hp⟩)
      · exact Or.inl ⟨hx.resolve_right hp, not_or.2 ⟨hs, hp⟩⟩
  · refine hcreateds.nodup_iff.2 (List.nodup_append.2 ⟨once, h.once, ?_⟩)
    rintro x hx _ hx' rfl
    exact ((new x).1 hx).2 ((h.hashes x).2 (Or.inr ((h.created x).1 hx').2))

/-- Whatever one of them does in its turn, the accounts are kept. -/
theorem Sound.step (h : r.Sound user feed s) (hk : r.fetches[i]? = some k) {now : Int}
    (hturn : Fetch.Turns user feed k { r.session with now } k' t) :
    ({ session := t, fetches := r.fetches.set i k' } : Race).Sound user feed s := by
  have hacc : Session.Accepts user feed { r.session with now } := { h.accepts with }
  have hanswers := h.answers k (List.mem_of_getElem? hk)
  cases hturn with
  | idle answered =>
      exact h.set hk hacc hanswers [] [] (List.append_nil _).symm
        (List.append_nil _).symm (fun _ => by simp) (fun _ => by simp) List.nodup_nil
  | finish waiting done =>
      exact h.set hk { hacc with } (by rintro _ ⟨⟩; exact ⟨rfl, done⟩) [] []
        (List.append_nil _).symm (List.append_nil _).symm (fun _ => by simp)
        (fun _ => by simp) List.nodup_nil
  | fail waiting next run =>
      obtain ⟨_, _, hrun, -⟩ := hacc.exists_reconcile k.update _
      rw [run] at hrun
      cases hrun
  | @take c cs e t waiting next run =>
      obtain ⟨e', t', hrun, hsettles, haccepts⟩ := hacc.exists_reconcile k.update c
      obtain ⟨⟨rfl⟩, rfl⟩ := Prod.mk.inj (run.symm.trans hrun)
      have hwaits : ∀ a, k.answer = some a → a = .ok (k.created ++ e.toList) ∧ cs = [] := by
        rw [waiting]
        rintro _ ⟨⟩
      cases hsettles with
      | known hmem rows lastId =>
          refine h.set hk haccepts hwaits [c.hash] [] (List.map_append ..)
            (List.map_append ..) (fun hash => ?_) (fun hash => ?_) List.nodup_nil
          · rw [Action.hashes_of_known rows]
            simpa using fun heq : hash = c.hash => heq ▸ hmem
          · simpa using fun heq : hash = c.hash => heq ▸ hmem
      | @new v f hnew entries id hfeed makes =>
          have hhash : v.hash = c.hash := congrArg EntryView.hash makes.view
          refine h.set hk haccepts hwaits [c.hash] [c.hash] (List.map_append ..)
            ((List.map_append ..).trans (congrArg _ (congrArg (fun x => [x]) hhash)))
            (fun hash => ?_) (fun hash => ?_) (List.nodup_singleton _)
          · rw [Action.hashes_of_new entries, List.mem_cons, List.mem_singleton]
            exact or_comm
          · simpa using fun heq : hash = c.hash => heq ▸ hnew

/-- Every turn keeps the accounts, so a run does. -/
theorem Sound.run (h : r.Sound user feed s) (schedule : List Turn) :
    (r.run user feed schedule).Sound user feed s := by
  induction schedule generalizing r with
  | nil => exact h
  | cons m schedule ih =>
      refine ih ?_
      unfold Race.turn
      split
      · exact h
      · rename_i k hk
        exact h.step hk (Fetch.turns_turn user feed k _)

/-- A run leaves a refresh with its candidates, and with a turn less for every one that it has
taken. -/
theorem run_fetch (user feed : Id) (h : r.fetches[i]? = some k) (schedule : List Turn) :
    ∃ k', (r.run user feed schedule).fetches[i]? = some k' ∧ k'.past ++ k'.rest = k.past ++ k.rest
      ∧ k'.turnsLeft ≤ k.turnsLeft - (schedule.map Prod.fst).count i := by
  induction schedule generalizing r k with
  | nil => exact ⟨k, h, rfl, Nat.le_refl _⟩
  | cons m schedule ih =>
      by_cases hm : m.1 = i
      · have hturn := Fetch.turns_turn user feed k { r.session with now := m.2 }
        have hnext : (r.turn user feed m).fetches[i]?
            = some (k.turn user feed { r.session with now := m.2 }).1 := by
          subst hm
          unfold Race.turn
          rw [h]
          exact List.getElem?_set_self (List.getElem?_eq_some_iff.1 h).1
        obtain ⟨k', hk', hbatch, hleft⟩ := ih hnext
        refine ⟨k', hk', hbatch.trans hturn.past_append_rest, ?_⟩
        have hless := hturn.turnsLeft_le
        rw [List.map_cons, hm, List.count_cons_self]
        omega
      · have hnext : (r.turn user feed m).fetches[i]? = some k := by
          unfold Race.turn
          split
          · exact h
          · exact (List.getElem?_set_ne hm).trans h
        obtain ⟨k', hk', hbatch, hleft⟩ := ih hnext
        refine ⟨k', hk', hbatch, ?_⟩
        rw [List.map_cons, List.count_cons_of_ne hm]
        exact hleft

theorem length_fetches_run (r : Race) (schedule : List Turn) :
    (r.run user feed schedule).fetches.length = r.fetches.length := by
  induction schedule generalizing r with
  | nil => rfl
  | cons m schedule ih =>
      refine (ih (r.turn user feed m)).trans ?_
      unfold Race.turn
      split
      · rfl
      · exact List.length_set

/-- With a turn for every candidate and one more, each refresh has ended well. -/
theorem Sound.ended {batches : List (List Candidate × Bool)} {schedule : List Turn}
    (h : ((start s batches).run user feed schedule).Sound user feed s)
    (hturns : ∀ i (hi : i < batches.length),
      batches[i].1.length < (schedule.map Prod.fst).count i) :
    List.Forall₂ (fun k b => k.answer = some (.ok k.created) ∧ k.past = b.1)
      ((start s batches).run user feed schedule).fetches batches := by
  have hlength : ((start s batches).run user feed schedule).fetches.length = batches.length :=
    (length_fetches_run _ schedule).trans (List.length_map _)
  refine List.forall₂_iff_get.2 ⟨hlength, fun i _ hi => ?_⟩
  have hstart : (start s batches).fetches[i]?
      = some { update := batches[i].2, rest := batches[i].1 } := by
    simp [start, hi]
  obtain ⟨k, hk, hbatch, hleft⟩ := run_fetch user feed hstart schedule
  obtain ⟨_, rfl⟩ := List.getElem?_eq_some_iff.1 hk
  have hdone : (((start s batches).run user feed schedule).fetches[i]).answer.isSome = true := by
    have hi := hturns i hi
    by_contra hopen
    unfold Fetch.turnsLeft at hleft
    rw [if_neg hopen] at hleft
    simp only [Option.isSome_none, Bool.false_eq_true, if_false] at hleft
    omega
  obtain ⟨a, ha⟩ := Option.isSome_iff_exists.1 hdone
  obtain ⟨rfl, hrest⟩ := h.answers _ (List.getElem_mem _) a ha
  rw [hrest, List.append_nil] at hbatch
  exact ⟨ha, hbatch⟩

/-- All refreshes have succeeded, the feed has the hashes that it had and those of the batches, and
every new one of them has become an entry in exactly one refresh, exactly once. -/
def CreatesOnce (feed : Id) (s : Session) (batches : List (List Candidate × Bool)) (r : Race) :
    Prop :=
  ∃ created : List (List EntryView),
    r.fetches.map (·.answer) = created.map (fun vs => some (.ok vs))
    ∧ List.Forall₂ (fun vs b => vs.map (·.hash) ⊆ b.1.map (·.hash)) created batches
    ∧ (∀ hash, hash ∈ r.session.store.hashes feed
        ↔ hash ∈ s.store.hashes feed ∨ ∃ b ∈ batches, hash ∈ b.1.map (·.hash))
    ∧ (created.flatten.map (·.hash)).Nodup
    ∧ ∀ hash, hash ∈ created.flatten.map (·.hash)
        ↔ hash ∉ s.store.hashes feed ∧ ∃ b ∈ batches, hash ∈ b.1.map (·.hash)

end Race

/-- However many refreshes of one feed there are, and in whatever order and at whatever time their
candidates have their turns, they create every item once. -/
theorem Reachable.race_creates_once {s : Session} (hs : Reachable s) {user feed : Id}
    (huser : s.store.hasUser user = true) (hfeed : s.store.hasFeed feed = true)
    (howned : ∀ e ∈ s.store.entries.rows, e.feedId = feed → e.userId = user)
    (batches : List (List Candidate × Bool)) (schedule : List Race.Turn)
    (hturns : ∀ i (hi : i < batches.length),
      batches[i].1.length < (schedule.map Prod.fst).count i) :
    ((Race.start s batches).run user feed schedule).CreatesOnce feed s batches := by
  have hsound : ((Race.start s batches).run user feed schedule).Sound user feed s :=
    (Race.sound_start ⟨hs.ready, hs.integrity, hs.readable, huser, hfeed, howned⟩ batches).run
      schedule
  obtain ⟨hanswers, hbatches⟩ := (List.forall₂_and_left _ _).1 (hsound.ended hturns)
  generalize (Race.start s batches).run user feed schedule = r at *
  have hpast : r.fetches.map (·.past) = batches.map (·.1) := by
    rw [← List.forall₂_eq_eq_eq, List.forall₂_map_left_iff, List.forall₂_map_right_iff]
    exact hbatches
  have hpasts : ∀ hash, hash ∈ r.pasts ↔ ∃ b ∈ batches, hash ∈ b.1.map (·.hash) := by
    intro hash
    rw [show r.pasts = (r.fetches.map (·.past)).flatMap (·.map (·.hash)) from
      (List.flatMap_map ..).symm, hpast, List.flatMap_map, List.mem_flatMap]
  have hcreateds : (r.fetches.map (·.created)).flatten.map (·.hash) = r.createds := by
    rw [List.map_flatten, List.map_map, ← List.flatMap_def]
    rfl
  refine ⟨r.fetches.map (·.created), ?_, ?_, fun hash => ?_, ?_, fun hash => ?_⟩
  · rw [List.map_map]
    exact List.map_congr_left hanswers
  · rw [List.forall₂_map_left_iff]
    exact ((List.forall₂_and_left _ _).2 ⟨hsound.own, hbatches⟩).imp fun k b h => h.2 ▸ h.1
  · rw [hsound.hashes, hpasts]
  · rw [hcreateds]
    exact hsound.once
  · rw [hcreateds, hsound.created, hpasts]

/-- Two refreshes of a feed with three entries, one with updates and one without, that have a new
hash in common: the second one comes first to it, and the clock moves all the time. -/
theorem Reachable.race_creates_once_of_two :
    (Reachable .published
        ∧ ∀ e ∈ Session.published.store.entries.rows, e.feedId = 1 → e.userId = 1)
      ∧ ((Race.start .published
          [([.bare "a" 10, .bare "d" 40, .bare "d" 50], true),
            ([.bare "d" 60, .bare "e" 70], false)]).run 1 1
        [(0, 1), (1, 2), (0, 3), (1, 4), (0, 5), (1, 6), (0, 7)]).CreatesOnce 1 .published
          [([.bare "a" 10, .bare "d" 40, .bare "d" 50], true),
            ([.bare "d" 60, .bare "e" 70], false)] := by
  have hs : Reachable .published := Reachable.subscribed.run _
  have howned : ∀ e ∈ Session.published.store.entries.rows, e.feedId = 1 → e.userId = 1 := by
    decide +kernel
  exact ⟨⟨hs, howned⟩, Reachable.race_creates_once hs (by decide +kernel) (by decide +kernel) howned
    _ _ (by decide +kernel)⟩

end FeedStore
