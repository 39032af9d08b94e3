import FeedStore.Proofs.Identifiers
import FeedStore.Proofs.Ownership
import FeedStore.Proofs.Refresh
import FeedStore.Proofs.Writes

/-!
# What commands do to entries

There are nine kinds of change that a command can make to a stored entry (`Command.Edits`), and a
refresh can add entries (`Command.Adds`). What a command that takes nothing away leaves is every
entry, as it was or changed, and the new ones (`Command.rewrites_next`); the other commands leave
some of the entries as they were. Either way it can be said of every entry where it comes from
(`Command.origin_next`) and what has become of one that is still there (`Command.edits_next`). An
entry that differs before and after a run was changed by one of its commands
(`Session.exists_change`).
-/

namespace FeedStore

/-! ## Changes -/

namespace Command

/-- The reader gives the entry that status. -/
def Sets (c : Command) (e : Entry) (status : Status) : Prop :=
  match c with
  | setStatus user ids given => e.userId = user ∧ e.id ∈ ids ∧ status = given
  | setStatusCount user ids given => e.userId = user ∧ e.id ∈ ids ∧ status = given
  | _ => False

/-- The entry is in the scope of what its reader marks as read. -/
def Marks (c : Command) (s : Store) (e : Entry) : Prop :=
  match c with
  | markAll user => e.userId = user
  | markAllBefore user before => e.userId = user ∧ e.publishedAt < before
  | markFeed user feed before => e.userId = user ∧ e.feedId = feed ∧ e.publishedAt < before
  | markCategory user category before => e.userId = user ∧ e.publishedAt < before
      ∧ ∃ f ∈ s.feeds.rows, f.id = e.feedId ∧ f.userId = user ∧ f.categoryId = category
  | markShown user => e.userId = user
      ∧ ∃ f ∈ s.feeds.rows, f.id = e.feedId ∧ f.userId = user ∧ f.hideGlobally = false
        ∧ ∃ g ∈ s.categories.rows, g.id = f.categoryId ∧ g.hideGlobally = false
  | _ => False

/-- The reader gives the entry a star or takes it away. -/
def Stars (c : Command) (e : Entry) (starred : Bool) : Prop :=
  match c with
  | setStar user ids given => e.userId = user ∧ e.id ∈ ids ∧ starred = given
  | toggleStar user entry => e.userId = user ∧ e.id = entry ∧ starred = !e.starred
  | _ => False

/-- What the command may make of a stored entry. -/
inductive Edits (c : Command) (s : Session) (e : Entry) : Entry → Prop
  | status {status : Status} (h : c.Sets e status) : Edits c s e (e.withStatus status s.now)
  | mark (h : c.Marks s.store e) (hunread : e.status = .known .unread) :
      Edits c s e (e.withStatus .read s.now)
  | flush (h : c = flushHistory e.userId) (hread : e.status = .known .read)
      (hstar : e.starred = false) (hcode : e.shareCode = "") :
      Edits c s e (e.withStatus .removed s.now)
  | archive {status : Status} {days limit : Int} (h : c = archive status days limit)
      (hstatus : e.status = .known status) (hstar : e.starred = false) (hcode : e.shareCode = "") :
      Edits c s e { e with status := .known .removed }
  | star {starred : Bool} (h : c.Stars e starred) : Edits c s e (e.withStar starred s.now)
  | text {title content : String} {readingTime : Int}
      (h : c = updateText e.userId e.id title content readingTime) :
      Edits c s e { e with title, content, readingTime, changedAt := s.now }
  | refresh {user feed : Id} {cs front : List Candidate} {update : Bool}
      (h : c = refreshFeed user feed cs update) (hfront : front <+: cs) :
      Edits c s e (front.foldl (Entry.seen feed update s.now) e)
  | share {code : String} (h : c = share e.userId e.id code) (hcode : e.shareCode = "") :
      Edits c s e { e with shareCode := code }
  | unshare (h : c = unshare e.userId e.id) : Edits c s e { e with shareCode := "" }

/-- The command may have made the entry out of a candidate. -/
def Adds (c : Command) (s : Session) (e' : Entry) : Prop :=
  match c with
  | refreshFeed user feed cs update => s.store.entries.lastId < e'.id
      ∧ ∃ front, front <+: cs
        ∧ ∃ d ∈ front,
          e' = front.foldl (Entry.seen feed update s.now) (d.toEntry user feed s.now e'.id)
  | _ => False

end Command

/-- The second row is the first one as far as nobody has a say in it. -/
structure Entry.Endures (e e' : Entry) : Prop where
  id : e'.id = e.id
  userId : e'.userId = e.userId
  feedId : e'.feedId = e.feedId
  hash : e'.hash = e.hash
  publishedAt : e'.publishedAt = e.publishedAt
  createdAt : e'.createdAt = e.createdAt

theorem Command.Edits.endures {c : Command} {s : Session} {e e' : Entry} (h : c.Edits s e e') :
    e.Endures e' := by
  cases h with
  | @refresh user feed cs front update h hfront =>
      have hpersists := Entry.persists_foldl_seen feed update s.now e front
      exact ⟨hpersists.id, hpersists.userId, hpersists.feedId, hpersists.hash,
        hpersists.publishedAt, hpersists.createdAt⟩
  | _ => exact ⟨rfl, rfl, rfl, rfl, rfl, rfl⟩

/-! ## Entries before and after -/

namespace Store

variable {s t : Store} {R : Entry → Entry → Prop} {N : Entry → Prop}

/-- Every entry is still there afterwards, related in this way to what it was. -/
def Keeps (R : Entry → Entry → Prop) (s t : Store) : Prop :=
  ∀ e ∈ s.entries.rows, ∃ e' ∈ t.entries.rows, e'.id = e.id ∧ R e e'

/-- The entries afterwards are those of before, each as it was or related in this way to what it
was, and behind them new ones. -/
def Rewrites (R : Entry → Entry → Prop) (N : Entry → Prop) (s t : Store) : Prop :=
  ∃ f new, t.entries.rows = s.entries.rows.map f ++ new
    ∧ (∀ e ∈ s.entries.rows, f e = e ∨ R e (f e)) ∧ ∀ e ∈ new, N e

theorem rewrites_of_entries_eq (h : t.entries = s.entries) : s.Rewrites R N t := by
  refine ⟨id, [], ?_, fun e _ => Or.inl rfl, fun e he => ?_⟩
  · rw [h, List.map_id, List.append_nil]
  · cases he

theorem rewrites_modifyEntries {p : Entry → Bool} {f : Entry → Entry}
    (hf : ∀ e ∈ s.entries.rows, p e = true → R e (f e)) :
    s.Rewrites R N (s.modifyEntries p f).2 := by
  refine ⟨fun e => if p e then f e else e, [], (List.append_nil _).symm, fun e he => ?_,
    fun e he => ?_⟩
  · dsimp only
    split
    · exact Or.inr (hf e he ‹_›)
    · exact Or.inl rfl
  · cases he

/-- Every entry afterwards is an old one or a new one. -/
theorem Rewrites.origin (h : s.Rewrites R N t) {e' : Entry} (he' : e' ∈ t.entries.rows) :
    (∃ e ∈ s.entries.rows, e' = e ∨ R e e') ∨ N e' := by
  obtain ⟨f, new, hrows, hold, hnew⟩ := h
  rw [hrows] at he'
  rcases List.mem_append.1 he' with he' | he'
  · obtain ⟨e, he, rfl⟩ := List.mem_map.1 he'
    exact Or.inl ⟨e, he, hold e he⟩
  · exact Or.inr (hnew e' he')

theorem Rewrites.keeps (h : s.Rewrites R N t) (hid : ∀ {e e'}, R e e' → e'.id = e.id) :
    s.Keeps (fun e e' => e' = e ∨ R e e') t := by
  obtain ⟨f, new, hrows, hold, -⟩ := h
  intro e he
  have hmem : f e ∈ t.entries.rows := by
    rw [hrows]
    exact List.mem_append_left _ (List.mem_map_of_mem he)
  refine ⟨f e, hmem, ?_, hold e he⟩
  rcases hold e he with hsame | hrel
  · rw [hsame]
  · exact hid hrel

theorem isFeedIn_iff {user category feed : Id} :
    s.isFeedIn user category feed = true
      ↔ ∃ f ∈ s.feeds.rows, f.id = feed ∧ f.userId = user ∧ f.categoryId = category := by
  simp [isFeedIn, Table.holds_iff, and_assoc]

theorem isShownFeedOf_iff {user feed : Id} :
    s.isShownFeedOf user feed = true
      ↔ ∃ f ∈ s.feeds.rows, f.id = feed ∧ f.userId = user ∧ f.hideGlobally = false
        ∧ ∃ g ∈ s.categories.rows, g.id = f.categoryId ∧ g.hideGlobally = false := by
  simp [isShownFeedOf, shownGlobally, Table.holds_iff, and_assoc]

/-- What is archived has the status and is unprotected. -/
theorem of_mem_archivable {status : Status} {cutoff limit : Int} {e : Entry}
    (h : e ∈ s.archivable status cutoff limit) :
    e ∈ s.entries.rows ∧ e.status = .known status ∧ e.starred = false ∧ e.shareCode = "" := by
  obtain ⟨he, hp⟩ := List.mem_filter.1 (List.mem_mergeSort.1 (List.mem_of_mem_take h))
  simp only [Entry.isArchivable, Entry.hasStatus, Entry.isUnprotected, Bool.and_eq_true,
    Bool.not_eq_true', beq_iff_eq] at hp
  exact ⟨he, hp.1.1, hp.1.2.1, hp.1.2.2⟩

end Store

/-! ## Sharing -/

theorem Store.shareCode?_eq_some_iff {s : Store} (hs : s.Integrity) {user entry : Id}
    {code : String} :
    s.shareCode? user entry = some code
      ↔ ∃ e ∈ s.entries.rows, e.userId = user ∧ e.id = entry ∧ e.shareCode = code := by
  unfold shareCode?
  rw [Option.map_eq_some_iff]
  constructor
  · rintro ⟨e, he, hcode⟩
    obtain ⟨huser, hid⟩ := Entry.isOwn_iff.1 (List.find?_some he)
    exact ⟨e, List.mem_of_find?_eq_some he, huser, hid, hcode⟩
  · rintro ⟨e, he, huser, hid, hcode⟩
    refine ⟨e, Table.find?_eq_some_of_unique he (Entry.isOwn_iff.2 ⟨huser, hid⟩) ?_, hcode⟩
    intro a ha hown
    exact hs.entries.distinct.eq_of_eq ha he ((Entry.isOwn_iff.1 hown).2.trans hid.symm)

theorem Store.shareCode?_eq_none_iff {s : Store} {user entry : Id} :
    s.shareCode? user entry = none ↔ ¬ s.HasEntryOf user entry := by
  simp [shareCode?, HasEntryOf, Table.find?]

namespace Action

variable {s : Session} {user entry : Id}

/-- Without the limits of the engine in the way, sharing looks the code up and draws one if the
entry has none. -/
theorem perform_share (hr : s.Ready) (user entry : Id) (drawn : String) :
    (share user entry drawn).perform s =
      match s.store.shareCode? user entry with
      | none => (.ok none, s)
      | some code =>
        if code ≠ "" then (.ok (some code), s)
        else match s.store.setShareCode user entry drawn with
          | .ok (_, store) => (.ok (some drawn), { s with store })
          | .error fault =>
            let context := "unable to set share code of entry #" ++ toString entry
            (.error (.ofFault context fault), s) := by
  unfold share fetchShareCode
  rw [perform_bind, perform_read_of_ready hr]
  dsimp only
  cases s.store.shareCode? user entry with
  | none => rfl
  | some code =>
      dsimp only
      split
      · rfl
      · unfold storeShareCode write
        rw [perform_bind, perform_bind, perform_writeWithin,
          hr.refusal? _ .empty]
        dsimp only
        cases s.store.setShareCode user entry drawn with
        | error fault => rfl
        | ok r => rfl

theorem perform_unshare (hr : s.Ready) (user entry : Id) :
    (unshare user entry).perform s =
      (if s.store.entries.count (Entry.isOwn user entry) = 0 then .error .nothingUpdated
        else .ok (),
        { s with store := (s.store.modifyEntries (Entry.isOwn user entry) fun e =>
          { e with shareCode := "" }).2 }) := by
  unfold unshare
  rw [perform_bind, perform_write_of_ready hr rfl]
  exact perform_orNothing _ _

end Action

/-! ## What each command does -/

namespace Command

open Store

variable {c : Command} {s : Session} {t : Store}

theorem rewrites_markRead {user : Id} {p : Entry → Bool}
    (h : ∀ e ∈ s.store.entries.rows, e.userId = user → p e = true → c.Marks s.store e) :
    s.store.Rewrites (c.Edits s) (c.Adds s) (s.store.markRead user p s.now).2 := by
  refine rewrites_modifyEntries fun e he hp => ?_
  obtain ⟨hunread, hp⟩ := Bool.and_eq_true_iff.1 hp
  obtain ⟨huser, hunread⟩ := Bool.and_eq_true_iff.1 hunread
  exact .mark (h e he (beq_iff_eq.1 huser) hp) (beq_iff_eq.1 hunread)

theorem rewrites_setStatus {user : Id} {ids : List Id} {status : Status}
    (h : ∀ e, e.userId = user → e.id ∈ ids → c.Sets e status) :
    s.store.Rewrites (c.Edits s) (c.Adds s) (s.store.setStatus user ids status s.now).2 := by
  refine rewrites_modifyEntries fun e _ hp => ?_
  obtain ⟨huser, hid⟩ := Bool.and_eq_true_iff.1 hp
  exact .status (h e (beq_iff_eq.1 huser) (List.contains_iff_mem.1 hid))

/-- A change to one entry of a user. -/
theorem rewrites_modifyOwn {user entry : Id} {f : Entry → Entry}
    (h : ∀ e ∈ s.store.entries.rows, e.userId = user → e.id = entry → c.Edits s e (f e)) :
    s.store.Rewrites (c.Edits s) (c.Adds s)
      (s.store.modifyEntries (Entry.isOwn user entry) f).2 := by
  refine rewrites_modifyEntries fun e he hp => ?_
  obtain ⟨huser, hid⟩ := Bool.and_eq_true_iff.1 hp
  exact h e he (beq_iff_eq.1 huser) (beq_iff_eq.1 hid)

theorem rewrites_refreshFeed {user feed : Id} {update : Bool} {cs front : List Candidate}
    {created : List EntryView} (hs : s.store.Integrity) (hfront : front <+: cs)
    (h : (Action.reconcileAll user feed update front).perform s
      = (.ok created, { s with store := t })) :
    s.store.Rewrites ((refreshFeed user feed cs update).Edits s)
      ((refreshFeed user feed cs update).Adds s) t := by
  have hrec := Action.reconciles_reconcileAll hs h
  refine ⟨fun e => front.foldl (Entry.seen feed update s.now) e, _,
    hrec.rows.trans List.map_append, fun e _ => Or.inr (.refresh rfl hfront), fun e he => ?_⟩
  obtain ⟨a, ha, rfl⟩ := List.mem_map.1 he
  obtain ⟨d, hd, v, hv, rfl⟩ := Action.of_mem_newRows ha
  obtain ⟨-, before, after, hsplit, -⟩ := Candidate.mem_newcomers.1 hd
  have hmem : d ∈ front := by
    rw [hsplit]
    exact List.mem_append_right _ List.mem_cons_self
  have hid := (Entry.persists_foldl_seen feed update s.now
    (d.toEntry user feed s.now v.id) front).id
  refine ⟨?_, front, hfront, d, hmem, ?_⟩
  · rw [hid]
    exact hrec.fresh v hv
  · rw [hid]
    rfl

theorem rewrites_share (hr : s.Ready) (hs : s.store.Integrity) (user entry : Id) (drawn : String) :
    s.store.Rewrites ((share user entry drawn).Edits s) ((share user entry drawn).Adds s)
      ((share user entry drawn).next s).store := by
  show s.store.Rewrites _ _ ((Action.share user entry drawn).perform s).2.store
  rw [Action.perform_share hr]
  cases hcode : s.store.shareCode? user entry with
  | none => exact rewrites_of_entries_eq rfl
  | some code =>
      dsimp only
      split
      · exact rewrites_of_entries_eq rfl
      · rename_i hempty
        cases hset : s.store.setShareCode user entry drawn with
        | error fault => exact rewrites_of_entries_eq rfl
        | ok r =>
            obtain ⟨n, t⟩ := r
            obtain ⟨-, -, rfl⟩ := of_setShareCode hset
            refine rewrites_modifyOwn fun e he huser hid => ?_
            -- the entry that was looked up is the one that is changed
            obtain ⟨a, ha, -, haid, hacode⟩ := (shareCode?_eq_some_iff hs).1 hcode
            obtain rfl := hs.entries.distinct.eq_of_eq ha he (haid.trans hid.symm)
            subst huser hid
            exact .share rfl (hacode.trans (not_not.1 hempty))

/-- A command that takes no entries away leaves every entry, as it was or changed as the command may
change it, and adds some at most. -/
theorem rewrites_next (c : Command) (hr : s.Ready) (hs : s.store.Integrity)
    (hc : c.erases = false) :
    s.store.Rewrites (c.Edits s) (c.Adds s) (c.next s).store := by
  rcases c.writes_next hr hs with hsame | hw
  · exact rewrites_of_entries_eq (by rw [hsame])
  cases c with
  | share user entry drawn => exact rewrites_share hr hs user entry drawn
  | createUser username =>
      obtain ⟨row, hadd⟩ := hw
      obtain ⟨-, -, ht⟩ := of_addUser hadd
      exact rewrites_of_entries_eq (by rw [ht])
  | createCategory user title hide =>
      obtain ⟨row, hadd⟩ := hw
      obtain ⟨-, -, -, ht⟩ := of_addCategory hadd
      exact rewrites_of_entries_eq (by rw [ht])
  | createFeed user offer =>
      obtain ⟨row, hadd⟩ := hw
      obtain ⟨-, -, -, -, ht⟩ := of_addFeed hadd
      exact rewrites_of_entries_eq (by rw [ht])
  | hideCategory user category hide => exact rewrites_of_entries_eq (by rw [hw]; rfl)
  | hideFeed user feed hide => exact rewrites_of_entries_eq (by rw [hw]; rfl)
  | updateFetchState user feed state => exact rewrites_of_entries_eq (by rw [hw]; rfl)
  | recordFeedError user feed message nextCheckAt =>
      exact rewrites_of_entries_eq (by rw [hw]; rfl)
  | resetFeedErrors user => exact rewrites_of_entries_eq (by rw [hw]; rfl)
  | updateProgression user enclosure seconds => exact rewrites_of_entries_eq (by rw [hw]; rfl)
  | refreshFeed user feed cs update =>
      obtain ⟨front, created, hfront, hrun⟩ := hw
      exact rewrites_refreshFeed hs hfront hrun
  | updateText user entry title content readingTime =>
      rw [show _ = _ from hw]
      refine rewrites_modifyOwn fun e _ huser hid => ?_
      subst huser hid
      exact .text rfl
  | setStar user ids starred =>
      rw [show _ = _ from hw]
      refine rewrites_modifyEntries fun e _ hp => ?_
      obtain ⟨huser, hid⟩ := Bool.and_eq_true_iff.1 hp
      exact .star ⟨beq_iff_eq.1 huser, List.contains_iff_mem.1 hid, rfl⟩
  | toggleStar user entry =>
      rw [show _ = _ from hw]
      exact rewrites_modifyOwn fun e _ huser hid => .star ⟨huser, hid, rfl⟩
  | unshare user entry =>
      obtain ⟨n, hset⟩ := hw
      obtain ⟨-, -, ht⟩ := of_setShareCode hset
      rw [ht]
      refine rewrites_modifyOwn fun e _ huser hid => ?_
      subst huser hid
      exact .unshare rfl
  | setStatus user ids status =>
      rw [show _ = _ from hw]
      exact rewrites_setStatus fun e huser hid => ⟨huser, hid, rfl⟩
  | setStatusCount user ids status =>
      rw [show _ = _ from hw]
      exact rewrites_setStatus fun e huser hid => ⟨huser, hid, rfl⟩
  | markAll user =>
      rw [show _ = _ from hw]
      exact rewrites_markRead fun e _ huser _ => huser
  | markAllBefore user before =>
      rw [show _ = _ from hw]
      exact rewrites_markRead fun e _ huser hp => ⟨huser, of_decide_eq_true hp⟩
  | markFeed user feed before =>
      rw [show _ = _ from hw]
      refine rewrites_markRead fun e _ huser hp => ?_
      obtain ⟨hfeed, hbefore⟩ := Bool.and_eq_true_iff.1 hp
      exact ⟨huser, beq_iff_eq.1 hfeed, of_decide_eq_true hbefore⟩
  | markCategory user category before =>
      rw [show _ = _ from hw]
      refine rewrites_markRead fun e _ huser hp => ?_
      obtain ⟨hbefore, hfeed⟩ := Bool.and_eq_true_iff.1 hp
      exact ⟨huser, of_decide_eq_true hbefore, isFeedIn_iff.1 hfeed⟩
  | markShown user =>
      rw [show _ = _ from hw]
      exact rewrites_markRead fun e _ huser hp => ⟨huser, isShownFeedOf_iff.1 hp⟩
  | flushHistory user =>
      rw [show _ = _ from hw]
      refine rewrites_modifyEntries fun e _ hp => ?_
      simp only [Entry.hasStatus, Entry.isUnprotected, Bool.and_eq_true, Bool.not_eq_true',
        beq_iff_eq] at hp
      obtain ⟨⟨huser, hread⟩, hstar, hcode⟩ := hp
      exact .flush (by rw [huser]) hread hstar hcode
  | archive status days limit =>
      obtain ⟨cutoff, ht⟩ := hw
      rw [ht]
      refine rewrites_modifyEntries fun e he hp => ?_
      -- archiving picks entries by their identifiers, which tell them apart
      obtain ⟨a, hmem, hid⟩ := List.mem_map.1 (List.contains_iff_mem.1 hp)
      obtain ⟨ha, hstatus, hstar, hcode⟩ := of_mem_archivable hmem
      obtain rfl := hs.entries.distinct.eq_of_eq ha he hid
      exact .archive rfl hstatus hstar hcode
  | removeUserLater user => exact hw.elim
  | setClock now => exact hw.elim
  | removeUser user => cases hc
  | removeCategory user category => cases hc
  | removeFeed user feed => cases hc
  | sweep feed hashes => cases hc
  | runPending => cases hc

theorem keeps_next (c : Command) (hr : s.Ready) (hs : s.store.Integrity)
    (hc : c.erases = false) :
    s.store.Keeps (fun e e' => e' = e ∨ c.Edits s e e') (c.next s).store :=
  (c.rewrites_next hr hs hc).keeps fun h => h.endures.id

end Command

/-! ## Rows that go -/

namespace Store

variable {s t u : Store}

/-- The feeds and entries afterwards are some of those of before, as they were. -/
structure Shrinks (s t : Store) : Prop where
  feeds : t.feeds.rows ⊆ s.feeds.rows
  entries : t.entries.rows ⊆ s.entries.rows

theorem Shrinks.refl (s : Store) : s.Shrinks s := ⟨List.Subset.refl _, List.Subset.refl _⟩

theorem Shrinks.trans (h : s.Shrinks t) (h' : t.Shrinks u) : s.Shrinks u :=
  ⟨fun _ hf => h.feeds (h'.feeds hf), fun _ he => h.entries (h'.entries he)⟩

theorem shrinks_eraseEntries (s : Store) (p : Entry → Bool) : s.Shrinks (s.eraseEntries p) :=
  ⟨List.Subset.refl _, fun _ he => (Table.mem_rows_erase.1 he).1⟩

theorem shrinks_eraseFeeds (s : Store) (p : Feed → Bool) : s.Shrinks (s.eraseFeeds p) :=
  ⟨fun _ hf => (Table.mem_rows_erase.1 hf).1, fun _ he => (Table.mem_rows_erase.1 he).1⟩

theorem shrinks_eraseCategories (s : Store) (p : Category → Bool) :
    s.Shrinks (s.eraseCategories p) :=
  ⟨fun _ hf => (Table.mem_rows_erase.1 hf).1, fun _ he => (Table.mem_rows_erase.1 he).1⟩

theorem shrinks_eraseUser (s : Store) (user : Id) : s.Shrinks (s.eraseUser user) :=
  ⟨fun _ hf => (Table.mem_rows_erase.1 hf).1, fun _ he => (Table.mem_rows_erase.1 he).1⟩

end Store

theorem Work.shrinks_leaves (w : Work) (s : Store) : s.Shrinks (w.leaves s) := by
  cases w with
  | sweep feed hashes =>
      unfold leaves
      dsimp only
      split
      · exact .refl s
      · exact s.shrinks_eraseEntries _
  | removeUser user => exact s.shrinks_eraseUser user

namespace Command

variable {s : Session}

/-- A command that takes rows away leaves the other feeds and entries as they are. -/
theorem shrinks_next {c : Command} (hr : s.Ready) (hs : s.store.Integrity)
    (hc : c.erases = true) : s.store.Shrinks (c.next s).store := by
  have hw := writes_of_erases hr hs hc
  cases c with
  | removeUser user =>
      rw [show _ = _ from hw]
      exact Work.shrinks_leaves _ _
  | removeCategory user category =>
      rw [show _ = _ from hw]
      exact s.store.shrinks_eraseCategories _
  | removeFeed user feed =>
      rw [show _ = _ from hw]
      exact (s.store.shrinks_eraseEntries _).trans (Store.shrinks_eraseFeeds _ _)
  | sweep feed hashes =>
      rw [show _ = _ from hw]
      exact Work.shrinks_leaves _ _
  | runPending =>
      exact Session.runAll_of_leaves (s := { s with jobs := [] }) Store.Shrinks.refl
        Store.Shrinks.trans Work.shrinks_leaves hr hs s.jobs
  | _ => cases hc

/-- Every entry after a command was there before, as it is or before the command changed it, or the
command has added it. -/
theorem origin_next (c : Command) (hs : Reachable s) {e' : Entry}
    (he' : e' ∈ (c.next s).store.entries.rows) :
    (∃ e ∈ s.store.entries.rows, e' = e ∨ c.Edits s e e') ∨ c.Adds s e' := by
  cases hc : c.erases with
  | true =>
      exact Or.inl ⟨e', (shrinks_next hs.ready hs.integrity hc).entries he', Or.inl rfl⟩
  | false => exact (c.rewrites_next hs.ready hs.integrity hc).origin he'

theorem Adds.lt {c : Command} {e' : Entry} (h : c.Adds s e') :
    s.store.entries.lastId < e'.id := by
  cases c with
  | refreshFeed user feed cs update => exact h.1
  | _ => exact h.elim

/-- An entry that is there before and after a command is the same, or the command has changed it. -/
theorem edits_next (c : Command) (hs : Reachable s) {e e' : Entry}
    (he : e ∈ s.store.entries.rows) (he' : e' ∈ (c.next s).store.entries.rows)
    (hid : e'.id = e.id) : e' = e ∨ c.Edits s e e' := by
  rcases c.origin_next hs he' with ⟨a, ha, hedit⟩ | hadds
  · have haid : a.id = e'.id := by
      rcases hedit with rfl | hedit
      · rfl
      · exact hedit.endures.id.symm
    obtain rfl := hs.integrity.entries.distinct.eq_of_eq ha he (haid.trans hid)
    exact hedit
  · have hbound : e.id ≤ s.store.entries.lastId := hs.integrity.entries.bounded e he
    have hlt := hadds.lt
    rw [hid] at hlt
    exact absurd hbound (not_le_of_gt hlt)

end Command

/-! ## Runs -/

namespace Session

variable {s : Session}

/-- No command of the run does this when its turn comes. -/
def RunsWithout (P : Command → Session → Prop) (s : Session) (cs : List Command) : Prop :=
  ∀ front c back, cs = front ++ c :: back → ¬ P c (s.run front)

section

variable {P : Command → Session → Prop} {c : Command} {cs : List Command}

theorem RunsWithout.head (h : s.RunsWithout P (c :: cs)) : ¬ P c s :=
  h [] c cs rfl

theorem RunsWithout.tail (h : s.RunsWithout P (c :: cs)) : (c.next s).RunsWithout P cs :=
  fun front d back hcs => h (c :: front) d back (congrArg (c :: ·) hcs)

theorem RunsWithout.cons (hc : ¬ P c s) (hcs : (c.next s).RunsWithout P cs) :
    s.RunsWithout P (c :: cs) := by
  intro front d back hsplit
  cases front with
  | nil =>
      obtain ⟨rfl, -⟩ := List.cons.inj hsplit
      exact hc
  | cons b front =>
      obtain ⟨rfl, hrest⟩ := List.cons.inj hsplit
      exact hcs front d back hrest

theorem runsWithout_of_forall (h : ∀ c ∈ cs, ∀ t, ¬ P c t) : s.RunsWithout P cs := by
  rintro front c back rfl
  exact h c (List.mem_append_right _ List.mem_cons_self) _

end

theorem exists_entry_of_run {cs : List Command} {e' : Entry}
    (he' : e' ∈ (s.run cs).store.entries.rows) (hle : e'.id ≤ s.store.entries.lastId) :
    ∃ a ∈ s.store.entries.rows, a.id = e'.id := by
  have hmem := s.mem_ids_run cs .entries e'.id (List.mem_map_of_mem he')
  rcases hmem with hmem | hlt
  · obtain ⟨a, ha, hid⟩ := List.mem_map.1 hmem
    exact ⟨a, ha, hid⟩
  · exact absurd hle (not_le_of_gt hlt)

/-- Something that is true of an entry before a run and false of it afterwards changes with
some command of the run. -/
theorem exists_change {Q : Entry → Prop} (hs : Reachable s) {cs : List Command} {e e' : Entry}
    (he : e ∈ s.store.entries.rows) (he' : e' ∈ (s.run cs).store.entries.rows)
    (hid : e'.id = e.id) (hQ : Q e) (hQ' : ¬ Q e') :
    ∃ front c back, cs = front ++ c :: back
      ∧ ∃ a ∈ (s.run front).store.entries.rows, a.id = e.id ∧ Q a
        ∧ ∃ a' ∈ (c.next (s.run front)).store.entries.rows, a'.id = a.id ∧ ¬ Q a' := by
  induction cs generalizing s e with
  | nil =>
      obtain rfl := hs.integrity.entries.distinct.eq_of_eq he' he hid
      exact absurd hQ hQ'
  | cons c cs ih =>
      -- the entry is there after the first command, or its identifier would have come back
      have hle : e'.id ≤ (c.next s).store.entries.lastId := by
        rw [hid]
        exact (hs.integrity.entries.bounded e he).trans (c.takes_next s).store.counted.entries
      obtain ⟨a, ha, haid⟩ := exists_entry_of_run (s := c.next s) he' hle
      by_cases hQa : Q a
      · obtain ⟨front, d, back, rfl, b, hb, hbid, hrest⟩ := ih (hs.step c) ha he' haid.symm hQa
        exact ⟨c :: front, d, back, rfl, b, hb, hbid.trans (haid.trans hid), hrest⟩
      · exact ⟨[], c, cs, rfl, e, he, rfl, hQ, a, ha, haid.trans hid, hQa⟩

end Session

end FeedStore
