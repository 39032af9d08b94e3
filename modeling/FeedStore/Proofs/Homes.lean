import FeedStore.Proofs.Answers
import FeedStore.Proofs.Isolation
import FeedStore.Proofs.StatusMoves

/-!
# Feeds in the categories of their users

The tables ask of a new feed that its category is there, not whose it is. Apart from that nothing
moves a feed or a category to another user: feeds and categories are only ever added, changed in
other respects or taken away (`Store.PassesOn`). So as long as nobody puts a feed into a category of
somebody else, every feed lives in a category of its user (`Store.AtHome`). Then what goes with a
category of a user is feeds of that user, with whatever lies in them
(`Store.AtHome.removeCategory_eq`), and others only notice if they have entries there
(`ReachableAtHome.keepsCategories`).
-/

namespace FeedStore

/-! ## Feeds and categories that stay -/

namespace Store

open Table

/-- The feeds and categories of the second store are some of the first one's, as far as users and
the categories of feeds go. -/
structure PassesOn (s t : Store) : Prop where
  feeds : ∀ f ∈ t.feeds.rows,
    ∃ f' ∈ s.feeds.rows, f'.userId = f.userId ∧ f'.categoryId = f.categoryId
  categories : ∀ c ∈ t.categories.rows,
    ∃ c' ∈ s.categories.rows, c'.userId = c.userId ∧ c'.id = c.id

/-- Every feed is in a category of its user. -/
def AtHome (s : Store) : Prop := ∀ f ∈ s.feeds.rows, s.HasCategoryOf f.userId f.categoryId

variable {s t u : Store}

namespace PassesOn

theorem of_subset (hfeeds : ∀ f ∈ t.feeds.rows, f ∈ s.feeds.rows)
    (hcategories : ∀ c ∈ t.categories.rows, c ∈ s.categories.rows) : s.PassesOn t :=
  ⟨fun f hf => ⟨f, hfeeds f hf, rfl, rfl⟩, fun c hc => ⟨c, hcategories c hc, rfl, rfl⟩⟩

theorem of_eq (hfeeds : t.feeds = s.feeds) (hcategories : t.categories = s.categories) :
    s.PassesOn t :=
  of_subset (fun _ hf => hfeeds ▸ hf) fun _ hc => hcategories ▸ hc

theorem trans (h : s.PassesOn t) (h' : t.PassesOn u) : s.PassesOn u := by
  constructor
  · intro f hf
    obtain ⟨f', hf', huser, hcategory⟩ := h'.feeds f hf
    obtain ⟨f'', hf'', huser', hcategory'⟩ := h.feeds f' hf'
    exact ⟨f'', hf'', huser'.trans huser, hcategory'.trans hcategory⟩
  · intro c hc
    obtain ⟨c', hc', huser, hid⟩ := h'.categories c hc
    obtain ⟨c'', hc'', huser', hid'⟩ := h.categories c' hc'
    exact ⟨c'', hc'', huser'.trans huser, hid'.trans hid⟩

theorem modifyFeeds {p : Feed → Bool} {f : Feed → Feed}
    (hf : ∀ r, (f r).userId = r.userId ∧ (f r).categoryId = r.categoryId) :
    s.PassesOn { s with feeds := s.feeds.modify p f } := by
  refine ⟨fun r hr => ?_, fun c hc => ⟨c, hc, rfl, rfl⟩⟩
  obtain ⟨r', hr', rfl⟩ := mem_rows_modify.1 hr
  refine ⟨r', hr', ?_, ?_⟩
  · rw [apply_ite Feed.userId, (hf r').1, ite_self]
  · rw [apply_ite Feed.categoryId, (hf r').2, ite_self]

theorem modifyCategories {p : Category → Bool} {f : Category → Category}
    (hf : ∀ c, (f c).userId = c.userId ∧ (f c).id = c.id) :
    s.PassesOn { s with categories := s.categories.modify p f } := by
  refine ⟨fun r hr => ⟨r, hr, rfl, rfl⟩, fun c hc => ?_⟩
  obtain ⟨c', hc', rfl⟩ := mem_rows_modify.1 hc
  refine ⟨c', hc', ?_, ?_⟩
  · rw [apply_ite Category.userId, (hf c').1, ite_self]
  · rw [apply_ite Category.id, (hf c').2, ite_self]

end PassesOn

/-- The category of a feed is still there, so it is the one that was there before. -/
theorem AtHome.passesOn (h : s.AtHome) (hs : s.Integrity) (ht : t.Integrity)
    (hst : s.PassesOn t) : t.AtHome := by
  intro f hf
  obtain ⟨f', hf', huser, hcategory⟩ := hst.feeds f hf
  obtain ⟨c, hc, hid⟩ := holds_id_iff.1 (ht.feedCategory f hf)
  obtain ⟨c', hc', huser', hid'⟩ := hst.categories c hc
  have hown : s.HasCategoryOf f.userId c'.id := by
    rw [hid', hid, ← huser, ← hcategory]
    exact h f' hf'
  have hcuser : c.userId = f.userId := huser'.symm.trans (HasCategoryOf.userId_eq hs hown hc')
  exact ⟨c, hc, ownCategory_iff.2 ⟨hcuser, hid⟩⟩

theorem AtHome.addCategory (h : s.AtHome) {make : Id → Category} :
    ({ s with categories := (s.categories.add make).2 } : Store).AtHome := by
  intro f hf
  obtain ⟨c, hc, hown⟩ := h f hf
  exact ⟨c, List.mem_append_left _ hc, hown⟩

/-- A new feed is at home if the category that it names is nobody else's. -/
theorem AtHome.addFeed (h : s.AtHome) {user : Id} {offer : FeedOffer} {row : Feed}
    (hadd : s.addFeed user offer = .ok (row, t))
    (hown : ∀ c ∈ s.categories.rows, c.id = offer.categoryId → c.userId = user) : t.AtHome := by
  obtain ⟨-, -, hthere, -, rfl⟩ := of_addFeed hadd
  obtain ⟨c, hc, hid⟩ := holds_id_iff.1 hthere
  exact forall_mem_rows_add h ⟨c, hc, ownCategory_iff.2 ⟨hown c hc hid, hid⟩⟩

end Store

/-! ## Commands -/

theorem Work.passesOn_leaves (w : Work) (s : Store) : s.PassesOn (w.leaves s) := by
  cases w with
  | removeUser user =>
      exact .of_subset (fun _ hf => (Table.mem_rows_erase.1 hf).1)
        fun _ hc => (Table.mem_rows_erase.1 hc).1
  | sweep feed hashes =>
      unfold leaves
      dsimp only
      split
      · exact .of_eq rfl rfl
      · exact .of_eq rfl rfl

namespace Command

open Store

/-- Nobody puts a feed into a category of somebody else. -/
def staysHome (c : Command) (s : Session) : Bool :=
  match c with
  | createFeed user offer =>
    !s.store.categories.holds fun c => c.id == offer.categoryId && c.userId != user
  | _ => true

theorem staysHome_createFeed_iff {user : Id} {offer : FeedOffer} {s : Session} :
    (createFeed user offer).staysHome s = true
      ↔ ∀ c ∈ s.store.categories.rows, c.id = offer.categoryId → c.userId = user := by
  simp only [staysHome, Bool.not_eq_true', ← Bool.not_eq_true, Table.holds_iff]
  simp

/-- Whoever names a category of their own stays home. -/
theorem staysHome_of_isOwn {c : Command} {s : Session} (hs : s.store.Integrity)
    (h : c.isOwn s = true) : c.staysHome s = true := by
  cases c with
  | createFeed user offer =>
      rw [staysHome_createFeed_iff]
      intro g hg hid
      have hown : s.store.HasCategoryOf user g.id := hid ▸ Table.holds_iff.1 h
      exact HasCategoryOf.userId_eq hs hown hg
  | _ => rfl

/-- The command can add a category or a feed. -/
def founds : Command → Bool
  | createCategory _ _ _ | createFeed _ _ => true
  | _ => false

/-- All other commands leave feeds and categories to whom they belong. -/
theorem passesOn_next {c : Command} {s : Session} (hr : s.Ready) (hs : s.store.Integrity)
    (hc : c.founds = false) : s.store.PassesOn (c.next s).store := by
  rcases c.writes_next hr hs with heq | hw
  · rw [heq]
    exact .of_eq rfl rfl
  revert hw
  generalize (c.next s).store = t
  intro hw
  cases c with
  | createUser username =>
      obtain ⟨row, hadd⟩ := hw
      obtain ⟨-, -, rfl⟩ := of_addUser hadd
      exact .of_eq rfl rfl
  | removeUser user => exact hw ▸ (Work.removeUser user).passesOn_leaves s.store
  | hideCategory user category hide => exact hw ▸ .modifyCategories fun _ => ⟨rfl, rfl⟩
  | removeCategory user category =>
      exact hw ▸ .of_subset (fun _ hf => (Table.mem_rows_erase.1 hf).1)
        fun _ hc => (Table.mem_rows_erase.1 hc).1
  | hideFeed user feed hide => exact hw ▸ .modifyFeeds fun _ => ⟨rfl, rfl⟩
  | updateFetchState user feed state => exact hw ▸ .modifyFeeds fun _ => ⟨rfl, rfl⟩
  | recordFeedError user feed message nextCheckAt => exact hw ▸ .modifyFeeds fun _ => ⟨rfl, rfl⟩
  | resetFeedErrors user => exact hw ▸ .modifyFeeds fun _ => ⟨rfl, rfl⟩
  | removeFeed user feed =>
      exact hw ▸ .of_subset (fun _ hf => (Table.mem_rows_erase.1 hf).1) fun _ hc => hc
  | refreshFeed user feed cs update =>
      obtain ⟨front, created, -, hrun⟩ := hw
      have hspares := (Action.reconciles_reconcileAll hs hrun).spares
      exact .of_eq hspares.feeds hspares.categories
  | sweep feed hashes => exact hw ▸ (Work.sweep feed hashes).passesOn_leaves s.store
  | archive status days limit =>
      obtain ⟨cutoff, rfl⟩ := hw
      exact .of_eq rfl rfl
  | share user entry drawn =>
      obtain ⟨n, hset⟩ := hw
      obtain ⟨-, -, rfl⟩ := of_setShareCode hset
      exact .of_eq rfl rfl
  | unshare user entry =>
      obtain ⟨n, hset⟩ := hw
      obtain ⟨-, -, rfl⟩ := of_setShareCode hset
      exact .of_eq rfl rfl
  | runPending =>
      exact hw ▸ Session.runAll_of_leaves (s := { s with jobs := [] }) (fun _ => .of_eq rfl rfl)
        .trans Work.passesOn_leaves hr hs s.jobs
  | removeUserLater user => exact hw.elim
  | setClock now => exact hw.elim
  | createCategory user title hide => cases hc
  | createFeed user offer => cases hc
  | _ => exact hw ▸ .of_eq rfl rfl

/-- A command that stays home keeps feeds at home. -/
theorem atHome_next {c : Command} {s : Session} (hs : Reachable s) (h : s.store.AtHome)
    (hc : c.staysHome s = true) : (c.next s).store.AtHome := by
  cases hfounds : c.founds with
  | false =>
      exact h.passesOn hs.integrity (hs.step c).integrity
        (passesOn_next hs.ready hs.integrity hfounds)
  | true =>
      rcases c.writes_next hs.ready hs.integrity with heq | hw
      · rwa [heq]
      revert hw
      generalize (c.next s).store = t
      intro hw
      cases c with
      | createCategory user title hide =>
          obtain ⟨row, hadd⟩ := hw
          obtain ⟨-, -, -, rfl⟩ := of_addCategory hadd
          exact h.addCategory
      | createFeed user offer =>
          obtain ⟨row, hadd⟩ := hw
          refine h.addFeed hadd fun g hg hid => ?_
          exact staysHome_createFeed_iff.1 hc g hg (hid.trans (Action.categoryId_cleanOffer offer))
      | _ => cases hfounds

end Command

/-! ## Runs -/

/-- The session can come out of a new one by a run of commands in which nobody puts a feed into a
category of somebody else. -/
inductive ReachableAtHome : Session → Prop
  | fresh (now : Int) : ReachableAtHome { now }
  | step {s : Session} {c : Command} (home : c.staysHome s = true) :
      ReachableAtHome s → ReachableAtHome (c.next s)

/-- Nobody puts a feed into a category of somebody else in the commands, one after the other. -/
def Session.isHomeRun (s : Session) : List Command → Bool
  | [] => true
  | c :: cs => c.staysHome s && (c.next s).isHomeRun cs

namespace ReachableAtHome

variable {s : Session}

theorem run (h : ReachableAtHome s) {cs : List Command} (hcs : s.isHomeRun cs = true) :
    ReachableAtHome (s.run cs) := by
  induction cs generalizing s with
  | nil => exact h
  | cons c cs ih =>
      obtain ⟨hc, hrest⟩ := Bool.and_eq_true_iff.1 hcs
      exact ih (.step hc h) hrest

theorem reachable (h : ReachableAtHome s) : Reachable s := by
  induction h with
  | fresh now => exact .fresh now
  | step _ _ ih => exact .step _ ih

theorem atHome (h : ReachableAtHome s) : s.store.AtHome := by
  induction h with
  | fresh now =>
      intro f hf
      cases hf
  | @step s c home h ih => exact Command.atHome_next h.reachable ih home

end ReachableAtHome

theorem ReachableByOwners.reachableAtHome {s : Session} (h : ReachableByOwners s) :
    ReachableAtHome s := by
  induction h with
  | fresh now => exact .fresh now
  | @step s c own h ih =>
      exact .step (Command.staysHome_of_isOwn h.reachable.integrity own) ih

/-! ## What goes with a category -/

namespace Store

open Table

variable {s : Store} {user category : Id} {e : Entry} {f : Feed}

/-- A feed at home in a category of a user is that user's. -/
theorem AtHome.mem_categoryIds_iff (h : s.AtHome) (hs : s.Integrity) (hf : f ∈ s.feeds.rows) :
    f.categoryId ∈ s.categoryIds (ownCategory user category)
      ↔ f.userId = user ∧ f.categoryId = category := by
  rw [mem_categoryIds]
  constructor
  · rintro ⟨c, hc, hown, hid⟩
    obtain ⟨huser, hcategory⟩ := ownCategory_iff.1 hown
    have hhome : s.HasCategoryOf f.userId c.id := hid ▸ h f hf
    exact ⟨(HasCategoryOf.userId_eq hs hhome hc).symm.trans huser, hid ▸ hcategory⟩
  · rintro ⟨rfl, rfl⟩
    obtain ⟨c, hc, hown⟩ := h f hf
    exact ⟨c, hc, hown, (ownCategory_iff.1 hown).2⟩

/-- With a category of a user go the feeds that the user has in it and what lies in them, and
nothing else. -/
theorem AtHome.removeCategory_eq (h : s.AtHome) (hs : s.Integrity) (user category : Id) :
    (s.removeCategory user category).2
      = { s.eraseEntries (fun e => s.isFeedIn user category e.feedId) with
          feeds := s.feeds.erase fun f => f.userId == user && f.categoryId == category
          categories := s.categories.erase (ownCategory user category) } := by
  have hfeeds : ∀ f ∈ s.feeds.rows,
      (s.categoryIds (ownCategory user category)).contains f.categoryId
        = (f.userId == user && f.categoryId == category) := by
    intro f hf
    rw [Bool.eq_iff_iff, List.contains_iff_mem, h.mem_categoryIds_iff hs hf]
    simp
  have hentries : (fun e : Entry => (s.feedIds fun f =>
      (s.categoryIds (ownCategory user category)).contains f.categoryId).contains e.feedId)
        = fun e => s.isFeedIn user category e.feedId := by
    funext e
    rw [Bool.eq_iff_iff, List.contains_iff_mem, mem_feedIds, isFeedIn_iff]
    constructor
    · rintro ⟨f, hf, hgone, hid⟩
      rw [hfeeds f hf, Bool.and_eq_true_iff, beq_iff_eq, beq_iff_eq] at hgone
      exact ⟨f, hf, hid, hgone⟩
    · rintro ⟨f, hf, hid, huser, hcategory⟩
      refine ⟨f, hf, ?_, hid⟩
      rw [hfeeds f hf, Bool.and_eq_true_iff, beq_iff_eq, beq_iff_eq]
      exact ⟨huser, hcategory⟩
  show s.eraseCategories (ownCategory user category) = _
  unfold eraseCategories eraseFeeds
  dsimp only
  rw [hentries, erase_congr hfeeds]

/-- The user has no entry in a feed that the other one has in that category. -/
def StaysOut (s : Store) (user other category : Id) : Prop :=
  ∀ e ∈ s.entries.rows, e.userId = user → s.isFeedIn other category e.feedId = false

variable {other : Id}

/-- No feed with an entry of the user is among them. -/
theorem StaysOut.feed_elsewhere (h : s.StaysOut user other category) (he : e ∈ s.entries.rows)
    (huser : e.userId = user) (hf : f ∈ s.feeds.rows) (hid : f.id = e.feedId) :
    ¬ (f.userId = other ∧ f.categoryId = category) := by
  intro hlies
  have hout := h e he huser
  rw [← Bool.not_eq_true, isFeedIn_iff] at hout
  exact hout ⟨f, hf, hid, hlies⟩

/-- Entries in feeds of their user are in feeds of nobody else. -/
theorem Tenanted.staysOut (h : s.Tenanted) (hs : s.Integrity) (hne : user ≠ other)
    (category : Id) : s.StaysOut user other category := by
  intro e he huser
  rw [← Bool.not_eq_true, isFeedIn_iff]
  rintro ⟨f, hf, hid, howner, -⟩
  have hsame : f.userId = e.userId := HasFeedOf.userId_eq hs (hid ▸ h.entries e he) hf
  exact hne (huser.symm.trans (hsame.symm.trans howner))

theorem StaysOut.not_ownCategory (h : s.StaysOut user other category) (hhome : s.AtHome)
    (hs : s.Integrity) (he : e ∈ s.entries.rows) (huser : e.userId = user)
    (hf : s.feeds.find? (·.id == e.feedId) = some f) :
    ∀ c ∈ s.categories.rows, (c.id == f.categoryId) = true →
      ownCategory other category c = false := by
  intro c hc hid
  have hmem : f ∈ s.feeds.rows := List.mem_of_find?_eq_some hf
  have hfid : f.id = e.feedId := by simpa using List.find?_some hf
  rw [← Bool.not_eq_true]
  intro hown
  refine h.feed_elsewhere he huser hmem hfid ((hhome.mem_categoryIds_iff hs hmem).1 ?_)
  exact mem_categoryIds.2 ⟨c, hc, hown, eq_of_beq hid⟩

theorem StaysOut.looksAlike_hideCategory (h : s.StaysOut user other category) (hhome : s.AtHome)
    (hs : s.Integrity) (hide : Bool) :
    s.LooksAlike user (s.hideCategory other category hide).2 where
  entries := rfl
  feeds _ _ _ := rfl
  categories _ he huser _ hf :=
    find?_modify_of_not (h.not_ownCategory hhome hs he huser hf) fun _ => rfl
  attached _ _ _ := rfl

theorem StaysOut.looksAlike_removeCategory (h : s.StaysOut user other category)
    (hhome : s.AtHome) (hs : s.Integrity) :
    s.LooksAlike user (s.removeCategory other category).2 := by
  rw [hhome.removeCategory_eq hs]
  refine ⟨?_, fun e he huser => ?_, fun e he huser f hf => ?_, fun e he huser => ?_⟩
  · show (s.entries.rows.filter _).filter _ = _
    rw [List.filter_filter]
    refine List.filter_congr fun e he => ?_
    rw [Bool.and_eq_left_iff_imp]
    intro huser
    simp [h e he (eq_of_beq huser)]
  · refine find?_erase_of_not fun f hf hid => ?_
    have hstays := h.feed_elsewhere he huser hf (eq_of_beq hid)
    simpa using hstays
  · exact find?_erase_of_not (h.not_ownCategory hhome hs he huser hf)
  · show (s.enclosures.rows.filter _).filter _ = s.enclosures.rows.filter _
    rw [List.filter_filter]
    refine List.filter_congr fun x hx => ?_
    rw [Bool.and_eq_left_iff_imp, Bool.not_eq_true', ← Bool.not_eq_true, List.contains_iff_mem,
      mem_entryIds]
    rintro hxe ⟨e', he', hgone, hid⟩
    obtain rfl := hs.entries.distinct.eq_of_eq he' he (hid.trans (eq_of_beq hxe))
    rw [h e' he huser] at hgone
    cases hgone

end Store

namespace Command

variable {s : Session}

theorem hideCategory_next (hr : s.Ready) (user category : Id) (hide : Bool) :
    (hideCategory user category hide).next s
      = { s with store := (s.store.hideCategory user category hide).2 } :=
  congrArg Prod.snd (Action.perform_change_orNothing_of_ready hr)

theorem removeCategory_next (hr : s.Ready) (user category : Id) :
    (removeCategory user category).next s
      = { s with store := (s.store.removeCategory user category).2 } :=
  congrArg Prod.snd (Action.perform_change_orNothing_of_ready hr)

end Command

section

open Command

variable {s : Session} {user other category : Id}

/-- Whoever has no entry in what another user has in a category is answered as before when that
category has been hidden, shown or removed. -/
theorem ReachableAtHome.answersAlike (h : ReachableAtHome s)
    (hout : s.store.StaysOut user other category) :
    (∀ hide, s.AnswersAlike user ((hideCategory other category hide).next s))
      ∧ s.AnswersAlike user ((removeCategory other category).next s) := by
  have hs := h.reachable
  constructor
  · intro hide
    refine Store.LooksAlike.answersAlike ?_ hs (hs.step (hideCategory other category hide))
    rw [hideCategory_next hs.ready]
    exact hout.looksAlike_hideCategory h.atHome hs.integrity hide
  · refine Store.LooksAlike.answersAlike ?_ hs (hs.step (removeCategory other category))
    rw [removeCategory_next hs.ready]
    exact hout.looksAlike_removeCategory h.atHome hs.integrity

/-- Among users who keep to what is theirs nobody notices what others do with their categories. -/
theorem ReachableByOwners.answersAlike (h : ReachableByOwners s) (hne : user ≠ other)
    (category : Id) :
    (∀ hide, s.AnswersAlike user ((hideCategory other category hide).next s))
      ∧ s.AnswersAlike user ((removeCategory other category).next s) :=
  h.reachableAtHome.answersAlike (h.tenanted.staysOut h.reachable.integrity hne category)

end

end FeedStore
