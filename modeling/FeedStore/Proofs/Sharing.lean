import FeedStore.Proofs.Denotation
import FeedStore.Proofs.EntryChanges
import Mathlib.Data.List.Pairwise

/-!
# Share codes over runs

Of all the changes to an entry only two concern its share code, and both are made by its user:
an entry without a code gets one when it is shared, and it loses the code when the sharing is
ended (`Command.Edits.shareCode`). So an entry that carries a code carries it until its user
ends that or the entry is gone (`Session.shareCode?_run`). As no two entries carry the same
code, whoever asks for it gets that entry and no other one (`Session.sharesAs_of_shareCode?`). A
code that nobody carries is found nowhere until it is drawn (`Session.lacksCode_run`).
-/

namespace FeedStore

/-! ## Carrying a code -/

/-- Of the changes to an entry, two concern its share code, and both are its user's. -/
theorem Command.Edits.shareCode {c : Command} {s : Session} {e e' : Entry} (h : c.Edits s e e') :
    e'.shareCode = e.shareCode
      ∨ (c = .share e.userId e.id e'.shareCode ∧ e.shareCode = "")
      ∨ (c = .unshare e.userId e.id ∧ e'.shareCode = "") := by
  cases h with
  | @refresh user feed cs front update h hfront =>
      exact Or.inl (Entry.persists_foldl_seen feed update s.now e front).shareCode
  | share h hcode => exact Or.inr (Or.inl ⟨h, hcode⟩)
  | unshare h => exact Or.inr (Or.inr ⟨h, rfl⟩)
  | _ => exact Or.inl rfl

/-- A new entry is not shared. -/
theorem Command.Adds.shareCode {c : Command} {s : Session} {e' : Entry} (h : c.Adds s e') :
    e'.shareCode = "" := by
  cases c with
  | refreshFeed user feed cs update =>
      obtain ⟨-, front, -, d, -, he'⟩ := h
      rw [he']
      exact (Entry.persists_foldl_seen feed update s.now _ front).shareCode
  | _ => exact h.elim

namespace Store

variable {s : Store} {user entry : Id} {code : String}

/-- No two entries carry the same code. -/
theorem Integrity.eq_of_shareCode (hs : s.Integrity) {a b : Entry} (ha : a ∈ s.entries.rows)
    (hb : b ∈ s.entries.rows) (hne : a.shareCode ≠ "") (hcode : a.shareCode = b.shareCode) :
    a = b := by
  have : Std.Symm fun a b : Entry => a.shareCode ≠ "" → a.shareCode ≠ b.shareCode :=
    ⟨fun _ _ hab hb heq => hab (heq ▸ hb) heq.symm⟩
  by_contra hab
  exact hs.shareCodes.forall ha hb hab hne hcode

/-- No entry carries the code. -/
def LacksCode (s : Store) (code : String) : Prop := ∀ e ∈ s.entries.rows, e.shareCode ≠ code

/-- A code that no other entry carries is given to the entry. -/
theorem setShareCode_eq_ok
    (hfree : ∀ e ∈ s.entries.rows, e.isOwn user entry = false → e.shareCode ≠ code) :
    s.setShareCode user entry code
      = .ok (s.modifyEntries (Entry.isOwn user entry) fun e => { e with shareCode := code }) := by
  have hnone : (s.entries.holds fun e => !e.isOwn user entry && e.shareCode == code) = false := by
    rw [Bool.eq_false_iff, Ne, Table.holds_iff]
    rintro ⟨e, he, htaken⟩
    obtain ⟨hother, hcode⟩ := Bool.and_eq_true_iff.1 htaken
    exact hfree e he (Bool.not_eq_true' _ ▸ hother) (beq_iff_eq.1 hcode)
  unfold setShareCode
  rw [hnone, Bool.and_false]
  rfl

theorem count_isOwn_eq_zero_iff :
    s.entries.count (Entry.isOwn user entry) = 0 ↔ ¬ s.HasEntryOf user entry := by
  unfold HasEntryOf
  rw [Table.count_eq_zero_iff fun _ => Iff.rfl, not_exists]
  exact forall_congr' fun e => not_and.symm

end Store

/-! ## Asking for a code -/

/-- The query of a user for what is shared under a code. -/
def Query.sharedAs (user : Id) (code : String) : Query := ({ user } : Query).withShareCode code

theorem Query.withinLimits_sharedAs (user : Id) (code : String) :
    (sharedAs user code).WithinLimits := by
  have hcs : (sharedAs user code).conditions = [.shareCode code] := rfl
  exact ⟨conditionsFit_of_isPlain hcs rfl (by simp), Nat.zero_le _⟩

/-- What exactly one entry meets is listed as that entry. -/
theorem Query.Denotes.eq_singleton {user : Id} {as : List Addition} {s : Store} {ls : List Listed}
    (h : Denotes user as s ls) (hs : s.Integrity) {e : Entry}
    (honly : ∀ a, (a ∈ s.entries.rows ∧ a.userId = user ∧ ∀ x ∈ as, x.Admits s a) ↔ a = e) :
    ∃ l, l.entry = e ∧ ls = [l] := by
  obtain ⟨l, hl, hentry⟩ := (h.mem_iff e).2 ((honly e).2 rfl)
  refine ⟨l, hentry, ?_⟩
  have hmem : ∀ m, m ∈ ls ↔ m ∈ [l] := by
    intro m
    rw [List.mem_singleton]
    constructor
    · intro hm
      have hsame : m.entry = e := (honly m.entry).1 ((h.mem_iff m.entry).1 ⟨m, hm, rfl⟩)
      exact (h.joins m hm).eq_of_entry_eq hs (h.joins l hl) (hsame.trans hentry.symm)
    · rintro rfl
      exact hl
  have hperm := (List.perm_ext_iff_of_nodup (List.Nodup.of_map _ h.once) (List.nodup_singleton l)).2
    hmem
  exact List.perm_singleton.1 hperm

namespace Session

/-- Asked for the code, the session answers with the entry and nothing else. -/
structure FindsOnly (user : Id) (code : String) (entry : Id) (s : Session) : Prop where
  count : (Action.countEntries (.sharedAs user code)).perform s = (.ok 1, s)
  ids : (Action.entryIds (.sharedAs user code)).perform s = (.ok [entry], s)
  view : ∃ l v, s.store.Joins l ∧ l.entry ∈ s.store.entries.rows ∧ l.entry.id = entry
    ∧ l.ShownAs s.store v
    ∧ (Action.entries (.sharedAs user code)).perform s = (.ok [v], s)
    ∧ (Action.firstEntry (.sharedAs user code)).perform s = (.ok (some v), s)

/-- Asked for the code, the session answers that there is nothing. -/
structure FindsNothing (user : Id) (code : String) (s : Session) : Prop where
  count : (Action.countEntries (.sharedAs user code)).perform s = (.ok 0, s)
  ids : (Action.entryIds (.sharedAs user code)).perform s = (.ok [], s)
  entries : (Action.entries (.sharedAs user code)).perform s = (.ok [], s)
  first : (Action.firstEntry (.sharedAs user code)).perform s = (.ok none, s)

variable {s : Session} {user entry : Id} {code : String}

theorem findsOnly_of_shareCode (hs : Reachable s) {e : Entry} (he : e ∈ s.store.entries.rows)
    (hne : e.shareCode ≠ "") : s.FindsOnly e.userId e.shareCode e.id := by
  have hanswers : Query.Answers e.userId [.shareCode e.shareCode] s _ :=
    Query.answers_sorted hs (Query.withinLimits_sharedAs e.userId e.shareCode)
  have hdenotes := Query.denotes_sorted hs.integrity e.userId [.shareCode e.shareCode]
  obtain ⟨l, rfl, hlisting⟩ := hdenotes.eq_singleton hs.integrity (e := e) fun a => by
    simp only [List.mem_singleton, forall_eq, Addition.Admits]
    constructor
    · rintro ⟨ha, -, hcode⟩
      exact (hs.integrity.eq_of_shareCode he ha hne hcode.symm).symm
    · rintro rfl
      exact ⟨he, rfl, rfl⟩
  have hjoins : s.store.Joins l := hdenotes.joins l (hlisting ▸ List.mem_singleton_self l)
  rw [hlisting] at hanswers
  obtain ⟨vs, hvs, hshown, -⟩ := hanswers.entries
  obtain ⟨w, hw, hfirst⟩ := hanswers.first
  -- the first entry is the one of the listing, and it is shown in one way only
  obtain ⟨v, rest, hlv, hrest, rfl⟩ := List.forall₂_cons_left_iff.1 hshown
  obtain rfl := List.forall₂_nil_left_iff.1 hrest
  have hsame : w = some v := by
    cases hfirst with
    | some hlw => rw [hlv.unique hlw]
  rw [hsame] at hw
  exact ⟨hanswers.count, hanswers.ids, l, v, hjoins, he, rfl, hlv, hvs, hw⟩

/-- What nobody carries is not found. -/
theorem findsNothing_of_lacksCode (hs : Reachable s) (h : s.store.LacksCode code) (user : Id) :
    s.FindsNothing user code := by
  have hanswers : Query.Answers user [.shareCode code] s _ :=
    Query.answers_sorted hs (Query.withinLimits_sharedAs user code)
  have hdenotes := Query.denotes_sorted hs.integrity user [.shareCode code]
  have hlisting : (Query.built user [.shareCode code]).sorted s.store = [] := by
    refine List.eq_nil_iff_forall_not_mem.2 fun l hl => ?_
    obtain ⟨he, -, hadmits⟩ := (hdenotes.mem_iff l.entry).1 ⟨l, hl, rfl⟩
    exact h l.entry he (hadmits _ (List.mem_singleton_self _))
  rw [hlisting] at hanswers
  obtain ⟨vs, hvs, hshown, -⟩ := hanswers.entries
  obtain ⟨v, hv, hfirst⟩ := hanswers.first
  obtain rfl := List.forall₂_nil_left_iff.1 hshown
  have hnone : v = none := by
    cases hfirst with
    | none => rfl
  rw [hnone] at hv
  exact ⟨hanswers.count, hanswers.ids, hvs, hv⟩

/-- The user shares the entry under the code: sharing it again gives the code and changes nothing,
asking for the code gives the entry, and no other entry carries it. -/
structure SharesAs (user entry : Id) (code : String) (s : Session) : Prop where
  again : ∀ drawn, (Action.share user entry drawn).perform s = (.ok (some code), s)
  found : s.FindsOnly user code entry
  alone : ∀ e ∈ s.store.entries.rows, e.shareCode = code → e.id = entry

theorem sharesAs_of_shareCode? (hs : Reachable s) (hne : code ≠ "")
    (h : s.store.shareCode? user entry = some code) : s.SharesAs user entry code := by
  obtain ⟨e, he, huser, hid, hcode⟩ := (Store.shareCode?_eq_some_iff hs.integrity).1 h
  refine ⟨fun drawn => ?_, ?_, fun a ha hacode => ?_⟩
  · rw [Action.perform_share hs.ready, h]
    exact if_pos hne
  · subst huser hid hcode
    exact findsOnly_of_shareCode hs he hne
  · have hsame : e = a :=
      hs.integrity.eq_of_shareCode he ha (hcode ▸ hne) (hcode.trans hacode.symm)
    rw [← hsame, hid]

end Session

/-! ## Sharing and ending it -/

namespace Action

open Store

variable {s t : Session} {user entry : Id} {drawn code : String}

/-- A code that sharing gives is carried by the entry from then on. -/
theorem shareCode?_of_perform_share (hs : Reachable s) (hdrawn : drawn ≠ "")
    (h : (share user entry drawn).perform s = (.ok (some code), t)) :
    Reachable t ∧ code ≠ "" ∧ t.store.shareCode? user entry = some code := by
  have ht : Reachable t := by
    rw [show t = (Command.share user entry drawn).next s from (congrArg Prod.snd h).symm]
    exact hs.step _
  refine ⟨ht, ?_⟩
  rw [perform_share hs.ready] at h
  cases hcode : s.store.shareCode? user entry with
  | none =>
      rw [hcode] at h
      cases h
  | some stored =>
      rw [hcode] at h
      dsimp only at h
      split at h
      · rename_i hne
        cases h
        exact ⟨hne, hcode⟩
      · cases hset : s.store.setShareCode user entry drawn with
        | error fault =>
            rw [hset] at h
            cases h
        | ok r =>
            rw [hset] at h
            cases h
            obtain ⟨n, store⟩ := r
            obtain ⟨-, -, rfl⟩ := of_setShareCode hset
            refine ⟨hdrawn, (shareCode?_eq_some_iff ht.integrity).2 ?_⟩
            obtain ⟨e, he, huser, hid, -⟩ := (shareCode?_eq_some_iff hs.integrity).1 hcode
            have hown : e.isOwn user entry = true := Entry.isOwn_iff.2 ⟨huser, hid⟩
            have hmem := Table.mem_rows_modify (f := fun e => { e with shareCode := drawn }).2
              ⟨e, he, (if_pos hown).symm⟩
            exact ⟨_, hmem, huser, hid, rfl⟩

/-- The user gets a code for an entry of the user, if the one that is drawn is not taken. -/
theorem exists_perform_share (hr : s.Ready) (hown : s.store.HasEntryOf user entry)
    (hfresh : s.store.LacksCode drawn) :
    ∃ code t, (share user entry drawn).perform s = (.ok (some code), t) := by
  rw [perform_share hr]
  cases hcode : s.store.shareCode? user entry with
  | none => exact absurd hown (shareCode?_eq_none_iff.1 hcode)
  | some code =>
      dsimp only
      split
      · exact ⟨code, s, rfl⟩
      · rw [setShareCode_eq_ok fun e he _ => hfresh e he]
        exact ⟨drawn, _, rfl⟩

/-- Somebody else's entry, or one that is not there, is neither shared nor unshared. -/
theorem perform_share_of_not_hasEntryOf (hr : s.Ready) (h : ¬ s.store.HasEntryOf user entry)
    (drawn : String) : (share user entry drawn).perform s = (.ok none, s) := by
  rw [perform_share hr, shareCode?_eq_none_iff.2 h]

theorem perform_unshare_of_not_hasEntryOf (hr : s.Ready) (h : ¬ s.store.HasEntryOf user entry) :
    (unshare user entry).perform s = (.error .nothingUpdated, s) := by
  have hzero := count_isOwn_eq_zero_iff.2 h
  rw [perform_unshare hr, if_pos hzero]
  unfold modifyEntries
  rw [Table.modify_of_count_eq_zero _ hzero]

theorem perform_unshare_of_hasEntryOf (hr : s.Ready) (h : s.store.HasEntryOf user entry) :
    (unshare user entry).perform s = (.ok (), (Command.unshare user entry).next s) := by
  have hsome : ¬ s.store.entries.count (Entry.isOwn user entry) = 0 := fun hzero =>
    count_isOwn_eq_zero_iff.1 hzero h
  have hanswer : ((unshare user entry).perform s).1 = .ok () := by
    rw [perform_unshare hr, if_neg hsome]
  rw [← hanswer]
  rfl

/-- When sharing has ended, nobody carries the code. -/
theorem lacksCode_unshare (hs : Reachable s) (hne : code ≠ "")
    (h : s.store.shareCode? user entry = some code) :
    ((Command.unshare user entry).next s).store.LacksCode code := by
  obtain ⟨e, he, huser, hid, rfl⟩ := (shareCode?_eq_some_iff hs.integrity).1 h
  show ((unshare user entry).perform s).2.store.LacksCode e.shareCode
  rw [perform_unshare hs.ready]
  intro a' ha'
  obtain ⟨a, ha, rfl⟩ := Table.mem_rows_modify.1 ha'
  split
  · exact hne.symm
  · rename_i hnot
    intro hcode
    obtain rfl := hs.integrity.eq_of_shareCode he ha hne hcode.symm
    exact hnot (Entry.isOwn_iff.2 ⟨huser, hid⟩)

end Action

/-! ## Runs -/

namespace Command

/-- The user ends the sharing of the entry. -/
def Unshares (user entry : Id) (c : Command) (s : Session) : Prop :=
  c = .unshare user entry ∧ ((Action.unshare user entry).perform s).1 = .ok ()

/-- The code is drawn, for an entry that has none. -/
def Draws (code : String) (c : Command) (s : Session) : Prop :=
  ∃ user entry, c = .share user entry code ∧ s.store.shareCode? user entry = some ""

variable {s : Session} {code : String}

/-- A command that does not draw the code does not give it to anybody. -/
theorem lacksCode_next (hs : Reachable s) (hne : code ≠ "") (h : s.store.LacksCode code)
    {c : Command} (hc : ¬ c.Draws code s) : (c.next s).store.LacksCode code := by
  intro e' he' hcode
  rcases c.origin_next hs he' with ⟨e, he, rfl | hedit⟩ | hadds
  · exact h e' he hcode
  · rcases hedit.shareCode with hsame | ⟨hshare, hnone⟩ | ⟨-, hnone⟩
    · exact h e he (hsame ▸ hcode)
    · refine hc ⟨e.userId, e.id, hcode ▸ hshare, ?_⟩
      exact (Store.shareCode?_eq_some_iff hs.integrity).2 ⟨e, he, rfl, rfl, hnone⟩
    · exact hne (hcode.symm.trans hnone)
  · exact hne (hcode.symm.trans hadds.shareCode)

end Command

namespace Session

variable {s : Session} {user entry : Id} {code : String} {cs : List Command}

/-- An entry that is still there carries its code as long as its user has not unshared it. -/
theorem shareCode?_run (hs : Reachable s) (hne : code ≠ "")
    (h : s.store.shareCode? user entry = some code)
    (hcs : s.RunsWithout (Command.Unshares user entry) cs)
    (hthere : (s.run cs).store.hasEntry entry = true) :
    (s.run cs).store.shareCode? user entry = some code := by
  obtain ⟨e, he, huser, hid, hcode⟩ := (Store.shareCode?_eq_some_iff hs.integrity).1 h
  obtain ⟨e', he', hid'⟩ := Table.holds_id_iff.1 hthere
  rw [Store.shareCode?_eq_some_iff (hs.run cs).integrity]
  by_contra hlost
  have hchanged : ¬ (e'.userId = user ∧ e'.shareCode = code) := fun ⟨huser', hcode'⟩ =>
    hlost ⟨e', he', huser', hid', hcode'⟩
  obtain ⟨front, c, back, rfl, a, ha, haid, ⟨hauser, hacode⟩, a', ha', haid', hother⟩ :=
    exists_change (Q := fun a => a.userId = user ∧ a.shareCode = code) hs he he'
      (hid'.trans hid.symm) ⟨huser, hcode⟩ hchanged
  have hfront := hs.run front
  rcases c.edits_next hfront ha ha' haid' with rfl | hedit
  · exact hother ⟨hauser, hacode⟩
  · have hauser' : a'.userId = user := hedit.endures.userId.trans hauser
    rcases hedit.shareCode with hsame | ⟨-, hnone⟩ | ⟨hunshare, -⟩
    · exact hother ⟨hauser', hsame.trans hacode⟩
    · exact hne (hacode.symm.trans hnone)
    · -- unsharing an entry that the user has succeeds
      subst hauser
      obtain rfl : a.id = entry := haid.trans hid
      have hown : (s.run front).store.HasEntryOf a.userId a.id :=
        ⟨a, ha, Entry.isOwn_iff.2 ⟨rfl, rfl⟩⟩
      refine hcs front c back rfl ⟨hunshare, ?_⟩
      rw [Action.perform_unshare_of_hasEntryOf hfront.ready hown]

/-- A code that nobody carries stays so until it is drawn. -/
theorem lacksCode_run (hs : Reachable s) (hne : code ≠ "") (h : s.store.LacksCode code)
    (hcs : s.RunsWithout (Command.Draws code) cs) : (s.run cs).store.LacksCode code := by
  induction cs generalizing s with
  | nil => exact h
  | cons c cs ih =>
      exact ih (hs.step c) (Command.lacksCode_next hs hne h hcs.head) hcs.tail

end Session

/-- An entry of the user gets a share code when the one that is drawn is not taken. Once sharing
has given a code, it belongs to the entry whatever is done in between, until its user unshares the
entry or the entry is gone, and after that the code is found nowhere until it is drawn again. What
the user does not have is neither shared nor unshared. That codes which are drawn meanwhile are not
taken need not be asked for, since the tables admit a code once. -/
theorem Reachable.shares_until_unshared {s : Session} (hs : Reachable s) (user entry : Id) :
    (s.store.HasEntryOf user entry → ∀ drawn, s.store.LacksCode drawn →
        ∃ code t, (Action.share user entry drawn).perform s = (.ok (some code), t))
      ∧ (∀ drawn code t, drawn ≠ "" →
          (Action.share user entry drawn).perform s = (.ok (some code), t) →
          ∀ cs, t.RunsWithout (Command.Unshares user entry) cs →
            (t.run cs).store.hasEntry entry = true →
              (t.run cs).SharesAs user entry code
                ∧ ∃ u, (Action.unshare user entry).perform (t.run cs) = (.ok (), u)
                  ∧ ∀ cs', u.RunsWithout (Command.Draws code) cs' →
                    ∀ other, (u.run cs').FindsNothing other code)
      ∧ (¬ s.store.HasEntryOf user entry →
          (∀ drawn, (Action.share user entry drawn).perform s = (.ok none, s))
            ∧ (Action.unshare user entry).perform s = (.error .nothingUpdated, s)) := by
  refine ⟨fun hown drawn hfresh => Action.exists_perform_share hs.ready hown hfresh,
    fun drawn code t hdrawn hshare cs hcs hthere => ?_, fun hnot => ⟨fun drawn => ?_, ?_⟩⟩
  · obtain ⟨ht, hne, hcode⟩ := Action.shareCode?_of_perform_share hs hdrawn hshare
    have hend := ht.run cs
    have hcarried := Session.shareCode?_run ht hne hcode hcs hthere
    obtain ⟨e, he, huser, hid, -⟩ := (Store.shareCode?_eq_some_iff hend.integrity).1 hcarried
    have hown : (t.run cs).store.HasEntryOf user entry := ⟨e, he, Entry.isOwn_iff.2 ⟨huser, hid⟩⟩
    refine ⟨Session.sharesAs_of_shareCode? hend hne hcarried, _,
      Action.perform_unshare_of_hasEntryOf hend.ready hown, fun cs' hcs' other => ?_⟩
    have hafter := hend.step (.unshare user entry)
    have hlacks := Action.lacksCode_unshare hend hne hcarried
    exact Session.findsNothing_of_lacksCode (hafter.run cs')
      (Session.lacksCode_run hafter hne hlacks hcs') other
  · exact Action.perform_share_of_not_hasEntryOf hs.ready hnot drawn
  · exact Action.perform_unshare_of_not_hasEntryOf hs.ready hnot

/-- A shared entry that is read, starred, shown again and asked for by others, and the refusal to
give its code to another entry. -/
theorem Reachable.shares_until_unshared_shown_again :
    ∃ s t u, Reachable s ∧ (Action.share 1 1 "k").perform s = (.ok (some "k"), t)
      ∧ (t.run [.setStar 1 [1] true, .markAll 1, .flushHistory 1, .share 1 2 "k", .unshare 2 1,
          .refreshFeed 1 1 [.bare "a" 3] true]).SharesAs 1 1 "k"
      ∧ (Action.unshare 1 1).perform (t.run [.setStar 1 [1] true, .markAll 1, .flushHistory 1,
          .share 1 2 "k", .unshare 2 1, .refreshFeed 1 1 [.bare "a" 3] true]) = (.ok (), u)
      ∧ (u.run [.share 1 1 "l"]).FindsNothing 1 "k"
      ∧ (Action.share 2 1 "m").perform s = (.ok none, s) := by
  let s := Session.subscribed.run [.refreshFeed 1 1 [.bare "a" 1, .bare "b" 2] false]
  have hs : Reachable s := Reachable.subscribed.run _
  let t := ((Action.share 1 1 "k").perform s).2
  have hanswer : ((Action.share 1 1 "k").perform s).1 = .ok (some "k") := by decide +kernel
  have hshare : (Action.share 1 1 "k").perform s = (.ok (some "k"), t) := Prod.ext hanswer rfl
  obtain ⟨-, hshared, -⟩ := hs.shares_until_unshared 1 1
  obtain ⟨-, -, hforeign⟩ := hs.shares_until_unshared 2 1
  obtain ⟨hkeeps, u, hunshare, hafter⟩ := hshared "k" "k" t (by decide) hshare
    [.setStar 1 [1] true, .markAll 1, .flushHistory 1, .share 1 2 "k", .unshare 2 1,
      .refreshFeed 1 1 [.bare "a" 3] true]
    (Session.runsWithout_of_forall (by simp [Command.Unshares])) (by decide +kernel)
  refine ⟨s, t, u, hs, hshare, hkeeps, hunshare, ?_, ?_⟩
  · exact hafter _ (Session.runsWithout_of_forall (by simp [Command.Draws])) 1
  · refine (hforeign ?_).1 "m"
    unfold Store.HasEntryOf
    decide +kernel

end FeedStore
