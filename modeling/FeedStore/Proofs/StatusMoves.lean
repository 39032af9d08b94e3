import FeedStore.Proofs.EntryChanges

/-!
# How the status of an entry moves

An entry changes its status only when its reader sets it, when its reader marks it as read, or
when it is cleared away while nothing protects it (`Command.Moves`). This is read off from what
commands do to entries (`Command.Edits.treats`). Over a run it follows from the step at which the
status changes (`Session.exists_change`): an entry that has been removed comes back only when
its reader says so, and one with a star or a share code goes only when its reader says so.
-/

namespace FeedStore

/-! ## What commands do to a status -/

namespace Command

/-- Flushing clears away what its reader has read, archiving what has the given status. -/
def Clears (c : Command) (e : Entry) : Prop :=
  match c with
  | flushHistory user => e.userId = user ∧ e.status = .known .read
  | archive status _ _ => e.status = .known status
  | _ => False

/-- The command may move the entry to the status. -/
inductive Moves (c : Command) (s : Store) (e : Entry) : Status → Prop
  | set {status : Status} (h : c.Sets e status) : Moves c s e status
  | mark (h : c.Marks s e) (hunread : e.status = .known .unread) : Moves c s e .read
  | clear (h : c.Clears e) (hstar : e.starred = false) (hcode : e.shareCode = "") :
      Moves c s e .removed

/-- An entry keeps its status or moves to another one as the command may move it. -/
def Treats (c : Command) (s : Store) (e e' : Entry) : Prop :=
  e'.status = e.status ∨ ∃ status, e'.status = .known status ∧ c.Moves s e status

theorem treats_self (c : Command) (s : Store) (e : Entry) : c.Treats s e e := Or.inl rfl

/-- Of the changes that a command makes to an entry, four move its status. -/
theorem Edits.treats {c : Command} {s : Session} {e e' : Entry} (h : c.Edits s e e') :
    c.Treats s.store e e' := by
  cases h with
  | @status status h => exact Or.inr ⟨status, rfl, .set h⟩
  | mark h hunread => exact Or.inr ⟨.read, rfl, .mark h hunread⟩
  | flush h hread hstar hcode =>
      subst h
      exact Or.inr ⟨.removed, rfl, .clear ⟨rfl, hread⟩ hstar hcode⟩
  | archive h hstatus hstar hcode =>
      subst h
      exact Or.inr ⟨.removed, rfl, .clear hstatus hstar hcode⟩
  | @refresh user feed cs front update h hfront =>
      exact Or.inl (Entry.persists_foldl_seen feed update s.now e front).status
  | _ => exact Or.inl rfl

/-- Whatever the command is, an entry that is there before and after it keeps its status or
moves as the command may move it. -/
theorem treats_next (c : Command) {s : Session} (hs : Reachable s) {e e' : Entry}
    (he : e ∈ s.store.entries.rows) (he' : e' ∈ (c.next s).store.entries.rows)
    (hid : e'.id = e.id) : c.Treats s.store e e' := by
  rcases c.edits_next hs he he' hid with rfl | hedit
  · exact c.treats_self _ _
  · exact hedit.treats

end Command

/-- At every command the status of an entry changes only as that command may move it. So over a
run a removed entry gets another status only by a command with which its reader sets it, and
an entry becomes removed only by such a command or by one that clears it away when it has
neither star nor share code. -/
theorem Reachable.moves {s : Session} (hs : Reachable s) :
    (∀ c : Command, ∀ e ∈ s.store.entries.rows, ∀ e' ∈ (c.next s).store.entries.rows,
        e'.id = e.id → e'.status ≠ e.status →
          ∃ status, e'.status = .known status ∧ c.Moves s.store e status)
      ∧ ∀ cs, ∀ e ∈ s.store.entries.rows, ∀ e' ∈ (s.run cs).store.entries.rows, e'.id = e.id →
        (e.status = .known .removed → e'.status ≠ .known .removed →
          ∃ front c back, cs = front ++ c :: back
            ∧ ∃ a ∈ (s.run front).store.entries.rows, a.id = e.id ∧ a.status = .known .removed
              ∧ ∃ status, status ≠ .removed ∧ c.Sets a status)
        ∧ (e.status ≠ .known .removed → e'.status = .known .removed →
          ∃ front c back, cs = front ++ c :: back
            ∧ ∃ a ∈ (s.run front).store.entries.rows, a.id = e.id ∧ a.status ≠ .known .removed
              ∧ (c.Sets a .removed ∨ c.Clears a ∧ a.starred = false ∧ a.shareCode = "")) := by
  refine ⟨fun c e he e' he' hid hne => ?_, fun cs e he e' he' hid => ⟨fun hgone hback => ?_,
    fun hthere hgone => ?_⟩⟩
  · exact (c.treats_next hs he he' hid).resolve_left hne
  · obtain ⟨front, c, back, hcs, a, ha, haid, hremoved, a', ha', haid', hother⟩ :=
      Session.exists_change (Q := fun a => a.status = .known .removed) hs he he' hid hgone hback
    refine ⟨front, c, back, hcs, a, ha, haid, hremoved, ?_⟩
    rcases c.treats_next (hs.run front) ha ha' haid' with hsame | ⟨status, hstatus, hmoves⟩
    · exact absurd (hsame.trans hremoved) hother
    · cases hmoves with
      | set hsets =>
          refine ⟨status, ?_, hsets⟩
          rintro rfl
          exact hother hstatus
      | mark _ hunread =>
          rw [hremoved] at hunread
          cases hunread
      | clear => exact absurd hstatus hother
  · obtain ⟨front, c, back, hcs, a, ha, haid, hnot, a', ha', haid', hremoved⟩ :=
      Session.exists_change (Q := fun a => a.status ≠ .known .removed) hs he he' hid hthere
        (not_not_intro hgone)
    have hremoved : a'.status = .known .removed := not_not.1 hremoved
    refine ⟨front, c, back, hcs, a, ha, haid, hnot, ?_⟩
    rcases c.treats_next (hs.run front) ha ha' haid' with hsame | ⟨status, hstatus, hmoves⟩
    · exact absurd (hsame.symm.trans hremoved) hnot
    · obtain rfl : status = .removed := by
        rw [hremoved] at hstatus
        cases hstatus
        rfl
      cases hmoves with
      | set hsets => exact Or.inl hsets
      | clear hclears hstar hcode => exact Or.inr ⟨hclears, hstar, hcode⟩

/-- An entry that is marked as read and then flushed. -/
theorem Reachable.moves_read_and_flushed :
    ∃ s e e', Reachable s ∧ e ∈ s.store.entries.rows
      ∧ e' ∈ (s.run [.markAll 1, .flushHistory 1]).store.entries.rows
      ∧ e.status = .known .unread ∧ e'.status = .known .removed
      ∧ ∃ front c back, [.markAll 1, .flushHistory 1] = front ++ c :: back
        ∧ ∃ a ∈ (s.run front).store.entries.rows, a.id = e.id ∧ a.status ≠ .known .removed
          ∧ (c.Sets a .removed ∨ c.Clears a ∧ a.starred = false ∧ a.shareCode = "") := by
  let s := Session.subscribed.run [.refreshFeed 1 1 [.bare "a" 1] false]
  have hs : Reachable s := Reachable.subscribed.run _
  obtain ⟨e, he, hid, hunread⟩ :
      ∃ e ∈ s.store.entries.rows, e.id = 1 ∧ e.status = .known .unread :=
    ⟨_, List.mem_cons_self, rfl, rfl⟩
  obtain ⟨e', he', hid', hremoved⟩ :
      ∃ e' ∈ (s.run [.markAll 1, .flushHistory 1]).store.entries.rows,
        e'.id = 1 ∧ e'.status = .known .removed :=
    ⟨_, List.mem_cons_self, rfl, rfl⟩
  have hmoves := hs.moves.2 _ e he e' he' (hid'.trans hid.symm)
  refine ⟨s, e, e', hs, he, he', hunread, hremoved, hmoves.2 ?_ hremoved⟩
  rw [hunread]
  decide

end FeedStore
