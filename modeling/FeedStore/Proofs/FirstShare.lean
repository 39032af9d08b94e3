import FeedStore.Proofs.Sharing
import Mathlib.Data.Fin.VecNotation
import Mathlib.Logic.Function.Basic

/-!
# The first share of an entry

Sharing takes two statements: one looks the code of the entry up, and if there is none, another one
stores the code that was drawn. Nothing keeps others from coming in between. Here several calls that
share one entry take turns, a statement each (`FirstShare.run`). Every call is given a code and the
entry ends up with one of these codes, whatever the order is (`FirstShare.HandsOut`). But the calls
are given the same code only if the first one to look is also the first one to store, or if there
was a code all along (`Reachable.sharesOne_iff`): calls that have looked in vain each store the code
they drew, one over the other.
-/

namespace FeedStore

/-- A call that shares an entry: it has not begun, it has looked in vain and will store the code
that it drew, or it has ended. -/
inductive Sharer where
  | waiting (drawn : String)
  | storing (drawn : String)
  | ended (answer : Except StoreError (Option String))
  deriving DecidableEq

namespace Sharer

/-- The call runs its next statement. -/
def turn (user entry : Id) (k : Sharer) (s : Session) : Sharer × Session :=
  match k with
  | waiting drawn =>
    match (Action.fetchShareCode user entry).perform s with
    | (.error e, t) => (ended (.error e), t)
    | (.ok none, t) => (ended (.ok none), t)
    | (.ok (some code), t) =>
      if code ≠ "" then (ended (.ok (some code)), t) else (storing drawn, t)
  | storing drawn =>
    match (Action.storeShareCode user entry drawn).perform s with
    | (.error e, t) => (ended (.error e), t)
    | (.ok (), t) => (ended (.ok (some drawn)), t)
  | ended answer => (ended answer, s)

/-- The number of statements that the call has left at most. -/
def turnsLeft : Sharer → Nat
  | waiting _ => 2
  | storing _ => 1
  | ended _ => 0

/-- The call will store the code that it drew if it stores any, and has been given a code if it has
ended. -/
def Draws (drawn : String) (k : Sharer) : Prop :=
  k = waiting drawn ∨ k = storing drawn ∨ ∃ code, code ≠ "" ∧ k = ended (.ok (some code))

/-- The call has found no code, and is given the one that it drew. -/
def KeepsOwn (drawn : String) (k : Sharer) : Prop :=
  k = storing drawn ∨ k = ended (.ok (some drawn))

/-- The call has been given the code if it has begun. -/
def Follows (code drawn : String) (k : Sharer) : Prop :=
  k = waiting drawn ∨ k = ended (.ok (some code))

variable {user entry : Id} {s : Session}

theorem turnsLeft_turn (k : Sharer) : (k.turn user entry s).1.turnsLeft ≤ k.turnsLeft - 1 := by
  cases k with
  | waiting drawn =>
      unfold turn
      dsimp only
      rcases (Action.fetchShareCode user entry).perform s with ⟨e | _ | code, t⟩
      · exact Nat.zero_le _
      · exact Nat.zero_le _
      · dsimp only
        split
        · exact Nat.zero_le _
        · exact le_rfl
  | storing drawn =>
      unfold turn
      dsimp only
      rcases (Action.storeShareCode user entry drawn).perform s with ⟨e | _, t⟩
      · exact le_rfl
      · exact le_rfl
  | ended answer => exact le_rfl

theorem KeepsOwn.eq_of_ended {drawn code : String} {k : Sharer} (h : k.KeepsOwn drawn)
    (hended : k = ended (.ok (some code))) : drawn = code := by
  rcases h with hcall | hcall
  · cases hcall.symm.trans hended
  · cases hcall.symm.trans hended
    rfl

/-- A call whose statements follow each other at once does what sharing does. -/
theorem turn_turn (user entry : Id) (drawn : String) (s : Session) :
    ((waiting drawn).turn user entry s).1.turn user entry ((waiting drawn).turn user entry s).2
      = (ended ((Action.share user entry drawn).perform s).1,
          ((Action.share user entry drawn).perform s).2) := by
  unfold Action.share
  rw [Action.perform_bind]
  unfold turn
  dsimp only
  rcases (Action.fetchShareCode user entry).perform s with ⟨e | _ | code, t⟩
  · rfl
  · rfl
  · dsimp only
    by_cases hempty : code = ""
    · rw [if_neg (not_not_intro hempty), if_neg (not_not_intro hempty), Action.perform_bind]
      dsimp only
      rcases (Action.storeShareCode user entry drawn).perform t with ⟨e | _, u⟩
      · rfl
      · rfl
    · rw [if_pos hempty, if_pos hempty]
      rfl

end Sharer

/-! ## Statements that share -/

namespace Session

variable {ι : Type} {user entry : Id} {drawn : ι → String} {s : Session}

/-- The user has the entry, and the codes that may be drawn for it are no other entry's. -/
structure TakesCodes (user entry : Id) (drawn : ι → String) (s : Session) : Prop where
  ready : s.Ready
  integrity : s.store.Integrity
  own : s.store.HasEntryOf user entry
  named : ∀ i, drawn i ≠ ""
  free : ∀ i, ∀ e ∈ s.store.entries.rows, e.isOwn user entry = false → e.shareCode ≠ drawn i

theorem TakesCodes.exists_shareCode (h : s.TakesCodes user entry drawn) :
    ∃ code, s.store.shareCode? user entry = some code := by
  rw [← Option.ne_none_iff_exists', Ne, Store.shareCode?_eq_none_iff]
  exact not_not_intro h.own

theorem TakesCodes.fetch (h : s.TakesCodes user entry drawn) :
    (Action.fetchShareCode user entry).perform s = (.ok (s.store.shareCode? user entry), s) :=
  Action.perform_read_of_ready h.ready

/-- A drawn code is stored, and replaces whatever code the entry has had. -/
theorem TakesCodes.store (h : s.TakesCodes user entry drawn) (i : ι) :
    ∃ t, (Action.storeShareCode user entry (drawn i)).perform s = (.ok (), t)
      ∧ t.TakesCodes user entry drawn ∧ t.store.shareCode? user entry = some (drawn i) := by
  let f : Entry → Entry := fun e => { e with shareCode := drawn i }
  have hset : s.store.setShareCode user entry (drawn i)
      = .ok (s.store.modifyEntries (Entry.isOwn user entry) f) :=
    Store.setShareCode_eq_ok (h.free i)
  have hintegrity := h.integrity.setShareCode hset
  obtain ⟨e, he, hown⟩ := h.own
  have hcarries := Table.mem_rows_modify (f := f).2 ⟨e, he, (if_pos hown).symm⟩
  refine ⟨{ s with store := (s.store.modifyEntries (Entry.isOwn user entry) f).2 }, ?_,
    ⟨h.ready, hintegrity, h.own.modify (fun _ => rfl) fun _ => rfl, h.named, ?_⟩, ?_⟩
  · unfold Action.storeShareCode
    rw [Action.perform_bind, Action.perform_write_of_ready h.ready hset]
    rfl
  · intro j a' ha' hother
    obtain ⟨a, ha, rfl⟩ := Table.mem_rows_modify.1 ha'
    by_cases hmine : a.isOwn user entry = true
    · rw [if_pos hmine] at hother
      exact absurd hmine (Bool.eq_false_iff.1 hother)
    · rw [if_neg hmine]
      exact h.free j a ha (Bool.eq_false_iff.2 hmine)
  · obtain ⟨huser, hid⟩ := Entry.isOwn_iff.1 hown
    exact (Store.shareCode?_eq_some_iff hintegrity).2 ⟨_, hcarries, huser, hid, rfl⟩

end Session

/-! ## Calls that take turns -/

/-- Calls that share one entry, in a session that all of them use. -/
structure FirstShare (ι : Type) where
  session : Session
  calls : ι → Sharer

namespace FirstShare

variable {ι : Type}

/-- Nobody has begun. -/
def start (s : Session) (drawn : ι → String) : FirstShare ι :=
  { session := s, calls := fun i => .waiting (drawn i) }

/-- Every call has been given a code, and the entry carries one of those. -/
structure HandsOut (user entry : Id) (r : FirstShare ι) : Prop where
  answers : ∀ i, ∃ code, code ≠ "" ∧ r.calls i = .ended (.ok (some code))
  carried : ι → ∃ i code, r.calls i = .ended (.ok (some code))
    ∧ r.session.store.shareCode? user entry = some code

/-- All calls have been given the same code, and the entry carries it. -/
def SharesOne (user entry : Id) (r : FirstShare ι) : Prop :=
  ∃ code, (∀ i, r.calls i = .ended (.ok (some code)))
    ∧ r.session.store.shareCode? user entry = some code

/-- The entry has no code yet, and after one call has looked it up, another one does. -/
def LooksTwice (user entry : Id) (s : Session) (schedule : List ι) : Prop :=
  s.store.shareCode? user entry = some ""
    ∧ ∃ i j rest, schedule = i :: j :: rest ∧ i ≠ j

/-- Each call keeps to the code that it drew until it is given one, and some call was given what the
entry carries, as soon as any call has ended. -/
structure Sound (user entry : Id) (drawn : ι → String) (r : FirstShare ι) : Prop where
  takes : r.session.TakesCodes user entry drawn
  draws : ∀ i, (r.calls i).Draws (drawn i)
  carried : (∀ i, (r.calls i).turnsLeft ≠ 0) ∨ ∃ i code, r.calls i = .ended (.ok (some code))
    ∧ r.session.store.shareCode? user entry = some code

/-- The entry carries the code, and whoever has begun has been given it. -/
structure Settled (user entry : Id) (drawn : ι → String) (code : String) (r : FirstShare ι) :
    Prop where
  named : code ≠ ""
  stored : r.session.store.shareCode? user entry = some code
  follows : ∀ i, (r.calls i).Follows code (drawn i)

section

variable {user entry : Id} {drawn : ι → String} {s : Session} {r : FirstShare ι} {code : String}

theorem sound_start (h : s.TakesCodes user entry drawn) :
    (start s drawn).Sound user entry drawn :=
  ⟨h, fun _ => Or.inl rfl, Or.inl fun _ => Nat.succ_ne_zero 1⟩

theorem Sound.handsOut (h : r.Sound user entry drawn) (hended : ∀ i, (r.calls i).turnsLeft = 0) :
    r.HandsOut user entry := by
  refine ⟨fun i => ?_, fun i => h.carried.resolve_left fun hnone => hnone i (hended i)⟩
  have hdone := hended i
  rcases h.draws i with hcall | hcall | hcall
  · rw [hcall] at hdone
    cases hdone
  · rw [hcall] at hdone
    cases hdone
  · exact hcall

theorem Settled.sharesOne (h : r.Settled user entry drawn code)
    (hended : ∀ i, (r.calls i).turnsLeft = 0) : r.SharesOne user entry := by
  refine ⟨code, fun i => (h.follows i).resolve_left fun hcall => ?_, h.stored⟩
  have hdone := hended i
  rw [hcall] at hdone
  cases hdone

end

/-! ## Turns -/

variable [DecidableEq ι]

/-- One of the calls runs its next statement. -/
def turn (user entry : Id) (r : FirstShare ι) (i : ι) : FirstShare ι :=
  { session := ((r.calls i).turn user entry r.session).2
    calls := Function.update r.calls i ((r.calls i).turn user entry r.session).1 }

/-- The calls run their statements in the given order. -/
def run (user entry : Id) (r : FirstShare ι) (schedule : List ι) : FirstShare ι :=
  schedule.foldl (turn user entry) r

/-- What a turn of a call can do. -/
inductive Turns (user entry : Id) (drawn : ι → String) (r : FirstShare ι) (i : ι) :
    FirstShare ι → Prop
  | find {code : String} (waiting : r.calls i = .waiting (drawn i)) (named : code ≠ "")
      (stored : r.session.store.shareCode? user entry = some code) :
      Turns user entry drawn r i
        { r with calls := Function.update r.calls i (.ended (.ok (some code))) }
  | miss (waiting : r.calls i = .waiting (drawn i))
      (stored : r.session.store.shareCode? user entry = some "") :
      Turns user entry drawn r i { r with calls := Function.update r.calls i (.storing (drawn i)) }
  | store {t : Session} (storing : r.calls i = .storing (drawn i))
      (takes : t.TakesCodes user entry drawn)
      (stored : t.store.shareCode? user entry = some (drawn i)) :
      Turns user entry drawn r i
        { session := t, calls := Function.update r.calls i (.ended (.ok (some (drawn i)))) }
  | rest {code : String} (ended : r.calls i = .ended (.ok (some code))) :
      Turns user entry drawn r i r

variable {user entry : Id} {drawn : ι → String} {s : Session} {r r' : FirstShare ι} {i j : ι}
  {schedule : List ι} {code : String}

/-- What holds of all calls and of what becomes of one of them holds of all afterwards. -/
theorem forall_calls_update {P : ι → Sharer → Prop} {k : Sharer} (hk : P i k)
    (h : ∀ j, P j (r.calls j)) (j : ι) : P j (Function.update r.calls i k j) :=
  (Function.forall_update_iff _ P).2 ⟨hk, fun j _ => h j⟩ j

theorem Sound.turns (h : r.Sound user entry drawn) (i : ι) :
    Turns user entry drawn r i (r.turn user entry i) := by
  unfold turn
  rcases h.draws i with hcall | hcall | ⟨code, -, hcall⟩
  · obtain ⟨code, hcode⟩ := h.takes.exists_shareCode
    have hturn : (r.calls i).turn user entry r.session
        = if code ≠ "" then (.ended (.ok (some code)), r.session)
          else (.storing (drawn i), r.session) := by
      rw [hcall]
      unfold Sharer.turn
      rw [h.takes.fetch, hcode]
    rw [hturn]
    split
    · rename_i hne
      exact .find hcall hne hcode
    · rename_i hempty
      exact .miss hcall (hcode.trans (congrArg some (not_not.1 hempty)))
  · obtain ⟨t, hstore, htakes, hstored⟩ := h.takes.store i
    have hturn : (r.calls i).turn user entry r.session
        = (.ended (.ok (some (drawn i))), t) := by
      rw [hcall]
      unfold Sharer.turn
      dsimp only
      rw [hstore]
    rw [hturn]
    exact .store hcall htakes hstored
  · have hturn : (r.calls i).turn user entry r.session = (r.calls i, r.session) := by
      rw [hcall]
      rfl
    rw [hturn, Function.update_eq_self]
    exact .rest hcall

/-- A call that looks in vain changes nothing but that it will store its code. -/
theorem Turns.eq_of_miss (hturn : Turns user entry drawn r i r')
    (hwaits : r.calls i = .waiting (drawn i))
    (hnone : r.session.store.shareCode? user entry = some "") :
    r' = { r with calls := Function.update r.calls i (.storing (drawn i)) } := by
  cases hturn with
  | find waiting named stored =>
      exact absurd (Option.some.inj (stored.symm.trans hnone)) named
  | miss waiting stored => rfl
  | store storing takes stored => cases hwaits.symm.trans storing
  | rest ended => cases hwaits.symm.trans ended

theorem Turns.sound (hturn : Turns user entry drawn r i r') (h : r.Sound user entry drawn) :
    r'.Sound user entry drawn := by
  cases hturn with
  | @find code waiting named stored =>
      have hdraws : (Sharer.ended (.ok (some code))).Draws (drawn i) :=
        Or.inr (Or.inr ⟨code, named, rfl⟩)
      exact ⟨h.takes, forall_calls_update (P := fun i => Sharer.Draws (drawn i)) hdraws h.draws,
        Or.inr ⟨i, code, Function.update_self .., stored⟩⟩
  | miss waiting stored =>
      have hdraws : (Sharer.storing (drawn i)).Draws (drawn i) := Or.inr (Or.inl rfl)
      refine ⟨h.takes, forall_calls_update (P := fun i => Sharer.Draws (drawn i)) hdraws h.draws,
        ?_⟩
      rcases h.carried with hnone | ⟨j, code, hcall, hcode⟩
      · have hleft : (Sharer.storing (drawn i)).turnsLeft ≠ 0 := Nat.succ_ne_zero 0
        exact Or.inl (forall_calls_update (P := fun _ k => k.turnsLeft ≠ 0) hleft hnone)
      · have hji : j ≠ i := by
          rintro rfl
          rw [waiting] at hcall
          cases hcall
        exact Or.inr ⟨j, code, (Function.update_of_ne hji ..).trans hcall, hcode⟩
  | store storing takes stored =>
      have hdraws : (Sharer.ended (.ok (some (drawn i)))).Draws (drawn i) :=
        Or.inr (Or.inr ⟨drawn i, takes.named i, rfl⟩)
      exact ⟨takes, forall_calls_update (P := fun i => Sharer.Draws (drawn i)) hdraws h.draws,
        Or.inr ⟨i, drawn i, Function.update_self .., stored⟩⟩
  | rest ended => exact h

theorem Sound.turn (h : r.Sound user entry drawn) (i : ι) :
    (r.turn user entry i).Sound user entry drawn :=
  (h.turns i).sound h

theorem Sound.run (h : r.Sound user entry drawn) (schedule : List ι) :
    (r.run user entry schedule).Sound user entry drawn := by
  induction schedule generalizing r with
  | nil => exact h
  | cons i schedule ih => exact ih (h.turn i)

/-! ## A call that has found no code -/

theorem Turns.keepsOwn (hturn : Turns user entry drawn r j r')
    (h : (r.calls i).KeepsOwn (drawn i)) : (r'.calls i).KeepsOwn (drawn i) := by
  have hbegun : r.calls i ≠ .waiting (drawn i) := by
    rcases h with hcall | hcall
    · rw [hcall]
      simp
    · rw [hcall]
      simp
  cases hturn with
  | find waiting named stored =>
      have hij : i ≠ j := fun heq => hbegun (heq ▸ waiting)
      dsimp only
      rwa [Function.update_of_ne hij]
  | miss waiting stored =>
      have hij : i ≠ j := fun heq => hbegun (heq ▸ waiting)
      dsimp only
      rwa [Function.update_of_ne hij]
  | store storing takes stored =>
      by_cases hij : i = j
      · subst hij
        exact Or.inr (Function.update_self ..)
      · dsimp only
        rwa [Function.update_of_ne hij]
  | rest ended => exact h

theorem keepsOwn_run (h : (r.calls i).KeepsOwn (drawn i)) (hsound : r.Sound user entry drawn)
    (schedule : List ι) : ((r.run user entry schedule).calls i).KeepsOwn (drawn i) := by
  induction schedule generalizing r with
  | nil => exact h
  | cons j schedule ih => exact ih ((hsound.turns j).keepsOwn h) (hsound.turn j)

/-- Two calls that look one after the other, and in vain, are given the codes that they drew. -/
theorem keepsOwn_looksTwice (hsound : (start s drawn).Sound user entry drawn)
    (hnone : s.store.shareCode? user entry = some "") (hij : i ≠ j) (rest : List ι) :
    (((start s drawn).run user entry (i :: j :: rest)).calls i).KeepsOwn (drawn i)
      ∧ (((start s drawn).run user entry (i :: j :: rest)).calls j).KeepsOwn (drawn j) := by
  have hfirst : (start s drawn).turn user entry i
      = { session := s, calls := Function.update (start s drawn).calls i (.storing (drawn i)) } :=
    (hsound.turns i).eq_of_miss rfl hnone
  have hwaits : ((start s drawn).turn user entry i).calls j = .waiting (drawn j) := by
    rw [hfirst]
    exact Function.update_of_ne (Ne.symm hij) ..
  have hsecond := ((hsound.turn i).turns j).eq_of_miss hwaits (by rw [hfirst]; exact hnone)
  have hlooked := (hsound.turn i).turn j
  constructor
  · refine keepsOwn_run (Or.inl ?_) hlooked rest
    rw [hsecond]
    dsimp only
    rw [Function.update_of_ne hij, hfirst]
    exact Function.update_self ..
  · refine keepsOwn_run (Or.inl ?_) hlooked rest
    rw [hsecond]
    exact Function.update_self ..

/-! ## One code for all -/

theorem Turns.settled (hturn : Turns user entry drawn r i r')
    (h : r.Settled user entry drawn code) : r'.Settled user entry drawn code := by
  cases hturn with
  | find waiting named stored =>
      obtain rfl := Option.some.inj (h.stored.symm.trans stored)
      exact ⟨h.named, stored,
        forall_calls_update (P := fun i => Sharer.Follows _ (drawn i)) (Or.inr rfl) h.follows⟩
  | miss waiting stored => exact absurd (Option.some.inj (h.stored.symm.trans stored)) h.named
  | store storing takes stored =>
      rcases h.follows i with hcall | hcall
      · rw [storing] at hcall
        cases hcall
      · rw [storing] at hcall
        cases hcall
  | rest ended => exact h

theorem Settled.run (h : r.Settled user entry drawn code) (hsound : r.Sound user entry drawn)
    (schedule : List ι) : (r.run user entry schedule).Settled user entry drawn code := by
  induction schedule generalizing r with
  | nil => exact h
  | cons i schedule ih => exact ih ((hsound.turns i).settled h) (hsound.turn i)

/-- A call that stores its code before any other call has begun decides for all. -/
theorem Turns.settled_of_storing (hturn : Turns user entry drawn r i r')
    (hstoring : r.calls i = .storing (drawn i))
    (hwait : ∀ j, j ≠ i → r.calls j = .waiting (drawn j)) :
    r'.Settled user entry drawn (drawn i) := by
  cases hturn with
  | find waiting named stored => cases hstoring.symm.trans waiting
  | miss waiting stored => cases hstoring.symm.trans waiting
  | store storing takes stored =>
      exact ⟨takes.named i, stored, (Function.forall_update_iff _ fun j k =>
        Sharer.Follows (drawn i) (drawn j) k).2 ⟨Or.inr rfl, fun j hj => Or.inl (hwait j hj)⟩⟩
  | rest ended => cases hstoring.symm.trans ended

theorem settled_start (hsound : (start s drawn).Sound user entry drawn) (hne : code ≠ "")
    (hcode : s.store.shareCode? user entry = some code) (schedule : List ι) :
    ((start s drawn).run user entry schedule).Settled user entry drawn code :=
  Settled.run ⟨hne, hcode, fun _ => Or.inl rfl⟩ hsound schedule

theorem settled_turn_turn (hsound : (start s drawn).Sound user entry drawn)
    (hnone : s.store.shareCode? user entry = some "") (rest : List ι) :
    ((start s drawn).run user entry (i :: i :: rest)).Settled user entry drawn (drawn i) := by
  have hfirst : (start s drawn).turn user entry i
      = { session := s, calls := Function.update (start s drawn).calls i (.storing (drawn i)) } :=
    (hsound.turns i).eq_of_miss rfl hnone
  have hsecond := (hsound.turn i).turns i
  refine (hsecond.settled_of_storing ?_ fun j hj => ?_).run ((hsound.turn i).turn i) rest
  · rw [hfirst]
    exact Function.update_self ..
  · rw [hfirst]
    exact Function.update_of_ne hj ..

/-! ## Calls that have had their turns -/

theorem turnsLeft_run (user entry : Id) (r : FirstShare ι) (schedule : List ι) (i : ι) :
    ((r.run user entry schedule).calls i).turnsLeft
      ≤ (r.calls i).turnsLeft - schedule.count i := by
  induction schedule generalizing r with
  | nil => exact le_rfl
  | cons j schedule ih =>
      refine (ih (r.turn user entry j)).trans ?_
      by_cases hij : j = i
      · subst hij
        have hless : ((r.turn user entry j).calls j).turnsLeft ≤ (r.calls j).turnsLeft - 1 := by
          unfold turn
          dsimp only
          rw [Function.update_self]
          exact (r.calls j).turnsLeft_turn
        rw [List.count_cons_self]
        omega
      · have hsame : (r.turn user entry j).calls i = r.calls i :=
          Function.update_of_ne (Ne.symm hij) ..
        rw [hsame, List.count_cons_of_ne hij]

/-- Two turns in a row are one call of sharing. -/
theorem run_alone (s : Session) (drawn : ι → String) (i : ι) :
    ((start s drawn).run user entry [i, i]).session
        = ((Action.share user entry (drawn i)).perform s).2
      ∧ ((start s drawn).run user entry [i, i]).calls i
        = .ended ((Action.share user entry (drawn i)).perform s).1 := by
  have hturns := Sharer.turn_turn user entry (drawn i) s
  have hcall : ((start s drawn).turn user entry i).calls i
      = ((Sharer.waiting (drawn i)).turn user entry s).1 := Function.update_self ..
  have hsecond : (((start s drawn).turn user entry i).calls i).turn user entry
        ((start s drawn).turn user entry i).session
      = (.ended ((Action.share user entry (drawn i)).perform s).1,
          ((Action.share user entry (drawn i)).perform s).2) := by
    rw [hcall]
    exact hturns
  exact ⟨congrArg Prod.snd hsecond,
    (Function.update_self ..).trans (congrArg Prod.fst hsecond)⟩

/-- After two turns a call has ended. -/
theorem ended_run (s : Session) (drawn : ι → String) (hturns : 2 ≤ schedule.count i) :
    (((start s drawn).run user entry schedule).calls i).turnsLeft = 0 := by
  have hleft := turnsLeft_run user entry (start s drawn) schedule i
  have hstart : ((start s drawn).calls i).turnsLeft = 2 := rfl
  omega

/-- Unless two calls look one after the other, and in vain, all are given one code. -/
theorem sharesOne_run (hsound : (start s drawn).Sound user entry drawn)
    (hturns : ∀ i, 2 ≤ schedule.count i) (hnot : ¬ LooksTwice user entry s schedule) :
    ((start s drawn).run user entry schedule).SharesOne user entry := by
  have hended : ∀ i, (((start s drawn).run user entry schedule).calls i).turnsLeft = 0 :=
    fun i => ended_run s drawn (hturns i)
  obtain ⟨code, hcode⟩ := hsound.takes.exists_shareCode
  by_cases hempty : code = ""
  · subst hempty
    match schedule with
    | [] => exact ⟨"", fun i => absurd (hturns i) (Nat.not_succ_le_zero 1), hcode⟩
    | [i] =>
        have hcount := hturns i
        rw [List.count_singleton_self] at hcount
        exact absurd hcount (Nat.lt_irrefl 1)
    | i :: j :: rest =>
        obtain rfl : i = j := by
          by_contra hij
          exact hnot ⟨hcode, i, j, rest, rfl, hij⟩
        exact (settled_turn_turn hsound hcode rest).sharesOne hended
  · exact (settled_start hsound hempty hcode schedule).sharesOne hended

end FirstShare

open FirstShare

variable {ι : Type} [DecidableEq ι]

/-- Whatever the order in which calls that share one entry run their statements, each of them is
given a code and the entry carries one of these codes in the end. It is the same code for all if and
only if the entry had a code in the beginning or the call that comes first has stored its code
before another one looks. A call that runs both its statements at once shares the entry. -/
theorem Reachable.sharesOne_iff {s : Session} (hs : Reachable s) {user entry : Id}
    (hown : s.store.HasEntryOf user entry) (drawn : ι → String) (hdrawn : Function.Injective drawn)
    (hfresh : ∀ i, drawn i ≠ "" ∧ s.store.LacksCode (drawn i)) (schedule : List ι)
    (hturns : ∀ i, 2 ≤ schedule.count i) :
    ((start s drawn).run user entry schedule).HandsOut user entry
      ∧ (((start s drawn).run user entry schedule).SharesOne user entry
          ↔ ¬ LooksTwice user entry s schedule)
      ∧ ∀ i, ((start s drawn).run user entry [i, i]).session
            = ((Action.share user entry (drawn i)).perform s).2
          ∧ ((start s drawn).run user entry [i, i]).calls i
            = .ended ((Action.share user entry (drawn i)).perform s).1 := by
  have hstart : (start s drawn).Sound user entry drawn := sound_start
    ⟨hs.ready, hs.integrity, hown, fun i => (hfresh i).1, fun i e he _ => (hfresh i).2 e he⟩
  have hended : ∀ i, (((start s drawn).run user entry schedule).calls i).turnsLeft = 0 :=
    fun i => ended_run s drawn (hturns i)
  have hrun := hstart.run schedule
  refine ⟨hrun.handsOut hended, ?_, fun i => run_alone s drawn i⟩
  constructor
  · rintro ⟨code, hcalls, -⟩ ⟨hnone, i, j, rest, rfl, hij⟩
    obtain ⟨hi, hj⟩ := keepsOwn_looksTwice hstart hnone hij rest
    exact hij (hdrawn ((hi.eq_of_ended (hcalls i)).trans (hj.eq_of_ended (hcalls j)).symm))
  · exact sharesOne_run hstart hturns

/-- Three calls share an entry that is not shared yet, in two orders: in the first one the call that
comes first has stored its code before the others look. -/
theorem Reachable.sharesOne_iff_of_three :
    ∃ s, Reachable s ∧ s.store.shareCode? 1 1 = some ""
      ∧ ((start s !["j", "k", "l"]).run 1 1 [1, 1, 0, 2, 0, 2]).SharesOne 1 1
      ∧ ¬ ((start s !["j", "k", "l"]).run 1 1 [1, 0, 1, 2, 0, 2]).SharesOne 1 1 := by
  let s := Session.subscribed.run [.refreshFeed 1 1 [.bare "a" 1, .bare "b" 2] false]
  have hs : Reachable s := Reachable.subscribed.run _
  have hown : s.store.HasEntryOf 1 1 := by
    unfold Store.HasEntryOf
    decide +kernel
  have hnone : s.store.shareCode? 1 1 = some "" := by decide +kernel
  have hdrawn : ∀ i j, !["j", "k", "l"] i = !["j", "k", "l"] j → i = j := by decide
  have hfresh : ∀ i, !["j", "k", "l"] i ≠ "" ∧ s.store.LacksCode (!["j", "k", "l"] i) := by
    unfold Store.LacksCode
    decide +kernel
  obtain ⟨-, hone, -⟩ := hs.sharesOne_iff hown _ (fun i j => hdrawn i j) hfresh
    [1, 1, 0, 2, 0, 2] (by decide)
  obtain ⟨-, hmany, -⟩ := hs.sharesOne_iff hown _ (fun i j => hdrawn i j) hfresh
    [1, 0, 1, 2, 0, 2] (by decide)
  refine ⟨s, hs, hnone, hone.2 ?_, fun h => hmany.1 h ⟨hnone, 1, 0, _, rfl, by decide⟩⟩
  rintro ⟨-, i, j, rest, hsplit, hij⟩
  obtain ⟨rfl, hrest⟩ := List.cons.inj hsplit
  exact hij (List.cons.inj hrest).1

/-- Two calls that share an entry can be given different codes. -/
theorem Reachable.not_forall_sharesOne :
    ¬ ∀ (s : Session) (user entry : Id) (drawn : Fin 2 → String) (schedule : List (Fin 2)),
        Reachable s → s.store.HasEntryOf user entry → Function.Injective drawn →
        (∀ i, drawn i ≠ "" ∧ s.store.LacksCode (drawn i)) → (∀ i, 2 ≤ schedule.count i) →
        ((start s drawn).run user entry schedule).SharesOne user entry := by
  intro h
  let s := Session.subscribed.run [.refreshFeed 1 1 [.bare "a" 1] false]
  have hown : s.store.HasEntryOf 1 1 := by
    unfold Store.HasEntryOf
    decide +kernel
  have hdrawn : ∀ i j, !["k", "l"] i = !["k", "l"] j → i = j := by decide
  have hfresh : ∀ i, !["k", "l"] i ≠ "" ∧ s.store.LacksCode (!["k", "l"] i) := by
    unfold Store.LacksCode
    decide +kernel
  obtain ⟨code, hcalls, -⟩ := h s 1 1 !["k", "l"] [0, 1, 0, 1] (Reachable.subscribed.run _) hown
    (fun i j => hdrawn i j) hfresh (by decide)
  have hfirst : ((start s !["k", "l"]).run 1 1 [0, 1, 0, 1]).calls 0
      = .ended (.ok (some "k")) := by decide +kernel
  have hsecond : ((start s !["k", "l"]).run 1 1 [0, 1, 0, 1]).calls 1
      = .ended (.ok (some "l")) := by decide +kernel
  have hcodes : Sharer.ended (.ok (some "k")) = Sharer.ended (.ok (some "l")) :=
    (hfirst.symm.trans (hcalls 0)).trans (hsecond.symm.trans (hcalls 1)).symm
  exact absurd hcodes (by decide)

end FeedStore
