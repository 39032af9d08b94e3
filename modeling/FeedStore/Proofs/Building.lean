import FeedStore.Proofs.Pagination

/-!
# Queries built by a chain of calls

A query is built by calls that add to it, one after the other, in any order and as often as one
likes. What such a chain comes to is read off the calls (`Query.built_eq`): the conditions and
the sort terms of all of them, in their order, and the last limit and the last offset that say
anything. A call that says nothing may stand anywhere (`Query.built_idle`).
-/

namespace FeedStore

/-- One call that adds to a query. -/
inductive Addition where
  | filter (f : Filter)
  | statuses (ss : List Status)
  | statusNot (s : Status)
  | exactSearch (text : String)
  | entry (id : Id)
  | entries (ids : List Id)
  | shareCode (code : String)
  | publishedAfter (time : Int)
  | publishedBefore (time : Int)
  | createdAfter (time : Int)
  | changedAfter (time : Int)
  | sorting (field : SortField) (direction : Direction)
  | limit (n : Int)
  | offset (n : Int)
  deriving DecidableEq, Repr

namespace Addition

/-- The query with the addition. -/
def apply (a : Addition) (q : Query) : Query :=
  match a with
  | filter f => f.apply q
  | statuses ss => q.withStatuses ss
  | statusNot s => q.withoutStatus s
  | exactSearch text => q.withExactSearch text
  | entry id => q.withEntry id
  | entries ids => q.withEntries ids
  | shareCode code => q.withShareCode code
  | publishedAfter time => q.publishedAfter time
  | publishedBefore time => q.publishedBefore time
  | createdAfter time => q.createdAfter time
  | changedAfter time => q.changedAfter time
  | sorting field direction => q.sortedBy field direction
  | limit n => q.withLimit n
  | offset n => q.withOffset n

/-- It says which entries are asked for, not in which order or how many of them. -/
def IsFilter : Addition → Prop
  | sorting _ _ | limit _ | offset _ => False
  | _ => True

/-- It says nothing: no row can have the identifier, or the list or the text is empty, or the number
is not positive. An empty list of entries does say something. -/
def IsIdle : Addition → Prop
  | filter (.feed id) | filter (.category id) => id ≤ 0
  | filter (.tags tags) => tags = []
  | filter (.search text) | exactSearch text => text = ""
  | statuses ss => ss = []
  | limit n | offset n => n ≤ 0
  | _ => False

/-- The conditions that it adds. -/
def conditions : Addition → List Condition
  | filter f => f.conditions
  | statuses ss => if ss = [] then [] else [.statusIn ss]
  | statusNot s => [.statusNot s]
  | exactSearch text => if text = "" then [] else [.searchExact text]
  | entry id => [.entry id]
  | entries ids => [.entryIn ids]
  | shareCode code => [.shareCode code]
  | publishedAfter time => [.publishedAfter time]
  | publishedBefore time => [.publishedBefore time]
  | createdAfter time => [.createdAfter time]
  | changedAfter time => [.changedAfter time]
  | sorting _ _ | limit _ | offset _ => []

/-- The sort terms that it adds. -/
def terms : Addition → List SortTerm
  | sorting field direction => [⟨field, direction⟩]
  | _ => []

/-- The limits that it sets. -/
def limits : Addition → List Int
  | limit n => if n ≤ 0 then [] else [n]
  | _ => []

/-- The offsets that it sets. -/
def offsets : Addition → List Int
  | offset n => if n ≤ 0 then [] else [n]
  | _ => []

theorem apply_eq (a : Addition) (q : Query) :
    a.apply q = { q with
      conditions := q.conditions ++ a.conditions
      terms := q.terms ++ a.terms
      limit := a.limits.getLast?.or q.limit
      offset := a.offsets.getLast?.or q.offset } := by
  cases a with
  | filter f => simp [apply, Filter.apply_eq, conditions, terms, limits, offsets]
  | statuses ss =>
      by_cases h : ss = []
      · simp [apply, Query.withStatuses, conditions, terms, limits, offsets, h]
      · simp [apply, Query.withStatuses, Query.having, conditions, terms, limits, offsets, h]
  | exactSearch text =>
      by_cases h : text = ""
      · simp [apply, Query.withExactSearch, conditions, terms, limits, offsets, h]
      · simp [apply, Query.withExactSearch, Query.having, conditions, terms, limits, offsets, h]
  | sorting field direction =>
      simp [apply, Query.sortedBy, conditions, terms, limits, offsets]
  | limit n =>
      by_cases h : n ≤ 0
      · simp [apply, Query.withLimit, conditions, terms, limits, offsets, h]
      · simp [apply, Query.withLimit, conditions, terms, limits, offsets, h]
  | offset n =>
      by_cases h : n ≤ 0
      · simp [apply, Query.withOffset, conditions, terms, limits, offsets, h]
      · simp [apply, Query.withOffset, conditions, terms, limits, offsets, h]
  | statusNot _ | entry _ | entries _ | shareCode _ | publishedAfter _ | publishedBefore _
  | createdAfter _ | changedAfter _ =>
      simp only [conditions, terms, limits, offsets, List.append_nil, List.getLast?_nil,
        Option.none_or]
      rfl

theorem apply_of_isIdle {a : Addition} (h : a.IsIdle) (q : Query) : a.apply q = q := by
  cases a with
  | filter f =>
      cases f with
      | feed id => exact if_pos h
      | category id => exact if_pos h
      | tags tags =>
          obtain rfl : tags = [] := h
          rfl
      | search text => exact if_pos h
      | _ => exact h.elim
  | statuses ss => exact if_pos h
  | exactSearch text => exact if_pos h
  | limit n => exact if_pos h
  | offset n => exact if_pos h
  | _ => exact h.elim

end Addition

namespace Query

/-- The query that a chain of additions builds. -/
def built (user : Id) (as : List Addition) : Query := as.foldl (fun q a => a.apply q) { user }

variable {user : Id} {as bs : List Addition}

theorem foldl_addition (as : List Addition) (q : Query) :
    as.foldl (fun q a => a.apply q) q = { q with
      conditions := q.conditions ++ as.flatMap Addition.conditions
      terms := q.terms ++ as.flatMap Addition.terms
      limit := (as.flatMap Addition.limits).getLast?.or q.limit
      offset := (as.flatMap Addition.offsets).getLast?.or q.offset } := by
  induction as generalizing q with
  | nil => simp
  | cons a as ih =>
      rw [List.foldl_cons, ih, Addition.apply_eq]
      simp [List.getLast?_append, Option.or_assoc]

theorem built_eq (user : Id) (as : List Addition) :
    built user as = {
      user
      conditions := as.flatMap Addition.conditions
      terms := as.flatMap Addition.terms
      limit := (as.flatMap Addition.limits).getLast?
      offset := (as.flatMap Addition.offsets).getLast? } := by
  unfold built
  rw [foldl_addition, List.nil_append, List.nil_append, Option.or_none, Option.or_none]

/-- An addition that says nothing may as well be left out. -/
theorem built_idle {front back : List Addition} {a : Addition} (h : a.IsIdle) :
    built user (front ++ a :: back) = built user (front ++ back) := by
  unfold built
  rw [List.foldl_append, List.foldl_append, List.foldl_cons, Addition.apply_of_isIdle h]

theorem mem_built_conditions {c : Condition} :
    c ∈ (built user as).conditions ↔ ∃ a ∈ as, c ∈ a.conditions := by
  rw [built_eq]
  exact List.mem_flatMap

end Query

end FeedStore
