import FeedStore.Store
import FeedStore.Text.Infix
import FeedStore.Text.Lowercase
import FeedStore.Text.Wildcard

/-!
# Conditions on entries

A condition is one thing that a query asks of an entry; a query asks for all of its conditions at once.
`Condition.holds` says what each of them means. The engine limits how many values a statement binds,
how deeply its conditions nest and how long a wildcard pattern is; `values`, `levels` and `isTooLong`
say what a condition contributes to that, and `stage` when the engine tests it.
-/

namespace FeedStore

/-- One thing that a query asks of an entry. -/
inductive Condition where
  | user (id : Id)
  | status (s : Status)
  | statusIn (ss : List Status)
  | statusNot (s : Status)
  | feed (id : Id)
  | category (id : Id)
  | starred (starred : Bool)
  /-- The entry carries the tag, in any case of its letters. -/
  | tag (t : String)
  /-- Title or content hold the text, in either ASCII case; wildcards in it count as such. -/
  | search (q : String)
  /-- Title or content hold the text exactly. -/
  | searchExact (q : String)
  /-- Neither the feed nor its category is hidden from global lists. -/
  | shown
  | entry (id : Id)
  | entryIn (ids : List Id)
  | shareCode (code : String)
  | publishedAfter (time : Int)
  | publishedBefore (time : Int)
  | createdAfter (time : Int)
  | changedAfter (time : Int)
  deriving DecidableEq, Repr

namespace Condition

/-- The pattern for a tag: the quoted tag somewhere in the stored tags. -/
def tagPattern (t : String) : String := "%\"" ++ Text.lowercase t ++ "\"%"

/-- The pattern for a text that occurs somewhere. -/
def searchPattern (q : String) : String := "%" ++ q ++ "%"

/-- The stored tags match the pattern for the tag. -/
def hasTag (t tags : String) : Bool :=
  Text.Wildcard.matchText (tagPattern t) (String.ofList (Text.foldChars tags.toList))

/-- The text matches the pattern for a text that occurs somewhere. -/
def mentions (q text : String) : Bool := Text.Wildcard.matchText (searchPattern q) text

def holds (c : Condition) (l : Listed) : Bool :=
  match c with
  | user id => l.entry.userId == id
  | status s => l.entry.status == .known s
  | statusIn ss => ss.any fun s => l.entry.status == .known s
  | statusNot s => l.entry.status != .known s
  | feed id => l.entry.feedId == id
  | category id => l.category.id == id
  | starred b => l.entry.starred == b
  | tag t => hasTag t l.entry.tags
  | search q => mentions q l.entry.title || mentions q l.entry.content
  | searchExact q =>
    Text.occursIn q.toList l.entry.title.toList || Text.occursIn q.toList l.entry.content.toList
  | shown => !l.feed.hideGlobally && !l.category.hideGlobally
  | entry id => l.entry.id == id
  | entryIn ids => ids.contains l.entry.id
  | shareCode code => l.entry.shareCode == code
  | publishedAfter time => decide (time < l.entry.publishedAt)
  | publishedBefore time => decide (l.entry.publishedAt < time)
  | createdAfter time => decide (time < l.entry.createdAt)
  | changedAfter time => decide (time < l.entry.changedAt)

def values : Condition → Nat
  | statusIn ss => ss.length
  | entryIn ids => ids.length
  | search _ | searchExact _ => 2
  | starred _ | shown => 0
  | _ => 1

/-- How deeply each of the comparisons nests that the condition consists of. -/
def levels : Condition → List Nat
  | entryIn [] => [2]
  | tag _ | search _ => [4]
  | searchExact _ => [5]
  | shown => [3, 3]
  | _ => [3]

/-- The wildcard pattern of the condition exceeds the limit. -/
def isTooLong : Condition → Bool
  | tag t => (tagPattern t).utf8ByteSize > Text.Wildcard.maxPatternBytes
  | search q => (searchPattern q).utf8ByteSize > Text.Wildcard.maxPatternBytes
  | _ => false

/-- When the engine tests the condition: first what holds of no entry or what it keeps an index for,
then the other fields of the entry, then those of feed and category. -/
def stage : Condition → Nat
  | user _ | status _ | starred _ | entry _ | entryIn _ | publishedAfter _ | publishedBefore _
  | createdAfter _ => 0
  | category _ | shown => 2
  | _ => 1

/-- The conditions in the order in which the engine tests them. -/
def inTestOrder (cs : List Condition) : List Condition :=
  cs.filter (·.stage == 0) ++ cs.filter (·.stage == 1) ++ cs.filter (·.stage == 2)

/-- Tests conditions one after the other up to the first that fails. An overlong pattern is only
noticed when its turn comes. -/
def test : List Condition → Listed → Except Fault Bool
  | [], _ => .ok true
  | c :: cs, l =>
    if c.isTooLong then .error .patternTooLong
    else if c.holds l then test cs l
    else .ok false

/-- The rows that satisfy every condition, in their order. -/
def select (cs : List Condition) : List Listed → Except Fault (List Listed)
  | [] => .ok []
  | l :: ls => do
    let keep ← test cs l
    let rest ← select cs ls
    return if keep then l :: rest else rest

/-- How deeply conditions nest that are joined one after the other. Two levels belong to the tables
that are read together. -/
def depth (cs : List Condition) : Nat :=
  match cs.flatMap levels with
  | [] => 2
  | first :: rest => rest.foldl (fun acc level => max acc level + 1) first + 2

/-! ## Laws -/

theorem mem_inTestOrder {c : Condition} {cs : List Condition} : c ∈ inTestOrder cs ↔ c ∈ cs := by
  have : c.stage = 0 ∨ c.stage = 1 ∨ c.stage = 2 := by cases c <;> simp [stage]
  simp only [inTestOrder, List.mem_append, List.mem_filter, beq_iff_eq]
  rcases this with h | h | h <;> simp [h]

theorem all_inTestOrder (cs : List Condition) (p : Condition → Bool) :
    (inTestOrder cs).all p = cs.all p := by
  rw [Bool.eq_iff_iff]
  simp only [List.all_eq_true, mem_inTestOrder]

/-- Without overlong patterns, testing conditions is asking whether all of them hold. -/
theorem test_eq_all {cs : List Condition} (h : ∀ c ∈ cs, c.isTooLong = false) (l : Listed) :
    test cs l = .ok (cs.all (·.holds l)) := by
  induction cs with
  | nil => rfl
  | cons c cs ih =>
    have hc := h c (by simp)
    have ih := ih fun d hd => h d (by simp [hd])
    cases hl : c.holds l <;> simp [test, hc, hl, ih]

/-- Without overlong patterns, the rows found are those that satisfy every condition. -/
theorem select_eq_filter {cs : List Condition} (h : ∀ c ∈ cs, c.isTooLong = false)
    (ls : List Listed) : select cs ls = .ok (ls.filter fun l => cs.all (·.holds l)) := by
  induction ls with
  | nil => rfl
  | cons l ls ih =>
    simp only [select, test_eq_all h, ih, List.filter_cons]
    rfl

end Condition

end FeedStore
