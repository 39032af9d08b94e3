import FeedStore.Json.Literal

/-!
# The status of an entry

An entry is unread, read or removed. It starts unread; the status operations may move it from any
status to any other, and only removed entries are ever swept away. A status is written as its name in
lower case, and an encoded status is that name as a JSON string, or as the single key of an object
whose value is `null`.
-/

namespace FeedStore

/-- Where an entry stands in its reader's list. -/
inductive Status where
  | unread
  | read
  | removed
  deriving DecidableEq, Repr, Inhabited

namespace Status

def text : Status → String
  | unread => "unread"
  | read => "read"
  | removed => "removed"

def ofText? (s : String) : Option Status :=
  if s = "unread" then some unread
  else if s = "read" then some read
  else if s = "removed" then some removed
  else none

/-- The encoded status: its name as a string literal. -/
def toJson (s : Status) : String := Json.encode s.text

/-- What is left after the given characters in front, if they stand there. -/
def afterWord? : List Char → List Char → Option (List Char)
  | [], cs => some cs
  | w :: ws, c :: cs => if w = c then afterWord? ws cs else none
  | _ :: _, [] => none

/-- Reads an encoded status: a name, or an object with a name as its only key and the value `null`. -/
def ofJson? (s : String) : Option Status := do
  match Json.skipSpace s.toList with
  | '\x7b' :: rest =>
    let (name, rest) ← Json.readLiteral rest
    let status ← ofText? name
    let rest ← afterWord? [':'] (Json.skipSpace rest)
    let rest ← afterWord? ['n', 'u', 'l', 'l'] (Json.skipSpace rest)
    let rest ← afterWord? ['\x7d'] (Json.skipSpace rest)
    if Json.atEnd rest then some status else none
  | cs =>
    let (name, rest) ← Json.readLiteral cs
    let status ← ofText? name
    if Json.atEnd rest then some status else none

@[simp] theorem ofText?_text (s : Status) : ofText? s.text = some s := by
  cases s <;> decide

theorem ofText?_eq_some {s : String} {t : Status} : ofText? s = some t ↔ s = t.text := by
  constructor
  · intro h
    simp only [ofText?] at h
    split at h
    · cases h; assumption
    · split at h
      · cases h; assumption
      · split at h
        · cases h; assumption
        · cases h
  · rintro rfl
    simp

end Status

/-- What the status field of a stored entry holds: one of the three names, or a text that something
other than the store has written there. -/
inductive StoredStatus where
  | known (status : Status)
  | other (text : String)
  deriving DecidableEq, Repr

namespace StoredStatus

def text : StoredStatus → String
  | known s => s.text
  | other t => t

/-- The field that holds a text. -/
def ofText (t : String) : StoredStatus :=
  match Status.ofText? t with
  | some s => known s
  | none => other t

theorem text_ofText (t : String) : (ofText t).text = t := by
  unfold ofText
  split
  · next s h => exact (Status.ofText?_eq_some.1 h).symm
  · rfl

end StoredStatus

end FeedStore
