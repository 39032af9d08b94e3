import FeedStore.Json.Literal
import FeedStore.Store

/-!
# Stores as text

A store is kept in a file as a text with one line for each row: the name of the table and then the
fields, texts as JSON literals and everything else as whole numbers. A line in front of the rows of a
table gives the last identifier that the table has given out. `decode?` reads what `encode` writes and
refuses every text that has other lines.
-/

namespace FeedStore.Image

inductive Field where
  | number (n : Int)
  | text (s : String)
  deriving DecidableEq, Repr

def Field.encode : Field → String
  | number n => toString n
  | text s => Json.encode s

/-- A line: a name and fields. -/
def encodeLine (name : String) (fields : List Field) : String :=
  " ".intercalate (name :: fields.map Field.encode) ++ "\n"

/-! ## Rows as fields -/

def ofBool (b : Bool) : Field := .number (if b then 1 else 0)

def toBool? (n : Int) : Option Bool :=
  if n = 0 then some false else if n = 1 then some true else none

/-- A number that may be missing; then the field is an empty text. -/
def ofOption : Option Int → Field
  | some n => .number n
  | none => .text ""

def toOption? : Field → Option (Option Int)
  | .number n => some (some n)
  | .text s => if s = "" then some none else none

def userFields (u : User) : List Field := [.number u.id, .text u.username, .number u.createdAt]

def user? : List Field → Option User
  | [.number id, .text username, .number createdAt] => some { id, username, createdAt }
  | _ => none

def categoryFields (c : Category) : List Field :=
  [.number c.id, .number c.userId, .text c.title, ofBool c.hideGlobally]

def category? : List Field → Option Category
  | [.number id, .number userId, .text title, .number hidden] =>
    (toBool? hidden).map fun hideGlobally => { id, userId, title, hideGlobally }
  | _ => none

def feedFields (f : Feed) : List Field :=
  [.number f.id, .number f.userId, .number f.categoryId, .text f.title, .text f.feedUrl,
    .text f.siteUrl, .text f.etagHeader, .text f.lastModifiedHeader, ofOption f.checkedAt,
    ofOption f.nextCheckAt, .text f.errorMessage, .number f.errorCount, ofBool f.hideGlobally]

def feed? : List Field → Option Feed
  | [.number id, .number userId, .number categoryId, .text title, .text feedUrl, .text siteUrl,
      .text etagHeader, .text lastModifiedHeader, checked, next, .text errorMessage,
      .number errorCount, .number hidden] => do
    let checkedAt ← toOption? checked
    let nextCheckAt ← toOption? next
    let hideGlobally ← toBool? hidden
    return {
      id, userId, categoryId, title, feedUrl, siteUrl, etagHeader, lastModifiedHeader, checkedAt,
      nextCheckAt, errorMessage, errorCount, hideGlobally }
  | _ => none

def entryFields (e : Entry) : List Field :=
  [.number e.id, .number e.userId, .number e.feedId, .text e.hash, .text e.title, .text e.url,
    .text e.commentsUrl, .text e.author, .text e.content, .text e.tags, .number e.readingTime,
    .number e.publishedAt, .number e.createdAt, .number e.changedAt, .text e.status.text,
    ofBool e.starred, .text e.shareCode]

def entry? : List Field → Option Entry
  | [.number id, .number userId, .number feedId, .text hash, .text title, .text url,
      .text commentsUrl, .text author, .text content, .text tags, .number readingTime,
      .number publishedAt, .number createdAt, .number changedAt, .text status, .number star,
      .text shareCode] =>
    (toBool? star).map fun starred =>
      { id, userId, feedId, hash, title, url, commentsUrl, author, content, tags, readingTime
        publishedAt, createdAt, changedAt, status := .ofText status, starred, shareCode }
  | _ => none

def enclosureFields (x : Enclosure) : List Field :=
  [.number x.id, .number x.userId, .number x.entryId, .text x.url, .text x.mimeType, .number x.size,
    .number x.mediaProgression]

def enclosure? : List Field → Option Enclosure
  | [.number id, .number userId, .number entryId, .text url, .text mimeType, .number size,
      .number mediaProgression] =>
    some { id, userId, entryId, url, mimeType, size, mediaProgression }
  | _ => none

/-! ## Writing -/

def encodeTable {α : Type} (name : String) (fields : α → List Field) (t : Table α) : String :=
  encodeLine "last" [.text name, .number t.lastId]
    ++ String.join (t.rows.map fun r => encodeLine name (fields r))

def encode (s : Store) : String :=
  encodeTable "users" userFields s.users ++ encodeTable "categories" categoryFields s.categories
    ++ encodeTable "feeds" feedFields s.feeds ++ encodeTable "entries" entryFields s.entries
    ++ encodeTable "enclosures" enclosureFields s.enclosures

/-! ## Reading -/

/-- The number that a word stands for. -/
def number? (word : List Char) : Option Int :=
  let (negative, digits) := match word with
    | '-' :: cs => (true, cs)
    | cs => (false, cs)
  if digits = [] || digits.any fun c => !('0' ≤ c && c ≤ '9') then none
  else
    let n : Nat := digits.foldl (fun n c => n * 10 + (c.toNat - 48)) 0
    some (if negative then -n else n)

/-- Reads the fields of a line, each behind a space; at most `fields` of them. -/
def readFields : Nat → List Char → Option (List Field)
  | _, [] => some []
  | 0, _ => none
  | fields + 1, ' ' :: '"' :: cs => do
    let (s, rest) ← Json.readLiteral ('"' :: cs)
    return .text s :: (← readFields fields rest)
  | fields + 1, ' ' :: cs => do
    let n ← number? (cs.takeWhile (· ≠ ' '))
    return .number n :: (← readFields fields (cs.dropWhile (· ≠ ' ')))
  | _, _ => none

/-- A table with one more row. -/
def push {α : Type} (t : Table α) (row : α) : Table α := { t with rows := t.rows ++ [row] }

/-- The store after one more line of its text. -/
def addLine (s : Store) (line : String) : Option Store := do
  let name := String.ofList (line.toList.takeWhile (· ≠ ' '))
  let fields ← readFields line.length (line.toList.dropWhile (· ≠ ' '))
  match name with
  | "users" => return { s with users := push s.users (← user? fields) }
  | "categories" => return { s with categories := push s.categories (← category? fields) }
  | "feeds" => return { s with feeds := push s.feeds (← feed? fields) }
  | "entries" => return { s with entries := push s.entries (← entry? fields) }
  | "enclosures" => return { s with enclosures := push s.enclosures (← enclosure? fields) }
  | "last" =>
    match fields with
    | [.text "users", .number n] => return { s with users.lastId := n }
    | [.text "categories", .number n] => return { s with categories.lastId := n }
    | [.text "feeds", .number n] => return { s with feeds.lastId := n }
    | [.text "entries", .number n] => return { s with entries.lastId := n }
    | [.text "enclosures", .number n] => return { s with enclosures.lastId := n }
    | _ => none
  | _ => none

/-- The store that a text stands for. -/
def decode? (text : String) : Option Store :=
  ((text.splitOn "\n").filter (· ≠ "")).foldlM addLine {}

end FeedStore.Image
