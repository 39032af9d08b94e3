/-!
# TOML documents as data

A document is a table of named values. Tables come about in four ways, and how a table came about
decides who may add to it later: nobody may add to an inline table; a table with a header of its own
takes the lines under that header; a table that only stands in the path of a header may still get one;
a table that only stands in the path of a dotted key may get more dotted keys. Of numbers with a
fraction and of dates only the kind is kept.
-/

namespace FeedStore.Toml

/-- How a table came about. -/
inductive Form where
  | inline
  | header
  | implied
  | dotted
  deriving DecidableEq, Repr

/-- A value of a document. -/
inductive Value where
  | text (s : String)
  | integer (n : Int)
  | decimal
  | boolean (b : Bool)
  | moment
  | array (items : List Value)
  | table (form : Form) (entries : List (String × Value))
  /-- Tables under repeated headers of one name, the newest first; there is at least one. -/
  | tables (newest : List (String × Value)) (older : List (List (String × Value)))

/-- Values by their keys, no key twice, in the order in which the keys first appear. -/
abbrev Entries : Type := List (String × Value)

namespace Entries

def get? (es : Entries) (k : String) : Option Value := (es.find? fun e => e.1 == k).map (·.2)

/-- Gives a key a value, in the place of the one it had or behind all others. -/
def put (es : Entries) (k : String) (v : Value) : Entries :=
  match es with
  | [] => [(k, v)]
  | e :: es => if e.1 = k then (k, v) :: es else e :: put es k v

def keys (es : Entries) : List String := es.map (·.1)

/-- Changes what lies at the end of a path, setting up the tables on the way that are not there yet. A
path of dotted keys does not lead through tables that have a header; no path leads through an inline
table or another value; a path through repeated tables leads through the newest. -/
def within (dotted : Bool) (change : Form → Entries → Option Entries) :
    List String → Form → Entries → Option Entries
  | [], form, es => change form es
  | k :: path, _, es =>
    match es.get? k with
    | none =>
      let form := if dotted then Form.dotted else .implied
      (within dotted change path form []).map fun inner => es.put k (.table form inner)
    | some (.table .inline _) => none
    | some (.table form inner) =>
      if dotted && form == .header then none
      else (within dotted change path form inner).map fun inner => es.put k (.table form inner)
    | some (.tables newest older) =>
      (within dotted change path .header newest).map fun newest => es.put k (.tables newest older)
    | some _ => none

/-- Adds a new key. A key behind a dotted path goes into a table that such a path has set up, and no key
is given twice. -/
def addKey (path : List String) (k : String) (v : Value) (form : Form) (es : Entries) :
    Option Entries :=
  if !path.isEmpty && form != .dotted then none
  else if (es.get? k).isSome then none
  else some (es.put k v)

/-- Adds a value under a dotted key: the path of the key and its last part. -/
def addDotted (path : List String) (k : String) (v : Value) (es : Entries) : Option Entries :=
  within true (addKey path k v) path .header es

/-- Gives a table a header of its own: a new table, or one that so far was only implied. -/
def openTable (k : String) (es : Entries) : Option Entries :=
  match es.get? k with
  | none => some (es.put k (.table .header []))
  | some (.table .implied inner) => some (es.put k (.table .header inner))
  | some _ => none

/-- Adds another table under a repeated header. -/
def openNext (k : String) (es : Entries) : Option Entries :=
  match es.get? k with
  | none => some (es.put k (.tables [] []))
  | some (.tables newest older) => some (es.put k (.tables [] (newest :: older)))
  | some _ => none

end Entries

end FeedStore.Toml
