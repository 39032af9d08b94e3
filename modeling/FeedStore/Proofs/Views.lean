import FeedStore.Store.Entries

/-!
# What a reader gets of a stored entry

The tags of an entry are stored as one text. Reading that text gives back the list that was
written, whatever the tags are (`Json.TextArray.decode?_encode`), so a row that the store has
written itself is always readable (`Listed.view_eq`).
-/

namespace FeedStore

namespace Json

theorem skipSpace_cons {c : Char} {cs : List Char} (h : isSpace c = false) :
    skipSpace (c :: cs) = c :: cs := by
  simp [skipSpace, h]

theorem readLiteral_encode (s : String) (rest : List Char) :
    readLiteral ((encode s).toList ++ rest) = some (s, rest) := by
  have hq : isSpace '"' = false := by decide
  have hcs : (encode s).toList ++ rest = '"' :: (encodeChars s.toList ++ '"' :: rest) := by
    simp [encode]
  unfold readLiteral
  rw [hcs, skipSpace_cons hq]
  simp [readBody_encodeChars]

namespace TextArray

theorem toList_intercalate_encode (item next : String) (items : List String) :
    (",".intercalate ((item :: next :: items).map Json.encode)).toList
      = (Json.encode item).toList
        ++ ',' :: (",".intercalate ((next :: items).map Json.encode)).toList := by
  simp [String.intercalate_cons_cons]

/-- Written items are read up to the closing bracket, as long as there may be that many. -/
theorem readItems_encode (item : String) (items acc : List String) (rest : List Char) {n : Nat}
    (hn : items.length < n) :
    readItems n acc ((",".intercalate ((item :: items).map Json.encode)).toList ++ ']' :: rest)
      = some (acc.reverse ++ item :: items, rest) := by
  have hcomma : isSpace ',' = false := by decide
  have hclose : isSpace ']' = false := by decide
  induction items generalizing item acc n with
  | nil =>
      obtain ⟨n, rfl⟩ := Nat.exists_eq_add_of_lt hn
      simp only [List.map_cons, List.map_nil, String.intercalate_singleton, readItems,
        readLiteral_encode, skipSpace_cons hclose]
      simp
  | cons next items ih =>
      obtain ⟨n, rfl⟩ : ∃ m, n = m + 1 := ⟨n - 1, by omega⟩
      rw [toList_intercalate_encode, List.append_assoc, List.cons_append]
      simp only [readItems, readLiteral_encode, skipSpace_cons hcomma]
      rw [ih next (item :: acc) (by simpa using hn)]
      simp

theorem length_le_toList_intercalate (item : String) (items : List String) :
    items.length < (",".intercalate ((item :: items).map Json.encode)).toList.length := by
  induction items generalizing item with
  | nil => simp [Json.encode]
  | cons next items ih =>
      have := ih next
      rw [toList_intercalate_encode]
      simp only [List.length_append, List.length_cons] at this ⊢
      omega

theorem toList_intercalate_head (item : String) (items : List String) :
    ∃ cs, (",".intercalate ((item :: items).map Json.encode)).toList = '"' :: cs := by
  cases items with
  | nil => exact ⟨encodeChars item.toList ++ ['"'], by simp [Json.encode]⟩
  | cons next items =>
      rw [toList_intercalate_encode]
      exact ⟨encodeChars item.toList ++ '"' :: ',' :: _, by simp [Json.encode]; rfl⟩

/-- Reading gives back what was written. -/
theorem decode?_encode (items : List String) : decode? (encode items) = some items := by
  cases items with
  | nil => rfl
  | cons item items =>
      have hopen : isSpace '[' = false := by decide
      have hq : isSpace '"' = false := by decide
      have hcs : (encode (item :: items)).toList
          = '[' :: ((",".intercalate ((item :: items).map Json.encode)).toList ++ [']']) := by
        simp [encode]
      obtain ⟨cs, hhead⟩ := toList_intercalate_head item items
      have hread := readItems_encode item items [] []
        (Nat.lt_of_lt_of_le (length_le_toList_intercalate item items) (Nat.le_add_right _ 1))
      have harray : readArray (encode (item :: items)).toList = some (item :: items, []) := by
        unfold readArray
        rw [hcs, skipSpace_cons hopen]
        rw [hhead] at hread ⊢
        simpa [skipSpace_cons hq] using hread
      unfold decode?
      rw [harray]
      rfl

end TextArray

end Json

/-- The row with its feed as a reader gets it when status and tags are these. -/
def Listed.viewWith (l : Listed) (status : Status) (tags : List String) : EntryView :=
  { id := l.entry.id
    userId := l.entry.userId
    feedId := l.entry.feedId
    hash := l.entry.hash
    title := l.entry.title
    url := l.entry.url
    commentsUrl := l.entry.commentsUrl
    author := l.entry.author
    content := l.entry.content
    tags
    readingTime := l.entry.readingTime
    publishedAt := l.entry.publishedAt
    createdAt := l.entry.createdAt
    changedAt := l.entry.changedAt
    status
    starred := l.entry.starred
    shareCode := l.entry.shareCode
    feedTitle := l.feed.title
    categoryId := l.category.id
    enclosures := [] }

/-- A row with one of the three statuses and tags that were written as such can be read. -/
theorem Listed.view_eq {l : Listed} {status : Status} {tags : List String}
    (hs : l.entry.status = .known status) (ht : l.entry.tags = Json.TextArray.encode tags) :
    l.view = .ok (l.viewWith status tags) := by
  have hne : Json.TextArray.encode tags ≠ "" := fun h => by
    have := congrArg String.toList h
    simp [Json.TextArray.encode] at this
  unfold Listed.view
  simp only [hs, ht, hne, if_false, Json.TextArray.decode?_encode]
  rfl

end FeedStore
