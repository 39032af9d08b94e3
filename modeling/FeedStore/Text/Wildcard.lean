import FeedStore.Text.Fold

/-!
# Wildcard patterns

In a pattern `%` stands for any run of characters, `_` for any one character, and every other
character for itself in either ASCII case. Text and pattern are seen up to their first `U+0000`, and
three characters at the end of the first plane look alike (`seen`).

The matcher cuts the pattern at each `%` into segments. The first segment has to stand at the start of
the text and the last one at its end; each segment between them is looked for from left to right, and
the leftmost place is always good enough, because it leaves the most text for the others. Main
statement: `matchChars_iff`, that this decides the relation `Matches`, which says what a pattern means
one character at a time.
-/

namespace FeedStore.Text.Wildcard

/-- A pattern of more bytes than this is refused when it is tried on a row. -/
def maxPatternBytes : Nat := 50000

/-- A character as the engine sees it when it compares a text with a pattern. Letters are folded, and
`U+FFFE` and `U+FFFF`, which are kept free for other uses, are taken for `U+FFFD`, which stands for what
cannot be read. -/
def seen (c : Char) : Char :=
  if 0xfffe ≤ c.toNat ∧ c.toNat ≤ 0xffff then '\ufffd' else fold c

/-- A character of the pattern other than `%` accepts a character of the text. -/
def accepts (p c : Char) : Bool :=
  p == '_' || seen p == seen c

/-- What a pattern means: `%` takes any number of characters, each other character takes one. -/
inductive Matches : List Char → List Char → Prop
  | nil : Matches [] []
  | skip {p cs} : Matches p cs → Matches ('%' :: p) cs
  | take {p c cs} : Matches ('%' :: p) cs → Matches ('%' :: p) (c :: cs)
  | char {d p c cs} : d ≠ '%' → accepts d c = true → Matches p cs → Matches (d :: p) (c :: cs)

/-- What is left of a text after a segment that stands at its start. -/
def dropSegment : List Char → List Char → Option (List Char)
  | [], cs => some cs
  | _ :: _, [] => none
  | d :: ds, c :: cs => if accepts d c then dropSegment ds cs else none

/-- What is left of a text after the leftmost place of a segment. -/
def seekSegment (segment : List Char) : List Char → Option (List Char)
  | [] => dropSegment segment []
  | c :: cs =>
    match dropSegment segment (c :: cs) with
    | some rest => some rest
    | none => seekSegment segment cs

/-- The segment stands at the end of the text. -/
def endsWith (segment cs : List Char) : Bool :=
  segment.length ≤ cs.length && dropSegment segment (cs.drop (cs.length - segment.length)) == some []

/-- The pattern cut at each `%`: the first segment and the others. -/
def segments : List Char → List Char × List (List Char)
  | [] => ([], [])
  | d :: ds =>
    let (first, others) := segments ds
    if d = '%' then ([], first :: others) else (d :: first, others)

/-- The segments stand in the text one behind the other, the last of them at its end. -/
def matchSegments (first : List Char) : List (List Char) → List Char → Bool
  | [], cs => endsWith first cs
  | second :: others, cs =>
    match seekSegment first cs with
    | some rest => matchSegments second others rest
    | none => false

/-- The pattern matches the whole text. -/
def matchChars (pattern text : List Char) : Bool :=
  match segments pattern with
  | (first, []) => dropSegment first text == some []
  | (first, second :: others) =>
    match dropSegment first text with
    | some rest => matchSegments second others rest
    | none => false

/-- The pattern matches the whole text, both up to their first `U+0000`. -/
def matchText (pattern text : String) : Bool :=
  matchChars (beforeNul pattern.toList) (beforeNul text.toList)

/-! ## The matcher decides what a pattern means -/

/-- A pattern whose segments are given. -/
def joinSegments (first : List Char) : List (List Char) → List Char
  | [] => first
  | second :: others => first ++ '%' :: joinSegments second others

theorem joinSegments_cons (d : Char) (first : List Char) (others : List (List Char)) :
    joinSegments (d :: first) others = d :: joinSegments first others := by
  cases others <;> simp [joinSegments]

theorem joinSegments_segments (p : List Char) :
    joinSegments (segments p).1 (segments p).2 = p := by
  induction p with
  | nil => rfl
  | cons d ds ih =>
    by_cases h : d = '%'
    · simp [segments, h, joinSegments, ih]
    · simp [segments, h, joinSegments_cons, ih]

/-- No segment holds a `%`. -/
theorem not_mem_segments (p : List Char) :
    '%' ∉ (segments p).1 ∧ ∀ s ∈ (segments p).2, '%' ∉ s := by
  induction p with
  | nil => simp [segments]
  | cons d ds ih =>
    by_cases h : d = '%'
    · simpa [segments, h] using ih
    · have h' : ¬ '%' = d := fun e => h e.symm
      simpa [segments, h, h'] using ih

theorem length_of_dropSegment {s cs rest : List Char} (h : dropSegment s cs = some rest) :
    cs.length = s.length + rest.length ∧ rest = cs.drop s.length := by
  induction s generalizing cs with
  | nil => simp_all [dropSegment]
  | cons d ds ih =>
    cases cs with
    | nil => simp [dropSegment] at h
    | cons c cs =>
      simp only [dropSegment] at h
      split at h
      · have := ih h
        simp only [List.length_cons, List.drop_succ_cons]
        exact ⟨by omega, this.2⟩
      · cases h

/-- A pattern that starts with a segment matches what the rest of it matches behind that segment. -/
theorem matches_append_iff {s p cs : List Char} (hs : '%' ∉ s) :
    Matches (s ++ p) cs ↔ ∃ rest, dropSegment s cs = some rest ∧ Matches p rest := by
  induction s generalizing cs with
  | nil => simp [dropSegment]
  | cons d ds ih =>
    have hd : d ≠ '%' := fun e => hs (by simp [e])
    have hds : '%' ∉ ds := fun e => hs (by simp [e])
    constructor
    · intro h
      cases h with
      | skip => exact absurd rfl hd
      | take => exact absurd rfl hd
      | char _ ha hm =>
        obtain ⟨rest, hr, hp⟩ := (ih hds).1 hm
        exact ⟨rest, by simp [dropSegment, ha, hr], hp⟩
    · rintro ⟨rest, hr, hp⟩
      cases cs with
      | nil => simp [dropSegment] at hr
      | cons c cs =>
        simp only [dropSegment] at hr
        split at hr
        · next ha => exact .char hd ha ((ih hds).2 ⟨rest, hr, hp⟩)
        · cases hr

/-- A pattern behind a `%` matches some tail of the text. -/
theorem matches_percent_iff {p cs : List Char} :
    Matches ('%' :: p) cs ↔ ∃ tail, tail <:+ cs ∧ Matches p tail := by
  constructor
  · intro h
    induction cs with
    | nil =>
      cases h with
      | skip h => exact ⟨[], List.suffix_refl _, h⟩
    | cons c cs ih =>
      cases h with
      | skip h => exact ⟨_, List.suffix_refl _, h⟩
      | take h =>
        obtain ⟨tail, ht, hm⟩ := ih h
        exact ⟨tail, ht.trans (List.suffix_cons c cs), hm⟩
      | char hd _ _ => exact absurd rfl hd
  · rintro ⟨tail, ⟨front, rfl⟩, hm⟩
    induction front with
    | nil => exact .skip hm
    | cons c front ih => exact .take ih

/-- The leftmost place of a segment leaves at least as much text as any other. -/
theorem suffix_of_seekSegment {s cs tail rest : List Char} (ht : tail <:+ cs)
    (h : dropSegment s tail = some rest) :
    ∃ more, seekSegment s cs = some more ∧ rest <:+ more := by
  induction cs with
  | nil =>
    obtain rfl := List.suffix_nil.1 ht
    exact ⟨rest, by simpa [seekSegment] using h, List.suffix_refl _⟩
  | cons c cs ih =>
    cases hd : dropSegment s (c :: cs) with
    | some more =>
      refine ⟨more, by simp [seekSegment, hd], ?_⟩
      have hr : rest <:+ c :: cs := by
        rw [(length_of_dropSegment h).2]
        exact (List.drop_suffix _ _).trans ht
      have hm : more <:+ c :: cs := by
        rw [(length_of_dropSegment hd).2]
        exact List.drop_suffix _ _
      refine List.suffix_of_suffix_length_le hr hm ?_
      have h1 := (length_of_dropSegment h).1
      have h2 := (length_of_dropSegment hd).1
      have h3 := ht.length_le
      omega
    | none =>
      rcases List.suffix_cons_iff.1 ht with rfl | ht
      · rw [hd] at h
        cases h
      · obtain ⟨more, hm, hs⟩ := ih ht
        exact ⟨more, by simp [seekSegment, hd, hm], hs⟩

/-- What is left after the leftmost place of a segment is left after some place of it. -/
theorem exists_of_seekSegment {s cs rest : List Char} (h : seekSegment s cs = some rest) :
    ∃ tail, tail <:+ cs ∧ dropSegment s tail = some rest := by
  induction cs with
  | nil => exact ⟨[], List.suffix_refl _, by simpa [seekSegment] using h⟩
  | cons c cs ih =>
    simp only [seekSegment] at h
    split at h
    · next more hd =>
      cases h
      exact ⟨_, List.suffix_refl _, hd⟩
    · obtain ⟨tail, ht, hd⟩ := ih h
      exact ⟨tail, ht.trans (List.suffix_cons c cs), hd⟩

/-- A segment stands at the end of a text when it makes up some tail of it. -/
theorem endsWith_iff {s cs : List Char} :
    endsWith s cs = true ↔ ∃ tail, tail <:+ cs ∧ dropSegment s tail = some [] := by
  simp only [endsWith, Bool.and_eq_true, decide_eq_true_eq, beq_iff_eq]
  constructor
  · rintro ⟨_, h⟩
    exact ⟨_, List.drop_suffix _ _, h⟩
  · rintro ⟨tail, ht, h⟩
    have hl := (length_of_dropSegment h).1
    have hle := ht.length_le
    simp only [List.length_nil, Nat.add_zero] at hl
    refine ⟨by omega, ?_⟩
    rw [← hl, ← List.suffix_iff_eq_drop.1 ht]
    exact h

theorem matches_self_iff {s cs : List Char} (hs : '%' ∉ s) :
    Matches s cs ↔ dropSegment s cs = some [] := by
  have := @matches_append_iff s [] cs hs
  rw [List.append_nil] at this
  rw [this]
  constructor
  · rintro ⟨rest, hr, hm⟩
    cases hm
    exact hr
  · exact fun h => ⟨[], h, .nil⟩

/-- The segments behind a `%` stand in the text exactly when the pattern made of them matches a tail of
it. -/
theorem matchSegments_iff {first : List Char} {others : List (List Char)} {cs : List Char}
    (hf : '%' ∉ first) (ho : ∀ s ∈ others, '%' ∉ s) :
    matchSegments first others cs = true
      ↔ ∃ tail, tail <:+ cs ∧ Matches (joinSegments first others) tail := by
  induction others generalizing first cs with
  | nil => simp [matchSegments, endsWith_iff, joinSegments, matches_self_iff hf]
  | cons second others ih =>
    have hs := ho second (by simp)
    have ho' : ∀ s ∈ others, '%' ∉ s := fun s h => ho s (by simp [h])
    have key : ∀ tail, Matches (joinSegments first (second :: others)) tail
        ↔ ∃ rest, dropSegment first tail = some rest
          ∧ ∃ t, t <:+ rest ∧ Matches (joinSegments second others) t := by
      intro tail
      rw [joinSegments, matches_append_iff hf]
      simp only [matches_percent_iff]
    simp only [key]
    constructor
    · intro h
      simp only [matchSegments] at h
      split at h
      · next rest hr =>
        obtain ⟨tail, ht, hd⟩ := exists_of_seekSegment hr
        exact ⟨tail, ht, rest, hd, (ih hs ho').1 h⟩
      · cases h
    · rintro ⟨tail, ht, rest, hd, t, htr, hm⟩
      obtain ⟨more, hmore, hsuf⟩ := suffix_of_seekSegment ht hd
      simp only [matchSegments, hmore]
      exact (ih hs ho').2 ⟨t, htr.trans hsuf, hm⟩

/-- The matcher decides what a pattern means. -/
theorem matchChars_iff {p cs : List Char} : matchChars p cs = true ↔ Matches p cs := by
  have hj := joinSegments_segments p
  obtain ⟨hf, ho⟩ := not_mem_segments p
  unfold matchChars
  split
  · next first hs =>
    rw [hs] at hj hf
    simp only [joinSegments] at hj hf
    subst hj
    simp [matches_self_iff hf]
  · next first second others hs =>
    rw [hs] at hj hf ho
    simp only [joinSegments] at hj hf ho
    rw [← hj, matches_append_iff hf]
    have hsec := ho second (by simp)
    have hoth : ∀ s ∈ others, '%' ∉ s := fun s h => ho s (by simp [h])
    split
    · next rest hr => simp [hr, matches_percent_iff, matchSegments_iff hsec hoth]
    · next hr => simp [hr]

end FeedStore.Text.Wildcard
