/-!
# Blank and control characters

Names, titles and addresses are stored without surrounding blanks. A character is blank when it has
the Unicode property `White_Space`; it is a control character when its general category is `Cc`.
`trim` removes blanks at both ends and nothing else, and applying it twice is applying it once.
-/

namespace FeedStore.Text

/-- The characters with the Unicode property `White_Space`. -/
def isBlank (c : Char) : Bool :=
  let n := c.toNat
  (9 ≤ n && n ≤ 13) || n == 0x20 || n == 0x85 || n == 0xa0 || n == 0x1680
    || (0x2000 ≤ n && n ≤ 0x200a) || n == 0x2028 || n == 0x2029 || n == 0x202f
    || n == 0x205f || n == 0x3000

/-- The characters of general category `Cc`. -/
def isControl (c : Char) : Bool :=
  c.toNat < 0x20 || (0x7f ≤ c.toNat && c.toNat < 0xa0)

/-- The characters left after the blanks at both ends are taken away. -/
def trimChars (cs : List Char) : List Char :=
  ((cs.dropWhile isBlank).reverse.dropWhile isBlank).reverse

def trim (s : String) : String :=
  String.ofList (trimChars s.toList)

def isBlankText (s : String) : Bool :=
  s.toList.all isBlank

/-! ## Laws -/

@[simp] theorem toList_trim (s : String) : (trim s).toList = trimChars s.toList := by
  simp [trim]

theorem dropWhile_eq_self_of_head {p : Char → Bool} {cs : List Char}
    (h : ∀ c ∈ cs.head?, p c = false) : cs.dropWhile p = cs := by
  cases cs with
  | nil => rfl
  | cons c cs => simp [h c (by simp)]

theorem head?_dropWhile_isBlank (cs : List Char) :
    ∀ c ∈ (cs.dropWhile isBlank).head?, isBlank c = false := by
  intro c hc
  have := List.head?_dropWhile_not isBlank cs
  cases h : (cs.dropWhile isBlank).head? with
  | none => simp [h] at hc
  | some d =>
    rw [h] at this hc
    cases hc
    simpa using this

/-- A trimmed text does not start with a blank. -/
theorem head?_trimChars (cs : List Char) :
    ∀ c ∈ (trimChars cs).head?, isBlank c = false := by
  intro c hc
  rw [trimChars, List.head?_reverse] at hc
  have hmem : c ∈ ((cs.dropWhile isBlank).reverse.dropWhile isBlank).getLast? := hc
  generalize hd : cs.dropWhile isBlank = ds at hmem
  have hsuf : ds.reverse.dropWhile isBlank <:+ ds.reverse := List.dropWhile_suffix _
  obtain ⟨pre, hpre⟩ := hsuf
  have hl : ds.reverse.getLast? = some c := by
    rw [← hpre, List.getLast?_append, Option.mem_def.1 hmem]
    rfl
  rw [List.getLast?_reverse] at hl
  exact head?_dropWhile_isBlank cs c (by rw [hd]; exact hl)

/-- A trimmed text does not end with a blank. -/
theorem getLast?_trimChars (cs : List Char) :
    ∀ c ∈ (trimChars cs).getLast?, isBlank c = false := by
  intro c hc
  rw [trimChars, List.getLast?_reverse] at hc
  exact head?_dropWhile_isBlank _ c hc

/-- Trimming leaves a text as it is that neither starts nor ends with a blank. -/
theorem trimChars_eq_self {cs : List Char} (hhead : ∀ c ∈ cs.head?, isBlank c = false)
    (hlast : ∀ c ∈ cs.getLast?, isBlank c = false) : trimChars cs = cs := by
  have hback : cs.reverse.dropWhile isBlank = cs.reverse :=
    dropWhile_eq_self_of_head (by
      intro c hc
      rw [List.head?_reverse] at hc
      exact hlast c hc)
  rw [trimChars, dropWhile_eq_self_of_head hhead, hback, List.reverse_reverse]

/-- Trimming a trimmed text changes nothing. -/
theorem trimChars_trimChars (cs : List Char) : trimChars (trimChars cs) = trimChars cs :=
  trimChars_eq_self (head?_trimChars cs) (getLast?_trimChars cs)

theorem trim_trim (s : String) : trim (trim s) = trim s := by
  simp [trim, trimChars_trimChars]

theorem dropWhile_isBlank_eq_nil_iff {cs : List Char} :
    cs.dropWhile isBlank = [] ↔ ∀ c ∈ cs, isBlank c = true := by
  induction cs with
  | nil => simp
  | cons c cs ih =>
    cases hc : isBlank c with
    | false => simp [hc]
    | true => simp [hc, ih]

/-- Nothing is left of a text just when all of it is blank. -/
theorem trim_eq_empty_iff (s : String) : trim s = "" ↔ isBlankText s = true := by
  rw [← String.toList_inj, toList_trim, trimChars, String.toList_empty, List.reverse_eq_nil_iff,
    dropWhile_isBlank_eq_nil_iff, isBlankText, List.all_eq_true]
  simp only [List.mem_reverse]
  constructor
  · intro h
    have hhead : (s.toList.dropWhile isBlank).head? = none := by
      refine Option.eq_none_iff_forall_not_mem.2 fun c hc => Bool.false_ne_true ?_
      rw [← head?_dropWhile_isBlank _ c hc, h c (List.mem_of_mem_head? hc)]
    exact dropWhile_isBlank_eq_nil_iff.1 (List.head?_eq_none_iff.1 hhead)
  · intro h c hc
    exact h c ((List.dropWhile_suffix _).subset hc)

end FeedStore.Text
