import FeedStore.Text.Blank
import FeedStore.Toml.Document
import Mathlib.Data.List.Nodup

/-!
# The keys of a document

A table gets its keys one at a time, and a key that is there is given a new value in its place. So no
table of a document has a key twice, whether it comes from an inline table, from a header, from the path
of a dotted key or from a repeated header, and however deep it lies. The invariant is `Entries.Distinct`:
every way to change a table keeps it (`Entries.Distinct.within` for a path of any length), every value
that is read has it (`Document.distinct_readValue`, by the depth), and so does what a whole text stands
for (`Document.distinct_of_parse?`).

A text with nothing but blanks need not be a document, since there are more blanks than a document may
have between its lines. If it is one, it has no keys (`Document.eq_nil_of_isBlankText`).
-/

namespace FeedStore.Toml

/-- No table within the value has a key twice. -/
inductive Value.Distinct : Value → Prop where
  | text (s : String) : Distinct (.text s)
  | integer (n : Int) : Distinct (.integer n)
  | decimal : Distinct .decimal
  | boolean (b : Bool) : Distinct (.boolean b)
  | moment : Distinct .moment
  | array {items : List Value} (h : ∀ v ∈ items, Distinct v) : Distinct (.array items)
  | table {form : Form} {es : List (String × Value)} (keys : (Entries.keys es).Nodup)
      (values : ∀ e ∈ es, Distinct e.2) : Distinct (.table form es)
  | tables {newest : List (String × Value)} {older : List (List (String × Value))}
      (keys : ∀ es ∈ newest :: older, (Entries.keys es).Nodup)
      (values : ∀ es ∈ newest :: older, ∀ e ∈ es, Distinct e.2) : Distinct (.tables newest older)

/-- No key stands twice, neither here nor in a table within one of the values. -/
structure Entries.Distinct (es : Entries) : Prop where
  keys : es.keys.Nodup
  values : ∀ e ∈ es, e.2.Distinct

theorem Value.distinct_table {form : Form} {es : Entries} :
    (Value.table form es).Distinct ↔ es.Distinct := by
  constructor
  · intro h
    cases h with
    | table keys values => exact ⟨keys, values⟩
  · rintro ⟨keys, values⟩
    exact .table keys values

theorem Value.distinct_tables {newest : Entries} {older : List Entries} :
    (Value.tables newest older).Distinct ↔ ∀ es ∈ newest :: older, Entries.Distinct es := by
  constructor
  · intro h
    cases h with
    | tables keys values => exact fun es hes => ⟨keys es hes, values es hes⟩
  · intro h
    exact .tables (fun es hes => (h es hes).keys) fun es hes => (h es hes).values

namespace Entries

variable {es es' : Entries} {k : String} {v : Value}

/-! ## Looking up and putting in -/

theorem keys_cons (e : String × Value) (es : Entries) : keys (e :: es) = e.1 :: es.keys := rfl

theorem mem_of_get? (h : es.get? k = some v) : (k, v) ∈ es := by
  obtain ⟨e, he, rfl⟩ := Option.map_eq_some_iff.1 h
  have hkey : (e.1 == k) = true := List.find?_some (p := fun d : String × Value => d.1 == k) he
  rw [← eq_of_beq hkey]
  exact List.mem_of_find?_eq_some he

theorem mem_put {e : String × Value} (h : e ∈ es.put k v) : e = (k, v) ∨ e ∈ es := by
  induction es with
  | nil => exact .inl (List.mem_singleton.1 h)
  | cons d es ih =>
      rw [put] at h
      split at h
      · exact (List.mem_cons.1 h).imp_right (List.mem_cons_of_mem d)
      · rcases List.mem_cons.1 h with rfl | h
        · exact .inr List.mem_cons_self
        · exact (ih h).imp_right (List.mem_cons_of_mem d)

/-- A key that is there stays in its place, another one comes behind all others. -/
theorem keys_put (es : Entries) (k : String) (v : Value) :
    (es.put k v).keys = if k ∈ es.keys then es.keys else es.keys ++ [k] := by
  induction es with
  | nil => rfl
  | cons e es ih =>
      rw [put]
      by_cases he : e.1 = k
      · rw [if_pos he, keys_cons, keys_cons, if_pos (List.mem_cons.2 (.inl he.symm)), he]
      · have hiff : k ∈ e.1 :: keys es ↔ k ∈ keys es := by
          rw [List.mem_cons, or_iff_right (Ne.symm he)]
        rw [if_neg he, keys_cons, keys_cons, ih]
        simp only [hiff]
        split
        · rfl
        · rfl

namespace Distinct

theorem nil : Entries.Distinct [] := ⟨List.nodup_nil, fun _ he => nomatch he⟩

theorem of_get? (h : es.Distinct) (hk : es.get? k = some v) : v.Distinct :=
  h.values _ (mem_of_get? hk)

theorem put (h : es.Distinct) (hv : v.Distinct) : (es.put k v).Distinct where
  keys := by
    rw [keys_put]
    split
    · exact h.keys
    · rename_i hk
      exact List.nodup_append.2 ⟨h.keys, List.nodup_singleton k, fun a ha b hb hab =>
        hk (List.mem_singleton.1 hb ▸ hab ▸ ha)⟩
  values := by
    intro e he
    rcases mem_put he with rfl | he
    · exact hv
    · exact h.values e he

/-! ## Changing a table -/

/-- A change at the end of a path leaves no key twice if it leaves none where it is made. -/
theorem within {dotted : Bool} {change : Form → Entries → Option Entries}
    (hchange : ∀ form {a b : Entries}, a.Distinct → change form a = some b → b.Distinct) :
    ∀ (path : List String) (form : Form) {a b : Entries}, a.Distinct →
      Entries.within dotted change path form a = some b → b.Distinct
  | [], form, _, _, ha, h => hchange form ha h
  | k :: path, _, a, b, ha, h => by
      rw [Entries.within] at h
      -- the first key is absent, a table or a row of tables, and then the rest of the path lies inside
      split at h
      · obtain ⟨inner, hinner, rfl⟩ := Option.map_eq_some_iff.1 h
        exact ha.put (Value.distinct_table.2 (within hchange path _ .nil hinner))
      · cases h
      · rename_i form inner hget
        split at h
        · cases h
        · obtain ⟨inner', hinner, rfl⟩ := Option.map_eq_some_iff.1 h
          have hinside := Value.distinct_table.1 (ha.of_get? hget)
          exact ha.put (Value.distinct_table.2 (within hchange path _ hinside hinner))
      · rename_i newest older hget
        obtain ⟨newest', hnewest, rfl⟩ := Option.map_eq_some_iff.1 h
        have hall := Value.distinct_tables.1 (ha.of_get? hget)
        refine ha.put (Value.distinct_tables.2 (List.forall_mem_cons.2 ⟨?_, ?_⟩))
        · exact within hchange path _ (hall newest List.mem_cons_self) hnewest
        · exact fun es hes => hall es (List.mem_cons_of_mem _ hes)
      · cases h

theorem addKey {path : List String} {form : Form} (h : es.Distinct) (hv : v.Distinct)
    (heq : es.addKey path k v form = some es') : es'.Distinct := by
  unfold Entries.addKey at heq
  split at heq
  · cases heq
  · split at heq
    · cases heq
    · cases heq
      exact h.put hv

theorem addDotted {path : List String} (h : es.Distinct) (hv : v.Distinct)
    (heq : es.addDotted path k v = some es') : es'.Distinct :=
  within (fun _ _ _ ha hb => ha.addKey hv hb) path .header h heq

theorem openTable (h : es.Distinct) (heq : es.openTable k = some es') : es'.Distinct := by
  unfold Entries.openTable at heq
  split at heq
  · cases heq
    exact h.put (Value.distinct_table.2 .nil)
  · rename_i inner hget
    cases heq
    exact h.put (Value.distinct_table.2 (Value.distinct_table.1 (h.of_get? hget)))
  · cases heq

theorem openNext (h : es.Distinct) (heq : es.openNext k = some es') : es'.Distinct := by
  unfold Entries.openNext at heq
  split at heq
  · cases heq
    exact h.put (Value.distinct_tables.2 (List.forall_mem_singleton.2 .nil))
  · rename_i newest older hget
    cases heq
    exact h.put (Value.distinct_tables.2 (List.forall_mem_cons.2
      ⟨.nil, Value.distinct_tables.1 (h.of_get? hget)⟩))
  · cases heq

end Distinct

end Entries

namespace Document

/-! ## Reading values -/

/-- No value that is read has a table with a key twice. -/
def ValueReader.Distinct (read : ValueReader) : Prop :=
  ∀ ⦃cs rest : List Char⦄ ⦃v : Value⦄, read cs = some (v, rest) → v.Distinct

theorem distinct_ofScalar (s : Scalar) : (ofScalar s).Distinct := by
  cases s with
  | integer n => exact .integer n
  | decimal => exact .decimal
  | boolean b => exact .boolean b
  | moment => exact .moment

theorem distinct_readWord : ValueReader.Distinct readWord := by
  intro cs rest v h
  rw [readWord] at h
  obtain ⟨scalar, -, h⟩ := Option.bind_eq_some_iff.1 h
  split at h
  · split at h
    · split at h
      · cases h
        exact .moment
      · cases h
    · cases h
      exact distinct_ofScalar scalar
  · cases h
    exact distinct_ofScalar scalar

theorem distinct_readItems {read : ValueReader} (hread : ValueReader.Distinct read) :
    ∀ (items : Nat) {acc : List Value}, (∀ v ∈ acc, v.Distinct) →
      ValueReader.Distinct (readItems read items acc)
  | 0, _, _ => fun _ _ _ h => nomatch h
  | items + 1, acc, hacc => by
      intro cs rest v h
      rw [readItems] at h
      dsimp only at h
      split at h
      · cases h
        exact .array fun v hv => hacc v (List.mem_reverse.1 hv)
      · split at h
        · cases h
        · rename_i value rest' hvalue
          have hmore : ∀ v ∈ value :: acc, v.Distinct := List.forall_mem_cons.2 ⟨hread hvalue, hacc⟩
          split at h
          · exact distinct_readItems hread items hmore h
          · cases h
            exact .array fun v hv => hmore v (List.mem_reverse.1 hv)
          · cases h

theorem distinct_readPair? {read : ValueReader} (hread : ValueReader.Distinct read)
    {cs rest : List Char} {key : Key} {v : Value}
    (h : readPair? read cs = some ((key, v), rest)) : v.Distinct := by
  unfold readPair? at h
  obtain ⟨⟨key', rest₁⟩, -, h⟩ := Option.bind_eq_some_iff.1 h
  obtain ⟨rest₂, -, h⟩ := Option.bind_eq_some_iff.1 h
  obtain ⟨⟨value, rest₃⟩, hvalue, h⟩ := Option.bind_eq_some_iff.1 h
  cases h
  exact hread hvalue

theorem distinct_readPairs {read : ValueReader} (hread : ValueReader.Distinct read) :
    ∀ (pairs : Nat) {es : Entries}, es.Distinct → ValueReader.Distinct (readPairs read pairs es)
  | 0, _, _ => fun _ _ _ h => nomatch h
  | pairs + 1, es, hes => by
      intro cs rest v h
      rw [readPairs] at h
      dsimp only at h
      split at h
      · cases h
      · rename_i key value rest' hpair
        split at h
        · cases h
        · rename_i es' hadd
          have hes' := hes.addDotted (distinct_readPair? hread hpair) hadd
          split at h
          · exact distinct_readPairs hread pairs hes' h
          · cases h
            exact Value.distinct_table.2 hes'
          · cases h

/-- By the depth: the items of arrays and the values of inline tables nest less deeply. -/
theorem distinct_readValue : ∀ depth : Nat, ValueReader.Distinct (readValue depth)
  | 0 => fun _ _ _ h => nomatch h
  | depth + 1 => by
      have ih := distinct_readValue depth
      intro cs rest v h
      unfold readValue at h
      split at h
      · obtain ⟨r, -, hr⟩ := Option.map_eq_some_iff.1 h
        cases hr
        exact .text r.1
      · obtain ⟨r, -, hr⟩ := Option.map_eq_some_iff.1 h
        cases hr
        exact .text r.1
      · split at h
        · cases h
        · exact distinct_readItems ih _ (List.forall_mem_nil _) h
      · split at h
        · cases h
        · split at h
          · cases h
            exact Value.distinct_table.2 .nil
          · exact distinct_readPairs ih _ .nil h
      · exact distinct_readWord h

/-! ## Reading lines -/

namespace Reading

variable {r r' : Reading} {cs rest : List Char}

theorem distinct_changeAt {path : List String} {change : Entries → Option Entries} {es : Entries}
    (hchange : ∀ {a b : Entries}, a.Distinct → change a = some b → b.Distinct)
    (hr : r.root.Distinct) (h : r.changeAt path change = some es) : es.Distinct :=
  Entries.Distinct.within (fun _ _ _ ha hb => hchange ha hb) path .header hr h

theorem distinct_add {key : Key} {value : Value} (hr : r.root.Distinct) (hv : value.Distinct)
    (h : r.add key value = some r') : r'.root.Distinct := by
  obtain ⟨root, hroot, h⟩ := Option.bind_eq_some_iff.1 h
  cases h
  exact distinct_changeAt (fun ha hb => ha.addDotted hv hb) hr hroot

theorem distinct_openTable {key : Key} (hr : r.root.Distinct) (h : r.openTable key = some r') :
    r'.root.Distinct := by
  obtain ⟨root, hroot, h⟩ := Option.bind_eq_some_iff.1 h
  cases h
  exact distinct_changeAt (fun ha hb => ha.openTable hb) hr hroot

theorem distinct_openNext {key : Key} (hr : r.root.Distinct) (h : r.openNext key = some r') :
    r'.root.Distinct := by
  obtain ⟨root, hroot, h⟩ := Option.bind_eq_some_iff.1 h
  cases h
  exact distinct_changeAt (fun ha hb => ha.openNext hb) hr hroot

theorem distinct_line (hr : r.root.Distinct) (h : r.line cs = some (r', rest)) :
    r'.root.Distinct := by
  unfold line at h
  split at h
  · obtain ⟨⟨key, rest₁⟩, -, h⟩ := Option.bind_eq_some_iff.1 h
    obtain ⟨rest₂, -, h⟩ := Option.bind_eq_some_iff.1 h
    obtain ⟨rest₃, -, h⟩ := Option.bind_eq_some_iff.1 h
    obtain ⟨next, hnext, h⟩ := Option.bind_eq_some_iff.1 h
    obtain ⟨rest₄, -, h⟩ := Option.bind_eq_some_iff.1 h
    cases h
    exact distinct_openNext hr hnext
  · obtain ⟨⟨key, rest₁⟩, -, h⟩ := Option.bind_eq_some_iff.1 h
    obtain ⟨rest₂, -, h⟩ := Option.bind_eq_some_iff.1 h
    obtain ⟨next, hnext, h⟩ := Option.bind_eq_some_iff.1 h
    obtain ⟨rest₃, -, h⟩ := Option.bind_eq_some_iff.1 h
    cases h
    exact distinct_openTable hr hnext
  · obtain ⟨⟨⟨key, value⟩, rest₁⟩, hpair, h⟩ := Option.bind_eq_some_iff.1 h
    obtain ⟨rest₂, -, h⟩ := Option.bind_eq_some_iff.1 h
    obtain ⟨next, hnext, h⟩ := Option.bind_eq_some_iff.1 h
    cases h
    exact distinct_add hr (distinct_readPair? (distinct_readValue _) hpair) hnext

theorem distinct_all : ∀ (lines : Nat) {r r' : Reading} {cs : List Char}, r.root.Distinct →
    all lines r cs = some r' → r'.root.Distinct
  | 0, r, r', cs, hr, h => by
      rw [all] at h
      split at h
      · cases h
        exact hr
      · cases h
  | lines + 1, r, r', cs, hr, h => by
      rw [all] at h
      split at h
      · cases h
        exact hr
      · split at h
        · cases h
          exact hr
        · cases h
      · split at h
        · rename_i hline
          exact distinct_all lines (distinct_line hr hline) h
        · cases h

end Reading

/-- No table of a document has a key twice. -/
theorem distinct_of_parse? {text : String} {es : Entries} (h : parse? text = some es) :
    es.Distinct := by
  obtain ⟨r, hr, rfl⟩ := Option.map_eq_some_iff.1 h
  exact Reading.distinct_all _ .nil hr

/-! ## Blank texts -/

section Blank

variable {c : Char} {cs : List Char}

theorem toNat_of_isBlank (h : Text.isBlank c = true) : c.toNat ≤ 0x20 ∨ 0x85 ≤ c.toNat := by
  simp only [Text.isBlank, Bool.or_eq_true, Bool.and_eq_true, decide_eq_true_eq, beq_iff_eq] at h
  omega

theorem isBareKeyChar_of_isBlank (h : Text.isBlank c = true) : isBareKeyChar c = false := by
  rw [Bool.eq_false_iff]
  intro hbare
  simp only [isBareKeyChar, Bool.or_eq_true, Bool.and_eq_true, decide_eq_true_eq, beq_iff_eq] at hbare
  have hrange : 0x2d ≤ c.toNat ∧ c.toNat ≤ 0x7a := by
    rcases hbare with (((⟨hlow, hhigh⟩ | ⟨hlow, hhigh⟩) | ⟨hlow, hhigh⟩) | rfl) | rfl
    · exact ⟨Nat.le_trans (by decide) (show 65 ≤ c.toNat from hlow),
        Nat.le_trans (show c.toNat ≤ 90 from hhigh) (by decide)⟩
    · exact ⟨Nat.le_trans (by decide) (show 97 ≤ c.toNat from hlow), show c.toNat ≤ 122 from hhigh⟩
    · exact ⟨Nat.le_trans (by decide) (show 48 ≤ c.toNat from hlow),
        Nat.le_trans (show c.toNat ≤ 57 from hhigh) (by decide)⟩
    · decide
    · decide
  have hc := toNat_of_isBlank h
  omega

theorem afterBreak?_suffix {rest : List Char} (h : afterBreak? cs = some rest) : rest <:+ cs := by
  unfold afterBreak? at h
  split at h
  · cases h
    exact List.suffix_cons _ _
  · cases h
    exact (List.suffix_cons _ _).trans (List.suffix_cons _ _)
  · cases h

theorem skipAllSpace_suffix (cs : List Char) : skipAllSpace cs <:+ cs := by
  fun_induction skipAllSpace cs with
  | case1 cs ih => exact ih.trans (List.suffix_cons _ _)
  | case2 cs ih => exact ih.trans (List.suffix_cons _ _)
  | case3 cs ih => exact ih.trans (List.suffix_cons _ _)
  | case4 cs ih => exact ih.trans ((List.suffix_cons _ _).trans (List.suffix_cons _ _))
  | case5 cs rest h _ ih =>
      have hcomment := (afterBreak?_suffix h).trans (List.dropWhile_suffix _)
      exact ih.trans (hcomment.trans (List.suffix_cons _ _))
  | case6 cs => exact List.suffix_refl _
  | case7 cs => exact List.suffix_refl _

/-- No key starts with a blank. -/
theorem readKeyPart?_of_isBlank (hcs : ∀ c ∈ cs, Text.isBlank c = true) :
    readKeyPart? cs = none := by
  unfold readKeyPart?
  split
  · exact absurd (hcs '"' List.mem_cons_self) (by decide)
  · exact absurd (hcs '\'' List.mem_cons_self) (by decide)
  · have hword : cs.takeWhile isBareKeyChar = [] := by
      cases cs with
      | nil => rfl
      | cons c cs =>
          exact List.takeWhile_cons_of_neg
            (Bool.eq_false_iff.1 (isBareKeyChar_of_isBlank (hcs c List.mem_cons_self)))
    rw [hword]

theorem readKeyParts_of_isBlank (hcs : ∀ c ∈ cs, Text.isBlank c = true) (parts : Nat) :
    readKeyParts parts cs = none := by
  have hskip : readKeyPart? (skipSpace cs) = none :=
    readKeyPart?_of_isBlank fun c hc => hcs c ((List.dropWhile_suffix _).subset hc)
  cases parts with
  | zero => rfl
  | succ parts =>
      rw [readKeyParts, hskip]
      rfl

theorem readPair?_of_isBlank (read : ValueReader) (hcs : ∀ c ∈ cs, Text.isBlank c = true) :
    readPair? read cs = none := by
  rw [readPair?, readKey?, readKeyParts_of_isBlank hcs]
  rfl

theorem Reading.line_of_isBlank (r : Reading) (hcs : ∀ c ∈ cs, Text.isBlank c = true) :
    r.line cs = none := by
  unfold line
  split
  · exact absurd (hcs '[' List.mem_cons_self) (by decide)
  · exact absurd (hcs '[' List.mem_cons_self) (by decide)
  · rw [readPair?_of_isBlank _ hcs]
    rfl

theorem Reading.all_of_isBlank {r r' : Reading} (hcs : ∀ c ∈ cs, Text.isBlank c = true)
    {lines : Nat} (h : all (lines + 1) r cs = some r') : r' = r := by
  have hskip : ∀ c ∈ skipAllSpace cs, Text.isBlank c = true :=
    fun c hc => hcs c ((skipAllSpace_suffix cs).subset hc)
  rw [all] at h
  split at h
  · cases h
    rfl
  · rename_i heq
    exact absurd (hskip '#' (heq ▸ List.mem_cons_self)) (by decide)
  · rw [line_of_isBlank r hskip] at h
    cases h

/-- A document in which there are but blanks has no keys. -/
theorem eq_nil_of_isBlankText {text : String} {es : Entries} (hblank : Text.isBlankText text = true)
    (h : parse? text = some es) : es = [] := by
  have hcs : ∀ c ∈ text.toList, Text.isBlank c = true := List.all_eq_true.1 hblank
  obtain ⟨r, hr, rfl⟩ := Option.map_eq_some_iff.1 h
  split at hr
  · rename_i heq
    exact absurd (hcs '\ufeff' (heq ▸ List.mem_cons_self)) (by decide)
  · rw [Reading.all_of_isBlank hcs hr]

end Blank

end Document

end FeedStore.Toml
