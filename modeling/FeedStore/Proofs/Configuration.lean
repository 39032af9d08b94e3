import FeedStore.Config
import FeedStore.Proofs.ByteOrder
import FeedStore.Proofs.Documents
import Mathlib.Data.List.Sort

/-!
# What decides a configuration

A document is looked at twice: once for the keys to warn of, and once for the values of the fields. Both
passes go by the same keys. A field is looked up under its own key, so documents that agree on the known
keys give one configuration (`decode_congr`), the one without the unknown keys among them
(`sameKnown_knownPart`). The warnings name just the keys that such a document lacks, each once, by their
bytes (`lists_unknownKeys`); for that no key may stand twice in a table. What a configuration
holds is said by `Reads`, field by field and without the decoding, and a document has a configuration
just when some usable one can be read from it (`ofEntries_eq_ok_iff`).
-/

namespace FeedStore

open Toml

namespace Toml.Entries

theorem get?_cons (e : String × Value) (es : Entries) (k : String) :
    get? (e :: es) k = if e.1 = k then some e.2 else es.get? k := by
  rw [get?, List.find?_cons]
  by_cases h : e.1 = k
  · rw [if_pos h, beq_iff_eq.2 h, Option.map_some]
  · rw [if_neg h, beq_eq_false_iff_ne.2 h, get?]

/-- The entries under some keys. -/
def only (known : List String) (es : Entries) : Entries := es.filter fun e => known.contains e.1

theorem get?_only (known : List String) (es : Entries) (k : String) :
    (es.only known).get? k = if k ∈ known then es.get? k else none := by
  induction es with
  | nil => exact (ite_self none).symm
  | cons e es ih =>
      by_cases he : e.1 ∈ known
      · have hkeep : only known (e :: es) = e :: only known es :=
          List.filter_cons_of_pos (List.contains_iff_mem.2 he)
        rw [hkeep, get?_cons, get?_cons, ih]
        by_cases hk : e.1 = k
        · rw [if_pos hk, if_pos hk, if_pos (hk ▸ he)]
        · rw [if_neg hk, if_neg hk]
      · have hdrop : only known (e :: es) = only known es :=
          List.filter_cons_of_neg fun h => he (List.contains_iff_mem.1 h)
        rw [hdrop, get?_cons, ih]
        by_cases hk : e.1 = k
        · rw [if_neg (hk ▸ he), if_neg (hk ▸ he)]
        · rw [if_neg hk]

/-- A change of the values that goes by the keys is seen in each value that is looked up. -/
theorem get?_map (f : String → Value → Value) (es : Entries) (k : String) :
    get? (es.map fun e => (e.1, f e.1 e.2)) k = (es.get? k).map (f k) := by
  induction es with
  | nil => rfl
  | cons e es ih =>
      rw [List.map_cons, get?_cons, get?_cons, ih]
      split
      · rename_i hk
        rw [hk, Option.map_some]
      · rfl

end Toml.Entries

namespace Config

/-! ## Known and unknown keys -/

/-- The document has the key, but no configuration has. -/
def IsUnknown (es : Entries) (k : String) : Prop := k ∈ es.keys ∧ k ∉ knownKeys

/-- There is a table for cleaning up with the key, but no settings for cleaning up have it. -/
def IsUnknownInCleanup (es : Entries) (k : String) : Prop :=
  ∃ form inner, es.get? "cleanup" = some (.table form inner)
    ∧ k ∈ Entries.keys inner ∧ k ∉ knownCleanupKeys

/-- A table without its unknown keys. What is no table stays as it is. -/
def knownSettings : Value → Value
  | .table form inner => .table form (Entries.only knownCleanupKeys inner)
  | v => v

/-- The document without its unknown keys, and without those of its table for cleaning up. -/
def knownPart (es : Entries) : Entries :=
  (es.only knownKeys).map fun e => (e.1, if e.1 = "cleanup" then knownSettings e.2 else e.2)

theorem isUnknownInCleanup_iff {es : Entries} {form : Form} {inner : Entries} {k : String}
    (h : es.get? "cleanup" = some (.table form inner)) :
    IsUnknownInCleanup es k ↔ k ∈ inner.keys ∧ k ∉ knownCleanupKeys := by
  constructor
  · rintro ⟨form', inner', hget, hk⟩
    rw [h] at hget
    cases hget
    exact hk
  · exact fun hk => ⟨form, inner, h, hk⟩

theorem get?_knownPart (es : Entries) {k : String} (hk : k ∈ knownKeys) :
    (knownPart es).get? k
      = (es.get? k).map fun v => if k = "cleanup" then knownSettings v else v := by
  rw [knownPart, Entries.get?_map (fun k v => if k = "cleanup" then knownSettings v else v),
    Entries.get?_only, if_pos hk]

/-- Two documents have the same for cleaning up, except for unknown keys. How a table came about and in
which order its keys stand does not count. -/
inductive SameSettings : Option Value → Option Value → Prop where
  | tables {form form' : Form} {inner inner' : Entries}
      (h : ∀ k ∈ knownCleanupKeys, inner.get? k = inner'.get? k) :
      SameSettings (some (.table form inner)) (some (.table form' inner'))
  | refl (v : Option Value) : SameSettings v v

/-- Two documents have the same, except for unknown keys. -/
structure SameKnown (es es' : Entries) : Prop where
  fields : ∀ k ∈ knownKeys, k ≠ "cleanup" → es.get? k = es'.get? k
  cleanup : SameSettings (es.get? "cleanup") (es'.get? "cleanup")

theorem sameSettings_knownSettings (v : Value) : SameSettings (some v) (some (knownSettings v)) := by
  cases v with
  | table form inner =>
      refine .tables fun k hk => ?_
      rw [Entries.get?_only, if_pos hk]
  | _ => exact .refl _

theorem sameKnown_knownPart (es : Entries) : SameKnown es (knownPart es) where
  fields := by
    intro k hk hne
    rw [get?_knownPart es hk]
    simp only [if_neg hne, Option.map_id_fun', id]
  cleanup := by
    rw [get?_knownPart es (by decide)]
    cases es.get? "cleanup" with
    | none => exact .refl _
    | some v => exact sameSettings_knownSettings v

theorem not_isUnknown_knownPart (es : Entries) (k : String) : ¬ IsUnknown (knownPart es) k := by
  rintro ⟨hmem, hk⟩
  obtain ⟨e, he, rfl⟩ := List.mem_map.1 hmem
  obtain ⟨d, hd, rfl⟩ := List.mem_map.1 he
  exact hk (List.contains_iff_mem.1 (List.mem_filter.1 hd).2)

theorem not_isUnknownInCleanup_knownPart (es : Entries) (k : String) :
    ¬ IsUnknownInCleanup (knownPart es) k := by
  rintro ⟨form, inner, hget, hmem, hk⟩
  rw [get?_knownPart es (by decide)] at hget
  obtain ⟨v, -, hv⟩ := Option.map_eq_some_iff.1 hget
  rw [if_pos rfl] at hv
  cases v with
  | table form' inner' =>
      cases hv
      obtain ⟨e, he, rfl⟩ := List.mem_map.1 hmem
      exact hk (List.contains_iff_mem.1 (List.mem_filter.1 he).2)
  | _ => cases hv

/-! ## Warnings -/

/-- The list holds the texts with a property, each once, in the order of their bytes. -/
structure Lists (p : String → Prop) (ks : List String) : Prop where
  mem_iff : ∀ k, k ∈ ks ↔ p k
  ascending : ks.Pairwise fun a b => Text.bytes a < Text.bytes b

/-- There is but one such list. -/
theorem Lists.unique {p : String → Prop} {ks ks' : List String} (h : Lists p ks) (h' : Lists p ks') :
    ks = ks' := by
  have hlt : ∀ {l : List String}, Lists p l → l.Pairwise (· < ·) :=
    fun hl => hl.ascending.imp Text.bytes_lt_bytes_iff.1
  exact (hlt h).eq_of_mem_iff (hlt h') fun k => (h.mem_iff k).trans (h'.mem_iff k).symm

theorem lists_unknownKeys (known : List String) {es : Entries} (h : es.keys.Nodup) :
    Lists (fun k => k ∈ es.keys ∧ k ∉ known) (unknownKeys known es) where
  mem_iff k := by
    rw [unknownKeys, List.mem_mergeSort, List.mem_filter, Bool.not_eq_true', ← Bool.not_eq_true,
      List.contains_iff_mem]
  ascending := by
    have hsorted : (unknownKeys known es).Pairwise (· ≤ ·) := List.pairwise_mergeSort' (· ≤ ·) _
    have hnodup : (unknownKeys known es).Nodup :=
      (List.mergeSort_perm _ _).nodup_iff.2 (h.filter _)
    exact (hsorted.and hnodup).imp fun ⟨hle, hne⟩ =>
      Text.bytes_lt_bytes_iff.2 (lt_of_le_of_ne hle hne)

/-- The warnings are the unknown keys, those of the table for cleaning up behind the others. -/
theorem exists_warnings {es : Entries} (h : es.Distinct) :
    ∃ top inner, warnings es = top ++ inner.map ("cleanup." ++ ·)
      ∧ Lists (IsUnknown es) top ∧ Lists (IsUnknownInCleanup es) inner := by
  have htop := lists_unknownKeys knownKeys h.keys
  unfold warnings
  split
  · rename_i form inner hget
    have hdistinct := Value.distinct_table.1 (h.of_get? hget)
    have hinner := lists_unknownKeys knownCleanupKeys hdistinct.keys
    exact ⟨_, _, rfl, htop,
      fun k => (hinner.mem_iff k).trans (isUnknownInCleanup_iff hget).symm, hinner.ascending⟩
  · rename_i hnone
    refine ⟨_, [], by rw [List.map_nil], htop, fun k => ⟨fun hk => absurd hk List.not_mem_nil, ?_⟩, .nil⟩
    rintro ⟨form, inner, hget, -⟩
    exact absurd hget (hnone form inner)

theorem unknownKeys_eq_nil {known : List String} {es : Entries} (h : ∀ k ∈ es.keys, k ∈ known) :
    unknownKeys known es = [] := by
  have hfilter : (es.keys.filter fun k => !known.contains k) = [] :=
    List.filter_eq_nil_iff.2 fun k hk => by
      rw [Bool.not_eq_true', Bool.not_eq_false, List.contains_iff_mem]
      exact h k hk
  rw [unknownKeys, hfilter, List.mergeSort_nil]

/-- A document without unknown keys is not warned of. -/
theorem warnings_eq_nil {es : Entries} (htop : ∀ k, ¬ IsUnknown es k)
    (hinner : ∀ k, ¬ IsUnknownInCleanup es k) : warnings es = [] := by
  have hkeys : unknownKeys knownKeys es = [] :=
    unknownKeys_eq_nil fun k hk => by_contra fun hne => htop k ⟨hk, hne⟩
  rw [warnings, hkeys, List.nil_append]
  split
  · rename_i form inner hget
    have hsettings : unknownKeys knownCleanupKeys inner = [] :=
      unknownKeys_eq_nil fun k hk => by_contra fun hne => hinner k ⟨form, inner, hget, hk, hne⟩
    rw [hsettings, List.map_nil]
  · rfl

/-! ## Decoding -/

theorem field_congr {α : Type} {es es' : Entries} {key : String} (h : es.get? key = es'.get? key)
    (default : α) (decode : Value → Option α) :
    field es key default decode = field es' key default decode := by
  rw [field, field, h]

theorem decodeCleanup_congr {form form' : Form} {inner inner' : Entries}
    (h : ∀ k ∈ knownCleanupKeys, inner.get? k = inner'.get? k) :
    decodeCleanup (.table form inner) = decodeCleanup (.table form' inner') := by
  rw [decodeCleanup, decodeCleanup, field_congr (h "archive_read_days" (by decide)),
    field_congr (h "archive_unread_days" (by decide)),
    field_congr (h "archive_batch_size" (by decide))]

/-- Unknown keys do not get in the way of any value. -/
theorem decode_congr {es es' : Entries} (h : SameKnown es es') : decode es = decode es' := by
  have hcleanup : field es "cleanup" {} decodeCleanup = field es' "cleanup" {} decodeCleanup := by
    have hsame := h.cleanup
    generalize hv : es.get? "cleanup" = v at hsame
    generalize hv' : es'.get? "cleanup" = v' at hsame
    rw [field, field, hv, hv']
    cases hsame with
    | tables hinner => exact decodeCleanup_congr hinner
    | refl => rfl
  rw [decode, decode, field_congr (h.fields "database_path" (by decide) (by decide)),
    field_congr (h.fields "max_connections" (by decide) (by decide)),
    field_congr (h.fields "busy_timeout_ms" (by decide) (by decide)),
    field_congr (h.fields "acquire_timeout_secs" (by decide) (by decide))]
  dsimp only
  rw [hcleanup]

/-! ## Fields -/

/-- A field has the document's value for its key or, when the key is absent, the default. -/
def Gives {α : Type} (es : Entries) (key : String) (value : α → Value) (default x : α) : Prop :=
  es.get? key = some (value x) ∨ es.get? key = none ∧ x = default

/-- What a document has for cleaning up, by keys: a table has it itself, an array has the values of the
known keys in their order, and a date has nothing, like a document without the key. -/
def settings? : Option Value → Option Entries
  | none => some []
  | some (.table _ inner) => some inner
  | some (.array items) => some (knownCleanupKeys.zip items)
  | some .moment => some []
  | some _ => none

structure ReadsCleanup (inner : Entries) (c : CleanupConfig) : Prop where
  readDays : Gives inner "archive_read_days" .integer 60 c.readDays
  unreadDays : Gives inner "archive_unread_days" .integer 180 c.unreadDays
  batchSize : Gives inner "archive_batch_size" .integer 10000 c.batchSize

/-- Each field has the document's value for its key or its default, and the numbers fit. -/
structure Reads (es : Entries) (c : Config) : Prop where
  databasePath : Gives es "database_path" .text "feedsync.db" c.databasePath
  maxConnections : Gives es "max_connections" (fun n : Nat => .integer n) 5 c.maxConnections
  busyTimeoutMs : Gives es "busy_timeout_ms" (fun n : Nat => .integer n) 5000 c.busyTimeoutMs
  acquireTimeoutSecs :
    Gives es "acquire_timeout_secs" (fun n : Nat => .integer n) 10 c.acquireTimeoutSecs
  cleanup : ∃ inner, settings? (es.get? "cleanup") = some inner ∧ ReadsCleanup inner c.cleanup
  maxConnections_lt : c.maxConnections < 2 ^ 32
  busyTimeoutMs_lt : c.busyTimeoutMs < 2 ^ 64
  acquireTimeoutSecs_lt : c.acquireTimeoutSecs < 2 ^ 64

/-- There is a database to use, and a connection to it. -/
structure Usable (c : Config) : Prop where
  databasePath : Text.isBlankText c.databasePath = false
  maxConnections : 1 ≤ c.maxConnections

theorem field_eq_some_iff {α : Type} {es : Entries} {key : String} {default x : α}
    {decode : Value → Option α} {value : α → Value} (h : ∀ v, decode v = some x ↔ v = value x) :
    field es key default decode = some x ↔ Gives es key value default x := by
  unfold field Gives
  cases es.get? key with
  | none =>
      show some default = some x ↔ none = some (value x) ∨ none = none ∧ x = default
      rw [Option.some_inj, eq_comm]
      exact ⟨fun hx => .inr ⟨rfl, hx⟩, fun hx => (hx.resolve_left (nomatch ·)).2⟩
  | some v =>
      show decode v = some x ↔ some v = some (value x) ∨ some v = none ∧ x = default
      rw [h, Option.some_inj]
      exact ⟨.inl, fun hx => hx.resolve_right fun hnone => nomatch hnone.1⟩

theorem field_asText?_iff {es : Entries} {key default x : String} :
    field es key default asText? = some x ↔ Gives es key .text default x := by
  refine field_eq_some_iff fun v => ?_
  cases v <;> simp [asText?]

theorem field_asInteger?_iff {es : Entries} {key : String} {default x : Int} :
    field es key default asInteger? = some x ↔ Gives es key .integer default x := by
  refine field_eq_some_iff fun v => ?_
  cases v <;> simp [asInteger?]

theorem asNatural?_eq_some_iff {bound n : Nat} {v : Value} :
    asNatural? bound v = some n ↔ v = .integer n ∧ n < bound := by
  cases v with
  | integer m =>
      rw [asNatural?, Option.ite_none_right_eq_some, Option.some_inj, Value.integer.injEq]
      omega
  | _ => simp [asNatural?]

theorem field_asNatural?_iff {es : Entries} {key : String} {bound default x : Nat}
    (hdefault : default < bound) :
    field es key default (asNatural? bound) = some x
      ↔ Gives es key (fun n : Nat => .integer n) default x ∧ x < bound := by
  by_cases hx : x < bound
  · rw [and_iff_left hx]
    exact field_eq_some_iff fun v => by rw [asNatural?_eq_some_iff, and_iff_left hx]
  · refine iff_of_false (fun h => hx ?_) fun h => hx h.2
    unfold field at h
    split at h
    · exact (asNatural?_eq_some_iff.1 h).2
    · cases h
      exact hdefault

/-- The settings for cleaning up that a table of them stands for. -/
def decodeSettings (inner : Entries) : Option CleanupConfig := decodeCleanup (.table .header inner)

theorem decodeSettings_eq_some_iff {inner : Entries} {c : CleanupConfig} :
    decodeSettings inner = some c ↔ ReadsCleanup inner c := by
  unfold decodeSettings decodeCleanup
  simp only [bind, Option.bind_eq_some_iff, pure, Option.some_inj, field_asInteger?_iff]
  constructor
  · rintro ⟨_, hread, _, hunread, _, hbatch, rfl⟩
    exact ⟨hread, hunread, hbatch⟩
  · rintro ⟨hread, hunread, hbatch⟩
    exact ⟨_, hread, _, hunread, _, hbatch, rfl⟩

theorem decodeCleanup_eq (v : Value) :
    decodeCleanup v = (settings? (some v)).bind decodeSettings := by
  cases v with
  | array items =>
      -- there are three keys, so no more than three items matter
      rcases items with _ | ⟨read, _ | ⟨unread, _ | ⟨batch, surplus⟩⟩⟩
      all_goals rfl
  | _ => rfl

example : decodeCleanup (.array [.integer 7, .integer 8]) = some { readDays := 7, unreadDays := 8 } := rfl

theorem field_cleanup_iff {es : Entries} {c : CleanupConfig} :
    field es "cleanup" {} decodeCleanup = some c
      ↔ ∃ inner, settings? (es.get? "cleanup") = some inner ∧ ReadsCleanup inner c := by
  have h : field es "cleanup" {} decodeCleanup
      = (settings? (es.get? "cleanup")).bind decodeSettings := by
    unfold field
    split
    · rename_i hv
      rw [hv, decodeCleanup_eq]
    · rename_i hnone
      rw [hnone]
      rfl
  rw [h, Option.bind_eq_some_iff]
  simp only [decodeSettings_eq_some_iff]

/-- Decoding finds the configuration that can be read from a document, if there is one. -/
theorem decode_eq_some_iff {es : Entries} {c : Config} : decode es = some c ↔ Reads es c := by
  unfold decode
  simp only [bind, Option.bind_eq_some_iff, pure, Option.some_inj, field_asText?_iff,
    field_asNatural?_iff (show 5 < Nat.pow 2 32 by decide),
    field_asNatural?_iff (show 5000 < Nat.pow 2 64 by decide),
    field_asNatural?_iff (show 10 < Nat.pow 2 64 by decide), field_cleanup_iff]
  constructor
  · rintro ⟨_, hpath, _, ⟨hconnections, h₁⟩, _, ⟨hbusy, h₂⟩, _, ⟨hacquire, h₃⟩, _, hcleanup, rfl⟩
    exact ⟨hpath, hconnections, hbusy, hacquire, hcleanup, h₁, h₂, h₃⟩
  · rintro ⟨hpath, hconnections, hbusy, hacquire, hcleanup, h₁, h₂, h₃⟩
    exact ⟨_, hpath, _, ⟨hconnections, h₁⟩, _, ⟨hbusy, h₂⟩, _, ⟨hacquire, h₃⟩, _, hcleanup, rfl⟩

/-! ## Reading a text -/

theorem validate_eq_ok_iff {c d : Config} : c.validate = .ok d ↔ c = d ∧ d.Usable := by
  unfold validate
  split
  · rename_i hblank
    refine iff_of_false (nomatch ·) ?_
    rintro ⟨rfl, h⟩
    exact Bool.false_ne_true (h.databasePath.symm.trans hblank)
  · rename_i hblank
    split
    · rename_i hzero
      refine iff_of_false (nomatch ·) ?_
      rintro ⟨rfl, h⟩
      exact Nat.ne_of_gt h.maxConnections hzero
    · rename_i hne
      rw [Except.ok.injEq]
      refine ⟨?_, And.left⟩
      rintro rfl
      exact ⟨rfl, Bool.eq_false_iff.2 hblank, Nat.one_le_iff_ne_zero.2 hne⟩

theorem ofEntries_eq_ok_iff {es : Entries} {c : Config} :
    ofEntries es = .ok c ↔ Reads es c ∧ c.Usable := by
  rw [← decode_eq_some_iff]
  unfold ofEntries
  split
  · rename_i d hd
    rw [validate_eq_ok_iff, hd, Option.some_inj]
  · rename_i hnone
    refine iff_of_false (nomatch ·) ?_
    rintro ⟨h, -⟩
    rw [hnone] at h
    cases h

/-- A document with nothing but blanks is no exception: it has no keys, so it gives the defaults. -/
theorem parse_of_document {text : String} {es : Entries} (h : Document.parse? text = some es) :
    parse text = ⟨warnings es, ofEntries es⟩ := by
  unfold parse
  split
  · rename_i hblank
    have hwarnings : warnings [] = [] :=
      warnings_eq_nil (fun k hk => nomatch hk.1) fun k ⟨_, _, hget, _⟩ => nomatch hget
    have hconfig : ofEntries [] = .ok {} := by decide
    rw [Document.eq_nil_of_isBlankText hblank h, hwarnings, hconfig]
  · rw [h]

theorem usable_of_parse {text : String} {c : Config} (h : (parse text).config = .ok c) :
    c.Usable := by
  cases hdocument : Document.parse? text with
  | some es =>
      rw [parse_of_document hdocument] at h
      exact (ofEntries_eq_ok_iff.1 h).2
  | none =>
      unfold parse at h
      rw [hdocument] at h
      split at h
      · cases h
        exact ⟨by decide, by decide⟩
      · cases h

/-- What can be used always names a database and allows a connection. For every text that is a document,
unknown keys have no influence: without them it gives the same, and so does any document that has the same
under the known keys. They are what is warned of, whatever becomes of the configuration: those of the
document and then those of its table for cleaning up, each in the order of the bytes. And what is read has
for each field the document's value or the default, which is also enough for a configuration to be
read. -/
theorem goes_by_known_keys (text : String) :
    (∀ c, (parse text).config = .ok c → c.Usable)
      ∧ ∀ es, Document.parse? text = some es →
        (parse text).config = ofEntries (knownPart es)
        ∧ (∀ text', Document.parse? text' = some (knownPart es) →
          parse text' = ⟨[], (parse text).config⟩)
        ∧ (∀ text' es', Document.parse? text' = some es' → SameKnown es es' →
          (parse text').config = (parse text).config)
        ∧ (∃ top inner, (parse text).warnings = top ++ inner.map ("cleanup." ++ ·)
          ∧ Lists (IsUnknown es) top ∧ Lists (IsUnknownInCleanup es) inner)
        ∧ ∀ c, (parse text).config = .ok c ↔ Reads es c ∧ c.Usable := by
  refine ⟨fun c => usable_of_parse, fun es hes => ?_⟩
  have hparse := parse_of_document hes
  have hconfig : ∀ {es'}, SameKnown es es' → ofEntries es = ofEntries es' := fun h => by
    rw [ofEntries, ofEntries, decode_congr h]
  refine ⟨?_, fun text' h => ?_, fun text' es' h hsame => ?_, ?_, fun c => ?_⟩
  · rw [hparse]
    exact hconfig (sameKnown_knownPart es)
  · rw [parse_of_document h, hparse, hconfig (sameKnown_knownPart es),
      warnings_eq_nil (not_isUnknown_knownPart es) (not_isUnknownInCleanup_knownPart es)]
  · rw [parse_of_document h, hparse, hconfig hsame]
  · rw [hparse]
    exact exists_warnings (Document.distinct_of_parse? hes)
  · rw [hparse]
    exact ofEntries_eq_ok_iff

/-- Unknown keys stand in front of known ones and among them; in the order of the bytes `é` comes behind
`zz`, and `b` behind `B`. -/
def misspeltText : String :=
  "zz = 1\n\"\u00e9\" = 0.5\nmax_connections = 2\n[cleanup]\nb = 12:00:00\narchive_read_days = 7\nB = true"

def wellSpeltText : String := "max_connections = 2\n[cleanup]\narchive_read_days = 7"

def misspeltSettings : Entries :=
  [("b", .moment), ("archive_read_days", .integer 7), ("B", .boolean true)]

def misspelt : Entries :=
  [("zz", .integer 1), ("\u00e9", .decimal), ("max_connections", .integer 2),
    ("cleanup", .table .header misspeltSettings)]

/-- A list can be checked to hold the unknown keys of a table. -/
theorem lists_of_checked {es : Entries} {known ks : List String}
    (hunknown : ∀ k ∈ ks, k ∈ es.keys ∧ k ∉ known) (hknown : ∀ k ∈ es.keys, k ∈ ks ∨ k ∈ known)
    (hascending : ks.Pairwise fun a b => Text.bytes a < Text.bytes b) :
    Lists (fun k => k ∈ es.keys ∧ k ∉ known) ks :=
  ⟨fun k => ⟨hunknown k, fun h => (hknown k h.1).resolve_right h.2⟩, hascending⟩

theorem goes_by_known_keys_misspelt :
    Document.parse? misspeltText = some misspelt
      ∧ Document.parse? wellSpeltText = some (knownPart misspelt)
      ∧ (parse misspeltText).warnings = ["zz", "\u00e9", "cleanup.B", "cleanup.b"]
      ∧ (parse misspeltText).config = .ok { maxConnections := 2, cleanup := { readDays := 7 } }
      ∧ parse wellSpeltText = ⟨[], (parse misspeltText).config⟩ := by
  have hmisspelt : Document.parse? misspeltText = some misspelt := by with_unfolding_all rfl
  have hwellSpelt : Document.parse? wellSpeltText = some (knownPart misspelt) := by
    with_unfolding_all rfl
  obtain ⟨-, hdocument⟩ := goes_by_known_keys misspeltText
  obtain ⟨-, hwithout, -, ⟨top, inner, hwarnings, htop, hinner⟩, hread⟩ :=
    hdocument misspelt hmisspelt
  refine ⟨hmisspelt, hwellSpelt, ?_, (hread _).2 ⟨?_, by decide, by decide⟩, hwithout _ hwellSpelt⟩
  · have htop' : Lists (IsUnknown misspelt) ["zz", "\u00e9"] :=
      lists_of_checked (by decide) (by decide) (by decide)
    have hinner' : Lists (fun k => k ∈ misspeltSettings.keys ∧ k ∉ knownCleanupKeys) ["B", "b"] :=
      lists_of_checked (by decide) (by decide) (by decide)
    have hinner : Lists (fun k => k ∈ misspeltSettings.keys ∧ k ∉ knownCleanupKeys) inner :=
      ⟨fun k => (hinner.mem_iff k).trans (isUnknownInCleanup_iff rfl), hinner.ascending⟩
    rw [hwarnings, htop.unique htop', hinner.unique hinner']
    decide
  · exact {
      databasePath := .inr ⟨rfl, rfl⟩
      maxConnections := .inl rfl
      busyTimeoutMs := .inr ⟨rfl, rfl⟩
      acquireTimeoutSecs := .inr ⟨rfl, rfl⟩
      cleanup := ⟨misspeltSettings, rfl, .inl rfl, .inr ⟨rfl, rfl⟩, .inr ⟨rfl, rfl⟩⟩
      maxConnections_lt := by decide
      busyTimeoutMs_lt := by decide
      acquireTimeoutSecs_lt := by decide }

end Config

end FeedStore
