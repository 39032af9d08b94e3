import FeedStore.Proofs.Refusals

/-!
# Normal forms of stored texts

Names, addresses and titles are stored without blanks at their ends, and titles of categories without
control characters; none of them is empty. Every statement keeps it so (`Store.Normal.step`), because
texts are brought into this form before a row is made of them and no statement changes them afterwards.
A text in normal form is its own normal form, so a row that is there is found again by any text with
that normal form, and cannot be created a second time (`Reachable.keeps_normal_forms`).
-/

namespace FeedStore

open Text

/-! ## Texts -/

/-- The text is not empty, and there is no blank at either end. -/
structure Text.Trimmed (text : String) : Prop where
  nonempty : text ≠ ""
  head : ∀ c ∈ text.toList.head?, isBlank c = false
  last : ∀ c ∈ text.toList.getLast?, isBlank c = false

/-- The text is trimmed and holds no control character. -/
structure Text.Plain (text : String) : Prop extends Trimmed text where
  printable : ∀ c ∈ text.toList, isControl c = false

namespace Text

variable {text : String}

theorem trimmed_trim (h : trim text ≠ "") : Trimmed (trim text) where
  nonempty := h
  head := by
    rw [toList_trim]
    exact head?_trimChars text.toList
  last := by
    rw [toList_trim]
    exact getLast?_trimChars text.toList

theorem Trimmed.trim_eq (h : Trimmed text) : trim text = text := by
  rw [trim, trimChars_eq_self h.head h.last, String.ofList_toList]

theorem trimChars_sublist (cs : List Char) : (trimChars cs).Sublist cs := by
  have hback : ((cs.dropWhile isBlank).reverse.dropWhile isBlank).Sublist
      (cs.dropWhile isBlank).reverse := List.dropWhile_sublist _
  have hfront := List.reverse_sublist.2 hback
  rw [List.reverse_reverse] at hfront
  exact hfront.trans (List.dropWhile_sublist _)

/-- What is left of a title has no control characters: trimming adds none. -/
theorem plain_cleanTitle (h : Action.cleanTitle text ≠ "") : Plain (Action.cleanTitle text) where
  toTrimmed := trimmed_trim h
  printable := by
    intro c hc
    rw [Action.cleanTitle, toList_trim, String.toList_ofList] at hc
    have hleft := (List.mem_filter.1 ((trimChars_sublist _).subset hc)).2
    exact Bool.not_eq_true' _ ▸ hleft

theorem Plain.cleanTitle_eq (h : Plain text) : Action.cleanTitle text = text := by
  have hall : text.toList.filter (fun c => !isControl c) = text.toList :=
    List.filter_eq_self.2 fun c hc => by rw [h.printable c hc, Bool.not_false]
  rw [Action.cleanTitle, hall, String.ofList_toList, h.toTrimmed.trim_eq]

/-- Cleaning a title twice is cleaning it once, also where nothing is left of it. -/
theorem cleanTitle_cleanTitle (text : String) :
    Action.cleanTitle (Action.cleanTitle text) = Action.cleanTitle text := by
  by_cases h : Action.cleanTitle text = ""
  · rw [h]
    decide
  · exact (plain_cleanTitle h).cleanTitle_eq

/-- Cleaning an offer twice is cleaning it once. -/
theorem cleanOffer_cleanOffer (offer : FeedOffer) :
    Action.cleanOffer (Action.cleanOffer offer) = Action.cleanOffer offer := by
  unfold Action.cleanOffer
  dsimp only
  by_cases htitle : trim offer.title = ""
  · rw [if_pos htitle, trim_trim]
    split
    · rfl
    · rfl
  · rw [if_neg htitle, trim_trim, trim_trim, if_neg htitle]

end Text

/-! ## Rows -/

/-- Address and title are trimmed, and failures are counted up from zero. -/
structure Feed.Normal (f : Feed) : Prop where
  feedUrl : Trimmed f.feedUrl
  title : Trimmed f.title
  errorCount : 0 ≤ f.errorCount

structure Enclosure.Normal (x : Enclosure) : Prop where
  url : Trimmed x.url
  mediaProgression : 0 ≤ x.mediaProgression

namespace Feed.Normal

variable {f : Feed}

theorem withoutErrors (h : f.Normal) : f.withoutErrors.Normal := ⟨h.feedUrl, h.title, le_rfl⟩

theorem fetched (h : f.Normal) (state : FetchState) : (f.fetched state).Normal :=
  ⟨h.feedUrl, h.title, le_rfl⟩

theorem failed (h : f.Normal) (message : String) (now nextCheckAt : Int) :
    (f.failed message now nextCheckAt).Normal :=
  ⟨h.feedUrl, h.title, Int.add_nonneg h.errorCount Int.one_nonneg⟩

end Feed.Normal

/-- What becomes of an offer has an address, and the address for a title if it was offered none. -/
theorem FeedOffer.normal_toFeed {offer : FeedOffer} (h : (Action.cleanOffer offer).feedUrl ≠ "")
    (user id : Id) : ((Action.cleanOffer offer).toFeed user id).Normal := by
  refine ⟨trimmed_trim h, ?_, le_rfl⟩
  show Trimmed (if trim offer.title = "" then trim offer.feedUrl else trim offer.title)
  split
  · exact trimmed_trim h
  · rename_i htitle
    exact trimmed_trim htitle

/-! ## Stores -/

namespace Store

open Table

variable {s t : Store} {now : Int}

/-- Every text that the store keeps rows by is in its normal form, and no count is negative. -/
structure Normal (s : Store) : Prop where
  users : ∀ u ∈ s.users.rows, Trimmed u.username
  categories : ∀ c ∈ s.categories.rows, Plain c.title
  feeds : ∀ f ∈ s.feeds.rows, f.Normal
  enclosures : ∀ x ∈ s.enclosures.rows, x.Normal

theorem Normal.modifyFeeds (h : s.Normal) (p : Feed → Bool) {f : Feed → Feed}
    (hf : ∀ g, Feed.Normal g → (f g).Normal) :
    ({ s with feeds := s.feeds.modify p f } : Store).Normal :=
  { h with feeds := forall_mem_rows_modify p h.feeds hf }

theorem Normal.eraseEntries (h : s.Normal) (p : Entry → Bool) : (s.eraseEntries p).Normal :=
  { h with enclosures := forall_mem_rows_erase _ h.enclosures }

theorem Normal.eraseFeeds (h : s.Normal) (p : Feed → Bool) : (s.eraseFeeds p).Normal :=
  { h.eraseEntries _ with feeds := forall_mem_rows_erase p h.feeds }

theorem Normal.eraseCategories (h : s.Normal) (p : Category → Bool) : (s.eraseCategories p).Normal :=
  { h.eraseFeeds _ with categories := forall_mem_rows_erase p h.categories }

theorem Normal.eraseUser (h : s.Normal) (user : Id) : (s.eraseUser user).Normal :=
  ⟨forall_mem_rows_erase _ h.users, forall_mem_rows_erase _ h.categories,
    forall_mem_rows_erase _ h.feeds, forall_mem_rows_erase _ h.enclosures⟩

/-- Statements make rows of texts in normal form only, and change none of these texts. -/
theorem Normal.step (h : s.Normal) (hs : s.Step now t) : t.Normal := by
  cases hs with
  | addUser hne ht =>
      obtain ⟨-, -, rfl⟩ := of_addUser ht
      exact { h with users := forall_mem_rows_add h.users (trimmed_trim hne) }
  | addCategory hne ht =>
      obtain ⟨-, -, -, rfl⟩ := of_addCategory ht
      exact { h with categories := forall_mem_rows_add h.categories (plain_cleanTitle hne) }
  | addFeed hne ht =>
      obtain ⟨-, -, -, -, rfl⟩ := of_addFeed ht
      exact { h with feeds := forall_mem_rows_add h.feeds (FeedOffer.normal_toFeed hne _ _) }
  | addEntry _ ht =>
      obtain ⟨-, -, -, rfl⟩ := of_addEntry ht
      exact { h with }
  | putEnclosure hne _ ht =>
      rcases of_putEnclosure ht with ⟨x, -, -, rfl⟩ | ⟨-, -, -, -, rfl⟩
      · exact { h with enclosures := forall_mem_rows_modify _ h.enclosures fun x hx =>
          ⟨hx.url, hx.mediaProgression⟩ }
      · exact { h with enclosures := forall_mem_rows_add h.enclosures ⟨trimmed_trim hne, le_rfl⟩ }
  | setShareCode ht =>
      obtain ⟨-, -, rfl⟩ := of_setShareCode ht
      exact { h with }
  | hideCategory user category hide =>
      exact { h with categories := forall_mem_rows_modify _ h.categories fun c hc => hc }
  | hideFeed user feed hide =>
      exact h.modifyFeeds _ fun g hg => ⟨hg.feedUrl, hg.title, hg.errorCount⟩
  | noteFetch user feed state => exact h.modifyFeeds _ fun g hg => hg.fetched state
  | noteFailure user feed message nextCheckAt =>
      exact h.modifyFeeds _ fun g hg => hg.failed message now nextCheckAt
  | resetFeedErrors user => exact h.modifyFeeds _ fun g hg => hg.withoutErrors
  | setProgression user enclosure seconds =>
      exact { h with enclosures := forall_mem_rows_modify _ h.enclosures fun x hx =>
        ⟨hx.url, le_max_right seconds 0⟩ }
  | removeUser user => exact h.eraseUser user
  | removeCategory user category => exact h.eraseCategories _
  | removeFeed user feed => exact h.eraseFeeds _
  | eraseBatch user feed size => exact h.eraseEntries _
  | sweep feed _ => exact h.eraseEntries _
  | removeStaleEnclosures user entry urls =>
      exact { h with enclosures := forall_mem_rows_erase _ h.enclosures }
  | _ => exact { h with }

theorem Normal.steps (h : s.Normal) (hs : s.Steps now t) : t.Normal := by
  induction hs with
  | refl => exact h
  | tail _ hst ih => exact ih.step hst

end Store

/-! ## Creating twice -/

/-- What is created under a name that is taken conflicts, and nothing has changed. -/
theorem Action.Obeys.perform_of_taken {α : Type} {a : Action α} {s : Session} {reason context : String}
    {key : UniqueKey} {blank taken dangling : Prop}
    (h : a.Obeys (.creates reason context key blank taken dangling) s) (hr : s.Ready)
    (hblank : ¬ blank) (htaken : taken) :
    a.perform s = (.error (.conflict context (.duplicate key)), s) := by
  have herror := (h.exact hr _).2 (.taken hblank htaken)
  have hsame := h.atomic (by rw [herror]; exact Option.some_ne_none _)
  unfold Action.error? at herror
  cases hperform : a.perform s with
  | mk r t =>
      rw [hperform] at herror hsame
      cases r with
      | ok x => cases herror
      | error e =>
          obtain rfl : e = .conflict context (.duplicate key) := Option.some.inj herror
          obtain rfl : t = s := hsame
          rfl

namespace Reachable

variable {s : Session}

theorem normal (h : Reachable s) : s.store.Normal := by
  refine h.invariant (P := fun s => s.store.Normal) (fun _ => ?_) fun s c hs => ?_
  · exact ⟨fun _ hu => (nomatch hu), fun _ hc => (nomatch hc), fun _ hf => (nomatch hf),
      fun _ hx => (nomatch hx)⟩
  · exact hs.steps (c.takes_next s).store

/-- In a reachable session all stored texts are in normal form, so each is its own normal form, and
whatever has that normal form cannot be created again in the same place: it conflicts, whatever else is
offered with it, and nothing changes. Bringing a text into its normal form twice is doing it once. -/
theorem keeps_normal_forms (hs : Reachable s) :
    s.store.Normal
      ∧ (∀ u ∈ s.store.users.rows, trim u.username = u.username
        ∧ ∀ text, trim text = u.username → (Action.createUser text).perform s
          = (.error (.conflict ("unable to create user " ++ quoted u.username)
              (.duplicate .username)), s))
      ∧ (∀ c ∈ s.store.categories.rows, Action.cleanTitle c.title = c.title
        ∧ ∀ text hide, Action.cleanTitle text = c.title →
          (Action.createCategory c.userId text hide).perform s
            = (.error (.conflict ("unable to create category " ++ quoted c.title)
                (.duplicate .categoryTitle)), s))
      ∧ (∀ f ∈ s.store.feeds.rows, trim f.feedUrl = f.feedUrl ∧ trim f.title = f.title
        ∧ ∀ offer : FeedOffer, trim offer.feedUrl = f.feedUrl →
          (Action.createFeed f.userId offer).perform s
            = (.error (.conflict ("unable to create feed " ++ quoted f.feedUrl)
                (.duplicate .feedUrl)), s))
      ∧ (∀ text, trim (trim text) = trim text
        ∧ Action.cleanTitle (Action.cleanTitle text) = Action.cleanTitle text)
      ∧ ∀ offer, Action.cleanOffer (Action.cleanOffer offer) = Action.cleanOffer offer := by
  have hnormal := hs.normal
  have hr := hs.ready
  refine ⟨hnormal, fun u hu => ?_, fun c hc => ?_, fun f hf => ?_,
    fun text => ⟨trim_trim text, cleanTitle_cleanTitle text⟩, cleanOffer_cleanOffer⟩
  · refine ⟨(hnormal.users u hu).trim_eq, fun text htext => ?_⟩
    rw [← htext]
    refine (Action.obeys_createUser rfl).perform_of_taken hr ?_ ⟨u, hu, htext.symm⟩
    rw [htext]
    exact (hnormal.users u hu).nonempty
  · refine ⟨(hnormal.categories c hc).cleanTitle_eq, fun text hide htext => ?_⟩
    rw [← htext]
    refine (Action.obeys_createCategory rfl).perform_of_taken hr ?_ ⟨c, hc, rfl, htext.symm⟩
    rw [htext]
    exact (hnormal.categories c hc).nonempty
  · have hfeed := hnormal.feeds f hf
    refine ⟨hfeed.feedUrl.trim_eq, hfeed.title.trim_eq, fun offer hoffer => ?_⟩
    rw [← hoffer]
    refine (Action.obeys_createFeed rfl).perform_of_taken hr ?_ ⟨f, hf, rfl, hoffer.symm⟩
    rw [hoffer]
    exact hfeed.feedUrl.nonempty

/-- `U+0085` is blank and a control character; the bell is a control character only, and stays where
just blanks are taken away. -/
theorem keeps_normal_forms_subscribed :
    Session.subscribed.store.Normal
      ∧ (Action.createUser "\u0085 ann\t").perform .subscribed
        = (.error (.conflict ("unable to create user " ++ quoted "ann") (.duplicate .username)),
            .subscribed)
      ∧ (Action.createCategory 1 "\x07 \u0085ne\tws \x7f" true).perform .subscribed
        = (.error (.conflict ("unable to create category " ++ quoted "news")
            (.duplicate .categoryTitle)), .subscribed)
      ∧ (Action.createFeed 1 (.bare 7 "\na")).perform .subscribed
        = (.error (.conflict ("unable to create feed " ++ quoted "a") (.duplicate .feedUrl)),
            .subscribed)
      ∧ trim "\x07 ann" ≠ "ann" := by
  obtain ⟨hnormal, husers, hcategories, hfeeds, -⟩ := Reachable.subscribed.keeps_normal_forms
  obtain ⟨u, hu, hname⟩ : ∃ u ∈ Session.subscribed.store.users.rows, u.username = "ann" := by
    decide +kernel
  obtain ⟨c, hc, howner, htitle⟩ : ∃ c ∈ Session.subscribed.store.categories.rows,
      c.userId = 1 ∧ c.title = "news" := by decide +kernel
  obtain ⟨f, hf, hreader, haddress⟩ : ∃ f ∈ Session.subscribed.store.feeds.rows,
      f.userId = 1 ∧ f.feedUrl = "a" := by decide +kernel
  have huser := (husers u hu).2 "\u0085 ann\t"
  have hcategory := (hcategories c hc).2 "\x07 \u0085ne\tws \x7f" true
  have hfeed := (hfeeds f hf).2.2 (.bare 7 "\na")
  rw [hname] at huser
  rw [howner, htitle] at hcategory
  rw [hreader, haddress] at hfeed
  exact ⟨hnormal, huser (by decide +kernel), hcategory (by decide +kernel),
    hfeed (by decide +kernel), by decide +kernel⟩

end Reachable

end FeedStore
