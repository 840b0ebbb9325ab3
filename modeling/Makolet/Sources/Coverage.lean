import Makolet.Lib.Paging
import Makolet.Sources.Adapters

/-!
# Traversals that cover a listing

The listings that the adapters traverse: what each server publishes, section by section, and how the
files of a section are read from its answers. `Covers` is the traversal that the collection loop
needs. NCR directories and daily catalogs are covered unless a section before the last is empty
(`NcrListing.covers_iff`, `StaticDailyListing.covers_iff`); BINA passes over empty partitions.
-/

set_option autoImplicit false

namespace Makolet.Sources

open Makolet.Domain Makolet.Lib

/-! ## The property -/

/-- Following the cursors from the start returns every listed file once and ends with a complete
page, without a failure and without an empty page that is not the last, which the collection loop
rejects. -/
def Covers (fetch : Nat → Option DiscoveryCursor → Except Failure DiscoveryPage)
    (listed : List RemoteFile) : Prop :=
  ∃ pages, Traverses DiscoveryPage.nextCursor fetch 0 none pages ∧
    (pages.flatMap DiscoveryPage.files).Perm listed ∧
    (∀ page ∈ pages, page.files = [] → page.nextCursor = none) ∧
    ∃ final, pages.getLast? = some final ∧ final.complete = true

/-- Every section but the last is non-empty. -/
def FilledUntilLast (sections : List (List RemoteFile)) : Prop := ∀ s ∈ sections.dropLast, s ≠ []

instance (sections : List (List RemoteFile)) : Decidable (FilledUntilLast sections) :=
  inferInstanceAs (Decidable (∀ s ∈ sections.dropLast, s ≠ []))

/-- A listing in sections is covered if and only if only its last section may be empty. -/
theorem covers_iff_of_sectioned
    {fetch : Nat → Option DiscoveryCursor → Except Failure DiscoveryPage}
    {limits : Nat → PageLimit}
    {At : Nat → Option DiscoveryCursor → List RemoteFile → List (List RemoteFile) → Prop}
    (h : Sectioned DiscoveryPage.nextCursor fetch DiscoveryPage.files (fun n => (limits n).1) At)
    (hcomplete : ∀ n cursor page, fetch n cursor = .ok page →
      page.complete = page.nextCursor.isNone)
    {first : List RemoteFile} {later : List (List RemoteFile)} (hat : At 0 none first later)
    {listed : List RemoteFile} (hlisted : (first ++ later.flatten).Perm listed) :
    Covers fetch listed ↔ FilledUntilLast (first :: later) := by
  obtain ⟨pages, hpages, hitems, hempty⟩ := h.traverses (fun n => (limits n).2.1) 0 hat
  constructor
  · rintro ⟨pages', hpages', -, hempty', -⟩
    rw [hpages'.unique hpages] at hempty'
    exact hempty.mp hempty'
  · intro hfilled
    refine ⟨pages, hpages, hitems.trans hlisted, hempty.mpr hfilled, ?_⟩
    obtain ⟨n, cursor, init, final, rfl, hfetch, hnext⟩ := hpages.final
    exact ⟨final, by simp, by rw [hcomplete _ _ _ hfetch, hnext]; rfl⟩

@[simp] theorem complete_of (sourceId : String) (files : List RemoteFile)
    (next : Option CursorState) : (DiscoveryPage.of sourceId files next).complete =
      (DiscoveryPage.of sourceId files next).nextCursor.isNone := by
  cases next <;> rfl

@[simp] theorem files_of (sourceId : String) (files : List RemoteFile)
    (next : Option CursorState) : (DiscoveryPage.of sourceId files next).files = files := rfl

@[simp] theorem nextCursor_of (sourceId : String) (files : List RemoteFile)
    (next : Option CursorState) : (DiscoveryPage.of sourceId files next).nextCursor =
      next.map (encodeCursor sourceId) := rfl

/-- The sections of a listing, as the adapters page them. -/
def ordered (sections : List (List RemoteFile)) : List (List RemoteFile) :=
  sections.map deduplicateFiles

theorem nodup_of_mem {sections : List (List RemoteFile)} {files : List RemoteFile}
    (h : (sections.flatten.map RemoteFile.remoteId).Nodup) (hmem : files ∈ sections) :
    (files.map RemoteFile.remoteId).Nodup :=
  h.sublist ((List.sublist_flatten_of_mem hmem).map _)

theorem flatten_ordered_perm {sections : List (List RemoteFile)}
    (h : (sections.flatten.map RemoteFile.remoteId).Nodup) :
    (ordered sections).flatten.Perm sections.flatten := by
  induction sections with
  | nil => exact List.Perm.refl _
  | cons files rest ih =>
    have hfiles := deduplicateFiles_perm (nodup_of_mem h List.mem_cons_self)
    rw [List.flatten_cons, List.map_append] at h
    exact hfiles.append (ih h.of_append_right)

/-- Only empty sections stay empty. -/
theorem filledUntilLast_ordered {sections : List (List RemoteFile)}
    (h : (sections.flatten.map RemoteFile.remoteId).Nodup) :
    FilledUntilLast (ordered sections) ↔ FilledUntilLast sections := by
  have hnil : ∀ files ∈ sections.dropLast, deduplicateFiles files ≠ [] ↔ files ≠ [] := by
    intro files hfiles
    have hperm := deduplicateFiles_perm (nodup_of_mem h (List.mem_of_mem_dropLast hfiles))
    rw [not_iff_not]
    exact ⟨fun hd => List.nil_perm.mp (hd ▸ hperm), fun hf => List.perm_nil.mp (hf ▸ hperm)⟩
  unfold FilledUntilLast ordered
  rw [← List.map_dropLast]
  simp only [List.forall_mem_map]
  exact forall₂_congr hnil

/-! ## Cursors that name a section and an offset -/

section Position

variable {sourceId : String} {limit : PageLimit}

theorem lookup_version {state : CursorState} {name : String} (hv : name ≠ "v")
    (hs : name ≠ "source") :
    (("v", CursorValue.int 1) :: ("source", .text sourceId) :: state).lookup name =
      state.lookup name := by
  rw [List.lookup_cons, List.lookup_cons, beq_false_of_ne hv, beq_false_of_ne hs]

theorem cursorInt_of {state : CursorState} {name : String} {default n maximum : Nat}
    (hlookup : (state.lookup name).getD (.int default) = .int n) (hle : n ≤ maximum) :
    cursorInt state name default maximum = .ok n := by
  unfold cursorInt
  rw [hlookup]
  exact if_pos hle

/-- The position that a cursor of an NCR or a daily source names, with the date it carries. -/
inductive Names (sourceId : String) : Option DiscoveryCursor → Nat → Nat → Option String → Prop
  | start : Names sourceId none 0 0 none
  | plain (feed offset : Nat) : Names sourceId
      (some (encodeCursor sourceId [("feed", .int feed), ("offset", .int offset)])) feed offset none
  | dated (feed offset : Nat) (date : String) : Names sourceId
      (some (encodeCursor sourceId
        [("feed", .int feed), ("date", .text date), ("offset", .int offset)])) feed offset
      (some date)

theorem Names.read {cursor : Option DiscoveryCursor} {feed offset : Nat} {date : Option String}
    (h : Names sourceId cursor feed offset date) (hid : ShortId sourceId)
    (hfeed : feed ≤ maximumSize) (hoffset : offset ≤ maximumOffset)
    (hdate : ∀ d ∈ date, d.length ≤ 10) {maximum : Nat} (hmax : feed ≤ maximum) :
    ∃ state, decodeCursor sourceId cursor = .ok state ∧
      cursorInt state "feed" 0 maximum = .ok feed ∧
      cursorInt state "offset" 0 maximumOffset = .ok offset ∧
      cursorText state "date" = .ok date := by
  have hkeys : jsonTextSize "feed" = 6 ∧ jsonTextSize "offset" = 8 ∧ jsonTextSize "date" = 6 := by
    decide
  have hfeedSize := jsonSize_int hfeed
  have hoffsetSize : (CursorValue.int offset).jsonSize ≤ 19 :=
    jsonSize_int (hoffset.trans (by decide))
  cases h with
  | start => exact ⟨[], rfl, cursorInt_of rfl hmax, cursorInt_of rfl hoffset, rfl⟩
  | plain =>
    refine ⟨_, decodeCursor_encodeCursor hid ?_, cursorInt_of ?_ hmax, cursorInt_of ?_ hoffset, ?_⟩
    · simp only [List.map_cons, List.map_nil, List.sum_cons, List.sum_nil, hkeys]
      omega
    · rw [lookup_version (by decide) (by decide)]
      rfl
    · rw [lookup_version (by decide) (by decide)]
      rfl
    · rw [cursorText, lookup_version (by decide) (by decide)]
      rfl
  | dated _ _ d =>
    have hd := hdate d rfl
    have hdateSize : (CursorValue.text d).jsonSize ≤ 2 + 12 * 10 :=
      (jsonTextSize_le d).trans (by omega)
    refine ⟨_, decodeCursor_encodeCursor hid ?_, cursorInt_of ?_ hmax, cursorInt_of ?_ hoffset, ?_⟩
    · simp only [List.map_cons, List.map_nil, List.sum_cons, List.sum_nil, hkeys]
      omega
    · rw [lookup_version (by decide) (by decide)]
      rfl
    · rw [lookup_version (by decide) (by decide)]
      rfl
    · rw [cursorText, lookup_version (by decide) (by decide)]
      show (if d.length ≤ 128 then Except.ok (some d) else _) = _
      rw [if_pos (by omega)]

/-- Where a traversal of `sections` stands: in a section, at an offset of its files. A date in the
cursor is one that the section has. -/
def Standing (sourceId : String) (sections : List (List RemoteFile)) (dated : Nat → String → Prop)
    (_ : Nat) (cursor : Option DiscoveryCursor) (rest : List RemoteFile)
    (later : List (List RemoteFile)) : Prop :=
  ∃ feed offset date files, Names sourceId cursor feed offset date ∧ (∀ d ∈ date, dated feed d) ∧
    sections[feed]? = some files ∧ offset ≤ files.length ∧ rest = files.drop offset ∧
    later = sections.drop (feed + 1)

/-- A source is paged in sections if at every position it returns the next files of the section, and
a cursor that stays in the section or goes to the next one. -/
theorem sectioned_of_standing {sections : List (List RemoteFile)} {dated : Nat → String → Prop}
    {limits : Nat → PageLimit}
    {fetch : Nat → Option DiscoveryCursor → Except Failure DiscoveryPage}
    (h : ∀ n cursor feed offset date files, Names sourceId cursor feed offset date →
      (∀ d ∈ date, dated feed d) → sections[feed]? = some files → offset ≤ files.length →
      ∃ page, fetch n cursor = .ok page ∧ page.files = (files.drop offset).take (limits n).1 ∧
        if offset + page.files.length < files.length then
          ∃ c date', page.nextCursor = some c ∧
            Names sourceId (some c) feed (offset + page.files.length) date' ∧
            ∀ d ∈ date', dated feed d
        else if feed + 1 < sections.length then
          page.nextCursor = some (encodeCursor sourceId
            [("feed", .int (feed + 1)), ("offset", .int 0)])
        else page.nextCursor = none) :
    Sectioned DiscoveryPage.nextCursor fetch DiscoveryPage.files (fun n => (limits n).1)
      (Standing sourceId sections dated) := by
  rintro n cursor rest later ⟨feed, offset, date, files, hcursor, hdate, hfiles, hoffset, rfl, rfl⟩
  obtain ⟨page, hfetch, hpage, hnext⟩ := h n cursor feed offset date files hcursor hdate hfiles hoffset
  refine ⟨page, hfetch, by rw [hpage], ?_⟩
  dsimp only
  have hlength : page.files.length = min (limits n).1 (files.length - offset) := by
    rw [hpage, List.length_take, List.length_drop]
  rw [List.length_drop]
  by_cases hmore : (limits n).1 < files.length - offset
  · -- The section goes on.
    rw [if_pos (by omega)] at hnext
    obtain ⟨c, date', hc, hnames, hdate'⟩ := hnext
    refine .inl ⟨hmore, c, hc, feed, _, date', files, hnames, hdate', hfiles, by omega, ?_, rfl⟩
    rw [List.drop_drop]
    congr 1
    omega
  · rw [if_neg (by omega)] at hnext
    by_cases hlater : feed + 1 < sections.length
    · -- The next section.
      rw [if_pos hlater] at hnext
      refine .inr (.inr ⟨by omega, _, _, _, List.drop_eq_getElem_cons hlater, hnext, ?_⟩)
      exact ⟨feed + 1, 0, none, _, .plain _ _, by simp, List.getElem?_eq_getElem hlater,
        Nat.zero_le _, rfl, rfl⟩
    · rw [if_neg hlater] at hnext
      exact .inr (.inl ⟨by omega, List.drop_eq_nil_of_le (by omega), hnext⟩)

/-- A source that is paged in the ordered sections of its listing is covered if and only if no
section before the last is empty. -/
theorem covers_iff_filled {sections : List (List RemoteFile)} {dated : Nat → String → Prop}
    {limits : Nat → PageLimit}
    {fetch : Nat → Option DiscoveryCursor → Except Failure DiscoveryPage}
    (hsectioned : Sectioned DiscoveryPage.nextCursor fetch DiscoveryPage.files
      (fun n => (limits n).1) (Standing sourceId (ordered sections) dated))
    (hcomplete : ∀ n cursor page, fetch n cursor = .ok page →
      page.complete = page.nextCursor.isNone)
    (hdistinct : (sections.flatten.map RemoteFile.remoteId).Nodup) (hne : sections ≠ []) :
    Covers fetch sections.flatten ↔ FilledUntilLast sections := by
  obtain ⟨first, later, hsections⟩ : ∃ first later, ordered sections = first :: later :=
    List.exists_cons_of_ne_nil fun hnil => hne (List.map_eq_nil_iff.mp hnil)
  rw [← filledUntilLast_ordered hdistinct, hsections]
  refine covers_iff_of_sectioned hsectioned hcomplete
    ⟨0, 0, none, first, .start, by simp, ?_, Nat.zero_le _, rfl, ?_⟩ ?_
  · rw [hsections]
    rfl
  · rw [hsections]
    rfl
  · show (first :: later).flatten.Perm _
    rw [← hsections]
    exact flatten_ordered_perm hdistinct

end Position

/-! ## NCR directories -/

/-- The directories of an NCR source, and that the server lists them: each entry reads as a file, the
files have remote ids of their own, and no directory has more entries than its feed admits. -/
structure NcrListing (site : Site) where
  config : NcrSourceConfig
  list : NcrFeedConfig → Except Failure (List FtpCatalogEntry)
  directories : List (List RemoteFile)
  length_eq : directories.length = config.feeds.length
  lists : ∀ (i : Nat) (feed : NcrFeedConfig) (files : List RemoteFile),
    config.feeds[i]? = some feed → directories[i]? = some files → ∃ entries,
      list feed = .ok entries ∧ entries.length ≤ feed.maximumEntries ∧
        entries.mapM (config.remoteFile site feed) = .ok files
  distinct : (directories.flatten.map RemoteFile.remoteId).Nodup
  short : ShortId config.retailerId
  sized : config.feeds.length ≤ maximumSize

namespace NcrListing

variable {site : Site} (l : NcrListing site) (limits : Nat → PageLimit)

/-- The pages of a traversal. -/
def fetch (n : Nat) (cursor : Option DiscoveryCursor) : Except Failure DiscoveryPage :=
  l.config.discover site l.list cursor (limits n).1

variable {l limits}

/-- The page at a position. -/
theorem fetch_eq {n : Nat} {cursor : Option DiscoveryCursor} {feed offset : Nat}
    {date : Option String} {files : List RemoteFile}
    (hcursor : Names l.config.retailerId cursor feed offset date) (hdate : date = none)
    (hfiles : (ordered l.directories)[feed]? = some files) (hoffset : offset ≤ files.length) :
    l.fetch limits n cursor = .ok (.of l.config.retailerId ((files.drop offset).take (limits n).1)
      (l.config.nextState feed (offset + ((files.drop offset).take (limits n).1).length)
        files.length)) := by
  rw [ordered, List.getElem?_map, Option.map_eq_some_iff] at hfiles
  obtain ⟨directory, hdirectory, rfl⟩ := hfiles
  have hlt : feed < l.config.feeds.length := by
    rw [← l.length_eq]
    exact (List.getElem?_eq_some_iff.mp hdirectory).1
  obtain ⟨feedConfig, hfeed⟩ : ∃ feedConfig, l.config.feeds[feed]? = some feedConfig :=
    ⟨_, List.getElem?_eq_getElem hlt⟩
  obtain ⟨entries, hlist, hentries, hbuilt⟩ := l.lists feed feedConfig directory hfeed hdirectory
  have hlength : (deduplicateFiles directory).length ≤ 1000000 := by
    have hle := deduplicateFiles_length_le directory
    have heq := (mapM_eq_ok.mp hbuilt).length_eq
    have hmax := feedConfig.entries_le
    omega
  obtain ⟨state, hdecode, hfeedIndex, hoffsetValue, -⟩ :=
    hcursor.read l.short (hlt.le.trans l.sized) (hoffset.trans hlength) (by simp [hdate])
      (Nat.le_sub_one_of_lt hlt)
  have hvalid := validateLimit_ok (limits n)
  unfold fetch NcrSourceConfig.discover
  simp only [hvalid, hdecode, hfeedIndex, hoffsetValue, hfeed, hlist, hbuilt, require, if_pos hentries,
    if_pos hoffset, bind, Except.bind, pure, Except.pure]

theorem sectioned : Sectioned DiscoveryPage.nextCursor (l.fetch limits) DiscoveryPage.files
    (fun n => (limits n).1)
    (Standing l.config.retailerId (ordered l.directories) fun _ _ => False) := by
  apply sectioned_of_standing
  intro n cursor feed offset date files hcursor hdate hfiles hoffset
  have hnone : date = none := Option.eq_none_iff_forall_not_mem.mpr hdate
  refine ⟨_, fetch_eq hcursor hnone hfiles hoffset, rfl, ?_⟩
  have hfeeds : (ordered l.directories).length = l.config.feeds.length := by
    rw [ordered, List.length_map, l.length_eq]
  simp only [files_of, nextCursor_of, NcrSourceConfig.nextState, hfeeds]
  split_ifs with hmore hlater
  · exact ⟨_, none, rfl, .plain _ _, by simp⟩
  · rfl
  · rfl

theorem complete_fetch {n : Nat} {cursor : Option DiscoveryCursor} {page : DiscoveryPage}
    (h : l.fetch limits n cursor = .ok page) : page.complete = page.nextCursor.isNone := by
  unfold fetch NcrSourceConfig.discover at h
  obtain ⟨-, -, h⟩ := bind_eq_ok.mp h
  obtain ⟨state, -, h⟩ := bind_eq_ok.mp h
  obtain ⟨feed, -, h⟩ := bind_eq_ok.mp h
  obtain ⟨offset, -, h⟩ := bind_eq_ok.mp h
  split at h
  · cases h
  · obtain ⟨entries, -, h⟩ := bind_eq_ok.mp h
    obtain ⟨-, h⟩ := require_bind_eq_ok.mp h
    obtain ⟨built, -, h⟩ := bind_eq_ok.mp h
    obtain ⟨-, h⟩ := require_bind_eq_ok.mp h
    cases pure_eq_ok.mp h
    exact complete_of _ _ _

theorem directories_ne : l.directories ≠ [] := by
  intro hnil
  have hlength := l.length_eq
  rw [hnil] at hlength
  exact l.config.feeds_ne (List.length_eq_zero_iff.mp hlength.symm)

/-- An NCR listing is covered if and only if no directory before the last is empty. -/
theorem covers_iff : Covers (l.fetch limits) l.directories.flatten ↔
    FilledUntilLast l.directories :=
  covers_iff_filled sectioned (fun _ _ _ => complete_fetch) l.distinct directories_ne

end NcrListing

/-! ## Static daily indexes -/

section Dates

variable {site : Site}

theorem dateAt_length {isDigit : Char → Bool} {cs : List Char} {date : String}
    (h : dateAt isDigit cs = some date) : date.length = 10 := by
  have htwo : ∀ {cs found rest}, twoDigits isDigit cs = some (found, rest) → found.length = 2 := by
    intro cs found rest h
    unfold twoDigits at h
    split at h
    · split_ifs at h
      cases h
      rfl
    · cases h
  unfold dateAt at h
  split at h
  · obtain ⟨⟨year, rest⟩, hyear, h⟩ := Option.bind_eq_some_iff.mp h
    obtain ⟨⟨month, rest'⟩, hmonth, h⟩ := Option.bind_eq_some_iff.mp h
    obtain ⟨⟨day, rest''⟩, hday, h⟩ := Option.bind_eq_some_iff.mp h
    dsimp only at h
    split_ifs at h
    cases h
    simp only [String.length_ofList, List.length_append, List.length_cons, List.length_nil,
      htwo hyear, htwo hmonth, htwo hday]
  · cases h

theorem dateFrom_length {isDigit : Char → Bool} {afterDigit : Bool} {cs : List Char} {date : String}
    (h : dateFrom isDigit afterDigit cs = some date) : date.length = 10 := by
  induction cs generalizing afterDigit with
  | nil => cases h
  | cons c cs ih =>
    rw [dateFrom] at h
    cases hat : (if afterDigit then none else dateAt isDigit (c :: cs)) with
    | none =>
      rw [hat] at h
      exact ih h
    | some found =>
      rw [hat] at h
      cases h
      split_ifs at hat
      exact dateAt_length hat

/-- Every date of an index has ten characters. -/
theorem length_of_mem_listedDates {links : List HtmlLink}
    {embedded : Option (String × List EmbeddedRecord)} {date : String}
    (hembedded : ∀ catalog ∈ embedded, catalog.1.length = 10)
    (h : date ∈ site.listedDates links embedded) : date.length = 10 := by
  unfold Site.listedDates at h
  rw [List.mem_insertionSort, List.mem_dedup, List.mem_append, List.mem_filterMap] at h
  rcases h with ⟨link, -, hdate⟩ | hmem
  · exact dateFrom_length hdate
  · rw [Option.mem_toList] at hmem
    obtain ⟨catalog, hcatalog, rfl⟩ := Option.map_eq_some_iff.mp hmem
    exact hembedded catalog hcatalog

theorem embeddedCatalog_spec {page : HtmlPage}
    {embedded : Option (String × List EmbeddedRecord)}
    (h : site.embeddedCatalog page = .ok embedded) :
    ∀ catalog ∈ embedded, catalog.1.length = 10 ∧ catalog.2.length ≤ maximumListingRecords := by
  unfold Site.embeddedCatalog at h
  split at h
  · cases h
    simp
  · rename_i path records hpage
    split at h
    · cases h
    · rename_i date hdate
      cases h
      intro catalog hcatalog
      cases hcatalog
      exact ⟨dateFrom_length hdate, page.records_le (path, records) hpage⟩

end Dates

namespace StaticDailySourceConfig

variable {site : Site} {config : StaticDailySourceConfig} {get : String → Except Failure HtmlPage}
  {feed : StaticDailyFeedConfig} {dateToken : String} {files : List RemoteFile}

theorem fileLinks_length {index : HtmlPage} {baseUrl : String} {links : List HtmlLink}
    (h : fileLinks site get feed index dateToken = .ok (baseUrl, links)) :
    links.length ≤ maximumListingRecords := by
  unfold fileLinks at h
  dsimp only at h
  split at h
  · cases h
    exact (List.length_filter_le _ _).trans index.links_le
  · split at h
    · cases h
    · obtain ⟨-, -, h⟩ := bind_eq_ok.mp h
      obtain ⟨day, -, h⟩ := bind_eq_ok.mp h
      obtain ⟨-, h⟩ := require_bind_eq_ok.mp h
      cases pure_eq_ok.mp h
      exact (List.length_filter_le _ _).trans day.links_le

theorem dayFiles_length {index : HtmlPage} {embedded : Option (String × List EmbeddedRecord)}
    (hembedded : ∀ catalog ∈ embedded, catalog.2.length ≤ maximumListingRecords)
    (h : config.dayFiles site get feed index embedded dateToken = .ok files) :
    files.length ≤ maximumListingRecords := by
  unfold dayFiles at h
  split at h
  · rename_i catalog hfilter
    rw [← (mapM_eq_ok.mp h).length_eq]
    exact hembedded catalog (Option.filter_eq_some_iff.mp hfilter).1
  · obtain ⟨found, hlinks, h⟩ := bind_eq_ok.mp h
    obtain ⟨built, hbuilt, h⟩ := bind_eq_ok.mp h
    cases pure_eq_ok.mp h
    refine (List.reduceOption_length_le built).trans ?_
    rw [← (mapM_eq_ok.mp hbuilt).length_eq]
    exact fileLinks_length hlinks

/-- The listing of a feed stays the same when the date that was found is asked for again. -/
theorem listed_spec (h : config.listed site get feed none = .ok (dateToken, files)) :
    config.listed site get feed (some dateToken) = .ok (dateToken, files) ∧
      dateToken.length = 10 ∧ files.length ≤ maximumListingRecords := by
  unfold listed at h
  obtain ⟨index, hindex, h⟩ := bind_eq_ok.mp h
  obtain ⟨embedded, hembedded, h⟩ := bind_eq_ok.mp h
  have hcatalog := embeddedCatalog_spec hembedded
  dsimp only at h
  rw [Option.none_or] at h
  split at h
  · cases h
  · rename_i date hlast
    obtain ⟨-, h⟩ := require_bind_eq_ok.mp h
    obtain ⟨built, hbuilt, h⟩ := bind_eq_ok.mp h
    cases pure_eq_ok.mp h
    have hdate : dateToken ∈ site.listedDates index.links embedded := List.mem_of_getLast? hlast
    refine ⟨?_, length_of_mem_listedDates (fun c hc => (hcatalog c hc).1) hdate,
      dayFiles_length (fun c hc => (hcatalog c hc).2) hbuilt⟩
    have hasked : ∀ d ∈ some dateToken, d ∈ site.listedDates index.links embedded := by
      intro d hd
      cases hd
      exact hdate
    unfold listed
    simp only [hindex, hembedded, Option.some_or, require, if_pos hasked, hbuilt, bind, Except.bind,
      pure, Except.pure]

end StaticDailySourceConfig

/-- The newest catalogs of a daily source, a date and its files for each feed, with remote ids of
their own. -/
structure StaticDailyListing (site : Site) where
  config : StaticDailySourceConfig
  get : String → Except Failure HtmlPage
  catalogs : List (String × List RemoteFile)
  length_eq : catalogs.length = config.feeds.length
  lists : ∀ (i : Nat) (feed : StaticDailyFeedConfig) (catalog : String × List RemoteFile),
    config.feeds[i]? = some feed → catalogs[i]? = some catalog →
      config.listed site get feed none = .ok catalog
  distinct : ((catalogs.map Prod.snd).flatten.map RemoteFile.remoteId).Nodup
  short : ShortId config.retailerId
  sized : config.feeds.length ≤ maximumSize

namespace StaticDailyListing

variable {site : Site} (l : StaticDailyListing site) (limits : Nat → PageLimit)

/-- The files of each feed. -/
def sections : List (List RemoteFile) := l.catalogs.map Prod.snd

/-- The pages of a traversal. -/
def fetch (n : Nat) (cursor : Option DiscoveryCursor) : Except Failure DiscoveryPage :=
  l.config.discover site l.get cursor (limits n).1

variable {l limits}

/-- The page at a position. -/
theorem fetch_eq {n : Nat} {cursor : Option DiscoveryCursor} {feed offset : Nat}
    {date : Option String} {dateToken : String} {listed : List RemoteFile}
    (hcursor : Names l.config.retailerId cursor feed offset date)
    (hdate : ∀ d ∈ date, d = dateToken) (hcatalog : l.catalogs[feed]? = some (dateToken, listed))
    (hoffset : offset ≤ (deduplicateFiles listed).length) :
    l.fetch limits n cursor = .ok (.of l.config.retailerId
      (((deduplicateFiles listed).drop offset).take (limits n).1)
      (l.config.nextState feed dateToken
        (offset + (((deduplicateFiles listed).drop offset).take (limits n).1).length)
        (deduplicateFiles listed).length)) := by
  have hlt : feed < l.config.feeds.length := by
    rw [← l.length_eq]
    exact (List.getElem?_eq_some_iff.mp hcatalog).1
  obtain ⟨feedConfig, hfeed⟩ : ∃ feedConfig, l.config.feeds[feed]? = some feedConfig :=
    ⟨_, List.getElem?_eq_getElem hlt⟩
  have hlisted := l.lists feed feedConfig _ hfeed hcatalog
  obtain ⟨hagain, hten, hbound⟩ := StaticDailySourceConfig.listed_spec hlisted
  have hfound : l.config.listed site l.get feedConfig date = .ok (dateToken, listed) := by
    cases date with
    | none => exact hlisted
    | some d => rw [hdate d rfl]; exact hagain
  have hlength : (deduplicateFiles listed).length ≤ maximumOffset := by
    have hle := deduplicateFiles_length_le listed
    unfold maximumListingRecords at hbound
    unfold maximumOffset
    omega
  obtain ⟨state, hdecode, hfeedIndex, hoffsetValue, hdateValue⟩ :=
    hcursor.read l.short (hlt.le.trans l.sized) (hoffset.trans hlength)
      (fun d hd => by rw [hdate d hd, hten]) (Nat.le_sub_one_of_lt hlt)
  have hvalid := validateLimit_ok (limits n)
  unfold fetch StaticDailySourceConfig.discover StaticDailySourceConfig.catalog
  simp only [hvalid, hdecode, hfeedIndex, hoffsetValue, hdateValue, hfeed, hfound, Except.map,
    require, if_pos hoffset, bind, Except.bind, pure, Except.pure]

theorem sectioned : Sectioned DiscoveryPage.nextCursor (l.fetch limits) DiscoveryPage.files
    (fun n => (limits n).1) (Standing l.config.retailerId (ordered l.sections)
      fun feed date => (l.catalogs[feed]?).map Prod.fst = some date) := by
  apply sectioned_of_standing
  intro n cursor feed offset date files hcursor hdate hfiles hoffset
  have hfeeds : (ordered l.sections).length = l.config.feeds.length := by
    rw [ordered, sections, List.length_map, List.length_map, l.length_eq]
  rw [ordered, sections, List.map_map, List.getElem?_map, Option.map_eq_some_iff] at hfiles
  obtain ⟨⟨dateToken, listed⟩, hcatalog, rfl⟩ := hfiles
  have hsame : ∀ d ∈ date, d = dateToken := by
    intro d hd
    have := hdate d hd
    rw [hcatalog] at this
    exact (Option.some.inj this).symm
  refine ⟨_, fetch_eq hcursor hsame hcatalog hoffset, rfl, ?_⟩
  simp only [files_of, nextCursor_of, StaticDailySourceConfig.nextState, hfeeds, Function.comp_apply]
  split_ifs with hmore hlater
  · refine ⟨_, some dateToken, rfl, .dated _ _ _, ?_⟩
    intro d hd
    cases hd
    rw [hcatalog]
    rfl
  · rfl
  · rfl

theorem complete_fetch {n : Nat} {cursor : Option DiscoveryCursor} {page : DiscoveryPage}
    (h : l.fetch limits n cursor = .ok page) : page.complete = page.nextCursor.isNone := by
  unfold fetch StaticDailySourceConfig.discover at h
  obtain ⟨-, -, h⟩ := bind_eq_ok.mp h
  obtain ⟨state, -, h⟩ := bind_eq_ok.mp h
  obtain ⟨feed, -, h⟩ := bind_eq_ok.mp h
  obtain ⟨offset, -, h⟩ := bind_eq_ok.mp h
  obtain ⟨date, -, h⟩ := bind_eq_ok.mp h
  split at h
  · cases h
  · obtain ⟨⟨dateToken, files⟩, -, h⟩ := bind_eq_ok.mp h
    obtain ⟨-, h⟩ := require_bind_eq_ok.mp h
    cases pure_eq_ok.mp h
    exact complete_of _ _ _

theorem sections_ne : l.sections ≠ [] := by
  intro hnil
  have hlength := l.length_eq
  rw [List.map_eq_nil_iff.mp hnil] at hlength
  exact l.config.feeds_ne (List.length_eq_zero_iff.mp hlength.symm)

/-- A daily listing is covered if and only if no catalog before the last is empty. -/
theorem covers_iff : Covers (l.fetch limits) l.sections.flatten ↔ FilledUntilLast l.sections :=
  covers_iff_filled sectioned (fun _ _ _ => complete_fetch) l.distinct sections_ne

end StaticDailyListing

end Makolet.Sources
