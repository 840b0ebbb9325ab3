import Makolet.Sources.Coverage

/-!
# Listings in partitions

BINA partitions and paged HTML catalogs, and with them the main result: which of the listings are
covered. BINA passes over empty partitions, so it always is. A paged HTML partition ends at the first
page that announces no further one; a last page with as many files as the configured page size
announces one that does not exist (`PagedHtmlListing.covers_iff`).
-/

set_option autoImplicit false

namespace Makolet.Sources

open Makolet.Domain Makolet.Lib

/-! ## BINA partitions -/

section Stops

/-- The partitions at which a traversal stops: those that are not empty, and the last one. -/
def stops : List (List RemoteFile) → List (List RemoteFile)
  | [] => []
  | [files] => [files]
  | files :: next :: rest =>
    if files = [] then stops (next :: rest) else files :: stops (next :: rest)

theorem stops_flatten (sections : List (List RemoteFile)) :
    (stops sections).flatten = sections.flatten := by
  induction sections using stops.induct with
  | case1 => rfl
  | case2 files => rfl
  | case3 next rest ih => simpa [stops] using ih
  | case4 files next rest hne ih => simp [stops, hne, ih]

theorem stops_ne {sections : List (List RemoteFile)} (h : sections ≠ []) : stops sections ≠ [] := by
  induction sections using stops.induct with
  | case1 => exact absurd rfl h
  | case2 files => simp [stops]
  | case3 next rest ih => simpa [stops] using ih
  | case4 files next rest hne ih => simp [stops, hne]

theorem filledUntilLast_stops (sections : List (List RemoteFile)) :
    FilledUntilLast (stops sections) := by
  unfold FilledUntilLast
  induction sections using stops.induct with
  | case1 => simp [stops]
  | case2 files => simp [stops]
  | case3 next rest ih => simpa [stops] using ih
  | case4 files next rest hne ih =>
    have hstops := stops_ne (List.cons_ne_nil next rest)
    rw [stops, if_neg hne, List.dropLast_cons_of_ne_nil hstops, List.forall_mem_cons]
    exact ⟨hne, ih⟩

end Stops

/-- The partitions of a BINA source on the date of the first request: their records read as files,
ordered by name, with remote ids of their own. -/
structure BinaListing (site : Site) where
  config : BinaSourceConfig
  server : BinaServer
  today : Nat → String
  partitions : List (List RemoteFile)
  length_eq : partitions.length = config.partitions.length
  lists : ∀ (i : Nat) (partition : BinaPartition) (files : List RemoteFile),
    config.partitions[i]? = some partition → partitions[i]? = some files → ∃ entries,
      config.entries server (today 0) partition = .ok entries ∧
        entries.mapM (config.remoteFile site server partition) = .ok files
  distinct : (partitions.flatten.map RemoteFile.remoteId).Nodup
  short : ShortId config.retailerId
  sized : config.partitions.length ≤ maximumSize
  dated : matchesDatePattern site.isDigit (today 0) = true

namespace BinaListing

variable {site : Site} (l : BinaListing site) (limits : Nat → PageLimit)

/-- The pages of a traversal. -/
def fetch (n : Nat) (cursor : Option DiscoveryCursor) : Except Failure DiscoveryPage :=
  l.config.discover site l.server (l.today n) cursor (limits n).1

/-- The position that a cursor names. Only the first page is fetched without one. -/
inductive Names : Nat → Option DiscoveryCursor → Nat → Nat → Prop
  | start : Names 0 none 0 0
  | dated (n partition offset : Nat) : Names n
      (some (encodeCursor l.config.retailerId [("date", .text (l.today 0)),
        ("partition", .int partition), ("offset", .int offset)])) partition offset

/-- Where a traversal stands: before a partition, or inside one. -/
def Standing (n : Nat) (cursor : Option DiscoveryCursor) (rest : List RemoteFile)
    (later : List (List RemoteFile)) : Prop :=
  ∃ partition offset, l.Names n cursor partition offset ∧
    ((offset = 0 ∧ rest :: later = stops (l.partitions.drop partition)) ∨
      ∃ files, 0 < offset ∧ l.partitions[partition]? = some files ∧ offset ≤ files.length ∧
        rest = files.drop offset ∧ later = stops (l.partitions.drop (partition + 1)))

variable {l limits}

theorem today_length : (l.today 0).length = 10 := by
  have h := l.dated
  unfold matchesDatePattern at h
  split at h
  · rename_i heq
    rw [← String.length_toList, heq]
    rfl
  · cases h

theorem Names.read {n : Nat} {cursor : Option DiscoveryCursor} {partition offset : Nat}
    (h : l.Names n cursor partition offset) (hlt : partition < l.config.partitions.length)
    (hoffset : offset ≤ maximumOffset) :
    ∃ state date, decodeCursor l.config.retailerId cursor = .ok state ∧
      cursorInt state "partition" 0 (l.config.partitions.length - 1) = .ok partition ∧
      cursorInt state "offset" 0 maximumOffset = .ok offset ∧ cursorText state "date" = .ok date ∧
      (date.filter fun d => d ≠ "").getD (l.today n) = l.today 0 := by
  have hten := l.today_length
  have hmax := Nat.le_sub_one_of_lt hlt
  cases h with
  | start => exact ⟨[], none, rfl, cursorInt_of rfl hmax, cursorInt_of rfl hoffset, rfl, rfl⟩
  | dated =>
    have hkeys : jsonTextSize "partition" = 11 ∧ jsonTextSize "offset" = 8 ∧
        jsonTextSize "date" = 6 := by
      decide
    have hpartitionSize := jsonSize_int (hlt.le.trans l.sized)
    have hoffsetSize : (CursorValue.int offset).jsonSize ≤ 19 :=
      jsonSize_int (hoffset.trans (by decide))
    have hdateSize : (CursorValue.text (l.today 0)).jsonSize ≤ 2 + 12 * 10 := by
      have hle := jsonTextSize_le (l.today 0)
      rwa [hten] at hle
    refine ⟨_, some (l.today 0), decodeCursor_encodeCursor l.short ?_, cursorInt_of ?_ hmax,
      cursorInt_of ?_ hoffset, ?_, ?_⟩
    · simp only [List.map_cons, List.map_nil, List.sum_cons, List.sum_nil, hkeys]
      omega
    · rw [lookup_version (by decide) (by decide)]
      rfl
    · rw [lookup_version (by decide) (by decide)]
      rfl
    · rw [cursorText, lookup_version (by decide) (by decide)]
      show (if (l.today 0).length ≤ 128 then Except.ok (some (l.today 0)) else _) = _
      rw [if_pos (by omega)]
    · have hne : l.today 0 ≠ "" := by
        intro hempty
        rw [hempty] at hten
        cases hten
      rw [Option.filter_some, if_pos (by simpa using hne), Option.getD_some]

/-- What a partition reads as. -/
theorem entries_spec {i : Nat} {partition : BinaPartition} {files : List RemoteFile}
    (hpartition : l.config.partitions[i]? = some partition)
    (hfiles : l.partitions[i]? = some files) :
    ∃ entries, l.config.entries l.server (l.today 0) partition = .ok entries ∧
      List.Forall₂ (fun entry file => l.config.remoteFile site l.server partition entry = .ok file)
        entries files ∧ files.length ≤ maximumOffset := by
  obtain ⟨entries, hentries, hbuilt⟩ := l.lists i partition files hpartition hfiles
  refine ⟨entries, hentries, mapM_eq_ok.mp hbuilt, ?_⟩
  rw [← (mapM_eq_ok.mp hbuilt).length_eq]
  unfold BinaSourceConfig.entries at hentries
  obtain ⟨records, -, h⟩ := bind_eq_ok.mp hentries
  obtain ⟨hbound, h⟩ := require_bind_eq_ok.mp h
  obtain ⟨-, h⟩ := require_bind_eq_ok.mp h
  obtain ⟨found, hfound, h⟩ := bind_eq_ok.mp h
  cases pure_eq_ok.mp h
  rw [List.length_insertionSort, ← (mapM_eq_ok.mp hfound).length_eq]
  unfold maximumListingRecords at hbound
  unfold maximumOffset
  omega

/-- From the start of a partition, the loop of `discover` goes on to the next stop. -/
theorem seek_start {limit i : Nat} (hlimit : 0 < limit) (hlt : i < l.config.partitions.length) :
    ∃ j partition entries files,
      l.config.seek l.server (l.today 0) limit i 0 (l.config.partitions.drop i) =
        .ok (j, 0, partition, entries) ∧
      l.partitions[j]? = some files ∧
      List.Forall₂ (fun entry file => l.config.remoteFile site l.server partition entry = .ok file)
        entries files ∧
      stops (l.partitions.drop i) = files :: stops (l.partitions.drop (j + 1)) := by
  induction hm : l.config.partitions.length - i generalizing i with
  | zero => omega
  | succ m ih =>
    have hget : l.config.partitions[i]? = some l.config.partitions[i] := List.getElem?_eq_getElem hlt
    have hlt' : i < l.partitions.length := l.length_eq ▸ hlt
    have hfiles : l.partitions[i]? = some l.partitions[i] := List.getElem?_eq_getElem hlt'
    obtain ⟨entries, hentries, hreads, -⟩ := entries_spec hget hfiles
    rw [List.drop_eq_getElem_cons hlt, List.drop_eq_getElem_cons hlt', BinaSourceConfig.seek,
      hentries]
    simp only [bind, Except.bind, require, Nat.zero_le, if_true, List.drop_zero, Nat.lt_irrefl,
      false_or]
    split_ifs with hstop
    · refine ⟨i, _, entries, _, rfl, hfiles, hreads, ?_⟩
      cases hrest : l.partitions.drop (i + 1) with
      | nil => rfl
      | cons next more =>
        -- The partition is not the last one, so it has an entry.
        have hsome : entries ≠ [] := by
          rintro rfl
          rcases hstop with hnil | hlast
          · simp at hnil
          · rw [List.drop_eq_nil_iff] at hlast
            have := congrArg List.length hrest
            simp only [List.length_drop, List.length_cons, l.length_eq] at this
            omega
        have hne : l.partitions[i] ≠ [] := by
          intro hnil
          rw [hnil, List.forall₂_nil_right_iff] at hreads
          exact hsome hreads
        rw [stops, if_neg hne]
    · obtain ⟨hnil, hlast⟩ := not_or.mp hstop
      rw [ne_eq, not_not, List.take_eq_nil_iff] at hnil
      have hentriesNil : entries = [] := hnil.resolve_left (by omega)
      have hnext : i + 1 < l.config.partitions.length := by
        rw [List.drop_eq_nil_iff] at hlast
        omega
      obtain ⟨j, partition, found, files, hseek, hj, hread, hstops⟩ := ih hnext (by omega)
      refine ⟨j, partition, found, files, hseek, hj, hread, ?_⟩
      have hempty : l.partitions[i] = [] := by
        rw [hentriesNil, List.forall₂_nil_left_iff] at hreads
        exact hreads
      have hdrop := List.drop_eq_getElem_cons (l.length_eq ▸ hnext : i + 1 < l.partitions.length)
      rw [hdrop] at hstops ⊢
      rw [stops, if_pos hempty, hstops]

/-- Where the loop of `discover` ends. -/
theorem seek_spec {n limit : Nat} {cursor : Option DiscoveryCursor} {rest : List RemoteFile}
    {later : List (List RemoteFile)} (hlimit : 0 < limit) (h : l.Standing n cursor rest later) :
    ∃ i offset, l.Names n cursor i offset ∧ i < l.config.partitions.length ∧
      offset ≤ maximumOffset ∧ ∃ j start partition entries files,
        l.config.seek l.server (l.today 0) limit i offset (l.config.partitions.drop i) =
          .ok (j, start, partition, entries) ∧
        l.partitions[j]? = some files ∧
        List.Forall₂ (fun entry file => l.config.remoteFile site l.server partition entry = .ok file)
          entries files ∧
        start ≤ files.length ∧ rest = files.drop start ∧
        later = stops (l.partitions.drop (j + 1)) := by
  obtain ⟨i, offset, hnames, ⟨rfl, hstops⟩ | ⟨files, hpos, hfiles, hoffset, rfl, rfl⟩⟩ := h
  · have hlt : i < l.config.partitions.length := by
      by_contra hge
      rw [List.drop_eq_nil_of_le (by rw [l.length_eq]; omega)] at hstops
      cases hstops
    obtain ⟨j, partition, entries, files, hseek, hj, hreads, hnext⟩ := seek_start hlimit hlt
    rw [hnext, List.cons.injEq] at hstops
    obtain ⟨rfl, rfl⟩ := hstops
    exact ⟨i, 0, hnames, hlt, Nat.zero_le _, j, 0, partition, entries, _, hseek, hj, hreads,
      Nat.zero_le _, rfl, rfl⟩
  · have hlt : i < l.config.partitions.length := by
      rw [← l.length_eq]
      exact (List.getElem?_eq_some_iff.mp hfiles).1
    obtain ⟨entries, hentries, hreads, hbound⟩ :=
      entries_spec (List.getElem?_eq_getElem hlt) hfiles
    refine ⟨i, offset, hnames, hlt, hoffset.trans hbound, i, offset, l.config.partitions[i],
      entries, files, ?_, hfiles, hreads, hoffset, rfl, rfl⟩
    rw [List.drop_eq_getElem_cons hlt, BinaSourceConfig.seek, hentries]
    rw [← hreads.length_eq] at hoffset
    simp only [bind, Except.bind, require, if_pos hoffset, hpos, true_or, or_true, if_true]
    rfl

theorem sectioned : Sectioned DiscoveryPage.nextCursor (l.fetch limits) DiscoveryPage.files
    (fun n => (limits n).1) l.Standing := by
  intro n cursor rest later hstanding
  obtain ⟨i, offset, hnames, hlt, hoffset, j, start, partition, entries, files, hseek, hfiles,
    hreads, hstart, rfl, rfl⟩ := seek_spec (limits n).2.1 hstanding
  obtain ⟨state, date, hdecode, hpartition, hoffsetValue, hdateValue, hdate⟩ := hnames.read hlt hoffset
  have hvalid := validateLimit_ok (limits n)
  have hselected : ((entries.drop start).take (limits n).1).mapM
      (l.config.remoteFile site l.server partition) =
        .ok ((files.drop start).take (limits n).1) :=
    mapM_eq_ok.mpr (List.forall₂_take _ (List.forall₂_drop _ hreads))
  have hlength := hreads.length_eq
  have hfetch : l.fetch limits n cursor = .ok (.of l.config.retailerId
      (deduplicateFiles ((files.drop start).take (limits n).1))
      (l.config.nextState (l.today 0) j (start + min (limits n).1 (files.length - start))
        files.length)) := by
    unfold fetch BinaSourceConfig.discover
    simp only [hvalid, hdecode, hpartition, hoffsetValue, hdateValue, hdate, l.dated, hseek,
      hselected, require, if_true, bind, Except.bind, pure, Except.pure, List.length_take,
      List.length_drop, hlength]
  have hdistinct : (((files.drop start).take (limits n).1).map RemoteFile.remoteId).Nodup :=
    (nodup_of_mem l.distinct (List.mem_of_getElem? hfiles)).sublist
      (((List.take_sublist _ _).trans (List.drop_sublist _ _)).map _)
  refine ⟨_, hfetch, deduplicateFiles_perm hdistinct, ?_⟩
  dsimp only
  have hj : j < l.partitions.length := (List.getElem?_eq_some_iff.mp hfiles).1
  simp only [nextCursor_of, BinaSourceConfig.nextState, List.length_drop]
  by_cases hmore : (limits n).1 < files.length - start
  · -- The partition goes on.
    have hpos := (limits n).2.1
    refine .inl ⟨hmore, _, by rw [if_pos (by omega)]; rfl, j, _, .dated _ _ _, .inr ⟨files, by omega,
      hfiles, by omega, ?_, rfl⟩⟩
    rw [List.drop_drop]
    congr 1
    omega
  · rw [if_neg (by omega)]
    by_cases hnext : j + 1 < l.config.partitions.length
    · -- The next partition, or the first one after it that is not empty.
      have hne : l.partitions.drop (j + 1) ≠ [] := by
        rw [ne_eq, List.drop_eq_nil_iff, l.length_eq]
        omega
      obtain ⟨s, ss, hstops⟩ := List.exists_cons_of_ne_nil (stops_ne hne)
      refine .inr (.inr ⟨by omega, encodeCursor l.config.retailerId [("date", .text (l.today 0)),
        ("partition", .int (j + 1)), ("offset", .int 0)], s, ss, hstops, ?_, ?_⟩)
      · rw [if_pos hnext]
        rfl
      · exact ⟨j + 1, 0, .dated _ _ _, .inl ⟨rfl, hstops.symm⟩⟩
    · refine .inr (.inl ⟨by omega, ?_, ?_⟩)
      · rw [List.drop_eq_nil_of_le (by rw [l.length_eq]; omega)]
        rfl
      · rw [if_neg hnext]
        rfl

theorem complete_fetch {n : Nat} {cursor : Option DiscoveryCursor} {page : DiscoveryPage}
    (h : l.fetch limits n cursor = .ok page) : page.complete = page.nextCursor.isNone := by
  unfold fetch BinaSourceConfig.discover at h
  obtain ⟨-, -, h⟩ := bind_eq_ok.mp h
  obtain ⟨state, -, h⟩ := bind_eq_ok.mp h
  obtain ⟨partition, -, h⟩ := bind_eq_ok.mp h
  obtain ⟨offset, -, h⟩ := bind_eq_ok.mp h
  obtain ⟨date, -, h⟩ := bind_eq_ok.mp h
  obtain ⟨-, h⟩ := require_bind_eq_ok.mp h
  obtain ⟨found, -, h⟩ := bind_eq_ok.mp h
  obtain ⟨files, -, h⟩ := bind_eq_ok.mp h
  cases pure_eq_ok.mp h
  exact complete_of _ _ _

/-- A BINA listing is covered. -/
theorem covers : Covers (l.fetch limits) l.partitions.flatten := by
  have hne : l.partitions ≠ [] := by
    intro hnil
    have hlength := l.length_eq
    rw [hnil] at hlength
    exact l.config.partitions_ne (List.length_eq_zero_iff.mp hlength.symm)
  obtain ⟨first, later, hstops⟩ := List.exists_cons_of_ne_nil (stops_ne hne)
  have hfilled : FilledUntilLast (first :: later) := hstops ▸ filledUntilLast_stops l.partitions
  refine (covers_iff_of_sectioned sectioned (fun _ _ _ => complete_fetch)
    ⟨0, 0, .start, .inl ⟨rfl, hstops.symm⟩⟩ ?_).mpr hfilled
  show (first :: later).flatten.Perm _
  rw [← hstops, stops_flatten]

end BinaListing

/-! ## Paged HTML catalogs -/

/-- A page says that another one follows it: it links a later page, or it has as many files as the
page size. -/
def Announces (config : PagedHtmlSourceConfig) (page count : Nat) (numbers : List Nat) : Prop :=
  (∃ number ∈ numbers, page < number) ∨ ∃ hint ∈ config.pageSizeHint, hint ≤ count

theorem hasNextPage_eq_true {config : PagedHtmlSourceConfig} {page count : Nat}
    {numbers : List Nat} : config.hasNextPage page count numbers = true ↔
      page < config.maximumPages ∧ Announces config page count numbers := by
  simp [PagedHtmlSourceConfig.hasNextPage, Announces, Option.any_eq_true]

/-- The partitions of a paged catalog, page by page, on the local dates of the requests. No partition
has more pages than are asked for. Every page lists files, each with a remote id of its own; a page
that another one follows announces it, and the last one links no later page. A page after the last
one, should the server answer for it, lists no file. -/
structure PagedHtmlListing (site : Site) where
  config : PagedHtmlSourceConfig
  get : Query → Except Failure HtmlPage
  dates : Nat → String
  partitions : List (List (List RemoteFile))
  length_eq : partitions.length = config.partitions.length
  pages_ne : ∀ pages ∈ partitions, pages ≠ [] ∧ ∀ files ∈ pages, files ≠ []
  pages_le : ∀ pages ∈ partitions, config.firstPage + pages.length ≤ config.maximumPages + 1
  serves : ∀ (n i : Nat) (partition : Query) (pages : List (List RemoteFile)),
    config.partitions[i]? = some partition → partitions[i]? = some pages →
      ∀ (k : Nat) (files : List RemoteFile), pages[k]? = some files → ∃ response built,
        get (config.query partition (dates n) (config.firstPage + k)) = .ok response ∧
          response.links.mapM (config.linkFile site response.finalUrl) = .ok built ∧
          built.reduceOption = files ∧
          if k + 1 < pages.length then Announces config (config.firstPage + k) files.length
            (response.links.flatMap site.pageNumbers)
          else ∀ number ∈ response.links.flatMap site.pageNumbers, number ≤ config.firstPage + k
  beyond : ∀ (n i : Nat) (partition : Query) (pages : List (List RemoteFile)),
    config.partitions[i]? = some partition → partitions[i]? = some pages →
      ∀ response built,
        get (config.query partition (dates n) (config.firstPage + pages.length)) = .ok response →
          response.links.mapM (config.linkFile site response.finalUrl) = .ok built →
            built.reduceOption = []
  distinct : (partitions.flatten.flatten.map RemoteFile.remoteId).Nodup
  short : ShortId config.retailerId
  sized : config.partitions.length ≤ maximumSize ∧ config.maximumPages ≤ maximumSize

/-- The last page of a partition does not look full, or no page may follow it. -/
def EndsShort (config : PagedHtmlSourceConfig) (pages : List (List RemoteFile)) : Prop :=
  ∀ last ∈ pages.getLast?, ∀ hint ∈ config.pageSizeHint,
    last.length < hint ∨ config.maximumPages ≤ config.firstPage + (pages.length - 1)

namespace PagedHtmlListing

variable {site : Site} (l : PagedHtmlListing site) (limits : Nat → PageLimit)

/-- The pages of a traversal. -/
def fetch (n : Nat) (cursor : Option DiscoveryCursor) : Except Failure DiscoveryPage :=
  l.config.discover site l.get (l.dates n) cursor (limits n).1

/-- The partition, the page after the first one and the offset that a cursor names. -/
inductive Names : Option DiscoveryCursor → Nat → Nat → Nat → Prop
  | start : Names none 0 0 0
  | at (partition k offset : Nat) : Names (some (encodeCursor l.config.retailerId
      (PagedHtmlSourceConfig.state partition (l.config.firstPage + k) offset))) partition k offset

/-- Where a traversal stands: in a page of a partition, at an offset of its ordered files. -/
def Standing (_ : Nat) (cursor : Option DiscoveryCursor) (rest : List RemoteFile)
    (later : List (List RemoteFile)) : Prop :=
  ∃ partition k offset pages files, l.Names cursor partition k offset ∧
    l.partitions[partition]? = some pages ∧ pages[k]? = some files ∧
    offset ≤ (deduplicateFiles files).length ∧ rest = (deduplicateFiles files).drop offset ∧
    later = ordered (pages.drop (k + 1)) ++ ordered (l.partitions.drop (partition + 1)).flatten

variable {l limits}

theorem Names.read {cursor : Option DiscoveryCursor} {partition k offset : Nat}
    (h : l.Names cursor partition k offset) (hlt : partition < l.config.partitions.length)
    (hpage : l.config.firstPage + k ≤ l.config.maximumPages) (hoffset : offset ≤ maximumOffset) :
    ∃ state, decodeCursor l.config.retailerId cursor = .ok state ∧
      cursorInt state "partition" 0 (l.config.partitions.length - 1) = .ok partition ∧
      cursorInt state "page" l.config.firstPage l.config.maximumPages =
        .ok (l.config.firstPage + k) ∧
      cursorInt state "offset" 0 maximumOffset = .ok offset := by
  have hmax := Nat.le_sub_one_of_lt hlt
  cases h with
  | start =>
    exact ⟨[], rfl, cursorInt_of rfl hmax, cursorInt_of rfl hpage, cursorInt_of rfl hoffset⟩
  | «at» =>
    have hkeys : jsonTextSize "partition" = 11 ∧ jsonTextSize "offset" = 8 ∧
        jsonTextSize "page" = 6 := by
      decide
    have hpartitionSize := jsonSize_int (hlt.le.trans l.sized.1)
    have hpageSize := jsonSize_int (hpage.trans l.sized.2)
    have hoffsetSize : (CursorValue.int offset).jsonSize ≤ 19 :=
      jsonSize_int (hoffset.trans (by decide))
    refine ⟨_, decodeCursor_encodeCursor l.short ?_, cursorInt_of ?_ hmax, cursorInt_of ?_ hpage,
      cursorInt_of ?_ hoffset⟩
    · simp only [PagedHtmlSourceConfig.state, List.map_cons, List.map_nil, List.sum_cons,
        List.sum_nil, hkeys]
      omega
    all_goals
      rw [lookup_version (by decide) (by decide)]
      rfl

theorem page_le {partition k : Nat} {pages : List (List RemoteFile)}
    (hpages : l.partitions[partition]? = some pages) (hk : k < pages.length) :
    l.config.firstPage + k ≤ l.config.maximumPages := by
  have hle := l.pages_le pages (List.mem_of_getElem? hpages)
  omega

/-- What a page reads as, and what it returns at an offset. -/
theorem fetch_eq (limits : Nat → PageLimit) (n : Nat) {cursor : Option DiscoveryCursor}
    {partition k offset : Nat}
    {pages : List (List RemoteFile)} {files : List RemoteFile}
    (hnames : l.Names cursor partition k offset) (hpages : l.partitions[partition]? = some pages)
    (hfiles : pages[k]? = some files) (hoffset : offset ≤ (deduplicateFiles files).length) :
    ∃ numbers, l.fetch limits n cursor = .ok (.of l.config.retailerId
        (((deduplicateFiles files).drop offset).take (limits n).1)
        (l.config.nextState partition (l.config.firstPage + k)
          (offset + min (limits n).1 ((deduplicateFiles files).length - offset))
          (deduplicateFiles files).length numbers)) ∧
      (deduplicateFiles files).Perm files ∧
      if k + 1 < pages.length then
        l.config.hasNextPage (l.config.firstPage + k) files.length numbers = true
      else ∀ number ∈ numbers, number ≤ l.config.firstPage + k := by
  have hlt : partition < l.config.partitions.length := by
    rw [← l.length_eq]
    exact (List.getElem?_eq_some_iff.mp hpages).1
  have hquery : l.config.partitions[partition]? = some l.config.partitions[partition] :=
    List.getElem?_eq_getElem hlt
  obtain ⟨response, built, hget, hbuilt, hreads, hnext⟩ :=
    l.serves n partition _ pages hquery hpages k files hfiles
  have hpage := page_le hpages (List.getElem?_eq_some_iff.mp hfiles).1
  have hmem : files ∈ l.partitions.flatten :=
    List.mem_flatten.mpr ⟨pages, List.mem_of_getElem? hpages, List.mem_of_getElem? hfiles⟩
  have hperm := deduplicateFiles_perm (nodup_of_mem l.distinct hmem)
  have hne : deduplicateFiles files ≠ [] := by
    intro hnil
    exact (l.pages_ne pages (List.mem_of_getElem? hpages)).2 files (List.mem_of_getElem? hfiles)
      (List.nil_perm.mp (hnil ▸ hperm))
  have hlength : (deduplicateFiles files).length ≤ maximumOffset := by
    have hbound := response.links_le
    have hsize := List.reduceOption_length_le built
    rw [(mapM_eq_ok.mp hbuilt).length_eq] at hbound
    rw [hperm.length_eq, ← hreads]
    unfold maximumListingRecords at hbound
    unfold maximumOffset
    omega
  obtain ⟨state, hdecode, hpartition, hpageValue, hoffsetValue⟩ :=
    hnames.read hlt hpage (hoffset.trans hlength)
  have hvalid := validateLimit_ok (limits n)
  replace hnext : if k + 1 < pages.length then
        l.config.hasNextPage (l.config.firstPage + k) files.length
          (response.links.flatMap site.pageNumbers) = true
      else ∀ number ∈ response.links.flatMap site.pageNumbers,
        number ≤ l.config.firstPage + k := by
    by_cases hmore : k + 1 < pages.length
    · rw [if_pos hmore] at hnext ⊢
      exact hasNextPage_eq_true.mpr ⟨page_le hpages hmore, hnext⟩
    · rwa [if_neg hmore] at hnext ⊢
  refine ⟨_, ?_, hperm, hnext⟩
  unfold fetch PagedHtmlSourceConfig.discover
  simp only [hvalid, hdecode, hpartition, hpageValue, hoffsetValue, hquery, hget, hbuilt, hreads,
    require, Nat.le_add_right, if_true, if_pos hne, if_pos hoffset, bind, Except.bind, pure,
    Except.pure, List.length_take, List.length_drop]

/-- Whether a page after the last one is asked for. -/
theorem hasNextPage_last {k : Nat} {pages : List (List RemoteFile)} {files : List RemoteFile}
    {numbers : List Nat} (hfiles : pages[k]? = some files) (hk : ¬ k + 1 < pages.length)
    (hnumbers : ∀ number ∈ numbers, number ≤ l.config.firstPage + k) :
    l.config.hasNextPage (l.config.firstPage + k) files.length numbers = false ↔
      EndsShort l.config pages := by
  have hlt := (List.getElem?_eq_some_iff.mp hfiles).1
  have hlast : pages.getLast? = some files := by
    rw [List.getLast?_eq_getElem?, show pages.length - 1 = k by omega]
    exact hfiles
  have hexplicit : (numbers.any fun c => decide (l.config.firstPage + k < c)) = false := by
    rw [List.any_eq_false]
    intro c hc
    have := hnumbers c hc
    simp only [decide_eq_true_eq]
    omega
  have hk' : k = pages.length - 1 := by omega
  unfold PagedHtmlSourceConfig.hasNextPage EndsShort
  rw [hlast, hexplicit, ← hk']
  cases l.config.pageSizeHint with
  | none => simp
  | some hint =>
    simp only [Option.any_some, Bool.false_or, Bool.and_eq_false_iff, decide_eq_false_iff_not,
      Option.mem_def, Option.some.injEq, forall_eq']
    omega

/-- The start of a partition. -/
theorem exists_first {partition : Nat} (hlt : partition < l.partitions.length) :
    ∃ files rest, l.partitions[partition] = files :: rest :=
  List.exists_cons_of_ne_nil (l.pages_ne _ (List.getElem_mem hlt)).1

theorem sectioned (hshort : ∀ pages ∈ l.partitions, EndsShort l.config pages) :
    Sectioned DiscoveryPage.nextCursor (l.fetch limits) DiscoveryPage.files
      (fun n => (limits n).1) l.Standing := by
  rintro n cursor _ _ ⟨partition, k, offset, pages, files, hnames, hpages, hfiles, hoffset, rfl, rfl⟩
  obtain ⟨numbers, hfetch, hperm, hnext⟩ :=
    fetch_eq limits n hnames hpages hfiles hoffset
  refine ⟨_, hfetch, List.Perm.refl _, ?_⟩
  dsimp only
  have hk := (List.getElem?_eq_some_iff.mp hfiles).1
  have hpartition := (List.getElem?_eq_some_iff.mp hpages).1
  simp only [nextCursor_of, PagedHtmlSourceConfig.nextState, List.length_drop]
  by_cases hmore : (limits n).1 < (deduplicateFiles files).length - offset
  · -- The page goes on.
    refine .inl ⟨hmore, _, by rw [if_pos (by omega)]; rfl, partition, k, _, pages, files, .at _ _ _,
      hpages, hfiles, by omega, ?_, rfl⟩
    rw [List.drop_drop]
    congr 1
    omega
  · have hend : files.length - offset ≤ (limits n).1 := by
      rw [← hperm.length_eq]
      omega
    rw [if_neg (by omega), hperm.length_eq]
    by_cases hlast : k + 1 < pages.length
    · -- The next page of the partition.
      rw [if_pos hlast] at hnext
      refine .inr (.inr ⟨hend, _, _, _, ?_, by rw [if_pos hnext]; rfl, partition, k + 1, 0, pages,
        pages[k + 1], .at _ _ _, hpages, List.getElem?_eq_getElem hlast, Nat.zero_le _, rfl, rfl⟩)
      rw [List.drop_eq_getElem_cons hlast]
      rfl
    · rw [if_neg hlast] at hnext
      have hends := (hasNextPage_last hfiles hlast hnext).mpr
        (hshort pages (List.mem_of_getElem? hpages))
      have hdone : pages.drop (k + 1) = [] := List.drop_eq_nil_of_le (by omega)
      rw [hends, hdone]
      by_cases hlater : partition + 1 < l.config.partitions.length
      · -- The next partition.
        have hlt : partition + 1 < l.partitions.length := l.length_eq ▸ hlater
        obtain ⟨first, rest, hfirst⟩ := exists_first hlt
        refine .inr (.inr ⟨hend, _, deduplicateFiles first, ordered rest ++
            ordered (l.partitions.drop (partition + 1 + 1)).flatten, ?_, ?_, partition + 1, 0, 0,
          l.partitions[partition + 1], first, .at _ _ _, List.getElem?_eq_getElem hlt, ?_,
          Nat.zero_le _, rfl, ?_⟩)
        · rw [List.drop_eq_getElem_cons hlt, hfirst]
          simp [ordered]
        · simp [hlater]
        · rw [hfirst]
          rfl
        · rw [hfirst]
          rfl
      · refine .inr (.inl ⟨hend, ?_, ?_⟩)
        · rw [List.drop_eq_nil_of_le (by rw [l.length_eq]; omega)]
          rfl
        · simp [hlater]

theorem complete_fetch {n : Nat} {cursor : Option DiscoveryCursor} {page : DiscoveryPage}
    (h : l.fetch limits n cursor = .ok page) : page.complete = page.nextCursor.isNone := by
  unfold fetch PagedHtmlSourceConfig.discover at h
  obtain ⟨-, -, h⟩ := bind_eq_ok.mp h
  obtain ⟨state, -, h⟩ := bind_eq_ok.mp h
  obtain ⟨partition, -, h⟩ := bind_eq_ok.mp h
  obtain ⟨page, -, h⟩ := bind_eq_ok.mp h
  obtain ⟨-, h⟩ := require_bind_eq_ok.mp h
  obtain ⟨offset, -, h⟩ := bind_eq_ok.mp h
  split at h
  · cases h
  · obtain ⟨response, -, h⟩ := bind_eq_ok.mp h
    obtain ⟨built, -, h⟩ := bind_eq_ok.mp h
    obtain ⟨-, h⟩ := require_bind_eq_ok.mp h
    obtain ⟨-, h⟩ := require_bind_eq_ok.mp h
    cases pure_eq_ok.mp h
    exact complete_of _ _ _

/-- The fetch of a page after the last one fails. -/
theorem fetch_beyond {n : Nat} {cursor : Option DiscoveryCursor} {partition : Nat}
    {pages : List (List RemoteFile)} (hnames : l.Names cursor partition pages.length 0)
    (hpages : l.partitions[partition]? = some pages)
    (hpage : l.config.firstPage + pages.length ≤ l.config.maximumPages) (page : DiscoveryPage) :
    l.fetch limits n cursor ≠ .ok page := by
  have hlt : partition < l.config.partitions.length := by
    rw [← l.length_eq]
    exact (List.getElem?_eq_some_iff.mp hpages).1
  have hquery : l.config.partitions[partition]? = some l.config.partitions[partition] :=
    List.getElem?_eq_getElem hlt
  obtain ⟨state, hdecode, hpartition, hpageValue, hoffsetValue⟩ :=
    hnames.read hlt hpage (Nat.zero_le _)
  intro h
  unfold fetch PagedHtmlSourceConfig.discover at h
  rw [validateLimit_ok, hdecode] at h
  simp only [hpartition, hpageValue, hoffsetValue, hquery, require, Nat.le_add_right, if_true,
    bind_eq_ok, Except.ok.injEq, exists_eq_left'] at h
  obtain ⟨_, -, _, -, response, hget, built, hbuilt, _, hsome, -⟩ := h
  rw [l.beyond n partition _ pages hquery hpages response built hget hbuilt,
    if_neg (show ¬ deduplicateFiles [] ≠ [] from fun h => h rfl)] at hsome
  cases hsome

/-- A traversal that has to pass a partition whose last page looks full does not end. -/
theorem not_covers {bad : Nat} {pages : List (List RemoteFile)}
    (hbad : l.partitions[bad]? = some pages) (hlong : ¬ EndsShort l.config pages) :
    ¬ Covers (l.fetch limits) l.partitions.flatten.flatten := by
  rintro ⟨returned, htraverses, -⟩
  -- From a page before the end of the bad partition, or from the page after one.
  refine not_traverses (P := fun _ cursor =>
    (∃ partition k offset here files, l.Names cursor partition k offset ∧ partition ≤ bad ∧
      l.partitions[partition]? = some here ∧ here[k]? = some files ∧
        offset ≤ (deduplicateFiles files).length) ∨
    ∃ partition here, l.Names cursor partition here.length 0 ∧
      l.partitions[partition]? = some here ∧
        l.config.firstPage + here.length ≤ l.config.maximumPages) ?_ ?_ htraverses
  · rintro n cursor page (⟨partition, k, offset, here, files, hnames, hle, hhere, hfiles, hoffset⟩ |
      ⟨partition, here, hnames, hhere, hpage⟩) hfetched
    · obtain ⟨numbers, hfetch, hperm, hnext⟩ :=
        fetch_eq limits n hnames hhere hfiles hoffset
      rw [hfetch, Except.ok.injEq] at hfetched
      subst hfetched
      simp only [nextCursor_of, PagedHtmlSourceConfig.nextState, hperm.length_eq]
      have hk := (List.getElem?_eq_some_iff.mp hfiles).1
      have hpartition := (List.getElem?_eq_some_iff.mp hhere).1
      by_cases hmore : offset + min (limits n).1 (files.length - offset) < files.length
      · refine ⟨_, by rw [if_pos hmore]; rfl, .inl ⟨partition, k, _, here, files, .at _ _ _, hle,
          hhere, hfiles, ?_⟩⟩
        rw [hperm.length_eq]
        omega
      · rw [if_neg hmore]
        by_cases hlast : k + 1 < here.length
        · rw [if_pos hlast] at hnext
          exact ⟨_, by rw [if_pos hnext]; rfl, .inl ⟨partition, k + 1, 0, here, here[k + 1],
            .at partition (k + 1) 0, hle, hhere, List.getElem?_eq_getElem hlast, Nat.zero_le _⟩⟩
        · rw [if_neg hlast] at hnext
          have hends := hasNextPage_last hfiles hlast hnext
          have hlength : k + 1 = here.length := by omega
          cases hpast : l.config.hasNextPage (l.config.firstPage + k) files.length numbers with
          | true =>
            refine ⟨_, rfl, .inr ⟨partition, here, ?_, hhere, ?_⟩⟩
            · rw [← hlength]
              exact .at partition (k + 1) 0
            · unfold PagedHtmlSourceConfig.hasNextPage at hpast
              simp only [Bool.and_eq_true, decide_eq_true_eq] at hpast
              omega
          | false =>
            -- This partition ends short, so it is before the bad one.
            have hne : partition ≠ bad := by
              rintro rfl
              rw [hbad, Option.some.injEq] at hhere
              exact hlong (hhere ▸ hends.mp hpast)
            have hltBad := (List.getElem?_eq_some_iff.mp hbad).1
            have hlt : partition + 1 < l.partitions.length := by omega
            obtain ⟨first, rest, hfirst⟩ := exists_first hlt
            refine ⟨_, by rw [if_neg (by simp), if_pos (l.length_eq ▸ hlt)]; rfl, .inl
              ⟨partition + 1, 0, 0, _, first, .at _ _ _, by omega, List.getElem?_eq_getElem hlt, ?_,
                Nat.zero_le _⟩⟩
            rw [hfirst]
            rfl
    · exact absurd hfetched (fetch_beyond hnames hhere hpage page)
  · have hlt : 0 < l.partitions.length := (Nat.zero_le _).trans_lt
      (List.getElem?_eq_some_iff.mp hbad).1
    obtain ⟨first, rest, hfirst⟩ := exists_first hlt
    refine .inl ⟨0, 0, 0, _, first, .start, Nat.zero_le _, List.getElem?_eq_getElem hlt, ?_,
      Nat.zero_le _⟩
    rw [hfirst]
    rfl

/-- A paged catalog is covered if and only if the last page of each partition does not look full. -/
theorem covers_iff : Covers (l.fetch limits) l.partitions.flatten.flatten ↔
    ∀ pages ∈ l.partitions, EndsShort l.config pages := by
  constructor
  · intro h pages hpages
    obtain ⟨i, hi⟩ := List.mem_iff_getElem?.mp hpages
    by_contra hlong
    exact not_covers hi hlong h
  · intro hshort
    have hlt : 0 < l.partitions.length := by
      rw [l.length_eq]
      exact List.length_pos_iff.mpr l.config.partitions_ne
    obtain ⟨first, rest, hfirst⟩ := exists_first hlt
    have hparts : l.partitions = (first :: rest) :: l.partitions.drop 1 := by
      rw [← hfirst]
      exact List.drop_eq_getElem_cons hlt
    have hall : l.partitions.flatten = first :: (rest ++ (l.partitions.drop 1).flatten) := by
      conv_lhs => rw [hparts]
      simp
    have hordered : ordered l.partitions.flatten =
        deduplicateFiles first :: (ordered rest ++ ordered (l.partitions.drop 1).flatten) := by
      rw [hall]
      simp [ordered]
    have hfilled : FilledUntilLast (ordered l.partitions.flatten) := by
      rw [filledUntilLast_ordered l.distinct]
      intro files hfiles
      obtain ⟨pages, hpages, hmem⟩ := List.mem_flatten.mp (List.mem_of_mem_dropLast hfiles)
      exact (l.pages_ne pages hpages).2 files hmem
    rw [hordered] at hfilled
    refine (covers_iff_of_sectioned (sectioned hshort) (fun _ _ _ => complete_fetch)
      ⟨0, 0, 0, l.partitions[0], first, .start, List.getElem?_eq_getElem hlt, ?_, Nat.zero_le _, rfl,
        ?_⟩ ?_).mpr hfilled
    · rw [hfirst]
      rfl
    · rw [hfirst]
      rfl
    · show (deduplicateFiles first :: _).flatten.Perm _
      rw [← hordered]
      exact flatten_ordered_perm l.distinct

end PagedHtmlListing

/-! ## The four adapters -/

/-- A well-formed listing of an offset-cursor source. -/
inductive Listing (site : Site)
  | ncr (l : NcrListing site)
  | staticDaily (l : StaticDailyListing site)
  | pagedHtml (l : PagedHtmlListing site)
  | bina (l : BinaListing site)

namespace Listing

variable {site : Site}

/-- The pages that the adapter of the source returns. -/
def fetch (limits : Nat → PageLimit) : Listing site → Nat → Option DiscoveryCursor →
    Except Failure DiscoveryPage
  | .ncr l => l.fetch limits
  | .staticDaily l => l.fetch limits
  | .pagedHtml l => l.fetch limits
  | .bina l => l.fetch limits

/-- The files of the listing. -/
def files : Listing site → List RemoteFile
  | .ncr l => l.directories.flatten
  | .staticDaily l => l.sections.flatten
  | .pagedHtml l => l.partitions.flatten.flatten
  | .bina l => l.partitions.flatten

/-- No NCR directory and no daily catalog before the last one is empty, and the last page of a paged
partition does not look full. -/
def Coverable : Listing site → Prop
  | .ncr l => FilledUntilLast l.directories
  | .staticDaily l => FilledUntilLast l.sections
  | .pagedHtml l => ∀ pages ∈ l.partitions, EndsShort l.config pages
  | .bina _ => True

/-- Which listings their adapter covers, whatever the limits of the pages are. -/
theorem covers_iff_coverable (l : Listing site) (limits : Nat → PageLimit) :
    Covers (l.fetch limits) l.files ↔ l.Coverable := by
  cases l with
  | ncr l => exact l.covers_iff
  | staticDaily l => exact l.covers_iff
  | pagedHtml l => exact l.covers_iff
  | bina l => exact iff_of_true l.covers trivial

end Listing

/-! ## Listings that are not covered -/

/-- A site whose links and names read as they are written. -/
def plainSite : Site where
  filenameFromLink := fun link => some link.text
  pageNumbers := fun _ => []
  absoluteUrl := fun base href => base ++ href
  hostname := fun _ => "prices.example"
  casefold := id
  quote := id
  isDigit := Char.isDigit
  validateDiscoveredUrl := fun _ _ _ => .ok ()
  validateListingPageUrl := fun _ _ => .ok ()
  safeBasename := .ok
  canonicalRemoteId := fun url _ => url
  inferCompression := fun _ => .gzip
  validateRemoteFile := fun _ => .ok ()

def plainFeed (portalId : String) : NcrFeedConfig :=
  ⟨portalId, .ftps, "prices.example", "/", 10000, by decide⟩

def plainFile (url filename : String) : RemoteFile :=
  ⟨"chain", "portal", url, url, filename, .gzip, none⟩

/-- Two NCR directories of which the first one is empty. -/
def emptyDirectoryFirst : NcrListing plainSite where
  config := ⟨"chain", [plainFeed "empty", plainFeed "portal"], by decide⟩
  list := fun feed => .ok (if feed.portalId = "empty" then [] else [⟨"Stores1.gz", none⟩])
  directories := [[], [plainFile "ftps://prices.example/Stores1.gz" "Stores1.gz"]]
  length_eq := rfl
  lists := by
    intro i feed files hfeed hfiles
    match i with
    | 0 =>
      cases hfeed
      cases hfiles
      exact ⟨_, rfl, by decide, rfl⟩
    | 1 =>
      cases hfeed
      cases hfiles
      exact ⟨_, rfl, by decide, rfl⟩
    | _ + 2 => cases hfeed
  distinct := by decide
  short := by decide
  sized := by decide

def plainDaily (indexUrl : String) : StaticDailyFeedConfig :=
  ⟨"portal", indexUrl, ["prices.example"], ["prices.example"]⟩

/-- Two daily feeds that embed the catalog of one day, the first one without files. -/
def emptyCatalogFirst : StaticDailyListing plainSite where
  config := ⟨"chain", [plainDaily "a/", plainDaily "b/"], by decide⟩
  get := fun url => .ok
    { finalUrl := url
      links := []
      embedded := some ("20260811", if url = "a/" then [] else [⟨some "Stores1.gz", none⟩])
      links_le := by decide
      records_le := by
        intro catalog hcatalog
        cases hcatalog
        dsimp only
        split <;> decide }
  catalogs := [("2026-08-11", []), ("2026-08-11", [plainFile "b/20260811/Stores1.gz" "Stores1.gz"])]
  length_eq := rfl
  lists := by
    intro i feed catalog hfeed hcatalog
    match i with
    | 0 =>
      cases hfeed
      cases hcatalog
      rfl
    | 1 =>
      cases hfeed
      cases hcatalog
      rfl
    | _ + 2 => cases hfeed
  distinct := by decide
  short := by decide
  sized := by decide

/-- A catalog of one page that is as long as the configured page size. -/
def fullLastPage : PagedHtmlListing plainSite where
  config := ⟨"chain", "portal", "listing", ["prices.example"], [[]], none, "page", 1, 1000, some 1,
    false, by decide, by decide⟩
  get := fun query => if query = [("page", "1")] then
      .ok ⟨"", [⟨"Stores1.gz", "Stores1.gz", [], "Stores1.gz"⟩], none, by decide, by simp⟩
    else .ok ⟨"", [], none, by decide, by simp⟩
  dates := fun _ => "2026-08-11"
  partitions := [[[plainFile "Stores1.gz" "Stores1.gz"]]]
  length_eq := rfl
  pages_ne := by decide
  pages_le := by decide
  serves := by
    intro n i partition pages hpartition hpages k files hfiles
    match i, k with
    | 0, 0 =>
      cases hpartition
      cases hpages
      cases hfiles
      refine ⟨_, _, rfl, rfl, rfl, ?_⟩
      rw [if_neg (by decide)]
      decide
    | 0, _ + 1 =>
      cases hpages
      cases hfiles
    | _ + 1, _ => cases hpages
  beyond := by
    intro n i partition pages hpartition hpages response built hget hbuilt
    match i with
    | 0 =>
      cases hpartition
      cases hpages
      cases hget
      cases hbuilt
      rfl
    | _ + 1 => cases hpages
  distinct := by decide
  short := by decide
  sized := by decide

/-- Every page as long as `validate_limit` admits. -/
def widestPages (_ : Nat) : PageLimit := ⟨500, by decide⟩

/-- An empty directory or catalog before the last one is an empty page that is not the last; a full
last page is followed by a request that fails. -/
theorem listings_not_covered :
    ¬ Covers ((Listing.ncr emptyDirectoryFirst).fetch widestPages)
        (Listing.ncr emptyDirectoryFirst).files ∧
      ¬ Covers ((Listing.staticDaily emptyCatalogFirst).fetch widestPages)
        (Listing.staticDaily emptyCatalogFirst).files ∧
      ¬ Covers ((Listing.pagedHtml fullLastPage).fetch widestPages)
        (Listing.pagedHtml fullLastPage).files := by
  refine ⟨fun h => ?_, fun h => ?_, fun h => ?_⟩
  · exact absurd (emptyDirectoryFirst.covers_iff.mp h) (by decide)
  · exact absurd (emptyCatalogFirst.covers_iff.mp h) (by decide)
  · have hshort := fullLastPage.covers_iff.mp h _ List.mem_cons_self
    exact absurd (hshort _ rfl _ rfl) (by decide)

end Makolet.Sources
