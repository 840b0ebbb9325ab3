import Mathlib.Data.List.ReduceOption
import Makolet.Sources.Common

/-!
# The offset-cursor source adapters

`discover` of the NCR directories, the static daily indexes, the paged HTML catalogs and the BINA
partitions. The transport is a function that answers each request; what it answers is parsed
already, within the limits that the parsers enforce.
-/

set_option autoImplicit false

namespace Makolet.Sources

open Makolet.Domain Makolet.Lib

/-- `MAXIMUM_LISTING_RECORDS`. -/
def maximumListingRecords : Nat := 20000

def protocolValue : SourceProtocol → String
  | .https => "https"
  | .http => "http"
  | .ftp => "ftp"
  | .ftps => "ftps"
  | .fixture => "fixture"

/-! ## NCR directories -/

structure FtpCatalogEntry where
  filename : String
  contentLength : Option Nat
  deriving DecidableEq, Repr

structure NcrFeedConfig where
  portalId : String
  protocol : SourceProtocol
  host : String
  remoteDirectory : String
  maximumEntries : Nat
  entries_le : maximumEntries ≤ 1000000

structure NcrSourceConfig where
  retailerId : String
  feeds : List NcrFeedConfig
  feeds_ne : feeds ≠ []

/-- `value.strip("/")`. -/
def stripSlashes (value : String) : String :=
  let isSlash : Char → Bool := fun c => c = '/'
  String.ofList (((value.toList.dropWhile isSlash).reverse.dropWhile isSlash).reverse)

/-- `_download_url`. -/
def NcrFeedConfig.downloadUrl (site : Site) (feed : NcrFeedConfig) (filename : String) :
    Except Failure String := do
  let basename ← site.safeBasename filename
  let path := String.intercalate "/"
    ([stripSlashes feed.remoteDirectory, basename].filter fun part => part ≠ "")
  pure (protocolValue feed.protocol ++ "://" ++ feed.host ++ "/" ++ site.quote path)

namespace NcrSourceConfig

variable (site : Site) (config : NcrSourceConfig)

def remoteFile (feed : NcrFeedConfig) (entry : FtpCatalogEntry) : Except Failure RemoteFile := do
  let url ← feed.downloadUrl site entry.filename
  site.buildRemoteFile config.retailerId feed.portalId url entry.filename [feed.host]
    [protocolValue feed.protocol] entry.contentLength

/-- The state after `nextOffset` files of a feed. -/
def nextState (feedIndex nextOffset count : Nat) : Option CursorState :=
  if nextOffset < count then some [("feed", .int feedIndex), ("offset", .int nextOffset)]
  else if feedIndex + 1 < config.feeds.length then
    some [("feed", .int (feedIndex + 1)), ("offset", .int 0)]
  else none

/-- `NcrSourceAdapter.discover`. -/
def discover (list : NcrFeedConfig → Except Failure (List FtpCatalogEntry))
    (cursor : Option DiscoveryCursor) (limit : Nat) : Except Failure DiscoveryPage := do
  validateLimit limit
  let state ← decodeCursor config.retailerId cursor
  let feedIndex ← cursorInt state "feed" 0 (config.feeds.length - 1)
  let offset ← cursorInt state "offset" 0 maximumOffset
  match config.feeds[feedIndex]? with
  | none => .error indexError
  | some feed => do
    let entries ← list feed
    require (entries.length ≤ feed.maximumEntries)
      (sourceResponse "FTP directory exceeds its configured entry limit")
    let built ← entries.mapM (config.remoteFile site feed)
    let files := deduplicateFiles built
    require (offset ≤ files.length)
      (sourceResponse "NCR discovery cursor is beyond its directory listing")
    let selected := (files.drop offset).take limit
    pure (.of config.retailerId selected
      (config.nextState feedIndex (offset + selected.length) files.length))

end NcrSourceConfig

/-! ## Static daily indexes -/

/-- A record of an embedded catalog: the text under its name and its size. -/
structure EmbeddedRecord where
  name : Option String
  size : Option Nat
  deriving DecidableEq, Repr

/-- A listing page: where redirects ended, its links, and the path and the records of a catalog
embedded in it. -/
structure HtmlPage where
  finalUrl : String
  links : List HtmlLink
  embedded : Option (String × List EmbeddedRecord)
  links_le : links.length ≤ maximumListingRecords
  records_le : ∀ catalog ∈ embedded, catalog.2.length ≤ maximumListingRecords

structure StaticDailyFeedConfig where
  portalId : String
  indexUrl : String
  listingHosts : List String
  downloadHosts : List String

structure StaticDailySourceConfig where
  retailerId : String
  feeds : List StaticDailyFeedConfig
  feeds_ne : feeds ≠ []

section DateToken

variable (isDigit : Char → Bool)

def twoDigits : List Char → Option (List Char × List Char)
  | a :: b :: rest => if isDigit a && isDigit b then some ([a, b], rest) else none
  | _ => none

def dropDash : List Char → List Char
  | '-' :: rest => rest
  | cs => cs

/-- A match of `_DATE_TOKEN` at this position, its groups joined by dashes. -/
def dateAt : List Char → Option String
  | '2' :: '0' :: rest =>
    (twoDigits isDigit rest).bind fun (year, rest) =>
      (twoDigits isDigit (dropDash rest)).bind fun (month, rest) =>
        (twoDigits isDigit (dropDash rest)).bind fun (day, rest) =>
          if rest.head?.any isDigit then none
          else some (String.ofList (['2', '0'] ++ year ++ ['-'] ++ month ++ ['-'] ++ day))
  | _ => none

/-- The first match; a token is not preceded by a digit. -/
def dateFrom : Bool → List Char → Option String
  | _, [] => none
  | afterDigit, c :: cs =>
    (if afterDigit then none else dateAt isDigit (c :: cs)).orElse fun _ =>
      dateFrom (isDigit c) cs

end DateToken

/-- `_date_in`. -/
def Site.dateIn (site : Site) (value : String) : Option String :=
  dateFrom site.isDigit false value.toList

/-- `_embedded_catalog`, read from the parsed page. -/
def Site.embeddedCatalog (site : Site) (page : HtmlPage) :
    Except Failure (Option (String × List EmbeddedRecord)) :=
  match page.embedded with
  | none => .ok none
  | some (path, records) =>
    match site.dateIn path with
    | none => .error (sourceResponse "Static source embedded path has no valid date")
    | some date => .ok (some (date, records))

/-- The dates of an index, sorted. -/
def Site.listedDates (site : Site) (links : List HtmlLink)
    (embedded : Option (String × List EmbeddedRecord)) : List String :=
  ((links.filterMap fun link =>
      site.dateIn (link.href ++ " " ++ link.text ++ " " ++ link.rowText)) ++
    (embedded.map Prod.fst).toList).dedup.insertionSort fun a b => a ≤ b

namespace StaticDailySourceConfig

variable (site : Site) (config : StaticDailySourceConfig) (get : String → Except Failure HtmlPage)
  (feed : StaticDailyFeedConfig)

/-- One file of `_embedded_files`. -/
def embeddedFile (baseUrl dateToken : String) (record : EmbeddedRecord) :
    Except Failure RemoteFile :=
  match record.name with
  | none => .error (sourceResponse "Source listing record omitted name")
  | some filename =>
    let path := String.ofList (dateToken.toList.filter fun c => c ≠ '-')
    site.buildRemoteFile config.retailerId feed.portalId
      (site.absoluteUrl baseUrl (path ++ "/" ++ site.quote filename)) filename feed.downloadHosts
      ["https"] record.size

/-- The links of the selected day and the URL they are relative to: those of the index, or else
those of the page that the index links for the day. -/
def fileLinks (index : HtmlPage) (dateToken : String) : Except Failure (String × List HtmlLink) :=
  let matching := index.links.filter fun link =>
    site.dateIn link.href = some dateToken && (site.filenameFromLink link).isSome
  if matching ≠ [] then .ok (index.finalUrl, matching)
  else
    match index.links.find? fun link =>
        site.dateIn (link.href ++ " " ++ link.text) = some dateToken with
    | none => .error (sourceResponse "Static daily index omitted the selected date link")
    | some dateLink => do
      let pageUrl := site.absoluteUrl index.finalUrl dateLink.href
      site.validateListingPageUrl pageUrl feed.listingHosts
      let day ← get pageUrl
      let links := day.links.filter fun link => (site.filenameFromLink link).isSome
      require (links ≠ [])
        (sourceResponse "Static daily page contains no recognized source files")
      pure (day.finalUrl, links)

/-- The file of a link; a link without a recognized name is passed over. -/
def linkFile (baseUrl : String) (link : HtmlLink) : Except Failure (Option RemoteFile) :=
  match site.filenameFromLink link with
  | none => .ok none
  | some filename =>
    (site.buildRemoteFile config.retailerId feed.portalId (site.absoluteUrl baseUrl link.href)
      filename feed.downloadHosts ["https"] none).map some

/-- The files listed for a day: those of the embedded catalog if it has that date. -/
def dayFiles (index : HtmlPage) (embedded : Option (String × List EmbeddedRecord))
    (dateToken : String) : Except Failure (List RemoteFile) :=
  match embedded.filter fun catalog => catalog.1 = dateToken with
  | some catalog => catalog.2.mapM (config.embeddedFile site feed index.finalUrl dateToken)
  | none => do
    let found ← fileLinks site get feed index dateToken
    let files ← found.2.mapM (config.linkFile site feed found.1)
    pure files.reduceOption

/-- The date and the listed files of `_catalog`, as they stand in the listing. -/
def listed (selectedDate : Option String) : Except Failure (String × List RemoteFile) := do
  let index ← get feed.indexUrl
  let embedded ← site.embeddedCatalog index
  let dates := site.listedDates index.links embedded
  match selectedDate.or dates.getLast? with
  | none => .error (sourceResponse "Static source index contains no dated publication")
  | some dateToken => do
    require (∀ date ∈ selectedDate, date ∈ dates)
      (sourceResponse "Static daily cursor date is no longer listed")
    let files ← config.dayFiles site get feed index embedded dateToken
    pure (dateToken, files)

/-- `_catalog`. -/
def catalog (selectedDate : Option String) : Except Failure (String × List RemoteFile) :=
  (config.listed site get feed selectedDate).map fun found => (found.1, deduplicateFiles found.2)

def nextState (feedIndex : Nat) (dateToken : String) (nextOffset count : Nat) :
    Option CursorState :=
  if nextOffset < count then
    some [("feed", .int feedIndex), ("date", .text dateToken), ("offset", .int nextOffset)]
  else if feedIndex + 1 < config.feeds.length then
    some [("feed", .int (feedIndex + 1)), ("offset", .int 0)]
  else none

/-- `StaticDailySourceAdapter.discover`. -/
def discover (cursor : Option DiscoveryCursor) (limit : Nat) : Except Failure DiscoveryPage := do
  validateLimit limit
  let state ← decodeCursor config.retailerId cursor
  let feedIndex ← cursorInt state "feed" 0 (config.feeds.length - 1)
  let offset ← cursorInt state "offset" 0 maximumOffset
  let cursorDate ← cursorText state "date"
  match config.feeds[feedIndex]? with
  | none => .error indexError
  | some feed => do
    let (dateToken, files) ← config.catalog site get feed cursorDate
    require (offset ≤ files.length)
      (sourceResponse "Static daily cursor is beyond the selected catalog")
    let selected := (files.drop offset).take limit
    pure (.of config.retailerId selected
      (config.nextState feedIndex dateToken (offset + selected.length) files.length))

end StaticDailySourceConfig

/-! ## Paged HTML catalogs -/

abbrev Query := List (String × String)

structure PagedHtmlSourceConfig where
  retailerId : String
  portalId : String
  listingUrl : String
  downloadHosts : List String
  partitions : List Query
  dateParameter : Option String
  pageParameter : String
  firstPage : Nat
  maximumPages : Nat
  pageSizeHint : Option Nat
  assumeGzipWhenSuffixMissing : Bool
  partitions_ne : partitions ≠ []
  firstPage_le : firstPage ≤ maximumPages

namespace PagedHtmlSourceConfig

variable (site : Site) (config : PagedHtmlSourceConfig)

/-- The query of a page, on the local date of the request. -/
def query (partition : Query) (localDate : String) (page : Nat) : Query :=
  partition ++ (config.dateParameter.map fun name => (name, localDate)).toList ++
    [(config.pageParameter, toString page)]

/-- The file of a link; links to other hosts and without a recognized name are passed over. -/
def linkFile (baseUrl : String) (link : HtmlLink) : Except Failure (Option RemoteFile) :=
  let downloadUrl := site.absoluteUrl baseUrl link.href
  if site.hostname downloadUrl ∉ config.downloadHosts.map site.casefold then .ok none
  else
    match site.filenameFromLink link with
    | none => .ok none
    | some filename =>
      (site.buildRemoteFile config.retailerId config.portalId downloadUrl filename
        config.downloadHosts ["https"] none).map fun file =>
          some (if config.assumeGzipWhenSuffixMissing ∧ file.compression = .unknown then
            { file with compression := .gzip } else file)

/-- `_has_next_page`. -/
def hasNextPage (page entryCount : Nat) (listedPages : List Nat) : Bool :=
  let explicit := listedPages.any fun candidate => decide (page < candidate)
  let implicit := config.pageSizeHint.any fun hint => decide (hint ≤ entryCount)
  decide (page < config.maximumPages) && (explicit || implicit)

def state (partition page offset : Nat) : CursorState :=
  [("partition", .int partition), ("page", .int page), ("offset", .int offset)]

def nextState (partition page nextOffset count : Nat) (listedPages : List Nat) :
    Option CursorState :=
  if nextOffset < count then some (state partition page nextOffset)
  else if config.hasNextPage page count listedPages then some (state partition (page + 1) 0)
  else if partition + 1 < config.partitions.length then
    some (state (partition + 1) config.firstPage 0)
  else none

/-- `PagedHtmlSourceAdapter.discover`. -/
def discover (get : Query → Except Failure HtmlPage) (localDate : String)
    (cursor : Option DiscoveryCursor) (limit : Nat) : Except Failure DiscoveryPage := do
  validateLimit limit
  let state ← decodeCursor config.retailerId cursor
  let partitionIndex ← cursorInt state "partition" 0 (config.partitions.length - 1)
  let page ← cursorInt state "page" config.firstPage config.maximumPages
  require (config.firstPage ≤ page)
    (sourceResponse "HTML discovery cursor page is below the first page")
  let offset ← cursorInt state "offset" 0 maximumOffset
  match config.partitions[partitionIndex]? with
  | none => .error indexError
  | some partition => do
    let response ← get (config.query partition localDate page)
    let built ← response.links.mapM (config.linkFile site response.finalUrl)
    let ordered := deduplicateFiles built.reduceOption
    require (ordered ≠ [])
      (sourceResponse "HTML source listing contains no recognized source files")
    require (offset ≤ ordered.length)
      (sourceResponse "HTML discovery cursor is beyond its current page")
    let selected := (ordered.drop offset).take limit
    pure (.of config.retailerId selected
      (config.nextState partitionIndex page (offset + selected.length) ordered.length
        (response.links.flatMap site.pageNumbers)))

end PagedHtmlSourceConfig

/-! ## BINA partitions -/

structure BinaPartition where
  fileType : String
  storeId : String
  deriving DecidableEq, Repr

structure BinaSourceConfig where
  retailerId : String
  portalId : String
  baseUrl : String
  partitions : List BinaPartition
  serverResultCap : Nat
  zipWrappedFileTypes : List String
  partitions_ne : partitions ≠ []

/-- A record of a partition: the text under its name, the text under its path, its size. -/
structure BinaRecord where
  filename : Option String
  path : Option String
  contentLength : Option Nat
  deriving DecidableEq, Repr

structure BinaEntry where
  filename : String
  path : Option String
  contentLength : Option Nat
  deriving DecidableEq, Repr

/-- The listing service and the resolver of download paths. -/
structure BinaServer where
  records : BinaPartition → String → Except Failure (List BinaRecord)
  resolve : String → Except Failure String

/-- `_DATE_PATTERN`. -/
def matchesDatePattern (isDigit : Char → Bool) (date : String) : Bool :=
  match date.toList with
  | ['2', '0', a, b, '-', c, d, '-', e, f] => [a, b, c, d, e, f].all isDigit
  | _ => false

/-- `_entry`. -/
def binaEntry (record : BinaRecord) : Except Failure BinaEntry :=
  match record.filename with
  | none => .error (sourceResponse "Source listing record omitted FileNm")
  | some filename => .ok ⟨filename, record.path, record.contentLength⟩

namespace BinaSourceConfig

variable (site : Site) (config : BinaSourceConfig) (server : BinaServer)

/-- The sorted entries of a partition, which must stay below the cap of the server. -/
def entries (date : String) (partition : BinaPartition) : Except Failure (List BinaEntry) := do
  let records ← server.records partition date
  require (records.length ≤ maximumListingRecords)
    (sourceResponse "Source listing JSON contains too many records")
  require (records.length < config.serverResultCap) (sourceResponse
    "BINA partition reached the server cap; configure narrower store partitions")
  let found ← records.mapM binaEntry
  pure (found.insertionSort fun a b => a.filename ≤ b.filename)

/-- The loop of `discover` over the partitions from `index` on: an empty partition is skipped unless
it is the last one. -/
def seek (date : String) (limit : Nat) : Nat → Nat → List BinaPartition →
    Except Failure (Nat × Nat × BinaPartition × List BinaEntry)
  | _, _, [] => .error indexError
  | index, offset, partition :: rest => do
    let entries ← config.entries server date partition
    require (offset ≤ entries.length)
      (sourceResponse "BINA discovery cursor is beyond its listing partition")
    if (entries.drop offset).take limit ≠ [] ∨ 0 < offset ∨ rest = [] then
      pure (index, offset, partition, entries)
    else seek date limit (index + 1) 0 rest

/-- `_download_url`. -/
def downloadUrl (entry : BinaEntry) : Except Failure String := do
  let resolved ← match entry.path with
    | some path => .ok path
    | none => server.resolve entry.filename
  let path ← if resolved.toList.getLast? = some '/' then
      (site.safeBasename entry.filename).map fun name => resolved ++ name
    else .ok resolved
  let url := site.absoluteUrl config.baseUrl path
  site.validateDiscoveredUrl url [site.hostname config.baseUrl] ["https"]
  pure url

def remoteFile (partition : BinaPartition) (entry : BinaEntry) : Except Failure RemoteFile := do
  let url ← config.downloadUrl site server entry
  let file ← site.buildRemoteFile config.retailerId config.portalId url entry.filename
    [site.hostname config.baseUrl] ["https"] entry.contentLength
  pure (if partition.fileType ∈ config.zipWrappedFileTypes then { file with compression := .zip }
    else file)

def nextState (date : String) (partition nextOffset count : Nat) : Option CursorState :=
  if nextOffset < count then
    some [("date", .text date), ("partition", .int partition), ("offset", .int nextOffset)]
  else if partition + 1 < config.partitions.length then
    some [("date", .text date), ("partition", .int (partition + 1)), ("offset", .int 0)]
  else none

/-- `BinaSourceAdapter.discover`. -/
def discover (today : String) (cursor : Option DiscoveryCursor) (limit : Nat) :
    Except Failure DiscoveryPage := do
  validateLimit limit
  let state ← decodeCursor config.retailerId cursor
  let partitionIndex ← cursorInt state "partition" 0 (config.partitions.length - 1)
  let offset ← cursorInt state "offset" 0 maximumOffset
  let cursorDate ← cursorText state "date"
  let discoveryDate := (cursorDate.filter fun date => date ≠ "").getD today
  require (matchesDatePattern site.isDigit discoveryDate = true)
    (sourceResponse "BINA discovery cursor contains an invalid date")
  let (index, start, partition, entries) ← config.seek server discoveryDate limit partitionIndex
    offset (config.partitions.drop partitionIndex)
  let selected := (entries.drop start).take limit
  let files ← selected.mapM (config.remoteFile site server partition)
  pure (.of config.retailerId (deduplicateFiles files)
    (config.nextState discoveryDate index (start + selected.length) entries.length))

end BinaSourceConfig

end Makolet.Sources
