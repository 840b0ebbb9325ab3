import Makolet.Domain.Urls
import Makolet.Sources.Partitions

/-!
# The identity of a listed file

`canonical_remote_id` of `domain/filenames.py` and `validate_discovered_url` of
`adapters/sources/common.py`, which `readingSite` puts into a `Site`. The identity is the host and
the path of the download URL: `remoteId_eq_iff` says when two files share one, and the page of a
listing keeps its files apart under the condition of `listing_separates_iff`.
-/

set_option autoImplicit false

namespace Makolet.Sources

open Makolet.Domain Makolet.Lib

/-! ## Reading names and URLs -/

/-- The exception of `urlsplit`. -/
def invalidUrl : Failure := ⟨.other, "Invalid URL", 0⟩

def unsafeRemote (message : String) : Failure := ⟨.unsafeRemote, message, 0⟩

def defaultPort (scheme : List Char) : Option Nat :=
  if scheme = "http".toList then some 80
  else if scheme = "https".toList then some 443
  else if scheme = "ftp".toList ∨ scheme = "ftps".toList then some 21
  else none

/-- `MAXIMUM_REMOTE_ID_CHARACTERS`. -/
def maximumRemoteIdCharacters : Nat := 4096

/-- What the identity of a fixture starts with. -/
def fixtureMark : List Char := "fixture:".toList

section Reading

variable (r : TextRules)

/-- `value.casefold().rstrip(".")`. -/
def normalizedHost (host : List Char) : List Char :=
  ((r.casefold host).reverse.dropWhile (· = '.')).reverse

def validateDiscoveredUrl (url : String) (allowedHosts allowedSchemes : List String) :
    Except Failure Unit :=
  match r.urlsplit url.toList with
  | none => .error invalidUrl
  | some parts => do
    let scheme := r.casefold parts.scheme
    require (scheme ∈ allowedSchemes.map String.toList ∧
        normalizedHost r (r.hostname parts) ∈
          allowedHosts.map fun value => normalizedHost r value.toList)
      (unsafeRemote "Discovered source URL is outside its portal allowlist")
    require ('@' ∉ parts.netloc)
      (unsafeRemote "Discovered source URL must not contain credentials")
    match portOf parts with
    | none => .error (unsafeRemote "Discovered source URL has an invalid port")
    | some port =>
      require (port = none ∨ port = defaultPort scheme)
        (unsafeRemote "Discovered source URL has a non-default port")

def safeBasename (value : String) : Except Failure String :=
  (r.pathRules.safeBasename value.toList).map String.ofList

/-- The path of a URL, or the name alone where it has none. -/
def servedPath (parts : SplitResult) (basename : List Char) : List Char :=
  if parts.path = [] then '/' :: basename else parts.path

/-- `canonical_remote_id`. -/
def canonicalRemoteId (url filename : String) : Except Failure String :=
  match r.urlsplit url.toList with
  | none => .error invalidUrl
  | some parts => do
    let basename ← r.pathRules.safeBasename (if filename = "" then parts.path else filename.toList)
    if r.casefold parts.scheme = "fixture".toList then
      pure (String.ofList (fixtureMark ++ basename))
    else do
      let host := r.casefold (r.hostname parts)
      require (host ≠ []) (domainValidation "Remote URL has no host")
      pure (String.ofList (host ++ servedPath parts basename))

/-- The checks of the `RemoteFile` constructor on the identity and the name. -/
def validateNames (file : RemoteFile) : Except Failure Unit := do
  require (file.retailerId ≠ "" ∧ file.portalId ≠ "" ∧ file.remoteId ≠ "")
    (domainValidation "retailer_id, portal_id, and remote_id are required")
  require (file.remoteId.length ≤ maximumRemoteIdCharacters)
    (domainValidation "remote_id exceeds 4096 characters")
  let basename ← safeBasename r file.originalFilename
  require (basename = file.originalFilename)
    (domainValidation "original_filename must be a decoded basename")

/-- A site with names and URLs read as the source reads them. An identity that raises is the empty
one here, which the constructor refuses as well. -/
def readingSite (site : Site) : Site :=
  { site with
    hostname := fun url =>
      String.ofList (((r.urlsplit url.toList).map fun p => r.casefold (r.hostname p)).getD [])
    casefold := fun s => String.ofList (r.casefold s.toList)
    quote := fun s => String.ofList (percentQuote ['/'] s.toList)
    validateDiscoveredUrl := validateDiscoveredUrl r
    safeBasename := safeBasename r
    canonicalRemoteId := fun url filename =>
      match canonicalRemoteId r url filename with
      | .ok remoteId => remoteId
      | .error _ => ""
    validateRemoteFile := fun file => do
      validateNames r file
      site.validateRemoteFile file }

/-! ## What the identity is made of -/

/-- The host and the path that a file is served at; a fixture has none. -/
def resource (parts : SplitResult) (basename : List Char) : Option (List Char × List Char) :=
  if r.casefold parts.scheme = "fixture".toList then none
  else some (r.casefold (r.hostname parts), servedPath parts basename)

/-- The identity of what is served at a resource. -/
def identityOf (basename : List Char) : Option (List Char × List Char) → List Char
  | none => fixtureMark ++ basename
  | some (host, path) => host ++ path

/-- A host without a separator, and a path that starts with one. -/
def WellSplit (served : Option (List Char × List Char)) : Prop :=
  ∀ host path, served = some (host, path) → '/' ∉ host ∧ path.head? = some '/'

variable {r}

theorem takeWhile_host {host path : List Char} (hhost : '/' ∉ host)
    (hpath : path.head? = some '/') :
    (host ++ path).takeWhile (· ≠ '/') = host ∧ (host ++ path).dropWhile (· ≠ '/') = path := by
  obtain ⟨rest, rfl⟩ := List.head?_eq_some_iff.1 hpath
  have hall : ∀ c ∈ host, decide (c ≠ '/') = true := fun c hc =>
    decide_eq_true fun heq => hhost (heq ▸ hc)
  constructor
  · rw [List.takeWhile_append_of_pos hall, List.takeWhile_cons_of_neg (by simp), List.append_nil]
  · rw [List.dropWhile_append_of_pos hall, List.dropWhile_cons_of_neg (by simp)]

/-- Two identities agree exactly for one name of a fixture and for one resource. -/
theorem identityOf_eq_iff {b b' : List Char} {served served' : Option (List Char × List Char)}
    (hb : '/' ∉ b) (hb' : '/' ∉ b') (h : WellSplit served) (h' : WellSplit served') :
    identityOf b served = identityOf b' served' ↔
      served = served' ∧ (served = none → b = b') := by
  have hfixture : ∀ {b : List Char} {host path : List Char}, '/' ∉ b → path.head? = some '/' →
      fixtureMark ++ b ≠ host ++ path := by
    intro b host path hb hpath heq
    have hmem : '/' ∈ fixtureMark ++ b :=
      heq ▸ List.mem_append_right _ (List.mem_of_head? hpath)
    have hmark : '/' ∉ fixtureMark := by decide
    exact (List.mem_append.1 hmem).elim hmark hb
  cases served with
  | none =>
    cases served' with
    | none => simp only [identityOf, List.append_cancel_left_eq, true_and, forall_const]
    | some place =>
      obtain ⟨host, path⟩ := place
      have hpath := (h' host path rfl).2
      simp only [identityOf, hfixture hb hpath, reduceCtorEq, false_and]
  | some place =>
    obtain ⟨host, path⟩ := place
    obtain ⟨hhost, hpath⟩ := h host path rfl
    cases served' with
    | none => simp only [identityOf, (hfixture hb' hpath).symm, reduceCtorEq, false_and]
    | some place' =>
      obtain ⟨host', path'⟩ := place'
      obtain ⟨hhost', hpath'⟩ := h' host' path' rfl
      simp only [identityOf, Option.some.injEq, Prod.mk.injEq, reduceCtorEq, false_implies,
        and_true]
      constructor
      · intro heq
        have hleft := takeWhile_host hhost hpath
        have hright := takeWhile_host hhost' hpath'
        rw [heq] at hleft
        exact ⟨hleft.1.symm.trans hright.1, hleft.2.symm.trans hright.2⟩
      · rintro ⟨rfl, rfl⟩
        rfl

theorem canonicalRemoteId_eq_ok {url filename remoteId : String} (hname : filename ≠ "")
    (h : canonicalRemoteId r url filename = .ok remoteId) :
    ∃ parts basename, r.urlsplit url.toList = some parts ∧
      r.pathRules.safeBasename filename.toList = .ok basename ∧
      remoteId = String.ofList (identityOf basename (resource r parts basename)) ∧
      WellSplit (resource r parts basename) := by
  rw [canonicalRemoteId] at h
  cases hsplit : r.urlsplit url.toList with
  | none => simp [hsplit] at h
  | some parts =>
    rw [hsplit] at h
    obtain ⟨basename, hbasename, h⟩ := bind_eq_ok.1 h
    rw [if_neg hname] at hbasename
    refine ⟨parts, basename, rfl, hbasename, ?_⟩
    by_cases hscheme : r.casefold parts.scheme = "fixture".toList
    · rw [if_pos hscheme] at h
      rw [resource, if_pos hscheme]
      exact ⟨(pure_eq_ok.1 h).symm, fun _ _ hnone => by cases hnone⟩
    · rw [if_neg hscheme] at h
      rw [resource, if_neg hscheme]
      obtain ⟨hhost, h⟩ := require_bind_eq_ok.1 h
      refine ⟨(pure_eq_ok.1 h).symm, ?_⟩
      rintro host path heq
      simp only [Option.some.injEq, Prod.mk.injEq] at heq
      obtain ⟨rfl, rfl⟩ := heq
      have hslash : '/' ∈ pathMarks := by decide
      refine ⟨fun hmem => ?_, ?_⟩
      · rw [r.mem_casefold _ hslash] at hmem
        exact r.mark_not_mem_hostname hsplit hslash hmem
      · have hne : r.hostname parts ≠ [] := fun hnil => hhost (by rw [hnil, r.casefold_nil])
        rcases r.path_of_hostname hsplit hne with hpath | hpath
        · rw [servedPath, if_pos hpath]
          rfl
        · have hpathne : parts.path ≠ [] := fun hnil => by simp [hnil] at hpath
          rw [servedPath, if_neg hpathne, hpath]

/-! ## Listings -/

/-- What a listing says of a file. -/
structure ListedEntry where
  downloadUrl : String
  filename : String
  contentLength : Option Nat
  deriving DecidableEq, Repr

variable (r) (site : Site) (retailerId portalId : String) (hosts schemes : List String)

/-- `build_remote_file` of an entry. -/
def entryFile (entry : ListedEntry) : Except Failure RemoteFile :=
  (readingSite r site).buildRemoteFile retailerId portalId entry.downloadUrl entry.filename hosts
    schemes entry.contentLength

/-- The host and the path of an entry. -/
def servedAt (entry : ListedEntry) : Option (List Char × List Char) :=
  match r.urlsplit entry.downloadUrl.toList, r.pathRules.safeBasename entry.filename.toList with
  | some parts, .ok basename => resource r parts basename
  | _, _ => none

/-- No host and path serve entries of two names: what tells files apart is not in the query. -/
def NamedByPath (entries : List ListedEntry) : Prop :=
  ∀ e ∈ entries, ∀ e' ∈ entries, safeBasename r e.filename ≠ safeBasename r e'.filename →
    servedAt r e = none ∨ servedAt r e ≠ servedAt r e'

/-- Files with different names have different remote ids. -/
def SeparatesNames (files : List RemoteFile) : Prop :=
  ∀ f ∈ files, ∀ g ∈ files, f.originalFilename ≠ g.originalFilename → f.remoteId ≠ g.remoteId

/-- For every file, `deduplicate_files` keeps one that it repeats. -/
def DropsOnlyRepeats (files : List RemoteFile) : Prop :=
  ∀ f ∈ files, ∃ g ∈ deduplicateFiles files,
    g.remoteId = f.remoteId ∧ g.originalFilename = f.originalFilename

/-- Entries that differ in the query of their URL alone have one remote id. -/
def IgnoresQueries : Prop :=
  ∀ e e' f f', entryFile r site retailerId portalId hosts schemes e = .ok f →
    entryFile r site retailerId portalId hosts schemes e' = .ok f' → e.filename = e'.filename →
    (∃ parts query, r.urlsplit e.downloadUrl.toList = some parts ∧
      r.urlsplit e'.downloadUrl.toList = some { parts with query := query }) →
    f.remoteId = f'.remoteId

variable {r site retailerId portalId hosts schemes}

/-- The constructor refuses a file without an identity, and a name that does not come through. -/
theorem validateNames_eq_ok {file : RemoteFile} (h : validateNames r file = .ok ()) :
    file.remoteId ≠ "" ∧ safeBasename r file.originalFilename = .ok file.originalFilename := by
  obtain ⟨⟨-, -, hid⟩, h⟩ := require_bind_eq_ok.1 h
  obtain ⟨-, h⟩ := require_bind_eq_ok.1 h
  obtain ⟨basename, hbasename, hsame⟩ := bind_eq_ok.1 h
  have hsame : basename = file.originalFilename := require_eq_ok.1 hsame
  rw [hsame] at hbasename
  exact ⟨hid, hbasename⟩

/-- The names of which the texts come through decode to the same characters. -/
theorem safeBasename_ofList {name : List Char}
    (h : safeBasename r (String.ofList name) = .ok (String.ofList name)) :
    r.pathRules.safeBasename name = .ok name := by
  obtain ⟨again, hagain, heq⟩ := map_eq_ok.1 h
  rw [String.toList_ofList] at hagain
  rw [hagain, String.ofList_inj.1 heq]

/-- The name and the identity of a file that was built. -/
theorem entryFile_eq_ok {e : ListedEntry} {f : RemoteFile}
    (h : entryFile r site retailerId portalId hosts schemes e = .ok f) :
    ∃ basename, safeBasename r e.filename = .ok f.originalFilename ∧
      f.originalFilename = String.ofList basename ∧ '/' ∉ basename ∧
      f.remoteId = String.ofList (identityOf basename (servedAt r e)) ∧
      WellSplit (servedAt r e) := by
  obtain ⟨⟨⟩, -, h⟩ := bind_eq_ok.1 h
  obtain ⟨filename, hfilename, h⟩ := bind_eq_ok.1 h
  obtain ⟨⟨⟩, hvalid, h⟩ := bind_eq_ok.1 h
  rw [← pure_eq_ok.1 h]
  obtain ⟨⟨⟩, hnames, -⟩ := bind_eq_ok.1 hvalid
  obtain ⟨hid, hagain⟩ := validateNames_eq_ok hnames
  obtain ⟨basename, hbasename, rfl⟩ := map_eq_ok.1 hfilename
  have hname := safeBasename_ofList hagain
  have hne : String.ofList basename ≠ "" := by
    intro hempty
    have hrefused : safeBasename r "" = .error (domainInvalid "Filename is empty") := rfl
    have hagain' : safeBasename r (String.ofList basename) = .ok (String.ofList basename) := hagain
    rw [hempty, hrefused] at hagain'
    cases hagain'
  cases hcanonical : canonicalRemoteId r e.downloadUrl (String.ofList basename) with
  | error failure =>
    have hnil : (readingSite r site).canonicalRemoteId e.downloadUrl (String.ofList basename) =
        "" := by
      show (match canonicalRemoteId r e.downloadUrl (String.ofList basename) with
        | .ok remoteId => remoteId
        | .error _ => "") = ""
      rw [hcanonical]
    exact absurd hnil hid
  | ok remoteId =>
    have hvalue : (readingSite r site).canonicalRemoteId e.downloadUrl (String.ofList basename) =
        remoteId := by
      show (match canonicalRemoteId r e.downloadUrl (String.ofList basename) with
        | .ok remoteId => remoteId
        | .error _ => "") = remoteId
      rw [hcanonical]
    obtain ⟨parts, b, hsplit, hb, hremote, hwell⟩ := canonicalRemoteId_eq_ok hne hcanonical
    rw [String.toList_ofList] at hb
    obtain rfl : b = basename := Except.ok.inj (hb.symm.trans hname)
    have hserved : servedAt r e = resource r parts b := by
      rw [servedAt, hsplit, hbasename]
    refine ⟨b, hfilename, rfl, (r.separators_not_mem hbasename).1, ?_, ?_⟩
    · rw [hserved]
      exact hvalue.trans hremote
    · rw [hserved]
      exact hwell

/-- Two built files share an identity exactly for one resource, or for one fixture. -/
theorem remoteId_eq_iff {e e' : ListedEntry} {f f' : RemoteFile}
    (h : entryFile r site retailerId portalId hosts schemes e = .ok f)
    (h' : entryFile r site retailerId portalId hosts schemes e' = .ok f') :
    f.remoteId = f'.remoteId ↔
      servedAt r e = servedAt r e' ∧
        (servedAt r e = none → f.originalFilename = f'.originalFilename) := by
  obtain ⟨b, -, hname, hslash, hid, hwell⟩ := entryFile_eq_ok h
  obtain ⟨b', -, hname', hslash', hid', hwell'⟩ := entryFile_eq_ok h'
  rw [hid, hid', hname, hname', String.ofList_inj, String.ofList_inj,
    identityOf_eq_iff hslash hslash' hwell hwell']

theorem ignoresQueries : IgnoresQueries r site retailerId portalId hosts schemes := by
  rintro e e' f f' h h' hfilename ⟨parts, query, hsplit, hsplit'⟩
  obtain ⟨b, hb, -⟩ := entryFile_eq_ok h
  obtain ⟨b', hb', -⟩ := entryFile_eq_ok h'
  have hserved : servedAt r e = servedAt r e' := by
    rw [servedAt, servedAt, hsplit, hsplit', hfilename]
    cases r.pathRules.safeBasename e'.filename.toList <;> rfl
  refine (remoteId_eq_iff h h').2 ⟨hserved, fun _ => ?_⟩
  rw [hfilename, hb'] at hb
  exact (Except.ok.inj hb).symm

/-- Each entry of a listing has its file, and each file its entry. -/
theorem files_of_entries {entries : List ListedEntry} {files : List RemoteFile}
    (h : List.Forall₂ (fun e f => entryFile r site retailerId portalId hosts schemes e = .ok f)
      entries files) :
    (∀ e ∈ entries, ∃ f ∈ files,
        entryFile r site retailerId portalId hosts schemes e = .ok f) ∧
      ∀ f ∈ files, ∃ e ∈ entries,
        entryFile r site retailerId portalId hosts schemes e = .ok f := by
  induction h with
  | nil =>
    constructor
    · intro e he
      cases he
    · intro f hf
      cases hf
  | cons hbuilt _ ih =>
    constructor
    · intro e he
      rcases List.mem_cons.1 he with rfl | he
      · exact ⟨_, List.mem_cons_self, hbuilt⟩
      · obtain ⟨f, hf, hbuilt⟩ := ih.1 e he
        exact ⟨f, List.mem_cons_of_mem _ hf, hbuilt⟩
    · intro f hf
      rcases List.mem_cons.1 hf with rfl | hf
      · exact ⟨_, List.mem_cons_self, hbuilt⟩
      · obtain ⟨e, he, hbuilt⟩ := ih.2 f hf
        exact ⟨e, List.mem_cons_of_mem _ he, hbuilt⟩

/-- A listing is separated by its identities exactly if its names stand in the paths. -/
theorem listing_separates_iff (entries : List ListedEntry) (files : List RemoteFile)
    (h : entries.mapM (entryFile r site retailerId portalId hosts schemes) = .ok files) :
    (SeparatesNames files ∧ DropsOnlyRepeats files ∧
        IgnoresQueries r site retailerId portalId hosts schemes) ↔
      NamedByPath r entries := by
  obtain ⟨hfiles, hentries⟩ := files_of_entries (mapM_eq_ok.1 h)
  constructor
  · rintro ⟨hseparates, -⟩ e he e' he' hnames
    obtain ⟨f, hf, hbuilt⟩ := hfiles e he
    obtain ⟨f', hf', hbuilt'⟩ := hfiles e' he'
    obtain ⟨b, hb, -⟩ := entryFile_eq_ok hbuilt
    obtain ⟨b', hb', -⟩ := entryFile_eq_ok hbuilt'
    have hids : f.remoteId ≠ f'.remoteId := by
      refine hseparates f hf f' hf' fun heq => hnames ?_
      rw [hb, hb', heq]
    by_contra hsame
    rw [not_or, not_not] at hsame
    exact hids ((remoteId_eq_iff hbuilt hbuilt').2
      ⟨hsame.2, fun hnone => absurd hnone hsame.1⟩)
  · intro hpath
    have hseparates : SeparatesNames files := by
      intro f hf g hg hnames heq
      obtain ⟨e, he, hbuilt⟩ := hentries f hf
      obtain ⟨e', he', hbuilt'⟩ := hentries g hg
      obtain ⟨b, hb, -⟩ := entryFile_eq_ok hbuilt
      obtain ⟨b', hb', -⟩ := entryFile_eq_ok hbuilt'
      obtain ⟨hserved, hfixture⟩ := (remoteId_eq_iff hbuilt hbuilt').1 heq
      have hdifferent : safeBasename r e.filename ≠ safeBasename r e'.filename := by
        rw [hb, hb']
        exact fun hok => hnames (Except.ok.inj hok)
      rcases hpath e he e' he' hdifferent with hnone | hplaces
      · exact hnames (hfixture hnone)
      · exact hplaces hserved
    refine ⟨hseparates, ?_, ignoresQueries⟩
    intro f hf
    obtain ⟨g, hg, hid⟩ := @Table.exists_mem_distinctOn _ _ _ RemoteFile.remoteId files f hf
    refine ⟨g, (List.perm_insertionSort _ _).mem_iff.2 hg, hid, ?_⟩
    by_contra hnames
    exact hseparates g (Table.mem_of_mem_distinctOn hg) f hf hnames hid

end Reading

/-! ## A listing that serves its files through one path -/

theorem toLower_eq_iff {c d : Char} (hc : c.toNat < 65) : d.toLower = c ↔ d = c := by
  by_cases hupper : 'A'.val ≤ d.val ∧ d.val ≤ 'Z'.val
  · have hlower : d.toLower.val = d.val + ('a'.val - 'A'.val) := congrArg Char.val (dif_pos hupper)
    have hlow : 65 ≤ d.toNat := UInt32.le_iff_toNat_le.1 hupper.1
    have hhigh : d.toNat ≤ 90 := UInt32.le_iff_toNat_le.1 hupper.2
    have hvalue : (d.val + ('a'.val - 'A'.val)).toNat = d.toNat + 32 := by
      have hd : d.val.toNat = d.toNat := rfl
      have hshift : ('a'.val - 'A'.val).toNat = 32 := by decide
      rw [UInt32.toNat_add, hd, hshift]
      exact Nat.mod_eq_of_lt (by omega)
    constructor
    · rintro rfl
      have hlt : d.toLower.val.toNat < 65 := hc
      rw [hlower] at hlt
      omega
    · rintro rfl
      omega
  · rw [show d.toLower = d from dif_neg hupper]

theorem marks_below : pathMarks.all (fun c => decide (c.toNat < 65)) = true := by decide

/-- Rules for ASCII texts. -/
def asciiRules : TextRules where
  lower := List.map Char.toLower
  casefold := List.map Char.toLower
  authorityOk := fun _ => true
  casefold_nil := rfl
  mem_lower := by
    intro c hc s
    have hlow : c.toNat < 65 := of_decide_eq_true (List.all_eq_true.1 marks_below c hc)
    rw [List.mem_map]
    simp only [toLower_eq_iff hlow, exists_eq_right]
  mem_casefold := by
    intro c hc s
    have hlow : c.toNat < 65 := of_decide_eq_true (List.all_eq_true.1 marks_below c hc)
    rw [List.mem_map]
    simp only [toLower_eq_iff hlow, exists_eq_right]

/-- A price file behind a download path that names it in the query. -/
def downloadPathEntry (name : String) : ListedEntry :=
  ⟨"https://prices.example/Download.ashx?FileNm=" ++ name, name, none⟩

def downloadPathFile (name : String) : RemoteFile :=
  ⟨"shop", "portal", "prices.example/Download.ashx",
    "https://prices.example/Download.ashx?FileNm=" ++ name, name, .gzip, none⟩

def downloadPathNames : List String := ["Price1.gz", "Price2.gz"]

theorem listed_downloadPath :
    (downloadPathNames.map downloadPathEntry).mapM (entryFile asciiRules plainSite "shop" "portal"
      ["prices.example"] ["https"]) = .ok (downloadPathNames.map downloadPathFile) := by
  have hbuilt : ∀ name ∈ downloadPathNames, (entryFile asciiRules plainSite "shop" "portal"
      ["prices.example"] ["https"] (downloadPathEntry name)).toOption =
        some (downloadPathFile name) := by
    decide +kernel
  refine mapM_eq_ok.2 (List.Forall₂.cons ?_ (List.Forall₂.cons ?_ .nil))
  · exact toOption_eq_some.1 (hbuilt _ (by decide))
  · exact toOption_eq_some.1 (hbuilt _ (by decide))

/-- A price file under its path, with a query, and a stores file under another path. -/
def namedEntries : List ListedEntry :=
  [⟨"https://prices.example/files/Price1.gz?v=1", "Price1.gz", none⟩,
    ⟨"https://prices.example/files/Stores.gz", "Stores.gz", none⟩]

def namedFiles : List RemoteFile :=
  [⟨"shop", "portal", "prices.example/files/Price1.gz",
      "https://prices.example/files/Price1.gz?v=1", "Price1.gz", .gzip, none⟩,
    ⟨"shop", "portal", "prices.example/files/Stores.gz",
      "https://prices.example/files/Stores.gz", "Stores.gz", .gzip, none⟩]

theorem listed_namedEntries :
    namedEntries.mapM (entryFile asciiRules plainSite "shop" "portal" ["prices.example"]
      ["https"]) = .ok namedFiles := by
  have hbuilt : (namedEntries.zip namedFiles).all (fun pair => (entryFile asciiRules plainSite "shop"
      "portal" ["prices.example"] ["https"] pair.1).toOption = some pair.2) = true := by
    decide +kernel
  have hpair {e : ListedEntry} {f : RemoteFile} (hmem : (e, f) ∈ namedEntries.zip namedFiles) :
      (entryFile asciiRules plainSite "shop" "portal" ["prices.example"] ["https"] e).toOption =
        some f := by
    have hentry := List.all_eq_true.1 hbuilt (e, f) hmem
    simpa only [decide_eq_true_eq] using hentry
  exact mapM_eq_ok.2 (List.forall₂_iff_zip.2 ⟨rfl, fun hmem => toOption_eq_some.1 (hpair hmem)⟩)

theorem namedByPath_namedEntries : NamedByPath asciiRules namedEntries := by
  have hpaths : ∀ e ∈ namedEntries, ∀ e' ∈ namedEntries,
      e.filename = e'.filename ∨ servedAt asciiRules e ≠ servedAt asciiRules e' := by
    decide +kernel
  intro e he e' he' hnames
  refine .inr ((hpaths e he e' he').resolve_left fun hsame => hnames ?_)
  rw [hsame]

/-- Two files with two names under two paths are told apart. -/
theorem listing_separates_two :
    SeparatesNames namedFiles ∧ DropsOnlyRepeats namedFiles ∧
      IgnoresQueries asciiRules plainSite "shop" "portal" ["prices.example"] ["https"] :=
  (listing_separates_iff namedEntries namedFiles listed_namedEntries).2 namedByPath_namedEntries

/-- The second file of a listing with one download path is dropped. -/
theorem download_path_collides :
    ∃ files, (downloadPathNames.map downloadPathEntry).mapM (entryFile asciiRules plainSite "shop"
        "portal" ["prices.example"] ["https"]) = .ok files ∧
      ¬ SeparatesNames files ∧ ¬ DropsOnlyRepeats files := by
  refine ⟨_, listed_downloadPath, ?_, ?_⟩
  · intro h
    refine h (downloadPathFile "Price1.gz") ?_ (downloadPathFile "Price2.gz") ?_ ?_ rfl
    · exact List.mem_map_of_mem List.mem_cons_self
    · exact List.mem_map_of_mem (List.mem_cons_of_mem _ List.mem_cons_self)
    · show "Price1.gz" ≠ "Price2.gz"
      decide
  · intro h
    obtain ⟨g, hg, -, hname⟩ := h (downloadPathFile "Price2.gz")
      (List.mem_map_of_mem (List.mem_cons_of_mem _ List.mem_cons_self))
    have honly : ∀ g ∈ deduplicateFiles (downloadPathNames.map downloadPathFile),
        g.originalFilename = "Price1.gz" := by
      decide +kernel
    rw [honly g hg] at hname
    revert hname
    show "Price1.gz" ≠ "Price2.gz"
    decide

end Makolet.Sources
