import Makolet.Sources.Identity

/-!
# The target of an FTP download

`_validated_target` of `adapters/download/ftp.py` on the files that the NCR adapter makes of a
directory listing. The name passes through `safe_basename` at the listing, at the download URL, at
the `RemoteFile` and at the downloader, and through `quote` and `unquote` in between. A file that
the adapter admits is accepted (`validatedTarget_of_admitted`); which names come through unchanged
is `retrieved_name_iff`.
-/

set_option autoImplicit false

namespace Makolet.Downloads

open Makolet.Domain Makolet.Lib Makolet.Sources

section Targets

variable (r : TextRules)

/-- `expected_path`. -/
def expectedPath (feed : NcrFeedConfig) (filename : List Char) : List Char :=
  (if stripSlashes feed.remoteDirectory = "" then []
    else '/' :: (stripSlashes feed.remoteDirectory).toList) ++ '/' :: filename

/-- `FtpDownloader._validated_target`, of a file whose `protocol` is given apart. -/
def validatedTarget (feeds : String → Option NcrFeedConfig) (protocol : SourceProtocol)
    (file : RemoteFile) : Except Failure (NcrFeedConfig × String) := do
  require (protocol = .ftp ∨ protocol = .ftps)
    (unsafeRemote "FTP downloader received a non-FTP source")
  match feeds file.portalId with
  | none => .error (unsafeRemote "No FTP feed policy exists for this portal")
  | some feed =>
    match r.urlsplit file.downloadUrl.toList with
    | none => .error invalidUrl
    | some parts => do
      require (r.casefold parts.scheme = (protocolValue feed.protocol).toList ∧
          normalizedHost r (r.hostname parts) = normalizedHost r feed.host.toList ∧
          '@' ∉ parts.netloc ∧ parts.query = [] ∧ parts.fragment = [])
        (unsafeRemote "FTP source URL differs from its configured feed")
      match portOf parts with
      | none => .error invalidUrl
      | some port => do
        require (port = none ∨ port = some 21)
          (unsafeRemote "FTP source URL differs from its configured feed")
        let filename ← r.pathRules.safeBasename (unquote (posixName parts.path))
        require (filename = file.originalFilename.toList)
          (unsafeRemote "FTP source filename differs from discovered metadata")
        require (unquote parts.path = expectedPath feed filename)
          (unsafeRemote "FTP source path differs from its configured directory")
        pure (feed, String.ofList filename)

/-- What the adapter makes of a listed name: the entry of the catalog, and its file. -/
def admittedFile (site : Site) (config : NcrSourceConfig) (feed : NcrFeedConfig) (listed : String)
    (contentLength : Option Nat) : Except Failure RemoteFile := do
  let filename ← safeBasename r listed
  config.remoteFile (readingSite r site) feed ⟨filename, contentLength⟩

/-! ## The URL of an admitted file -/

variable {r}

theorem normalizedHost_mem {c : Char} (hc : c ∈ pathMarks) (host : List Char) :
    c ∈ normalizedHost r host ↔ c ∈ host := by
  have hdot : ∀ {s : List Char}, c ∈ (s.reverse.dropWhile (· = '.')).reverse ↔ c ∈ s := by
    intro s
    have hne : ¬ c = '.' := by
      rintro rfl
      exact absurd hc (by decide)
    rw [List.mem_reverse]
    constructor
    · intro hmem
      exact List.mem_reverse.1 ((List.dropWhile_sublist _).subset hmem)
    · intro hmem
      have hsplit := List.takeWhile_append_dropWhile (p := fun d : Char => decide (d = '.'))
        (l := s.reverse)
      rw [← List.mem_reverse, ← hsplit, List.mem_append] at hmem
      refine hmem.resolve_left fun htake => hne ?_
      simpa using List.mem_takeWhile_imp htake
  rw [normalizedHost, hdot, r.mem_casefold c hc]

/-- What `validate_discovered_url` accepts. -/
theorem validateDiscoveredUrl_eq_ok {url host scheme : String}
    (h : validateDiscoveredUrl r url [host] [scheme] = .ok ()) :
    ∃ parts port, r.urlsplit url.toList = some parts ∧
      r.casefold parts.scheme = scheme.toList ∧
      normalizedHost r (r.hostname parts) = normalizedHost r host.toList ∧ '@' ∉ parts.netloc ∧
      portOf parts = some port ∧ (port = none ∨ port = defaultPort scheme.toList) := by
  rw [validateDiscoveredUrl] at h
  cases hsplit : r.urlsplit url.toList with
  | none => simp [hsplit] at h
  | some parts =>
    rw [hsplit] at h
    obtain ⟨⟨hscheme, hhost⟩, h⟩ := require_bind_eq_ok.1 h
    obtain ⟨huser, h⟩ := require_bind_eq_ok.1 h
    have hscheme : r.casefold parts.scheme = scheme.toList := by simpa using hscheme
    cases hport : portOf parts with
    | none => simp [hport] at h
    | some port =>
      rw [hport] at h
      refine ⟨parts, port, rfl, hscheme, by simpa using hhost, huser, hport, ?_⟩
      rw [← hscheme]
      exact require_eq_ok.1 h

/-- The safe characters of a quoted path. -/
theorem slash_safe : ∀ c ∈ ['/'], c.toNat < 0x80 ∧ c ≠ '%' := by
  intro c hc
  rw [List.mem_singleton] at hc
  subst hc
  decide

theorem not_mem_percentQuote {c : Char} (h : c ∈ ['?', '#', '\t', '\r', '\n']) (s : List Char) :
    c ∉ percentQuote ['/'] s := by
  intro hmem
  have hplain : ['?', '#', '\t', '\r', '\n'].all (fun c => decide (alwaysSafe c = false ∧
      c ≠ '/' ∧ c ≠ '%')) = true := by decide
  have hdigits : ∀ n < 16, upperHexDigit n ∉ ['?', '#', '\t', '\r', '\n'] := by decide
  obtain ⟨hsafe, hslash, hpercent⟩ := of_decide_eq_true (List.all_eq_true.1 hplain c h)
  rcases mem_percentQuote hmem with ⟨-, hsafe' | hslash'⟩ | hpercent' | ⟨n, hn, hdigit'⟩
  · rw [hsafe] at hsafe'
    cases hsafe'
  · exact hslash (List.mem_singleton.1 hslash')
  · exact hpercent hpercent'
  · exact hdigits n hn (hdigit' ▸ h)

theorem stripUrl_downloadUrl {scheme : List Char}
    (hscheme : scheme = ['f', 't', 'p'] ∨ scheme = ['f', 't', 'p', 's']) (host path : List Char) :
    stripUrl (scheme ++ [':', '/', '/'] ++ host ++ '/' :: percentQuote ['/'] path) =
      scheme ++ ':' :: '/' :: '/' :: (host.filter (· ∉ ['\t', '\r', '\n']) ++
        '/' :: percentQuote ['/'] path) := by
  have hquoted : ∀ c ∈ percentQuote ['/'] path, ¬ c = '\t' ∧ ¬ c = '\r' ∧ ¬ c = '\n' := by
    intro c hc
    refine ⟨?_, ?_, ?_⟩
    all_goals
      rintro rfl
      exact not_mem_percentQuote (by decide) path hc
  rcases hscheme with rfl | rfl
  · simpa [stripUrl, List.filter_append] using hquoted
  · simpa [stripUrl, List.filter_append] using hquoted

theorem splitScheme_downloadUrl {scheme : List Char}
    (hscheme : scheme = ['f', 't', 'p'] ∨ scheme = ['f', 't', 'p', 's']) (rest : List Char) :
    (splitScheme (scheme ++ ':' :: rest)).2 = rest := by
  rcases hscheme with rfl | rfl
  · simp [splitScheme, cutAt, schemeCharacter]
  · simp [splitScheme, cutAt, schemeCharacter]

theorem splitNetloc_of {host rest : List Char} (hhost : ∀ c ∈ pathMarks, c ∉ host) :
    splitNetloc ('/' :: '/' :: (host ++ '/' :: rest)) = (host, '/' :: rest) := by
  have hslashes : "//".toList <+: '/' :: '/' :: (host ++ '/' :: rest) := ⟨_, rfl⟩
  have hkept : ∀ c ∈ host, decide (c ∉ pathMarks) = true := fun c hc =>
    decide_eq_true fun hmark => hhost c hmark hc
  rw [splitNetloc, if_pos hslashes]
  show (List.takeWhile _ (host ++ '/' :: rest), List.dropWhile _ (host ++ '/' :: rest)) = _
  rw [List.takeWhile_append_of_pos hkept, List.dropWhile_append_of_pos hkept,
    List.takeWhile_cons_of_neg (by decide), List.dropWhile_cons_of_neg (by decide),
    List.append_nil]

/-- How a download URL splits. -/
theorem urlsplit_downloadUrl {scheme host path : List Char} {parts : SplitResult}
    (hscheme : scheme = ['f', 't', 'p'] ∨ scheme = ['f', 't', 'p', 's'])
    (hhost : ∀ c ∈ pathMarks, c ∉ host)
    (h : r.urlsplit (scheme ++ [':', '/', '/'] ++ host ++ '/' :: percentQuote ['/'] path) =
      some parts) :
    parts.path = '/' :: percentQuote ['/'] path ∧ parts.query = [] ∧ parts.fragment = [] := by
  obtain ⟨-, hpath, hquery, hfragment⟩ := r.urlsplit_eq_some h
  have hrest : (splitNetloc (splitScheme (stripUrl (scheme ++ [':', '/', '/'] ++ host ++
      '/' :: percentQuote ['/'] path))).2).2 = '/' :: percentQuote ['/'] path := by
    rw [stripUrl_downloadUrl hscheme, splitScheme_downloadUrl hscheme, splitNetloc_of]
    exact fun c hc hmem => hhost c hc (List.mem_of_mem_filter hmem)
  have hmark : ∀ c ∈ ['?', '#'], c ∉ '/' :: percentQuote ['/'] path := by
    intro c hc hmem
    rcases List.mem_cons.1 hmem with rfl | hmem
    · exact absurd hc (by decide)
    · refine not_mem_percentQuote ?_ path hmem
      exact List.mem_append_left ['\t', '\r', '\n'] hc
  have hfirst := cutAt_of_not_mem (hmark '#' (by decide))
  have hsecond := cutAt_of_not_mem (hmark '?' (by decide))
  rw [hrest, hfirst] at hpath hquery hfragment
  rw [hsecond] at hpath hquery
  exact ⟨hpath, hquery, hfragment⟩

/-! ## The target of an admitted file -/

/-- A basename stays a component when it is quoted. -/
theorem isComponent_percentQuote {name : List Char} (h : IsComponent name) :
    IsComponent (percentQuote ['/'] name) := by
  have hback := unquote_percentQuote slash_safe name
  refine ⟨?_, ?_, ?_⟩
  · intro hmem
    have hplain : '/' ≠ '%' ∧ ∀ n < 16, '/' ≠ upperHexDigit n := by decide
    rcases mem_percentQuote hmem with ⟨hname, -⟩ | hpercent | ⟨n, hn, hdigit⟩
    · exact h.1 hname
    · exact hplain.1 hpercent
    · exact hplain.2 n hn hdigit
  · intro hnil
    rw [hnil] at hback
    exact h.2.1 hback.symm
  · intro hdot
    rw [hdot] at hback
    exact h.2.2 hback.symm

/-- The name and the path that the downloader reads back. -/
theorem names_of_downloadUrl (feed : NcrFeedConfig) {name : List Char} (h : IsComponent name)
    {path : List Char} (hpath : '/' :: path = expectedPath feed name) :
    unquote (posixName ('/' :: percentQuote ['/'] path)) = name ∧
      unquote ('/' :: percentQuote ['/'] path) = expectedPath feed name := by
  have hquote : '/' :: percentQuote ['/'] path = percentQuote ['/'] ('/' :: path) :=
    (percentQuote_cons_of_mem List.mem_cons_self path).symm
  rw [hquote, hpath]
  refine ⟨?_, unquote_percentQuote slash_safe _⟩
  rw [expectedPath, percentQuote_append, percentQuote_cons_of_mem List.mem_cons_self,
    posixName_append (isComponent_percentQuote h), unquote_percentQuote slash_safe]

/-- The joined parts of a path are the expected path. -/
theorem joinedPath_eq (feed : NcrFeedConfig) {name : String} (h : name ≠ "") :
    '/' :: (String.intercalate "/" ([stripSlashes feed.remoteDirectory, name].filter
      fun part => part ≠ "")).toList = expectedPath feed name.toList := by
  have hone : String.intercalate "/" [name] = name := rfl
  have htwo : String.intercalate "/" [stripSlashes feed.remoteDirectory, name] =
      stripSlashes feed.remoteDirectory ++ "/" ++ name := rfl
  have hslash : "/".toList = ['/'] := rfl
  rw [expectedPath]
  by_cases hdirectory : stripSlashes feed.remoteDirectory = ""
  · rw [if_pos hdirectory, List.filter_cons_of_neg (by simp [hdirectory]),
      List.filter_cons_of_pos (by simpa using h), List.filter_nil, hone]
    rfl
  · rw [if_neg hdirectory, List.filter_cons_of_pos (by simpa using hdirectory),
      List.filter_cons_of_pos (by simpa using h), List.filter_nil, htwo, String.toList_append,
      String.toList_append, hslash, List.append_assoc]
    rfl

/-- The path of a download URL. -/
theorem downloadUrl_eq_ok {site : Site} {feed : NcrFeedConfig} {filename url : String}
    (h : feed.downloadUrl (readingSite r site) filename = .ok url) :
    ∃ name path, r.pathRules.safeBasename filename.toList = .ok name ∧
      url.toList = (protocolValue feed.protocol).toList ++ [':', '/', '/'] ++ feed.host.toList ++
        '/' :: percentQuote ['/'] path ∧
      '/' :: path = expectedPath feed name := by
  obtain ⟨basename, hbasename, h⟩ := bind_eq_ok.1 h
  obtain ⟨name, hname, rfl⟩ := map_eq_ok.1 hbasename
  have hne : String.ofList name ≠ "" := by
    intro heq
    have hnil : name = [] := by simpa using congrArg String.toList heq
    obtain ⟨-, -, hdisplayed⟩ := r.safeBasename_eq_ok.1 hname
    exact hdisplayed.1 (by simp [hnil])
  have hjoined := joinedPath_eq feed hne
  rw [String.toList_ofList] at hjoined
  refine ⟨name, _, hname, ?_, hjoined⟩
  have hquote : ∀ path, (readingSite r site).quote path =
      String.ofList (percentQuote ['/'] path.toList) := fun _ => rfl
  have hmarks : "://".toList = [':', '/', '/'] := rfl
  have hslash : "/".toList = ['/'] := rfl
  rw [← pure_eq_ok.1 h, hquote]
  simp only [String.toList_append, hmarks, hslash, String.toList_ofList, List.append_assoc,
    List.cons_append, List.nil_append]

/-- The name and the URL of a file that the adapter admits, and the name of its entry. -/
theorem admittedFile_eq_ok {site : Site} {config : NcrSourceConfig} {feed : NcrFeedConfig}
    {listed : String} {contentLength : Option Nat} {file : RemoteFile}
    (h : admittedFile r site config feed listed contentLength = .ok file) :
    ∃ entry name, safeBasename r listed = .ok entry ∧
      r.pathRules.safeBasename entry.toList = .ok name ∧ r.pathRules.safeBasename name = .ok name ∧
      file.portalId = feed.portalId ∧ file.originalFilename = String.ofList name ∧
      feed.downloadUrl (readingSite r site) entry = .ok file.downloadUrl ∧
      validateDiscoveredUrl r file.downloadUrl [feed.host] [protocolValue feed.protocol] =
        .ok () := by
  obtain ⟨entry, hentry, h⟩ := bind_eq_ok.1 h
  obtain ⟨url, hurl, h⟩ := bind_eq_ok.1 h
  obtain ⟨⟨⟩, hvalid, h⟩ := bind_eq_ok.1 h
  obtain ⟨filename, hfilename, h⟩ := bind_eq_ok.1 h
  obtain ⟨⟨⟩, hchecks, h⟩ := bind_eq_ok.1 h
  obtain ⟨⟨⟩, hnames, -⟩ := bind_eq_ok.1 hchecks
  obtain ⟨-, hagain⟩ := validateNames_eq_ok hnames
  obtain ⟨name, hname, rfl⟩ := map_eq_ok.1 hfilename
  rw [← pure_eq_ok.1 h]
  exact ⟨entry, name, hentry, hname, safeBasename_ofList hagain, rfl, rfl, hurl, hvalid⟩

theorem isComponent_of_safeBasename {value name : List Char}
    (h : r.pathRules.safeBasename value = .ok name) : IsComponent name := by
  obtain ⟨-, -, hdisplayed⟩ := r.safeBasename_eq_ok.1 h
  have hreserved : name ≠ [] ∧ name ≠ ['.'] ∧ name ≠ ['.', '.'] := by simpa using hdisplayed.1
  exact ⟨(r.separators_not_mem h).1, hreserved.1, hreserved.2.1⟩

/-- What the downloader reads in the URL of an admitted file. -/
theorem urlsplit_admitted {site : Site} {feed : NcrFeedConfig} {entry url : String}
    {name : List Char} (hprotocol : feed.protocol = .ftp ∨ feed.protocol = .ftps)
    (hname : r.pathRules.safeBasename entry.toList = .ok name)
    (hurl : feed.downloadUrl (readingSite r site) entry = .ok url)
    (hvalid : validateDiscoveredUrl r url [feed.host] [protocolValue feed.protocol] = .ok ()) :
    ∃ parts port, r.urlsplit url.toList = some parts ∧
      (r.casefold parts.scheme = (protocolValue feed.protocol).toList ∧
        normalizedHost r (r.hostname parts) = normalizedHost r feed.host.toList ∧
        '@' ∉ parts.netloc ∧ parts.query = [] ∧ parts.fragment = []) ∧
      portOf parts = some port ∧ (port = none ∨ port = some 21) ∧
      unquote (posixName parts.path) = name ∧ unquote parts.path = expectedPath feed name := by
  obtain ⟨parts, port, hsplit, hscheme, hhost, huser, hport, hdefault⟩ :=
    validateDiscoveredUrl_eq_ok hvalid
  obtain ⟨name', path, hname', hurlList, hpath⟩ := downloadUrl_eq_ok hurl
  obtain rfl : name = name' := Except.ok.inj (hname.symm.trans hname')
  have hmarks : ∀ c ∈ pathMarks, c ∉ feed.host.toList := by
    intro c hc hmem
    rw [← normalizedHost_mem (r := r) hc, ← hhost, normalizedHost_mem hc] at hmem
    exact r.mark_not_mem_hostname hsplit hc hmem
  have hprotocolText : (protocolValue feed.protocol).toList = ['f', 't', 'p'] ∨
      (protocolValue feed.protocol).toList = ['f', 't', 'p', 's'] := by
    rcases hprotocol with hftp | hftps
    · exact Or.inl (by rw [hftp]; rfl)
    · exact Or.inr (by rw [hftps]; rfl)
  have hport' : port = none ∨ port = some 21 := by
    rcases hprotocolText with htext | htext
    · rw [htext] at hdefault
      exact hdefault
    · rw [htext] at hdefault
      exact hdefault
  have hwritten := hsplit
  rw [hurlList] at hwritten
  obtain ⟨hparts, hquery, hfragment⟩ := urlsplit_downloadUrl hprotocolText hmarks hwritten
  obtain ⟨hread, hwhole⟩ := names_of_downloadUrl feed (isComponent_of_safeBasename hname) hpath
  rw [← hparts] at hread hwhole
  exact ⟨parts, port, hsplit, ⟨hscheme, hhost, huser, hquery, hfragment⟩, hport, hport', hread,
    hwhole⟩

/-- Every file that the adapter admits is a target of the downloader. -/
theorem validatedTarget_of_admitted {site : Site} {config : NcrSourceConfig}
    {feed : NcrFeedConfig} {feeds : String → Option NcrFeedConfig} {listed : String}
    {contentLength : Option Nat} {file : RemoteFile}
    (hprotocol : feed.protocol = .ftp ∨ feed.protocol = .ftps)
    (hfeeds : feeds feed.portalId = some feed)
    (h : admittedFile r site config feed listed contentLength = .ok file) :
    validatedTarget r feeds feed.protocol file = .ok (feed, file.originalFilename) ∧
      ∃ entry, safeBasename r listed = .ok entry ∧
        safeBasename r entry = .ok file.originalFilename ∧
        safeBasename r file.originalFilename = .ok file.originalFilename := by
  obtain ⟨entry, name, hentry, hname, hagain, hportal, hfile, hurl, hvalid⟩ :=
    admittedFile_eq_ok h
  obtain ⟨parts, port, hsplit, hfeed, hport, hdefault, hread, hwhole⟩ :=
    urlsplit_admitted hprotocol hname hurl hvalid
  have hnames : (String.ofList name).toList = name := String.toList_ofList
  rw [hfile]
  constructor
  · rw [validatedTarget, require_bind_of hprotocol, hportal, hfeeds]
    dsimp only
    rw [hsplit]
    dsimp only
    rw [require_bind_of hfeed, hport]
    dsimp only
    rw [require_bind_of hdefault, hread, hagain, ok_bind, hfile,
      require_bind_of hnames.symm, require_bind_of hwhole]
    rfl
  · refine ⟨entry, hentry, map_eq_ok.2 ⟨name, hname, rfl⟩, ?_⟩
    rw [safeBasename, hnames, hagain]
    rfl

/-- The names of a listing that come through unchanged. -/
theorem retrieved_name_iff {listed entry name : String}
    (hlisted : safeBasename r listed = .ok entry) (hentry : safeBasename r entry = .ok name)
    (hname : safeBasename r name = .ok name) :
    name = listed ↔ TextRules.IsPlain listed.toList := by
  obtain ⟨e, he, rfl⟩ := map_eq_ok.1 hlisted
  obtain ⟨n, hn, rfl⟩ := map_eq_ok.1 hentry
  obtain ⟨n', hn', heq⟩ := map_eq_ok.1 hname
  rw [String.toList_ofList] at hn hn'
  have hsame : n' = n := String.ofList_inj.1 heq
  subst hsame
  obtain ⟨-, -, hdisplayed⟩ := r.safeBasename_eq_ok.1 hn'
  constructor
  · intro hlist
    rw [← hlist, String.toList_ofList]
    exact (r.safeBasename_eq_self_iff hdisplayed).1 hn'
  · intro hplain
    have hfirst : e = listed.toList := r.eq_of_isPlain hplain he
    subst hfirst
    have hsecond : n' = listed.toList := r.eq_of_isPlain hplain hn
    rw [hsecond, String.ofList_toList]

/-- The check of the `RemoteFile` constructor on its name, where it accepts the identity. -/
theorem validateNames_eq_ok_iff {file : RemoteFile}
    (hids : file.retailerId ≠ "" ∧ file.portalId ≠ "" ∧ file.remoteId ≠ "")
    (hlength : file.remoteId.length ≤ maximumRemoteIdCharacters) :
    validateNames r file = .ok () ↔
      r.pathRules.safeBasename file.originalFilename.toList = .ok file.originalFilename.toList := by
  rw [validateNames, require_bind_of hids, require_bind_of hlength]
  constructor
  · intro h
    obtain ⟨again, hagain, hsame⟩ := bind_eq_ok.1 h
    have hsame : again = file.originalFilename := require_eq_ok.1 hsame
    obtain ⟨name, hname, hof⟩ := map_eq_ok.1 hagain
    rw [hname, ← hsame, ← hof, String.toList_ofList]
  · intro h
    rw [safeBasename, h]
    exact require_eq_ok.2 String.ofList_toList

/-- A basename is settled exactly if its text decodes once, and a listed name is retrieved as it is
listed exactly if it is plain. -/
theorem basename_settled_iff (r : TextRules) :
    (∀ value name, r.pathRules.safeBasename value = .ok name →
      (r.pathRules.safeBasename name = .ok name ↔
          TextRules.DecodedOnce (r.lastComponent value)) ∧
        ∀ built : RemoteFile, built.originalFilename = String.ofList name →
          built.retailerId ≠ "" ∧ built.portalId ≠ "" ∧ built.remoteId ≠ "" →
          built.remoteId.length ≤ maximumRemoteIdCharacters →
          (validateNames r built = .ok () ↔ TextRules.DecodedOnce (r.lastComponent value))) ∧
      ∀ (site : Site) (config : NcrSourceConfig) (feed : NcrFeedConfig)
        (feeds : String → Option NcrFeedConfig) (listed : String) (contentLength : Option Nat)
        (file : RemoteFile), feed.protocol = .ftp ∨ feed.protocol = .ftps →
        feeds feed.portalId = some feed →
        admittedFile r site config feed listed contentLength = .ok file →
        ∃ retrieved, validatedTarget r feeds feed.protocol file = .ok (feed, retrieved) ∧
          (retrieved = listed ↔ TextRules.IsPlain listed.toList) := by
  constructor
  · intro value name hname
    have hagain := r.safeBasename_again_iff hname
    refine ⟨hagain, fun built hbuilt hids hlength => ?_⟩
    rw [validateNames_eq_ok_iff hids hlength, hbuilt, String.toList_ofList]
    exact hagain
  · intro site config feed feeds listed contentLength file hprotocol hfeeds hfile
    obtain ⟨htarget, entry, hlisted, hentry, hsettled⟩ :=
      validatedTarget_of_admitted hprotocol hfeeds hfile
    exact ⟨_, htarget, retrieved_name_iff hlisted hentry hsettled⟩

end Targets

/-! ## Names that do not settle -/

/-- The public feed. -/
def publicFeed : NcrFeedConfig :=
  { plainFeed "ncr:shop:public" with protocol := .ftp, host := "url.retail.publishedprices.co.il" }

def publicConfig : NcrSourceConfig := ⟨"shop", [publicFeed], by decide⟩

def publicFile : RemoteFile :=
  ⟨"shop", "ncr:shop:public", "url.retail.publishedprices.co.il/Price1.gz",
    "ftp://url.retail.publishedprices.co.il/Price1.gz", "Price1.gz", .gzip, none⟩

theorem admitted_escape :
    admittedFile asciiRules plainSite publicConfig publicFeed "Price%31.gz" none =
      .ok publicFile := by
  refine toOption_eq_some.1 ?_
  decide +kernel

/-- Names with a reserved character, with a blank and with Hebrew letters. -/
def publicNames : List String := ["Price#1.gz", "Price 1.gz", "מחיר1.gz"]

theorem admitted_publicNames : ∀ listed ∈ publicNames, ∃ file,
    admittedFile asciiRules plainSite publicConfig publicFeed listed none = .ok file := by
  have hadmitted : ∀ listed ∈ publicNames,
      (admittedFile asciiRules plainSite publicConfig publicFeed listed none).toOption.isSome =
        true := by
    decide +kernel
  intro listed hlisted
  obtain ⟨file, hfile⟩ := Option.isSome_iff_exists.1 (hadmitted listed hlisted)
  exact ⟨file, toOption_eq_some.1 hfile⟩

/-- The escaped name has a settled basename and is retrieved under another name; the others are
retrieved as they are listed. -/
theorem basename_settled_price :
    (asciiRules.pathRules.safeBasename "Price1.gz".toList = .ok "Price1.gz".toList ∧
      ∃ retrieved, validatedTarget asciiRules (fun _ => some publicFeed) publicFeed.protocol
          publicFile = .ok (publicFeed, retrieved) ∧ retrieved ≠ "Price%31.gz") ∧
      ∀ listed ∈ publicNames, ∃ file,
        admittedFile asciiRules plainSite publicConfig publicFeed listed none = .ok file ∧
          validatedTarget asciiRules (fun _ => some publicFeed) publicFeed.protocol file =
            .ok (publicFeed, listed) := by
  have hname : (asciiRules.pathRules.safeBasename "Price%31.gz".toList).toOption =
      some "Price1.gz".toList := by
    decide +kernel
  have hplain : ∀ listed ∈ publicNames, TextRules.IsPlain listed.toList := by decide
  obtain ⟨hbasenames, htargets⟩ := basename_settled_iff asciiRules
  refine ⟨⟨(hbasenames _ _ (toOption_eq_some.1 hname)).1.2 (by decide +kernel), ?_⟩, ?_⟩
  · obtain ⟨retrieved, htarget, hsame⟩ := htargets plainSite publicConfig publicFeed
      (fun _ => some publicFeed) _ _ _ (.inl rfl) rfl admitted_escape
    exact ⟨retrieved, htarget, fun h => absurd (hsame.1 h) (by decide)⟩
  · intro listed hlisted
    obtain ⟨file, hfile⟩ := admitted_publicNames listed hlisted
    obtain ⟨retrieved, htarget, hsame⟩ := htargets plainSite publicConfig publicFeed
      (fun _ => some publicFeed) _ _ _ (.inl rfl) rfl hfile
    rw [hsame.2 (hplain listed hlisted)] at htarget
    exact ⟨file, hfile, htarget⟩

/-- A name with an escape of an escape is not settled, and an escaped name is retrieved decoded. -/
theorem escaped_names_change :
    (∃ name, asciiRules.pathRules.safeBasename "a%2541.xml".toList = .ok name ∧
        asciiRules.pathRules.safeBasename name = .ok "aA.xml".toList ∧ name ≠ "aA.xml".toList) ∧
      ∃ file, admittedFile asciiRules plainSite publicConfig publicFeed "Price%31.gz" none =
          .ok file ∧
        validatedTarget asciiRules (fun _ => some publicFeed) publicFeed.protocol file =
          .ok (publicFeed, "Price1.gz") := by
  have hfirst : (asciiRules.pathRules.safeBasename "a%2541.xml".toList).toOption =
      some "a%41.xml".toList := by
    decide +kernel
  have hsecond : (asciiRules.pathRules.safeBasename "a%41.xml".toList).toOption =
      some "aA.xml".toList := by
    decide +kernel
  refine ⟨⟨_, toOption_eq_some.1 hfirst, toOption_eq_some.1 hsecond, by decide⟩, _,
    admitted_escape, ?_⟩
  exact (validatedTarget_of_admitted (Or.inl rfl) rfl admitted_escape).1

end Makolet.Downloads
