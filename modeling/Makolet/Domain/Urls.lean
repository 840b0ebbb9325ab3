import Mathlib.Data.List.TakeWhile
import Makolet.Domain.Filenames
import Makolet.Lib.Percent

/-!
# Source URLs and their names

`urlsplit` and the path classes as `domain/filenames.py` uses them, so that `safe_basename` runs on
any text. `safeBasename_eq_self_iff` says which names it leaves alone, and `safeBasename_again_iff`
from which texts such a name comes.
-/

set_option autoImplicit false

namespace Makolet.Domain

open Makolet.Lib

/-! ## Splitting -/

/-- The characters that end the authority of a URL. -/
def pathMarks : List Char := ['/', '?', '#']

/-- What is read of the Unicode tables: `str.lower`, `str.casefold`, and the checks that `urlsplit`
makes on an authority (brackets, address literals, compatibility forms). -/
structure TextRules where
  lower : List Char → List Char
  casefold : List Char → List Char
  authorityOk : List Char → Bool
  casefold_nil : casefold [] = []
  mem_lower : ∀ c ∈ pathMarks, ∀ s, c ∈ lower s ↔ c ∈ s
  mem_casefold : ∀ c ∈ pathMarks, ∀ s, c ∈ casefold s ↔ c ∈ s

structure SplitResult where
  scheme : List Char
  netloc : List Char
  path : List Char
  query : List Char
  fragment : List Char
  deriving DecidableEq, Repr

/-- The text up to a character, and the text behind it. -/
def cutAt (c : Char) (s : List Char) : List Char × List Char :=
  (s.takeWhile (· ≠ c), (s.dropWhile (· ≠ c)).tail)

def schemeCharacter (c : Char) : Bool :=
  decide (c.toNat < 0x80) && (c.isAlphanum || c ∈ ['+', '-', '.'])

/-- The scheme, if a URL has one, and the rest. -/
def splitScheme (url : List Char) : List Char × List Char :=
  let scheme := (cutAt ':' url).1
  if ':' ∈ url ∧ (scheme.head?.any fun c => decide (c.toNat < 0x80) && c.isAlpha) = true ∧
      scheme.all schemeCharacter = true then
    (scheme.map Char.toLower, (cutAt ':' url).2)
  else ([], url)

/-- The authority behind two slashes, and the rest. -/
def splitNetloc (url : List Char) : List Char × List Char :=
  if "//".toList <+: url then
    ((url.drop 2).takeWhile (· ∉ pathMarks), (url.drop 2).dropWhile (· ∉ pathMarks))
  else ([], url)

/-- What `urlsplit` takes out of a URL before it reads it. -/
def stripUrl (url : List Char) : List Char :=
  (url.dropWhile fun c => decide (c.toNat ≤ 0x20)).filter (· ∉ ['\t', '\r', '\n'])

/-- `urlsplit`; an authority that it refuses is no URL. -/
def TextRules.urlsplit (r : TextRules) (url : List Char) : Option SplitResult :=
  let (scheme, rest) := splitScheme (stripUrl url)
  let (netloc, rest) := splitNetloc rest
  if r.authorityOk netloc then
    let (rest, fragment) := cutAt '#' rest
    let (path, query) := cutAt '?' rest
    some ⟨scheme, netloc, path, query, fragment⟩
  else none

/-- The text behind the last `@` of an authority. -/
def hostInfo (netloc : List Char) : List Char :=
  (netloc.reverse.takeWhile (· ≠ '@')).reverse

/-- `_hostinfo`: the host name and the port as they are written. -/
def splitHost (netloc : List Char) : List Char × List Char :=
  if '[' ∈ hostInfo netloc then
    let (host, rest) := cutAt ']' (cutAt '[' (hostInfo netloc)).2
    (host, (cutAt ':' rest).2)
  else cutAt ':' (hostInfo netloc)

/-- `urlsplit(...).hostname or ""`; the zone behind a `%` keeps its case. -/
def TextRules.hostname (r : TextRules) (parts : SplitResult) : List Char :=
  let host := (splitHost parts.netloc).1
  if host = [] then []
  else r.lower (host.takeWhile (· ≠ '%')) ++ host.dropWhile (· ≠ '%')

/-- `urlsplit(...).port`: `none` where it raises. -/
def portOf (parts : SplitResult) : Option (Option Nat) :=
  let port := (splitHost parts.netloc).2
  if port = [] then some none
  else if port.all Char.isDigit then
    let n := port.foldl (fun n c => 10 * n + (c.toNat - 48)) 0
    if n ≤ 65535 then some (some n) else none
  else none

/-! ## Names -/

/-- The components of a path. -/
def pathComponents (s : List Char) : List (List Char) :=
  (s.splitOn '/').filter fun part => part ≠ [] ∧ part ≠ ['.']

/-- `PurePosixPath(...).name`. -/
def posixName (s : List Char) : List Char := (pathComponents s).getLastD []

/-- The text behind a drive. -/
def withoutDrive (s : List Char) : List Char := if s[1]? = some ':' then s.drop 2 else s

/-- `PureWindowsPath(...).name`, of a text without a backslash. -/
def windowsName (s : List Char) : List Char := posixName (withoutDrive s)

/-- The characters that `validate_display_filename` refuses: the categories Cc, Zl and Zp, and
`_UNSAFE_BIDI_CONTROLS`. Surrogates are no characters here. -/
def unsafeCharacter (c : Char) : Bool :=
  decide (c.toNat < 0x20 ∨ 0x7F ≤ c.toNat ∧ c.toNat ≤ 0x9F ∨
    c.toNat ∈ [0x2028, 0x2029, 0x061C, 0x200E, 0x200F, 0x202A, 0x202B, 0x202C, 0x202D, 0x202E,
      0x2066, 0x2067, 0x2068, 0x2069])

/-- The rules of `safe_basename`. A text whose URL does not split raises there; its path is empty
here, which `safe_basename` refuses as well. -/
def TextRules.pathRules (r : TextRules) : PathRules where
  unquote := unquote
  urlPath := fun url => ((r.urlsplit url).map SplitResult.path).getD []
  posixName := posixName
  windowsName := windowsName
  isUnsafe := unsafeCharacter
  encodedLength := fun s => (utf8 s).length
  casefold := r.casefold

/-! ## What the parts of a URL hold -/

theorem cutAt_sublist (c : Char) (s : List Char) :
    (cutAt c s).1.Sublist s ∧ (cutAt c s).2.Sublist s :=
  ⟨List.takeWhile_sublist _, (List.tail_sublist _).trans (List.dropWhile_sublist _)⟩

theorem cutAt_of_not_mem {c : Char} {s : List Char} (h : c ∉ s) : cutAt c s = (s, []) := by
  have hall : ∀ d ∈ s, decide (d ≠ c) = true := fun d hd =>
    decide_eq_true fun heq => h (heq ▸ hd)
  rw [cutAt, List.takeWhile_eq_self_iff.2 hall, List.dropWhile_eq_nil_iff.2 hall]
  rfl

theorem splitHost_sublist (netloc : List Char) : (splitHost netloc).1.Sublist netloc := by
  have hinfo : (hostInfo netloc).Sublist netloc := by
    rw [hostInfo, ← List.reverse_sublist, List.reverse_reverse]
    exact List.takeWhile_sublist _
  rw [splitHost]
  split_ifs
  · exact ((cutAt_sublist ']' _).1.trans (cutAt_sublist '[' _).2).trans hinfo
  · exact (cutAt_sublist ':' _).1.trans hinfo

/-- The authority holds none of the characters that end it. -/
theorem mark_not_mem_splitNetloc {c : Char} (hc : c ∈ pathMarks) (url : List Char) :
    c ∉ (splitNetloc url).1 := by
  rw [splitNetloc]
  split_ifs
  · intro hmem
    have := List.mem_takeWhile_imp hmem
    simp [hc] at this
  · exact List.not_mem_nil

/-- What follows an authority. -/
theorem splitNetloc_rest {url : List Char} (h : (splitNetloc url).1 ≠ []) :
    (splitNetloc url).2 = [] ∨ ∃ c ∈ pathMarks, (splitNetloc url).2.head? = some c := by
  rw [splitNetloc] at h ⊢
  split_ifs at h ⊢ with hslashes
  · cases hrest : (url.drop 2).dropWhile (· ∉ pathMarks) with
    | nil => exact Or.inl rfl
    | cons c rest =>
      have hhead := List.head?_dropWhile_not (fun d : Char => decide (d ∉ pathMarks)) (url.drop 2)
      rw [hrest] at hhead
      refine Or.inr ⟨c, ?_, rfl⟩
      simpa using hhead
  · exact absurd rfl h

namespace TextRules

variable (r : TextRules)

theorem urlsplit_eq_some {url : List Char} {parts : SplitResult} (h : r.urlsplit url = some parts) :
    parts.netloc = (splitNetloc (splitScheme (stripUrl url)).2).1 ∧
      parts.path = (cutAt '?' (cutAt '#' (splitNetloc (splitScheme (stripUrl url)).2).2).1).1 ∧
      parts.query = (cutAt '?' (cutAt '#' (splitNetloc (splitScheme (stripUrl url)).2).2).1).2 ∧
      parts.fragment = (cutAt '#' (splitNetloc (splitScheme (stripUrl url)).2).2).2 := by
  rw [urlsplit] at h
  dsimp only at h
  split_ifs at h
  cases h
  exact ⟨rfl, rfl, rfl, rfl⟩

/-- A host name holds no separator. -/
theorem mark_not_mem_hostname {url : List Char} {parts : SplitResult}
    (h : r.urlsplit url = some parts) {c : Char} (hc : c ∈ pathMarks) : c ∉ r.hostname parts := by
  have hnetloc : c ∉ (splitHost parts.netloc).1 := by
    rw [(r.urlsplit_eq_some h).1]
    exact fun hmem => mark_not_mem_splitNetloc hc _ ((splitHost_sublist _).subset hmem)
  rw [hostname]
  split_ifs
  · exact List.not_mem_nil
  · rw [List.mem_append, not_or, r.mem_lower c hc]
    exact ⟨fun hmem => hnetloc ((List.takeWhile_sublist _).subset hmem),
      fun hmem => hnetloc ((List.dropWhile_sublist _).subset hmem)⟩

/-- Behind a host name the path is empty or starts with its separator. -/
theorem path_of_hostname {url : List Char} {parts : SplitResult} (h : r.urlsplit url = some parts)
    (hhost : r.hostname parts ≠ []) : parts.path = [] ∨ parts.path.head? = some '/' := by
  obtain ⟨hnetloc, hpath, -⟩ := r.urlsplit_eq_some h
  have hne : parts.netloc ≠ [] := by
    intro hnil
    have hsplit : (splitHost parts.netloc).1 = [] := by
      rw [hnil]
      rfl
    exact hhost (by rw [hostname, if_pos hsplit])
  rw [hnetloc] at hne
  rw [hpath]
  rcases splitNetloc_rest hne with hrest | ⟨c, hc, hhead⟩
  · exact Or.inl (by rw [hrest]; rfl)
  · obtain ⟨rest, hrest⟩ := List.head?_eq_some_iff.1 hhead
    rw [hrest]
    simp only [pathMarks, List.mem_cons, List.not_mem_nil, or_false] at hc
    rcases hc with rfl | rfl | rfl
    · exact Or.inr rfl
    · exact Or.inl rfl
    · exact Or.inl rfl

end TextRules

/-! ## What the names are -/

theorem mem_splitOn {s part : List Char} (h : part ∈ s.splitOn '/') :
    '/' ∉ part ∧ part.Sublist s := by
  induction s generalizing part with
  | nil =>
    rw [List.splitOn_nil, List.mem_singleton] at h
    subst h
    exact ⟨List.not_mem_nil, .slnil⟩
  | cons c s ih =>
    rw [List.splitOn_cons_eq_if_modifyHead] at h
    split_ifs at h with hc
    · rcases List.mem_cons.1 h with rfl | h
      · exact ⟨List.not_mem_nil, List.nil_sublist _⟩
      · exact ⟨(ih h).1, (ih h).2.cons _⟩
    · have hslash : c ≠ '/' := by simpa using hc
      obtain ⟨first, rest, hsplit⟩ := List.exists_cons_of_ne_nil (List.splitOn_ne_nil '/' s)
      rw [hsplit, List.modifyHead_cons] at h
      rcases List.mem_cons.1 h with rfl | h
      · have hfirst := ih (hsplit ▸ List.mem_cons_self)
        refine ⟨?_, hfirst.2.cons_cons c⟩
        rw [List.mem_cons, not_or]
        exact ⟨Ne.symm hslash, hfirst.1⟩
      · have hpart := ih (hsplit ▸ List.mem_cons_of_mem _ h)
        exact ⟨hpart.1, hpart.2.cons _⟩

/-- A name in a path: not empty, not the directory itself, and without a separator. -/
def IsComponent (s : List Char) : Prop := '/' ∉ s ∧ s ≠ [] ∧ s ≠ ['.']

theorem posixName_spec (s : List Char) :
    posixName s = [] ∨ IsComponent (posixName s) ∧ (posixName s).Sublist s := by
  rw [posixName]
  cases hlast : (pathComponents s).getLast? with
  | none => exact Or.inl (by rw [List.getLastD_eq_getLast?, hlast]; rfl)
  | some part =>
    refine Or.inr ?_
    rw [List.getLastD_eq_getLast?, hlast, Option.getD_some]
    obtain ⟨hmem, hkept⟩ := List.mem_filter.1 (List.mem_of_getLast? hlast)
    have hpart := mem_splitOn hmem
    have hne : part ≠ [] ∧ part ≠ ['.'] := by simpa using hkept
    exact ⟨⟨hpart.1, hne⟩, hpart.2⟩

theorem posixName_sublist (s : List Char) : (posixName s).Sublist s := by
  rcases posixName_spec s with h | h
  · rw [h]
    exact List.nil_sublist _
  · exact h.2

theorem slash_not_mem_posixName (s : List Char) : '/' ∉ posixName s := by
  rcases posixName_spec s with h | h
  · rw [h]
    exact List.not_mem_nil
  · exact h.1.1

theorem pathComponents_of_isComponent {s : List Char} (h : IsComponent s) :
    pathComponents s = [s] := by
  rw [pathComponents, List.splitOn_eq_singleton h.1]
  simp [h.2.1, h.2.2]

theorem posixName_of_isComponent {s : List Char} (h : IsComponent s) : posixName s = s := by
  rw [posixName, pathComponents_of_isComponent h]
  rfl

theorem posixName_eq_self {s : List Char} (hslash : '/' ∉ s) (hname : posixName s ≠ []) :
    posixName s = s := by
  refine posixName_of_isComponent ⟨hslash, ?_, ?_⟩
  · rintro rfl
    exact hname (by decide)
  · rintro rfl
    exact hname (by decide)

/-- The name behind a directory. -/
theorem posixName_append {directory name : List Char} (h : IsComponent name) :
    posixName (directory ++ '/' :: name) = name := by
  have hname := pathComponents_of_isComponent h
  rw [pathComponents] at hname
  rw [posixName, pathComponents, List.splitOn_append_cons_self, List.filter_append, hname,
    List.getLastD_eq_getLast?, List.getLast?_append]
  rfl

theorem withoutDrive_sublist (s : List Char) : (withoutDrive s).Sublist s := by
  rw [withoutDrive]
  split_ifs
  · exact List.drop_sublist _ _
  · exact .refl s

theorem windowsName_sublist (s : List Char) : (windowsName s).Sublist s :=
  (posixName_sublist _).trans (withoutDrive_sublist s)

/-- A name without a drive is its own. -/
theorem windowsName_eq_self_iff {s : List Char} (h : IsComponent s) :
    windowsName s = s ↔ s[1]? ≠ some ':' := by
  constructor
  · intro heq hdrive
    have hlength : 1 < s.length := (List.getElem?_eq_some_iff.1 hdrive).1
    have hle : (windowsName s).length ≤ s.length - 2 := by
      rw [windowsName, withoutDrive, if_pos hdrive, ← List.length_drop]
      exact (posixName_sublist _).length_le
    rw [heq] at hle
    omega
  · intro hdrive
    rw [windowsName, withoutDrive, if_neg hdrive]
    exact posixName_of_isComponent h

namespace TextRules

variable (r : TextRules)

/-- The path that `safe_basename` reads, decoded once, with `/` as the only separator. -/
def decodedPath (value : List Char) : List Char :=
  (if "://".toList <:+: value then r.pathRules.unquote (r.pathRules.urlPath value)
    else r.pathRules.unquote value).map fun c => if c = '\\' then '/' else c

/-- The last component of that path. -/
def lastComponent (value : List Char) : List Char := posixName (r.decodedPath value)

/-- What `safe_basename` checks of a name. -/
def Displayed (name : List Char) : Prop :=
  name ∉ [[], ['.'], ['.', '.']] ∧ r.pathRules.validateDisplayFilename name = .ok ()

theorem safeBasename_eq_ok {value name : List Char} :
    r.pathRules.safeBasename value = .ok name ↔
      value ≠ [] ∧ windowsName (r.lastComponent value) = name ∧ r.Displayed name := by
  rw [PathRules.safeBasename, require_bind_eq_ok]
  refine and_congr_right fun _ => ?_
  dsimp only
  rw [require_bind_eq_ok, bind_eq_ok]
  simp only [pure_eq_ok]
  constructor
  · rintro ⟨hname, ⟨⟩, hdisplay, heq⟩
    exact ⟨heq, heq ▸ hname, heq ▸ hdisplay⟩
  · rintro ⟨rfl, hname, hdisplay⟩
    exact ⟨hname, ⟨⟩, hdisplay, rfl⟩

/-- The names that a path cannot split and that need no decoding. -/
def IsPlain (name : List Char) : Prop :=
  '/' ∉ name ∧ '\\' ∉ name ∧ hasEscape name = false ∧ name[1]? ≠ some ':'

instance (name : List Char) : Decidable (IsPlain name) := inferInstanceAs (Decidable (_ ∧ _))

theorem decodedPath_of_slash_not_mem {value : List Char} (h : '/' ∉ value) :
    r.decodedPath value = (unquote value).map fun c => if c = '\\' then '/' else c := by
  have hurl : ¬ "://".toList <:+: value := fun hmarks => h (hmarks.subset (by decide))
  rw [decodedPath, if_neg hurl]
  rfl

theorem map_separators_of_not_mem {s : List Char} (h : '\\' ∉ s) :
    (s.map fun c => if c = '\\' then '/' else c) = s := by
  refine (List.map_congr_left fun c hc => if_neg ?_).trans (List.map_id s)
  rintro rfl
  exact h hc

theorem separators_not_mem_lastComponent (value : List Char) :
    '/' ∉ r.lastComponent value ∧ '\\' ∉ r.lastComponent value := by
  refine ⟨slash_not_mem_posixName _, fun h => ?_⟩
  have hmem := (posixName_sublist _).subset h
  obtain ⟨c, -, hc⟩ := List.mem_map.1 hmem
  split_ifs at hc with hback
  · exact absurd hc (by decide)
  · exact hback hc

/-- What `safe_basename` returns has no separator. -/
theorem separators_not_mem {value name : List Char}
    (h : r.pathRules.safeBasename value = .ok name) : '/' ∉ name ∧ '\\' ∉ name := by
  obtain ⟨-, rfl, -⟩ := r.safeBasename_eq_ok.1 h
  have hlast := r.separators_not_mem_lastComponent value
  have hsub := windowsName_sublist (r.lastComponent value)
  exact ⟨fun hmem => hlast.1 (hsub.subset hmem), fun hmem => hlast.2 (hsub.subset hmem)⟩

/-- Of the names that can be displayed, `safe_basename` leaves exactly the plain ones alone. -/
theorem safeBasename_eq_self_iff {name : List Char} (hdisplayed : r.Displayed name) :
    r.pathRules.safeBasename name = .ok name ↔ IsPlain name := by
  have hreserved : name ≠ [] ∧ name ≠ ['.'] ∧ name ≠ ['.', '.'] := by
    simpa using hdisplayed.1
  constructor
  · intro h
    obtain ⟨hslash, hback⟩ := r.separators_not_mem h
    obtain ⟨-, heq, -⟩ := r.safeBasename_eq_ok.1 h
    have hlength : name.length ≤ (unquote name).length := by
      calc name.length = (windowsName (r.lastComponent name)).length := by rw [heq]
        _ ≤ (r.decodedPath name).length :=
          ((windowsName_sublist _).trans (posixName_sublist _)).length_le
        _ = (unquote name).length := by
          rw [r.decodedPath_of_slash_not_mem hslash, List.length_map]
    have hescape : hasEscape name = false := by
      by_contra hescape
      have hlt := length_unquoteFrom_lt .start name (by simpa using hescape)
      rw [← unquote_eq_unquoteFrom, Utf8State.pending_start] at hlt
      omega
    have hcomponent : IsComponent name := ⟨hslash, hreserved.1, hreserved.2.1⟩
    rw [lastComponent, r.decodedPath_of_slash_not_mem hslash, (unquote_eq_self_iff name).2 hescape,
      map_separators_of_not_mem hback, posixName_of_isComponent hcomponent] at heq
    exact ⟨hslash, hback, hescape, (windowsName_eq_self_iff hcomponent).1 heq⟩
  · rintro ⟨hslash, hback, hescape, hdrive⟩
    have hcomponent : IsComponent name := ⟨hslash, hreserved.1, hreserved.2.1⟩
    refine r.safeBasename_eq_ok.2 ⟨hreserved.1, ?_, hdisplayed⟩
    rw [lastComponent, r.decodedPath_of_slash_not_mem hslash, (unquote_eq_self_iff name).2 hescape,
      map_separators_of_not_mem hback, posixName_of_isComponent hcomponent]
    exact (windowsName_eq_self_iff hcomponent).2 hdrive

/-- A plain text that has a basename is its own. -/
theorem eq_of_isPlain {value name : List Char} (hplain : IsPlain value)
    (h : r.pathRules.safeBasename value = .ok name) : name = value := by
  obtain ⟨hslash, hback, hescape, hdrive⟩ := hplain
  obtain ⟨-, heq, hdisplayed⟩ := r.safeBasename_eq_ok.1 h
  have hne : name ≠ [] := fun hnil => hdisplayed.1 (by simp [hnil])
  rw [lastComponent, r.decodedPath_of_slash_not_mem hslash, (unquote_eq_self_iff value).2 hescape,
    map_separators_of_not_mem hback] at heq
  have hposix : posixName value ≠ [] := by
    intro hnil
    rw [hnil] at heq
    exact hne heq.symm
  rw [posixName_eq_self hslash hposix, windowsName, withoutDrive, if_neg hdrive,
    posixName_eq_self hslash hposix] at heq
  exact heq.symm

/-- A component that one decoding leaves without an escape, and with at most one drive. -/
def DecodedOnce (part : List Char) : Prop :=
  hasEscape part = false ∧ ¬ (part[1]? = some ':' ∧ part[3]? = some ':')

instance (part : List Char) : Decidable (DecodedOnce part) := inferInstanceAs (Decidable (_ ∧ _))

theorem hasEscape_drive (d : Char) (rest : List Char) :
    hasEscape (d :: ':' :: rest) = hasEscape rest := by
  have hdrive : escapeAt (d :: ':' :: rest) = none := by
    cases rest with
    | nil => rfl
    | cons c rest =>
      have hcolon : hexValue ':' = none := by decide
      rw [escapeAt, hcolon]
      split_ifs <;> rfl
  rw [hasEscape, hdrive, hasEscape, escapeAt_eq_none_of_ne (by decide)]
  rfl

theorem isPlain_windowsName_iff {part : List Char} (hslash : '/' ∉ part) (hback : '\\' ∉ part)
    (hname : windowsName part ≠ []) : IsPlain (windowsName part) ↔ DecodedOnce part := by
  by_cases hdrive : part[1]? = some ':'
  · obtain ⟨d, c, rest, rfl⟩ : ∃ d c rest, part = d :: c :: rest := by
      cases part with
      | nil => simp at hdrive
      | cons d part =>
        cases part with
        | nil => simp at hdrive
        | cons c rest => exact ⟨d, c, rest, rfl⟩
    have hcolon : c = ':' := by simpa using hdrive
    subst hcolon
    simp only [List.mem_cons, not_or] at hslash hback
    have heq : windowsName (d :: ':' :: rest) = posixName rest := by
      rw [windowsName, withoutDrive, if_pos hdrive]
      rfl
    rw [heq] at hname ⊢
    rw [posixName_eq_self hslash.2.2 hname, IsPlain, DecodedOnce, hasEscape_drive]
    simp [hslash.2.2, hback.2.2]
  · have heq : windowsName part = posixName part := by
      rw [windowsName, withoutDrive, if_neg hdrive]
    rw [heq] at hname ⊢
    rw [posixName_eq_self hslash hname, IsPlain, DecodedOnce]
    simp [hslash, hback, hdrive]

/-- Which texts have a basename that `safe_basename` leaves alone. -/
theorem safeBasename_again_iff {value name : List Char}
    (h : r.pathRules.safeBasename value = .ok name) :
    r.pathRules.safeBasename name = .ok name ↔ DecodedOnce (r.lastComponent value) := by
  obtain ⟨-, rfl, hdisplayed⟩ := r.safeBasename_eq_ok.1 h
  have hlast := r.separators_not_mem_lastComponent value
  have hne : windowsName (r.lastComponent value) ≠ [] := fun heq => hdisplayed.1 (by simp [heq])
  rw [r.safeBasename_eq_self_iff hdisplayed]
  exact isPlain_windowsName_iff hlast.1 hlast.2 hne

end TextRules

end Makolet.Domain
