import Makolet.Lib.Json
import Makolet.Lib.Outcome

/-!
# The size of the manifest of a backup

`_bounded_backup_manifest` of `deployment/archive_backup.py`. The size of the manifest is counted
while the rows of the inventory are read: a row is written by itself, and what it takes in the
manifest is computed from its bytes and its lines. `boundedBackupManifest_exact` says that the count
is the size of the manifest.
-/

set_option autoImplicit false

namespace Makolet.Backup

open Makolet.Lib

/-! ## The manifest as a value -/

/-- A row of the inventory of PostgreSQL and of the listing of S3. -/
structure ObjectRow where
  key : List Char
  sha256 : List Char
  size : Int
  deriving DecidableEq

def ObjectRow.json (row : ObjectRow) : Json :=
  .object [("key".toList, .string row.key), ("sha256".toList, .string row.sha256),
    ("size".toList, .number row.size)]

/-- What a manifest says besides its objects. -/
structure ManifestHead where
  createdAt : List Char
  bucket : List Char
  keyPrefix : List Char

/-- `_FORMAT`. -/
def manifestFormat : List Char := "makolet-raw-archive-backup-v2".toList

def manifestJson (head : ManifestHead) (rows : List ObjectRow) : Json :=
  .object [("format".toList, .string manifestFormat),
    ("created_at".toList, .string head.createdAt), ("bucket".toList, .string head.bucket),
    ("key_prefix".toList, .string head.keyPrefix), ("objects".toList, .array (rows.map (·.json)))]

/-- `_canonical_manifest_payload`. -/
def canonicalManifestPayload (head : ManifestHead) (rows : List ObjectRow) : Bytes :=
  utf8 ((manifestJson head rows).dumps ++ ['\n'])

/-! ## The loop -/

inductive ManifestError
  /-- `"S3 listing does not match the authoritative PostgreSQL inventory"`. -/
  | mismatch
  /-- `"Raw archive object exceeds the configured size limit"`. -/
  | objectSize
  /-- `"Raw archive backup manifest exceeds its size limit"`. -/
  | manifestSize
  /-- `"Raw archive backup exceeds its aggregate byte limit"`. -/
  | aggregateSize
  /-- `"Raw archive backup manifest accounting is inconsistent"`. -/
  | inconsistent
  /-- What the deadline or the listing raises. -/
  | interrupted (message : String)
  deriving DecidableEq, Repr

/-- `_MAXIMUM_MANIFEST_BYTES`. -/
def maximumManifestBytes : Nat := 16 * 1024 * 1024

/-- `_CHECKSUM_BYTES`. -/
def checksumBytes : Nat := 64 + 2 + "manifest.json".length + 1

/-- `_AUTHENTICATION_BYTES`. -/
def authenticationBytes : Nat := "makolet-raw-archive-manifest-hmac-sha256-v1:".length + 64 + 1

/-- The limits of a backup, and what the checkpoint of the deadline says at each turn. -/
structure ManifestBounds where
  maximumObjectBytes : Int
  maximumBackupBytes : Int
  checkpoint : Nat → Except String Unit

/-- What the loop has counted: `rows`, `prospective_manifest_bytes` and `object_bytes`. -/
structure ManifestCount where
  rows : List ObjectRow
  manifestBytes : Nat
  objectBytes : Int

/-- `nested_entry_bytes`. -/
def nestedEntryBytes (entry : ObjectRow) : Nat :=
  let encodedEntry := utf8 entry.json.dumps
  encodedEntry.length + 4 * (encodedEntry.count 0x0a + 1)

/-- The rest of a turn for an entry of both inventories. -/
def countEntry (bounds : ManifestBounds) (count : ManifestCount) (entry : ObjectRow) :
    Except ManifestError ManifestCount := do
  require (entry.size ≤ bounds.maximumObjectBytes) .objectSize
  let manifestBytes :=
    -- The first row adds two line feeds and the indentation of the closing bracket.
    count.manifestBytes + (nestedEntryBytes entry + if count.rows ≠ [] then 2 else 4)
  require (manifestBytes ≤ maximumManifestBytes) .manifestSize
  let objectBytes := count.objectBytes + entry.size
  require (objectBytes + manifestBytes + checksumBytes + authenticationBytes ≤
    bounds.maximumBackupBytes) .aggregateSize
  pure { rows := count.rows ++ [entry], manifestBytes := manifestBytes, objectBytes := objectBytes }

/-- The loop over both inventories. The listing of S3 is read page by page and may raise. -/
def countEntries (bounds : ManifestBounds) :
    ManifestCount → List ObjectRow → List (Except String ObjectRow) →
      Except ManifestError ManifestCount
  | count, [], [] => pure count
  | _, _, .error message :: _ => .error (.interrupted message)
  | count, [], .ok _ :: _ => do
    (bounds.checkpoint count.rows.length).mapError .interrupted
    .error .mismatch
  | count, _ :: _, [] => do
    (bounds.checkpoint count.rows.length).mapError .interrupted
    .error .mismatch
  | count, authoritative :: authoritativeRows, .ok listed :: listedRows => do
    (bounds.checkpoint count.rows.length).mapError .interrupted
    require (authoritative = listed) .mismatch
    let count ← countEntry bounds count authoritative
    countEntries bounds count authoritativeRows listedRows

/-- The count before the loop. -/
def emptyCount (head : ManifestHead) : ManifestCount :=
  { rows := [], manifestBytes := (canonicalManifestPayload head []).length, objectBytes := 0 }

/-- `_bounded_backup_manifest`: the rows of the manifest, its payload and the bytes of its
objects. -/
def boundedBackupManifest (bounds : ManifestBounds) (head : ManifestHead)
    (authoritativeRows : List ObjectRow) (listedRows : List (Except String ObjectRow)) :
    Except ManifestError (List ObjectRow × Bytes × Int) := do
  let count ← countEntries bounds (emptyCount head) authoritativeRows listedRows
  let payload := canonicalManifestPayload head count.rows
  require (payload.length = count.manifestBytes) .inconsistent
  pure (count.rows, payload, count.objectBytes)

/-! ## One more row -/

/-- The fields of the manifest in order. -/
theorem sorted_manifestJson (head : ManifestHead) (rows : List ObjectRow) :
    (manifestJson head rows).sorted =
      .object [("bucket".toList, .string head.bucket),
        ("created_at".toList, .string head.createdAt), ("format".toList, .string manifestFormat),
        ("key_prefix".toList, .string head.keyPrefix),
        ("objects".toList, .array (rows.map fun row => row.json.sorted))] := by
  have hrows : Json.sortedItems (rows.map (·.json)) = rows.map fun row => row.json.sorted := by
    rw [Json.sortedItems_eq_map, List.map_map]
    rfl
  rw [manifestJson, Json.sorted]
  simp only [Json.sortedFields, Json.sorted, hrows]
  rfl

/-- The rows stand in one place of the payload, whatever they are. -/
theorem exists_canonicalManifestPayload (head : ManifestHead) : ∃ before after : List Char,
    ∀ rows : List ObjectRow, canonicalManifestPayload head rows =
      utf8 before ++ utf8 ((Json.array (rows.map fun row => row.json.sorted)).text 1) ++
        utf8 after := by
  refine ⟨'\x7b' :: (Json.newline 1 ++ quote "bucket".toList ++ ':' :: ' ' ::
    quote head.bucket ++ ',' :: (Json.newline 1 ++ quote "created_at".toList ++
      ':' :: ' ' :: quote head.createdAt ++ ',' :: (Json.newline 1 ++
        quote "format".toList ++ ':' :: ' ' :: quote manifestFormat ++ ',' ::
          (Json.newline 1 ++ quote "key_prefix".toList ++ ':' :: ' ' ::
            quote head.keyPrefix ++ ',' :: (Json.newline 1 ++ quote "objects".toList ++
              [':', ' ']))))), Json.newline 0 ++ ['\x7d', '\n'], fun rows => ?_⟩
  rw [canonicalManifestPayload, Json.dumps, sorted_manifestJson]
  simp only [Json.text, Json.fieldsText, ← utf8_append, Nat.zero_add]
  congr 1
  simp only [List.append_assoc, List.cons_append, List.nil_append, List.append_nil]

/-- The size of an entry in the manifest. -/
theorem length_nested (entry : ObjectRow) :
    (utf8 (entry.json.sorted.text 2)).length + 4 = nestedEntryBytes entry := by
  have htext : entry.json.sorted.text 2 = indent 2 (entry.json.sorted.text 0) :=
    Json.text_add 2 0 entry.json.sorted
  rw [htext, length_utf8_indent, nestedEntryBytes]
  show _ = (utf8 (entry.json.sorted.text 0)).length +
    4 * ((utf8 (entry.json.sorted.text 0)).count 0x0a + 1)
  omega

/-- What one more row takes: its text in the manifest, and the bytes that frame it. -/
theorem length_array_concat (rows : List ObjectRow) (entry : ObjectRow) :
    (utf8 ((Json.array ((rows ++ [entry]).map fun row => row.json.sorted)).text 1)).length =
      (utf8 ((Json.array (rows.map fun row => row.json.sorted)).text 1)).length +
        (nestedEntryBytes entry + if rows ≠ [] then 2 else 4) := by
  have hone (c : Char) (s : List Char) (h : (String.utf8EncodeChar c).length = 1) :
      (utf8 (c :: s)).length = (utf8 s).length + 1 := by
    rw [show utf8 (c :: s) = String.utf8EncodeChar c ++ utf8 s from rfl, List.length_append, h,
      Nat.add_comm]
  have hentry := length_nested entry
  cases rows with
  | nil =>
    show (utf8 ('[' :: (Json.newline 2 ++ entry.json.sorted.text 2 ++ [] ++ Json.newline 1 ++
      [']']))).length = (utf8 ['[', ']']).length + (nestedEntryBytes entry + 4)
    simp only [hone '[' _ rfl, utf8_append, List.length_append, length_utf8_newline]
    have hclose : (utf8 [']']).length = 1 := rfl
    have hempty : (utf8 []).length = 0 := rfl
    omega
  | cons row rows =>
    rw [if_pos (List.cons_ne_nil row rows), List.cons_append, List.map_cons, List.map_cons,
      List.map_append, List.map_singleton, Json.text, Json.text, Json.itemsText_concat]
    simp only [Nat.reduceAdd, hone '[' _ rfl, hone ',' _ rfl, utf8_append, List.length_append,
      length_utf8_newline]
    omega

theorem length_payload_concat (head : ManifestHead) (rows : List ObjectRow) (entry : ObjectRow) :
    (canonicalManifestPayload head (rows ++ [entry])).length =
      (canonicalManifestPayload head rows).length +
        (nestedEntryBytes entry + if rows ≠ [] then 2 else 4) := by
  obtain ⟨before, after, hpayload⟩ := exists_canonicalManifestPayload head
  rw [hpayload, hpayload]
  simp only [List.length_append, length_array_concat]
  omega

/-! ## The count is exact -/

/-- The bytes of the objects of the rows. -/
def objectBytesOf (rows : List ObjectRow) : Int := (rows.map (·.size)).sum

/-- What rows count: the size of their manifest and the bytes of their objects. -/
def countOf (head : ManifestHead) (rows : List ObjectRow) : ManifestCount :=
  { rows := rows
    manifestBytes := (canonicalManifestPayload head rows).length
    objectBytes := objectBytesOf rows }

/-- An entry is within the limits behind the rows before it. -/
structure ManifestBounds.AdmitsEntry (bounds : ManifestBounds) (head : ManifestHead)
    (rows : List ObjectRow) (entry : ObjectRow) : Prop where
  checkpoint : bounds.checkpoint rows.length = .ok ()
  object : entry.size ≤ bounds.maximumObjectBytes
  manifest : (canonicalManifestPayload head (rows ++ [entry])).length ≤ maximumManifestBytes
  aggregate : objectBytesOf (rows ++ [entry]) +
      (canonicalManifestPayload head (rows ++ [entry])).length + checksumBytes +
        authenticationBytes ≤ bounds.maximumBackupBytes

/-- Each entry of an inventory is within the limits behind those before it. -/
def ManifestBounds.Admits (bounds : ManifestBounds) (head : ManifestHead)
    (rows : List ObjectRow) : Prop :=
  ∀ before entry after, rows = before ++ entry :: after → bounds.AdmitsEntry head before entry

section Count

variable {bounds : ManifestBounds} {head : ManifestHead} {rows : List ObjectRow}
  {entry : ObjectRow}

theorem admits_nil : bounds.Admits head [] :=
  fun _ _ _ h => absurd h.symm (List.append_ne_nil_of_right_ne_nil _ (List.cons_ne_nil _ _))

theorem admits_concat :
    bounds.Admits head (rows ++ [entry]) ↔
      bounds.Admits head rows ∧ bounds.AdmitsEntry head rows entry := by
  constructor
  · intro h
    refine ⟨fun before next after hrows => h before next (after ++ [entry]) ?_,
      h rows entry [] rfl⟩
    rw [hrows, List.append_assoc, List.cons_append]
  · rintro ⟨hrows, hentry⟩ before next after h
    rcases List.eq_nil_or_concat after with rfl | ⟨after, last, rfl⟩
    · obtain ⟨rfl, hlast⟩ := List.append_inj' h rfl
      obtain rfl := List.singleton_inj.1 hlast
      exact hentry
    · rw [List.concat_eq_append, ← List.cons_append, ← List.append_assoc] at h
      exact hrows before next after (List.append_inj' h rfl).1

/-- A turn counts the row exactly. -/
theorem countEntry_countOf :
    countEntry bounds (countOf head rows) entry =
      (do
        require (entry.size ≤ bounds.maximumObjectBytes) .objectSize
        require ((canonicalManifestPayload head (rows ++ [entry])).length ≤ maximumManifestBytes)
          .manifestSize
        require (objectBytesOf (rows ++ [entry]) +
            ((canonicalManifestPayload head (rows ++ [entry])).length : Nat) + checksumBytes +
              authenticationBytes ≤ bounds.maximumBackupBytes) .aggregateSize
        pure (countOf head (rows ++ [entry]))) := by
  have hobjects : objectBytesOf (rows ++ [entry]) = objectBytesOf rows + entry.size := by
    simp only [objectBytesOf, List.map_append, List.map_singleton, List.sum_append_int,
      List.sum_singleton]
  simp only [countEntry, countOf, hobjects, length_payload_concat]
  rfl

/-- A turn accepts the entries that are within the limits. -/
theorem countEntry_eq_ok {next : ManifestCount}
    (hcheckpoint : bounds.checkpoint rows.length = .ok ()) :
    countEntry bounds (countOf head rows) entry = .ok next ↔
      bounds.AdmitsEntry head rows entry ∧ next = countOf head (rows ++ [entry]) := by
  rw [countEntry_countOf]
  constructor
  · intro h
    obtain ⟨hobject, h⟩ := require_bind_eq_ok.1 h
    obtain ⟨hmanifest, h⟩ := require_bind_eq_ok.1 h
    obtain ⟨haggregate, h⟩ := require_bind_eq_ok.1 h
    exact ⟨⟨hcheckpoint, hobject, hmanifest, haggregate⟩, (pure_eq_ok.1 h).symm⟩
  · rintro ⟨hentry, rfl⟩
    rw [require_bind_of hentry.object, require_bind_of hentry.manifest,
      require_bind_of hentry.aggregate]
    rfl

/-- A turn refuses a row for the size of the manifest exactly when the manifest with the row is too
large. -/
theorem countEntry_manifestSize :
    countEntry bounds (countOf head rows) entry = .error .manifestSize ↔
      entry.size ≤ bounds.maximumObjectBytes ∧
        maximumManifestBytes < (canonicalManifestPayload head (rows ++ [entry])).length := by
  rw [countEntry_countOf]
  by_cases hobject : entry.size ≤ bounds.maximumObjectBytes
  · rw [require_bind_of hobject]
    by_cases hsize :
        (canonicalManifestPayload head (rows ++ [entry])).length ≤ maximumManifestBytes
    · rw [require_bind_of hsize]
      have haggregate (c : Prop) [Decidable c] (next : ManifestCount) :
          (require c ManifestError.aggregateSize >>= fun _ => pure next) ≠
            .error ManifestError.manifestSize := by
        intro h
        rcases bind_eq_error.1 h with h | ⟨_, -, h⟩
        · rw [require] at h
          split at h <;> cases h
        · cases h
      exact iff_of_false (haggregate _ _) fun h => absurd h.2 (Nat.not_lt.2 hsize)
    · rw [require_bind_of_not hsize]
      exact iff_of_true rfl ⟨hobject, Nat.lt_of_not_le hsize⟩
  · rw [require_bind_of_not hobject]
    exact iff_of_false (fun h => by cases h) fun h => hobject h.1

theorem mapError_interrupted {x : Except String Unit} :
    x.mapError ManifestError.interrupted ≠ .error .manifestSize := by
  cases x <;> simp [Except.mapError]

/-- A turn for two rows. -/
theorem countEntries_cons {count : ManifestCount} {row listed : ObjectRow}
    {authoritativeRows : List ObjectRow} {listedRows : List (Except String ObjectRow)}
    {r : Except ManifestError ManifestCount}
    (hr : r = .error .manifestSize ∨ ∃ count', r = .ok count') :
    countEntries bounds count (row :: authoritativeRows) (.ok listed :: listedRows) = r ↔
      bounds.checkpoint count.rows.length = .ok () ∧ row = listed ∧
        (countEntry bounds count row >>= fun next =>
          countEntries bounds next authoritativeRows listedRows) = r := by
  rw [countEntries]
  cases hcheckpoint : bounds.checkpoint count.rows.length with
  | error message =>
    refine iff_of_false (fun h => ?_) fun h => by cases h.1
    rcases hr with rfl | ⟨count', rfl⟩ <;> cases h
  | ok _ =>
    by_cases hrow : row = listed
    · show (require (row = listed) _ >>= _) = r ↔ _
      rw [require_bind_of hrow]
      exact ⟨fun h => ⟨rfl, hrow, h⟩, fun h => h.2.2⟩
    · show (require (row = listed) _ >>= _) = r ↔ _
      rw [require_bind_of_not hrow]
      refine iff_of_false (fun h => ?_) fun h => hrow h.2.1
      rcases hr with rfl | ⟨count', rfl⟩ <;> cases h

/-- A run behind rows that were counted accepts what is listed and within the limits, and counts it
exactly. -/
theorem countEntries_eq_ok {authoritativeRows : List ObjectRow}
    {listedRows : List (Except String ObjectRow)} {count : ManifestCount}
    (hrows : bounds.Admits head rows) :
    countEntries bounds (countOf head rows) authoritativeRows listedRows = .ok count ↔
      listedRows = authoritativeRows.map .ok ∧ bounds.Admits head (rows ++ authoritativeRows) ∧
        count = countOf head (rows ++ authoritativeRows) := by
  induction authoritativeRows generalizing rows listedRows with
  | nil =>
    rw [List.append_nil, List.map_nil]
    match listedRows with
    | [] =>
      exact ⟨fun h => ⟨rfl, hrows, (pure_eq_ok.1 h).symm⟩, fun h => congrArg _ h.2.2.symm⟩
    | .error message :: listedRows => exact iff_of_false (fun h => by cases h) fun h => by cases h.1
    | .ok listed :: listedRows =>
      refine iff_of_false (fun h => ?_) fun h => by cases h.1
      obtain ⟨_, -, h⟩ := bind_eq_ok.1 h
      cases h
  | cons row authoritativeRows ih =>
    have hconcat : rows ++ row :: authoritativeRows = rows ++ [row] ++ authoritativeRows := by
      rw [List.append_assoc, List.singleton_append]
    match listedRows with
    | [] =>
      refine iff_of_false (fun h => ?_) fun h => by cases h.1
      obtain ⟨_, -, h⟩ := bind_eq_ok.1 h
      cases h
    | .error message :: listedRows => exact iff_of_false (fun h => by cases h) fun h => by cases h.1
    | .ok listed :: listedRows =>
      rw [countEntries_cons (.inr ⟨count, rfl⟩), bind_eq_ok, hconcat]
      constructor
      · rintro ⟨hcheckpoint, rfl, next, hnext, hrest⟩
        obtain ⟨hentry, rfl⟩ := (countEntry_eq_ok hcheckpoint).1 hnext
        obtain ⟨rfl, hadmits, hcount⟩ := (ih (admits_concat.2 ⟨hrows, hentry⟩)).1 hrest
        exact ⟨rfl, hadmits, hcount⟩
      · rintro ⟨hlisted, hadmits, hcount⟩
        obtain ⟨hfirst, rfl⟩ := List.cons.inj hlisted
        obtain rfl := Except.ok.inj hfirst
        have hentry : bounds.AdmitsEntry head rows listed :=
          hadmits rows listed authoritativeRows hconcat.symm
        exact ⟨hentry.checkpoint, rfl, _, (countEntry_eq_ok hentry.checkpoint).2 ⟨hentry, rfl⟩,
          (ih (admits_concat.2 ⟨hrows, hentry⟩)).2 ⟨rfl, hadmits, hcount⟩⟩

/-- Where a run is refused for the size of the manifest: behind rows within the limits there is one
of both inventories with which the manifest is too large. -/
theorem countEntries_manifestSize {authoritativeRows : List ObjectRow}
    {listedRows : List (Except String ObjectRow)} (hrows : bounds.Admits head rows) :
    countEntries bounds (countOf head rows) authoritativeRows listedRows =
        .error .manifestSize ↔
      ∃ before entry after listedAfter, authoritativeRows = before ++ entry :: after ∧
        listedRows = before.map .ok ++ .ok entry :: listedAfter ∧
        bounds.Admits head (rows ++ before) ∧
        bounds.checkpoint (rows ++ before).length = .ok () ∧
        entry.size ≤ bounds.maximumObjectBytes ∧
        maximumManifestBytes <
          (canonicalManifestPayload head (rows ++ before ++ [entry])).length := by
  induction authoritativeRows generalizing rows listedRows with
  | nil =>
    refine iff_of_false (fun h => ?_) ?_
    · match listedRows with
      | [] => cases h
      | .error message :: listedRows => cases h
      | .ok listed :: listedRows =>
        rcases bind_eq_error.1 h with h | ⟨_, -, h⟩
        · exact mapError_interrupted h
        · cases h
    · rintro ⟨before, entry, after, listedAfter, h, -⟩
      exact absurd h.symm (List.append_ne_nil_of_right_ne_nil before (List.cons_ne_nil _ _))
  -- A turn is refused itself, or the rest is; both directions read the turn by `countEntries_cons`.
  | cons row authoritativeRows ih =>
    constructor
    · intro h
      match listedRows with
      | [] =>
        rcases bind_eq_error.1 h with h | ⟨_, -, h⟩
        · exact absurd h mapError_interrupted
        · cases h
      | .error message :: listedRows => cases h
      | .ok listed :: listedRows =>
        obtain ⟨hcheckpoint, rfl, hturn⟩ := (countEntries_cons (.inl rfl)).1 h
        rcases bind_eq_error.1 hturn with hturn | ⟨next, hnext, hrest⟩
        · obtain ⟨hobject, hsize⟩ := countEntry_manifestSize.1 hturn
          refine ⟨[], row, authoritativeRows, listedRows, rfl, rfl, ?_⟩
          rw [List.append_nil]
          exact ⟨hrows, hcheckpoint, hobject, hsize⟩
        · obtain ⟨hentry, rfl⟩ := (countEntry_eq_ok hcheckpoint).1 hnext
          obtain ⟨before, entry, after, listedAfter, rfl, rfl, hadmits⟩ :=
            (ih (admits_concat.2 ⟨hrows, hentry⟩)).1 hrest
          refine ⟨row :: before, entry, after, listedAfter, rfl, rfl, ?_⟩
          rwa [List.append_assoc rows, List.singleton_append] at hadmits
    · rintro ⟨before, entry, after, listedAfter, h, rfl, hadmits, hcheckpoint, hobject, hsize⟩
      cases before with
      | nil =>
        obtain ⟨rfl, rfl⟩ := List.cons.inj h
        rw [List.append_nil] at hcheckpoint hsize
        refine (countEntries_cons (.inl rfl)).2 ⟨hcheckpoint, rfl, ?_⟩
        rw [countEntry_manifestSize.2 ⟨hobject, hsize⟩]
        rfl
      | cons first before =>
        obtain ⟨rfl, rfl⟩ := List.cons.inj h
        have hconcat : rows ++ row :: before = rows ++ [row] ++ before := by
          rw [List.append_assoc, List.singleton_append]
        have hentry : bounds.AdmitsEntry head rows row := hadmits rows row before rfl
        refine (countEntries_cons (.inl rfl)).2 ⟨hentry.checkpoint, rfl, ?_⟩
        rw [(countEntry_eq_ok hentry.checkpoint).2 ⟨hentry, rfl⟩]
        rw [hconcat] at hadmits hcheckpoint hsize
        exact (ih (admits_concat.2 ⟨hrows, hentry⟩)).2
          ⟨before, entry, after, listedAfter, rfl, rfl, hadmits, hcheckpoint, hobject, hsize⟩

/-- No turn finds the count inconsistent. -/
theorem countEntries_raises (count : ManifestCount) (authoritativeRows : List ObjectRow)
    (listedRows : List (Except String ObjectRow)) :
    RaisesOnly (· ≠ .inconsistent) (countEntries bounds count authoritativeRows listedRows) := by
  have hcheckpoint (n : Nat) : RaisesOnly (· ≠ .inconsistent)
      ((bounds.checkpoint n).mapError ManifestError.interrupted) := by
    intro e he
    cases hn : bounds.checkpoint n with
    | error message =>
      rw [hn] at he
      cases he
      exact ManifestError.noConfusion
    | ok _ =>
      rw [hn] at he
      cases he
  fun_induction countEntries bounds count authoritativeRows listedRows with
  | case1 count => exact .pure _
  | case2 count rows message rest => exact .error ManifestError.noConfusion
  | case3 count listed rest =>
    exact (hcheckpoint _).bind fun _ _ => .error ManifestError.noConfusion
  | case4 count row rows =>
    exact (hcheckpoint _).bind fun _ _ => .error ManifestError.noConfusion
  | case5 count authoritative authoritativeRows listed listedRows ih =>
    refine (hcheckpoint _).bind fun _ _ => .guard (.inr ManifestError.noConfusion) fun _ => ?_
    refine .bind ?_ fun next _ => ih next
    refine .guard (.inr ManifestError.noConfusion) fun _ => ?_
    refine .guard (.inr ManifestError.noConfusion) fun _ => ?_
    exact .guard (.inr ManifestError.noConfusion) fun _ => .pure _

end Count

/-- The count of `_bounded_backup_manifest` is exact. The loop accepts the equal inventories each
entry of which is within the limits, and what it has counted is the size of the payload of the
manifest and the bytes of the objects, so that the accounting is never inconsistent and these
inventories are what a manifest is made of. The limit of the manifest refuses exactly the
inventories with a row, behind rows within the limits, with which the manifest is too large; and no
manifest with a row in it is larger. -/
theorem boundedBackupManifest_exact (bounds : ManifestBounds) (head : ManifestHead)
    (authoritativeRows : List ObjectRow) (listedRows : List (Except String ObjectRow)) :
    (∀ count, countEntries bounds (emptyCount head) authoritativeRows listedRows = .ok count ↔
        listedRows = authoritativeRows.map .ok ∧ bounds.Admits head authoritativeRows ∧
          count = { rows := authoritativeRows
                    manifestBytes := (canonicalManifestPayload head authoritativeRows).length
                    objectBytes := objectBytesOf authoritativeRows }) ∧
      (∀ made, boundedBackupManifest bounds head authoritativeRows listedRows = .ok made ↔
        listedRows = authoritativeRows.map .ok ∧ bounds.Admits head authoritativeRows ∧
          made = (authoritativeRows, canonicalManifestPayload head authoritativeRows,
            objectBytesOf authoritativeRows)) ∧
      (∀ made, boundedBackupManifest bounds head authoritativeRows listedRows = .ok made →
        made.1 = [] ∨ made.2.1.length ≤ maximumManifestBytes) ∧
      boundedBackupManifest bounds head authoritativeRows listedRows ≠ .error .inconsistent ∧
      (boundedBackupManifest bounds head authoritativeRows listedRows = .error .manifestSize ↔
        ∃ rows entry rest listedRest, authoritativeRows = rows ++ entry :: rest ∧
          listedRows = rows.map .ok ++ .ok entry :: listedRest ∧ bounds.Admits head rows ∧
          bounds.checkpoint rows.length = .ok () ∧ entry.size ≤ bounds.maximumObjectBytes ∧
          maximumManifestBytes < (canonicalManifestPayload head (rows ++ [entry])).length) := by
  have hcounts (count : ManifestCount) :
      countEntries bounds (emptyCount head) authoritativeRows listedRows = .ok count ↔
        listedRows = authoritativeRows.map .ok ∧ bounds.Admits head authoritativeRows ∧
          count = countOf head authoritativeRows :=
    countEntries_eq_ok admits_nil
  have hreturns {count : ManifestCount}
      (h : countEntries bounds (emptyCount head) authoritativeRows listedRows = .ok count) :
      boundedBackupManifest bounds head authoritativeRows listedRows =
        .ok (authoritativeRows, canonicalManifestPayload head authoritativeRows,
          objectBytesOf authoritativeRows) := by
    obtain ⟨-, -, rfl⟩ := (hcounts count).1 h
    rw [boundedBackupManifest, h, ok_bind]
    dsimp only
    rw [require_bind_of (show (canonicalManifestPayload head
      (countOf head authoritativeRows).rows).length =
        (countOf head authoritativeRows).manifestBytes from rfl)]
    rfl
  have hraises {e : ManifestError}
      (h : countEntries bounds (emptyCount head) authoritativeRows listedRows = .error e) :
      boundedBackupManifest bounds head authoritativeRows listedRows = .error e := by
    rw [boundedBackupManifest, h]
    rfl
  have hmade (made : List ObjectRow × Bytes × Int) :
      boundedBackupManifest bounds head authoritativeRows listedRows = .ok made ↔
        listedRows = authoritativeRows.map .ok ∧ bounds.Admits head authoritativeRows ∧
          made = (authoritativeRows, canonicalManifestPayload head authoritativeRows,
            objectBytesOf authoritativeRows) := by
    cases hrun : countEntries bounds (emptyCount head) authoritativeRows listedRows with
    | error e =>
      rw [hraises hrun]
      refine iff_of_false (fun h => by cases h) fun h => ?_
      rw [(hcounts _).2 ⟨h.1, h.2.1, rfl⟩] at hrun
      cases hrun
    | ok count =>
      obtain ⟨hlisted, hadmits, -⟩ := (hcounts count).1 hrun
      rw [hreturns hrun, Except.ok.injEq]
      exact ⟨fun h => ⟨hlisted, hadmits, h.symm⟩, fun h => h.2.2.symm⟩
  refine ⟨hcounts, hmade, fun made h => ?_, fun h => ?_, ?_⟩
  · obtain ⟨-, hadmits, rfl⟩ := (hmade made).1 h
    rcases List.eq_nil_or_concat authoritativeRows with hnil | ⟨rows, entry, hlast⟩
    · exact .inl hnil
    · rw [List.concat_eq_append] at hlast
      refine .inr ?_
      rw [hlast]
      exact (hadmits rows entry [] hlast).manifest
  · cases hrun : countEntries bounds (emptyCount head) authoritativeRows listedRows with
    | error e =>
      rw [hraises hrun] at h
      exact countEntries_raises _ _ _ _ hrun (Except.error.inj h)
    | ok count =>
      rw [hreturns hrun] at h
      cases h
  · have hlimit : countEntries bounds (emptyCount head) authoritativeRows listedRows =
        .error .manifestSize ↔ _ := countEntries_manifestSize admits_nil
    simp only [List.nil_append] at hlimit
    rw [← hlimit]
    cases hrun : countEntries bounds (emptyCount head) authoritativeRows listedRows with
    | error e => rw [hraises hrun, Except.error.injEq, Except.error.injEq]
    | ok count =>
      rw [hreturns hrun]
      exact iff_of_false (fun h => by cases h) fun h => by cases h

def sampleHead : ManifestHead where
  createdAt := "2026-05-01T00:00:00+00:00".toList
  bucket := "raw".toList
  keyPrefix := "archive/".toList

def plainRow : ObjectRow :=
  { key := "archive/a".toList, sha256 := List.replicate 64 '0', size := 3 }

/-- The key has a quotation mark, a line feed and a letter of two bytes. -/
def escapedRow : ObjectRow :=
  { key := "archive/b\"\né".toList, sha256 := List.replicate 64 'f', size := 4 }

/-- Both rows and their manifest are as large as is allowed. -/
def sampleBounds : ManifestBounds where
  maximumObjectBytes := 4
  maximumBackupBytes := 639
  checkpoint := fun _ => .ok ()

/-- Two rows are accepted, and the manifest has the size that was counted. -/
theorem boundedBackupManifest_exact_sample :
    boundedBackupManifest sampleBounds sampleHead [plainRow, escapedRow]
        [.ok plainRow, .ok escapedRow] =
      .ok ([plainRow, escapedRow], canonicalManifestPayload sampleHead [plainRow, escapedRow], 7) ∧
    countEntries sampleBounds (emptyCount sampleHead) [plainRow, escapedRow]
        [.ok plainRow, .ok escapedRow] = .ok ⟨[plainRow, escapedRow], 443, 7⟩ ∧
    (canonicalManifestPayload sampleHead [plainRow, escapedRow]).length = 443 := by
  have hlength : (canonicalManifestPayload sampleHead [plainRow, escapedRow]).length = 443 := by
    decide +kernel
  have hplain : sampleBounds.AdmitsEntry sampleHead [] plainRow :=
    ⟨rfl, by decide, by decide +kernel, by decide +kernel⟩
  have hescaped : sampleBounds.AdmitsEntry sampleHead [plainRow] escapedRow :=
    ⟨rfl, by decide, by decide +kernel, by decide +kernel⟩
  have hadmits : sampleBounds.Admits sampleHead [plainRow, escapedRow] :=
    admits_concat.2 ⟨admits_concat.2 ⟨admits_nil, hplain⟩, hescaped⟩
  obtain ⟨hcounts, hmade, -⟩ := boundedBackupManifest_exact sampleBounds sampleHead
    [plainRow, escapedRow] [.ok plainRow, .ok escapedRow]
  refine ⟨(hmade _).2 ⟨rfl, hadmits, rfl⟩, (hcounts _).2 ⟨rfl, hadmits, ?_⟩, hlength⟩
  rw [hlength]
  rfl

end Makolet.Backup
