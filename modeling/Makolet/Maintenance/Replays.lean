import Makolet.Maintenance.Admission

/-!
# Replays in the stored sequence

The tables of `Original` and `Replayed` inside the database, step by step: an ordinary ingest keeps
the first, the start of a rebuild turns it into the second with no file replayed, and each replay
of the sequence adds its file. `rebuild_admits_applied` is the main result: in every run whose
rebuild begins in an orderly state, the replay of a file that had been applied meets no obstacle.
-/

set_option autoImplicit false

namespace Makolet.Maintenance

open Makolet.Domain Makolet.Lib Makolet.Normalized Makolet.Ingestion

/-! ## The order of the sequence -/

section Order

variable {db : Database} {id : RunId} {cutoff : Time}

instance : Std.Total RebuildFile.SequencedBefore where
  total a b := by
    unfold RebuildFile.SequencedBefore
    rcases lt_trichotomy a.orderTime b.orderTime with h | h | h
    · exact .inl (.inl h)
    · rcases Nat.le_total a.sourceFileId b.sourceFileId with hle | hle
      · exact .inl (.inr ⟨h, hle⟩)
      · exact .inr (.inr ⟨h.symm, hle⟩)
    · exact .inr (.inl h)

instance : IsTrans RebuildFile RebuildFile.SequencedBefore where
  trans a b c hab hbc := by
    rcases hab with hab | ⟨hab, hle⟩
    · rcases hbc with hbc | ⟨hbc, -⟩
      · exact .inl (lt_trans hab hbc)
      · exact .inl (hbc ▸ hab)
    · rcases hbc with hbc | ⟨hbc, hle'⟩
      · exact .inl (hab ▸ hbc)
      · exact .inr ⟨hab.trans hbc, hle.trans hle'⟩

/-- Of two elements one stands before the other. -/
theorem rel_or_rel_of_pairwise {α : Type} {R : α → α → Prop} {rows : List α}
    (h : rows.Pairwise R) {a b : α} (ha : a ∈ rows) (hb : b ∈ rows) (hne : a ≠ b) :
    R a b ∨ R b a := by
  induction h with
  | nil => cases ha
  | cons hfirst _ ih =>
    cases ha with
    | head =>
      cases hb with
      | head => exact absurd rfl hne
      | tail _ hlater => exact .inl (hfirst b hlater)
    | tail _ hearlier =>
      cases hb with
      | head => exact .inr (hfirst a hearlier)
      | tail _ hlater => exact ih hearlier hlater

/-- A property that does not read the number of an entry. -/
theorem pairwise_numbered {R : RebuildFile → RebuildFile → Prop} {entries : List RebuildFile}
    (hR : ∀ a b m n, R a b → R { a with sequence := m } { b with sequence := n })
    (h : entries.Pairwise R) : (numbered entries).Pairwise R := by
  rw [numbered, List.pairwise_map]
  rw [← List.zipIdx_map_fst 0 entries, List.pairwise_map] at h
  exact h.imp fun hab => hR _ _ _ _ hab

theorem rebuildSequence_pairwise (db : Database) (id : RunId) (cutoff : Time) :
    (rebuildSequence db id cutoff).Pairwise RebuildFile.SequencedBefore :=
  pairwise_numbered (fun _ _ _ _ h => h) (List.pairwise_insertionSort _ _)

/-- An entry of the sequence is a selected file with its number. -/
theorem mem_rebuildSequence {e : RebuildFile} (h : e ∈ rebuildSequence db id cutoff) :
    ∃ a ∈ selection db id cutoff, ∃ n, e = { a with sequence := n } := by
  obtain ⟨b, hb, rfl⟩ := List.mem_map.mp h
  refine ⟨b.1, ?_, _, rfl⟩
  exact (List.mem_insertionSort _).mp (List.fst_mem_of_mem_zipIdx hb)

theorem map_file_numbered (entries : List RebuildFile) :
    (numbered entries).map RebuildFile.sourceFileId = entries.map RebuildFile.sourceFileId := by
  rw [numbered, List.map_map]
  conv_rhs => rw [← List.zipIdx_map_fst 0 entries, List.map_map]
  rfl

/-- Each file stands in the sequence once. -/
theorem rebuildSequence_unique (h : Table.UniqueOn sourceFileIdOf db.sources) :
    Table.UniqueOn RebuildFile.sourceFileId (rebuildSequence db id cutoff) := by
  rw [Table.UniqueOn, rebuildSequence, map_file_numbered]
  have hperm := (List.perm_insertionSort RebuildFile.SequencedBefore
    (selection db id cutoff)).map RebuildFile.sourceFileId
  refine hperm.nodup_iff.mpr ?_
  rw [selection, List.map_map]
  exact (List.filter_sublist.map sourceFileIdOf).nodup h

end Order

/-! ## The reset and the catalog bootstrap -/

section Catalog

variable {t : Tables}

theorem dated_reset (h : Normalized.Dated t) : Normalized.Dated (resetDerivedState t) where
  stores := h.stores
  items := h.items
  prices c hc := by cases hc
  priceHistory v hv := by cases hv
  availability c hc := by cases hc
  availabilityHistory v hv := by cases hv
  promotions v hv := by cases hv
  assertions b hb := by cases hb

theorem sorted_reset (h : Sorted t) : Sorted (resetDerivedState t) where
  dated := dated_reset h.dated
  placed :=
    { prices := fun c hc => by cases hc
      availability := fun c hc => by cases hc }
  keyed := ⟨h.keyed.storeIds, h.keyed.storeIds_lt, h.keyed.storeKeys, List.nodup_nil⟩
  catalog :=
    { items_lt := h.catalog.items_lt
      asserted_lt := fun b hb => by cases hb
      unique := List.nodup_nil
      grouped := fun b hb => by cases hb
      validated := fun i hi => h.catalog.validated i (List.mem_filter.mp hi).1 }

theorem sorted_bootstrapItem (h : Sorted t) (now : Time) (item : RetailerItem) :
    Sorted (bootstrapItem now t item) where
  dated := ⟨h.dated.stores, h.dated.items, h.dated.prices, h.dated.priceHistory,
    h.dated.availability, h.dated.availabilityHistory, h.dated.promotions, h.dated.assertions⟩
  placed := by
    obtain ⟨hprices, havailability⟩ := h.placed.mono (Nat.le_succ t.nextId)
    exact ⟨hprices, havailability⟩
  keyed := h.keyed.frame rfl h.keyed.availability (Nat.le_succ _)
  catalog :=
    { items_lt := fun i hi => Nat.lt_succ_of_lt (h.catalog.items_lt i hi)
      asserted_lt := fun a ha => Nat.lt_succ_of_lt (h.catalog.asserted_lt a ha)
      unique := h.catalog.unique
      grouped := h.catalog.grouped
      validated := by
        intro i hi hmethod
        rcases Table.mem_insertNew hi with hold | ⟨hnew, -⟩
        · exact h.catalog.validated i hold hmethod
        · rw [List.mem_singleton] at hnew
          rw [hnew] at hmethod
          cases hmethod }

/-- The bootstrap writes catalog tables only. -/
theorem bootstrap_frame (now : Time) (batch : List RetailerItem) (t : Tables) :
    batch.foldl (bootstrapItem now) t = { t with
      products := (batch.foldl (bootstrapItem now) t).products
      identifiers := (batch.foldl (bootstrapItem now) t).identifiers
      confirmedMatches := (batch.foldl (bootstrapItem now) t).confirmedMatches
      nextId := (batch.foldl (bootstrapItem now) t).nextId } := by
  induction batch generalizing t with
  | nil => rfl
  | cons item rest ih =>
    rw [List.foldl_cons, ih]
    rfl

theorem sorted_bootstrap (h : Sorted t) (now : Time) (batch : List RetailerItem) :
    Sorted (batch.foldl (bootstrapItem now) t) := by
  induction batch generalizing t with
  | nil => exact h
  | cons item rest ih => exact ih (sorted_bootstrapItem h now item)

end Catalog

/-! ## The apply inside the database -/

section Apply

variable {db db' : Database} {f : FileId} {settings : ApplySettings}

/-- The claim that an apply finds, if the file has none of its own. -/
def claimedTables (settings : ApplySettings) (row : SourceFile) (db : Database) : Tables :=
  claimRebuilt (databaseRequest settings row db)
    (rebuildAppliedAt (sourceFileIdOf row)
      ((db.openReplay (sourceFileIdOf row)).bind ReplayRun.rebuildRunId) db) db.tables

theorem applySource_applied (h : applySource settings f db = .ok db') :
    ∃ row t summary, db.source f = some row ∧
      apply (databaseRequest settings row db) (claimedTables settings row db) = .ok (t, summary) ∧
      db' = { db with tables := t } := by
  unfold applySource at h
  split at h
  · cases h
  · rename_i row hrow
    obtain ⟨-, -, h⟩ := bind_eq_ok.mp h
    obtain ⟨-, -, h⟩ := bind_eq_ok.mp h
    obtain ⟨applied, happly, h⟩ := bind_eq_ok.mp h
    rw [pure_eq_ok] at h
    exact ⟨row, applied.1, applied.2, hrow, happly, h.symm⟩

theorem not_obstructs_of_kind {e : Failure} (h : e.kind ≠ .quarantinedFile)
    (h' : e.kind ≠ .database) : ¬Obstructs e := by
  rintro (hordering | htemporal)
  · exact h hordering.1
  · exact not_isTemporal_of_kind h' htemporal

theorem assertIngestionAllowed_unobstructed {rebuildRunId : Option RunId} :
    RaisesOnly (fun e => ¬Obstructs e) (assertIngestionAllowed rebuildRunId db) := by
  unfold assertIngestionAllowed
  split
  · exact .require (.inr (not_obstructs_of_kind nofun nofun))
  · exact .guard (.inr (not_obstructs_of_kind nofun nofun)) fun _ =>
      .require (.inr (not_obstructs_of_kind nofun nofun))

theorem lockSourceForApply_unobstructed {r : ApplyRequest} :
    RaisesOnly (fun e => ¬Obstructs e) (lockSourceForApply r) :=
  .guard (.inr (not_obstructs_of_kind nofun nofun)) fun _ =>
    .guard (.inr (not_obstructs_of_kind nofun nofun)) fun _ =>
      .require (.inr (not_obstructs_of_kind nofun nofun))

theorem beginReplay_unobstructed {rebuildRunId : Option RunId} :
    RaisesOnly (fun e => ¬Obstructs e) (beginReplay f rebuildRunId db) := by
  refine .bind assertIngestionAllowed_unobstructed fun _ _ => ?_
  split
  · exact .error (not_obstructs_of_kind nofun nofun)
  · exact .guard (.inr (not_obstructs_of_kind nofun nofun)) fun _ => .pure _

/-- What may obstruct the apply transaction is the apply itself. -/
theorem applySource_unobstructed (h : ∀ row, db.source f = some row →
      RaisesOnly (fun e => ¬Obstructs e)
        (apply (databaseRequest settings row db) (claimedTables settings row db))) :
    RaisesOnly (fun e => ¬Obstructs e) (applySource settings f db) := by
  unfold applySource
  split
  · exact .error (not_obstructs_of_kind nofun nofun)
  · rename_i row hrow
    exact .bind lockSourceForApply_unobstructed fun _ _ =>
      .bind assertIngestionAllowed_unobstructed fun _ _ => .bind (h row hrow) fun _ _ => .pure _

/-- The replay that was just begun is the open one of its file. -/
theorem openReplay_begun {id : RunId} {replay : ReplayId}
    (h : beginReplay f (some id) db = .ok (db', replay)) :
    (db'.openReplay f).bind ReplayRun.rebuildRunId = some id := by
  cases beginReplay_eq_ok h
  have hclosed : (db.replays.map fun r =>
      if r.sourceFileId = f then { r with finished := true } else r).find?
        (fun r => decide (r.sourceFileId = f) && !r.finished) = none := by
    rw [List.find?_eq_none]
    intro r hr
    obtain ⟨old, -, rfl⟩ := List.mem_map.mp hr
    split
    · simp
    · rename_i hne
      simp [hne]
  rw [Database.openReplay, List.find?_append, hclosed, Option.none_or]
  simp

/-- A change of the entries that keeps their file and instant. -/
theorem rebuildAppliedAt_map {rebuildRunId : Option RunId} {change : RebuildFile → RebuildFile}
    (hrun : ∀ e, (change e).rebuildRunId = e.rebuildRunId)
    (hfile : ∀ e, (change e).sourceFileId = e.sourceFileId)
    (htime : ∀ e, (change e).orderTime = e.orderTime) (hfiles : db'.files = db.files.map change) :
    rebuildAppliedAt f rebuildRunId db' = rebuildAppliedAt f rebuildRunId db := by
  cases rebuildRunId with
  | none => rfl
  | some id =>
    have hof : db'.filesOf id = (db.filesOf id).map change := by
      rw [Database.filesOf, hfiles, List.filter_map, Database.filesOf]
      congr 1
      refine List.filter_congr fun e _ => ?_
      show decide ((change e).rebuildRunId = id) = _
      rw [hrun]
    show ((db'.filesOf id).find? _).map _ = ((db.filesOf id).find? _).map _
    rw [hof, List.find?_map, Option.map_map]
    rw [show RebuildFile.orderTime ∘ change = RebuildFile.orderTime from funext htime]
    congr 2
    funext e
    show decide ((change e).sourceFileId = f) = _
    rw [hfile]

end Apply

/-! ## Ordinary ingests -/

/-- The source rows are those of the library. -/
def Library.Holds (L : Library) (db : Database) : Prop :=
  ∀ row ∈ db.sources, row = L.rowAt (sourceFileIdOf row) row.status

/-- A database that ordinary ingests and archives have written. -/
structure Recorded (L : Library) (db : Database) : Prop where
  active : db.active = none
  replays : db.replays = []
  runs : db.runs = []
  files : db.files = []
  rows : L.Holds db
  unique : Table.UniqueOn sourceFileIdOf db.sources
  original : Original L db.tables

section Recorded

variable {L : Library} {db : Database}

theorem Library.Holds.source (h : L.Holds db) {f : FileId} {row : SourceFile}
    (hrow : db.source f = some row) : sourceFileIdOf row = f ∧ row = L.rowAt f row.status := by
  have hid : sourceFileIdOf row = f := Table.key_of_lookup hrow
  refine ⟨hid, ?_⟩
  rw [← hid]
  exact h row (Table.mem_of_lookup hrow)

theorem Recorded.recordStatus (h : Recorded L db) (f : FileId) (status : IngestionStatus) :
    Recorded L (recordStatus L f status db) where
  active := h.active
  replays := h.replays
  runs := h.runs
  files := h.files
  rows := by
    intro row hrow
    rcases Table.mem_upsert hrow with ⟨hold, -⟩ | ⟨old, hold, -, -, -, rfl⟩ | ⟨g, hg, rfl⟩
    · exact h.rows row hold
    · have heq := h.rows old hold
      show { old with status := status } = L.rowAt (sourceFileIdOf old) status
      rw [heq, show sourceFileIdOf (L.rowAt (sourceFileIdOf old) old.status) = sourceFileIdOf old
        from L.ids _]
      rfl
    · show L.rowAt g status = L.rowAt (sourceFileIdOf (L.row g)) status
      rw [L.ids]
  unique := by
    refine Table.upsert_unique (fun g => L.ids g) (fun _ _ => rfl) h.unique ?_
    exact List.nodup_singleton f
  original := h.original

theorem Recorded.ingestSource (h : Recorded L db) (f : FileId) (settings : ApplySettings) :
    Recorded L (ingestSource L f settings db) := by
  have hstaged : Recorded L (stageSource L f db) :=
    ⟨h.active, h.replays, h.runs, h.files, h.rows, h.unique, h.original⟩
  unfold Makolet.Maintenance.ingestSource
  split
  · rename_i db' hsource
    obtain ⟨row, t, summary, hrow, happly, rfl⟩ := applySource_applied hsource
    obtain ⟨hid, hrow⟩ := hstaged.rows.source hrow
    have hr : RequestOf L f (databaseRequest settings row (stageSource L f db)) :=
      requestOf_database hrow (Function.update_self f _ _)
    -- Without a replay row there is no rebuild to take an instant from.
    have hnone : (stageSource L f db).openReplay (sourceFileIdOf row) = none := by
      rw [Database.openReplay, hstaged.replays]
      rfl
    have hclaimed : claimedTables settings row (stageSource L f db) = db.tables := by
      rw [claimedTables, hnone]
      rfl
    rw [hclaimed] at happly
    exact ⟨h.active, h.replays, h.runs, h.files, h.rows, h.unique, h.original.apply hr happly⟩
  · exact hstaged

theorem Recorded.bootstrap (h : Recorded L db) (f : FileId) (now : Time) (cursor : Option ItemId) :
    Recorded L (bootstrapBatch now f cursor db).1 := by
  refine ⟨h.active, h.replays, h.runs, h.files, h.rows, h.unique, ?_⟩
  have hsorted := sorted_bootstrap h.original.sorted now
    ((sourceSubjects f cursor db.tables).take bootstrapBatchSize)
  refine h.original.catalog hsorted ?_ ?_ ?_ ?_
  all_goals
    show _ = _
    rw [bootstrapBatch, bootstrap_frame]

end Recorded

/-! ## The loop of a rebuild -/

/-- A rebuild of `db₀` that has replayed the files `done` and checkpointed `n` of them. -/
structure Rebuilds (L : Library) (db₀ : Database) (cutoff : Time) (id : RunId)
    (done pending : List RebuildFile) (n : Nat) (db : Database) : Prop where
  recorded : Recorded L db₀
  orderly : L.Orderly db₀ cutoff
  run : id = db₀.nextId
  sequence : rebuildSequence db₀ id cutoff = done ++ pending
  active : db.active ≠ none
  rows : L.Holds db
  times : ∀ e ∈ rebuildSequence db₀ id cutoff,
    rebuildAppliedAt e.sourceFileId (some id) db = some e.orderTime
  replayed : Replayed L db₀.tables done db.tables
  claims : ∀ c ∈ db.tables.appliedContents, ∃ d ∈ done, d.sourceFileId = c.sourceFileId
  checkpointed : ∃ r, db.run id = some r ∧ r.lastSequence.getD 0 = n
  waiting : ∀ e ∈ (rebuildSequence db₀ id cutoff).drop n, e ∈ db.files

section Rebuilds

variable {L : Library} {db₀ db db' : Database} {cutoff : Time} {id : RunId} {n : Nat}
  {done rest : List RebuildFile} {e : RebuildFile}

/-- The rebuild begins with the stores and items of the ordinary ingests. -/
theorem rebuilds_of_begin (h : Recorded L db₀) (horderly : L.Orderly db₀ cutoff)
    {requestedBy parserVersion : String}
    (hbegin : beginRebuild requestedBy parserVersion cutoff db₀ = .ok (db, id)) :
    Rebuilds L db₀ cutoff id [] (rebuildSequence db₀ id cutoff) 0 db := by
  obtain ⟨-, hbegin⟩ := require_bind_eq_ok.mp hbegin
  cases pure_eq_ok.mp hbegin
  refine ⟨h, horderly, rfl, rfl, nofun, h.rows, ?_, ?_, (fun c hc => by cases hc), ?_,
    fun e he => List.mem_append_right _ he⟩
  · intro e he
    have hfiles : ∀ files, files = db₀.files ++ rebuildSequence db₀ db₀.nextId cutoff →
        files.filter (fun f => decide (f.rebuildRunId = db₀.nextId)) =
          rebuildSequence db₀ db₀.nextId cutoff := by
      rintro files rfl
      rw [h.files, List.nil_append, List.filter_eq_self]
      exact fun f hf => decide_eq_true (rebuildRunId_of_mem_sequence hf)
    have hfind := Table.lookup_of_mem (rebuildSequence_unique h.unique) he
    show ((List.filter _ _).find? _).map _ = _
    rw [hfiles _ rfl]
    exact congrArg (Option.map RebuildFile.orderTime) hfind
  · refine ⟨sorted_reset h.original.sorted, ?_, fun r hr => .inr ⟨r, hr, rfl, rfl⟩,
      fun r hr => .inr ⟨r, hr, rfl, rfl⟩, fun w hw => by cases hw⟩
    constructor <;>
      · intro _ hmem
        cases hmem
  · refine ⟨?_, ?_, ?_⟩
    rotate_left
    · show Table.lookup RebuildRun.id (db₀.runs ++ [_]) db₀.nextId = _
      rw [h.runs, List.nil_append, Table.lookup_cons, if_pos rfl]
    · rfl

/-- Steps that leave the sources, the entries and the tables alone. -/
theorem Rebuilds.frame (h : Rebuilds L db₀ cutoff id done rest n db) (hactive : db'.active = db.active)
    (hsources : db'.sources = db.sources) (htables : db'.tables = db.tables)
    (hfiles : db'.files = db.files)
    (hrun : ∀ r, db.run id = some r →
      ∃ r', db'.run id = some r' ∧ r'.lastSequence = r.lastSequence) :
    Rebuilds L db₀ cutoff id done rest n db' where
  recorded := h.recorded
  orderly := h.orderly
  run := h.run
  sequence := h.sequence
  active := hactive ▸ h.active
  rows := by
    unfold Library.Holds
    rw [hsources]
    exact h.rows
  times e he := by
    refine Eq.trans ?_ (h.times e he)
    exact rebuildAppliedAt_map (fun _ => rfl) (fun _ => rfl) (fun _ => rfl)
      (hfiles.trans (List.map_id _).symm)
  replayed := htables ▸ h.replayed
  claims := htables ▸ h.claims
  checkpointed := by
    obtain ⟨r, hr, hlast⟩ := h.checkpointed
    obtain ⟨r', hr', hsame⟩ := hrun r hr
    exact ⟨r', hr', by rw [hsame, hlast]⟩
  waiting e he := hfiles ▸ h.waiting e he

theorem run_setRun {change : RebuildRun → RebuildRun} (hid : ∀ r, (change r).id = r.id)
    {r : RebuildRun} (hr : db.run id = some r) : (db.setRun id change).run id = some (change r) := by
  show Table.lookup RebuildRun.id (Table.updateAt _ _ _ _) id = _
  rw [Table.lookup_updateAt (fun r _ => hid r), if_pos rfl]
  exact congrArg (Option.map change) hr

/-- A change of the run that keeps its number. -/
theorem Rebuilds.setRun (h : Rebuilds L db₀ cutoff id done rest n db) {change : RebuildRun → RebuildRun}
    (hid : ∀ r, (change r).id = r.id) (hlast : ∀ r, (change r).lastSequence = r.lastSequence) :
    Rebuilds L db₀ cutoff id done rest n (db.setRun id change) := by
  exact h.frame rfl rfl rfl rfl fun r hr => ⟨change r, run_setRun hid hr, hlast r⟩

theorem Rebuilds.bootstrap (h : Rebuilds L db₀ cutoff id done rest n db) (f : FileId) (now : Time)
    (cursor : Option ItemId) :
    Rebuilds L db₀ cutoff id done rest n (bootstrapBatch now f cursor db).1 := by
  refine ⟨h.recorded, h.orderly, h.run, h.sequence, h.active, h.rows, h.times, ?_, ?_,
    h.checkpointed, h.waiting⟩
  · have hframe := bootstrap_frame now
      ((sourceSubjects f cursor db.tables).take bootstrapBatchSize) db.tables
    have hsorted := sorted_bootstrap h.replayed.sorted now
      ((sourceSubjects f cursor db.tables).take bootstrapBatchSize)
    change Replayed L db₀.tables done (List.foldl _ _ _)
    generalize List.foldl (bootstrapItem now) db.tables _ = t at hframe hsorted ⊢
    refine h.replayed.frame hsorted ?_
    rw [hframe]
  · intro c hc
    rw [bootstrapBatch, bootstrap_frame] at hc
    exact h.claims c hc

/-- A file of the sequence that was applied has its claim. -/
theorem applied_of_mem_sequence (he : e ∈ rebuildSequence db₀ id cutoff)
    (happlied : e.originalAppliedAt ≠ none) :
    ∃ c ∈ db₀.tables.appliedContents, c.sourceFileId = e.sourceFileId ∧
      c.appliedAt = e.orderTime := by
  obtain ⟨a, ha, n, rfl⟩ := mem_rebuildSequence he
  obtain ⟨row, -, rfl⟩ := List.mem_map.mp ha
  cases hclaim : claimOf db₀.tables (sourceFileIdOf row) with
  | none =>
    refine absurd ?_ happlied
    show (claimOf db₀.tables (sourceFileIdOf row)).map AppliedContent.appliedAt = none
    rw [hclaim]
    rfl
  | some c =>
    refine ⟨c, Table.mem_of_lookup hclaim, Table.key_of_lookup hclaim, ?_⟩
    show c.appliedAt = ((claimOf db₀.tables (sourceFileIdOf row)).map
      AppliedContent.appliedAt).getD _
    rw [hclaim]
    rfl

/-- Every file that was replayed before an applied file may precede it. -/
theorem Rebuilds.precedes (h : Rebuilds L db₀ cutoff id done (e :: rest) n db)
    (happlied : e.originalAppliedAt ≠ none) {d : RebuildFile} (hd : d ∈ done) :
    d.orderTime < e.orderTime ∧ L.Precedes d.sourceFileId e.sourceFileId := by
  have hdmem : d ∈ rebuildSequence db₀ id cutoff := by
    rw [h.sequence]
    exact List.mem_append_left _ hd
  have hemem : e ∈ rebuildSequence db₀ id cutoff := by
    rw [h.sequence]
    exact List.mem_append_right _ List.mem_cons_self
  have hbefore : d.SequencedBefore e := by
    have hpairwise := rebuildSequence_pairwise db₀ id cutoff
    rw [h.sequence, List.pairwise_append] at hpairwise
    exact hpairwise.2.2 d hd e List.mem_cons_self
  have hne : d.sourceFileId ≠ e.sourceFileId := by
    have hunique := @rebuildSequence_unique db₀ id cutoff h.recorded.unique
    rw [h.sequence, Table.UniqueOn, List.map_append, List.nodup_append] at hunique
    exact hunique.2.2 _ (List.mem_map_of_mem hd) _ (List.mem_map_of_mem List.mem_cons_self)
  by_cases hdapplied : d.originalAppliedAt = none
  · -- An archived file: the condition.
    obtain ⟨a, ha, m, rfl⟩ := mem_rebuildSequence hdmem
    obtain ⟨b, hb, n, rfl⟩ := mem_rebuildSequence hemem
    rw [h.run] at ha hb
    exact h.orderly.2 a ha hdapplied b hb happlied hbefore
  · -- An applied file: the order of the applies.
    obtain ⟨c, hc, hcfile, hctime⟩ := applied_of_mem_sequence hdmem hdapplied
    obtain ⟨c', hc', hcfile', hctime'⟩ := applied_of_mem_sequence hemem happlied
    have hclaims : c ≠ c' := fun heq => hne (by rw [← hcfile, ← hcfile', heq])
    have hpairs := rel_or_rel_of_pairwise (h.orderly.1.and h.recorded.original.ordered) hc hc'
      hclaims
    rw [hctime, hctime', hcfile, hcfile'] at hpairs
    rcases hpairs with hlt | ⟨hgt, -⟩
    · exact hlt
    · rcases hbefore with hlt | ⟨heq, -⟩
      · exact absurd hlt (not_lt_of_gt hgt)
      · exact absurd hgt (by rw [heq]; exact lt_irrefl _)

end Rebuilds

section Replay

variable {L : Library} {db₀ db staged : Database} {cutoff : Time} {id : RunId}
  {done rest : List RebuildFile} {e : RebuildFile} {settings : ApplySettings} {row : SourceFile}
  {n : Nat}

/-- The next file has no claim yet. -/
theorem Rebuilds.unclaimed (h : Rebuilds L db₀ cutoff id done (e :: rest) n db) :
    claimOf db.tables e.sourceFileId = none := by
  rw [claimOf, Table.lookup_eq_none]
  intro c hc heq
  obtain ⟨d, hd, hfile⟩ := h.claims c hc
  have hunique := @rebuildSequence_unique db₀ id cutoff h.recorded.unique
  rw [h.sequence, Table.UniqueOn, List.map_append, List.nodup_append] at hunique
  exact hunique.2.2 _ (List.mem_map_of_mem hd) _ (List.mem_map_of_mem List.mem_cons_self)
    (hfile.trans heq)

theorem Rebuilds.next_mem (h : Rebuilds L db₀ cutoff id done (e :: rest) n db) :
    e ∈ rebuildSequence db₀ id cutoff := by
  rw [h.sequence]
  exact List.mem_append_right _ List.mem_cons_self

/-- The replay of the next file claims the instant of its entry. -/
theorem Rebuilds.claimed (h : Rebuilds L db₀ cutoff id done (e :: rest) n staged)
    (settings : ApplySettings)
    (hopen : (staged.openReplay e.sourceFileId).bind ReplayRun.rebuildRunId = some id)
    (hid : sourceFileIdOf row = e.sourceFileId) :
    ∃ c : AppliedContent, c.sourceFileId = e.sourceFileId ∧
      claimedTables settings row staged =
        { staged.tables with appliedContents := staged.tables.appliedContents ++ [c] } ∧
      (databaseRequest settings row staged).appliedAt (claimedTables settings row staged) =
        e.orderTime := by
  have hfile : (databaseRequest settings row staged).sourceFileId = e.sourceFileId := hid
  have hnone : claimOf staged.tables (databaseRequest settings row staged).sourceFileId = none := by
    rw [hfile]
    exact h.unclaimed
  have htables : claimedTables settings row staged = { staged.tables with
      appliedContents := staged.tables.appliedContents ++
        [⟨e.sourceFileId, (databaseRequest settings row staged).source.retailerId,
          (databaseRequest settings row staged).source.portalId,
          (databaseRequest settings row staged).documentType,
          (databaseRequest settings row staged).contentSha256, e.orderTime⟩] } := by
    rw [claimedTables, hid, hopen, h.times e h.next_mem]
    unfold claimRebuilt
    rw [hnone, hfile]
  refine ⟨_, rfl, htables, ?_⟩
  have hclaim : claimOf (claimedTables settings row staged)
      (databaseRequest settings row staged).sourceFileId =
        some ⟨e.sourceFileId, (databaseRequest settings row staged).source.retailerId,
          (databaseRequest settings row staged).source.portalId,
          (databaseRequest settings row staged).documentType,
          (databaseRequest settings row staged).contentSha256, e.orderTime⟩ := by
    rw [htables, claimOf]
    show Table.lookup _ (_ ++ _) _ = _
    rw [Table.lookup_append, show Table.lookup AppliedContent.sourceFileId
      staged.tables.appliedContents (databaseRequest settings row staged).sourceFileId = none
        from hnone, Option.none_or, Table.lookup_cons, if_pos hfile.symm]
  rw [ApplyRequest.appliedAt, claimContent, hclaim]

theorem sorted_claimed {t : Tables} (h : Sorted t) (claims : List AppliedContent) :
    Sorted { t with appliedContents := claims } :=
  h.frame rfl

/-- The apply of the next file. -/
theorem Rebuilds.applied (h : Rebuilds L db₀ cutoff id done (e :: rest) n staged)
    (hopen : (staged.openReplay e.sourceFileId).bind ReplayRun.rebuildRunId = some id)
    (hstaging : staged.staging e.sourceFileId = L.staging e.sourceFileId) {db' : Database}
    (hdone : applySource settings e.sourceFileId staged = .ok db') :
    Rebuilds L db₀ cutoff id (done ++ [e]) rest n db' := by
  obtain ⟨row, t, summary, hsource, happly, rfl⟩ := applySource_applied hdone
  obtain ⟨hid, hrow⟩ := h.rows.source hsource
  obtain ⟨c, hfile, htables, htime⟩ := h.claimed settings hopen hid
  have hr := @requestOf_database L e.sourceFileId settings staged row hrow hstaging
  rw [htables] at happly htime
  have hreplayed : Replayed L db₀.tables done
      { staged.tables with appliedContents := staged.tables.appliedContents ++ [c] } :=
    h.replayed.frame (sorted_claimed h.replayed.sorted _) rfl
  refine ⟨h.recorded, h.orderly, h.run, ?_, h.active, h.rows, h.times,
    hreplayed.apply hr htime happly, ?_, h.checkpointed, h.waiting⟩
  · rw [h.sequence, List.append_assoc]
    rfl
  · intro b hb
    have hlast : e ∈ done ++ [e] := List.mem_append_right _ (List.mem_singleton_self e)
    have hold : ∀ b ∈ staged.tables.appliedContents ++ [c],
        ∃ d ∈ done ++ [e], d.sourceFileId = b.sourceFileId := by
      intro b hb
      rcases List.mem_append.mp hb with hb | hb
      · obtain ⟨d, hd, hdb⟩ := h.claims b hb
        exact ⟨d, List.mem_append_left _ hd, hdb⟩
      · rw [List.mem_singleton.mp hb]
        exact ⟨e, hlast, hfile.symm⟩
    rcases claims_of_apply happly with ⟨hclaims, -⟩ | ⟨-, d, hd, -, hclaims⟩
    · rw [hclaims] at hb
      exact hold b hb
    · rw [hclaims, List.mem_append, List.mem_singleton] at hb
      rcases hb with hb | rfl
      · exact hold b hb
      · exact ⟨e, hlast, (hd.trans hr.file).symm⟩

/-- The apply of a file that had been applied meets no obstacle. -/
theorem Rebuilds.unobstructed (h : Rebuilds L db₀ cutoff id done (e :: rest) n staged)
    (hopen : (staged.openReplay e.sourceFileId).bind ReplayRun.rebuildRunId = some id)
    (hstaging : staged.staging e.sourceFileId = L.staging e.sourceFileId)
    (happlied : e.originalAppliedAt ≠ none) :
    RaisesOnly (fun failure => ¬Obstructs failure)
      (applySource settings e.sourceFileId staged) := by
  refine applySource_unobstructed fun row hsource => ?_
  obtain ⟨hid, hrow⟩ := h.rows.source hsource
  obtain ⟨c, -, htables, htime⟩ := h.claimed settings hopen hid
  have hr := @requestOf_database L e.sourceFileId settings staged row hrow hstaging
  obtain ⟨claim, hclaim, hfile, hinstant⟩ := applied_of_mem_sequence h.next_mem happlied
  rw [htables] at htime ⊢
  have hreplayed : Replayed L db₀.tables done
      { staged.tables with appliedContents := staged.tables.appliedContents ++ [c] } :=
    h.replayed.frame (sorted_claimed h.replayed.sorted _) rfl
  rw [← hfile] at hr
  refine apply_unobstructed hreplayed.sorted ?_ fun family hfamily => ?_
  · refine hreplayed.timesFit h.recorded.original hclaim hr (htime.trans hinstant.symm) ?_
    intro d hd
    rw [hinstant]
    exact (h.precedes happlied hd).1
  · refine hreplayed.ordering h.recorded.original hclaim hr hfamily ?_
    intro d hd
    rw [hfile]
    exact (h.precedes happlied hd).2

theorem Rebuilds.finished (h : Rebuilds L db₀ cutoff id done rest n db) (replay : ReplayId) :
    Rebuilds L db₀ cutoff id done rest n ((finishReplay replay db).toOption.getD db) ∧
      ((finishReplay replay db).toOption.getD db).runs = db.runs := by
  cases hfinish : finishReplay replay db with
  | error failure => exact ⟨h, rfl⟩
  | ok db' =>
    cases finishReplay_eq_ok hfinish
    exact ⟨h.frame rfl rfl rfl rfl fun r hr => ⟨r, hr, rfl⟩, rfl⟩

theorem Rebuilds.failed (h : Rebuilds L db₀ cutoff id done rest n db) (kind : ErrorKind) :
    Rebuilds L db₀ cutoff id done rest n
      ((failRebuild id kind rebuildFailureMessage db).toOption.getD db) := by
  cases hfail : failRebuild id kind rebuildFailureMessage db with
  | error failure => exact h
  | ok db' =>
    obtain ⟨-, rfl⟩ := failRebuild_eq_ok hfail
    exact h.setRun (fun _ => rfl) fun _ => rfl

/-- A replay of a rebuild begins only while its run is running. -/
theorem running_of_begun {f : FileId} {begun : Database × ReplayId}
    (h : beginReplay f (some id) db = .ok begun) :
    ∃ r, db.run id = some r ∧ r.status = .running := by
  obtain ⟨_, hallowed, -⟩ := bind_eq_ok.mp h
  unfold assertIngestionAllowed at hallowed
  split at hallowed
  · cases require_eq_ok.mp hallowed
  · obtain ⟨hid, hallowed⟩ := require_bind_eq_ok.mp hallowed
    cases hid
    exact Option.map_eq_some_iff.mp (require_eq_ok.mp hallowed)

/-- The database in which the next file is applied. -/
theorem Rebuilds.begun (h : Rebuilds L db₀ cutoff id done (e :: rest) n db) {begun : Database}
    {replay : ReplayId} (hbegin : beginReplay e.sourceFileId (some id) db = .ok (begun, replay)) :
    Rebuilds L db₀ cutoff id done (e :: rest) n (stageSource L e.sourceFileId begun) ∧
      (stageSource L e.sourceFileId begun).runs = db.runs ∧
      ((stageSource L e.sourceFileId begun).openReplay e.sourceFileId).bind
        ReplayRun.rebuildRunId = some id ∧
      (stageSource L e.sourceFileId begun).staging e.sourceFileId = L.staging e.sourceFileId := by
  have hopen := openReplay_begun hbegin
  refine ⟨?_, ?_, hopen, Function.update_self _ _ _⟩
  · rw [beginReplay_eq_ok hbegin]
    exact h.frame rfl rfl rfl rfl fun r hr => ⟨r, hr, rfl⟩
  · rw [beginReplay_eq_ok hbegin]
    rfl

/-- The replay of the next file either fails and leaves the rebuild where it was, or adds the file
and leaves the run running. -/
theorem Rebuilds.replay (h : Rebuilds L db₀ cutoff id done (e :: rest) n db)
    (settings : ApplySettings) {db' : Database} {outcome : Except Failure Unit}
    (hreplay : replaySource L id e.sourceFileId settings db = (db', outcome)) :
    (outcome = .ok () ∧ Rebuilds L db₀ cutoff id (done ++ [e]) rest n db' ∧
        ∃ r, db'.run id = some r ∧ r.status = .running) ∨
      ∃ failure, outcome = .error failure ∧ Rebuilds L db₀ cutoff id done (e :: rest) n db' ∧
        (e.originalAppliedAt ≠ none → ¬Obstructs failure) := by
  unfold replaySource at hreplay
  split at hreplay
  · rename_i failure hbegin
    cases hreplay
    exact .inr ⟨failure, rfl, h, fun _ => beginReplay_unobstructed failure hbegin⟩
  · rename_i begun hbegin
    obtain ⟨begun, replay⟩ := begun
    obtain ⟨hstaged, hruns₀, hopen, hstaging⟩ := h.begun hbegin
    dsimp only at hreplay
    split at hreplay
    · rename_i failure happly
      cases hreplay
      exact .inr ⟨failure, rfl, (hstaged.finished _).1, fun happlied =>
        hstaged.unobstructed hopen hstaging happlied failure happly⟩
    · rename_i applied happly
      cases hreplay
      obtain ⟨hkept, hruns⟩ := (hstaged.applied hopen hstaging happly).finished replay
      refine .inl ⟨rfl, hkept, ?_⟩
      obtain ⟨tables, rfl, -⟩ := applySource_eq_ok happly
      obtain ⟨r, hr, hstatus⟩ := running_of_begun hbegin
      refine ⟨r, ?_, hstatus⟩
      rw [Database.run, hruns]
      show Table.lookup RebuildRun.id (stageSource L e.sourceFileId begun).runs id = _
      rw [hruns₀]
      exact hr

/-- The entry after `n` others has the number `n + 1`, and no later one has it. -/
theorem sequence_of_split (h : rebuildSequence db₀ id cutoff = done ++ e :: rest) :
    e.sequence = done.length + 1 ∧ ∀ p ∈ rest, p.sequence ≠ e.sequence := by
  have hnumbers := rebuildSequence_numbered db₀ id cutoff
  rw [h, List.map_append, List.map_cons] at hnumbers
  constructor
  · have hat := congrArg (fun numbers => numbers[done.length]?) hnumbers
    simpa [Nat.add_comm] using hat
  · intro p hp heq
    have hnodup : (done.map RebuildFile.sequence ++
        e.sequence :: rest.map RebuildFile.sequence).Nodup := by
      rw [hnumbers]
      exact List.nodup_range'
    rw [List.nodup_append, List.nodup_cons] at hnodup
    exact hnodup.2.1.1 (heq ▸ List.mem_map_of_mem hp)

/-- The checkpoint of the file that was just replayed is accepted. -/
theorem Rebuilds.checkpoint
    (h : Rebuilds L db₀ cutoff id (done ++ [e]) rest done.length db)
    (hrunning : ∃ r, db.run id = some r ∧ r.status = .running) :
    ∃ db', completeRebuildFile id e.sequence ⟨e.sourceFileId, e.archivedAt⟩ db = .ok db' ∧
      Rebuilds L db₀ cutoff id (done ++ [e]) rest (done ++ [e]).length db' := by
  have hsplit : rebuildSequence db₀ id cutoff = done ++ e :: rest := by
    rw [h.sequence, List.append_assoc]
    rfl
  obtain ⟨hnumber, hlater⟩ := sequence_of_split hsplit
  obtain ⟨r, hr, hstatus⟩ := hrunning
  obtain ⟨r', hr', hlast⟩ := h.checkpointed
  obtain rfl : r = r' := Option.some.inj (hr.symm.trans hr')
  have hwaiting := h.waiting e (by rw [hsplit, List.drop_left]; exact List.mem_cons_self)
  have hat : e.isAt id e.sequence ⟨e.sourceFileId, e.archivedAt⟩ := by
    have hmem : e ∈ rebuildSequence db₀ id cutoff := by
      rw [hsplit]
      exact List.mem_append_right _ List.mem_cons_self
    refine ⟨rebuildRunId_of_mem_sequence hmem, rfl, rfl, rfl, ?_⟩
    obtain ⟨a, ha, m, rfl⟩ := mem_rebuildSequence hmem
    obtain ⟨row, -, rfl⟩ := List.mem_map.mp ha
    rfl
  have hlock : lockRebuildRun id db = .ok r := by
    unfold lockRebuildRun
    rw [hr]
  refine ⟨_, bind_eq_ok.mpr ⟨r, hlock, require_bind_eq_ok.mpr ⟨hstatus, require_bind_eq_ok.mpr
    ⟨by rw [hnumber, hlast], require_bind_eq_ok.mpr ⟨⟨e, hwaiting, hat⟩, rfl⟩⟩⟩⟩, ?_⟩
  refine ⟨h.recorded, h.orderly, h.run, h.sequence, h.active, h.rows, fun p hp => ?_, h.replayed,
    h.claims, ?_, ?_⟩
  · refine Eq.trans ?_ (h.times p hp)
    refine rebuildAppliedAt_map ?_ ?_ ?_ rfl
    all_goals
      intro entry
      split
      · rfl
      · rfl
  · have hrun := @run_setRun db id (fun r =>
      { r with
        sourceFilesCompleted := r.sourceFilesCompleted + 1
        lastSequence := some e.sequence
        lastSourceFileId := some e.sourceFileId
        lastArchivedAt := some e.archivedAt }) (fun _ => rfl) r hr
    refine ⟨_, hrun, ?_⟩
    rw [Option.getD_some, hnumber, List.length_append]
    rfl
  · intro p hp
    have hrest : p ∈ rest := by
      rw [h.sequence, List.drop_left] at hp
      exact hp
    have hold : p ∈ db.files := by
      refine h.waiting p ?_
      rw [hsplit, List.drop_left]
      exact List.mem_cons_of_mem _ hrest
    refine List.mem_map.mpr ⟨p, hold, if_neg ?_⟩
    rintro ⟨-, hsequence, -⟩
    exact hlater p hrest hsequence

end Replay

/-! ## Runs -/

/-- What holds in every state of an orderly run. -/
def History.Admits (L : Library) (s : History) : Prop :=
  s.obstructed = [] ∧
    match s.rebuilding with
    | none => Recorded L s.db
    | some run => ∃ db₀ cutoff done,
      Rebuilds L db₀ cutoff run.id done run.pending done.length s.db

section Runs

variable {L : Library} {s s' : History}

theorem History.Admits.of_rebuilds {db : Database} {run : Rebuilding} {obstructed : List FileId}
    (hobstructed : obstructed = []) {db₀ : Database} {cutoff : Time} {done : List RebuildFile}
    (h : Rebuilds L db₀ cutoff run.id done run.pending done.length db) :
    History.Admits L ⟨db, some run, obstructed⟩ :=
  ⟨hobstructed, db₀, cutoff, done, h⟩

theorem History.Admits.replayNext (h : s.Admits L) {run : Rebuilding}
    (hrun : s.rebuilding = some run) {settings : ApplySettings}
    (hnext : s.replayNext L run settings = some s') : s'.Admits L := by
  obtain ⟨db, rebuilding, obstructed⟩ := s
  cases hrun
  obtain ⟨hobstructed, db₀, cutoff, done, h⟩ := h
  obtain ⟨id, pending⟩ := run
  unfold History.replayNext at hnext
  dsimp only at hnext h hobstructed
  split at hnext
  · cases hnext
  · rename_i e rest
    generalize hreplay : replaySource L id e.sourceFileId settings db = replayed at hnext
    obtain ⟨db', outcome⟩ := replayed
    rcases h.replay settings hreplay with
      ⟨rfl, hdone, hrunning⟩ | ⟨failure, rfl, hkept, hclear⟩
    · obtain ⟨checkpointed, hcomplete, hafter⟩ := hdone.checkpoint hrunning
      dsimp only at hnext
      rw [hcomplete] at hnext
      cases hnext
      exact .of_rebuilds hobstructed hafter
    · cases hnext
      refine .of_rebuilds ?_ (hkept.failed _)
      rw [hobstructed, if_neg fun hboth => hclear hboth.1 hboth.2]
      rfl

theorem History.Admits.next {e : HistoryEvent} (h : s.Admits L) (hok : BeginsOrderly L s e)
    (hnext : s.next L e = some s') : s'.Admits L := by
  obtain ⟨db, rebuilding, obstructed⟩ := s
  obtain ⟨hobstructed, h⟩ := h
  cases e with
  | record f status =>
    cases rebuilding with
    | none =>
      cases hnext
      exact ⟨hobstructed, h.recordStatus f status⟩
    | some run => cases hnext
  | ingest f settings =>
    cases rebuilding with
    | none =>
      cases hnext
      exact ⟨hobstructed, h.ingestSource f settings⟩
    | some run => cases hnext
  | bootstrap f now cursor =>
    cases hnext
    cases rebuilding with
    | none => exact ⟨hobstructed, h.bootstrap f now cursor⟩
    | some run =>
      obtain ⟨db₀, cutoff, done, h⟩ := h
      exact .of_rebuilds hobstructed (h.bootstrap f now cursor)
  | begin requestedBy parserVersion now =>
    simp only [History.next] at hnext
    split at hnext
    · cases hnext
    · rename_i begun hbegin
      cases hnext
      cases rebuilding with
      | none => exact .of_rebuilds hobstructed (rebuilds_of_begin h hok hbegin)
      | some run =>
        -- A second rebuild is refused while one is active.
        obtain ⟨db₀, cutoff, done, h⟩ := h
        exact absurd (beginRebuild_eq_ok hbegin).1 h.active
  | replay settings =>
    obtain ⟨run, hrun, hnext⟩ := Option.bind_eq_some_iff.mp hnext
    exact History.Admits.replayNext ⟨hobstructed, h⟩ hrun hnext
  | resume =>
    obtain ⟨run, hrun, hnext⟩ := Option.bind_eq_some_iff.mp hnext
    obtain ⟨db', hresume, rfl⟩ := Option.map_eq_some_iff.mp hnext
    cases hrun
    obtain ⟨db₀, cutoff, done, h⟩ := h
    obtain ⟨-, r, -, -, rfl⟩ := resumeRebuild_eq_ok (toOption_eq_some.mp hresume)
    exact .of_rebuilds hobstructed (h.setRun (fun _ => rfl) fun _ => rfl)

/-- In every run whose rebuild begins in an orderly state, the replay of a file that had been applied
meets neither a timestamp regression or conflict nor a temporal constraint. -/
theorem rebuild_admits_applied (h : Reach (historySystem L) (BeginsOrderly L) s) :
    s.obstructed = [] := by
  have hadmits : s.Admits L := by
    refine h.invariant (P := fun s => s.Admits L) ?_ fun s e s' hs hok hnext => hs.next hok hnext
    rintro _ rfl
    exact ⟨rfl, rfl, rfl, rfl, rfl, (fun row hrow => by cases hrow), List.nodup_nil, .empty⟩
  exact hadmits.1

/-- File 3 was published after the ingest of file 2; all three files are replayed. -/
theorem rebuild_admits_applied_sample :
    ((historySystem promptLibrary).afterChecked (BeginsOrderly promptLibrary) .empty
      (archivedBeside 50 120 2000)).obstructed = [] :=
  rebuild_admits_applied (reach_afterChecked (archivedBeside 50 120 2000) rfl (by decide +kernel))

/-- File 3 was published after file 2 but before its late ingest, and is replayed first: the replay
of file 2 is a timestamp regression. -/
theorem late_ingest_obstructed :
    ∃ s, Reach (historySystem lateLibrary) Any s ∧ s.obstructed = [2] :=
  ⟨_, reach_after (archivedBeside 50 1000 2000) rfl (by decide +kernel), by decide +kernel⟩

end Runs

end Makolet.Maintenance
