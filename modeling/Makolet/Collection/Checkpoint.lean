import Makolet.Collection.World
import Makolet.Ingestion.Applied

/-!
# The checkpoint passes no file that is still open

A checkpoint moves within a page by one file at a time, and each of the four branches that move it
has looked at the file first: an unknown entry, a skipped entry, a collected file, and a file that
the exception handler found terminal. What the branch saw is still true when the advance commits,
because nothing undoes a terminal state. The boundary itself is compared and set, so an attempt that
a later one superseded cannot move it.
-/

set_option autoImplicit false

namespace Makolet.Collection

open Makolet.Domain Makolet.Lib Makolet.Lib.Table Makolet.Ingestion Makolet.Normalized

/-! ## Rows along a run -/

section Rows

variable {config : Config} {policy : IngestionPolicy} {s s' : Shared} {c c' : Collector}
  {pc : CollectorPc}

theorem Collector.Acts.row (h : c.Acts config s pc s' c') (f : FileId) :
    RowChange (s.files f) (s'.files f) := by
  rcases h.files with heq | ⟨remote, hreg⟩
  · rw [heq]
    exact .keep _
  · exact (registerDiscovery_change hreg).row f

/-- Every event changes each row at most as the ingestion repository allows. -/
theorem World.Moves.row {w w' : World} {e : CollectionEvent} (h : w.Moves config policy e w')
    (f : FileId) : RowChange (w.shared.files f) (w'.shared.files f) := by
  cases h with
  | collect => exact .keep _
  | reply hc hstep =>
    rcases Program.step_durable hstep with rfl | ⟨i, next, hact⟩
    · exact .keep _
    · exact (Collector.acts_of_act hact).row f
  | ingest hnext => exact Lifecycle.next_row hnext f
  | die hnext => exact Lifecycle.next_row hnext f
  | recover hnext => exact Lifecycle.next_row hnext f
  | loseLease => exact .keep _

end Rows

/-! ## What an awaited advance has seen -/

/-- A file that the checkpoint of the scope may pass. -/
def Passable (files : Files) (scope : CollectionScope) (slot : Slot) : Prop :=
  isUnknown slot.remote = true ∨ withinRange scope slot.remote = false ∨
    isTerminal files slot.file scope.archiveOnly = true

theorem Passable.mono {files files' : Files} {scope : CollectionScope} {slot : Slot}
    (h : Passable files scope slot) (hrow : RowChange (files slot.file) (files' slot.file)) :
    Passable files' scope slot := by
  rcases h with hunknown | hrange | hterminal
  · exact .inl hunknown
  · exact .inr (.inl hrange)
  · exact .inr (.inr (RowChange.isTerminal hrow hterminal))

section Decided

variable {config : Config} {policy : IngestionPolicy} {s s' : Shared} {c c' : Collector}
  {pc : CollectorPc}

/-- A collector awaits an advance only past a passable file. -/
def Collector.Decided (files : Files) (c : Collector) : Prop :=
  ∀ slot, c.pc.advances = some slot → Passable files c.scope slot

theorem Collector.decided_of_advances_none (files : Files) (h : c.pc.advances = none) :
    c.Decided files := by
  intro slot hslot
  rw [h] at hslot
  cases hslot

theorem Collector.raise_advances (c : Collector) (slot : Slot) (e : Failure) (pending : Bool) :
    (c.raise slot e pending).pc.advances = none := by
  rcases c.raise_cases slot e pending with h | h | ⟨-, h⟩ | ⟨-, h⟩
  all_goals rw [h]; rfl

theorem Collector.handle_advances {e : Failure} (h : c.handle e = some c') :
    c'.pc.advances = none := by
  rcases Collector.handle_cases h with rfl | ⟨status, -, rfl⟩ | ⟨slot, pending, -, rfl⟩
  · rfl
  · rfl
  · exact c.raise_advances slot e pending

/-- Each of the four branches has looked at its file. -/
theorem Collector.Acts.decided (h : c.Acts config s pc s' c') : c'.Decided s'.files := by
  cases h with
  | head hselect =>
    rcases Collector.select_cases hselect with
      ⟨-, rfl⟩ | rfl | ⟨slot, -, -, -, ⟨hunknown, rfl⟩ | ⟨-, rfl⟩⟩
    · exact decided_of_advances_none _ rfl
    · exact decided_of_advances_none _ rfl
    · intro slot' hslot
      cases hslot
      exact .inl hunknown
    · exact decided_of_advances_none _ rfl
  | @advance _ next slot _ _ _ attempt hslot hadvance hnext =>
    -- After an advance the collector stands at the loop head or ends.
    cases hnext <;> exact decided_of_advances_none _ rfl
  | @checkTerminal slot =>
    rcases c.decide_cases config slot (isTerminal s.files slot.file c.scope.archiveOnly) with
      ⟨hskip, h⟩ | h | ⟨-, h⟩
    · rw [h]
      intro slot' hslot
      cases hslot
      rcases hskip with hrange | ⟨hterminal, -⟩
      · exact .inr (.inl hrange)
      · exact .inr (.inr hterminal)
    · rw [h]
      exact decided_of_advances_none _ rfl
    · rw [h]
      exact decided_of_advances_none _ rfl
  | chargeBudget hok =>
    rcases c.budgeted_cases config _ _ _ with h | ⟨-, -, h⟩ | ⟨-, -, h⟩
    all_goals rw [h]; exact decided_of_advances_none _ rfl
  | raised hingest hreturned => exact decided_of_advances_none _ (c.raise_advances _ _ _)
  | @settle pc slot transferred _ _ budget hpc hok =>
    refine decided_of_advances_none _ ?_
    cases pc with
    | settle slot result =>
      simp only [Collector.settledBy]
      split <;> rfl
    | errorSettle slot transferred pending =>
      cases pending <;> rfl
    | budgetSettle slot transferred => rfl
    | _ => cases hpc
  | noteTerminal hterminal =>
    intro slot' hslot
    cases hslot
    exact .inr (.inr hterminal)
  | @errorCheck slot =>
    by_cases hterminal : isTerminal s.files slot.file c.scope.archiveOnly = true
    · rw [if_pos hterminal]
      intro slot' hslot
      cases hslot
      exact .inr (.inr hterminal)
    · rw [if_neg hterminal]
      exact decided_of_advances_none _ rfl
  | nextPage hadvance hpc =>
    rcases hpc with rfl | rfl
    · exact decided_of_advances_none _ rfl
    · exact decided_of_advances_none _ rfl
  | _ => exact decided_of_advances_none _ rfl

theorem Collector.Decided.mono {files files' : Files} (h : c.Decided files)
    (hrow : ∀ f, RowChange (files f) (files' f)) : c.Decided files' :=
  fun slot hslot => (h slot hslot).mono (hrow slot.file)

def World.Decided (w : World) : Prop :=
  ∀ p c, w.collectors p = some c → c.Decided w.shared.files

theorem World.Decided.next {w w' : World} {e : CollectionEvent} (h : w.Decided)
    (hnext : w.next config policy e = some w') : w'.Decided := by
  have hmoves := World.moves_of_next hnext
  have hrow := hmoves.row
  cases hmoves with
  | collect hfree hidle =>
    intro q d hd
    rcases update_some_eq_some hd with ⟨rfl, rfl⟩ | ⟨-, hd⟩
    · exact Collector.decided_of_advances_none _ rfl
    · exact h q d hd
  | reply hc hstep =>
    intro q d hd
    rcases update_some_eq_some hd with ⟨rfl, rfl⟩ | ⟨-, hd⟩
    · refine Program.step_local (J := fun s c' => c'.Decided s.files) hstep ?_ ?_ ?_
      · exact fun i next hact => (Collector.acts_of_act hact).decided
      · exact fun e he _ => Collector.decided_of_advances_none _ (Collector.handle_advances he)
      · exact fun i f next _ he =>
          Collector.decided_of_advances_none _ (Collector.handle_advances he)
    · exact (h q d hd).mono hrow
  | ingest => exact fun q d hd => (h q d hd).mono hrow
  | die => exact fun q d hd => (h q d (collectors_of_update_none hd)).mono hrow
  | recover => exact fun q d hd => (h q d hd).mono hrow
  | loseLease => exact h

theorem world_decided {ok : World → CollectionEvent → Prop} {w : World}
    (h : Reach (collectionSystem config policy) ok w) : w.Decided := by
  refine h.invariant (P := World.Decided) ?_ ?_
  · rintro w ⟨clock, rfl⟩ p c hc
    cases hc
  · exact fun w e w' hw _ hnext => hw.next hnext

end Decided

/-! ## Moves of a checkpoint -/

/-- The collector `c` awaits the advance of the scope's checkpoint past the file of `slot`. -/
structure World.Passing (w : World) (scope : CollectionScope) (ck : Checkpoint) (p : ProcessId)
    (c : Collector) (slot : Slot) : Prop where
  collector : w.collectors p = some c
  scope : c.scope = scope
  awaits : c.pc.advances = some slot
  cursor : c.cursor = ck.cursor
  index : slot.index = ck.pageOffset

/-- The collector `c` awaits the advance of the scope's checkpoint past the end of `page`. -/
structure World.Turning (w : World) (scope : CollectionScope) (ck : Checkpoint) (p : ProcessId)
    (c : Collector) (page : DiscoveryPage) : Prop where
  collector : w.collectors p = some c
  scope : c.scope = scope
  awaits : c.pc = .advancePage page
  cursor : c.cursor = ck.cursor
  index : page.files.length = ck.pageOffset

section Move

variable {config : Config} {policy : IngestionPolicy} {w w' : World} {e : CollectionEvent}
  {scope : CollectionScope} {ck ck' : Checkpoint}

/-- A boundary moves within a generation past one file of the page that its collector holds, or
from the end of that page to the start of another one. -/
theorem World.Attached.boundary (h : w.Attached) (hnext : w.next config policy e = some w')
    (hck : w.shared.traversals.checkpoints scope = some ck)
    (hck' : w'.shared.traversals.checkpoints scope = some ck')
    (hgen : ck'.generation = ck.generation)
    (hmoved : (ck'.cursor, ck'.pageOffset) ≠ (ck.cursor, ck.pageOffset)) :
    (∃ p c slot, w.Passing scope ck p c slot ∧ ck'.cursor = ck.cursor ∧
        ck'.pageOffset = ck.pageOffset + 1) ∨
      ∃ p c page, w.Turning scope ck p c page ∧ ck'.pageOffset = 0 := by
  have hsame : w'.shared.traversals.checkpoints scope = w.shared.traversals.checkpoints scope →
      False := by
    intro heq
    rw [heq, hck] at hck'
    cases hck'
    exact hmoved rfl
  -- Only the calls of collectors write checkpoints.
  cases World.moves_of_next hnext with
  | collect => exact (hsame rfl).elim
  | ingest => exact (hsame rfl).elim
  | die => exact (hsame rfl).elim
  | recover => exact (hsame rfl).elim
  | loseLease => exact (hsame rfl).elim
  | @reply p r c c' s hc hstep =>
    rcases Program.step_durable hstep with rfl | ⟨i, next, hact⟩
    · exact (hsame rfl).elim
    · have hacts := Collector.acts_of_act hact
      have hown := h.scope p c hc
      generalize hpc : c.pc = pc at hacts hown
      cases hacts.writes with
      | begin =>
        -- An attempt that moves the boundary rolls the generation over.
        rcases Traversals.beginAttempt_checkpoint hck hck' with rfl | hroll
        · exact (hmoved rfl).elim
        · omega
      | @advance _ slot _ _ traversals attempt hslot hok =>
        have hactive : pc.active = true := by
          cases pc <;> first | rfl | cases hslot
        rcases Traversals.advanceAttempt_checkpoint hok (hown hactive) hck hck' with
          rfl | ⟨hscope, hcursor, hoffset, hcursor', hoffset'⟩
        · exact (hmoved rfl).elim
        · refine .inl ⟨p, c, slot, ⟨hc, hscope, hpc ▸ hslot, hcursor, hoffset⟩, ?_, ?_⟩
          · exact hcursor'.trans hcursor
          · exact hoffset'.trans (congrArg (· + 1) hoffset)
      | @turn page _ traversals attempt hok =>
        rcases Traversals.advanceAttempt_checkpoint hok (hown rfl) hck hck' with
          rfl | ⟨hscope, hcursor, hoffset, -, hoffset'⟩
        · exact (hmoved rfl).elim
        · exact .inr ⟨p, c, page, ⟨hc, hscope, hpc, hcursor, hoffset⟩, hoffset'⟩
      | finish hok =>
        obtain ⟨hcursor, hoffset⟩ := Traversals.finishAttempt_checkpoint hok hck hck'
        rw [hcursor, hoffset] at hmoved
        exact (hmoved rfl).elim
      | _ => exact (hsame rfl).elim

/-- Over every run of collectors, their ingests, crashes and lost leases: a checkpoint that moves
from one offset of a page to the next passes a file that is unknown, out of range, or terminal for
the operation; it leaves a page only from its end; and no superseded attempt moves it. -/
theorem checkpoint_never_skips (hreach : Reach (collectionSystem config policy) Any w)
    (hnext : w.next config policy e = some w') :
    (∀ scope ck ck', w.shared.traversals.checkpoints scope = some ck →
      w'.shared.traversals.checkpoints scope = some ck' → ck'.generation = ck.generation →
      (ck'.cursor, ck'.pageOffset) ≠ (ck.cursor, ck.pageOffset) →
      (ck'.cursor = ck.cursor ∧ ck'.pageOffset = ck.pageOffset + 1 ∧ ∃ p c slot,
          w.Passing scope ck p c slot ∧ Passable w.shared.files scope slot) ∨
        (ck'.pageOffset = 0 ∧ ∃ p c page, w.Turning scope ck p c page)) ∧
      ∀ older ∈ w.shared.traversals.attempts, ∀ newer ∈ w.shared.traversals.attempts,
        older.id < newer.id → newer.scope = older.scope →
        ∀ expectedCursor expectedOffset cursor pageOffset recognizedDelta unknownDelta,
          ∃ failure, w.shared.traversals.advanceAttempt older.id expectedCursor expectedOffset
            cursor pageOffset recognizedDelta unknownDelta = .error failure := by
  have hattached := world_attached hreach
  have hdecided := world_decided hreach
  refine ⟨?_, ?_⟩
  · intro scope ck ck' hck hck' hgen hmoved
    rcases hattached.boundary hnext hck hck' hgen hmoved with
      ⟨p, c, slot, hpass, hcursor, hoffset⟩ | ⟨p, c, page, hturn, hoffset⟩
    · refine .inl ⟨hcursor, hoffset, p, c, slot, hpass, ?_⟩
      rw [← hpass.scope]
      exact hdecided p c hpass.collector slot hpass.awaits
    · exact .inr ⟨hoffset, p, c, page, hturn⟩
  · intro older hold newer hnew hlt hsame expectedCursor expectedOffset cursor pageOffset
      recognizedDelta unknownDelta
    exact hattached.ordered.advance_superseded hold hnew hlt hsame _ _ _ _ _ _

end Move

/-! ## A sample run -/

def samplePolicy : CollectionPolicy where
  maximumFilesPerSourceRun := 10
  maximumDiscoveryRecordsPerSourceRun := 100
  maximumArchiveObjectBytes := 20
  maximumTransferChunkBytes := 2
  maximumTransferProtocolOverheadBytes := 3
  maximumHttpTransferProtocolOverheadBytes := 3
  maximumChargedBytesPerSourceRun := 50
  maximumChargedBytesPerSourceDay := 90
  maximumSourceIdentitiesPerSourceDay := 10
  maximumTransferAttemptsPerSourceDay := 10
  maximumSuccessesPerSourceDay := 10
  files_pos := by decide
  files_le := by decide
  archive_pos := by decide
  chunk_pos := by decide
  covered := by decide
  ordered := by decide

def sampleConfig : Config := ⟨sampleRemote.retailerId, samplePolicy⟩

/-- The ordinary collection of the sample portal. -/
def sampleScope : CollectionScope where
  portalIds := [sampleRemote.portalId]
  rangeSince := none
  rangeUntil := none
  archiveOnly := false
  endpoints := rfl
  ordered := by decide
  ordinary := fun _ => rfl

/-- A last page with the given files. -/
def lastPageOf (files : List RemoteFile) : CollectorInput := .page ⟨files, none, true⟩

/-- An entry of an unknown format. -/
def unknownRemote : RemoteFile := { sampleRemote with documentType := .unknown }

/-- All readings of an operation at one time. -/
def readingsAt (t : Time) : CollectorInput := .readings ⟨t, t, t, le_refl t, le_refl t⟩

/-- The answers that bring a collector from its start to the call for the listed file. -/
def callReplies (remote : RemoteFile) (t : Time) : List (Reply CollectorInput Fault) :=
  [.ok .done, .ok (lastPageOf [remote]), .ok .done, .ok .done, .ok (readingsAt t), .ok .done,
    .ok (readingsAt t), .ok .done]

/-- A collector of process `p` up to the end of its ingest of the sample file. -/
def collectedEvents (p : ProcessId) : List CollectionEvent :=
  .collect p sampleScope :: (callReplies sampleRemote 0).map (.reply p) ++
    (ingestReplies "aa" 200 ++ plainReplies 2).map (.ingest p)

/-- A whole collection of the sample file. -/
def collectionEvents : List CollectionEvent :=
  collectedEvents 0 ++ ([.ok .done, .ok (readingsAt 1), .ok .done, .ok .done, .ok .done] :
    List (Reply CollectorInput Fault)).map (.reply 0)

/-- The same file in the next generation, up to the advance that skips it. -/
def skippingEvents : List CollectionEvent :=
  collectionEvents ++ [.reply 0 (.ok .done), .reply 0 (.ok .done), .reply 0 (.ok .done),
    .collect 1 sampleScope] ++ ([.ok .done, .ok (lastPageOf [sampleRemote]), .ok .done, .ok .done] :
      List (Reply CollectorInput Fault)).map (.reply 1)

def worldAfter (events : List CollectionEvent) : World :=
  (collectionSystem sampleConfig ⟨4⟩).after (.start 0) events

/-- The success branch passes the collected file, and a later attempt skips it as terminal. -/
theorem checkpoint_never_skips_terminal :
    (∃ p c slot, (worldAfter (collectionEvents.dropLast)).Passing sampleScope .initial p c slot ∧
        Passable (worldAfter (collectionEvents.dropLast)).shared.files sampleScope slot ∧
        statusOf (worldAfter (collectionEvents.dropLast)).shared.files 1 = some .completed) ∧
      ∃ p c slot, (worldAfter skippingEvents).Passing sampleScope ⟨2, none, 0, 0, 0, false⟩ p c
          slot ∧
        Passable (worldAfter skippingEvents).shared.files sampleScope slot ∧
        statusOf (worldAfter skippingEvents).shared.files 1 = some .completed := by
  have hpasses : ∀ (events : List CollectionEvent) (p : ProcessId) (ck ck' : Checkpoint),
      ((collectionSystem sampleConfig ⟨4⟩).run (.start 0) events).isSome = true →
      (worldAfter events).shared.traversals.checkpoints sampleScope = some ck →
      (((worldAfter events).next sampleConfig ⟨4⟩ (.reply p (.ok .done))).bind fun w =>
        w.shared.traversals.checkpoints sampleScope) = some ck' →
      ck'.generation = ck.generation → ck.pageOffset < ck'.pageOffset →
      ∃ p c slot, (worldAfter events).Passing sampleScope ck p c slot ∧
        Passable (worldAfter events).shared.files sampleScope slot := by
    intro events p ck ck' hrun hbefore hafter hgeneration hlt
    obtain ⟨w', hnext, hafter⟩ := Option.bind_eq_some_iff.mp hafter
    have hmoved : (ck'.cursor, ck'.pageOffset) ≠ (ck.cursor, ck.pageOffset) :=
      fun h => Nat.ne_of_gt hlt (Prod.ext_iff.mp h).2
    rcases (checkpoint_never_skips (reach_after events ⟨0, rfl⟩ hrun) hnext).1 sampleScope ck ck'
      hbefore hafter hgeneration hmoved with ⟨-, -, hpass⟩ | ⟨hzero, -⟩
    · exact hpass
    · rw [hzero] at hlt
      exact absurd hlt (Nat.not_lt_zero _)
  obtain ⟨p, c, slot, hpass, hpassable⟩ := hpasses collectionEvents.dropLast 0 .initial
    ⟨1, none, 1, 1, 0, false⟩ (by decide +kernel) (by decide +kernel) (by decide +kernel) rfl
    (by decide)
  obtain ⟨q, d, other, hskip, hskippable⟩ := hpasses skippingEvents 1 ⟨2, none, 0, 0, 0, false⟩
    ⟨2, none, 1, 1, 0, false⟩ (by decide +kernel) (by decide +kernel) (by decide +kernel) rfl
    (by decide)
  exact ⟨⟨p, c, slot, hpass, hpassable, by decide +kernel⟩,
    ⟨q, d, other, hskip, hskippable, by decide +kernel⟩⟩

end Makolet.Collection
