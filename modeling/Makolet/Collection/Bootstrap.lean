import Makolet.Collection.Calls

/-!
# Catalog bootstrap and the checkpoint

A collected file should be bootstrapped into the catalog before the checkpoint passes it. The
success branch of the loop does so. The two branches that pass a file because they find it terminal,
the skip of a later attempt and the exception handler, take the status for the whole story: a file
that is completed but whose bootstrap was cut off passes there without one.

`bootstrap_precedes` says that this is the only way: in every run in which no collector dies or
raises between the completion of a file by its call and the bootstrap of the file, under the lease,
every completed file that the checkpoint passed is in the catalog.
-/

set_option autoImplicit false

namespace Makolet.Collection

open Makolet.Domain Makolet.Lib Makolet.Lib.Table Makolet.Ingestion Makolet.Normalized

/-- The files that a checkpoint passed while completed, in a scope without `archive_only`, have been
bootstrapped. -/
def World.BootstrapPrecedes (w : World) : Prop :=
  ∀ pass ∈ w.shared.history.passes, pass.scope.archiveOnly = false →
    pass.status = some .completed → pass.file ∈ w.shared.catalog

instance (w : World) : Decidable w.BootstrapPrecedes :=
  inferInstanceAs (Decidable (∀ pass ∈ w.shared.history.passes, _))

/-- The advances outside of the success branch. -/
def CollectorPc.skips : CollectorPc → Option Slot
  | .advanceUnknown slot | .advanceSkip slot | .errorAdvance slot => some slot
  | _ => none

/-- The file of a call without `archive_only` the bootstrap of which the collector has still to
make. -/
def Collector.opened (c : Collector) : Option FileId :=
  if c.scope.archiveOnly then none
  else match c.pc with
    | .process slot | .settle slot _ | .bootstrap slot _ _ => some slot.file
    | _ => none

/-- The ingest call of the process has raised. -/
def Shared.callRaised (s : Shared) (p : ProcessId) : Bool :=
  (s.life.ingests p).any fun ingest => match ingest.pc with
    | .returned (.raised _) => true
    | _ => false

/-- An exception leaves the success branch: the awaited operation or the ingest call raises, or the
answer to an operation before the bootstrap is lost. -/
def Collector.breaksOff (config : Config) (s : Shared) (c : Collector) :
    Reply CollectorInput Fault → Bool
  | .raise _ => true
  | .lost _ _ => match c.pc with
    | .bootstrap _ _ _ => false
    | _ => true
  | .ok input => s.callRaised c.owner || match c.act config s input with
    | some (.error _) => true
    | _ => false

/-- The operations that a collector without `archive_only` makes under the lease: it starts a call,
or it passes a completed file outside of the success branch. -/
def Collector.underLease (files : Files) (c : Collector) : Bool :=
  !c.scope.archiveOnly && match c.pc with
    | .call _ _ _ => true
    | pc => pc.skips.any fun slot =>
      Decidable.decide (statusOf files slot.file = some .completed)

/-- The side condition of a step. From its call on and until its bootstrap no process dies and no
exception leaves the success branch while the file is completed, and the lease is not lost. -/
def FinishesCalls (config : Config) (w : World) : CollectionEvent → Prop
  | .reply p r => ∀ c ∈ w.collectors p,
      (∀ f ∈ c.opened, statusOf w.shared.files f = some .completed →
        c.breaksOff config w.shared r = false) ∧
      (r.isRaise = false → c.underLease w.shared.files = true → w.lease = some p)
  | .die p => ∀ c ∈ w.collectors p, ∀ f ∈ c.opened, statusOf w.shared.files f ≠ some .completed
  | .loseLease => ∀ p ∈ w.lease, ∀ c ∈ w.collectors p, c.opened = none
  | _ => True

instance (config : Config) (w : World) (e : CollectionEvent) :
    Decidable (FinishesCalls config w e) :=
  match e with
  | .reply p r => inferInstanceAs (Decidable (∀ c ∈ w.collectors p,
      (∀ f ∈ c.opened, statusOf w.shared.files f = some .completed →
        c.breaksOff config w.shared r = false) ∧
      (r.isRaise = false → c.underLease w.shared.files = true → w.lease = some p)))
  | .die p => inferInstanceAs (Decidable (∀ c ∈ w.collectors p, ∀ f ∈ c.opened,
      statusOf w.shared.files f ≠ some .completed))
  | .loseLease => inferInstanceAs (Decidable (∀ p ∈ w.lease, ∀ c ∈ w.collectors p, c.opened = none))
  | .collect _ _ | .ingest _ _ | .recover _ => inferInstanceAs (Decidable True)

/-! ## The success branch -/

/-- What the success branch knows about its file. -/
def CollectorPc.Knows (catalog : List FileId) : CollectorPc → Prop
  | .settle _ result | .bootstrap _ result _ => result.status = .completed
  | .noteTerminal slot _ | .advanceDone slot _ => slot.file ∈ catalog
  | _ => True

def Collector.Bootstraps (catalog : List FileId) (c : Collector) : Prop :=
  c.scope.archiveOnly = false → c.pc.Knows catalog

section Step

variable {config : Config} {policy : IngestionPolicy} {s s' : Shared} {c c' : Collector}
  {pc : CollectorPc}

/-- The catalog grows by a committed bootstrap only. -/
theorem Collector.Acts.catalog (h : c.Acts config s pc s' c') :
    s'.catalog = s.catalog ∨ ∃ slot result budget, pc = .bootstrap slot result budget ∧
      result.status = .completed ∧ s'.catalog = slot.file :: s.catalog := by
  cases h.writes with
  | bootstrap hresult => exact .inr ⟨_, _, _, rfl, hresult, rfl⟩
  | _ => exact .inl rfl

theorem Collector.Acts.catalog_subset (h : c.Acts config s pc s' c') : s.catalog ⊆ s'.catalog := by
  rcases h.catalog with hcat | ⟨slot, result, budget, -, -, hcat⟩
  · rw [hcat]
    exact List.Subset.refl _
  · rw [hcat]
    exact List.subset_cons_self _ _

theorem CollectorPc.Knows.mono {catalog catalog' : List FileId} (h : pc.Knows catalog)
    (hsub : catalog ⊆ catalog') : pc.Knows catalog' := by
  cases pc with
  | settle slot result => exact h
  | bootstrap slot result budget => exact h
  | noteTerminal slot budget => exact hsub h
  | advanceDone slot budget => exact hsub h
  | _ => trivial

theorem Collector.raise_bootstraps (c : Collector) (slot : Slot) (e : Failure) (pending : Bool)
    (catalog : List FileId) : (c.raise slot e pending).Bootstraps catalog := by
  rcases c.raise_cases slot e pending with h | h | ⟨-, h⟩ | ⟨-, h⟩
  all_goals rw [h]; exact fun _ => trivial

theorem Collector.handle_bootstraps {e : Failure} (h : c.handle e = some c')
    (catalog : List FileId) : c'.Bootstraps catalog := by
  rcases Collector.handle_cases h with rfl | ⟨status, -, rfl⟩ | ⟨slot, pending, -, rfl⟩
  · exact fun _ => trivial
  · exact fun _ => trivial
  · exact c.raise_bootstraps slot e pending catalog

/-- The success branch: the call returned a completed file, and its bootstrap puts the file into
the catalog before the loop looks at it again. -/
theorem Collector.Acts.bootstraps (h : c.Acts config s c.pc s' c') (hold : c.Bootstraps s.catalog)
    (hcalling : c.Calling s.life)
    (hmode : ∀ ingest, s.life.ingests c.owner = some ingest →
      ingest.pc.inMode ingest.archiveOnly = true) : c'.Bootstraps s'.catalog := by
  generalize hpc : c.pc = pc at h
  cases h with
  | head hselect =>
    rcases Collector.select_cases hselect with
      ⟨-, rfl⟩ | rfl | ⟨slot, -, -, -, ⟨-, rfl⟩ | ⟨-, rfl⟩⟩
    all_goals exact fun _ => trivial
  | advance hslot hadvance hnext => cases hnext <;> exact fun _ => trivial
  | @checkTerminal slot =>
    rcases c.decide_cases config slot (isTerminal s.files slot.file c.scope.archiveOnly) with
      ⟨-, h⟩ | h | ⟨-, h⟩
    all_goals rw [h]; exact fun _ => trivial
  | chargeBudget hok =>
    rcases c.budgeted_cases config _ _ _ with h | ⟨-, -, h⟩ | ⟨-, -, h⟩
    all_goals rw [h]; exact fun _ => trivial
  | @processed slot ingest result hingest hreturned =>
    intro honly
    obtain ⟨ingest', hingest', hsame, -⟩ := hcalling.in_call hpc
    cases hingest.symm.trans hingest'
    have hin := hmode ingest hingest
    rw [hreturned, hsame, show c.scope.archiveOnly = false from honly] at hin
    exact @of_decide_eq_true (result.status = .completed) _ hin
  | raised hingest hreturned => exact c.raise_bootstraps _ _ _ _
  | @settle pc slot transferred _ _ budget hsettles hok =>
    cases pc with
    | settle slot result =>
      simp only [Collector.settledBy]
      split
      · rename_i harchive
        exact fun honly => absurd harchive (Bool.eq_false_iff.mp honly)
      · intro honly
        have hknown := hold honly
        rw [hpc] at hknown
        exact hknown
    | errorSettle slot transferred pending => cases pending <;> exact fun _ => trivial
    | budgetSettle slot transferred => exact fun _ => trivial
    | _ => cases hsettles
  | @bootstrap slot result budget =>
    intro honly
    have hknown := hold honly
    rw [hpc] at hknown
    have hcompleted : result.status = .completed := hknown
    rw [if_pos hcompleted]
    exact List.mem_cons_self
  | noteTerminal hterminal =>
    intro honly
    have hknown := hold honly
    rw [hpc] at hknown
    exact hknown
  | @errorCheck slot =>
    intro _
    dsimp only [Collector.goto]
    split <;> trivial
  | nextPage hadvance hnext => rcases hnext with rfl | rfl <;> exact fun _ => trivial
  | _ => exact fun _ => trivial

end Step

/-! ## Open calls -/

section Opened

variable {config : Config} {s s' : Shared} {c c' : Collector} {f : FileId}

theorem Collector.opened_eq_some (h : c.opened = some f) :
    c.scope.archiveOnly = false ∧ ∃ slot : Slot, slot.file = f ∧
      (c.pc = .process slot ∨ (∃ result, c.pc = .settle slot result) ∨
        ∃ result budget, c.pc = .bootstrap slot result budget) := by
  unfold Collector.opened at h
  split at h
  · cases h
  · rename_i honly
    refine ⟨Bool.eq_false_iff.mpr honly, ?_⟩
    split at h
    · rename_i slot hpc
      exact ⟨slot, Option.some.inj h, .inl hpc⟩
    · rename_i slot result hpc
      exact ⟨slot, Option.some.inj h, .inr (.inl ⟨result, hpc⟩)⟩
    · rename_i slot result budget hpc
      exact ⟨slot, Option.some.inj h, .inr (.inr ⟨result, budget, hpc⟩)⟩
    · cases h

/-- Only these operations belong to an open call. -/
def CollectorPc.opens : CollectorPc → Bool
  | .process _ | .settle _ _ | .bootstrap _ _ _ => true
  | _ => false

theorem Collector.opened_eq_none (h : c.pc.opens = false) : c.opened = none := by
  cases hopened : c.opened with
  | none => rfl
  | some f =>
    obtain ⟨-, slot, -, hpc | ⟨result, hpc⟩ | ⟨result, budget, hpc⟩⟩ :=
      Collector.opened_eq_some hopened
    all_goals rw [hpc] at h; cases h

theorem Collector.raise_opened (c : Collector) (slot : Slot) (e : Failure) (pending : Bool) :
    (c.raise slot e pending).opened = none := by
  refine Collector.opened_eq_none ?_
  rcases c.raise_cases slot e pending with h | h | ⟨-, h⟩ | ⟨-, h⟩
  all_goals rw [h]; rfl

theorem CollectorPc.opens_of_skips {pc : CollectorPc} {slot : Slot} (h : pc.skips = some slot) :
    pc.opens = false := by
  cases pc with
  | advanceUnknown | advanceSkip | errorAdvance => rfl
  | _ => cases h

theorem Collector.underLease_of_call {files : Files} {slot : Slot} {reserved : Nat}
    {retrying : Bool} (honly : c.scope.archiveOnly = false)
    (hpc : c.pc = .call slot reserved retrying) : c.underLease files = true := by
  rw [Collector.underLease, honly, hpc]
  rfl

theorem Collector.underLease_of_skips {files : Files} {slot : Slot}
    (honly : c.scope.archiveOnly = false) (hskips : c.pc.skips = some slot)
    (hstatus : statusOf files slot.file = some .completed) : c.underLease files = true := by
  rw [Collector.underLease, honly, Bool.not_false, Bool.true_and]
  split
  · rfl
  · rw [hskips, Option.any_some]
    exact decide_eq_true hstatus

/-- No handler stands in an open call. -/
theorem Collector.handle_opened {e : Failure} (h : c.handle e = some c') : c'.opened = none := by
  rcases Collector.handle_cases h with rfl | ⟨status, -, rfl⟩ | ⟨slot, pending, -, rfl⟩
  · exact Collector.opened_eq_none rfl
  · exact Collector.opened_eq_none rfl
  · exact c.raise_opened slot e pending

/-- A call is open that was open before, or that the operation has started. -/
theorem Collector.Acts.opened (h : c.Acts config s c.pc s' c') (hopened : c'.opened = some f) :
    c.opened = some f ∨ (c.scope.archiveOnly = false ∧
      ∃ slot reserved retrying, c.pc = .call slot reserved retrying) := by
  obtain ⟨pc, hpc⟩ : ∃ pc, c.pc = pc := ⟨_, rfl⟩
  rw [hpc] at h
  have hquiet {next : Collector} (hnext : next.pc.opens = false) (heq : c' = next) : False := by
    rw [heq, Collector.opened_eq_none hnext] at hopened
    cases hopened
  cases h with
  | head hselect =>
    rcases Collector.select_cases hselect with
      ⟨-, heq⟩ | heq | ⟨slot, -, -, -, ⟨-, heq⟩ | ⟨-, heq⟩⟩
    all_goals exact (hquiet (by rfl) heq).elim
  | advance hslot hadvance hnext => cases hnext <;> exact (hquiet (by rfl) rfl).elim
  | @checkTerminal slot =>
    rcases c.decide_cases config slot (isTerminal s.files slot.file c.scope.archiveOnly) with
      ⟨-, heq⟩ | heq | ⟨-, heq⟩
    all_goals exact (hquiet (by rfl) heq).elim
  | chargeBudget hok =>
    rcases c.budgeted_cases config _ _ _ with heq | ⟨-, -, heq⟩ | ⟨-, -, heq⟩
    all_goals exact (hquiet (by rfl) heq).elim
  | @call slot reserved retrying _ hcall =>
    obtain ⟨honly, -⟩ := Collector.opened_eq_some hopened
    exact .inr ⟨honly, slot, reserved, retrying, hpc⟩
  | processed hingest hreturned =>
    rw [← hopened]
    simp only [Collector.opened, Collector.goto, hpc]
    exact .inl rfl
  | raised hingest hreturned =>
    rw [c.raise_opened] at hopened
    cases hopened
  | @settle pc slot transferred _ _ budget hsettles hok =>
    cases pc with
    | settle slot result =>
      refine .inl ?_
      rw [← hopened, Collector.settledBy]
      split
      · rename_i honly
        rw [Collector.opened, if_pos honly, Collector.opened, if_pos honly]
      · rename_i honly
        have hscope : ¬ (c.goto (.bootstrap slot result budget)).scope.archiveOnly = true := honly
        rw [Collector.opened, if_neg honly, hpc, Collector.opened, if_neg hscope]
        rfl
    | errorSettle slot transferred pending =>
      cases pending <;> exact (hquiet (by rfl) rfl).elim
    | budgetSettle slot transferred => exact (hquiet (by rfl) rfl).elim
    | _ => cases hsettles
  | errorCheck =>
    refine (hquiet ?_ rfl).elim
    dsimp only [Collector.goto]
    split <;> rfl
  | nextPage hadvance hnext => rcases hnext with rfl | rfl <;> exact (hquiet (by rfl) rfl).elim
  | _ => exact (hquiet (by rfl) rfl).elim

/-- A bootstrap puts its file into the catalog. -/
theorem Collector.Acts.bootstrapped {slot : Slot} {result : IngestionResult} {budget : ChargeBudget}
    (h : c.Acts config s (.bootstrap slot result budget) s' c')
    (hresult : result.status = .completed) : slot.file ∈ s'.catalog := by
  cases h with
  | advance hslot => cases hslot
  | settle hpc => cases hpc
  | bootstrap =>
    rw [if_pos hresult]
    exact List.mem_cons_self
  | observe _ hpc => rcases hpc with hpc | hpc <;> cases hpc

/-- An open call stays open until its bootstrap, unless the ingest has raised. -/
theorem Collector.Acts.stays_open (h : c.Acts config s c.pc s' c') (hopened : c.opened = some f)
    (hold : c.Bootstraps s.catalog) (hraised : s.callRaised c.owner = false) :
    c'.opened = some f ∨ f ∈ s'.catalog := by
  obtain ⟨honly, slot, rfl, hpc | ⟨result, hpc⟩ | ⟨result, budget, hpc⟩⟩ :=
    Collector.opened_eq_some hopened
  · rw [hpc] at h
    refine .inl ?_
    cases h with
    | advance hslot => cases hslot
    | processed hingest hreturned =>
      rw [Collector.opened, if_neg (by exact Bool.eq_false_iff.mp honly)]
      rfl
    | raised hingest hreturned =>
      rw [Shared.callRaised, hingest, Option.any_some, hreturned] at hraised
      cases hraised
    | settle hsettles => cases hsettles
    | observe _ hobserve => rcases hobserve with hobserve | hobserve <;> cases hobserve
  · rw [hpc] at h
    refine .inl ?_
    cases h with
    | advance hslot => cases hslot
    | settle hsettles hok =>
      rw [Collector.settledBy, if_neg (Bool.eq_false_iff.mp honly), Collector.opened,
        if_neg (by exact Bool.eq_false_iff.mp honly)]
      rfl
    | observe _ hobserve => rcases hobserve with hobserve | hobserve <;> cases hobserve
  · rw [hpc] at h
    have hknown := hold honly
    rw [hpc] at hknown
    exact .inr (h.bootstrapped hknown)

end Opened

/-! ## The invariant -/

/-- Every completed file is in the catalog or belongs to an open call, which is under the lease; a
collector past its bootstrap knows the file in the catalog. -/
structure World.Cataloged (w : World) : Prop where
  completed : ∀ f, statusOf w.shared.files f = some .completed →
    f ∈ w.shared.catalog ∨ ∃ p c, w.collectors p = some c ∧ c.opened = some f
  leased : ∀ p c, w.collectors p = some c → c.opened ≠ none → w.lease = some p
  bootstraps : ∀ p c, w.collectors p = some c → c.Bootstraps w.shared.catalog
  passes : w.BootstrapPrecedes

section Invariant

variable {config : Config} {policy : IngestionPolicy} {s s' : Shared} {c c' : Collector}
  {w w' : World} {pc : CollectorPc}

theorem Collector.Acts.completed (h : c.Acts config s pc s' c') {f : FileId}
    (hf : statusOf s'.files f = some .completed) : statusOf s.files f = some .completed := by
  rcases h.files with heq | ⟨remote, hreg⟩
  · rwa [heq] at hf
  · by_cases hfile : f = remote.fileId
    · subst hfile
      exact registerDiscovery_completed hreg hf
    · rwa [statusOf, (registerDiscovery_change hreg).2 f hfile] at hf

/-- The passes that an operation records: one for each advance past a file. -/
theorem Collector.Acts.passes (h : c.Acts config s pc s' c') :
    s'.history.passes = s.history.passes ∨ ∃ slot, pc.advances = some slot ∧
      s'.history.passes =
        ⟨c.scope, slot.file, statusOf s.files slot.file⟩ :: s.history.passes := by
  cases h.writes with
  | advance hslot hok => exact .inr ⟨_, hslot, rfl⟩
  | _ => exact .inl rfl

/-- An advance stands in the success branch, which knows its file, or in a skipping branch. -/
theorem CollectorPc.advances_cases {slot : Slot} (h : pc.advances = some slot) :
    (∃ budget, pc = .advanceDone slot budget) ∨ pc.skips = some slot := by
  cases pc with
  | advanceDone slot' budget =>
    cases h
    exact .inl ⟨budget, rfl⟩
  | advanceUnknown | advanceSkip | errorAdvance => exact .inr h
  | _ => cases h

/-- The passed files after an operation: a completed file that a skipping branch passes belongs to
no open call, because the branch has the lease. -/
theorem World.Cataloged.pass (h : w.Cataloged) {p : ProcessId} (hc : w.collectors p = some c)
    (hacts : c.Acts config w.shared c.pc s' c')
    (hlease : c.underLease w.shared.files = true → w.lease = some p) :
    ∀ pass ∈ s'.history.passes, pass.scope.archiveOnly = false →
      pass.status = some .completed → pass.file ∈ s'.catalog := by
  have hsub := hacts.catalog_subset
  rcases hacts.passes with heq | ⟨slot, hslot, heq⟩
  · rw [heq]
    exact fun pass hpass honly hstatus => hsub (h.passes pass hpass honly hstatus)
  · intro pass hpass honly hstatus
    rw [heq] at hpass
    rcases List.mem_cons.mp hpass with rfl | hpass
    · refine hsub ?_
      rcases CollectorPc.advances_cases hslot with ⟨budget, hpc⟩ | hskips
      · have hknown := h.bootstraps p c hc honly
        rw [hpc] at hknown
        exact hknown
      · rcases h.completed slot.file hstatus with hcat | ⟨q, d, hd, hopened⟩
        · exact hcat
        -- The lease is with both the open call and the skipping branch.
        · have hheld := h.leased q d hd (by rw [hopened]; exact Option.some_ne_none _)
          have hmine := hlease (Collector.underLease_of_skips honly hskips hstatus)
          cases Option.some.inj (hmine.symm.trans hheld)
          cases Option.some.inj (hc.symm.trans hd)
          rw [Collector.opened_eq_none (CollectorPc.opens_of_skips hskips)] at hopened
          cases hopened
    · exact hsub (h.passes pass hpass honly hstatus)

/-- The lease behind an event of `p` is still that of the others. -/
theorem World.released_of_ne {p q : ProcessId} (h : w.lease = some q) (hne : q ≠ p) :
    w.released p = some q := by
  rw [World.released, h, if_neg fun heq => hne (Option.some.inj heq)]

/-- The other collectors behind an answer to the collector of `p`. -/
theorem World.Cataloged.leased_of_ne (h : w.Cataloged) {p q : ProcessId} {d : Collector}
    (hd : w.collectors q = some d) (hopened : d.opened ≠ none) (hne : q ≠ p) :
    (if c'.pc = .returned then w.released p else w.lease) = some q := by
  have hheld := h.leased q d hd hopened
  split
  · exact World.released_of_ne hheld hne
  · exact hheld

theorem World.Cataloged.reply (h : w.Cataloged) (hcalling : w.Calling)
    {p : ProcessId} {r : Reply CollectorInput Fault}
    (hok : FinishesCalls config w (.reply p r)) (hc : w.collectors p = some c)
    (hstep : (collectorProgram config).step w.shared c r = some (s', c')) :
    World.Cataloged ⟨s', if c'.pc = .returned then w.released p else w.lease,
      Function.update w.collectors p (some c')⟩ := by
  have hmode : ∀ ingest, w.shared.life.ingests c.owner = some ingest →
      ingest.pc.inMode ingest.archiveOnly = true := hcalling.mode c.owner
  obtain ⟨hbroken, hlease⟩ := hok c hc
  -- A committed operation keeps what is completed, if its own open call is accounted for.
  have hcompleted (hfiles : ∀ f, statusOf s'.files f = some .completed →
        statusOf w.shared.files f = some .completed)
      (hsub : w.shared.catalog ⊆ s'.catalog)
      (hself : ∀ f, statusOf w.shared.files f = some .completed → c.opened = some f →
        c'.opened = some f ∨ f ∈ s'.catalog) :
      ∀ f, statusOf s'.files f = some .completed → f ∈ s'.catalog ∨
        ∃ q d, Function.update w.collectors p (some c') q = some d ∧ d.opened = some f := by
    intro f hf
    rcases h.completed f (hfiles f hf) with hcat | ⟨q, d, hd, hopened⟩
    · exact .inl (hsub hcat)
    · by_cases hq : q = p
      · subst hq
        cases Option.some.inj (hc.symm.trans hd)
        rcases hself f (hfiles f hf) hopened with hkept | hcat
        · exact .inr ⟨q, c', Function.update_self _ _ _, hkept⟩
        · exact .inl hcat
      · exact .inr ⟨q, d, (Function.update_of_ne hq _ _).trans hd, hopened⟩
  -- The others stand as before.
  have hothers {P : ProcessId → Collector → Prop} (hself : P p c')
      (hrest : ∀ q d, q ≠ p → w.collectors q = some d → P q d) :
      ∀ q d, Function.update w.collectors p (some c') q = some d → P q d := by
    intro q d hd
    rcases update_some_eq_some hd with ⟨rfl, rfl⟩ | ⟨hq, hd⟩
    · exact hself
    · exact hrest q d hq hd
  have hclosed (hnone : c'.opened = none) : ∀ q d,
      Function.update w.collectors p (some c') q = some d → d.opened ≠ none →
        (if c'.pc = .returned then w.released p else w.lease) = some q :=
    hothers (fun hopened => absurd hnone hopened)
      fun q d hq hd hopened => h.leased_of_ne hd hopened hq
  rcases Program.step_cases hstep with
    ⟨i, rfl, hact⟩ | ⟨e, he, rfl, hreply⟩ | ⟨i, f, next, rfl, hact, he⟩
  · have hacts := Collector.acts_of_act hact
    refine ⟨hcompleted (fun f => hacts.completed) hacts.catalog_subset ?_, ?_, ?_,
      h.pass hc hacts (hlease rfl)⟩
    · intro f hf hopened
      have hunbroken := hbroken f hopened hf
      exact hacts.stays_open hopened (h.bootstraps p c hc) (Bool.or_eq_false_iff.mp hunbroken).1
    · refine hothers (fun hopened => ?_) fun q d hq hd hopened => h.leased_of_ne hd hopened hq
      obtain ⟨f, hf⟩ := Option.ne_none_iff_exists'.mp hopened
      have hreturned : c'.pc ≠ .returned := by
        intro hpc
        rw [Collector.opened_eq_none (by rw [hpc]; rfl)] at hf
        cases hf
      rw [if_neg hreturned]
      rcases hacts.opened hf with hold | ⟨honly, slot, reserved, retrying, hpc⟩
      · exact h.leased p c hc (by rw [hold]; exact Option.some_ne_none _)
      · exact hlease rfl (Collector.underLease_of_call honly hpc)
    · exact hothers
        (hacts.bootstraps (h.bootstraps p c hc) (hcalling.calling p c hc) hmode)
        fun q d _ hd honly => (h.bootstraps q d hd honly).mono hacts.catalog_subset
  · refine ⟨hcompleted (fun f hf => hf) (List.Subset.refl _) ?_,
      hclosed (Collector.handle_opened he), ?_, h.passes⟩
    · intro f hf hopened
      have hunbroken := hbroken f hopened hf
      rcases hreply with ⟨i, rfl, hact⟩ | ⟨fault, rfl, -⟩
      · have hact : c.act config w.shared i = some (.error e) := hact
        rw [Collector.breaksOff, hact, Bool.or_true] at hunbroken
        cases hunbroken
      · cases hunbroken
    · exact hothers (Collector.handle_bootstraps he _) fun q d _ hd => h.bootstraps q d hd
  · have hacts := Collector.acts_of_act hact
    refine ⟨hcompleted (fun f => hacts.completed) hacts.catalog_subset ?_,
      hclosed (Collector.handle_opened he), ?_, h.pass hc hacts (hlease rfl)⟩
    · -- Only the answer to a bootstrap may be lost, and the bootstrap has committed.
      intro f hf hopened
      have hunbroken := hbroken f hopened hf
      obtain ⟨honly, slot, rfl, hpc | ⟨result, hpc⟩ | ⟨result, budget, hpc⟩⟩ :=
        Collector.opened_eq_some hopened
      · rw [Collector.breaksOff, hpc] at hunbroken
        cases hunbroken
      · rw [Collector.breaksOff, hpc] at hunbroken
        cases hunbroken
      · have hknown := h.bootstraps p c hc honly
        rw [hpc] at hacts hknown
        exact .inr (hacts.bootstrapped hknown)
    · exact hothers (Collector.handle_bootstraps he _)
        fun q d _ hd honly => (h.bootstraps q d hd honly).mono hacts.catalog_subset

/-- A step of an ingest: a file that it completes is the file of an open call. -/
theorem World.Cataloged.ingest (h : w.Cataloged) (hcalling : w.Calling) (hown : w.Attached)
    {p : ProcessId} {r : Reply IngestInput Fault} {life : Lifecycle}
    (hnext : w.shared.life.next policy (.reply p r) = some life) :
    World.Cataloged { w with shared := { w.shared with life := life } } := by
  obtain ⟨d, store, d', hd, hstep, rfl⟩ := Lifecycle.reply_eq_some hnext
  refine ⟨?_, h.leased, h.bootstraps, h.passes⟩
  intro f hf
  have hf : statusOf store.files f = some .completed := by
    rw [← Store.afterStep_files store d']
    exact hf
  rcases Program.step_durable hstep with rfl | ⟨i, next, hact⟩
  · exact h.completed f hf
  · rcases (Ingest.acts_of_act hact).completes hf with hold | ⟨hpc, rfl⟩
    · exact h.completed f hold
    · obtain ⟨c, hc⟩ := hcalling.hosted p d hd
      have hcall := hcalling.calling p c hc
      have hd' : w.shared.life.ingests c.owner = some d := by rwa [hown.owner p c hc]
      by_cases hprocess : ∃ slot, c.pc = .process slot
      · obtain ⟨slot, hslot⟩ := hprocess
        obtain ⟨ingest, hingest, honly, hremote⟩ := hcall.in_call hslot
        cases Option.some.inj (hingest.symm.trans hd')
        have hin := hcalling.mode p d hd
        rw [hpc] at hin
        have honly : c.scope.archiveOnly = false := by
          rw [← honly]
          simpa [Pc.inMode] using hin
        refine .inr ⟨p, c, hc, ?_⟩
        rw [Collector.opened, if_neg (Bool.eq_false_iff.mp honly), hslot]
        exact congrArg (fun remote => some remote.fileId) hremote.symm
      · obtain ⟨outcome, hreturned⟩ :=
          hcall.quiet (fun slot hslot => hprocess ⟨slot, hslot⟩) hd'
        exact (ingest_step_returned hstep hreturned).elim

theorem World.Cataloged.next {e : CollectionEvent} (h : w.Cataloged) (hcalling : w.Calling)
    (hown : w.Attached) (hok : FinishesCalls config w e)
    (hnext : w.next config policy e = some w') : w'.Cataloged := by
  cases World.moves_of_next hnext with
  | @collect p scope hfree hidle =>
    -- Without a lease there is no open call.
    have hclosed : ∀ q d, w.collectors q = some d → d.opened = none := by
      intro q d hd
      by_contra hopened
      have hheld := h.leased q d hd hopened
      rw [hfree] at hheld
      cases hheld
    refine ⟨?_, ?_, ?_, h.passes⟩
    · intro f hf
      rcases h.completed f hf with hcat | ⟨q, d, hd, hopened⟩
      · exact .inl hcat
      · rw [hclosed q d hd] at hopened
        cases hopened
    · intro q d hd hopened
      rcases update_some_eq_some hd with ⟨rfl, rfl⟩ | ⟨-, hd⟩
      · rfl
      · exact absurd (hclosed q d hd) hopened
    · intro q d hd
      rcases update_some_eq_some hd with ⟨rfl, rfl⟩ | ⟨-, hd⟩
      · exact fun _ => trivial
      · exact h.bootstraps q d hd
  | reply hc hstep => exact h.reply hcalling hok hc hstep
  | ingest hlife => exact h.ingest hcalling hown hlife
  | @die p life hlife =>
    cases hlife
    refine ⟨?_, ?_, fun q d hd => h.bootstraps q d (collectors_of_update_none hd), h.passes⟩
    · intro f hf
      have hstatus : statusOf w.shared.files f = some .completed := by
        rw [← hf]
        exact congrArg (fun files => statusOf files f) (Lifecycle.die_files w.shared.life p).symm
      rcases h.completed f hstatus with hcat | ⟨q, d, hd, hopened⟩
      · exact .inl hcat
      · by_cases hq : q = p
        · subst hq
          exact absurd hstatus (hok d hd f hopened)
        · exact .inr ⟨q, d, (Function.update_of_ne hq _ _).trans hd, hopened⟩
    · intro q d hd hopened
      obtain ⟨hq, hd⟩ := update_none_eq_some hd
      exact World.released_of_ne (h.leased q d hd hopened) hq
  | @recover f life hlife =>
    obtain ⟨-, row, hrow, -, rfl⟩ := Lifecycle.recover_eq_some hlife
    refine ⟨?_, h.leased, h.bootstraps, h.passes⟩
    intro g hg
    refine h.completed g ?_
    by_cases hgf : g = f
    · subst hgf
      simp [Shared.files, statusOf] at hg
    · rw [← hg]
      exact (congrArg (Option.map _) (Function.update_of_ne hgf _ _)).symm
  | loseLease =>
    have hclosed : ∀ q d, w.collectors q = some d → d.opened = none := by
      intro q d hd
      by_contra hopened
      exact hopened (hok q (h.leased q d hd hopened) d hd)
    refine ⟨?_, fun q d hd hopened => absurd (hclosed q d hd) hopened, h.bootstraps, h.passes⟩
    intro f hf
    rcases h.completed f hf with hcat | ⟨q, d, hd, hopened⟩
    · exact .inl hcat
    · rw [hclosed q d hd] at hopened
      cases hopened

theorem world_cataloged (h : Reach (collectionSystem config policy) (FinishesCalls config) w) :
    w.Cataloged := by
  refine h.invariant_of (P := World.Cataloged) ?_ ?_
  · rintro w ⟨clock, rfl⟩
    refine ⟨?_, ?_, ?_, ?_⟩
    · exact fun f hf => (by cases hf)
    · exact fun p c hc => (by cases hc)
    · exact fun p c hc => (by cases hc)
    · exact fun pass hpass => (by cases hpass)
  · exact fun w e w' hr hw hok hnext => hw.next (world_calling hr) (world_attached hr) hok hnext

end Invariant

/-- Over every run of collectors, their ingests, crashes and lost leases in which no collector dies
or raises, and none loses the lease, between the completion of a file by its call and the bootstrap
of the file: once a checkpoint has passed a completed file, its catalog bootstrap has committed. -/
theorem bootstrap_precedes (config : Config) (policy : IngestionPolicy) (w : World)
    (h : Reach (collectionSystem config policy) (FinishesCalls config) w) : w.BootstrapPrecedes :=
  (world_cataloged h).passes

/-! ## Sample runs -/

/-- The process dies before the settlement; the next collector retries the boundary. -/
def interruptedCollection : List CollectionEvent :=
  collectedEvents 0 ++ [.die 0, .collect 1 sampleScope] ++
    (callReplies sampleRemote 1).map (.reply 1) ++ (plainReplies 1).map (.ingest 1) ++
    ([.ok .done, .ok (readingsAt 2), .ok .done, .ok .done] :
      List (Reply CollectorInput Fault)).map (.reply 1)

theorem bootstrap_precedes_sample :
    ((collectionSystem sampleConfig ⟨4⟩).afterChecked (FinishesCalls sampleConfig) (.start 0)
        collectionEvents).shared.history.passes = [⟨sampleScope, 1, some .completed⟩] ∧
      World.BootstrapPrecedes ((collectionSystem sampleConfig ⟨4⟩).afterChecked
        (FinishesCalls sampleConfig) (.start 0) collectionEvents) := by
  refine ⟨by decide +kernel,
    bootstrap_precedes sampleConfig ⟨4⟩ _ (reach_afterChecked _ ⟨0, rfl⟩ ?_)⟩
  decide +kernel

/-- The retried boundary reserves nothing, so the settlement of the archive that the dead process
left raises, and the handler passes the completed file without its bootstrap. -/
theorem unsettled_file_passes_without_bootstrap :
    ¬ ∀ w, Reach (collectionSystem sampleConfig ⟨4⟩) Any w → w.BootstrapPrecedes := by
  intro hall
  have hrun : ((collectionSystem sampleConfig ⟨4⟩).run (.start 0)
      interruptedCollection).isSome = true := by
    decide +kernel
  have hbad : ¬ World.BootstrapPrecedes
      ((collectionSystem sampleConfig ⟨4⟩).after (.start 0) interruptedCollection) := by
    decide +kernel
  exact hbad (hall _ (reach_after _ ⟨0, rfl⟩ hrun))

end Makolet.Collection
