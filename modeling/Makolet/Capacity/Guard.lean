import Mathlib.Logic.Function.Basic
import Makolet.Lib.System

/-!
# The free-space reserve of a filesystem

`FileSystemCapacityGuard` of `adapters/filesystem_capacity.py`: writers in any number of processes
reserve bytes under a lock of their process and an advisory lock on a file, check the free space,
write, and let both locks go. Every step of a writer is a label of its own, a process can die
between any two, and programs that do not cooperate take and give space. `floor_kept` is the
contract of the guard, `locks_belong` says who holds its locks.
-/

set_option autoImplicit false

namespace Makolet.Capacity

open Makolet.Lib

/-! ## Writers -/

/-- Where a writer is. -/
inductive Phase
  | idle
  /-- Without a minimum there is nothing to reserve. -/
  | unguarded (left : Nat)
  /-- In `process_lock.acquire`. -/
  | waiting (additional : Nat)
  /-- In `_open_lock_descriptor`. -/
  | opening (additional : Nat)
  /-- Between two calls of `_try_lock_file`. -/
  | polling (additional : Nat)
  /-- In front of `_validate_directories_share_filesystem` and `_ensure_capacity`. -/
  | checking (additional : Nat)
  /-- In the body of `reserve`, which may write that much more. -/
  | inside (left : Nat)
  /-- In front of `os.close`, with or without the lock on the file. -/
  | closing (locked : Bool)
  /-- In front of `process_lock.release`. -/
  | releasing
  /-- The process is dead. -/
  | gone
  deriving DecidableEq, Repr

namespace Phase

def holdsProcess : Phase → Bool
  | opening _ | polling _ | checking _ | inside _ | closing _ | releasing => true
  | idle | unguarded _ | waiting _ | gone => false

def holdsFile : Phase → Bool
  | checking _ | inside _ => true
  | closing locked => locked
  | idle | unguarded _ | waiting _ | opening _ | polling _ | releasing | gone => false

theorem holdsProcess_of_holdsFile {phase : Phase} (h : phase.holdsFile = true) :
    phase.holdsProcess = true := by
  cases phase with
  | checking | inside | closing => rfl
  | idle | unguarded | waiting | opening | polling | releasing | gone => cases h

end Phase

/-- The filesystem and the writers `ρ` of the processes `π`. -/
structure World (ρ π : Type) where
  free : Nat
  /-- What programs that do not cooperate have taken. -/
  taken : Nat
  phase : ρ → Phase
  processLock : π → Option ρ
  fileLock : Option ρ

/-- What a writer does next; the Booleans and the time-out are what the operating system answers. -/
inductive Act
  | reserve (additional : Nat)
  | acquire
  | timeout
  | openLock (safe : Bool)
  | tryLock
  | check (sameFilesystem : Bool)
  | write (byteCount : Nat)
  /-- The body returned or raised; `_ensure_capacity(0)` raises or does not. -/
  | leave
  | close
  | release
  deriving DecidableEq, Repr

inductive Label (ρ π : Type)
  | writer (p : ρ) (act : Act)
  /-- A process dies, and the operating system closes its descriptors. -/
  | crash (process : π)
  | take (byteCount : Nat)
  | give (byteCount : Nat)
  deriving DecidableEq, Repr

section Step

variable {ρ π : Type} [DecidableEq ρ] [DecidableEq π] (process : ρ → π) (minimumFreeBytes : Nat)

def World.set (w : World ρ π) (p : ρ) (phase : Phase) : World ρ π :=
  { w with phase := Function.update w.phase p phase }

def World.setProcessLock (w : World ρ π) (i : π) (holder : Option ρ) : World ρ π :=
  { w with processLock := Function.update w.processLock i holder }

/-- A writer's step from its phase. -/
def World.act (w : World ρ π) (p : ρ) : Phase → Act → Option (World ρ π)
  | .idle, .reserve additional =>
    some (w.set p (if minimumFreeBytes = 0 then .unguarded additional else .waiting additional))
  | .waiting additional, .acquire =>
    if w.processLock (process p) = none then
      some ((w.set p (.opening additional)).setProcessLock (process p) (some p))
    else none
  | .waiting _, .timeout => some (w.set p .idle)
  | .opening additional, .openLock safe =>
    some (w.set p (if safe = true then .polling additional else .releasing))
  | .polling additional, .tryLock =>
    if w.fileLock = none then
      some { w.set p (.checking additional) with fileLock := some p }
    else some w
  | .polling _, .timeout => some (w.set p (.closing false))
  | .checking additional, .check sameFilesystem =>
    some (w.set p (if sameFilesystem = true ∧ additional + minimumFreeBytes ≤ w.free then
      .inside additional else .closing true))
  | .inside left, .write byteCount =>
    if byteCount ≤ left ∧ byteCount ≤ w.free then
      some { w.set p (.inside (left - byteCount)) with free := w.free - byteCount }
    else none
  | .unguarded left, .write byteCount =>
    if byteCount ≤ left ∧ byteCount ≤ w.free then
      some { w.set p (.unguarded (left - byteCount)) with free := w.free - byteCount }
    else none
  | .inside _, .leave => some (w.set p (.closing true))
  | .unguarded _, .leave => some (w.set p .idle)
  | .closing locked, .close =>
    some { w.set p .releasing with fileLock := if locked = true then none else w.fileLock }
  | .releasing, .release => some ((w.set p .idle).setProcessLock (process p) none)
  | _, _ => none

/-- The writers of a dead process are gone, and so are their locks. -/
def World.crash (w : World ρ π) (i : π) : World ρ π :=
  { w with
    phase := fun q => if process q = i then .gone else w.phase q
    processLock := Function.update w.processLock i none
    fileLock := w.fileLock.filter fun q => decide (process q ≠ i) }

def next (w : World ρ π) : Label ρ π → Option (World ρ π)
  | .writer p act => w.act process minimumFreeBytes p (w.phase p) act
  | .crash i => some (w.crash process i)
  | .take byteCount =>
    if byteCount ≤ w.free then
      some { w with free := w.free - byteCount, taken := w.taken + byteCount }
    else none
  | .give byteCount => some { w with free := w.free + byteCount }

/-- The filesystem with some free space, before any writer comes. -/
def capacitySystem (initialFree : Nat) : System (World ρ π) (Label ρ π) where
  init w := w.free = initialFree ∧ w.taken = 0 ∧ (∀ p, w.phase p = .idle) ∧
    (∀ i, w.processLock i = none) ∧ w.fileLock = none
  next := next process minimumFreeBytes

end Step

/-! ## Who holds the locks -/

section Locks

variable {ρ π : Type} {process : ρ → π} {w w' : World ρ π} {p : ρ}

/-- Each lock is held by the writer whose phase says so. -/
structure Owned (process : ρ → π) (w : World ρ π) : Prop where
  processLock : ∀ i q, w.processLock i = some q ↔
    process q = i ∧ (w.phase q).holdsProcess = true
  fileLock : ∀ q, w.fileLock = some q ↔ (w.phase q).holdsFile = true

/-- A step of one writer keeps what the others hold. -/
theorem Owned.move (h : Owned process w) (hphase : ∀ q, q ≠ p → w'.phase q = w.phase q)
    (hlock : ∀ i q, q ≠ p → (w'.processLock i = some q ↔ w.processLock i = some q))
    (hfile : ∀ q, q ≠ p → (w'.fileLock = some q ↔ w.fileLock = some q))
    (hself : ∀ i, w'.processLock i = some p ↔
      process p = i ∧ (w'.phase p).holdsProcess = true)
    (hselfFile : w'.fileLock = some p ↔ (w'.phase p).holdsFile = true) : Owned process w' where
  processLock i q := by
    by_cases hq : q = p
    · exact hq ▸ hself i
    · rw [hlock i q hq, hphase q hq]
      exact h.processLock i q
  fileLock q := by
    by_cases hq : q = p
    · exact hq ▸ hselfFile
    · rw [hfile q hq, hphase q hq]
      exact h.fileLock q

theorem Owned.crash [DecidableEq π] (h : Owned process w) (i : π) :
    Owned process (w.crash process i) where
  processLock j q := by
    have hold := h.processLock j q
    by_cases hj : j = i
    · subst hj
      by_cases hq : process q = j
      · simp [World.crash, hq, Phase.holdsProcess]
      · simp [World.crash, hq]
    · by_cases hq : process q = i
      · have hne : process q ≠ j := fun heq => hj (heq.symm.trans hq)
        simp [World.crash, hj, hold, hne]
      · simp [World.crash, hj, hold, hq]
  fileLock q := by
    have hold := h.fileLock q
    by_cases hq : process q = i
    · simp [World.crash, hq, Phase.holdsFile]
    · simp [World.crash, hq, hold]

variable [DecidableEq ρ]

@[simp] theorem phase_set_self (phase : Phase) : (w.set p phase).phase p = phase := by
  simp only [World.set, Function.update_self]

theorem phase_set_of_ne (phase : Phase) {q : ρ} (hq : q ≠ p) :
    (w.set p phase).phase q = w.phase q := by
  simp only [World.set, Function.update_of_ne hq]

/-- A step that changes no lock. -/
theorem Owned.set (h : Owned process w) {phase : Phase}
    (hprocess : phase.holdsProcess = (w.phase p).holdsProcess)
    (hfile : phase.holdsFile = (w.phase p).holdsFile) : Owned process (w.set p phase) := by
  refine h.move (p := p) (fun q => phase_set_of_ne phase) (fun _ _ _ => .rfl) (fun _ _ => .rfl)
    (fun i => ?_) ?_
  · rw [phase_set_self, hprocess]
    exact h.processLock i p
  · rw [phase_set_self, hfile]
    exact h.fileLock p

theorem Owned.tryLock (h : Owned process w) {additional : Nat}
    (hphase : w.phase p = .polling additional) (hfree : w.fileLock = none) :
    Owned process { w.set p (.checking additional) with fileLock := some p } := by
  refine h.move (p := p) (fun q => phase_set_of_ne _) (fun _ _ _ => .rfl) (fun q hq => ?_)
    (fun i => ?_) ?_
  · rw [hfree]
    exact ⟨fun heq => absurd (Option.some.inj heq).symm hq, fun heq => (nomatch heq)⟩
  · have hold := h.processLock i p
    rw [hphase] at hold
    exact hold.trans (by rw [phase_set_self]; rfl)
  · rw [phase_set_self]
    exact ⟨fun _ => rfl, fun _ => rfl⟩

theorem Owned.close (h : Owned process w) {locked : Bool} (hphase : w.phase p = .closing locked) :
    Owned process { w.set p .releasing with
      fileLock := if locked = true then none else w.fileLock } := by
  have hfile := h.fileLock p
  rw [hphase] at hfile
  refine h.move (p := p) (fun q => phase_set_of_ne _) (fun _ _ _ => .rfl) (fun q hq => ?_)
    (fun i => ?_) ?_
  · cases locked with
    | true =>
      rw [hfile.2 rfl]
      exact ⟨fun heq => (nomatch heq), fun heq => absurd (Option.some.inj heq).symm hq⟩
    | false => exact .rfl
  · have hold := h.processLock i p
    rw [hphase] at hold
    exact hold.trans (by rw [phase_set_self]; rfl)
  · rw [phase_set_self]
    cases locked with
    | true => exact ⟨fun heq => (nomatch heq), fun heq => (nomatch heq)⟩
    | false => exact hfile

variable [DecidableEq π]

/-- A step of a writer that takes or lets go the lock of its process. -/
theorem Owned.setProcessLock (h : Owned process w) {phase : Phase} {holder : Option ρ}
    (hbefore : ∀ q, q ≠ p → w.processLock (process p) ≠ some q)
    (hafter : holder = if phase.holdsProcess = true then some p else none)
    (hfile : phase.holdsFile = (w.phase p).holdsFile) :
    Owned process ((w.set p phase).setProcessLock (process p) holder) := by
  refine h.move (p := p) (fun q => phase_set_of_ne phase) (fun i q hq => ?_) (fun _ _ => .rfl)
    (fun i => ?_) ?_
  · by_cases hi : i = process p
    · subst hi
      have hnot : holder ≠ some q := by
        rw [hafter]
        split
        · exact fun heq => hq (Option.some.inj heq).symm
        · exact fun heq => nomatch heq
      simp only [World.setProcessLock, Function.update_self]
      exact ⟨fun heq => absurd heq hnot, fun heq => absurd heq (hbefore q hq)⟩
    · simp only [World.setProcessLock, Function.update_of_ne hi]
      exact .rfl
  · show Function.update w.processLock (process p) holder i = some p ↔
      process p = i ∧ ((w.set p phase).phase p).holdsProcess = true
    rw [phase_set_self]
    by_cases hi : i = process p
    · subst hi
      rw [Function.update_self, hafter]
      cases phase.holdsProcess with
      | true => exact ⟨fun _ => ⟨rfl, rfl⟩, fun _ => rfl⟩
      | false => exact ⟨fun heq => (nomatch heq), fun heq => (nomatch heq.2)⟩
    · rw [Function.update_of_ne hi]
      exact ⟨fun heq => absurd ((h.processLock i p).1 heq).1.symm hi,
        fun heq => absurd heq.1.symm hi⟩
  · show w.fileLock = some p ↔ ((w.set p phase).phase p).holdsFile = true
    rw [phase_set_self, hfile]
    exact h.fileLock p

end Locks

/-! ## The space -/

section Space

variable {ρ π : Type} {w w' : World ρ π} {p : ρ} {floor : Nat}

/-- What the writers leave: the floor, and besides it what the writer inside may still write. -/
structure Above (floor : Nat) (w : World ρ π) : Prop where
  floor_le : floor ≤ w.free + w.taken
  inside : ∀ q left, w.phase q = .inside left → left + floor ≤ w.free + w.taken

/-- A step that takes no space. -/
theorem Above.move (h : Above floor w) (hspace : w'.free = w.free ∧ w'.taken = w.taken)
    (hphase : ∀ q left, w'.phase q = .inside left →
      w.phase q = .inside left ∨ left + floor ≤ w.free + w.taken) : Above floor w' where
  floor_le := by
    rw [hspace.1, hspace.2]
    exact h.floor_le
  inside q left hq := by
    rw [hspace.1, hspace.2]
    rcases hphase q left hq with hold | hroom
    · exact h.inside q left hold
    · exact hroom

variable [DecidableEq ρ]

theorem Above.set (h : Above floor w) {phase : Phase}
    (hphase : ∀ left, phase = .inside left → left + floor ≤ w.free + w.taken) :
    Above floor (w.set p phase) := by
  refine h.move ⟨rfl, rfl⟩ fun q left hq => ?_
  by_cases hp : q = p
  · subst hp
    rw [phase_set_self] at hq
    exact .inr (hphase left hq)
  · rw [phase_set_of_ne phase hp] at hq
    exact .inl hq

end Space

/-! ## Runs -/

/-- A writer reserves where there is a minimum only. -/
def Phase.Fits (minimumFreeBytes : Nat) : Phase → Prop
  | .idle | .gone => True
  | .unguarded _ => minimumFreeBytes = 0
  | .waiting _ | .opening _ | .polling _ | .checking _ | .inside _ | .closing _ | .releasing =>
    minimumFreeBytes ≠ 0

section Runs

variable {ρ π : Type} {process : ρ → π} {minimumFreeBytes floor : Nat} {w w' : World ρ π} {p : ρ}

/-- What every step keeps. -/
structure Kept (process : ρ → π) (minimumFreeBytes floor : Nat) (w : World ρ π) : Prop where
  owned : Owned process w
  above : Above floor w
  fits : ∀ q, (w.phase q).Fits minimumFreeBytes

/-- The writers that are inside are one writer. -/
theorem Owned.eq_of_inside (h : Owned process w) {q : ρ} (hp : (w.phase p).holdsFile = true)
    (hq : (w.phase q).holdsFile = true) : p = q :=
  Option.some.inj (((h.fileLock p).2 hp).symm.trans ((h.fileLock q).2 hq))

variable [DecidableEq ρ]

theorem fits_set (h : ∀ q, (w.phase q).Fits minimumFreeBytes) {phase : Phase}
    (hphase : phase.Fits minimumFreeBytes) (q : ρ) :
    ((w.set p phase).phase q).Fits minimumFreeBytes := by
  by_cases hq : q = p
  · rw [hq, phase_set_self]
    exact hphase
  · rw [phase_set_of_ne phase hq]
    exact h q

/-- The writer inside writes what it has reserved. -/
theorem Kept.write (h : Kept process minimumFreeBytes floor w) {left byteCount : Nat}
    (hphase : w.phase p = .inside left) (hleft : byteCount ≤ left) (hfree : byteCount ≤ w.free) :
    Kept process minimumFreeBytes floor
      { w.set p (.inside (left - byteCount)) with free := w.free - byteCount } where
  owned :=
    have hset : Owned process (w.set p (.inside (left - byteCount))) :=
      h.owned.set (by rw [hphase]; rfl) (by rw [hphase]; rfl)
    ⟨hset.processLock, hset.fileLock⟩
  above := by
    have hroom := h.above.inside p left hphase
    refine ⟨?_, fun q left' hq => ?_⟩
    · show floor ≤ w.free - byteCount + w.taken
      omega
    · show left' + floor ≤ w.free - byteCount + w.taken
      by_cases hqp : q = p
      · subst hqp
        have hq : (w.set q (.inside (left - byteCount))).phase q = .inside left' := hq
        rw [phase_set_self] at hq
        obtain rfl := Phase.inside.inj hq
        omega
      · -- Two writers would hold the lock on the file.
        have hq : (w.set p (.inside (left - byteCount))).phase q = .inside left' := hq
        rw [phase_set_of_ne _ hqp] at hq
        exact absurd (h.owned.eq_of_inside (by rw [hq]; rfl) (by rw [hphase]; rfl)) hqp
  fits := by
    have hfits := h.fits p
    rw [hphase] at hfits
    exact fits_set h.fits hfits

/-- Without a minimum there is no floor, and nobody is inside. -/
theorem Kept.writeUnguarded (h : Kept process minimumFreeBytes floor w)
    (hfloor : floor ≤ minimumFreeBytes) {left : Nat} (byteCount : Nat)
    (hphase : w.phase p = .unguarded left) :
    Kept process minimumFreeBytes floor
      { w.set p (.unguarded (left - byteCount)) with free := w.free - byteCount } where
  owned :=
    have hset : Owned process (w.set p (.unguarded (left - byteCount))) :=
      h.owned.set (by rw [hphase]; rfl) (by rw [hphase]; rfl)
    ⟨hset.processLock, hset.fileLock⟩
  above := by
    have hzero := h.fits p
    rw [hphase] at hzero
    have hzero : minimumFreeBytes = 0 := hzero
    refine ⟨by omega, fun q left' hq => ?_⟩
    have hunguarded : (Phase.unguarded (left - byteCount)).Fits minimumFreeBytes := hzero
    have hset : ((w.set p (.unguarded (left - byteCount))).phase q).Fits minimumFreeBytes :=
      fits_set h.fits hunguarded q
    have hq : (w.set p (.unguarded (left - byteCount))).phase q = .inside left' := hq
    rw [hq] at hset
    exact absurd hzero hset
  fits := by
    have hfits := h.fits p
    rw [hphase] at hfits
    exact fits_set h.fits hfits

theorem Kept.set (h : Kept process minimumFreeBytes floor w) {phase : Phase}
    (hprocess : phase.holdsProcess = (w.phase p).holdsProcess)
    (hfile : phase.holdsFile = (w.phase p).holdsFile)
    (hinside : ∀ left, phase = .inside left → left + floor ≤ w.free + w.taken)
    (hfits : phase.Fits minimumFreeBytes) : Kept process minimumFreeBytes floor (w.set p phase) :=
  ⟨h.owned.set hprocess hfile, h.above.set hinside, fits_set h.fits hfits⟩

variable [DecidableEq π]

theorem act_kept (hfloor : floor ≤ minimumFreeBytes) (h : Kept process minimumFreeBytes floor w)
    {act : Act} (hact : w.act process minimumFreeBytes p (w.phase p) act = some w') :
    Kept process minimumFreeBytes floor w' := by
  have hfits := h.fits p
  generalize hphase : w.phase p = phase at hact hfits
  unfold World.act at hact
  split at hact
  · -- reserve
    obtain rfl := Option.some.inj hact
    split
    · rename_i hzero
      exact h.set (by rw [hphase]; rfl) (by rw [hphase]; rfl) (fun _ heq => nomatch heq) hzero
    · rename_i hpos
      exact h.set (by rw [hphase]; rfl) (by rw [hphase]; rfl) (fun _ heq => nomatch heq) hpos
  · -- acquire
    split at hact
    · rename_i additional hfree
      obtain rfl := Option.some.inj hact
      have habove : Above floor (w.set p (.opening additional)) :=
        h.above.set fun _ heq => nomatch heq
      refine ⟨h.owned.setProcessLock (fun q _ heq => ?_) rfl (by rw [hphase]; rfl),
        habove.move ⟨rfl, rfl⟩ fun _ _ => .inl, fits_set h.fits hfits⟩
      rw [hfree] at heq
      cases heq
    · cases hact
  · -- the process lock is not let go in time
    obtain rfl := Option.some.inj hact
    exact h.set (by rw [hphase]; rfl) (by rw [hphase]; rfl) (fun _ heq => nomatch heq) trivial
  · -- openLock
    obtain rfl := Option.some.inj hact
    split
    · exact h.set (by rw [hphase]; rfl) (by rw [hphase]; rfl) (fun _ heq => nomatch heq) hfits
    · exact h.set (by rw [hphase]; rfl) (by rw [hphase]; rfl) (fun _ heq => nomatch heq) hfits
  · -- tryLock
    split at hact
    · rename_i additional hfree
      obtain rfl := Option.some.inj hact
      have habove : Above floor (w.set p (.checking additional)) :=
        h.above.set fun _ heq => nomatch heq
      exact ⟨h.owned.tryLock hphase hfree, habove.move ⟨rfl, rfl⟩ fun _ _ => .inl,
        fits_set h.fits hfits⟩
    · obtain rfl := Option.some.inj hact
      exact h
  · -- the lock on the file is not let go in time
    obtain rfl := Option.some.inj hact
    exact h.set (by rw [hphase]; rfl) (by rw [hphase]; rfl) (fun _ heq => nomatch heq) hfits
  · -- check
    obtain rfl := Option.some.inj hact
    split
    · rename_i additional _ hroom
      refine h.set (by rw [hphase]; rfl) (by rw [hphase]; rfl) (fun left heq => ?_) hfits
      obtain rfl := Phase.inside.inj heq
      omega
    · exact h.set (by rw [hphase]; rfl) (by rw [hphase]; rfl) (fun _ heq => nomatch heq) hfits
  · -- write
    split at hact
    · rename_i hroom
      obtain rfl := Option.some.inj hact
      exact h.write hphase hroom.1 hroom.2
    · cases hact
  · split at hact
    · obtain rfl := Option.some.inj hact
      exact h.writeUnguarded hfloor _ hphase
    · cases hact
  · -- leave
    obtain rfl := Option.some.inj hact
    exact h.set (by rw [hphase]; rfl) (by rw [hphase]; rfl) (fun _ heq => nomatch heq) hfits
  · obtain rfl := Option.some.inj hact
    exact h.set (by rw [hphase]; rfl) (by rw [hphase]; rfl) (fun _ heq => nomatch heq) trivial
  · -- close
    obtain rfl := Option.some.inj hact
    have habove : Above floor (w.set p .releasing) := h.above.set fun _ heq => nomatch heq
    exact ⟨h.owned.close hphase, habove.move ⟨rfl, rfl⟩ fun _ _ => .inl, fits_set h.fits hfits⟩
  · -- release
    obtain rfl := Option.some.inj hact
    have habove : Above floor (w.set p .idle) := h.above.set fun _ heq => nomatch heq
    refine ⟨h.owned.setProcessLock (fun q hq heq => ?_) rfl (by rw [hphase]; rfl),
      habove.move ⟨rfl, rfl⟩ fun _ _ => .inl, fits_set h.fits trivial⟩
    have hself := (h.owned.processLock (process p) p).2 ⟨rfl, by rw [hphase]; rfl⟩
    exact hq (Option.some.inj (heq.symm.trans hself))
  · cases hact

theorem next_kept (hfloor : floor ≤ minimumFreeBytes) (h : Kept process minimumFreeBytes floor w)
    {label : Label ρ π} (hnext : next process minimumFreeBytes w label = some w') :
    Kept process minimumFreeBytes floor w' := by
  cases label with
  | writer p act => exact act_kept hfloor h hnext
  | crash i =>
    obtain rfl := Option.some.inj hnext
    have hphase : ∀ q, (w.crash process i).phase q = .gone ∨
        (w.crash process i).phase q = w.phase q := by
      intro q
      by_cases hq : process q = i
      · exact .inl (if_pos hq)
      · exact .inr (if_neg hq)
    refine ⟨h.owned.crash i, h.above.move ⟨rfl, rfl⟩ fun q left hq => .inl ?_, fun q => ?_⟩
    · rcases hphase q with hgone | hsame
      · rw [hgone] at hq
        cases hq
      · exact hsame ▸ hq
    · rcases hphase q with hgone | hsame
      · rw [hgone]
        trivial
      · rw [hsame]
        exact h.fits q
  | take byteCount =>
    rw [next] at hnext
    split at hnext
    · rename_i hroom
      obtain rfl := Option.some.inj hnext
      refine ⟨⟨h.owned.processLock, h.owned.fileLock⟩, ⟨?_, fun q left hq => ?_⟩, h.fits⟩
      · have hfloor := h.above.floor_le
        show floor ≤ w.free - byteCount + (w.taken + byteCount)
        omega
      · have hinside := h.above.inside q left hq
        show left + floor ≤ w.free - byteCount + (w.taken + byteCount)
        omega
    · cases hnext
  | give byteCount =>
    obtain rfl := Option.some.inj hnext
    refine ⟨⟨h.owned.processLock, h.owned.fileLock⟩, ⟨?_, fun q left hq => ?_⟩, h.fits⟩
    · have hfloor := h.above.floor_le
      show floor ≤ w.free + byteCount + w.taken
      omega
    · have hinside := h.above.inside q left hq
      show left + floor ≤ w.free + byteCount + w.taken
      omega

theorem kept_of_init {initialFree : Nat}
    (hinit : (capacitySystem process minimumFreeBytes initialFree).init w) :
    Kept process minimumFreeBytes (min initialFree minimumFreeBytes) w := by
  obtain ⟨hfree, htaken, hphase, hlock, hfile⟩ := hinit
  refine ⟨⟨fun i q => ?_, fun q => ?_⟩, ⟨?_, fun q left hq => ?_⟩, fun q => ?_⟩
  · rw [hlock i, hphase q]
    exact ⟨fun heq => (nomatch heq), fun heq => (nomatch heq.2)⟩
  · rw [hfile, hphase q]
    exact ⟨fun heq => (nomatch heq), fun heq => (nomatch heq)⟩
  · omega
  · rw [hphase q] at hq
    cases hq
  · rw [hphase q]
    trivial

theorem kept_of_reach {initialFree : Nat}
    (h : Reach (capacitySystem process minimumFreeBytes initialFree) Any w) :
    Kept process minimumFreeBytes (min initialFree minimumFreeBytes) w :=
  Reach.invariant (P := Kept process minimumFreeBytes (min initialFree minimumFreeBytes))
    (fun _ hinit => kept_of_init hinit)
    (fun _ _ _ hkept _ hnext => next_kept (Nat.min_le_right _ _) hkept hnext) h

end Runs

/-! ## The contract -/

section Contract

variable {ρ π : Type} [DecidableEq ρ] [DecidableEq π]

/-- However the writers of any number of processes interleave, wait too long, raise and die: what
they leave free is at least the minimum, or all there was at the start, less what others took. One
writer at a time is inside, and besides the minimum there is room for all that it may still
write. -/
theorem floor_kept (process : ρ → π) (minimumFreeBytes initialFree : Nat) {w : World ρ π}
    (h : Reach (capacitySystem process minimumFreeBytes initialFree) Any w) :
    min initialFree minimumFreeBytes ≤ w.free + w.taken ∧
      ∀ p left, w.phase p = .inside left →
        left + min initialFree minimumFreeBytes ≤ w.free + w.taken ∧
        ∀ q left', w.phase q = .inside left' → q = p := by
  have hkept := kept_of_reach h
  refine ⟨hkept.above.floor_le, fun p left hp => ⟨hkept.above.inside p left hp, ?_⟩⟩
  exact fun q left' hq => hkept.owned.eq_of_inside (by rw [hq]; rfl) (by rw [hp]; rfl)

/-- Ten free bytes, before anyone comes. -/
def emptyWorld : World Nat Nat := ⟨10, 0, fun _ => .idle, fun _ => none, none⟩

/-- The first of two writers, each in a process of its own, dies inside after it wrote three of its
four bytes, and the second finds too little room. -/
def deathInside : List (Label Nat Nat) :=
  [.writer 0 (.reserve 4), .writer 1 (.reserve 4), .writer 0 .acquire, .writer 1 .acquire,
    .writer 1 (.openLock true), .writer 0 (.openLock true), .writer 0 .tryLock,
    .writer 1 .tryLock, .writer 0 (.check true), .writer 0 (.write 3), .crash 0,
    .writer 1 .tryLock, .writer 1 (.check true)]

theorem floor_kept_death :
    ((capacitySystem id 5 10).after emptyWorld deathInside).phase 1 = .closing true ∧
      5 ≤ ((capacitySystem id 5 10).after emptyWorld deathInside).free +
        ((capacitySystem id 5 10).after emptyWorld deathInside).taken :=
  ⟨by rfl, (floor_kept id 5 10 (reach_after deathInside
    ⟨rfl, rfl, fun _ => rfl, fun _ => rfl, rfl⟩ (by rfl))).1⟩

/-- The labels of a writer that meets no other one. -/
def aloneLabels (π : Type) (p : ρ) (additional : Nat) : List (Label ρ π) :=
  [.writer p (.reserve additional), .writer p .acquire, .writer p (.openLock true),
    .writer p .tryLock, .writer p (.check true)]

/-- No path leaves a lock behind: once nobody is between `acquire` and `release`, whatever happened
before, a writer that comes gets both locks, and gets in exactly if there is room. -/
theorem locks_return (process : ρ → π) (minimumFreeBytes initialFree : Nat) {w : World ρ π}
    (h : Reach (capacitySystem process minimumFreeBytes initialFree) Any w)
    (hpos : 0 < minimumFreeBytes) (hrest : ∀ q, (w.phase q).holdsProcess = false) {p : ρ}
    (hp : w.phase p = .idle) (additional : Nat) :
    ∃ w', (capacitySystem process minimumFreeBytes initialFree).run w
        (aloneLabels π p additional) = some w' ∧ w'.free = w.free ∧
      (w'.phase p = .inside additional ↔ additional + minimumFreeBytes ≤ w.free) := by
  have howned := (kept_of_reach h).owned
  have hlock : ∀ i, w.processLock i = none := by
    intro i
    cases hi : w.processLock i with
    | none => rfl
    | some q =>
      have hheld := ((howned.processLock i q).1 hi).2
      rw [hrest q] at hheld
      cases hheld
  have hfile : w.fileLock = none := by
    cases hq : w.fileLock with
    | none => rfl
    | some q =>
      have hheld := (howned.fileLock q).1 hq
      have hprocess := Phase.holdsProcess_of_holdsFile hheld
      rw [hrest q] at hprocess
      cases hprocess
  have hne : minimumFreeBytes ≠ 0 := Nat.pos_iff_ne_zero.mp hpos
  simp only [aloneLabels, System.run, capacitySystem, next, hp, World.act, hne, if_false,
    Option.bind_some, World.set, World.setProcessLock, Function.update_self, hlock, hfile, if_true,
    true_and, Option.some.injEq, exists_eq_left']
  split
  · rename_i hroom
    exact iff_of_true rfl hroom
  · rename_i hroom
    exact iff_of_false Phase.noConfusion hroom

/-- A writer is alone, and dies inside. -/
def deathAlone : List (Label Nat Nat) :=
  aloneLabels Nat 0 4 ++ [.writer 0 (.write 3), .crash 0]

theorem locks_return_death :
    ∃ w', (capacitySystem id 5 10).run ((capacitySystem id 5 10).after emptyWorld deathAlone)
        (aloneLabels Nat 1 2) = some w' ∧ w'.phase 1 = .inside 2 := by
  have hphase : ∀ q, ((capacitySystem id 5 10).after emptyWorld deathAlone).phase q =
      if q = 0 then .gone else .idle := by
    intro q
    cases q with
    | zero => rfl
    | succ q => rfl
  have hrest : ∀ q,
      (((capacitySystem id 5 10).after emptyWorld deathAlone).phase q).holdsProcess = false := by
    intro q
    rw [hphase]
    split <;> rfl
  obtain ⟨w', hrun, -, hinside⟩ := locks_return id 5 10 (reach_after deathAlone
    ⟨rfl, rfl, fun _ => rfl, fun _ => rfl, rfl⟩ (by rfl)) (by decide) hrest (hphase 1) 2
  exact ⟨w', hrun, hinside.2 (by decide)⟩

end Contract

end Makolet.Capacity
