import Mathlib.Data.List.Dedup
import Mathlib.Data.List.Nodup
import Mathlib.Data.List.Sort
import Mathlib.Algebra.GroupWithZero.Nat

/-!
# Keyed tables as lists of rows

A table is the list of its rows in insertion order. The operations are the set statements of a
relational store: `lookup` follows a unique key, `distinctOn` is `SELECT DISTINCT ON`, `upsert` is
`INSERT ... ON CONFLICT (key) DO UPDATE`, `insertNew` is `... DO NOTHING`, `updateAt` is `UPDATE` of
the row under a key. A statement reads its source rows before it writes, so each operation is
defined on whole lists and not row by row. The last sections are about sums over a table.
-/

set_option autoImplicit false

namespace Makolet.Lib.Table

universe u v w

variable {α : Type u} {β : Type v} {κ : Type w} [DecidableEq κ]

/-- The unique-key constraint. -/
def UniqueOn (key : α → κ) (rows : List α) : Prop :=
  (rows.map key).Nodup

instance (key : α → κ) (rows : List α) : Decidable (UniqueOn key rows) :=
  inferInstanceAs (Decidable (rows.map key).Nodup)

/-- The first row with the key. -/
def lookup (key : α → κ) (rows : List α) (k : κ) : Option α :=
  rows.find? fun r => decide (key r = k)

/-- `SELECT DISTINCT ON (key)`: the first row of each key, in the order of the list. -/
def distinctOn (key : α → κ) : List α → List α
  | [] => []
  | r :: rest => r :: (distinctOn key rest).filter fun s => decide (key s ≠ key r)

/-- `INSERT ... ON CONFLICT (key) DO UPDATE` of source rows with pairwise different keys. -/
def upsert (key : α → κ) (keyIn : β → κ) (insert : β → α) (update : α → β → α)
    (rows : List α) (incoming : List β) : List α :=
  rows.map (fun r => (lookup keyIn incoming (key r)).elim r (update r)) ++
    (incoming.filter fun b => (lookup key rows (keyIn b)).isNone).map insert

/-- `UPDATE ... WHERE key = k`. -/
def updateAt (key : α → κ) (k : κ) (u : α → α) (rows : List α) : List α :=
  rows.map fun r => if key r = k then u r else r

/-- `INSERT ... ON CONFLICT (key) DO NOTHING`. -/
def insertNew (key : α → κ) (rows incoming : List α) : List α :=
  rows ++ distinctOn key (incoming.filter fun b => (lookup key rows (key b)).isNone)

omit [DecidableEq κ] in
/-- Rows unique under one key are unique under every key that determines it. -/
theorem UniqueOn.of_determines {μ : Type w} {key : α → κ} {finer : α → μ} {rows : List α}
    (h : UniqueOn key rows) (hdet : ∀ a b, finer a = finer b → key a = key b) :
    UniqueOn finer rows :=
  List.pairwise_map.mpr ((List.pairwise_map.mp h).imp fun hne heq => hne (hdet _ _ heq))

omit [DecidableEq κ] in
theorem map_zipIdx (key : α → κ) (rows : List α) (n : Nat) :
    (rows.zipIdx n).map (fun b => key b.1) = rows.map key := by
  rw [show (fun b : α × Nat => key b.1) = key ∘ Prod.fst from rfl, ← List.map_map,
    List.zipIdx_map_fst]

/-- A numbered source has a row for each of its elements. -/
theorem exists_mem_zipIdx {rows : List α} {r : α} (h : r ∈ rows) (n : Nat) :
    ∃ b ∈ rows.zipIdx n, b.1 = r := by
  rw [← List.zipIdx_map_fst n rows] at h
  exact List.mem_map.mp h

omit [DecidableEq κ] in
/-- Numbered rows are unique under a key of the row. -/
theorem UniqueOn.zipIdx {key : α → κ} {rows : List α} (h : UniqueOn key rows) (n : Nat) :
    UniqueOn (fun b : α × Nat => key b.1) (rows.zipIdx n) := by
  rw [UniqueOn, map_zipIdx key]
  exact h

/-! ## Lookup -/

section Lookup

variable {key : α → κ} {rows : List α} {k : κ} {r : α}

@[simp] theorem lookup_nil : lookup key ([] : List α) k = none := rfl

theorem lookup_cons (s : α) :
    lookup key (s :: rows) k = if key s = k then some s else lookup key rows k := by
  by_cases h : key s = k <;> simp [lookup, h]

theorem lookup_append (more : List α) :
    lookup key (rows ++ more) k = (lookup key rows k).or (lookup key more k) :=
  List.find?_append

theorem mem_of_lookup (h : lookup key rows k = some r) : r ∈ rows :=
  List.mem_of_find?_eq_some h

theorem key_of_lookup (h : lookup key rows k = some r) : key r = k := by
  simpa using List.find?_some h

theorem lookup_eq_none : lookup key rows k = none ↔ ∀ s ∈ rows, key s ≠ k := by
  simp [lookup]

theorem lookup_isSome : (lookup key rows k).isSome ↔ ∃ s ∈ rows, key s = k := by
  simp [lookup]

/-- With unique keys a row is found under its own key. -/
theorem lookup_of_mem (hu : UniqueOn key rows) (hr : r ∈ rows) : lookup key rows (key r) = some r := by
  induction rows with
  | nil => cases hr
  | cons s rest ih =>
    have hs := List.nodup_cons.mp (show (key s :: rest.map key).Nodup from hu)
    rw [lookup_cons]
    rcases List.mem_cons.mp hr with rfl | hmem
    · rw [if_pos rfl]
    · have hne : key s ≠ key r := fun h => hs.1 (h ▸ List.mem_map_of_mem hmem)
      rw [if_neg hne]
      exact ih hs.2 hmem

/-- The rows of a key in a list with unique keys. -/
theorem filter_key_eq_lookup (hu : UniqueOn key rows) (k : κ) :
    rows.filter (fun r => decide (key r = k)) = (lookup key rows k).toList := by
  induction rows with
  | nil => rfl
  | cons r rest ih =>
    have hs := List.nodup_cons.mp (show (key r :: rest.map key).Nodup from hu)
    rw [lookup_cons, List.filter_cons]
    by_cases hk : key r = k
    · have hnone : lookup key rest k = none := by
        rw [lookup_eq_none]
        intro s hs' hsk
        exact hs.1 (hk ▸ hsk ▸ List.mem_map_of_mem hs')
      simp [hk, ih hs.2, hnone]
    · simp [hk, ih hs.2]

theorem lookup_map_of_key {f : α → α} (hf : ∀ s, key (f s) = key s) :
    lookup key (rows.map f) k = (lookup key rows k).map f := by
  induction rows with
  | nil => rfl
  | cons s rest ih =>
    rw [List.map_cons, lookup_cons, lookup_cons, hf, ih]
    split <;> rfl

end Lookup

/-! ## Distinct rows -/

section Distinct

variable {key : α → κ}

theorem distinctOn_sublist (rows : List α) : (distinctOn key rows).Sublist rows := by
  induction rows with
  | nil => exact List.Sublist.slnil
  | cons r rest ih => exact (List.filter_sublist.trans ih).cons_cons r

theorem mem_of_mem_distinctOn {rows : List α} {r : α} (h : r ∈ distinctOn key rows) : r ∈ rows :=
  (distinctOn_sublist rows).mem h

theorem distinctOn_unique (rows : List α) : UniqueOn key (distinctOn key rows) := by
  induction rows with
  | nil => exact List.nodup_nil
  | cons r rest ih =>
    show (key r :: ((distinctOn key rest).filter _).map key).Nodup
    refine List.nodup_cons.mpr ⟨?_, (List.filter_sublist.map key).nodup ih⟩
    intro hmem
    obtain ⟨s, hs, hk⟩ := List.mem_map.mp hmem
    exact (of_decide_eq_true (List.mem_filter.mp hs).2) hk

/-- No key is lost. -/
theorem exists_mem_distinctOn {rows : List α} {r : α} (h : r ∈ rows) :
    ∃ s ∈ distinctOn key rows, key s = key r := by
  induction rows with
  | nil => cases h
  | cons t rest ih =>
    by_cases hk : key t = key r
    · exact ⟨t, List.mem_cons_self, hk⟩
    · rcases List.mem_cons.mp h with rfl | hrest
      · exact absurd rfl hk
      · obtain ⟨s, hs, hsk⟩ := ih hrest
        have hne : key s ≠ key t := fun he => hk (he ▸ hsk)
        exact ⟨s, List.mem_cons_of_mem _ (List.mem_filter.mpr ⟨hs, decide_eq_true hne⟩), hsk⟩

/-- Of a list in order, `distinctOn` keeps the first row of each key. -/
theorem rel_of_mem_distinctOn {R : α → α → Prop} {rows : List α} (hrows : rows.Pairwise R) {r : α}
    (hr : r ∈ distinctOn key rows) :
    ∀ s ∈ rows, key s = key r → s = r ∨ R r s := by
  induction hrows with
  | nil => cases hr
  | cons hfirst _ ih =>
    intro s hs hkey
    rcases List.mem_cons.mp hr with rfl | hr
    · rcases List.mem_cons.mp hs with rfl | hs
      · exact .inl rfl
      · exact .inr (hfirst s hs)
    · obtain ⟨hr, hne⟩ := List.mem_filter.mp hr
      rcases List.mem_cons.mp hs with rfl | hs
      · exact absurd hkey.symm (of_decide_eq_true hne)
      · exact ih hr s hs hkey

/-- Keys that distinguish the same rows keep the same ones. -/
theorem distinctOn_congr {μ : Type w} [DecidableEq μ] {finer : α → μ} {rows : List α}
    (h : ∀ a ∈ rows, ∀ b ∈ rows, finer a = finer b ↔ key a = key b) :
    distinctOn finer rows = distinctOn key rows := by
  induction rows with
  | nil => rfl
  | cons r rest ih =>
    rw [distinctOn, distinctOn, ih fun a ha b hb =>
      h a (List.mem_cons_of_mem r ha) b (List.mem_cons_of_mem r hb)]
    refine congrArg (r :: ·) (List.filter_congr fun a ha => ?_)
    have hiff := h a (List.mem_cons_of_mem r (mem_of_mem_distinctOn ha)) r List.mem_cons_self
    exact decide_eq_decide.mpr (not_congr hiff)

end Distinct

/-! ## Upsert -/

section Upsert

variable {key : α → κ} {keyIn : β → κ} {insert : β → α} {update : α → β → α}
  {rows : List α} {incoming : List β}

/-- The row under a key after an upsert: the updated old row, the inserted source row, or the
untouched old row. -/
theorem lookup_upsert (hins : ∀ b, key (insert b) = keyIn b) (hupd : ∀ a b, key (update a b) = key a)
    (k : κ) :
    lookup key (upsert key keyIn insert update rows incoming) k =
      match lookup keyIn incoming k, lookup key rows k with
      | some b, some a => some (update a b)
      | some b, none => some (insert b)
      | none, old => old := by
  set f : α → α := fun r => (lookup keyIn incoming (key r)).elim r (update r)
  have hf : ∀ r, key (f r) = key r := by
    intro r
    show key ((lookup keyIn incoming (key r)).elim r (update r)) = key r
    cases lookup keyIn incoming (key r) with
    | none => rfl
    | some b => exact hupd r b
  have hnew : lookup key
      ((incoming.filter fun b => (lookup key rows (keyIn b)).isNone).map insert) k =
      if (lookup key rows k).isNone then (lookup keyIn incoming k).map insert else none := by
    clear hupd hf f
    induction incoming with
    | nil => simp
    | cons b rest ih =>
      rw [lookup_cons]
      by_cases hb : keyIn b = k
      · subst hb
        by_cases hnone : (lookup key rows (keyIn b)).isNone
        · rw [List.filter_cons, if_pos hnone, List.map_cons, lookup_cons, if_pos (hins b),
            if_pos rfl, if_pos hnone]
          rfl
        · rw [List.filter_cons, if_neg hnone, ih, if_neg hnone, if_neg hnone]
      · rw [if_neg hb, ← ih, List.filter_cons]
        split
        · rw [List.map_cons, lookup_cons, if_neg (by rw [hins]; exact hb)]
        · rfl
  rw [upsert, lookup_append, lookup_map_of_key hf, hnew]
  cases hold : lookup key rows k with
  | none => cases hin : lookup keyIn incoming k <;> rfl
  | some a =>
    have ha : key a = k := key_of_lookup hold
    cases hin : lookup keyIn incoming k <;> simp [f, ha, hin]

/-- Every source key is present afterwards. -/
theorem exists_mem_upsert (hins : ∀ b, key (insert b) = keyIn b)
    (hupd : ∀ a b, key (update a b) = key a) {b : β} (hb : b ∈ incoming) :
    ∃ r ∈ upsert key keyIn insert update rows incoming, key r = keyIn b := by
  have hsome : (lookup keyIn incoming (keyIn b)).isSome := lookup_isSome.mpr ⟨b, hb, rfl⟩
  obtain ⟨c, hc⟩ := Option.isSome_iff_exists.mp hsome
  rw [← lookup_isSome, lookup_upsert hins hupd, hc]
  cases lookup key rows (keyIn b) <;> rfl

theorem upsert_unique (hins : ∀ b, key (insert b) = keyIn b)
    (hupd : ∀ a b, key (update a b) = key a) (hrows : UniqueOn key rows)
    (hin : UniqueOn keyIn incoming) :
    UniqueOn key (upsert key keyIn insert update rows incoming) := by
  have hold : (rows.map fun r => (lookup keyIn incoming (key r)).elim r (update r)).map key =
      rows.map key := by
    rw [List.map_map]
    refine List.map_congr_left fun r _ => ?_
    show key ((lookup keyIn incoming (key r)).elim r (update r)) = key r
    cases lookup keyIn incoming (key r) with
    | none => rfl
    | some b => exact hupd r b
  have hnew : ∀ bs : List β, (bs.map insert).map key = bs.map keyIn := by
    intro bs
    rw [List.map_map]
    exact List.map_congr_left fun b _ => hins b
  rw [UniqueOn, upsert, List.map_append, hold, hnew, List.nodup_append]
  refine ⟨hrows, (List.filter_sublist.map keyIn).nodup hin, ?_⟩
  rintro _ ha _ hb rfl
  obtain ⟨r, hr, hrk⟩ := List.mem_map.mp ha
  obtain ⟨b, hb, hbk⟩ := List.mem_map.mp hb
  have hnone := (List.mem_filter.mp hb).2
  rw [Option.isNone_iff_eq_none, lookup_eq_none] at hnone
  exact hnone r hr (hrk.trans hbk.symm)

/-- A row of the result is an old row that no source row addresses, an updated old row or an
inserted source row. -/
theorem mem_upsert {r : α} (h : r ∈ upsert key keyIn insert update rows incoming) :
    (r ∈ rows ∧ lookup keyIn incoming (key r) = none) ∨
      (∃ a ∈ rows, ∃ b ∈ incoming, keyIn b = key a ∧ r = update a b) ∨
      ∃ b ∈ incoming, r = insert b := by
  rcases List.mem_append.mp h with hold | hnew
  · obtain ⟨a, ha, rfl⟩ := List.mem_map.mp hold
    cases hin : lookup keyIn incoming (key a) with
    | none => exact .inl ⟨ha, hin⟩
    | some b => exact .inr (.inl ⟨a, ha, b, mem_of_lookup hin, key_of_lookup hin, rfl⟩)
  · obtain ⟨b, hb, rfl⟩ := List.mem_map.mp hnew
    exact .inr (.inr ⟨b, (List.mem_filter.mp hb).1, rfl⟩)

/-- Surrogate keys drawn from a counter stay distinct and below the advanced counter. -/
theorem upsert_fresh {γ : Type v} {id : α → Nat} {keyIn : γ × Nat → κ} {insert : γ × Nat → α}
    {update : α → γ × Nat → α} {sources : List γ} {n : Nat} (hins : ∀ b, id (insert b) = b.2)
    (hupd : ∀ a b, id (update a b) = id a) (hrows : UniqueOn id rows) (hlt : ∀ r ∈ rows, id r < n) :
    UniqueOn id (upsert key keyIn insert update rows (sources.zipIdx n)) ∧
      ∀ r ∈ upsert key keyIn insert update rows (sources.zipIdx n), id r < n + sources.length := by
  have hold : (rows.map fun r => (lookup keyIn (sources.zipIdx n) (key r)).elim r (update r)).map id =
      rows.map id := by
    rw [List.map_map]
    refine List.map_congr_left fun r _ => ?_
    show id ((lookup keyIn (sources.zipIdx n) (key r)).elim r (update r)) = id r
    cases lookup keyIn (sources.zipIdx n) (key r) with
    | none => rfl
    | some b => exact hupd r b
  have hnew : ∀ bs : List (γ × Nat), (bs.map insert).map id = bs.map Prod.snd := by
    intro bs
    rw [List.map_map]
    exact List.map_congr_left fun b _ => hins b
  constructor
  · rw [UniqueOn, upsert, List.map_append, hold, hnew, List.nodup_append]
    refine ⟨hrows, (List.filter_sublist.map Prod.snd).nodup ?_, ?_⟩
    · rw [List.zipIdx_map_snd]
      exact List.nodup_range'
    · rintro _ ha _ hb rfl
      obtain ⟨r, hr, hrk⟩ := List.mem_map.mp ha
      obtain ⟨b, hb, hbk⟩ := List.mem_map.mp hb
      have hle := List.le_snd_of_mem_zipIdx (List.mem_filter.mp hb).1
      have := hlt r hr
      omega
  · intro r hr
    rcases mem_upsert hr with ⟨hold, -⟩ | ⟨a, ha, b, -, -, rfl⟩ | ⟨b, hb, rfl⟩
    · exact Nat.lt_add_right _ (hlt r hold)
    · rw [hupd]
      exact Nat.lt_add_right _ (hlt a ha)
    · rw [hins]
      exact List.snd_lt_add_of_mem_zipIdx hb

/-- A row whose surrogate key is below the counter was there before. -/
theorem old_of_upsert {γ : Type v} (id : α → Nat) {keyIn : γ × Nat → κ} {insert : γ × Nat → α}
    {update : α → γ × Nat → α} {sources : List γ} {n : Nat} {r : α}
    (hr : r ∈ upsert key keyIn insert update rows (sources.zipIdx n)) (hlt : id r < n)
    (hins : ∀ b, id (insert b) = b.2)
    (hupd : ∀ a b, id (update a b) = id a ∧ key (update a b) = key a) :
    ∃ a ∈ rows, id a = id r ∧ key a = key r := by
  rcases mem_upsert hr with ⟨hold, -⟩ | ⟨a, ha, b, -, -, rfl⟩ | ⟨b, hb, rfl⟩
  · exact ⟨r, hold, rfl, rfl⟩
  · exact ⟨a, ha, (hupd a b).1.symm, (hupd a b).2.symm⟩
  · rw [hins] at hlt
    exact absurd (List.le_snd_of_mem_zipIdx hb) (Nat.not_le_of_lt hlt)

/-- A row that was there before keeps its keys. -/
theorem mem_upsert_old {keyIn : β → κ} {insert : β → α} {update : α → β → α} {incoming : List β}
    {μ : Type w} (id : α → μ) (hupd : ∀ a b, id (update a b) = id a ∧ key (update a b) = key a)
    {a : α} (ha : a ∈ rows) :
    ∃ r ∈ upsert key keyIn insert update rows incoming, id r = id a ∧ key r = key a := by
  refine ⟨_, List.mem_append_left _ (List.mem_map_of_mem ha), ?_⟩
  cases lookup keyIn incoming (key a) with
  | none => exact ⟨rfl, rfl⟩
  | some b => exact hupd a b

/-- A row of the result keeps what an old row of its key began with, or is the first of its key. -/
theorem origin_of_upsert {μ : Type w} (first : α → μ) (hins : ∀ b, key (insert b) = keyIn b)
    (hupd : ∀ a b, first (update a b) = first a ∧ key (update a b) = key a) {r : α}
    (hr : r ∈ upsert key keyIn insert update rows incoming) :
    (∃ a ∈ rows, key a = key r ∧ first a = first r) ∨
      (∀ a ∈ rows, key a ≠ key r) ∧ ∃ b ∈ incoming, r = insert b := by
  rcases List.mem_append.mp hr with hold | hnew
  · obtain ⟨a, ha, rfl⟩ := List.mem_map.mp hold
    refine .inl ⟨a, ha, ?_⟩
    cases lookup keyIn incoming (key a) with
    | none => exact ⟨rfl, rfl⟩
    | some b => exact ⟨(hupd a b).2.symm, (hupd a b).1.symm⟩
  · obtain ⟨b, hb, rfl⟩ := List.mem_map.mp hnew
    obtain ⟨hb, hnone⟩ := List.mem_filter.mp hb
    rw [Option.isNone_iff_eq_none, lookup_eq_none] at hnone
    refine .inr ⟨fun a ha => ?_, b, hb, rfl⟩
    rw [hins]
    exact hnone a ha

end Upsert

/-! ## Insert or ignore -/

section InsertNew

variable {key : α → κ} {rows incoming : List α}

theorem mem_insertNew {r : α} (h : r ∈ insertNew key rows incoming) :
    r ∈ rows ∨ (r ∈ incoming ∧ ∀ s ∈ rows, key s ≠ key r) := by
  rcases List.mem_append.mp h with hold | hnew
  · exact .inl hold
  · obtain ⟨hin, hnone⟩ := List.mem_filter.mp (mem_of_mem_distinctOn hnew)
    rw [Option.isNone_iff_eq_none, lookup_eq_none] at hnone
    exact .inr ⟨hin, hnone⟩

theorem subset_insertNew : rows ⊆ insertNew key rows incoming :=
  List.subset_append_left _ _

/-- Every source key is present afterwards. -/
theorem exists_mem_insertNew {r : α} (h : r ∈ incoming) :
    ∃ s ∈ insertNew key rows incoming, key s = key r := by
  by_cases hold : ∃ s ∈ rows, key s = key r
  · obtain ⟨s, hs, hk⟩ := hold
    exact ⟨s, subset_insertNew hs, hk⟩
  · have hnone : (lookup key rows (key r)).isNone := by
      rw [Option.isNone_iff_eq_none, lookup_eq_none]
      intro s hs hk
      exact hold ⟨s, hs, hk⟩
    have hin : r ∈ incoming.filter fun b => (lookup key rows (key b)).isNone :=
      List.mem_filter.mpr ⟨h, hnone⟩
    obtain ⟨s, hs, hk⟩ := @exists_mem_distinctOn _ _ _ key _ _ hin
    exact ⟨s, List.mem_append_right _ hs, hk⟩

/-- The row under a key after an insert-or-ignore: the old one wins. -/
theorem lookup_insertNew_old {k : κ} {r : α} (h : lookup key rows k = some r) :
    lookup key (insertNew key rows incoming) k = some r := by
  rw [insertNew, lookup_append, h]
  rfl

theorem insertNew_unique (hrows : UniqueOn key rows) : UniqueOn key (insertNew key rows incoming) := by
  rw [UniqueOn, insertNew, List.map_append, List.nodup_append]
  refine ⟨hrows, distinctOn_unique _, ?_⟩
  rintro _ ha _ hb rfl
  obtain ⟨r, hr, hrk⟩ := List.mem_map.mp ha
  obtain ⟨s, hs, hsk⟩ := List.mem_map.mp hb
  have hnone := (List.mem_filter.mp (mem_of_mem_distinctOn hs)).2
  rw [Option.isNone_iff_eq_none, lookup_eq_none] at hnone
  exact hnone r hr (hrk.trans hsk.symm)

end InsertNew

/-! ## Update of one row -/

section UpdateAt

variable {key : α → κ} {k : κ} {u : α → α} {rows : List α}

theorem mem_updateAt {r : α} (h : r ∈ updateAt key k u rows) :
    (r ∈ rows ∧ key r ≠ k) ∨ ∃ s ∈ rows, key s = k ∧ r = u s := by
  obtain ⟨s, hs, rfl⟩ := List.mem_map.mp h
  by_cases hk : key s = k
  · rw [if_pos hk]
    exact .inr ⟨s, hs, hk, rfl⟩
  · rw [if_neg hk]
    exact .inl ⟨hs, hk⟩

theorem mem_updateAt_of_ne {r : α} (h : r ∈ rows) (hk : key r ≠ k) : r ∈ updateAt key k u rows :=
  List.mem_map.mpr ⟨r, h, if_neg hk⟩

theorem mem_updateAt_self {r : α} (h : r ∈ rows) (hk : key r = k) : u r ∈ updateAt key k u rows :=
  List.mem_map.mpr ⟨r, h, if_pos hk⟩

theorem map_key_updateAt (hu : ∀ s, key s = k → key (u s) = key s) :
    (updateAt key k u rows).map key = rows.map key := by
  rw [updateAt, List.map_map]
  refine List.map_congr_left fun s _ => ?_
  show key (if key s = k then u s else s) = key s
  split
  · exact hu s ‹_›
  · rfl

theorem updateAt_unique (hu : ∀ s, key s = k → key (u s) = key s) (h : UniqueOn key rows) :
    UniqueOn key (updateAt key k u rows) := by
  rw [UniqueOn, map_key_updateAt hu]
  exact h

theorem lookup_updateAt (hu : ∀ s, key s = k → key (u s) = key s) (j : κ) :
    lookup key (updateAt key k u rows) j =
      if j = k then (lookup key rows k).map u else lookup key rows j := by
  have hkey : ∀ s, key (if key s = k then u s else s) = key s := by
    intro s
    split
    · exact hu s ‹_›
    · rfl
  rw [updateAt, lookup_map_of_key hkey]
  split
  · rename_i hj
    subst hj
    cases hrow : lookup key rows j with
    | none => rfl
    | some r => rw [Option.map_some, Option.map_some, if_pos (key_of_lookup hrow)]
  · rename_i hj
    cases hrow : lookup key rows j with
    | none => rfl
    | some r => rw [Option.map_some, if_neg (by rw [key_of_lookup hrow]; exact hj)]

end UpdateAt

/-! ## Sums -/

/-- The sum of a column. -/
def total (g : α → Nat) (rows : List α) : Nat :=
  (rows.map g).sum

section Total

variable {key : α → κ} {g : α → Nat} {rows : List α}

@[simp] theorem total_nil : total g [] = 0 := rfl

@[simp] theorem total_cons (r : α) : total g (r :: rows) = g r + total g rows := by
  simp [total]

@[simp] theorem total_append (more : List α) : total g (rows ++ more) = total g rows + total g more := by
  simp [total]

theorem total_congr {g' : α → Nat} (h : ∀ r ∈ rows, g r = g' r) : total g rows = total g' rows :=
  congrArg List.sum (List.map_congr_left h)

theorem le_total {r : α} (h : r ∈ rows) : g r ≤ total g rows := by
  induction rows with
  | nil => cases h
  | cons s rest ih =>
    rw [total_cons]
    rcases List.mem_cons.mp h with rfl | hrest
    · omega
    · have := ih hrest
      omega

theorem total_add (g' : α → Nat) :
    total (fun r => g r + g' r) rows = total g rows + total g' rows := by
  induction rows with
  | nil => rfl
  | cons r rest ih =>
    simp only [total_cons, ih]
    omega

theorem total_eq_zero (h : ∀ r ∈ rows, g r = 0) : total g rows = 0 := by
  induction rows with
  | nil => rfl
  | cons r rest ih =>
    rw [total_cons, h r List.mem_cons_self, ih fun s hs => h s (List.mem_cons_of_mem r hs)]

/-- An update of the row under a unique key moves the sum by the change of that row. -/
theorem total_updateAt (hu : UniqueOn key rows) {r : α} (hr : r ∈ rows) (u : α → α) :
    total g (updateAt key (key r) u rows) + g r = total g rows + g (u r) := by
  induction rows with
  | nil => cases hr
  | cons s rest ih =>
    have hs := List.nodup_cons.mp (show (key s :: rest.map key).Nodup from hu)
    rw [updateAt, List.map_cons, total_cons, total_cons]
    rcases List.mem_cons.mp hr with rfl | hmem
    · -- The rest has no further row under the key.
      have hrest : rest.map (fun t => if key t = key r then u t else t) = rest := by
        refine (List.map_congr_left fun t ht => ?_).trans (List.map_id rest)
        have hne : key t ≠ key r := fun hk => hs.1 (hk ▸ List.mem_map_of_mem ht)
        rw [if_neg hne]
        rfl
      rw [hrest, if_pos rfl]
      omega
    · have hne : key s ≠ key r := fun h => hs.1 (h ▸ List.mem_map_of_mem hmem)
      have := ih hs.2 hmem
      rw [updateAt] at this
      rw [if_neg hne]
      omega

/-- The part of a sum that falls under one key. -/
def totalAt (key : α → κ) (g : α → Nat) (k : κ) (rows : List α) : Nat :=
  total (fun r => if key r = k then g r else 0) rows

/-- Summing over distinct keys the part under each key sums the rows under these keys. -/
theorem sum_totalAt {keys : List κ} (hk : keys.Nodup) :
    total (fun k => totalAt key g k rows) keys =
      total (fun r => if key r ∈ keys then g r else 0) rows := by
  induction keys with
  | nil =>
    rw [total_nil, total_eq_zero]
    intro r _
    rw [if_neg List.not_mem_nil]
  | cons k rest ih =>
    have hs := List.nodup_cons.mp hk
    rw [total_cons, ih hs.2, totalAt]
    clear ih
    induction rows with
    | nil => rfl
    | cons r rows ih =>
      simp only [total_cons, List.mem_cons] at ih ⊢
      by_cases hr : key r = k
      · have hout : key r ∉ rest := hr ▸ hs.1
        rw [if_pos hr, if_neg hout, if_pos (Or.inl hr)]
        omega
      · by_cases hin : key r ∈ rest
        · rw [if_neg hr, if_pos hin, if_pos (Or.inr hin)]
          omega
        · rw [if_neg hr, if_neg hin, if_neg (by tauto)]
          omega

/-- Distinct keys that all satisfy `c` and cover every row of `c` with a nonzero entry sum the rows
of `c`. -/
theorem sum_totalAt_cover {keys : List κ} (hk : keys.Nodup) {c : κ → Prop} [DecidablePred c]
    (hin : ∀ k ∈ keys, c k) (hcover : ∀ r ∈ rows, c (key r) → key r ∉ keys → g r = 0) :
    total (fun k => totalAt key g k rows) keys =
      total (fun r => if c (key r) then g r else 0) rows := by
  rw [sum_totalAt hk]
  refine total_congr fun r hr => ?_
  by_cases hmem : key r ∈ keys
  · rw [if_pos hmem, if_pos (hin _ hmem)]
  · rw [if_neg hmem]
    split
    · rename_i hc
      exact (hcover r hr hc hmem).symm
    · rfl

end Total

end Makolet.Lib.Table
