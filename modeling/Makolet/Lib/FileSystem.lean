import Mathlib.Logic.Function.Basic
import Makolet.Lib.Table

/-!
# A file system with hard links

A `FileSystem` is a directory map from names to inode numbers, with the content and the mode of
every inode. Several names may refer to one inode; its link count is the number of these names, so
it is a function of the directory and not a counter to be kept in step with it.

An inode number is in use as long as a name refers to it. `create` takes a number that no name
refers to, possibly one that was in use before.

`nlink_eq_one` reads the link count back as a statement about names: it is one for a named inode if
and only if there is no second name.
-/

set_option autoImplicit false

namespace Makolet.Lib

open Table

universe u v

/-- What a system call on a name can raise. -/
inductive FileError
  | notFound
  | exists
  deriving DecidableEq, Repr

structure FileSystem (π : Type u) (β : Type v) [DecidableEq π] where
  entries : List (π × Nat)
  content : Nat → List β
  readOnly : Nat → Bool
  dirs : List π
  unique : UniqueOn Prod.fst entries

/-- What `lstat` and `fstat` return: the identity of the inode, its link count and its size. -/
structure Stat where
  ino : Nat
  nlink : Nat
  size : Nat
  deriving DecidableEq, Repr

namespace FileSystem

variable {π : Type u} {β : Type v} [DecidableEq π] (fs : FileSystem π β)

/-- The inode behind a name. -/
def find (p : π) : Option Nat :=
  (lookup Prod.fst fs.entries p).map Prod.snd

/-- The number of names of an inode. -/
def nlink (i : Nat) : Nat :=
  fs.entries.countP fun e => decide (e.2 = i)

/-- A number above every number in use. -/
def fresh : Nat :=
  fs.entries.foldr (fun e n => max (e.2 + 1) n) 0

def stat (i : Nat) : Stat :=
  ⟨i, fs.nlink i, (fs.content i).length⟩

/-- `mkdir(parents=True, exist_ok=True)`. -/
def mkdir (d : π) : FileSystem π β :=
  { fs with dirs := d :: fs.dirs }

/-- Open for exclusive creation: a new name with an empty new inode. -/
def create (p : π) : Except FileError (FileSystem π β × Nat) :=
  match h : lookup Prod.fst fs.entries p with
  | some _ => .error .exists
  | none =>
    .ok ({ fs with
      entries := (p, fs.fresh) :: fs.entries
      content := Function.update fs.content fs.fresh []
      readOnly := Function.update fs.readOnly fs.fresh false
      unique := List.nodup_cons.mpr
        ⟨fun hp => by
          obtain ⟨e, he, hk⟩ := List.mem_map.mp hp
          exact lookup_eq_none.mp h e he hk, fs.unique⟩ }, fs.fresh)

/-- Write at the end of an open file. -/
def append (i : Nat) (bytes : List β) : FileSystem π β :=
  { fs with content := Function.update fs.content i (fs.content i ++ bytes) }

/-- A second name for the inode of a first one; the second name must not exist. -/
def link (p q : π) : Except FileError (FileSystem π β) :=
  match fs.find p, h : lookup Prod.fst fs.entries q with
  | none, _ => .error .notFound
  | some _, some _ => .error .exists
  | some i, none =>
    .ok { fs with
      entries := (q, i) :: fs.entries
      unique := List.nodup_cons.mpr
        ⟨fun hq => by
          obtain ⟨e, he, hk⟩ := List.mem_map.mp hq
          exact lookup_eq_none.mp h e he hk, fs.unique⟩ }

/-- Remove a name. -/
def unlink (p : π) : Except FileError (FileSystem π β) :=
  match fs.find p with
  | none => .error .notFound
  | some _ =>
    .ok { fs with
      entries := fs.entries.filter fun e => decide (e.1 ≠ p)
      unique := (List.filter_sublist.map Prod.fst).nodup fs.unique }

/-- Make the inode of a name read-only. -/
def protect (p : π) : Except FileError (FileSystem π β) :=
  match fs.find p with
  | none => .error .notFound
  | some i => .ok { fs with readOnly := Function.update fs.readOnly i true }

/-! ## Names -/

variable {fs} {fs' : FileSystem π β} {p q r : π} {i : Nat}

theorem find_eq_some : fs.find p = some i ↔ (p, i) ∈ fs.entries := by
  constructor
  · intro h
    obtain ⟨⟨q, j⟩, he, rfl⟩ := Option.map_eq_some_iff.mp h
    have hq : q = p := key_of_lookup he
    exact hq ▸ mem_of_lookup he
  · intro h
    have hlook := lookup_of_mem fs.unique h
    exact Option.map_eq_some_iff.mpr ⟨(p, i), hlook, rfl⟩

theorem find_eq_none : fs.find p = none ↔ lookup Prod.fst fs.entries p = none :=
  Option.map_eq_none_iff

theorem lt_fresh (h : fs.find p = some i) : i < fs.fresh := by
  have hall : ∀ entries : List (π × Nat), (p, i) ∈ entries →
      i < entries.foldr (fun e n => max (e.2 + 1) n) 0 := by
    intro entries hmem
    induction entries with
    | nil => cases hmem
    | cons e rest ih =>
      simp only [List.foldr_cons]
      rcases List.mem_cons.mp hmem with rfl | hrest
      · simp only
        omega
      · have := ih hrest
        omega
  exact hall fs.entries (find_eq_some.mp h)

/-- A named inode has link count one if and only if it has no second name. -/
theorem nlink_eq_one (h : fs.find p = some i) :
    fs.nlink i = 1 ↔ ∀ q, fs.find q = some i → q = p := by
  have hmem : ∀ q, fs.find q = some i ↔ (q, i) ∈ fs.entries.filter fun e => decide (e.2 = i) := by
    intro q
    rw [find_eq_some, List.mem_filter]
    simp
  rw [nlink, List.countP_eq_length_filter]
  constructor
  · intro hone q hq
    obtain ⟨e, he⟩ := List.length_eq_one_iff.mp hone
    rw [hmem, he, List.mem_singleton] at h hq
    exact congrArg Prod.fst (hq.trans h.symm)
  · intro hsole
    -- Every entry of the inode is the one of `p`, and entries do not repeat.
    have hall : (fs.entries.filter fun e => decide (e.2 = i)) ⊆ [(p, i)] := by
      rintro ⟨q, j⟩ hq
      have hj : j = i := of_decide_eq_true (List.mem_filter.mp hq).2
      subst hj
      rw [hsole q ((hmem q).mpr hq)]
      exact List.mem_singleton_self _
    have hnodup : (fs.entries.filter fun e => decide (e.2 = i)).Nodup :=
      (List.Nodup.of_map Prod.fst fs.unique).filter _
    have hle := (List.subperm_of_subset hnodup hall).length_le
    have hpos := List.length_pos_of_mem ((hmem p).mp h)
    simp only [List.length_singleton] at hle
    omega

/-! ## What the calls do to the names -/

theorem create_eq_ok (h : fs.find p = none) :
    ∃ fs' i, fs.create p = .ok (fs', i) := by
  unfold create
  split
  · rename_i hsome
    rw [find_eq_none.mp h] at hsome
    cases hsome
  · exact ⟨_, _, rfl⟩

theorem create_spec (h : fs.create p = .ok (fs', i)) :
    fs'.find p = some i ∧ (∀ q, q ≠ p → fs'.find q = fs.find q) ∧ (∀ q, fs.find q ≠ some i) ∧
      fs'.content = Function.update fs.content i [] ∧ fs'.dirs = fs.dirs := by
  unfold create at h
  split at h
  · cases h
  · cases h
    refine ⟨?_, ?_, ?_, rfl, rfl⟩
    · simp [find, lookup_cons]
    · intro q hq
      simp [find, lookup_cons, Ne.symm hq]
    · intro q hq
      exact absurd (lt_fresh hq) (Nat.lt_irrefl _)

theorem link_cases (p q : π) (fs : FileSystem π β) :
    (fs.find p = none ∧ fs.link p q = .error .notFound) ∨
      (fs.find p ≠ none ∧ fs.find q ≠ none ∧ fs.link p q = .error .exists) ∨
      ∃ i fs', fs.find p = some i ∧ fs.find q = none ∧ fs.link p q = .ok fs' ∧
        fs'.find q = some i ∧ (∀ r, r ≠ q → fs'.find r = fs.find r) ∧
        fs'.content = fs.content ∧ fs'.dirs = fs.dirs := by
  unfold link
  split
  · rename_i hp
    exact .inl ⟨hp, rfl⟩
  · rename_i hp hq
    refine .inr (.inl ⟨by rw [hp]; simp, ?_, rfl⟩)
    rw [Ne, find_eq_none, hq]
    simp
  · rename_i i hp hq
    refine .inr (.inr ⟨i, _, hp, find_eq_none.mpr hq, rfl, ?_, ?_, rfl, rfl⟩)
    · simp [find, lookup_cons]
    · intro r hr
      simp [find, lookup_cons, Ne.symm hr]

theorem lookup_filter_ne (p q : π) (entries : List (π × Nat)) (hq : q ≠ p) :
    lookup Prod.fst (entries.filter fun e => decide (e.1 ≠ p)) q = lookup Prod.fst entries q := by
  rw [lookup, lookup, List.find?_filter]
  congr 1
  funext e
  by_cases he : e.1 = q
  · simp [he, hq]
  · simp [he]

theorem unlink_cases (p : π) (fs : FileSystem π β) :
    (fs.find p = none ∧ fs.unlink p = .error .notFound) ∨
      ∃ fs', fs.find p ≠ none ∧ fs.unlink p = .ok fs' ∧ fs'.find p = none ∧
        (∀ q, q ≠ p → fs'.find q = fs.find q) ∧ fs'.content = fs.content ∧ fs'.dirs = fs.dirs := by
  unfold unlink
  split
  · rename_i hp
    exact .inl ⟨hp, rfl⟩
  · rename_i i hp
    refine .inr ⟨_, by rw [hp]; simp, rfl, ?_, ?_, rfl, rfl⟩
    · rw [find_eq_none, lookup_eq_none]
      intro e he
      simpa using (List.mem_filter.mp he).2
    · intro q hq
      simp only [find, lookup_filter_ne p q fs.entries hq]

theorem protect_cases (p : π) (fs : FileSystem π β) :
    (fs.find p = none ∧ fs.protect p = .error .notFound) ∨
      ∃ fs', fs.find p ≠ none ∧ fs.protect p = .ok fs' ∧ (∀ q, fs'.find q = fs.find q) ∧
        fs'.content = fs.content ∧ fs'.dirs = fs.dirs := by
  unfold protect
  split
  · rename_i hp
    exact .inl ⟨hp, rfl⟩
  · rename_i i hp
    exact .inr ⟨_, by rw [hp]; simp, rfl, fun _ => rfl, rfl, rfl⟩

@[simp] theorem stat_ino : (fs.stat i).ino = i := rfl
@[simp] theorem stat_size : (fs.stat i).size = (fs.content i).length := rfl
@[simp] theorem find_mkdir (d : π) : (fs.mkdir d).find p = fs.find p := rfl
@[simp] theorem content_mkdir (d : π) : (fs.mkdir d).content = fs.content := rfl
@[simp] theorem dirs_mkdir (d : π) : (fs.mkdir d).dirs = d :: fs.dirs := rfl
@[simp] theorem find_append (bytes : List β) : (fs.append i bytes).find p = fs.find p := rfl
@[simp] theorem dirs_append (bytes : List β) : (fs.append i bytes).dirs = fs.dirs := rfl

theorem content_append (bytes : List β) :
    (fs.append i bytes).content = Function.update fs.content i (fs.content i ++ bytes) := rfl

end FileSystem

end Makolet.Lib
