import Mathlib.Logic.Function.Basic
import Mathlib.Data.Int.Order.Basic
import Mathlib.Tactic.Common

/-! # Versioned maps

A map whose entries carry the revisions at which they were created and last modified and the number
of writes since their creation, with a counter of revisions. Every successful operation takes the
next revision; an operation that compares with another revision than the entry's fails. -/

namespace Netsy.Lib.VersionedMap

variable {κ V : Type*}

structure Entry (V : Type*) where
  value : V
  createRevision : ℤ
  modRevision : ℤ
  version : ℤ
deriving DecidableEq, Repr

/-- A creation requires that the key is absent, an update and a deletion that it was last modified
at this revision. -/
inductive Op (κ V : Type*)
  | create (key : κ) (value : V)
  | update (key : κ) (value : V) (modRevision : ℤ)
  | delete (key : κ) (modRevision : ℤ)
deriving DecidableEq, Repr

def Op.key : Op κ V → κ
  | .create key _ => key
  | .update key _ _ => key
  | .delete key _ => key

/-- The entry that the operation writes at a revision over the old one; `none` if it fails. -/
def Op.write (revision : ℤ) : Op κ V → Option (Entry V) → Option (Option (Entry V))
  | .create _ value, none => some (some ⟨value, revision, revision, 1⟩)
  | .update _ value modRevision, some e =>
    if e.modRevision = modRevision then
      some (some ⟨value, e.createRevision, revision, e.version + 1⟩)
    else none
  | .delete _ modRevision, some e => if e.modRevision = modRevision then some none else none
  | _, _ => none

structure Store (κ V : Type*) where
  revision : ℤ
  entries : κ → Option (Entry V)

/-- The store before the first operation. -/
def Store.empty : Store κ V := ⟨0, fun _ => none⟩

/-- The revision at which a key was last modified, `0` if the key is absent. -/
def Store.modRevision (s : Store κ V) (key : κ) : ℤ :=
  ((s.entries key).map Entry.modRevision).getD 0

/-- Every entry was modified at a revision that has been given out. -/
def Store.WellFormed (s : Store κ V) : Prop :=
  ∀ key e, s.entries key = some e → 0 < e.modRevision ∧ e.modRevision ≤ s.revision

theorem wellFormed_empty : (Store.empty : Store κ V).WellFormed := fun _ _ h => nomatch h

/-- What becomes of each key: `none` if it stays as it is, otherwise its new value, and no value if
it is deleted. -/
def Store.effect [DecidableEq V] (s s' : Store κ V) (key : κ) : Option (Option V) :=
  if s'.entries key = s.entries key then none else some ((s'.entries key).map Entry.value)

section

variable [DecidableEq κ]

/-- A successful operation takes the next revision and changes the entry of its key; `none` if the
operation fails. -/
def Store.apply (s : Store κ V) (op : Op κ V) : Option (Store κ V) :=
  (op.write (s.revision + 1) (s.entries op.key)).map fun e =>
    ⟨s.revision + 1, Function.update s.entries op.key e⟩

/-- The store after the operations; one that fails changes nothing. -/
def Store.run (s : Store κ V) (ops : List (Op κ V)) : Store κ V :=
  ops.foldl (fun s op => (s.apply op).getD s) s

/-- The operations that succeed. -/
def Store.successful (s : Store κ V) : List (Op κ V) → List (Op κ V)
  | [] => []
  | op :: ops =>
    match s.apply op with
    | none => s.successful ops
    | some s' => op :: s'.successful ops

variable {s s' : Store κ V} {op : Op κ V} {ops : List (Op κ V)}

theorem revision_apply (h : s.apply op = some s') : s'.revision = s.revision + 1 := by
  obtain ⟨e, -, rfl⟩ := Option.map_eq_some_iff.mp h
  rfl

theorem run_append_some (h : (s.run ops).apply op = some s') : s.run (ops ++ [op]) = s' := by
  unfold Store.run at h ⊢
  rw [List.foldl_append, List.foldl_cons, List.foldl_nil, h]
  rfl

theorem run_append_none (h : (s.run ops).apply op = none) : s.run (ops ++ [op]) = s.run ops := by
  unfold Store.run at h ⊢
  rw [List.foldl_append, List.foldl_cons, List.foldl_nil, h]
  rfl

theorem successful_append (s : Store κ V) (ops : List (Op κ V)) (op : Op κ V) :
    s.successful (ops ++ [op]) =
      s.successful ops ++ if ((s.run ops).apply op).isSome then [op] else [] := by
  induction ops generalizing s with
  | nil =>
    change s.successful [op] = if (s.apply op).isSome then [op] else []
    unfold Store.successful
    cases s.apply op with
    | none => rfl
    | some s' => rfl
  | cons a ops ih =>
    have hrun : s.run (a :: ops) = ((s.apply a).getD s).run ops := rfl
    rw [List.cons_append, hrun, Store.successful, Store.successful]
    cases s.apply a with
    | none => exact ih s
    | some s' =>
      rw [List.cons_append]
      exact congrArg _ (ih s')

theorem run_successful (s : Store κ V) (ops : List (Op κ V)) :
    s.run (s.successful ops) = s.run ops := by
  induction ops generalizing s with
  | nil => rfl
  | cons a ops ih =>
    have hrun : ∀ ops, s.run (a :: ops) = ((s.apply a).getD s).run ops := fun _ => rfl
    rw [Store.successful, hrun]
    cases ha : s.apply a with
    | none => exact ih s
    | some s' =>
      rw [hrun, ha]
      exact ih s'

theorem length_successful (s : Store κ V) (ops : List (Op κ V)) :
    ((s.successful ops).length : ℤ) = (s.run ops).revision - s.revision := by
  induction ops generalizing s with
  | nil => simp [Store.successful, Store.run]
  | cons a ops ih =>
    have hrun : s.run (a :: ops) = ((s.apply a).getD s).run ops := rfl
    rw [Store.successful, hrun]
    cases ha : s.apply a with
    | none => exact ih s
    | some s' =>
      have := ih s'
      have := revision_apply ha
      rw [List.length_cons, Option.getD_some]
      omega

/-! ### What an operation does to its key -/

/-- The revision that an operation compares with, `0` if the key is to be absent. -/
def Op.modRevision : Op κ V → ℤ
  | .create _ _ => 0
  | .update _ _ modRevision => modRevision
  | .delete _ modRevision => modRevision

/-- An update or a deletion compares with a revision that a key can have. -/
def Op.Proper : Op κ V → Prop
  | .create _ _ => True
  | op => 0 < op.modRevision

/-- The value that the key has afterwards. -/
def Op.new : Op κ V → Option V
  | .create _ value => some value
  | .update _ value _ => some value
  | .delete _ _ => none

/-- One key gets a new value or is deleted, the others stay as they are. -/
def single (key : κ) (new : Option V) : κ → Option (Option V) :=
  Function.update (fun _ => none) key (some new)

theorem effect_update [DecidableEq V] {key : κ} {e : Option (Entry V)} {revision : ℤ}
    (hne : e ≠ s.entries key) :
    s.effect ⟨revision, Function.update s.entries key e⟩ = single key (e.map Entry.value) := by
  funext k
  by_cases hk : k = key
  · subst hk
    simp [Store.effect, single, hne]
  · simp [Store.effect, single, Function.update_of_ne hk]

theorem map_effect_write [DecidableEq V] {e : Option (Entry V)}
    (hwrite : op.write (s.revision + 1) (s.entries op.key) = some e)
    (hne : e ≠ s.entries op.key) :
    (s.apply op).map s.effect = some (single op.key (e.map Entry.value)) := by
  unfold Store.apply
  rw [hwrite, Option.map_some, Option.map_some, effect_update hne]

theorem map_effect_fails [DecidableEq V]
    (hwrite : op.write (s.revision + 1) (s.entries op.key) = none) :
    (s.apply op).map s.effect = none := by
  unfold Store.apply
  rw [hwrite, Option.map_none, Option.map_none]

theorem map_effect_apply [DecidableEq V] (hs : s.WellFormed) (hop : op.Proper) :
    (s.apply op).map s.effect =
      if s.modRevision op.key = op.modRevision then some (single op.key op.new) else none := by
  unfold Store.modRevision
  cases he : s.entries op.key with
  | none =>
    -- the key is absent: only a creation compares with that
    cases op with
    | create key value =>
      exact map_effect_write (e := some ⟨value, s.revision + 1, s.revision + 1, 1⟩)
        (by rw [he]; rfl) (by rw [he]; simp)
    | update key value m =>
      exact (map_effect_fails (by rw [he]; rfl)).trans (if_neg (Int.ne_of_lt hop)).symm
    | delete key m =>
      exact (map_effect_fails (by rw [he]; rfl)).trans (if_neg (Int.ne_of_lt hop)).symm
  | some e =>
    obtain ⟨hpos, hle⟩ := hs _ _ he
    have hnew : ∀ x c n, some (Entry.mk x c (s.revision + 1) n) ≠ s.entries op.key := by
      intro x c n heq
      rw [he, Option.some.injEq] at heq
      rw [← heq] at hle
      dsimp only at hle
      omega
    cases op with
    | create key value =>
      exact (map_effect_fails (by rw [he]; rfl)).trans (if_neg (Int.ne_of_gt hpos)).symm
    | update key value m =>
      by_cases hm : e.modRevision = m
      · exact (map_effect_write (by rw [he]; exact if_pos hm) (hnew _ _ _)).trans
          (if_pos hm).symm
      · exact (map_effect_fails (by rw [he]; exact if_neg hm)).trans (if_neg hm).symm
    | delete key m =>
      by_cases hm : e.modRevision = m
      · exact (map_effect_write (e := none) (by rw [he]; exact if_pos hm)
          (by rw [he]; simp)).trans (if_pos hm).symm
      · exact (map_effect_fails (by rw [he]; exact if_neg hm)).trans (if_neg hm).symm

/-! ### Stores with given keys -/

/-- The store with a key that was created at this revision. -/
def Store.withKey (s : Store κ V) (key : κ) (value : V) (revision : ℤ) : Store κ V :=
  ⟨max s.revision revision, Function.update s.entries key (some ⟨value, revision, revision, 1⟩)⟩

variable {key k : κ} {value : V} {revision : ℤ}

theorem wellFormed_withKey (hs : s.WellFormed) (hpos : 0 < revision) :
    (s.withKey key value revision).WellFormed := by
  intro k e he
  unfold Store.withKey at he ⊢
  dsimp only at he ⊢
  by_cases hk : k = key
  · subst hk
    rw [Function.update_self] at he
    cases he
    exact ⟨hpos, le_max_right _ _⟩
  · rw [Function.update_of_ne hk] at he
    exact ⟨(hs _ _ he).1, le_trans (hs _ _ he).2 (le_max_left _ _)⟩

theorem entries_withKey : (s.withKey key value revision).entries key =
    some ⟨value, revision, revision, 1⟩ := Function.update_self ..

theorem entries_withKey_of_ne (h : k ≠ key) :
    (s.withKey key value revision).entries k = s.entries k := Function.update_of_ne h ..

end

end Netsy.Lib.VersionedMap
