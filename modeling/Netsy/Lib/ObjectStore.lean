import Mathlib.Data.List.Nodup
import Mathlib.Tactic.Common

/-! # A store of objects with create-only writes

`Bucket κ δ` holds the objects stored under their keys, each key once, and the writes that were
sent and not answered: such a write may be lost or may land at any later time. These writes only
create, so an object stays as it is unless it is overwritten or deleted on purpose. -/

namespace Netsy.Lib.ObjectStore

variable {κ δ : Type*}

structure Bucket (κ δ : Type*) where
  objects : List (κ × δ)
  nodup : (objects.map Prod.fst).Nodup
  /-- The writes that were not answered. -/
  inflight : List (κ × δ)
deriving DecidableEq

/-- How a write ends for its sender: with the answer of the store, or with an error that says
nothing about the store. -/
inductive Delivery
  | answered | failed
deriving DecidableEq, Repr

/-- The answer to a create-only write. -/
inductive PutResult
  | ok | precondition | failed
deriving DecidableEq, Repr

namespace Bucket

instance : Membership (κ × δ) (Bucket κ δ) := ⟨fun b o => o ∈ b.objects⟩

instance [DecidableEq κ] [DecidableEq δ] (o : κ × δ) (b : Bucket κ δ) : Decidable (o ∈ b) :=
  inferInstanceAs (Decidable (o ∈ b.objects))

instance (b : Bucket κ δ) (p : κ × δ → Prop) [DecidablePred p] : Decidable (∀ o ∈ b, p o) :=
  inferInstanceAs (Decidable (∀ o ∈ b.objects, p o))

instance (b : Bucket κ δ) (p : κ × δ → Prop) [DecidablePred p] : Decidable (∃ o ∈ b, p o) :=
  inferInstanceAs (Decidable (∃ o ∈ b.objects, p o))

theorem mem_def {b : Bucket κ δ} {o : κ × δ} : o ∈ b ↔ o ∈ b.objects := Iff.rfl

def empty : Bucket κ δ := ⟨[], List.nodup_nil, []⟩

/-- Some object has the key. -/
def Has (b : Bucket κ δ) (k : κ) : Prop := k ∈ b.objects.map Prod.fst

instance [DecidableEq κ] (b : Bucket κ δ) (k : κ) : Decidable (b.Has k) :=
  inferInstanceAs (Decidable (k ∈ _))

variable {b b' : Bucket κ δ} {k : κ} {d d' : δ} {o : κ × δ} {i : ℕ} {dv : Delivery}

theorem has_iff : b.Has k ↔ ∃ d, (k, d) ∈ b := by
  simp [Has, mem_def]

theorem eq_of_mem (h : (k, d) ∈ b) (h' : (k, d') ∈ b) : d = d' := by
  have := List.inj_on_of_nodup_map b.nodup h h' rfl
  exact congrArg Prod.snd this

/-! ### Requests -/

variable [DecidableEq κ]

def get (b : Bucket κ δ) (k : κ) : Option δ := (b.objects.find? fun o => o.1 = k).map Prod.snd

/-- The write reaches the store. -/
def create (b : Bucket κ δ) (k : κ) (d : δ) : Bucket κ δ :=
  if h : b.Has k then b
  else ⟨(k, d) :: b.objects, List.nodup_cons.mpr ⟨h, b.nodup⟩, b.inflight⟩

/-- A create-only write as its sender sees it. -/
def putIfMatch (b : Bucket κ δ) (k : κ) (d : δ) : Delivery → Bucket κ δ × PutResult
  | .answered => (b.create k d, if b.Has k then .precondition else .ok)
  | .failed => ({ b with inflight := (k, d) :: b.inflight }, .failed)

/-- A write that was not answered reaches the store. -/
def land (b : Bucket κ δ) (i : ℕ) : Option (Bucket κ δ) :=
  b.inflight[i]?.map fun o =>
    { b.create o.1 o.2 with inflight := b.inflight.eraseIdx i }

/-- An unconditional write. -/
def put (b : Bucket κ δ) (k : κ) (d : δ) : Bucket κ δ where
  objects := (k, d) :: b.objects.filter fun o => o.1 ≠ k
  nodup := by
    rw [List.map_cons, List.nodup_cons]
    exact ⟨by simp, b.nodup.sublist (List.filter_sublist.map _)⟩
  inflight := b.inflight

def delete (b : Bucket κ δ) (k : κ) : Bucket κ δ where
  objects := b.objects.filter fun o => o.1 ≠ k
  nodup := b.nodup.sublist (List.filter_sublist.map _)
  inflight := b.inflight

/-! ### Lemmas -/

theorem mem_put : o ∈ b.put k d ↔ o = (k, d) ∨ (o ∈ b ∧ o.1 ≠ k) := by
  simp [mem_def, put]

theorem mem_delete : o ∈ b.delete k ↔ o ∈ b ∧ o.1 ≠ k := by
  simp [mem_def, delete]

theorem get_eq_some : b.get k = some d ↔ (k, d) ∈ b := by
  unfold get
  constructor
  · intro h
    obtain ⟨o, ho, rfl⟩ := Option.map_eq_some_iff.mp h
    have hk : o.1 = k := by simpa using List.find?_some ho
    exact hk ▸ List.mem_of_find?_eq_some ho
  · intro h
    cases hf : b.objects.find? fun o => decide (o.1 = k) with
    | none => simpa using List.find?_eq_none.mp hf _ h
    | some o =>
      have hk : o.1 = k := by simpa using List.find?_some hf
      have ho : (k, o.2) ∈ b := hk ▸ List.mem_of_find?_eq_some hf
      rw [Option.map_some, eq_of_mem ho h]

theorem mem_create : o ∈ b.create k d ↔ o ∈ b ∨ (o = (k, d) ∧ ¬ b.Has k) := by
  unfold create
  split_ifs with h
  · simp [h]
  · simp [mem_def, h, or_comm]

theorem mem_create_of_mem (h : o ∈ b) : o ∈ b.create k d := mem_create.mpr (Or.inl h)

theorem inflight_create : (b.create k d).inflight = b.inflight := by
  unfold create
  split_ifs <;> rfl

theorem mem_putIfMatch_of_mem (h : o ∈ b) : o ∈ (b.putIfMatch k d dv).1 := by
  cases dv with
  | answered => exact mem_create_of_mem h
  | failed => exact h

theorem has_putIfMatch_of_has {k' : κ} (h : b.Has k') : (b.putIfMatch k d dv).1.Has k' := by
  obtain ⟨d', hd'⟩ := has_iff.mp h
  exact has_iff.mpr ⟨d', mem_putIfMatch_of_mem hd'⟩

theorem mem_of_putIfMatch_ok (h : (b.putIfMatch k d dv).2 = .ok) :
    (k, d) ∈ (b.putIfMatch k d dv).1 ∧ ¬ b.Has k := by
  cases dv with
  | failed => simp [putIfMatch] at h
  | answered =>
    simp only [putIfMatch] at h
    split_ifs at h with hk
    exact ⟨mem_create.mpr (Or.inr ⟨rfl, hk⟩), hk⟩

theorem mem_putIfMatch (h : o ∈ (b.putIfMatch k d dv).1) :
    o ∈ b ∨ (o = (k, d) ∧ (b.putIfMatch k d dv).2 = .ok) := by
  cases dv with
  | failed => exact Or.inl h
  | answered =>
    rcases mem_create.mp h with h | ⟨rfl, hk⟩
    · exact Or.inl h
    · exact Or.inr ⟨rfl, by simp [putIfMatch, hk]⟩

theorem mem_inflight_putIfMatch (h : o ∈ (b.putIfMatch k d dv).1.inflight) :
    o ∈ b.inflight ∨ o = (k, d) := by
  cases dv with
  | answered =>
    simp only [putIfMatch, inflight_create] at h
    exact Or.inl h
  | failed => exact (List.mem_cons.mp h).symm

theorem land_eq_some (h : b.land i = some b') :
    ∃ k d, (k, d) ∈ b.inflight ∧ (∀ o, o ∈ b' ↔ o ∈ b.create k d) ∧
      ∀ o ∈ b'.inflight, o ∈ b.inflight := by
  obtain ⟨⟨k, d⟩, ho, rfl⟩ := Option.map_eq_some_iff.mp h
  exact ⟨k, d, List.mem_of_getElem? ho, fun o => Iff.rfl, fun o ho' => List.mem_of_mem_eraseIdx ho'⟩

end Bucket

/-! ### Conditional writes of one object -/

/-- A write that takes effect only if the object is the expected one, `none` if there must be
none. -/
structure ConditionalPut (δ : Type*) where
  expected : Option δ
  data : δ
deriving DecidableEq

namespace ConditionalPut

variable {put : ConditionalPut δ} {current : Option δ}

def apply [DecidableEq δ] (put : ConditionalPut δ) (current : Option δ) : Option δ :=
  if current = put.expected then some put.data else current

theorem apply_of_eq [DecidableEq δ] (h : current = put.expected) :
    put.apply current = some put.data := if_pos h

/-- **A conditional write goes where it was meant to go**: what relates its data to what it expected
relates the object after it to the object before. -/
theorem apply_rel [DecidableEq δ] {R : Option δ → Option δ → Prop} (hrefl : R current current)
    (hput : R put.expected (some put.data)) : R current (put.apply current) := by
  unfold apply
  split_ifs with h
  · rw [h]
    exact hput
  · exact hrefl

end ConditionalPut

end Netsy.Lib.ObjectStore
