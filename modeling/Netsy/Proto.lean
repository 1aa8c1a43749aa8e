import Mathlib.Data.Int.Order.Basic
import Mathlib.Tactic.Common

/-! # The messages of the cluster

`Record` is the row of the log: what a transaction inserts, what the Primary streams to its
Replicas, what a data file holds. Two copies of one record may differ in what compaction empties
(`value`, `compactedAt`) and in what each node or file stamps on its copy (`replicatedAt`, `crc`);
`SameRecord` is equality up to these. -/

namespace Netsy.Proto

abbrev Bytes := List UInt8

/-- Nanoseconds since the epoch. -/
abbrev Time := ℤ

def nanosPerSecond : ℤ := 1000000000

abbrev NodeID := String

/-- `proto.Record`. A nil and an empty `value` are one value here, as they are for `bytes.Equal`. -/
structure Record where
  revision : ℤ := 0
  key : Bytes := []
  created : Bool := false
  deleted : Bool := false
  createRevision : ℤ := 0
  prevRevision : ℤ := 0
  version : ℤ := 0
  lease : ℤ := 0
  dek : ℤ := 0
  value : Bytes := []
  createdAt : Option Time := none
  compactedAt : Option Time := none
  leaderId : String := ""
  replicatedAt : Option Time := none
  crc : UInt64 := 0
deriving DecidableEq, Repr

/-- `proto.PrimaryMessage`, what the Primary sends on a Follow stream. -/
inductive PrimaryMessage
  | initial (committedRevision compactionRevision : ℤ)
  | record (record : Record)
  | commit (committedRevision : ℤ)
  | compact (compactionRevision : ℤ)
deriving DecidableEq, Repr

/-! ### Copies of one record -/

/-- The fields that every copy of a record shares. -/
def Record.identity (r : Record) : Record :=
  { r with value := [], compactedAt := none, replicatedAt := none, crc := 0 }

/-- Equality up to compaction, `replicated_at` and `crc`: the values may differ only where one
of the two copies has been compacted. -/
def SameRecord (a b : Record) : Prop :=
  a.identity = b.identity ∧ (a.value = b.value ∨ a.compactedAt ≠ none ∨ b.compactedAt ≠ none)

instance (a b : Record) : Decidable (SameRecord a b) := inferInstanceAs (Decidable (_ ∧ _))

@[refl] theorem SameRecord.refl (a : Record) : SameRecord a a := ⟨rfl, Or.inl rfl⟩

theorem SameRecord.revision_eq {a b : Record} (h : SameRecord a b) : a.revision = b.revision :=
  (congrArg Record.revision h.1 :)

/-- `b` is the row `a`, as it was or compacted since. -/
def Kept (a b : Record) : Prop :=
  b = a ∨ (b.compactedAt ≠ none ∧ b = { a with value := [], compactedAt := b.compactedAt })

@[refl] theorem Kept.refl (a : Record) : Kept a a := Or.inl rfl

theorem kept_compact (a : Record) (t : Time) :
    Kept a { a with value := [], compactedAt := some t } := Or.inr ⟨by simp, rfl⟩

theorem Kept.trans {a b c : Record} (hab : Kept a b) (hbc : Kept b c) : Kept a c := by
  rcases hbc with rfl | ⟨hc, hbc⟩
  · exact hab
  · rcases hab with rfl | ⟨-, hab⟩
    · exact Or.inr ⟨hc, hbc⟩
    · rw [hab] at hbc
      exact Or.inr ⟨hc, hbc⟩

theorem Kept.revision_eq {a b : Record} (h : Kept a b) : b.revision = a.revision := by
  rcases h with rfl | ⟨-, h⟩
  · rfl
  · rw [h]

theorem Kept.key_eq {a b : Record} (h : Kept a b) : b.key = a.key := by
  rcases h with rfl | ⟨-, h⟩
  · rfl
  · rw [h]

theorem Kept.deleted_eq {a b : Record} (h : Kept a b) : b.deleted = a.deleted := by
  rcases h with rfl | ⟨-, h⟩
  · rfl
  · rw [h]

theorem Kept.eq_of_not_compacted {a b : Record} (h : Kept a b) (hb : b.compactedAt = none) :
    b = a := by
  rcases h with h | ⟨hmarked, -⟩
  · exact h
  · exact absurd hb hmarked

theorem Kept.sameRecord {a b r : Record} (h : Kept a b) (hr : SameRecord a r) : SameRecord b r := by
  rcases h with rfl | ⟨hc, h⟩
  · exact hr
  · refine ⟨?_, Or.inr (Or.inl hc)⟩
    rw [h]
    exact hr.1

end Netsy.Proto
