import Mathlib.Data.List.Lex
import Mathlib.Order.Cover

/-! # Intervals of the lexicographic order

Strings over a linearly ordered alphabet, in lexicographic order. What two bounds have in common is
a prefix of everything between them (`between_append_iff`), so an interval is known from where its
bounds part: up to a least letter it holds one string, up to the next letter all strings that start
with the lower bound. -/

namespace Netsy.Lib.LexOrder

variable {α : Type*} [LinearOrder α] {a b z : α} {p k l m : List α}

theorem cons_le_cons_iff : a :: l ≤ b :: m ↔ a < b ∨ a = b ∧ l ≤ m := by
  rw [← not_lt, ← not_lt, List.cons_lt_cons_iff]
  constructor
  · intro h
    rcases lt_trichotomy a b with hlt | rfl | hgt
    · exact Or.inl hlt
    · exact Or.inr ⟨rfl, fun hlt => h (Or.inr ⟨rfl, hlt⟩)⟩
    · exact absurd (Or.inl hgt) h
  · rintro (hlt | ⟨rfl, hle⟩) (hgt | ⟨he, hgt⟩)
    · exact lt_asymm hlt hgt
    · exact hlt.ne' he
    · exact lt_irrefl a hgt
    · exact hle hgt

theorem nil_le (l : List α) : [] ≤ l := not_lt.mp (List.not_lt_nil l)

theorem not_cons_le_nil : ¬ a :: l ≤ [] := not_le.mpr (List.nil_lt_cons a l)

theorem between_append_iff :
    (p ++ l ≤ k ∧ k < p ++ m) ↔ ∃ k', k = p ++ k' ∧ l ≤ k' ∧ k' < m := by
  induction p generalizing k with
  | nil => simp
  | cons c p ih =>
    cases k with
    | nil => simp [not_cons_le_nil]
    | cons d k =>
      rw [List.cons_append, List.cons_append, cons_le_cons_iff, List.cons_lt_cons_iff]
      constructor
      · rintro ⟨hcd | ⟨rfl, hle⟩, hdc | ⟨he, hlt⟩⟩
        · exact absurd hdc (lt_asymm hcd)
        · exact absurd he hcd.ne'
        · exact absurd hdc (lt_irrefl _)
        · obtain ⟨k', rfl, hk'⟩ := ih.mp ⟨hle, hlt⟩
          exact ⟨k', rfl, hk'⟩
      · rintro ⟨k', he, hk'⟩
        obtain ⟨rfl, rfl⟩ := List.cons.inj he
        obtain ⟨hle, hlt⟩ := ih.mpr ⟨k', rfl, hk'⟩
        exact ⟨Or.inr ⟨rfl, hle⟩, Or.inr ⟨rfl, hlt⟩⟩

theorem between_append_bot_iff (hz : IsBot z) : (p ≤ k ∧ k < p ++ [z]) ↔ k = p := by
  have hnil : ∀ k' : List α, k' < [z] ↔ k' = [] := by
    intro k'
    cases k' with
    | nil => simp
    | cons c k' => simp [List.cons_lt_cons_iff, (hz c).not_gt]
  have h := between_append_iff (p := p) (l := []) (m := [z]) (k := k)
  rw [List.append_nil] at h
  rw [h]
  simp [hnil, nil_le]

theorem between_covBy_iff (h : a ⋖ b) : (p ++ [a] ≤ k ∧ k < p ++ [b]) ↔ p ++ [a] <+: k := by
  rw [between_append_iff]
  constructor
  · rintro ⟨k', rfl, hle, hlt⟩
    cases k' with
    | nil => exact absurd hle not_cons_le_nil
    | cons c k' =>
      have hca : c = a := by
        rcases cons_le_cons_iff.mp hle with hac | ⟨rfl, -⟩
        · rcases List.cons_lt_cons_iff.mp hlt with hcb | ⟨-, hk⟩
          · exact absurd hcb (h.2 hac)
          · exact absurd hk (List.not_lt_nil k')
        · rfl
      subst hca
      exact ⟨k', by simp⟩
  · rintro ⟨t, rfl⟩
    refine ⟨a :: t, by simp, cons_le_cons_iff.mpr (Or.inr ⟨rfl, nil_le t⟩), ?_⟩
    exact List.cons_lt_cons_iff.mpr (Or.inl h.1)

theorem not_between_of_le (h : b ≤ a) : ¬ (p ++ [a] ≤ k ∧ k < p ++ [b]) := by
  rw [between_append_iff]
  rintro ⟨k', -, hle, hlt⟩
  rcases List.cons_lt_cons_iff.mp (hle.trans_lt hlt) with hab | ⟨-, hab⟩
  · exact absurd hab h.not_gt
  · exact List.not_lt_nil _ hab

end Netsy.Lib.LexOrder
