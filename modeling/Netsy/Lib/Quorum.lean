import Mathlib.Data.Finset.Card
import Mathlib.Tactic.Common

/-! # Sets that meet every large set

A set of holders meets every subset of a universe of at least `m` elements exactly if the universe
has fewer elements than the holders in it and `m` together. -/

namespace Netsy.Lib.Quorum

variable {α : Type*} [DecidableEq α] {holders univ : Finset α} {m : ℕ}

/-- Any `m` elements of the universe include a holder. -/
def Covers (univ : Finset α) (m : ℕ) (holders : Finset α) : Prop :=
  univ.card < (holders ∩ univ).card + m

instance : Decidable (Covers univ m holders) := inferInstanceAs (Decidable (_ < _))

theorem covers_iff :
    Covers univ m holders ↔
      ∀ t ⊆ univ, m ≤ t.card → ∃ x ∈ t, x ∈ holders ∩ univ := by
  constructor
  · intro h t ht hm
    have hlt : univ.card < (holders ∩ univ).card + t.card := by
      unfold Covers at h
      omega
    obtain ⟨x, hx⟩ :=
      Finset.inter_nonempty_of_card_lt_card_add_card Finset.inter_subset_right ht hlt
    exact ⟨x, (Finset.mem_inter.mp hx).2, (Finset.mem_inter.mp hx).1⟩
  · intro h
    by_contra hc
    -- the elements that are no holders are then enough of them
    have hcard : (univ \ holders).card + (holders ∩ univ).card = univ.card := by
      rw [Finset.inter_comm]
      exact Finset.card_sdiff_add_card_inter univ holders
    obtain ⟨x, hx, hxh⟩ := h (univ \ holders) Finset.sdiff_subset (by
      unfold Covers at hc
      omega)
    exact (Finset.mem_sdiff.mp hx).2 (Finset.mem_inter.mp hxh).1

theorem covers_of_majorities (hsub : holders ⊆ univ) (hcard : univ.card / 2 + 1 ≤ holders.card) :
    Covers univ (univ.card / 2 + 1) holders := by
  unfold Covers
  rw [Finset.inter_eq_left.mpr hsub]
  omega

end Netsy.Lib.Quorum
