import Mathlib.Order.Lattice
import Mathlib.Data.List.Basic
import Mathlib.Data.List.Induction
import Mathlib.Data.Int.Order.Basic

/-! # Lists kept in ascending order of a key

Rows of a table with a primary key, as a list in strictly ascending order of the key: insertion
(`insertBy`), the row of a key, the last row. A row is determined by its key
(`eq_of_key_eq`), so facts about such a table are facts about membership. -/

namespace Netsy.Lib.SortedList

variable {α κ : Type*} [LinearOrder κ] {key : α → κ} {a b : α} {l : List α}

/-- The rows are in strictly ascending order of their keys. -/
def Ascending (key : α → κ) (l : List α) : Prop := l.Pairwise fun a b => key a < key b

instance : Decidable (Ascending key l) := inferInstanceAs (Decidable (List.Pairwise _ _))

/-- Inserts a row before the first row with a larger key. -/
def insertBy (key : α → κ) (a : α) : List α → List α
  | [] => [a]
  | b :: l => if key a < key b then a :: b :: l else b :: insertBy key a l

theorem mem_insertBy : b ∈ insertBy key a l ↔ b = a ∨ b ∈ l := by
  induction l with
  | nil => simp [insertBy]
  | cons c l ih =>
    unfold insertBy
    split_ifs
    · simp
    · simp only [List.mem_cons, ih]
      constructor
      · rintro (h | h | h)
        · exact Or.inr (Or.inl h)
        · exact Or.inl h
        · exact Or.inr (Or.inr h)
      · rintro (h | h | h)
        · exact Or.inr (Or.inl h)
        · exact Or.inl h
        · exact Or.inr (Or.inr h)

theorem pairwise_insertBy_of_symm {r : α → α → Prop} (hsymm : ∀ x y, r x y → r y x)
    (hl : l.Pairwise r) (ha : ∀ b ∈ l, r a b) : (insertBy key a l).Pairwise r := by
  induction l with
  | nil => simp [insertBy]
  | cons c l ih =>
    obtain ⟨hc, hl'⟩ := List.pairwise_cons.mp hl
    unfold insertBy
    split_ifs
    · exact List.pairwise_cons.mpr ⟨ha, hl⟩
    · refine List.pairwise_cons.mpr ⟨fun b hb => ?_, ih hl' fun b hb => ha b (by simp [hb])⟩
      rcases mem_insertBy.mp hb with rfl | hb
      · exact hsymm _ _ (ha c (by simp))
      · exact hc b hb

theorem ascending_insertBy (hl : Ascending key l) (ha : ∀ b ∈ l, key b ≠ key a) :
    Ascending key (insertBy key a l) := by
  induction l with
  | nil => simp [Ascending, insertBy]
  | cons c l ih =>
    obtain ⟨hc, hl'⟩ := List.pairwise_cons.mp hl
    unfold insertBy
    split_ifs with h
    · refine List.pairwise_cons.mpr ⟨fun b hb => ?_, hl⟩
      rcases List.mem_cons.mp hb with rfl | hb
      · exact h
      · exact lt_trans h (hc b hb)
    · have hca : key c < key a := lt_of_le_of_ne (not_lt.mp h) (ha c (by simp))
      refine List.pairwise_cons.mpr ⟨fun b hb => ?_, ih hl' fun b hb => ha b (by simp [hb])⟩
      rcases mem_insertBy.mp hb with rfl | hb
      · exact hca
      · exact hc b hb

theorem eq_of_key_eq (hl : Ascending key l) (ha : a ∈ l) (hb : b ∈ l) (h : key a = key b) :
    a = b := by
  induction l with
  | nil => simp at ha
  | cons c l ih =>
    obtain ⟨hc, hl'⟩ := List.pairwise_cons.mp hl
    rcases List.mem_cons.mp ha with ha | ha <;> rcases List.mem_cons.mp hb with hb | hb
    · rw [ha, hb]
    · exact absurd (ha ▸ h) (hc b hb).ne
    · exact absurd (hb ▸ h) (hc a ha).ne'
    · exact ih hl' ha hb

theorem eq_singleton_of_mem_iff (hl : Ascending key l) (h : ∀ b, b ∈ l ↔ b = a) : l = [a] := by
  cases l with
  | nil => exact absurd ((h a).mpr rfl) List.not_mem_nil
  | cons b l =>
    obtain rfl := (h b).mp List.mem_cons_self
    cases l with
    | nil => rfl
    | cons b' l =>
      have hlt := (List.pairwise_cons.mp hl).1 b' List.mem_cons_self
      rw [(h b').mp (List.mem_cons_of_mem _ List.mem_cons_self)] at hlt
      exact absurd hlt (lt_irrefl _)

theorem ascending_ext {l' : List α} (hl : Ascending key l) (hl' : Ascending key l')
    (h : ∀ b, b ∈ l ↔ b ∈ l') : l = l' := by
  have hnodup : ∀ {l : List α}, Ascending key l → l.Nodup := fun hl =>
    List.Pairwise.imp (fun hlt he => absurd (congrArg key he) hlt.ne) hl
  have hperm := (List.perm_ext_iff_of_nodup (hnodup hl) (hnodup hl')).mpr h
  refine hperm.eq_of_pairwise (fun a b ha hb hab hba => ?_) hl hl'
  exact absurd (hab.trans hba) (lt_irrefl _)

theorem mem_of_isPrefix_of_lt {l' : List α} (hl : Ascending key l) (hp : l' <+: l) (ha : a ∈ l')
    (hb : b ∈ l) (hlt : key b < key a) : b ∈ l' := by
  obtain ⟨l'', rfl⟩ := hp
  rcases List.mem_append.mp hb with hb | hb
  · exact hb
  · exact absurd ((List.pairwise_append.mp hl).2.2 a ha b hb) hlt.asymm

theorem filter_lt_getLast? {l' : List α} (hl : Ascending key (l ++ l'))
    (ha : l.getLast? = some a) : (l ++ l').filter (fun b => key a < key b) = l' := by
  obtain ⟨l, rfl⟩ := List.getLast?_eq_some_iff.mp ha
  obtain ⟨hleft, -, hlt⟩ := List.pairwise_append.mp hl
  rw [List.filter_append, List.filter_eq_nil_iff.mpr, List.filter_eq_self.mpr, List.nil_append]
  · exact fun b hb => decide_eq_true (hlt a (by simp) b hb)
  · intro b hb
    rw [decide_eq_true_eq, not_lt]
    rcases List.mem_append.mp hb with hb | hb
    · exact ((List.pairwise_append.mp hleft).2.2 b hb a (by simp)).le
    · rw [List.mem_singleton.mp hb]

theorem find?_key_eq_some (hl : Ascending key l) (k : κ) :
    l.find? (fun b => key b = k) = some a ↔ a ∈ l ∧ key a = k := by
  constructor
  · intro h
    exact ⟨List.mem_of_find?_eq_some h, by simpa using List.find?_some h⟩
  · rintro ⟨ha, hk⟩
    cases hf : l.find? (fun b => decide (key b = k)) with
    | none => exact absurd hk (by simpa using List.find?_eq_none.mp hf a ha)
    | some b =>
      have hb := List.mem_of_find?_eq_some hf
      have hkb : key b = k := by simpa using List.find?_some hf
      rw [eq_of_key_eq hl ha hb (hk.trans hkb.symm)]

theorem not_of_lt_find? {p : α → Bool} (hl : Ascending key l) (ha : l.find? p = some a)
    (hb : b ∈ l) (hlt : key b < key a) : p b = false := by
  obtain ⟨-, l₁, l₂, rfl, hnot⟩ := List.find?_eq_some_iff_append.mp ha
  rcases List.mem_append.mp hb with hb | hb
  · simpa using hnot b hb
  · rcases List.mem_cons.mp hb with rfl | hb
    · exact absurd hlt (lt_irrefl _)
    · have hgt := (List.pairwise_cons.mp (List.pairwise_append.mp hl).2.1).1 b hb
      exact absurd hlt hgt.asymm

theorem key_le_getLast? (hl : Ascending key l) (ha : a ∈ l) (hb : l.getLast? = some b) :
    key a ≤ key b := by
  obtain ⟨l', rfl⟩ := List.getLast?_eq_some_iff.mp hb
  rcases List.mem_append.mp ha with ha | ha
  · exact ((List.pairwise_append.mp hl).2.2 a ha b (by simp)).le
  · rw [List.mem_singleton.mp ha]

theorem getLast?_eq_some_iff_max (hl : Ascending key l) :
    l.getLast? = some a ↔ a ∈ l ∧ ∀ b ∈ l, key b ≤ key a := by
  constructor
  · intro h
    exact ⟨List.mem_of_getLast? h, fun b hb => key_le_getLast? hl hb h⟩
  · rintro ⟨ha, hmax⟩
    cases h : l.getLast? with
    | none =>
      rw [List.getLast?_eq_none_iff.mp h] at ha
      simp at ha
    | some b =>
      have hb := List.mem_of_getLast? h
      rw [eq_of_key_eq hl ha hb (le_antisymm (key_le_getLast? hl ha h) (hmax b hb))]

theorem insertBy_of_forall_lt (h : ∀ b ∈ l, key b < key a) : insertBy key a l = l ++ [a] := by
  induction l with
  | nil => rfl
  | cons c l ih =>
    have hca : ¬ key a < key c := not_lt.mpr (h c List.mem_cons_self).le
    rw [insertBy, if_neg hca, ih fun b hb => h b (List.mem_cons_of_mem c hb), List.cons_append]

/-- The rows in order of a key. -/
def sortBy (key : α → κ) (l : List α) : List α := l.foldr (insertBy key) []

@[simp] theorem mem_sortBy : a ∈ sortBy key l ↔ a ∈ l := by
  induction l with
  | nil => rfl
  | cons c l ih =>
    change a ∈ insertBy key c (sortBy key l) ↔ a ∈ c :: l
    rw [mem_insertBy, ih, List.mem_cons]

theorem ascending_sortBy (h : l.Pairwise fun a b => key a ≠ key b) :
    Ascending key (sortBy key l) := by
  induction l with
  | nil => exact List.Pairwise.nil
  | cons c l ih =>
    obtain ⟨hc, hl⟩ := List.pairwise_cons.mp h
    exact ascending_insertBy (ih hl) fun b hb => (hc b (mem_sortBy.mp hb)).symm

theorem length_insertBy : (insertBy key a l).length = l.length + 1 := by
  induction l with
  | nil => rfl
  | cons c l ih =>
    unfold insertBy
    split_ifs
    · rfl
    · rw [List.length_cons, ih, List.length_cons]

theorem length_sortBy : (sortBy key l).length = l.length := by
  induction l with
  | nil => rfl
  | cons c l ih =>
    change (insertBy key c (sortBy key l)).length = _
    rw [length_insertBy, ih, List.length_cons]

theorem ascending_filter (hl : Ascending key l) (p : α → Bool) : Ascending key (l.filter p) :=
  List.Pairwise.filter p hl

/-! ### Positive numbers as keys -/

variable {num : α → ℤ}

theorem length_le_getLast? (hl : Ascending num l) (hpos : ∀ b ∈ l, 0 < num b)
    (ha : l.getLast? = some a) : (l.length : ℤ) ≤ num a := by
  induction l using List.reverseRecOn generalizing a with
  | nil => simp at ha
  | append_singleton l c ih =>
    obtain rfl : c = a := by simpa using ha
    obtain ⟨hl', -, hlt⟩ := List.pairwise_append.mp hl
    cases hlast : l.getLast? with
    | none =>
      rw [List.getLast?_eq_none_iff.mp hlast]
      have hc : 0 < num c := hpos c (by simp)
      rw [List.nil_append, List.length_singleton]
      omega
    | some b =>
      have hb := ih hl' (fun x hx => hpos x (List.mem_append_left _ hx)) hlast
      have hbc := hlt b (List.mem_of_getLast? hlast) c (by simp)
      rw [List.length_append, List.length_singleton]
      push_cast
      omega

/-- **No gaps**: as many rows as the largest number, so every number has its row. -/
theorem exists_of_length_eq_getLast? (hl : Ascending num l) (hpos : ∀ b ∈ l, 0 < num b)
    (ha : l.getLast? = some a) (hlen : (l.length : ℤ) = num a) {k : ℤ} (h1 : 1 ≤ k)
    (hk : k ≤ num a) : ∃ b ∈ l, num b = k := by
  induction l using List.reverseRecOn generalizing a with
  | nil => simp at ha
  | append_singleton l c ih =>
    obtain rfl : c = a := by simpa using ha
    obtain ⟨hl', -, hlt⟩ := List.pairwise_append.mp hl
    have hpos' : ∀ b ∈ l, 0 < num b := fun b hb => hpos b (List.mem_append_left _ hb)
    rw [List.length_append, List.length_singleton] at hlen
    push_cast at hlen
    by_cases hkc : k = num c
    · exact ⟨c, by simp, hkc.symm⟩
    · cases hlast : l.getLast? with
      | none =>
        rw [List.getLast?_eq_none_iff.mp hlast] at hlen
        simp at hlen
        omega
      | some b =>
        have hb := length_le_getLast? hl' hpos' hlast
        have hbc := hlt b (List.mem_of_getLast? hlast) c (by simp)
        obtain ⟨x, hx, hxk⟩ := ih hl' hpos' hlast (by omega) (by omega)
        exact ⟨x, List.mem_append_left _ hx, hxk⟩

end Netsy.Lib.SortedList
