import Netsy.Lib.LexOrder
import Netsy.Watch.Match

/-! # The keys of a range

A range request, a watch and etcd's own rule each say which keys a key and a range end stand for.
They agree on every key except where the watch trims the zero bytes of a single key, and where a
prefix is searched with `LIKE` or wraps around at `0xff`. -/

namespace Netsy.CommonAPI.KeyRange

open Proto LocalDB.Blob Lib.LexOrder CommonAPI.RangeQuery Watch.Match

/-- The keys that etcd's rule takes. -/
def InInterval (key rangeEnd k : Bytes) : Prop :=
  if rangeEnd = [] then k = key else if rangeEnd = [0] then key ≤ k else key ≤ k ∧ k < rangeEnd

instance (key rangeEnd k : Bytes) : Decidable (InInterval key rangeEnd k) :=
  inferInstanceAs (Decidable (ite _ _ _))

/-- A key satisfies the query of the request. -/
def Queried (key rangeEnd k : Bytes) : Prop :=
  ∃ w, buildRangeQuery key rangeEnd = some w ∧ w.holds k = true

/-- The query and the watch take the keys of etcd's rule. -/
def RulesAgree (key rangeEnd : Bytes) : Prop :=
  ∀ k, k ≠ [] → (Queried key rangeEnd k ↔ InInterval key rangeEnd k) ∧
    (isInRange k key rangeEnd = some true ↔ InInterval key rangeEnd k)

/-- A single key that does not end in a zero byte, or a prefix of plain bytes that is short enough
for a pattern, or neither a single key nor a prefix. -/
def Plain (key rangeEnd : Bytes) : Prop :=
  if rangeEnd = [] ∨ rangeEnd = key ++ [0] then key.getLast? ≠ some 0
  else if rangeEnd = [0] then True
  else if rangeEndPrefixValue key = some rangeEnd then
    key.length < maxLikePatternLength ∧ (key = [0] ∨ ∀ b ∈ key, plain b)
  else True

instance (key rangeEnd : Bytes) : Decidable (Plain key rangeEnd) :=
  inferInstanceAs (Decidable (ite _ _ _))

variable {key rangeEnd k p : Bytes} {b : UInt8}

theorem isBot_zero : IsBot (0 : UInt8) := fun b => by
  rw [UInt8.le_iff_toNat_le]
  exact Nat.zero_le _

theorem covBy_add_one (hb : b ≠ 255) : b ⋖ b + 1 := by
  have hb' : b.toNat ≠ 255 := fun h => hb (UInt8.toNat_inj.mp h)
  have hlt := UInt8.toNat_lt b
  have hadd : (b + 1).toNat = b.toNat + 1 := by
    rw [UInt8.toNat_add]
    exact Nat.mod_eq_of_lt (by change b.toNat + 1 < 256; omega)
  refine ⟨UInt8.lt_iff_toNat_lt.mpr (by omega), fun c hbc hcb => ?_⟩
  rw [UInt8.lt_iff_toNat_lt] at hbc hcb
  omega

theorem ge_zero (hk : k ≠ []) : [0] ≤ k := by
  cases k with
  | nil => exact absurd rfl hk
  | cons b k =>
    rw [cons_le_cons_iff]
    rcases (isBot_zero b).lt_or_eq with h | h
    · exact Or.inl h
    · exact Or.inr ⟨h, nil_le k⟩

/-! ### The cases -/

theorem queried_iff {v : Bytes} (hv : rangeEndPrefixValue key = some v) :
    Queried key rangeEnd k ↔ (rangeWhere key rangeEnd v).holds k = true := by
  simp [Queried, buildRangeQuery, hv]

theorem isInRange_iff {v : Bytes} (hv : rangeEndPrefixValue key = some v) (hk : k ≠ []) :
    isInRange k key rangeEnd = some true ↔ inRange k key rangeEnd (some v) = true := by
  simp [isInRange, hv, hk]

theorem inInterval_single (hkey : key ≠ []) (h : rangeEnd = [] ∨ rangeEnd = key ++ [0]) :
    InInterval key rangeEnd k ↔ k = key := by
  unfold InInterval
  rcases h with rfl | rfl
  · rw [if_pos rfl]
  · rw [if_neg (by simp), if_neg (by simp [hkey])]
    exact between_append_bot_iff isBot_zero

theorem rulesAgree_single {v : Bytes} (hv : rangeEndPrefixValue key = some v) (hkey : key ≠ [])
    (h : rangeEnd = [] ∨ rangeEnd = key ++ [0]) :
    RulesAgree key rangeEnd ↔ key.rdropWhile (· = 0) = key := by
  have hrule : ∀ k, InInterval key rangeEnd k ↔ k = key := fun k => inInterval_single hkey h
  have hquery : ∀ k, Queried key rangeEnd k ↔ k = key := by
    intro k
    rw [queried_iff hv, rangeWhere, if_pos h]
    exact decide_eq_true_iff
  have hwatch : ∀ k, k ≠ [] → (isInRange k key rangeEnd = some true ↔
      k = key.rdropWhile (· = 0)) := by
    intro k hk
    rw [isInRange_iff hv hk, inRange, if_pos h]
    exact decide_eq_true_iff
  constructor
  · intro hall
    have hself := (hall key hkey).2
    rw [hwatch key hkey, hrule] at hself
    exact (hself.mpr rfl).symm
  · intro he k hk
    rw [hquery, hrule, hwatch k hk, he]
    exact ⟨Iff.rfl, Iff.rfl⟩

theorem rulesAgree_from {v : Bytes} (hv : rangeEndPrefixValue key = some v)
    (h : ¬ ([0] = ([] : Bytes) ∨ [0] = key ++ [0])) : RulesAgree key [0] := by
  intro k hk
  have hrule : InInterval key [0] k ↔ key ≤ k := by
    rw [InInterval, if_neg (by simp), if_pos rfl]
  rw [queried_iff hv, isInRange_iff hv hk, hrule, rangeWhere, inRange, if_neg h, if_neg h]
  by_cases hz : key = [0] ∧ [0] = ([0] : Bytes)
  · have hle : key ≤ k := hz.1 ▸ ge_zero hk
    rw [if_pos hz, if_pos hz]
    exact ⟨iff_of_true rfl hle, iff_of_true rfl hle⟩
  · rw [if_neg hz, if_neg hz, if_pos rfl, if_pos rfl]
    exact ⟨decide_eq_true_iff, decide_eq_true_iff⟩

theorem rulesAgree_prefix (h1 : ¬ (p ++ [b + 1] = [] ∨ p ++ [b + 1] = p ++ [b] ++ [0]))
    (h2 : p ++ [b + 1] ≠ [0]) :
    RulesAgree (p ++ [b]) (p ++ [b + 1]) ↔
      (p ++ [b]).length < maxLikePatternLength ∧ (p ++ [b] = [0] ∨ ∀ d ∈ p ++ [b], plain d) := by
  have hv : rangeEndPrefixValue (p ++ [b]) = some (p ++ [b + 1]) := by simp [rangeEndPrefixValue]
  have hz : ¬ (p ++ [b] = [0] ∧ p ++ [b + 1] = [0]) := fun h => h2 h.2
  have hquery : ∀ k, Queried (p ++ [b]) (p ++ [b + 1]) k ↔
      like (p ++ [b] ++ [37]) k = some true := by
    intro k
    rw [queried_iff hv, rangeWhere, if_neg h1, if_neg hz, if_neg h2, if_pos rfl]
    exact decide_eq_true_iff
  have hwatch : ∀ k, k ≠ [] →
      (isInRange k (p ++ [b]) (p ++ [b + 1]) = some true ↔ p ++ [b] <+: k) := by
    intro k hk
    rw [isInRange_iff hv hk, inRange, if_neg h1, if_neg hz, if_neg h2, if_pos rfl]
    exact List.isPrefixOf_iff_prefix
  have hrule : ∀ k, InInterval (p ++ [b]) (p ++ [b + 1]) k ↔
      p ++ [b] ≤ k ∧ k < p ++ [b + 1] := by
    intro k
    rw [InInterval, if_neg (by simp), if_neg h2]
  rcases eq_or_ne b 255 with rfl | hb
  · -- the range end wraps around: the interval is empty, but a key has itself as a prefix
    refine iff_of_false (fun hall => ?_) ?_
    · have hself := (hall (p ++ [255]) (by simp)).2
      rw [hwatch _ (by simp), hrule] at hself
      exact not_between_of_le (by decide) (hself.mp (List.prefix_refl _))
    · rintro ⟨-, he | hall⟩
      · simpa using congrArg List.getLast? he
      · exact absurd (hall 255 (by simp)) (by decide)
  · have hrule : ∀ k, InInterval (p ++ [b]) (p ++ [b + 1]) k ↔ p ++ [b] <+: k := fun k =>
      (hrule k).trans (between_covBy_iff (covBy_add_one hb))
    rw [← like_prefix_iff]
    constructor
    · intro hall k hk
      rw [← hquery, ← hrule]
      exact (hall k hk).1
    · intro hall k hk
      rw [hquery, hrule, hwatch k hk]
      exact ⟨hall k hk, Iff.rfl⟩

theorem rulesAgree_between {v : Bytes} (hv : rangeEndPrefixValue key = some v)
    (h1 : ¬ (rangeEnd = [] ∨ rangeEnd = key ++ [0])) (h2 : rangeEnd ≠ [0]) (h3 : rangeEnd ≠ v) :
    RulesAgree key rangeEnd := by
  intro k hk
  have hz : ¬ (key = [0] ∧ rangeEnd = [0]) := fun h => h2 h.2
  have hv' : some v ≠ some rangeEnd := fun h => h3 (Option.some.inj h).symm
  have hrule : InInterval key rangeEnd k ↔ key ≤ k ∧ k < rangeEnd := by
    rw [InInterval, if_neg fun h => h1 (Or.inl h), if_neg h2]
  rw [queried_iff hv, isInRange_iff hv hk, hrule, rangeWhere, inRange, if_neg h1, if_neg h1,
    if_neg hz, if_neg hz, if_neg h2, if_neg h2, if_neg h3, if_neg hv']
  exact ⟨by simp [Where.holds], decide_eq_true_iff⟩

/-- **The query, the watch and etcd's rule take the same keys** exactly if the request is plain. -/
theorem key_ranges_agree_iff (hkey : key ≠ []) : RulesAgree key rangeEnd ↔ Plain key rangeEnd := by
  obtain ⟨p, b, rfl⟩ : ∃ p b, key = p ++ [b] :=
    ⟨_, _, (List.dropLast_append_getLast hkey).symm⟩
  have hv : rangeEndPrefixValue (p ++ [b]) = some (p ++ [b + 1]) := by simp [rangeEndPrefixValue]
  unfold Plain
  by_cases h1 : rangeEnd = [] ∨ rangeEnd = p ++ [b] ++ [0]
  · rw [if_pos h1, rulesAgree_single hv hkey h1, List.rdropWhile_eq_self_iff]
    simp
  rw [if_neg h1]
  by_cases h2 : rangeEnd = [0]
  · subst h2
    rw [if_pos rfl]
    exact iff_true_intro (rulesAgree_from hv h1)
  rw [if_neg h2, hv]
  by_cases h3 : p ++ [b + 1] = rangeEnd
  · subst h3
    rw [if_pos rfl]
    exact rulesAgree_prefix h1 h2
  · rw [if_neg fun h => h3 (Option.some.inj h)]
    exact iff_true_intro (rulesAgree_between hv h1 h2 (Ne.symm h3))

/-- The keys that start with `/1/`. -/
theorem key_ranges_agree_plain_prefix : RulesAgree [47, 49, 47] [47, 49, 48] :=
  (key_ranges_agree_iff (by decide)).mpr (by decide +kernel)

/-- The search for keys that start with `a` also finds the key `A`. -/
theorem query_ignores_case : Queried [97] [98] [65] ∧ isInRange [65] [97] [98] = some false ∧
    ¬ InInterval [97] [98] [65] := by
  refine ⟨⟨_, rfl, by decide⟩, by decide, ?_⟩
  unfold InInterval
  decide

end Netsy.CommonAPI.KeyRange
