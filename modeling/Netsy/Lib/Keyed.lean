import Mathlib.Data.Finset.Card
import Mathlib.Tactic.Common

/-! # Maps whose entries carry their key

A map from keys to entries that hold their own key, as the list of its entries in the order in
which an iteration finds them, any order. -/

namespace Netsy.Lib.Keyed

variable {α κ : Type*} {key : α → κ}

structure KeyedMap (key : α → κ) where
  entries : List α
  nodup : (entries.map key).Nodup
deriving DecidableEq

namespace KeyedMap

def empty : KeyedMap key := ⟨[], List.nodup_nil⟩

/-- The keys in the map. -/
def keys (m : KeyedMap key) : Finset κ := ⟨m.entries.map key, m.nodup⟩

def count (m : KeyedMap key) : ℕ := m.entries.length

/-- The entries that satisfy `p`. -/
def filter (m : KeyedMap key) (p : α → Bool) : KeyedMap key :=
  ⟨m.entries.filter p, m.nodup.sublist (List.filter_sublist.map _)⟩

/-- Changes entries in place. -/
def modify (m : KeyedMap key) (f : α → α) (hf : ∀ a, key (f a) = key a) : KeyedMap key :=
  ⟨m.entries.map f, by
    rw [List.map_map, show key ∘ f = key from funext hf]
    exact m.nodup⟩

variable {m : KeyedMap key} {k : κ} {a : α}

@[simp] theorem mem_keys : k ∈ m.keys ↔ ∃ a ∈ m.entries, key a = k := by
  change k ∈ m.entries.map key ↔ _
  simp

@[simp] theorem card_keys : m.keys.card = m.count := by
  change (m.entries.map key).length = m.entries.length
  simp

@[simp] theorem keys_modify (f : α → α) (hf : ∀ a, key (f a) = key a) :
    (m.modify f hf).keys = m.keys := by
  ext k
  simp [modify, hf]

variable [DecidableEq κ]

def remove (m : KeyedMap key) (k : κ) : KeyedMap key := m.filter fun a => key a ≠ k

/-- Adds the entry, or replaces the one with its key. -/
def add (m : KeyedMap key) (a : α) : KeyedMap key :=
  ⟨a :: (m.remove (key a)).entries,
    List.nodup_cons.mpr ⟨by simp [remove, filter], (m.remove (key a)).nodup⟩⟩

@[simp] theorem mem_keys_remove {k' : κ} : k ∈ (m.remove k').keys ↔ k ∈ m.keys ∧ k ≠ k' := by
  simp only [mem_keys, remove, filter, List.mem_filter, decide_eq_true_eq]
  constructor
  · rintro ⟨a, ⟨ha, hne⟩, rfl⟩
    exact ⟨⟨a, ha, rfl⟩, hne⟩
  · rintro ⟨⟨a, ha, rfl⟩, hne⟩
    exact ⟨a, ⟨ha, hne⟩, rfl⟩

@[simp] theorem mem_keys_add : k ∈ (m.add a).keys ↔ k = key a ∨ k ∈ m.keys := by
  have hcons : k ∈ (m.add a).keys ↔ k = key a ∨ k ∈ (m.remove (key a)).keys := by
    simp only [mem_keys, add, List.mem_cons, exists_eq_or_imp, eq_comm (a := k)]
  rw [hcons, mem_keys_remove]
  constructor
  · rintro (h | h)
    · exact Or.inl h
    · exact Or.inr h.1
  · rintro (h | h)
    · exact Or.inl h
    · exact (eq_or_ne k (key a)).imp_right fun hne => ⟨h, hne⟩

/-- Changes the entry of a key in place. -/
def modifyKey (m : KeyedMap key) (k : κ) (f : α → α) (hf : ∀ a, key (f a) = key a) : KeyedMap key :=
  m.modify (fun a => if key a = k then f a else a) fun a => by
    split_ifs
    · exact hf a
    · rfl

@[simp] theorem keys_modifyKey (f : α → α) (hf : ∀ a, key (f a) = key a) :
    (m.modifyKey k f hf).keys = m.keys := keys_modify _ _

/-- The entry of a key. -/
def get (m : KeyedMap key) (k : κ) : Option α := m.entries.find? fun a => key a = k

variable {k' : κ}

theorem get_eq_some : m.get k = some a ↔ a ∈ m.entries ∧ key a = k := by
  unfold get
  constructor
  · intro h
    exact ⟨List.mem_of_find?_eq_some h, by simpa using List.find?_some h⟩
  · rintro ⟨ha, rfl⟩
    have hsome : (m.entries.find? fun b => key b = key a).isSome := by
      rw [List.find?_isSome]
      exact ⟨a, ha, by simp⟩
    obtain ⟨b, hb⟩ := Option.isSome_iff_exists.mp hsome
    have hkey : key b = key a := by simpa using List.find?_some hb
    rw [hb, List.inj_on_of_nodup_map m.nodup (List.mem_of_find?_eq_some hb) ha hkey]

theorem get_eq_none : m.get k = none ↔ k ∉ m.keys := by
  simp [get]

theorem get_congr {m' : KeyedMap key} (h : ∀ a, key a = k → (a ∈ m'.entries ↔ a ∈ m.entries)) :
    m'.get k = m.get k := by
  refine Option.ext fun a => ?_
  rw [get_eq_some, get_eq_some]
  exact and_congr_left (h a)

theorem get_modify (f : α → α) (hf : ∀ a, key (f a) = key a) :
    (m.modify f hf).get k = (m.get k).map f := by
  refine Option.ext fun b => ?_
  simp only [Option.map_eq_some_iff, get_eq_some, modify, List.mem_map]
  constructor
  · rintro ⟨⟨a, ha, rfl⟩, hk⟩
    exact ⟨a, ⟨ha, (hf a).symm.trans hk⟩, rfl⟩
  · rintro ⟨a, ⟨ha, hk⟩, rfl⟩
    exact ⟨⟨a, ha, rfl⟩, (hf a).trans hk⟩

theorem get_filter (p : α → Bool) : (m.filter p).get k = (m.get k).filter p := by
  refine Option.ext fun b => ?_
  simp only [Option.filter_eq_some_iff, get_eq_some, filter, List.mem_filter]
  tauto

theorem get_modifyKey (f : α → α) (hf : ∀ a, key (f a) = key a) :
    (m.modifyKey k f hf).get k' = if k' = k then (m.get k).map f else m.get k' := by
  rw [modifyKey, get_modify]
  split_ifs with h
  · subst h
    refine Option.map_congr fun a ha => ?_
    exact if_pos (get_eq_some.mp ha).2
  · refine (Option.map_congr fun a ha => ?_).trans Option.map_id_apply
    exact if_neg fun hk => h ((get_eq_some.mp ha).2.symm.trans hk)

theorem get_remove : (m.remove k).get k' = if k' = k then none else m.get k' := by
  split_ifs with h
  · subst h
    rw [get_eq_none, mem_keys_remove]
    exact fun hk => hk.2 rfl
  · refine get_congr fun a ha => ?_
    simp [remove, filter, ha, h]

theorem get_add : (m.add a).get k = if k = key a then some a else m.get k := by
  split_ifs with h
  · exact get_eq_some.mpr ⟨List.mem_cons_self, h.symm⟩
  · refine get_congr fun b hb => ?_
    have hne : b ≠ a := fun he => h (hb.symm.trans (congrArg key he))
    simp [add, remove, filter, hb, hne, h]

end KeyedMap

end Netsy.Lib.Keyed
