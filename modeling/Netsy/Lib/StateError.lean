import Mathlib.Tactic.Common

/-! # Computations with a state and errors

`Prog σ ε α` keeps the state when it fails, as code that returns an error does. `Returns m s a s'`
says that `m` started in `s` returns `a` and leaves `s'`, and `leaves m s` is the state that `m`
leaves in any case; the rules below take both apart along the program text. -/

namespace Netsy.Lib.StateError

variable {σ ε α β : Type}

abbrev Prog (σ ε α : Type) := ExceptT ε (StateM σ) α

def Returns (m : Prog σ ε α) (s : σ) (a : α) (s' : σ) : Prop :=
  (ExceptT.run m).run s = (Except.ok a, s')

variable {m : Prog σ ε α} {f : α → Prog σ ε β} {s s' : σ} {a : α} {b : β}

theorem returns_pure {x : α} : Returns (pure x : Prog σ ε α) s a s' ↔ a = x ∧ s' = s := by
  constructor
  · intro h
    injection h with h1 h2
    injection h1 with h1
    exact ⟨h1.symm, h2.symm⟩
  · rintro ⟨rfl, rfl⟩
    rfl

theorem not_returns_throw {e : ε} : ¬ Returns (throw e : Prog σ ε α) s a s' := by
  intro h
  injection h with h1 h2
  cases h1

theorem run_bind : (ExceptT.run (m >>= f)).run s =
    match (ExceptT.run m).run s with
    | (.ok a, s1) => (ExceptT.run (f a)).run s1
    | (.error e, s1) => (.error e, s1) := by
  change (ExceptT.run m >>= ExceptT.bindCont f).run s = _
  rcases h : (ExceptT.run m).run s with ⟨_ | _, s1⟩ <;>
    simp [StateT.run_bind, h, ExceptT.bindCont] <;> rfl

theorem returns_bind :
    Returns (m >>= f) s b s' ↔ ∃ a s1, Returns m s a s1 ∧ Returns (f a) s1 b s' := by
  unfold Returns
  rw [run_bind]
  constructor
  · intro h
    split at h
    · exact ⟨_, _, by assumption, h⟩
    · injection h with h1 h2
      cases h1
  · rintro ⟨a, s1, h1, h2⟩
    rw [h1]
    exact h2

theorem returns_get {x : σ} : Returns (get : Prog σ ε σ) s x s' ↔ x = s ∧ s' = s := by
  constructor
  · intro h
    injection h with h1 h2
    injection h1 with h1
    exact ⟨h1.symm, h2.symm⟩
  · rintro ⟨rfl, rfl⟩
    rfl

theorem returns_set {x : σ} {u : PUnit} : Returns (set x : Prog σ ε PUnit) s u s' ↔ s' = x := by
  constructor
  · intro h
    injection h with h1 h2
    exact h2.symm
  · rintro rfl
    rfl

theorem returns_get_bind {f : σ → Prog σ ε β} :
    Returns (get >>= f) s b s' ↔ Returns (f s) s b s' := by
  rw [returns_bind]
  constructor
  · rintro ⟨x, s1, h1, h2⟩
    obtain ⟨rfl, rfl⟩ := returns_get.mp h1
    exact h2
  · intro h
    exact ⟨s, s, returns_get.mpr ⟨rfl, rfl⟩, h⟩

theorem returns_set_bind {x : σ} {f : PUnit → Prog σ ε β} :
    Returns (set x >>= f) s b s' ↔ Returns (f PUnit.unit) x b s' := by
  rw [returns_bind]
  constructor
  · rintro ⟨_, s1, h1, h2⟩
    obtain rfl := returns_set.mp h1
    exact h2
  · intro h
    exact ⟨PUnit.unit, x, returns_set.mpr rfl, h⟩

theorem returns_guard_bind {ok : Bool} {e : ε} {f : Unit → Prog σ ε β}
    (h : Returns ((if ok then pure () else throw e : Prog σ ε Unit) >>= f) s b s') :
    Returns (f ()) s b s' := by
  obtain ⟨_, s1, h1, h2⟩ := returns_bind.mp h
  split_ifs at h1
  · obtain ⟨-, rfl⟩ := returns_pure.mp h1
    exact h2
  · exact absurd h1 not_returns_throw

theorem returns_bind_pure {x : β} :
    Returns (m >>= fun _ => pure x) s b s' ↔ b = x ∧ ∃ a, Returns m s a s' := by
  rw [returns_bind]
  constructor
  · rintro ⟨a, s1, h1, h2⟩
    obtain ⟨rfl, rfl⟩ := returns_pure.mp h2
    exact ⟨rfl, a, h1⟩
  · rintro ⟨rfl, a, h1⟩
    exact ⟨a, s', h1, returns_pure.mpr ⟨rfl, rfl⟩⟩

theorem forM_cons_bind {γ : Type} (body : γ → Prog σ ε PUnit) (x : γ) (l : List γ)
    (p : Prog σ ε β) :
    ((x :: l).forM body >>= fun _ => p) = body x >>= fun _ => l.forM body >>= fun _ => p :=
  bind_assoc (body x) (fun _ => l.forM body) fun _ => p

/-- **Loops.** What every round relates, given that it returns, the loop relates. -/
theorem returns_forM {γ : Type} {body : γ → Prog σ ε PUnit} {u : PUnit}
    {I : List γ → σ → Prop}
    (hbody : ∀ done x s s', I done s → Returns (body x) s PUnit.unit s' → I (done ++ [x]) s') :
    ∀ (l done : List γ) (s : σ), I done s → Returns (l.forM body) s u s' → I (done ++ l) s'
  | [], done, s, hs, h => by
    obtain ⟨-, rfl⟩ := returns_pure.mp h
    simpa using hs
  | x :: l, done, s, hs, h => by
    obtain ⟨⟨⟩, s1, h1, h2⟩ := returns_bind.mp h
    have := returns_forM hbody l (done ++ [x]) s1 (hbody done x s s1 hs h1) h2
    simpa using this

/-! ### Whether it returns or fails -/

/-- The state that `m` leaves. -/
def leaves (m : Prog σ ε α) (s : σ) : σ := ((ExceptT.run m).run s).2

@[simp] theorem leaves_get_bind {f : σ → Prog σ ε β} : leaves (get >>= f) s = leaves (f s) s := rfl

@[simp] theorem leaves_set_bind {x : σ} {f : PUnit → Prog σ ε β} :
    leaves (set x >>= f) s = leaves (f PUnit.unit) x := rfl

theorem leaves_bind {I : σ → Prop} (hm : I (leaves m s))
    (hf : ∀ a s1, I s1 → I (leaves (f a) s1)) : I (leaves (m >>= f) s) := by
  unfold leaves at hm ⊢
  rw [run_bind]
  split
  · rename_i a s1 h
    rw [h] at hm
    exact hf a s1 hm
  · rename_i e s1 h
    rw [h] at hm
    exact hm

theorem leaves_forM {γ : Type} {body : γ → Prog σ ε PUnit} {I : σ → Prop} :
    ∀ (l : List γ) (s : σ), (∀ x ∈ l, ∀ s, I s → I (leaves (body x) s)) → I s →
      I (leaves (l.forM body) s)
  | [], _, _, hs => hs
  | x :: l, s, hbody, hs =>
    leaves_bind (hbody x List.mem_cons_self s hs) fun _ s1 h1 =>
      leaves_forM l s1 (fun y hy => hbody y (List.mem_cons_of_mem x hy)) h1

/-! ### Errors that do not come up -/

/-- `m` never fails with `e`. -/
def Avoids (e : ε) (m : Prog σ ε α) : Prop :=
  ∀ s s', (ExceptT.run m).run s ≠ (.error e, s')

variable {e e' : ε}

theorem avoids_pure : Avoids e (pure a : Prog σ ε α) := fun _ _ h => nomatch congrArg Prod.fst h

theorem avoids_get : Avoids e (get : Prog σ ε σ) := fun _ _ h => nomatch congrArg Prod.fst h

theorem avoids_set : Avoids e (set s : Prog σ ε PUnit) := fun _ _ h => nomatch congrArg Prod.fst h

theorem avoids_throw (hne : e' ≠ e) : Avoids e (throw e' : Prog σ ε α) := fun _ _ h =>
  hne (Except.error.inj (congrArg Prod.fst h))

theorem Avoids.bind (hm : Avoids e m) (hf : ∀ a, Avoids e (f a)) : Avoids e (m >>= f) := by
  intro s s' h
  rw [run_bind] at h
  split at h
  · exact hf _ _ _ h
  · next hrun =>
    obtain ⟨hfst, hsnd⟩ := Prod.mk.inj h
    obtain rfl := Except.error.inj hfst
    exact hm _ _ hrun

end Netsy.Lib.StateError
