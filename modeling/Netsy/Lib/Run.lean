import Mathlib.Tactic.Common

/-! # Runs of a partial step function

A system is a function `step : σ → α → Option σ`: everything the environment chooses is in the
action, `none` says that the action is not enabled. `exec` runs a list of actions, `Meets ok` says
that every action of the run satisfies `ok` in the state it is taken in. An invariant of the steps
that meet `ok` is an invariant of the runs that meet it (`exec_invariant`). -/

namespace Netsy.Lib.Run

variable {σ α : Type*} (step : σ → α → Option σ)

/-- Runs the actions in order; each must be enabled. -/
def exec : σ → List α → Option σ
  | s, [] => some s
  | s, a :: as => (step s a).bind fun s' => exec s' as

/-- Every action of the run satisfies `ok` in the state it is taken in. -/
def Meets (ok : σ → α → Prop) : σ → List α → Prop
  | _, [] => True
  | s, a :: as => ok s a ∧ ∀ s' ∈ step s a, Meets ok s' as

instance decidableMeets (ok : σ → α → Prop) [∀ s a, Decidable (ok s a)] :
    ∀ (s : σ) (as : List α), Decidable (Meets step ok s as)
  | _, [] => .isTrue trivial
  | s, a :: as =>
    have : Decidable (∀ s' ∈ step s a, Meets step ok s' as) :=
      match h : step s a with
      | none => .isTrue (by simp)
      | some s' =>
        have := decidableMeets ok s' as
        decidable_of_iff (Meets step ok s' as) (by simp)
    inferInstanceAs (Decidable (ok s a ∧ _))

variable {step} {s s' s'' : σ} {a : α} {as bs : List α} {ok : σ → α → Prop}

@[simp] theorem exec_nil : exec step s [] = some s := rfl

theorem exec_cons : exec step s (a :: as) = (step s a).bind fun s' => exec step s' as := rfl

theorem exec_cons_eq_some :
    exec step s (a :: as) = some s'' ↔ ∃ s', step s a = some s' ∧ exec step s' as = some s'' := by
  rw [exec_cons, Option.bind_eq_some_iff]

theorem exec_append : ∀ (as : List α) (s : σ),
    exec step s (as ++ bs) = (exec step s as).bind fun s' => exec step s' bs
  | [], s => rfl
  | a :: as, s => by
    rw [List.cons_append, exec_cons, exec_cons, Option.bind_assoc]
    congr 1
    funext s'
    exact exec_append as s'

theorem exec_append_eq_some :
    exec step s (as ++ bs) = some s'' ↔
      ∃ s', exec step s as = some s' ∧ exec step s' bs = some s'' := by
  rw [exec_append, Option.bind_eq_some_iff]

theorem meets_append (h : Meets step ok s (as ++ bs)) (hs : exec step s as = some s') :
    Meets step ok s as ∧ Meets step ok s' bs := by
  induction as generalizing s with
  | nil =>
    cases hs
    exact ⟨trivial, h⟩
  | cons a as ih =>
    obtain ⟨s1, h1, h2⟩ := exec_cons_eq_some.mp hs
    obtain ⟨hok, hrest⟩ := h
    obtain ⟨h3, h4⟩ := ih (hrest s1 h1) h2
    refine ⟨⟨hok, fun s2 hs2 => ?_⟩, h4⟩
    rw [h1] at hs2
    cases hs2
    exact h3

theorem meets_of_forall {p : α → Prop} (h : ∀ a ∈ as, p a) : Meets step (fun _ a => p a) s as := by
  induction as generalizing s with
  | nil => trivial
  | cons a as ih =>
    exact ⟨h a List.mem_cons_self, fun s' _ => ih fun b hb => h b (List.mem_cons_of_mem a hb)⟩

theorem meets_and {ok' : σ → α → Prop} (h : Meets step ok s as) (h' : Meets step ok' s as) :
    Meets step (fun s a => ok s a ∧ ok' s a) s as := by
  induction as generalizing s with
  | nil => trivial
  | cons a as ih =>
    exact ⟨⟨h.1, h'.1⟩, fun s' hs => ih (h.2 s' hs) (h'.2 s' hs)⟩

theorem meets_congr {ok' : σ → α → Prop} (h : ∀ s a, ok s a ↔ ok' s a) :
    Meets step ok s as ↔ Meets step ok' s as := by
  induction as generalizing s with
  | nil => exact Iff.rfl
  | cons a as ih => exact and_congr (h s a) (forall₂_congr fun s' _ => ih)

/-- A run is there, and its end is as it should be, if it computes to that. -/
theorem exists_exec_of_any (step : σ → α → Option σ) (s : σ) (as : List α) (p : σ → Prop)
    [DecidablePred p] (h : (exec step s as).any (fun s' => p s') = true) :
    ∃ s', exec step s as = some s' ∧ p s' := by
  obtain ⟨s', hs, hp⟩ := (Option.any_eq_true _ _).mp h
  exact ⟨s', hs, of_decide_eq_true hp⟩

/-- **The invariant rule.** -/
theorem exec_invariant {I : σ → Prop}
    (hstep : ∀ s a s', I s → ok s a → step s a = some s' → I s')
    (hs : I s) (hok : Meets step ok s as) (hrun : exec step s as = some s') : I s' := by
  induction as generalizing s with
  | nil => cases hrun; exact hs
  | cons a as ih =>
    obtain ⟨s1, h1, h2⟩ := exec_cons_eq_some.mp hrun
    exact ih (hstep s a s1 hs hok.1 h1) (hok.2 s1 h1) h2

variable (step) in
/-- Every state of the run satisfies `P`, the first and the last one too. -/
def Always (P : σ → Prop) : σ → List α → Prop
  | s, [] => P s
  | s, a :: as => P s ∧ ∀ s' ∈ step s a, Always P s' as

theorem Always.head {P : σ → Prop} (h : Always step P s as) : P s := by
  cases as with
  | nil => exact h
  | cons a as => exact h.1

/-- **The exact form of the invariant rule.** If the steps that keep `P` are those that meet `ok`,
then `P` holds throughout exactly in the runs that meet `ok`. -/
theorem always_iff_meets {I P : σ → Prop} (hI : ∀ s a s', I s → step s a = some s' → I s')
    (hP : ∀ s a s', I s → P s → step s a = some s' → (P s' ↔ ok s a))
    (hi : I s) (hs : P s) (hrun : exec step s as = some s') :
    Always step P s as ↔ Meets step ok s as := by
  induction as generalizing s with
  | nil => exact iff_of_true hs trivial
  | cons a as ih =>
    obtain ⟨s1, h1, h2⟩ := exec_cons_eq_some.mp hrun
    have hkeep := hP s a s1 hi hs h1
    have hi1 := hI s a s1 hi h1
    constructor
    · rintro ⟨-, hrest⟩
      have hs1 : P s1 := (hrest s1 h1).head
      refine ⟨hkeep.mp hs1, fun s2 hs2 => ?_⟩
      obtain rfl : s1 = s2 := Option.some.inj (h1.symm.trans hs2)
      exact (ih hi1 hs1 h2).mp (hrest s1 h1)
    · rintro ⟨hok, hrest⟩
      have hs1 : P s1 := hkeep.mpr hok
      refine ⟨hs, fun s2 hs2 => ?_⟩
      obtain rfl : s1 = s2 := Option.some.inj (h1.symm.trans hs2)
      exact (ih hi1 hs1 h2).mpr (hrest s1 h1)

/-! ### Termination -/

section Termination

variable {work : σ → ℕ} (hwork : ∀ s a s', step s a = some s' → work s' < work s)
include hwork

theorem length_add_work_le (hrun : exec step s as = some s') : as.length + work s' ≤ work s := by
  induction as generalizing s with
  | nil =>
    cases hrun
    simp
  | cons a as ih =>
    obtain ⟨s1, h1, h2⟩ := exec_cons_eq_some.mp hrun
    have hlt := hwork s a s1 h1
    have hle := ih h2
    rw [List.length_cons]
    omega

/-- **What can go on until it is done is done in the end.** The induction is on the work. -/
theorem exists_exec_done {done : σ → Prop}
    (hgo : ∀ s, ¬ done s → ∃ a s', step s a = some s') (s : σ) :
    ∃ as s', exec step s as = some s' ∧ done s' := by
  induction hn : work s using Nat.strongRecOn generalizing s with
  | _ n ih =>
    by_cases hdone : done s
    · exact ⟨[], s, rfl, hdone⟩
    · obtain ⟨a, s1, h1⟩ := hgo s hdone
      obtain ⟨as, s', hrun, hs'⟩ := ih (work s1) (hn ▸ hwork s a s1 h1) s1 rfl
      exact ⟨a :: as, s', exec_cons_eq_some.mpr ⟨s1, h1, hrun⟩, hs'⟩

end Termination

/-! ### Processes

A machine that keeps its processes in a list; the place of a process is its name. -/

section Processes

variable {β : Type*} {ps : List β} {p q : β} {i j : ℕ}

theorem getElem?_set_process (h : ps[i]? = some p) :
    (ps.set i q)[j]? = if j = i then some q else ps[j]? := by
  have hlt : i < ps.length := (List.getElem?_eq_some_iff.mp h).1
  by_cases hj : j = i
  · subst hj
    simp [hlt]
  · rw [if_neg hj]
    exact List.getElem?_set_ne (Ne.symm hj)

theorem getElem?_concat_process (h : (ps ++ [q])[i]? = some p) :
    ps[i]? = some p ∨ i = ps.length ∧ p = q := by
  rcases Nat.lt_or_ge i ps.length with hlt | hge
  · exact Or.inl (by rwa [List.getElem?_append_left hlt] at h)
  · have hlen := (List.getElem?_eq_some_iff.mp h).1
    rw [List.length_append, List.length_singleton] at hlen
    obtain rfl : i = ps.length := by omega
    rw [List.getElem?_concat_length] at h
    exact Or.inr ⟨rfl, (Option.some.inj h).symm⟩

end Processes

end Netsy.Lib.Run
