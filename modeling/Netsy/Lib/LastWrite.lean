import Mathlib.Tactic.Common

/-! # What a queue of writes leaves

A reader holds some items; the messages of a queue are handled in order, and each may decide for an
item whether the reader holds it afterwards (`writes`), or leave it. `afterAll` is what the reader
holds in the end: the last message that decides an item prevails. A message may also need that items
are held when it is handled; `Fed` says that every message of the queue finds what it needs. -/

namespace Netsy.Lib.LastWrite

variable {ι α : Type*} (writes : α → ι → Option Prop) (needs : α → ι → Prop)

/-- What is held after a message. -/
def after (held : ι → Prop) (m : α) : ι → Prop := fun x => (writes m x).getD (held x)

/-- What is held after the queue. -/
def afterAll (held : ι → Prop) (q : List α) : ι → Prop := q.foldl (after writes) held

/-- Every message of the queue finds what it needs. -/
def Fed : (ι → Prop) → List α → Prop
  | _, [] => True
  | held, m :: q => (∀ x, needs m x → held x) ∧ Fed (after writes held m) q

variable {writes needs} {needs' : α → ι → Prop} {held held' : ι → Prop} {m : α} {q q' : List α}
  {x : ι}

@[simp] theorem afterAll_nil : afterAll writes held [] = held := rfl

@[simp] theorem afterAll_cons :
    afterAll writes held (m :: q) = afterAll writes (after writes held m) q := rfl

theorem afterAll_append :
    afterAll writes held (q ++ q') = afterAll writes (afterAll writes held q) q' :=
  List.foldl_append

theorem after_of_some {p : Prop} (h : writes m x = some p) : after writes held m x ↔ p := by
  simp [after, h]

theorem after_of_none (h : writes m x = none) : after writes held m x ↔ held x := by
  simp [after, h]

theorem after_mono (h : held x → held' x) (ha : after writes held m x) :
    after writes held' m x := by
  unfold after at ha ⊢
  cases hw : writes m x with
  | none =>
    rw [hw] at ha
    exact h ha
  | some p =>
    rw [hw] at ha
    exact ha

theorem afterAll_mono (h : held x → held' x) (ha : afterAll writes held q x) :
    afterAll writes held' q x := by
  induction q generalizing held held' with
  | nil => exact h ha
  | cons m q ih => exact ih (fun hm => after_mono h hm) ha

theorem afterAll_of_none (h : ∀ m ∈ q, writes m x = none) : afterAll writes held q x ↔ held x := by
  induction q generalizing held with
  | nil => exact Iff.rfl
  | cons m q ih =>
    rw [afterAll_cons, ih fun m' hm => h m' (List.mem_cons_of_mem m hm)]
    exact after_of_none (h m List.mem_cons_self)

theorem fed_cons : Fed writes needs held (m :: q) ↔
    (∀ x, needs m x → held x) ∧ Fed writes needs (after writes held m) q := Iff.rfl

theorem fed_append : Fed writes needs held (q ++ q') ↔
    Fed writes needs held q ∧ Fed writes needs (afterAll writes held q) q' := by
  induction q generalizing held with
  | nil => simp [Fed]
  | cons m q ih => rw [List.cons_append, fed_cons, fed_cons, ih, afterAll_cons, and_assoc]

theorem fed_concat : Fed writes needs held (q ++ [m]) ↔
    Fed writes needs held q ∧ ∀ x, needs m x → afterAll writes held q x := by
  rw [fed_append, fed_cons]
  simp [Fed]

theorem Fed.mono (h : Fed writes needs held q) (hh : ∀ x, held x → held' x)
    (hn : ∀ m ∈ q, ∀ x, needs' m x → needs m x) : Fed writes needs' held' q := by
  induction q generalizing held held' with
  | nil => trivial
  | cons m q ih =>
    refine ⟨fun x hx => hh x (h.1 x (hn m List.mem_cons_self x hx)), ?_⟩
    exact ih h.2 (fun x hx => after_mono (hh x) hx) fun m' hm => hn m' (List.mem_cons_of_mem m hm)

theorem fed_of_none (h : ∀ m ∈ q, ∀ x, needs m x → held x)
    (hw : ∀ m ∈ q, ∀ x, needs m x → ∀ m' ∈ q, writes m' x = none) : Fed writes needs held q := by
  induction q generalizing held with
  | nil => trivial
  | cons m q ih =>
    refine ⟨h m List.mem_cons_self, ih (fun m' hm' x hx => ?_) fun m' hm' x hx m'' hm'' => ?_⟩
    · rw [after_of_none (hw m' (List.mem_cons_of_mem m hm') x hx m List.mem_cons_self)]
      exact h m' (List.mem_cons_of_mem m hm') x hx
    · exact hw m' (List.mem_cons_of_mem m hm') x hx m'' (List.mem_cons_of_mem m hm'')

end Netsy.Lib.LastWrite
