import Mathlib.Data.List.Infix

/-! # Patterns with wildcards

A pattern is a list of symbols: a literal, one arbitrary letter, or any run of letters. `same` says
which letters a literal stands for. -/

namespace Netsy.Lib.Wildcard

inductive Symbol (α : Type*)
  | many | one
  | literal (a : α)
deriving DecidableEq, Repr

variable {α : Type*} (same : α → α → Bool)

/-- The letters that a symbol stands for. -/
def Symbol.covers : Symbol α → α → Bool
  | .literal a, b => same a b
  | _, _ => true

def accepts : List (Symbol α) → List α → Bool
  | [], s => s.isEmpty
  | .many :: p, s => s.tails.any (accepts p)
  | _ :: _, [] => false
  | x :: p, b :: s => x.covers same b && accepts p s

variable {same} {x : Symbol α} {p : List (Symbol α)} {s l : List α} {b : α}

@[simp] theorem accepts_nil : accepts same [] s = true ↔ s = [] := by simp [accepts]

theorem accepts_many : accepts same (.many :: p) s = true ↔ ∃ t, t <:+ s ∧ accepts same p t := by
  simp [accepts, List.mem_tails]

theorem accepts_many_end (s : List α) : accepts same [.many] s = true :=
  accepts_many.mpr ⟨[], List.nil_suffix, rfl⟩

theorem accepts_cons (hx : x.covers same b) (h : accepts same p s) :
    accepts same (x :: p) (b :: s) = true := by
  cases x with
  | many => exact accepts_many.mpr ⟨s, List.suffix_cons b s, h⟩
  | one => exact h
  | literal a => exact Bool.and_eq_true_iff.mpr ⟨hx, h⟩

theorem accepts_of_forall₂ {q : List (Symbol α)} {t : List α}
    (h : List.Forall₂ (fun x b => x.covers same b = true) p s) (hq : accepts same q t) :
    accepts same (p ++ q) (s ++ t) = true := by
  induction h with
  | nil => exact hq
  | cons hx _ ih => exact accepts_cons hx ih

theorem accepts_prefix (hl : ∀ a ∈ l, ∀ b, same a b = true ↔ b = a) :
    accepts same (l.map Symbol.literal ++ [.many]) s = true ↔ l <+: s := by
  induction l generalizing s with
  | nil => exact iff_of_true (accepts_many_end s) List.nil_prefix
  | cons a l ih =>
    cases s with
    | nil => simp [accepts]
    | cons b s =>
      have hstep : accepts same ((a :: l).map Symbol.literal ++ [.many]) (b :: s) = true ↔
          same a b = true ∧ accepts same (l.map Symbol.literal ++ [.many]) s = true := by
        simp [accepts, Symbol.covers]
      rw [hstep, ih fun c hc => hl c (List.mem_cons_of_mem a hc), hl a List.mem_cons_self,
        List.cons_prefix_cons, eq_comm]

end Netsy.Lib.Wildcard
