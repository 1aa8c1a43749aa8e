import Mathlib.Tactic.Common

/-! # Buffered channels

A channel with the panics of the runtime: to close it twice, or to send on it when it is closed. -/

namespace Netsy.Lib.Channel

inductive Panic
  | closeOfClosedChannel | sendOnClosedChannel
deriving DecidableEq, Repr

structure Chan (α : Type*) where
  buffer : List α
  closed : Bool
deriving DecidableEq

namespace Chan

variable {α : Type*} {c c' : Chan α} {a : α} {capacity : ℕ}

def make : Chan α := ⟨[], false⟩

def close (c : Chan α) : Except Panic (Chan α) :=
  if c.closed then .error .closeOfClosedChannel else .ok { c with closed := true }

/-- A `select` with a send and a default, which is `none`: the channel is full. -/
def trySend (c : Chan α) (capacity : ℕ) (a : α) : Except Panic (Option (Chan α)) :=
  if c.closed then .error .sendOnClosedChannel
  else .ok (if c.buffer.length < capacity then some { c with buffer := c.buffer ++ [a] } else none)

/-- The same with a default that does nothing: a full channel drops the message. -/
def offer (c : Chan α) (capacity : ℕ) (a : α) : Except Panic (Chan α) :=
  (c.trySend capacity a).map fun sent => sent.getD c

/-- The next message; a closed channel is drained too. -/
def receive (c : Chan α) : Option (α × Chan α) :=
  match c.buffer with
  | a :: rest => some (a, { c with buffer := rest })
  | [] => none

theorem close_of_open (h : c.closed = false) : c.close = .ok { c with closed := true } := by
  simp [close, h]

theorem trySend_of_open (h : c.closed = false) :
    c.trySend capacity a = .ok (if c.buffer.length < capacity then
      some { c with buffer := c.buffer ++ [a] } else none) := by
  simp [trySend, h]

theorem closed_of_trySend (h : c.trySend capacity a = .ok (some c')) : c'.closed = c.closed := by
  unfold trySend at h
  split_ifs at h
  · cases h
    rfl
  · cases h

theorem offer_of_open (h : c.closed = false) :
    c.offer capacity a =
      .ok (if c.buffer.length < capacity then { c with buffer := c.buffer ++ [a] } else c) := by
  rw [offer, trySend_of_open h]
  split_ifs <;> rfl

theorem closed_of_offer (h : c.offer capacity a = .ok c') : c'.closed = c.closed := by
  unfold offer at h
  cases hsent : c.trySend capacity a with
  | error e =>
    rw [hsent] at h
    cases h
  | ok sent =>
    rw [hsent] at h
    cases h
    cases sent with
    | none => rfl
    | some c' => exact closed_of_trySend hsent

theorem closed_of_receive (h : c.receive = some (a, c')) : c'.closed = c.closed := by
  unfold receive at h
  split at h
  · cases h
    rfl
  · cases h

end Chan

end Netsy.Lib.Channel
