import Netsy.NodeState
import Netsy.Proto
import Mathlib.Data.Finset.Card

/-! # Quorum transactions

Which path a transaction takes, and the collector of its Receipts. -/

namespace Netsy.Primary.Quorum

open Proto

def requiredReceipts (quorum : ℤ) (nodeCount : ℕ) : ℕ :=
  if quorum = 0 then 0
  else if 0 < quorum then quorum.toNat
  else if nodeCount ≤ 1 then 0
  else nodeCount / 2

structure TxnStrategy where
  useQuorum : Bool := false
  requiredReceipts : ℕ := 0
deriving DecidableEq, Repr

def selectTxnStrategy (quorum : ℤ) (nodeCount healthyForQuorum : ℕ) : TxnStrategy :=
  let required := requiredReceipts quorum nodeCount
  if required = 0 ∨ healthyForQuorum < required then {}
  else { useQuorum := true, requiredReceipts := required }

structure ReceiptCollector where
  revision : ℤ
  required : ℕ
  acked : Finset NodeID
  done : Bool
deriving DecidableEq

def newReceiptCollector (revision : ℤ) (required : ℕ) : ReceiptCollector :=
  { revision := revision, required := required, acked := ∅, done := false }

def ReceiptCollector.collectReceipt (c : ReceiptCollector) (nodeID : NodeID) : ReceiptCollector :=
  if c.done then c
  else
    { c with
      acked := insert nodeID c.acked
      done := decide (c.required ≤ (insert nodeID c.acked).card) }

theorem majority_requiredReceipts (nodeCount : ℕ) :
    nodeCount / 2 + 1 ≤ requiredReceipts (-1) nodeCount + 1 := by
  have h : requiredReceipts (-1) nodeCount = if nodeCount ≤ 1 then 0 else nodeCount / 2 := rfl
  rw [h]
  split_ifs <;> omega

/-- A collector that is done has its receipts. -/
def ReceiptCollector.Sound (c : ReceiptCollector) : Prop := c.done → c.required ≤ c.acked.card

theorem sound_newReceiptCollector (revision : ℤ) (required : ℕ) :
    (newReceiptCollector revision required).Sound := by
  simp [ReceiptCollector.Sound, newReceiptCollector]

theorem ReceiptCollector.Sound.collectReceipt {c : ReceiptCollector} (h : c.Sound) (n : NodeID) :
    (c.collectReceipt n).Sound := by
  unfold ReceiptCollector.collectReceipt
  split_ifs with hd
  · exact h
  · intro hdone
    simpa using hdone

@[simp] theorem ReceiptCollector.revision_collectReceipt (c : ReceiptCollector) (n : NodeID) :
    (c.collectReceipt n).revision = c.revision := by
  unfold ReceiptCollector.collectReceipt
  split_ifs <;> rfl

@[simp] theorem ReceiptCollector.required_collectReceipt (c : ReceiptCollector) (n : NodeID) :
    (c.collectReceipt n).required = c.required := by
  unfold ReceiptCollector.collectReceipt
  split_ifs <;> rfl

theorem ReceiptCollector.mem_acked_collectReceipt {c : ReceiptCollector} {n m : NodeID}
    (h : m ∈ (c.collectReceipt n).acked) : m = n ∨ m ∈ c.acked := by
  unfold ReceiptCollector.collectReceipt at h
  split_ifs at h
  · exact Or.inr h
  · exact Finset.mem_insert.mp h

end Netsy.Primary.Quorum
