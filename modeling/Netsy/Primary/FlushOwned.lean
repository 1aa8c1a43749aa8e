import Netsy.Primary.Transitions

/-! # The owner of the flush that runs

At most one flush runs, and its owner waits for it: the transaction that filled the buffer at the
gate, `GracefulDrain` in its second half. -/

namespace Netsy.Primary.FlushOwned

open Datastore Primary.ChunkBuffer Primary.LeaderTxn Primary.Transitions

variable {c : Config} {s s' : Server} {a : Action} {owner : FlushOwner}

structure Owned (s : Server) : Prop where
  flushing : s.buffer.flushing = s.flush.isSome
  txn : ∀ f ∈ s.flush, f.owner = .txn → ∃ acquiredIn, s.gate = some ⟨acquiredIn, .flushing⟩
  drain : ∀ f ∈ s.flush, f.owner = .drain → s.drain = some .flushing

theorem Owned.of_eq (h : Owned s) (hg : s'.gate = s.gate) (hd : s'.drain = s.drain)
    (hf : s'.flush = s.flush) (hb : s'.buffer.flushing = s.buffer.flushing) : Owned s' :=
  ⟨by rw [hf, hb, h.flushing], by rw [hf, hg]; exact h.txn, by rw [hf, hd]; exact h.drain⟩

theorem Owned.of_frame (h : Owned s) (hframe : Frame a s s') (hg : touches a .gate = false)
    (hf : touches a .flush = false) (hd : touches a .drain = false) : Owned s' := by
  obtain ⟨hb, hf'⟩ := Prod.mk.inj (hframe.flush hf)
  exact h.of_eq (hframe.gate hg) (hframe.drain hd) hf' (congrArg Buffer.flushing hb)

theorem Owned.of_gate (h : Owned s) (hg : ∀ acquiredIn, s.gate ≠ some ⟨acquiredIn, .flushing⟩)
    (hd : s'.drain = s.drain) (hf : s'.flush = s.flush)
    (hb : s'.buffer.flushing = s.buffer.flushing) : Owned s' := by
  refine ⟨by rw [hf, hb, h.flushing], fun f hm ho => ?_, by rw [hf, hd]; exact h.drain⟩
  obtain ⟨acquiredIn, hq⟩ := h.txn f (hf ▸ hm) ho
  exact absurd hq (hg acquiredIn)

theorem Owned.of_drain (h : Owned s) (hd : s.drain ≠ some .flushing) (hg : s'.gate = s.gate)
    (hf : s'.flush = s.flush) (hb : s'.buffer.flushing = s.buffer.flushing) : Owned s' := by
  refine ⟨by rw [hf, hb, h.flushing], ?_, fun f hm ho => ?_⟩
  · rw [hf, hg]
    exact h.txn
  · rw [hf] at hm
    exact absurd (h.drain f hm ho) hd

theorem exists_bufferFull (h : flushCalled s .txn) :
    ∃ acquiredIn, s.gate = some ⟨acquiredIn, .bufferFull⟩ := by
  unfold flushCalled at h
  cases hg : s.gate with
  | none => simp [hg] at h
  | some k =>
    obtain ⟨acquiredIn, q⟩ := k
    simp only [hg, Option.any_some, decide_eq_true_eq] at h
    exact ⟨acquiredIn, by rw [h]⟩

theorem flushWaits_cases (hc : flushCalled s owner) :
    (∃ d, s.flushWaits owner = { s with drain := d }) ∨
      ∃ acquiredIn, s.gate = some ⟨acquiredIn, .bufferFull⟩ ∧
        s.flushWaits owner = { s with gate := some ⟨acquiredIn, .flushing⟩ } := by
  cases owner with
  | background => exact Or.inl ⟨s.drain, rfl⟩
  | drain => exact Or.inl ⟨_, rfl⟩
  | txn =>
    obtain ⟨acquiredIn, hg⟩ := exists_bufferFull hc
    exact Or.inr ⟨acquiredIn, hg, by simp [Server.flushWaits, hg]⟩

theorem flushReturns_cases (r : Except PutError Unit)
    (ht : owner = .txn → ∃ acquiredIn q, s.gate = some ⟨acquiredIn, q⟩ ∧
      (q = .bufferFull ∨ q = .flushing)) :
    (∃ d, s.flushReturns owner r = { s with drain := d }) ∨
      ∃ acquiredIn q, s.gate = some ⟨acquiredIn, q⟩ ∧ (q = .bufferFull ∨ q = .flushing) ∧
        (s.flushReturns owner r = s.finishQuorum ∨
          s.flushReturns owner r = { s with gate := some ⟨acquiredIn, .flushFailed⟩ }) := by
  cases owner with
  | background => exact Or.inl ⟨s.drain, rfl⟩
  | drain => exact Or.inl ⟨_, rfl⟩
  | txn =>
    obtain ⟨acquiredIn, q, hg, hq⟩ := ht rfl
    refine Or.inr ⟨acquiredIn, q, hg, hq, ?_⟩
    cases r with
    | ok u => exact Or.inl rfl
    | error e => exact Or.inr (by simp [Server.flushReturns, hg])

theorem exists_gate_of_called (hc : flushCalled s owner) : owner = .txn →
    ∃ acquiredIn q, s.gate = some ⟨acquiredIn, q⟩ ∧ (q = .bufferFull ∨ q = .flushing) := by
  rintro rfl
  obtain ⟨acquiredIn, hg⟩ := exists_bufferFull hc
  exact ⟨acquiredIn, _, hg, Or.inl rfl⟩

theorem Owned.exists_gate {f : Flush} (h : Owned s) (hf : s.flush = some f) : f.owner = .txn →
    ∃ acquiredIn q, s.gate = some ⟨acquiredIn, q⟩ ∧ (q = .bufferFull ∨ q = .flushing) := by
  intro ht
  obtain ⟨acquiredIn, hg⟩ := h.txn f hf ht
  exact ⟨acquiredIn, _, hg, Or.inr rfl⟩

theorem Owned.start {b : Buffer} {f : Flush} (hc : flushCalled s owner) (hb : b.flushing = true)
    (ho : f.owner = owner) :
    Owned ({ s with buffer := b, flush := some f }.flushWaits owner) := by
  cases owner with
  | background =>
    refine ⟨hb, ?_, ?_⟩
    · rintro _ ⟨⟩ h
      rw [ho] at h
      cases h
    · rintro _ ⟨⟩ h
      rw [ho] at h
      cases h
  | txn =>
    obtain ⟨acquiredIn, hg⟩ := exists_bufferFull hc
    refine ⟨hb, fun _ _ _ => ⟨acquiredIn, by simp [Server.flushWaits, hg]⟩, ?_⟩
    rintro _ ⟨⟩ h
    rw [ho] at h
    cases h
  | drain =>
    refine ⟨hb, ?_, fun _ _ _ => rfl⟩
    rintro _ ⟨⟩ h
    rw [ho] at h
    cases h

theorem Owned.returns (h : Owned s) (hc : flushCalled s owner) :
    Owned (s.flushReturns owner (.ok ())) := by
  cases owner with
  | background => exact h
  | txn =>
    obtain ⟨acquiredIn, hg⟩ := exists_bufferFull hc
    exact h.of_gate (fun _ hq => by simp [hg] at hq) rfl rfl rfl
  | drain =>
    have hd : s.drain = some .flush := by simpa [flushCalled] using hc
    exact h.of_drain (by simp [hd]) rfl rfl rfl

theorem Owned.ends {b : Buffer} {r : Except PutError Unit} (hb : b.flushing = false) :
    Owned ({ s with buffer := b, flush := none }.flushReturns owner r) := by
  obtain ⟨d, ps, he⟩ := flushReturns_eq { s with buffer := b, flush := none } owner r
  rw [he]
  exact ⟨hb, fun _ hf => (by cases hf), fun _ hf => (by cases hf)⟩

theorem owned_start {db bucket peers} : Owned (Server.start db bucket peers) :=
  ⟨rfl, fun _ hf => (by cases hf), fun _ hf => (by cases hf)⟩

theorem flushing_endFlush {b : Buffer} {f : Flush} {r : Except PutError Unit} :
    (b.endFlush f r).flushing = false := by
  cases r with
  | ok u => rfl
  | error e => rfl

theorem owned_step (h : Owned s) (hs : step c s a = some s') : Owned s' := by
  by_cases hcall : ofCall a = true
  · -- a call that acts does not wait for a flush
    obtain ⟨⟨acquiredIn, q, hg, hq, -⟩, hf, hb, hd⟩ := call_step hcall hs
    refine h.of_gate (fun k hk => ?_) hd hf hb
    rw [hg] at hk
    cases hk
    exact hq rfl
  cases a with
  | acquire i =>
    obtain ⟨_, hg, -, rfl⟩ := acquire_eq_some hs
    exact h.of_gate (fun _ hk => by simp [hg] at hk) rfl rfl rfl
  | flush owner now =>
    obtain ⟨hc, ⟨-, rfl⟩ | ⟨b, f, hb, rfl⟩⟩ := flush_eq_some hs
    · exact h.returns hc
    · obtain ⟨-, rfl, -, -, -, ho, -⟩ := startFlush_eq_some hb
      exact Owned.start hc rfl ho
  | flushPut dv getOk =>
    obtain ⟨f, hf, -, rfl⟩ := flushPut_eq_some hs
    refine ⟨by simpa [hf] using h.flushing, ?_, ?_⟩
    · rintro _ ⟨⟩ ho
      exact h.txn f hf ho
    · rintro _ ⟨⟩ ho
      exact h.drain f hf ho
  | flushEnd =>
    obtain ⟨f, r, -, -, rfl⟩ := flushEnd_eq_some hs
    exact Owned.ends flushing_endFlush
  | gracefulDrain =>
    obtain ⟨hd, ⟨-, rfl⟩ | ⟨-, rfl⟩ | ⟨-, rfl⟩⟩ := gracefulDrain_eq_some hs
    · exact h
    · exact h.of_drain (by simp [hd]) rfl rfl rfl
    · exact h.of_drain (by simp [hd]) rfl rfl rfl
  | drainSet =>
    obtain ⟨hd, ⟨-, rfl⟩ | rfl⟩ := drainSet_eq_some hs
    · exact h.of_drain (by simp [hd]) rfl rfl rfl
    · exact h.of_drain (by simp [hd]) rfl rfl rfl
  | _ =>
    first
    | exact absurd rfl hcall
    | exact h.of_frame (frame_step hs) rfl rfl rfl

end Netsy.Primary.FlushOwned
