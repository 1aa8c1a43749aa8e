import Netsy.Primary.Transitions

/-! # Writes at the gate

`LeaderTxn` checks that the node is Active before it waits at the gate and not after, so a call
may take the gate when the node has left Active. A call that was not overtaken in this way writes
as a call of an Active Primary. -/

namespace Netsy.Primary.Gate

open Proto NodeState Lib.Run Primary.LeaderTxn Primary.Transitions
open Primary.ChunkBuffer Primary.Follow Primary.ParseTxn Datastore LocalDB.Schema Lib.ObjectStore

variable {c : Config} {s s' : Server} {a : Action} {p : PrimaryState}

/-- The step by which a `LeaderTxn` inserts, uploads, broadcasts, commits or buffers a record. -/
def Writes (s' : Server) : Action → Prop
  | .beginTx _ _ => s'.gate ≠ none
  | .upload _ | .commitSync _ | .commitQuorum _ | .broadcastRecord | .broadcastCommit
  | .bufferRecord => True
  | _ => False

/-- A call takes the gate only if the node has stayed Active since the call was admitted. -/
def StayedActive (s : Server) : Action → Prop
  | .acquire i => ∀ call ∈ s.waiting[i]?, call.leftActive = false
  | _ => True

instance (s : Server) : ∀ a, Decidable (StayedActive s a) := by
  intro a
  unfold StayedActive
  split <;> infer_instance

/-! ### The waiting calls -/

/-- A call is unmarked only as long as the node is Active. -/
def Marked (s : Server) : Prop := ∀ call ∈ s.waiting, call.leftActive = false → s.primary = .active

theorem Marked.mono (h : Marked s) (hw : ∀ call ∈ s'.waiting, call ∈ s.waiting)
    (hp : s'.primary = s.primary) : Marked s' :=
  fun call hc hl => hp.trans (h call (hw call hc) hl)

theorem marked_setPrimary : Marked (s.setPrimary p) := by
  intro call hc hl
  by_contra hp
  simp only [primary_setPrimary] at hp
  simp only [Server.setPrimary, hp, if_false, List.mem_map] at hc
  obtain ⟨call', -, rfl⟩ := hc
  cases hl

theorem Marked.drainIfActive (h : Marked s) : Marked s.drainIfActive := by
  unfold Server.drainIfActive
  split_ifs
  · exact marked_setPrimary
  · exact h

theorem marked_step (h : Marked s) (hs : step c s a = some s') : Marked s' := by
  -- an action that neither moves the calls nor the state keeps the invariant as it is
  have keep : ∀ t : Server, (t.primary, t.waiting) = (s.primary, s.waiting) → Marked t := by
    intro t ht
    obtain ⟨hp, hw⟩ := Prod.mk.inj ht
    exact h.mono (fun call hc => hw ▸ hc) hp
  cases a with
  | requireActivePrimary request =>
    obtain ⟨hp, rfl⟩ := requireActivePrimary_eq_some hs
    exact fun _ _ _ => hp
  | giveUp i =>
    obtain rfl := giveUp_eq_some hs
    exact h.mono (fun call hc => List.mem_of_mem_eraseIdx hc) rfl
  | acquire i =>
    obtain ⟨call, -, -, rfl⟩ := acquire_eq_some hs
    exact h.mono (fun call hc => List.mem_of_mem_eraseIdx hc) rfl
  | upload dv =>
    obtain ⟨_, _, _, _, -, ⟨rfl, -⟩ | rfl | rfl⟩ := upload_eq_some hs
    · exact keep _ rfl
    · exact keep _ rfl
    · refine Marked.drainIfActive ?_
      exact keep _ rfl
  | commitSync ok =>
    obtain ⟨_, _, -, rfl | rfl⟩ := commitSync_eq_some hs
    · exact keep _ rfl
    · exact marked_setPrimary
  | checkFull =>
    obtain ⟨_, -, rfl | rfl⟩ := checkFull_eq_some hs
    · exact keep _ rfl
    · refine Marked.drainIfActive ?_
      exact keep _ rfl
  | recoveryResign i =>
    obtain ⟨r, -, -, rfl⟩ := recoveryResign_eq_some hs
    exact (marked_setPrimary (s := s)).mono (fun _ hc => hc) rfl
  | drainSet =>
    obtain ⟨-, ⟨-, rfl⟩ | rfl⟩ := drainSet_eq_some hs
    · exact (marked_setPrimary (s := s)).mono (fun _ hc => hc) rfl
    · exact keep _ rfl
  | resignLeadership =>
    obtain ⟨-, rfl⟩ := resignLeadership_eq_some hs
    exact (marked_setPrimary (s := s)).mono (fun _ hc => hc) rfl
  | _ => exact keep _ ((frame_step hs).role rfl)

/-! ### The holder of the gate -/

/-- The gate has the holder it had before, perhaps in a later phase, or none. -/
def SameHolder (s s' : Server) : Prop :=
  ∀ h' ∈ s'.gate, ∃ h ∈ s.gate, h.acquiredIn = h'.acquiredIn

theorem sameHolder_of_eq (h : s'.gate = s.gate) : SameHolder s s' :=
  fun h' hh => ⟨h', h ▸ hh, rfl⟩

theorem sameHolder_of_none (h : s'.gate = none) : SameHolder s s' := by
  intro h' hh
  rw [h] at hh
  cases hh

theorem sameHolder_flushWaits {owner : FlushOwner} : SameHolder s (s.flushWaits owner) := by
  cases owner with
  | background => exact sameHolder_of_eq rfl
  | drain => exact sameHolder_of_eq rfl
  | txn =>
    intro h' hh
    obtain ⟨h, hg, rfl⟩ := Option.map_eq_some_iff.mp hh
    exact ⟨h, hg, rfl⟩

theorem sameHolder_flushReturns {owner : FlushOwner} {r : Except PutError Unit} :
    SameHolder s (s.flushReturns owner r) := by
  cases owner with
  | background => exact sameHolder_of_eq rfl
  | drain => exact sameHolder_of_eq rfl
  | txn =>
    cases r with
    | ok u => exact sameHolder_of_none rfl
    | error e =>
      intro h' hh
      obtain ⟨h, hg, rfl⟩ := Option.map_eq_some_iff.mp hh
      exact ⟨h, hg, rfl⟩

theorem sameHolder_step (hs : step c s a = some s') (ha : ∀ i, a ≠ .acquire i) :
    SameHolder s s' := by
  by_cases hcall : ofCall a = true
  · obtain ⟨acquiredIn, q, hg, -, hk⟩ := (call_step hcall hs).holder
    exact fun h' hh => ⟨_, hg, (hk h' hh).symm⟩
  cases a with
  | acquire i => exact absurd rfl (ha i)
  | flush owner now =>
    obtain ⟨-, ⟨-, rfl⟩ | ⟨b, f, -, rfl⟩⟩ := flush_eq_some hs
    · exact sameHolder_flushReturns
    · exact sameHolder_flushWaits (s := { s with buffer := b, flush := some f })
  | flushEnd =>
    obtain ⟨f, r, -, -, rfl⟩ := flushEnd_eq_some hs
    exact sameHolder_flushReturns (s := { s with buffer := s.buffer.endFlush f r, flush := none })
  | _ =>
    first
    | exact absurd rfl hcall
    | exact sameHolder_of_eq ((frame_step hs).gate rfl)

/-! ### Runs -/

/-- Unmarked calls wait at an Active node, and the holder took the gate of an Active node. -/
structure Guarded (s : Server) : Prop where
  marked : Marked s
  holder : ∀ h ∈ s.gate, h.acquiredIn = .active

theorem guarded_start {db bucket peers} : Guarded (Server.start db bucket peers) :=
  ⟨by simp [Marked, Server.start], by simp [Server.start]⟩

theorem guarded_step (hg : Guarded s) (hok : StayedActive s a) (hs : step c s a = some s') :
    Guarded s' := by
  refine ⟨marked_step hg.marked hs, ?_⟩
  by_cases ha : ∃ i, a = .acquire i
  · obtain ⟨i, rfl⟩ := ha
    obtain ⟨call, -, hc, rfl⟩ := acquire_eq_some hs
    rintro h ⟨⟩
    exact hg.marked call (List.mem_of_getElem? hc) (hok call hc)
  · intro h' hh
    obtain ⟨h, hh', he⟩ := sameHolder_step hs (fun i hi => ha ⟨i, hi⟩) h' hh
    rw [← he]
    exact hg.holder h hh'

theorem ofCall_of_writes (hw : Writes s' a) : ofCall a = true := by
  cases a <;> first | rfl | exact absurd hw id

/-- **A write is made for a call that took the gate of an Active node**, in every run in which a
call takes the gate only if the node has stayed Active since it was admitted. -/
theorem writes_of_active {db : Table} {bucket : ObjectStorage} {peers : Peers} {as : List Action}
    (hok : Meets (step c) StayedActive (Server.start db bucket peers) as)
    (hrun : exec (step c) (Server.start db bucket peers) as = some s)
    (hs : step c s a = some s') (hw : Writes s' a) :
    ∃ h, s.gate = some h ∧ h.acquiredIn = .active := by
  have hg : Guarded s :=
    exec_invariant (fun _ _ _ hi hok hs => guarded_step hi hok hs) guarded_start hok hrun
  obtain ⟨acquiredIn, q, hh, -⟩ := (call_step (ofCall_of_writes hw) hs).holder
  exact ⟨_, hh, hg.holder _ hh⟩

/-! ### A call that was overtaken -/

/-- A Primary that commits to object storage only. -/
def syncOnly : Config := { nodeID := "p", quorum := 0, thresholdBytes := 0, size := fun _ => 0 }

/-- The first record of a cluster. -/
def firstRecord : Record :=
  { revision := 1, key := [95], created := true, createRevision := 1, version := 1,
    createdAt := some 1, leaderId := "p" }

def firstTable : Table := ⟨[firstRecord], by decide, by decide⟩

def firstBucket : ObjectStorage :=
  Bucket.empty.create (.chunk 1) (marshalChunk 1 firstRecord "p").2

def noPeers : Peers :=
  { nodeCount := 1, compaction := 0, replicas := .empty, sessions := [], receiptCollector := none }

/-- A new cluster's Primary. -/
def fresh : Server := .start firstTable firstBucket noPeers

def createRequest (key value : Bytes) : TxnRequest :=
  { compare := [{ target := .mod, result := .equal, key := key, modRevision := 0 }]
    success := [.put { key := key, value := value, lease := 0, prevKv := false }]
    failure := [] }

def oneCall : List Action :=
  [.requireActivePrimary (createRequest [97] [1]), .acquire 0, .beginTx 2 true]

theorem writes_of_active_fresh :
    ∃ s s', exec (step syncOnly) fresh oneCall = some s ∧
      step syncOnly s (.upload .answered) = some s' ∧
      ∃ h, s.gate = some h ∧ h.acquiredIn = .active := by
  have hok : Meets (step syncOnly) StayedActive fresh oneCall := by decide
  refine ⟨_, _, rfl, rfl, ?_⟩
  exact writes_of_active (a := .upload .answered) hok rfl rfl trivial

/-- The upload of the first call fails twice and the node drains. The second call was admitted
before, takes the gate, and uploads and commits its record. -/
theorem overtaken_call_commits :
    ∃ s s', exec (step syncOnly) fresh
        [.requireActivePrimary (createRequest [97] [1]),
          .requireActivePrimary (createRequest [98] [2]), .acquire 0, .beginTx 2 true,
          .upload .failed, .upload .failed, .acquire 0, .beginTx 3 true,
          .upload .answered] = some s ∧
      step syncOnly s (.commitSync true) = some s' ∧ s.primary = .draining ∧
      (∃ h, s.gate = some h ∧ h.acquiredIn = .draining) ∧
      ∃ r ∈ s'.db, r.revision = 2 ∧ r.key = [98] := by
  refine ⟨_, _, rfl, rfl, rfl, ⟨_, rfl, rfl⟩, ?_⟩
  decide

end Netsy.Primary.Gate
