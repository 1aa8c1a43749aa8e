import Netsy.Primary.FlushOwned
import Netsy.Primary.Gate

/-! # The committed log and the durable log

A record whose upload failed may still reach the store: by the write that was not answered, or by
the recovery. Until then its revision is free, and a later call uses it again. Path 1 is protected
by the key of the chunk, which only one of the two records can take; Path 2 commits without looking
at the store. -/

namespace Netsy.Primary.DurableLog

open Proto NodeState Lib.Run Lib.ObjectStore LocalDB.Schema
open Datastore Primary.ChunkBuffer Primary.Follow
open Primary.WriteRecord Primary.LeaderTxn Primary.Transitions Primary.FlushOwned

/-! ### The store -/

/-- The stored record has an older revision and agrees with the row there. -/
def Settled (db : Table) (next : ℤ) (r : Record) : Prop :=
  r.revision < next ∧ ∀ row ∈ db, row.revision = r.revision → SameRecord row r

/-- The chunk holds settled records, or is that of a record which is not committed. -/
def ChunkOk (db : Table) (next : ℤ) (k : ℤ) (file : DataFile) : Prop :=
  (k < next ∧ ∀ r ∈ file.records, Settled db next r) ∨
    (k = next ∧ ∀ r ∈ file.records, r.revision = next)

/-- What holds of the chunks that are stored, that may still be, and that recoveries write. -/
structure StoreOk (db : Table) (next : ℤ) (b : ObjectStorage) (recoveries : List Recovery) :
    Prop where
  rows : ∀ row ∈ db, row.revision < next
  objects : ∀ k file, (ObjectKey.chunk k, file) ∈ b → ChunkOk db next k file
  inflight : ∀ k file, (ObjectKey.chunk k, file) ∈ b.inflight →
    b.Has (.chunk k) ∨ ChunkOk db next k file
  recoveries : ∀ r ∈ recoveries, r.record.revision = next ∨ b.Has (.chunk r.record.revision)

/-- Nothing is or can come to be stored at the next revision. -/
structure Clean (next : ℤ) (b : ObjectStorage) (recoveries : List Recovery) : Prop where
  object : ¬ b.Has (.chunk next)
  inflight : ∀ file, (ObjectKey.chunk next, file) ∉ b.inflight
  recoveries : ∀ r ∈ recoveries, r.record.revision ≠ next

variable {db : Table} {next k : ℤ} {b b' : ObjectStorage} {recs : List Recovery} {file : DataFile}
  {dv : Delivery} {tx : Tx} {i : ℕ}

theorem StoreOk.le_of_has (h : StoreOk db next b recs) (hk : b.Has (.chunk k)) : k ≤ next := by
  obtain ⟨file, hf⟩ := Bucket.has_iff.mp hk
  rcases h.objects k file hf with ⟨hlt, -⟩ | ⟨rfl, -⟩
  · exact hlt.le
  · exact le_refl _

theorem StoreOk.put (h : StoreOk db next b recs) (dv : Delivery)
    (hf : b.Has (.chunk k) ∨ ChunkOk db next k file) :
    StoreOk db next (b.putIfMatch (.chunk k) file dv).1 recs := by
  refine ⟨h.rows, fun k' file' ho => ?_, fun k' file' ho => ?_, fun r hr => ?_⟩
  · rcases Bucket.mem_putIfMatch ho with ho | ⟨he, hok⟩
    · exact h.objects k' file' ho
    · cases he
      exact hf.resolve_left (Bucket.mem_of_putIfMatch_ok hok).2
  · rcases Bucket.mem_inflight_putIfMatch ho with ho | he
    · exact (h.inflight k' file' ho).imp_left Bucket.has_putIfMatch_of_has
    · cases he
      exact hf.imp_left Bucket.has_putIfMatch_of_has
  · exact (h.recoveries r hr).imp_right Bucket.has_putIfMatch_of_has

theorem StoreOk.land (h : StoreOk db next b recs) (hl : b.land i = some b') :
    StoreOk db next b' recs := by
  obtain ⟨k, d, hmem, hobj, hinf⟩ := Bucket.land_eq_some hl
  have hmono : ∀ k', b.Has k' → b'.Has k' := by
    intro k' hk'
    obtain ⟨d', hd'⟩ := Bucket.has_iff.mp hk'
    exact Bucket.has_iff.mpr ⟨d', (hobj _).mpr (Bucket.mem_create_of_mem hd')⟩
  refine ⟨h.rows, fun k' file' ho => ?_, fun k' file' ho => ?_, fun r hr => ?_⟩
  · rcases Bucket.mem_create.mp ((hobj _).mp ho) with ho | ⟨he, hn⟩
    · exact h.objects k' file' ho
    · cases he
      exact (h.inflight k' _ hmem).resolve_left hn
  · exact (h.inflight k' file' (hinf _ ho)).imp_left (hmono _)
  · exact (h.recoveries r hr).imp_right (hmono _)

theorem Clean.put (h : Clean next b recs) (hk : k ≠ next) :
    Clean next (b.putIfMatch (.chunk k) file dv).1 recs := by
  refine ⟨fun hh => ?_, fun file' ho => ?_, h.recoveries⟩
  · obtain ⟨d, hd⟩ := Bucket.has_iff.mp hh
    rcases Bucket.mem_putIfMatch hd with hd | ⟨he, -⟩
    · exact h.object (Bucket.has_iff.mpr ⟨d, hd⟩)
    · cases he
      exact hk rfl
  · rcases Bucket.mem_inflight_putIfMatch ho with ho | he
    · exact h.inflight file' ho
    · cases he
      exact hk rfl

theorem Clean.land (h : Clean next b recs) (hl : b.land i = some b') : Clean next b' recs := by
  obtain ⟨k, d, hmem, hobj, hinf⟩ := Bucket.land_eq_some hl
  refine ⟨fun hh => ?_, fun file' ho => h.inflight file' (hinf _ ho), h.recoveries⟩
  obtain ⟨d', hd'⟩ := Bucket.has_iff.mp hh
  rcases Bucket.mem_create.mp ((hobj _).mp hd') with hd' | ⟨he, -⟩
  · exact h.object (Bucket.has_iff.mpr ⟨d', hd'⟩)
  · cases he
    exact h.inflight _ hmem

/-- The chunk of the transaction's record is stored. -/
def Uploaded (next : ℤ) (b : ObjectStorage) (tx : Tx) : Prop :=
  ∃ file, (ObjectKey.chunk next, file) ∈ b ∧ ∀ r ∈ file.records, SameRecord tx.record r

theorem Settled.commit {r : Record} (h : Settled db next r) (htx : TxOk db next tx) :
    Settled tx.table (next + 1) r := by
  have hlt := h.1
  refine ⟨by omega, fun row hrow he => ?_⟩
  rcases (htx.2 row).mp hrow with rfl | hrow
  · have := htx.1
    omega
  · exact h.2 row hrow he

/-- **A commit settles the chunk of its own record.** The record was uploaded before, or nothing
can be stored at its revision. -/
theorem StoreOk.commit (h : StoreOk db next b recs) (htx : TxOk db next tx)
    (hup : Uploaded next b tx ∨ Clean next b recs) :
    StoreOk tx.table (next + 1) b recs ∧ Clean (next + 1) b recs := by
  have hrows : ∀ row ∈ tx.table, row.revision < next + 1 := by
    intro row hrow
    rcases (htx.2 row).mp hrow with rfl | hrow
    · rw [htx.1]
      omega
    · have := h.rows row hrow
      omega
  have hobj : ∀ k file, (ObjectKey.chunk k, file) ∈ b → ChunkOk tx.table (next + 1) k file := by
    intro k file ho
    rcases h.objects k file ho with ⟨hk, hs⟩ | ⟨rfl, hr⟩
    · exact Or.inl ⟨by omega, fun r hr => (hs r hr).commit htx⟩
    · -- the chunk at the committed revision is the one that was uploaded
      rcases hup with ⟨file', hf', hsame⟩ | hclean
      · cases Bucket.eq_of_mem ho hf'
        refine Or.inl ⟨by omega, fun r hr' => ⟨by rw [hr r hr']; omega, fun row hrow he => ?_⟩⟩
        rcases (htx.2 row).mp hrow with rfl | hrow
        · exact hsame r hr'
        · have := h.rows row hrow
          rw [hr r hr'] at he
          omega
      · exact absurd (Bucket.has_iff.mpr ⟨file, ho⟩) hclean.object
  have hinf : ∀ k file, (ObjectKey.chunk k, file) ∈ b.inflight →
      k < next + 1 ∧ (b.Has (.chunk k) ∨ ChunkOk tx.table (next + 1) k file) := by
    intro k file ho
    rcases h.inflight k file ho with hh | ⟨hk, hs⟩ | ⟨rfl, hr⟩
    · have := h.le_of_has hh
      exact ⟨by omega, Or.inl hh⟩
    · exact ⟨by omega, Or.inr (Or.inl ⟨by omega, fun r hr => (hs r hr).commit htx⟩)⟩
    · rcases hup with ⟨file', hf', -⟩ | hclean
      · exact ⟨by omega, Or.inl (Bucket.has_iff.mpr ⟨file', hf'⟩)⟩
      · exact absurd ho (hclean.inflight file)
  have hrec : ∀ r ∈ recs, b.Has (.chunk r.record.revision) := by
    intro r hr
    rcases h.recoveries r hr with he | hh
    · rcases hup with ⟨file', hf', -⟩ | hclean
      · exact he ▸ Bucket.has_iff.mpr ⟨file', hf'⟩
      · exact absurd he (hclean.recoveries r hr)
    · exact hh
  refine ⟨⟨hrows, hobj, fun k file ho => (hinf k file ho).2, fun r hr => Or.inr (hrec r hr)⟩,
    fun hh => ?_, fun file ho => ?_, fun r hr he => ?_⟩
  · have := h.le_of_has hh
    omega
  · have := (hinf _ file ho).1
    omega
  · have := h.le_of_has (hrec r hr)
    omega

/-! ### The machine -/

/-- The call is between its first upload and its commit. -/
def uploads : Phase → Bool
  | .uploading _ _ _ | .uploaded _ => true
  | _ => false

/-- What holds of the call at the gate. -/
def PhaseOk (db : Table) (next : ℤ) (b : ObjectStorage) (acquiredIn : PrimaryState) :
    Phase → Prop
  | .uploading tx file _ => TxOk db next tx ∧ file.1 = .chunk next ∧
      ∀ r ∈ file.2.records, SameRecord tx.record r
  | .uploaded tx => TxOk db next tx ∧ Uploaded next b tx
  | .quorumStart tx _ | .collecting tx | .awaiting tx => TxOk db next tx ∧ acquiredIn = .active
  | .quorumCommitted record | .quorumAdvanced record | .quorumNotified record => record ∈ db
  | _ => True

/-- The file of a flush holds rows of the database. -/
def FlushOk (db : Table) (next : ℤ) (f : Flush) : Prop :=
  (∃ k, f.file.1 = .chunk k ∧ k < next) ∧ ∀ r ∈ f.file.2.records, ∃ row ∈ db, r = written row

structure Inv (s : Server) : Prop where
  store : StoreOk s.db s.nextRevisionID s.bucket s.recoveries
  buffer : ∀ r ∈ s.buffer.records, r ∈ s.db
  flush : ∀ f ∈ s.flush, FlushOk s.db s.nextRevisionID f
  phase : ∀ h ∈ s.gate, PhaseOk s.db s.nextRevisionID s.bucket h.acquiredIn h.phase
  clean : (s.primary = .active ∨ ∃ h ∈ s.gate, h.acquiredIn = .active) →
    (∀ h ∈ s.gate, uploads h.phase = false) → Clean s.nextRevisionID s.bucket s.recoveries

/-- A call that takes Path 2 took the gate when the node was Active. -/
def QuorumWhileActive (c : Config) (s : Server) : Action → Prop
  | .beginTx _ _ => ∀ h ∈ s.gate, (strategy c s).useQuorum = true → h.acquiredIn = .active
  | _ => True

instance (c : Config) (s : Server) : ∀ a, Decidable (QuorumWhileActive c s a) := by
  intro a
  unfold QuorumWhileActive
  split <;> infer_instance

variable {c : Config} {s s' : Server} {a : Action} {acquiredIn p : PrimaryState} {q q' : Phase}
  {f : Flush} {w : List Call} {ps : Peers} {d : Option DrainPhase} {cm : ℤ}

theorem FlushOk.settled (h : FlushOk db next f) (hrows : ∀ row ∈ db, row.revision < next) :
    ∃ k, f.file.1 = .chunk k ∧ k < next ∧ ∀ r ∈ f.file.2.records, Settled db next r := by
  obtain ⟨⟨k, hk, hlt⟩, hr⟩ := h
  refine ⟨k, hk, hlt, fun r hmem => ?_⟩
  obtain ⟨row, hrow, rfl⟩ := hr r hmem
  refine ⟨hrows row hrow, fun row' hrow' he => ?_⟩
  rw [Table.eq_of_revision_eq hrow' hrow he]
  exact sameRecord_written row

theorem FlushOk.commit (h : FlushOk db next f) (htx : TxOk db next tx) :
    FlushOk tx.table (next + 1) f := by
  obtain ⟨⟨k, hk, hlt⟩, hr⟩ := h
  refine ⟨⟨k, hk, by omega⟩, fun r hmem => ?_⟩
  obtain ⟨row, hrow, rfl⟩ := hr r hmem
  exact ⟨row, (htx.2 row).mpr (Or.inr hrow), rfl⟩

/-! ### Changes of the control state -/

theorem Inv.enter (h : Inv s) (hg : s.gate = some ⟨acquiredIn, q⟩)
    (hq : PhaseOk s.db s.nextRevisionID s.bucket acquiredIn q')
    (hu : uploads q = true → uploads q' = true) :
    Inv { s with gate := some ⟨acquiredIn, q'⟩, peers := ps, committed := cm } := by
  refine ⟨h.store, h.buffer, h.flush, ?_, fun ha hn => h.clean ?_ ?_⟩
  · rintro k ⟨⟩
    exact hq
  · rcases ha with ha | ⟨k, ⟨⟩, ha⟩
    · exact Or.inl ha
    · exact Or.inr ⟨_, hg, ha⟩
  · intro k hk
    rw [hg] at hk
    cases hk
    have := hn _ rfl
    cases hq : uploads q
    · rfl
    · exact absurd (hu hq) (by simp [this])

theorem Inv.release (h : Inv s) (hg : s.gate = some ⟨acquiredIn, q⟩) (hu : uploads q = false) :
    Inv { s with gate := none, peers := ps } := by
  refine ⟨h.store, h.buffer, h.flush, fun k hk => (by cases hk), fun ha _ => h.clean ?_ ?_⟩
  · rcases ha with ha | ⟨k, ⟨⟩, -⟩
    exact Or.inl ha
  · intro k hk
    rw [hg] at hk
    cases hk
    exact hu

theorem Inv.leave (h : Inv s) (hp : p = .active → s.primary = .active) :
    Inv { s with primary := p, waiting := w, peers := ps, drain := d } :=
  ⟨h.store, h.buffer, h.flush, h.phase, fun ha hn => h.clean (ha.imp_left hp) hn⟩

theorem Inv.setPrimary (h : Inv s) (hp : p ≠ .active) : Inv (s.setPrimary p) :=
  h.leave fun ha => by
    by_contra hn
    exact trySetPrimary_ne hn hp ha

theorem Inv.drainIfActive (h : Inv s) : Inv s.drainIfActive := by
  unfold Server.drainIfActive
  split_ifs
  · exact h.setPrimary (by decide)
  · exact h

/-- With no call at the gate, a node that is not Active needs no clean store. -/
theorem Inv.of_not_active (hst : StoreOk s.db s.nextRevisionID s.bucket s.recoveries)
    (hb : ∀ r ∈ s.buffer.records, r ∈ s.db) (hf : ∀ f ∈ s.flush, FlushOk s.db s.nextRevisionID f)
    (hg : s.gate = none) (hp : s.primary ≠ .active) : Inv s := by
  refine ⟨hst, hb, hf, fun k hk => (by simp [hg] at hk), fun ha _ => ?_⟩
  rcases ha with ha | ⟨k, hk, -⟩
  · exact absurd ha hp
  · simp [hg] at hk

theorem Inv.flushWaits {owner : FlushOwner} (h : Inv s) (hc : flushCalled s owner) :
    Inv (s.flushWaits owner) := by
  rcases flushWaits_cases hc with ⟨d, he⟩ | ⟨acquiredIn, hg, he⟩ <;> rw [he]
  · exact h.leave id
  · exact h.enter hg trivial (by simp [uploads])

theorem Inv.flushReturns {owner : FlushOwner} {r : Except PutError Unit} (h : Inv s)
    (ht : owner = .txn → ∃ acquiredIn q, s.gate = some ⟨acquiredIn, q⟩ ∧
      (q = .bufferFull ∨ q = .flushing)) : Inv (s.flushReturns owner r) := by
  rcases flushReturns_cases r ht with ⟨d, he⟩ | ⟨acquiredIn, q, hg, hq, he⟩
  · rw [he]
    exact h.leave id
  · have hu : uploads q = false := by rcases hq with rfl | rfl <;> rfl
    rcases he with he | he <;> rw [he]
    · exact h.release hg hu
    · exact h.enter hg trivial (by simp [hu])

/-! ### Changes of the store -/

theorem StoreOk.of_recoveries {recs' : List Recovery} (h : StoreOk db next b recs)
    (hsub : ∀ x ∈ recs', ∃ y ∈ recs, y.record = x.record) : StoreOk db next b recs' := by
  refine ⟨h.rows, h.objects, h.inflight, fun x hx => ?_⟩
  obtain ⟨y, hy, he⟩ := hsub x hx
  exact he ▸ h.recoveries y hy

theorem Clean.of_recoveries {recs' : List Recovery} (h : Clean next b recs)
    (hsub : ∀ x ∈ recs', ∃ y ∈ recs, y.record = x.record) : Clean next b recs' := by
  refine ⟨h.object, h.inflight, fun x hx => ?_⟩
  obtain ⟨y, hy, he⟩ := hsub x hx
  exact he ▸ h.recoveries y hy

theorem Inv.withStore (h : Inv s) (hst : StoreOk s.db s.nextRevisionID b recs)
    (hmono : ∀ o ∈ s.bucket, o ∈ b)
    (hcl : Clean s.nextRevisionID s.bucket s.recoveries → Clean s.nextRevisionID b recs) :
    Inv { s with bucket := b, recoveries := recs } := by
  refine ⟨hst, h.buffer, h.flush, fun k hk => ?_, fun ha hn => hcl (h.clean ha hn)⟩
  have hp := h.phase k hk
  cases hq : k.phase with
  | uploaded tx =>
    rw [hq] at hp
    obtain ⟨htx, file, hf, hr⟩ := hp
    exact ⟨htx, file, hmono _ hf, hr⟩
  | _ =>
    rw [hq] at hp
    exact hp

theorem Inv.commit (h : Inv s) (htx : TxOk s.db s.nextRevisionID tx)
    (hup : Uploaded s.nextRevisionID s.bucket tx ∨ Clean s.nextRevisionID s.bucket s.recoveries)
    (hq : PhaseOk tx.table (s.nextRevisionID + 1) s.bucket acquiredIn q) :
    Inv { s with
      db := tx.table
      nextRevisionID := s.nextRevisionID + 1
      gate := some ⟨acquiredIn, q⟩ } := by
  obtain ⟨hst, hcl⟩ := h.store.commit htx hup
  refine ⟨hst, fun r hr => (htx.2 r).mpr (Or.inr (h.buffer r hr)),
    fun f hf => (h.flush f hf).commit htx, ?_, fun _ _ => hcl⟩
  rintro k ⟨⟩
  exact hq

theorem chunkOk_next (htx : TxOk db next tx) (hr : ∀ r ∈ file.records, SameRecord tx.record r) :
    ChunkOk db next next file :=
  Or.inr ⟨rfl, fun r hmem => (hr r hmem).revision_eq ▸ htx.1⟩

theorem StoreOk.recoveryFile {r : Recovery} (h : StoreOk db next b recs) (now : Time)
    (nodeID : NodeID) (hr : r ∈ recs) :
    b.Has (.chunk r.record.revision) ∨
      ChunkOk db next r.record.revision (marshalChunk now r.record nodeID).2 := by
  rcases h.recoveries r hr with he | hh
  · refine Or.inr (Or.inr ⟨he, fun x hx => ?_⟩)
    obtain rfl : x = written r.record := by simpa [marshalChunk] using hx
    exact he
  · exact Or.inl hh

/-! ### Steps -/

theorem inv_upload (h : Inv s) (hs : upload s dv = some s') : Inv s' := by
  obtain ⟨acquiredIn, tx, ⟨key, data⟩, retried, hg, hcases⟩ := upload_eq_some hs
  obtain ⟨htx, rfl, hr⟩ := h.phase _ hg
  have hst := h.store.put dv (Or.inr (chunkOk_next htx hr))
  rcases hcases with ⟨rfl, hok⟩ | rfl | rfl
  · refine ⟨hst, h.buffer, h.flush, ?_, fun _ hn => absurd (hn _ rfl) (by simp [uploads])⟩
    rintro k ⟨⟩
    exact ⟨htx, data, (Bucket.mem_of_putIfMatch_ok hok).1, hr⟩
  · refine ⟨hst, h.buffer, h.flush, ?_, fun _ hn => absurd (hn _ rfl) (by simp [uploads])⟩
    rintro k ⟨⟩
    exact ⟨htx, rfl, hr⟩
  · -- the recovery takes the record, whose revision stays free
    obtain ⟨p, w, he⟩ := drainIfActive_eq { s with
      bucket := (s.bucket.putIfMatch (.chunk s.nextRevisionID) data dv).1
      gate := none
      recoveries := s.recoveries ++ [({ record := tx.record, uploaded := false } : Recovery)] }
    have hne := drainIfActive_ne_active (s := { s with
      bucket := (s.bucket.putIfMatch (.chunk s.nextRevisionID) data dv).1
      gate := none
      recoveries := s.recoveries ++ [({ record := tx.record, uploaded := false } : Recovery)] })
    rw [he] at hne ⊢
    refine Inv.of_not_active ⟨hst.rows, hst.objects, hst.inflight, fun r hr' => ?_⟩ h.buffer h.flush
      rfl hne
    rcases List.mem_append.mp hr' with hr' | hr'
    · exact hst.recoveries r hr'
    · obtain rfl := List.mem_singleton.mp hr'
      exact Or.inl htx.1

theorem inv_flush {owner : FlushOwner} {now : Time} (h : Inv s)
    (hs : LeaderTxn.flush c s owner now = some s') : Inv s' := by
  obtain ⟨hc, ⟨-, rfl⟩ | ⟨b, f, hb, rfl⟩⟩ := flush_eq_some hs
  · exact h.flushReturns (exists_gate_of_called hc)
  · obtain ⟨-, rfl, -, hrec, ⟨last, hlast, hkey⟩, -, -⟩ := startFlush_eq_some hb
    have hi : Inv { s with buffer := { s.buffer with flushing := true }, flush := some f } := by
      refine ⟨h.store, h.buffer, ?_, h.phase, h.clean⟩
      rintro _ ⟨⟩
      refine ⟨⟨_, hkey, h.store.rows last (h.buffer last hlast)⟩, fun r hr => ?_⟩
      rw [hrec] at hr
      obtain ⟨row, hrow, rfl⟩ := List.mem_map.mp hr
      exact ⟨row, h.buffer row hrow, rfl⟩
    exact hi.flushWaits hc

theorem inv_flushPut {getOk : Bool} (h : Inv s) (hs : flushPut s dv getOk = some s') : Inv s' := by
  obtain ⟨f, hf, -, rfl⟩ := flushPut_eq_some hs
  obtain ⟨k, hk, hlt, hset⟩ := (h.flush f hf).settled h.store.rows
  rw [putIfAbsent_fst, hk]
  have hw := h.withStore (h.store.put dv (Or.inr (Or.inl ⟨hlt, hset⟩)))
    (fun o ho => Bucket.mem_putIfMatch_of_mem ho) (fun hcl => hcl.put (by omega))
  refine ⟨hw.store, hw.buffer, ?_, hw.phase, hw.clean⟩
  rintro _ ⟨⟩
  exact h.flush f hf

theorem inv_flushEnd (ho : Owned s) (h : Inv s) (hs : flushEnd s = some s') : Inv s' := by
  obtain ⟨f, r, hf, -, rfl⟩ := flushEnd_eq_some hs
  have hi : Inv { s with buffer := s.buffer.endFlush f r, flush := none } := by
    refine ⟨h.store, fun x hx => h.buffer x ?_, fun _ hf => (by cases hf), h.phase, h.clean⟩
    cases r with
    | ok u => exact List.mem_of_mem_drop hx
    | error e => exact hx
  exact hi.flushReturns (ho.exists_gate hf)

theorem inv_recoveryPut {now : Time} {getOk : Bool} (h : Inv s)
    (hs : recoveryPut c s i now dv getOk = some s') : Inv s' := by
  obtain ⟨r, hr, -, hcases⟩ := recoveryPut_eq_some hs
  have hmem : r ∈ s.recoveries := List.mem_of_getElem? hr
  rw [writeRecordIfMissing_fst] at hcases
  have hst := h.store.put dv (h.store.recoveryFile now c.nodeID hmem)
  have hcl : Clean s.nextRevisionID s.bucket s.recoveries → Clean s.nextRevisionID
      (s.bucket.putIfMatch (.chunk r.record.revision) (marshalChunk now r.record c.nodeID).2 dv).1
      s.recoveries := fun hcl => hcl.put (hcl.recoveries r hmem)
  rcases hcases with ⟨-, rfl⟩ | rfl
  · have hsub : ∀ x ∈ s.recoveries.set i { r with uploaded := true },
        ∃ y ∈ s.recoveries, y.record = x.record := by
      intro x hx
      rcases List.mem_or_eq_of_mem_set hx with hx | rfl
      · exact ⟨x, hx, rfl⟩
      · exact ⟨r, hmem, rfl⟩
    exact h.withStore (hst.of_recoveries hsub) (fun o ho => Bucket.mem_putIfMatch_of_mem ho)
      fun hc => (hcl hc).of_recoveries hsub
  · exact h.withStore hst (fun o ho => Bucket.mem_putIfMatch_of_mem ho) hcl

theorem inv_beginTx {now : Time} {txOk : Bool} (h : Inv s)
    (hok : ∀ k ∈ s.gate, (strategy c s).useQuorum = true → k.acquiredIn = .active)
    (hs : beginTx c s now txOk = some s') : Inv s' := by
  obtain ⟨acquiredIn, request, hg, rfl | ⟨tx, htx, rfl⟩⟩ := beginTx_eq_some hs
  · exact h.release hg rfl
  · refine h.enter hg ?_ (by simp [uploads])
    unfold pathOf
    split_ifs with hq
    · exact ⟨htx, hok _ hg hq⟩
    · refine ⟨htx, by rw [← htx.1]; rfl, fun r hmem => ?_⟩
      obtain rfl : r = written tx.record := by simpa [marshalChunk] using hmem
      exact sameRecord_written tx.record

theorem inv_commitSync {ok : Bool} (h : Inv s) (hs : commitSync s ok = some s') : Inv s' := by
  obtain ⟨acquiredIn, tx, hg, rfl | rfl⟩ := commitSync_eq_some hs
  · obtain ⟨htx, hup⟩ := h.phase _ hg
    exact h.commit htx (Or.inl hup) trivial
  · exact Inv.of_not_active h.store h.buffer h.flush rfl (trySetPrimary_draining_ne_active _)

theorem inv_commitQuorum {ok : Bool} (h : Inv s) (hs : commitQuorum s ok = some s') : Inv s' := by
  obtain ⟨acquiredIn, tx, hg, -, ⟨-, rfl⟩ | ⟨-, rfl⟩⟩ := commitQuorum_eq_some hs
  · obtain ⟨htx, ha⟩ := h.phase _ hg
    have hcl := h.clean (Or.inr ⟨_, hg, ha⟩) fun k hk => by
      rw [hg] at hk
      cases hk
      rfl
    exact h.commit htx (Or.inr hcl) ((htx.2 _).mpr (Or.inl rfl))
  · exact h.release hg rfl

theorem inv_step (ho : Owned s) (h : Inv s) (hok : QuorumWhileActive c s a)
    (hs : step c s a = some s') : Inv s' := by
  cases a with
  | acquire i =>
    obtain ⟨call, hg, -, rfl⟩ := acquire_eq_some hs
    refine ⟨h.store, h.buffer, h.flush, ?_, fun ha _ => h.clean (Or.inl ?_) ?_⟩
    · rintro k ⟨⟩
      trivial
    · rcases ha with ha | ⟨k, ⟨⟩, ha⟩
      · exact ha
      · exact ha
    · intro k hk
      simp [hg] at hk
  | beginTx now txOk => exact inv_beginTx h hok hs
  | upload dv => exact inv_upload h hs
  | commitSync ok => exact inv_commitSync h hs
  | startCollecting =>
    obtain ⟨_, tx, _, hg, rfl⟩ := startCollecting_eq_some hs
    exact h.enter hg (h.phase _ hg) (by simp [uploads])
  | commitQuorum ok => exact inv_commitQuorum h hs
  | quorumTimeout =>
    obtain ⟨_, _, hg, rfl⟩ := quorumTimeout_eq_some hs
    exact h.release hg rfl
  | broadcastRecord =>
    obtain ⟨_, ⟨_, hg, rfl⟩ | ⟨_, hg, rfl⟩⟩ := broadcastRecord_eq_some hs
    · exact h.enter hg trivial (by simp [uploads])
    · exact h.enter hg (h.phase _ hg) (by simp [uploads])
  | setCommitted =>
    obtain ⟨_, _, ⟨hg, rfl⟩ | ⟨hg, rfl⟩⟩ := setCommitted_eq_some hs
    · exact h.enter hg trivial (by simp [uploads])
    · exact h.enter hg (h.phase _ hg) (by simp [uploads])
  | broadcastCommit =>
    obtain ⟨_, _, ⟨hg, rfl⟩ | ⟨hg, rfl⟩⟩ := broadcastCommit_eq_some hs
    · exact h.release hg rfl
    · exact h.enter hg (h.phase _ hg) (by simp [uploads])
  | bufferRecord =>
    obtain ⟨acquiredIn, record, hg, hcases⟩ := bufferRecord_eq_some hs
    have hi : Inv { s with buffer := s.buffer.append c.size record } := by
      refine ⟨h.store, fun r hr => ?_, h.flush, h.phase, h.clean⟩
      rcases List.mem_append.mp hr with hr | hr
      · exact h.buffer r hr
      · obtain rfl := List.mem_singleton.mp hr
        exact h.phase _ hg
    rcases hcases with rfl | rfl
    · exact hi.enter hg trivial (by simp [uploads])
    · exact hi.release hg rfl
  | checkFull =>
    obtain ⟨_, hg, rfl | rfl⟩ := checkFull_eq_some hs
    · exact h.release hg rfl
    · refine Inv.drainIfActive ?_
      exact h.release hg rfl
  | flush owner now => exact inv_flush h hs
  | flushPut dv getOk => exact inv_flushPut h hs
  | flushEnd => exact inv_flushEnd ho h hs
  | recoveryPut i now dv getOk => exact inv_recoveryPut h hs
  | recoveryResign i =>
    obtain ⟨r, -, -, rfl⟩ := recoveryResign_eq_some hs
    have hsub : ∀ x ∈ s.recoveries.eraseIdx i, ∃ y ∈ s.recoveries, y.record = x.record :=
      fun x hx => ⟨x, List.mem_of_mem_eraseIdx hx, rfl⟩
    exact (h.setPrimary (by decide)).withStore (h.store.of_recoveries hsub) (fun _ ho => ho)
      fun hcl => hcl.of_recoveries hsub
  | land i =>
    obtain ⟨b, hl, rfl⟩ := Option.map_eq_some_iff.mp hs
    refine h.withStore (h.store.land hl) (fun o ho => ?_) fun hcl => hcl.land hl
    obtain ⟨k, d, -, hobj, -⟩ := Bucket.land_eq_some hl
    exact (hobj o).mpr (Bucket.mem_create_of_mem ho)
  | _ =>
    rw [(frame_step hs).eq_of_aside rfl rfl rfl rfl]
    exact h.leave fun ha => by_contra fun hne => primary_ne_active_step hne hs ha

/-! ### Runs -/

/-- What the Primary takes over: the chunks agree with its database and reach no further, and no
write of an earlier Primary is under way. -/
structure Handed (db : Table) (b : ObjectStorage) : Prop where
  keys : ∀ k file, (ObjectKey.chunk k, file) ∈ b → k ≤ db.latestRevision
  revisions : ∀ k file, (ObjectKey.chunk k, file) ∈ b → ∀ r ∈ file.records,
    r.revision ≤ db.latestRevision
  agree : ∀ k file, (ObjectKey.chunk k, file) ∈ b → ∀ r ∈ file.records, ∀ row ∈ db,
    row.revision = r.revision → SameRecord row r
  inflight : b.inflight = []

theorem inv_start {peers : Peers} (h : Handed db b) : Inv (Server.start db b peers) := by
  have hrows : ∀ row ∈ db, row.revision < db.latestRevision + 1 := fun row hr => by
    have := Table.revision_le_latestRevision hr
    omega
  refine ⟨⟨hrows, fun k file ho => Or.inl ⟨?_, fun r hr => ⟨?_, h.agree k file ho r hr⟩⟩, ?_, ?_⟩,
    ?_, ?_, ?_, fun _ _ => ⟨fun hh => ?_, ?_, ?_⟩⟩
  · have := h.keys k file ho
    simp only [Server.start]
    omega
  · have := h.revisions k file ho r hr
    simp only [Server.start]
    omega
  · simp [Server.start, h.inflight]
  · simp [Server.start]
  · simp [Server.start, Buffer.empty]
  · simp [Server.start]
  · simp [Server.start]
  · obtain ⟨file, hf⟩ := Bucket.has_iff.mp hh
    have := h.keys _ file hf
    simp only [Server.start] at this
    omega
  · simp [Server.start, h.inflight]
  · simp [Server.start]

/-- **A committed row and a stored record of one revision are the same record**, in every run in
which a call takes Path 2 only if it took the gate of an Active node. -/
theorem committed_agrees_durable {peers : Peers} {as : List Action} (hstart : Handed db b)
    (hok : Meets (step c) (QuorumWhileActive c) (Server.start db b peers) as)
    (hrun : exec (step c) (Server.start db b peers) as = some s) :
    ∀ row ∈ s.db, ∀ k file, (ObjectKey.chunk k, file) ∈ s.bucket → ∀ r ∈ file.records,
      row.revision = r.revision → SameRecord row r := by
  have hinv : Owned s ∧ Inv s := exec_invariant (I := fun s => Owned s ∧ Inv s)
    (fun _ _ _ hi hok hs => ⟨owned_step hi.1 hs, inv_step hi.1 hi.2 hok hs⟩)
    ⟨owned_start, inv_start hstart⟩ hok hrun
  intro row hrow k file ho r hr he
  rcases hinv.2.store.objects k file ho with ⟨-, hs⟩ | ⟨-, hnext⟩
  · exact (hs r hr).2 row hrow he
  · have := hinv.2.store.rows row hrow
    have := hnext r hr
    omega

theorem handed_first : Handed Gate.firstTable Gate.firstBucket := by
  have hobj : ∀ k file, (ObjectKey.chunk k, file) ∈ Gate.firstBucket →
      k = 1 ∧ file.records = [Gate.firstRecord] := by
    intro k file ho
    have he : (ObjectKey.chunk k, file) ∈
        [(ObjectKey.chunk 1, (marshalChunk 1 Gate.firstRecord "p").2)] := ho
    cases List.mem_singleton.mp he
    exact ⟨rfl, rfl⟩
  refine ⟨fun k file ho => ?_, fun k file ho r hr => ?_, fun k file ho r hr => ?_, rfl⟩
  · rw [(hobj k file ho).1]
    decide
  · rw [(hobj k file ho).2] at hr
    cases List.mem_singleton.mp hr
    decide
  · rw [(hobj k file ho).2] at hr
    cases List.mem_singleton.mp hr
    decide

def syncCommit : List Action := Gate.oneCall ++ [.upload .answered, .commitSync true]

theorem committed_agrees_durable_sync :
    ∃ s, exec (step Gate.syncOnly) Gate.fresh syncCommit = some s ∧
      (∃ row ∈ s.db, row.revision = 2) ∧ s.bucket.Has (.chunk 2) ∧
      ∀ row ∈ s.db, ∀ k file, (ObjectKey.chunk k, file) ∈ s.bucket → ∀ r ∈ file.records,
        row.revision = r.revision → SameRecord row r := by
  have hok :
      Meets (step Gate.syncOnly) (QuorumWhileActive Gate.syncOnly) Gate.fresh syncCommit := by
    decide
  refine ⟨_, rfl, by decide, by decide, ?_⟩
  exact committed_agrees_durable handed_first hok rfl

/-! ### A revision used twice -/

/-- One receipt commits. -/
def oneReceipt : Config := { Gate.syncOnly with quorum := 1 }

/-- A Healthy node `"q"` receipts the revision. -/
def receipt (revision : ℤ) : ReplicaMessage :=
  { revision := revision
    heartbeat := some { nodeID := "q", health := .healthy, primary := .replica,
                        latestRevision := revision } }

/-- `"q"` follows and is sent a record that Path 1 commits at revision 2. -/
def followed : List Action :=
  .peer (.follow "q" 1) :: syncCommit ++
    [.broadcastRecord, .setCommitted, .broadcastCommit, .peer (.send 0), .peer (.send 0)]

/-- `"q"` has receipted it. A quorum commits at revision 3; the record is in the buffer. -/
def buffered : List Action :=
  followed ++ [.peer (.recv 0 6 (receipt 2)),
    .requireActivePrimary (Gate.createRequest [98] [1]), .acquire 0, .beginTx 7 true,
    .startCollecting, .broadcastRecord, .peer (.send 0), .peer (.recv 0 8 (receipt 3)),
    .commitQuorum true, .setCommitted, .broadcastCommit, .bufferRecord]

/-- The upload of the first call fails and its record goes to the recovery. The second call was
admitted before; by now the receipt of a Healthy Replica has come, so the call commits its own
record at the same revision by a quorum. Then the recovery uploads the first record. -/
theorem recovery_uploads_rolled_back_record :
    ∃ s, exec (step oneReceipt) Gate.fresh (followed ++
        [.requireActivePrimary (Gate.createRequest [98] [1]),
          .requireActivePrimary (Gate.createRequest [99] [2]), .acquire 0, .beginTx 6 true,
          .upload .failed, .upload .failed, .peer (.recv 0 7 (receipt 2)), .acquire 0,
          .beginTx 8 true, .startCollecting, .broadcastRecord, .peer (.send 0),
          .peer (.recv 0 9 (receipt 3)), .commitQuorum true,
          .recoveryPut 0 10 .answered true]) = some s ∧
      (∃ row ∈ s.db, row.revision = 3 ∧ row.key = [99]) ∧
      ∃ o ∈ s.bucket, o.1 = .chunk 3 ∧ ∃ r ∈ o.2.records, r.revision = 3 ∧ r.key = [98] := by
  refine ⟨_, rfl, ?_, ?_⟩
  · decide
  · decide

end Netsy.Primary.DurableLog
