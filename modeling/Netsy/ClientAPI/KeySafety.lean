import Netsy.CommonAPI.RangeStream
import Netsy.Lib.Run
import Netsy.Watch.Moves

/-! # Requests with empty keys

`buildRangeQuery` and `isInRange` compute the key with its last byte incremented, and the runtime
panics where there is no last byte. `buildRangeQuery` has no guard; the guard of `isInRange` is on
the key of the record and not on the key of the range. The key of a watch is stored as it is, and
the panic comes with the request of another client, when its record is distributed. No handler
recovers: a panic is the end of the server. -/

namespace Netsy.ClientAPI.KeySafety

open Proto Lib.Run LocalDB.Schema CommonAPI.RangeQuery CommonAPI.Range CommonAPI.RangeStream
open Watch.Match Watch.Hub Watch.Hub.Manager Watch.Moves

/-! ### Range requests -/

/-- `Range` comes to no panic: the request is rejected first, or it has a key. -/
def RangeServed (r : RangeRequest) : Prop :=
  validateRangeRequest r ≠ .ok () ∨ r.key ≠ []

/-- `RangeStream` comes to no panic; it rejects every sort order. -/
def StreamServed (r : RangeRequest) : Prop :=
  validateRangeRequest r ≠ .ok () ∨ r.sortOrder ≠ .none ∨ r.key ≠ []

instance : DecidablePred RangeServed := fun _ => inferInstanceAs (Decidable (_ ∨ _))

instance : DecidablePred StreamServed := fun _ => inferInstanceAs (Decidable (_ ∨ _))

variable {r : RangeRequest} {committed revision totalLimit : ℤ} {w : Where} {c : Cursor}

theorem rangeEndPrefixValue_eq_none_iff {key : Bytes} :
    rangeEndPrefixValue key = none ↔ key = [] := by
  unfold rangeEndPrefixValue
  rw [Option.map_eq_none_iff, List.getLast?_eq_none_iff]

theorem buildRangeQuery_eq_none_iff {key rangeEnd : Bytes} :
    buildRangeQuery key rangeEnd = none ↔ key = [] := by
  unfold buildRangeQuery
  rw [Option.map_eq_none_iff, rangeEndPrefixValue_eq_none_iff]

theorem key_ne_nil {key rangeEnd : Bytes} (h : buildRangeQuery key rangeEnd = some w) :
    key ≠ [] := by
  intro hkey
  rw [buildRangeQuery_eq_none_iff.mpr hkey] at h
  cases h

theorem validateRangeRequest_ne (r : RangeRequest) :
    validateRangeRequest r ≠ .error .indexOutOfRange := by
  unfold validateRangeRequest
  dsimp only
  split_ifs <;> simp

theorem recordsToKeyValues_ne (rows : List Record) :
    recordsToKeyValues rows ≠ .error .indexOutOfRange := by
  unfold recordsToKeyValues
  split_ifs <;> simp [errCompacted]

theorem bind_ne {α β : Type} {e : RangeError} {x : Except RangeError α}
    {f : α → Except RangeError β} (hx : x ≠ .error e) (hf : ∀ a, x = .ok a → f a ≠ .error e) :
    x >>= f ≠ .error e := by
  cases x with
  | error e' => exact fun he => hx (congrArg Except.error (Except.error.inj he))
  | ok a => exact hf a rfl

theorem range_ne_iff (db : Table) (r : RangeRequest) (committed : ℤ) :
    range db r committed ≠ .error .indexOutOfRange ↔ RangeServed r := by
  unfold range RangeServed
  cases hv : validateRangeRequest r with
  | error e =>
    have hne := validateRangeRequest_ne r
    rw [hv] at hne
    simpa [bind, Except.bind] using hne
  | ok u =>
    cases hq : buildRangeQuery r.key r.rangeEnd with
    | none =>
      have hkey := buildRangeQuery_eq_none_iff.mp hq
      simp [bind, Except.bind, hkey]
    | some w =>
      refine iff_of_true (bind_ne (by simp) fun _ _ => ?_) (Or.inr (key_ne_nil hq))
      cases r.countOnly with
      | true => simp [pure, Except.pure]
      | false => exact bind_ne (recordsToKeyValues_ne _) fun kvs _ => by simp [pure, Except.pure]

/-- The next chunk is not empty, and the limit is not reached. -/
structure Going (totalLimit : ℤ) (c : Cursor) : Prop where
  keys : 1 ≤ c.keys
  count : c.count < totalLimit

theorem length_chunkRows {db : Table} {chunkLimit : ℤ} {afterKey : Bytes} (h : 0 ≤ chunkLimit)
    (hmore : (chunkRows db w revision chunkLimit afterKey).2 = true) :
    ((chunkRows db w revision chunkLimit afterKey).1.length : ℤ) = chunkLimit := by
  unfold chunkRows at hmore ⊢
  dsimp only at hmore ⊢
  rw [if_pos hmore, List.length_take]
  have hlt := of_decide_eq_true hmore
  omega

/-- **A round of a stream** comes to no panic: a chunk that is not the last one has a key-value. -/
theorem streamRound_ne (size : List KeyValue → ℤ) (w : Where) (revision committed : ℤ)
    (db db' : Table) (h : Going totalLimit c) :
    streamRound size w revision totalLimit committed db db' c ≠ .error .indexOutOfRange ∧
      ∀ resp c', streamRound size w revision totalLimit committed db db' c = .ok (resp, some c') →
        Going totalLimit c' := by
  have hkeys := h.keys
  have hcount := h.count
  unfold streamRound
  dsimp only
  generalize hchunk : chunkRows db w revision (min c.keys (totalLimit - c.count)) c.afterKey = chunk
  cases hkvs : recordsToKeyValues chunk.1 with
  | error e =>
    have hne := recordsToKeyValues_ne chunk.1
    rw [hkvs] at hne
    exact ⟨fun he => hne (congrArg Except.error (Except.error.inj he)), fun _ _ h => by cases h⟩
  | ok kvs =>
    simp only [bind, Except.bind, chunkResponse]
    by_cases hgoing : chunk.2 = true ∧ c.count + kvs.length ≠ totalLimit
    · obtain ⟨hmore, hlimit⟩ := hgoing
      rw [if_neg (by simp [hmore, hlimit])]
      have hlen : (kvs.length : ℤ) = min c.keys (totalLimit - c.count) := by
        rw [recordsToKeyValues_ok hkvs, List.length_map, ← hchunk]
        exact length_chunkRows (by omega) (hchunk ▸ hmore)
      cases hlast : kvs.getLast? with
      | none =>
        rw [List.getLast?_eq_none_iff.mp hlast, List.length_nil] at hlen
        omega
      | some last =>
        refine ⟨by simp, fun resp c' h => ?_⟩
        cases h
        exact ⟨one_le_observe hkeys, by dsimp only; omega⟩
    · rw [if_pos (by simpa [or_iff_not_imp_left] using hgoing)]
      exact ⟨by simp, fun _ _ h => by cases h⟩

theorem streamRounds_ne {size : List KeyValue → ℤ} {db : ℕ → Table} (fuel i : ℕ)
    (h : Going totalLimit c) :
    (streamRounds size w revision totalLimit committed db fuel i c).2 ≠
      .error .indexOutOfRange := by
  induction fuel generalizing i c with
  | zero => simp [streamRounds]
  | succ fuel ih =>
    obtain ⟨hne, hnext⟩ := streamRound_ne size w revision committed (db i) (db (i + 1)) h
    unfold streamRounds
    split
    · rename_i e he
      rw [he] at hne
      simpa using hne
    · simp
    · rename_i resp c' hok
      exact ih (i + 1) (hnext resp c' hok)

theorem rangeStream_ne_iff (size : List KeyValue → ℤ) (db : ℕ → Table) (rounds : ℕ)
    (r : RangeRequest) (committed : ℤ) :
    (rangeStream size db rounds r committed).2 ≠ .error .indexOutOfRange ↔ StreamServed r := by
  unfold rangeStream StreamServed
  cases hv : validateRangeRequest r with
  | error e =>
    have hne := validateRangeRequest_ne r
    rw [hv] at hne
    simpa using hne
  | ok u =>
    dsimp only
    by_cases hsort : r.sortOrder = .none
    · rw [if_neg (not_not.mpr hsort)]
      cases hq : buildRangeQuery r.key r.rangeEnd with
      | none =>
        have hkey := buildRangeQuery_eq_none_iff.mp hq
        simp [hkey, hsort]
      | some w =>
        refine iff_of_true ?_ (Or.inr (Or.inr (key_ne_nil hq)))
        dsimp only
        split_ifs with hcount hlimit
        · simp
        · exact streamRounds_ne rounds 0 ⟨by decide, by decide⟩
        · have hpos := limit_nonneg hv
          exact streamRounds_ne rounds 0 ⟨by decide, by change (0 : ℤ) < r.limit; omega⟩
    · simp [hsort]

/-! ### Watches -/

/-- `isInRange` is not reached, or it finds a key. -/
def EntryServed (y : WatchEntry) : Prop :=
  y.key ≠ [] ∨ y.filtersNoPut = true ∧ y.filtersNoDelete = true

/-- The request has a key, or its filters leave no record to compare with it. -/
def WatchServed (r : WatchCreateRequest) : Prop :=
  r.key ≠ [] ∨ .noPut ∈ r.filters ∧ .noDelete ∈ r.filters

instance : DecidablePred WatchServed := fun _ => inferInstanceAs (Decidable (_ ∨ _))

theorem entryServed_watchData (r : WatchCreateRequest) :
    EntryServed (watchData r) ↔ WatchServed r := by
  simp [EntryServed, WatchServed, watchData]

theorem isInRange_isSome {key rangeKey rangeEnd : Bytes} (h : rangeKey ≠ []) :
    (isInRange key rangeKey rangeEnd).isSome := by
  unfold isInRange
  split_ifs
  · rfl
  · rw [Option.isSome_map, ← Option.ne_none_iff_isSome]
    exact fun hnone => h (rangeEndPrefixValue_eq_none_iff.mp hnone)

/-- **The watches that no record brings to a panic.** A watch without a key panics on the first
record with a key that its filters let through. -/
theorem isWatchMatch_isSome_iff (y : WatchEntry) :
    (∀ record, (isWatchMatch y record).isSome) ↔ EntryServed y := by
  constructor
  · intro h
    by_contra hy
    obtain ⟨hkey, hfilters⟩ : y.key = [] ∧ (y.filtersNoPut = true → y.filtersNoDelete = false) := by
      simpa [EntryServed] using hy
    -- a put if the filters let it through, and a deletion otherwise
    have hmatch := h { revision := y.startRevision, key := [0], deleted := y.filtersNoPut }
    cases hput : y.filtersNoPut with
    | true =>
      simp [isWatchMatch, isInRange, hput, hfilters hput, hkey, rangeEndPrefixValue] at hmatch
    | false => simp [isWatchMatch, isInRange, hput, hkey, rangeEndPrefixValue] at hmatch
  · rintro (hkey | ⟨hput, hdelete⟩) record
    · unfold isWatchMatch
      split_ifs
      · rfl
      · rfl
      · rfl
      · exact isInRange_isSome hkey
    · unfold isWatchMatch
      rw [hput, hdelete]
      cases record.deleted <;> simp

/-! ### The server -/

/-- A server runs until the first panic. -/
inductive Server
  | running (m : Manager)
  | crashed

inductive Event
  | range (db : Table) (r : RangeRequest) (committed : ℤ)
  | rangeStream (size : List KeyValue → ℤ) (db : ℕ → Table) (rounds : ℕ) (r : RangeRequest)
      (committed : ℤ)
  /-- A step of the watch manager. -/
  | watch (env : Env) (a : Action)
  /-- A record is committed, and `Distribute` begins. -/
  | distribute (caller : Caller) (arg : Distribution)

/-- The inner loop of `Distribute` comes to a watch on which `isInRange` panics. -/
def panics (m : Manager) : Action → Bool
  | .offer i watchID =>
    m.dists[i]?.any fun d => d.visiting.any fun v =>
      v.2.contains watchID &&
        ((m.watchers v.1).watches.find? fun y => y.id = watchID).any fun y =>
          (isWatchMatch y.entry d.arg.record).isNone
  | _ => false

/-- What a call leaves of the server. -/
def answered {α : Type} (m : Manager) : Except RangeError α → Server
  | .error .indexOutOfRange => .crashed
  | _ => .running m

def step : Server → Event → Option Server
  | .crashed, _ => none
  | .running m, .range db r committed => some (answered m (range db r committed))
  | .running m, .rangeStream size db rounds r committed =>
    some (answered m (rangeStream size db rounds r committed).2)
  | .running m, .watch env a =>
    if panics m a then some .crashed else (Watch.Hub.step env m a).map .running
  | .running m, .distribute caller arg => some (.running (m.distribute caller arg))

/-- The request for which the step adds a watch, unless the floor has risen or the watcher is
closed. -/
def admitted : Server → Action → Option WatchCreateRequest
  | .running m, .add w => (reserved (m.watchers w).creating).map Prod.fst
  | _, _ => none

/-- What the requests have to be: each one that reaches `Range` or `RangeStream`, and each one that
`CreateWatch` adds as a watch. -/
def Served (s : Server) : Event → Prop
  | .range _ r _ => RangeServed r
  | .rangeStream _ _ _ r _ => StreamServed r
  | .watch _ a => ∀ r ∈ admitted s a, WatchServed r
  | .distribute _ _ => True

instance (s : Server) : DecidablePred (Served s)
  | .range _ r _ => inferInstanceAs (Decidable (RangeServed r))
  | .rangeStream _ _ _ r _ => inferInstanceAs (Decidable (StreamServed r))
  | .watch _ a => inferInstanceAs (Decidable (∀ r ∈ admitted s a, WatchServed r))
  | .distribute _ _ => inferInstanceAs (Decidable True)

/-- Every watch that the server holds is served. -/
def Sound (b : Board) : Prop := ∀ w, ∀ y ∈ (b.faces w).watches, EntryServed y.entry

theorem sound_of_move {env : Env} {a : Action} {b b' : Board} (hmove : Move env a b b')
    (h : Sound b)
    (hadd : ∀ w r id, a = .add w → (b.faces w).reserved = some (r, id) → WatchServed r) :
    Sound b' := by
  have hset : ∀ w f, (∀ y ∈ f.watches, EntryServed y.entry) → Sound (b.setFace w f) :=
    fun w f hf => Board.forall_setFace (P := fun _ f => ∀ y ∈ f.watches, EntryServed y.entry) hf
      fun v _ => h v
  cases hmove with
  | register => exact hset _ _ (by simp)
  | reserve | release | push | report => exact hset _ _ (h _)
  | add ha hres hentry =>
    refine hset _ _ fun z hz => ?_
    rcases List.mem_append.mp hz with hz | hz
    · exact h _ z hz
    · rw [List.mem_singleton.mp hz, hentry]
      exact (entryServed_watchData _).mpr (hadd _ _ _ ha hres)
  | retire | closed => exact hset _ _ fun z hz => h _ z (List.mem_filter.mp hz).1
  | keep | unregister | enter | pass | slow | leave | unlock | nextSlow | finish | reports =>
    exact h

theorem panics_of_sound {m : Manager} (h : Sound (board m)) (a : Action) : panics m a = false := by
  cases a with
  | offer i watchID =>
    rw [← Bool.not_eq_true]
    intro hp
    obtain ⟨d, -, hp⟩ := (Option.any_eq_true _ _).mp hp
    obtain ⟨v, -, hp⟩ := (Option.any_eq_true _ _).mp hp
    obtain ⟨-, hp⟩ := Bool.and_eq_true_iff.mp hp
    obtain ⟨y, hy, hp⟩ := (Option.any_eq_true _ _).mp hp
    have hserved : EntryServed y.entry := h v.1 y (List.mem_of_find?_eq_some hy)
    have hsome := (isWatchMatch_isSome_iff y.entry).mpr hserved d.arg.record
    rw [Option.isNone_iff_eq_none.mp hp] at hsome
    cases hsome
  | _ => rfl

theorem answered_of_ne {α : Type} (m : Manager) {x : Except RangeError α}
    (h : x ≠ .error .indexOutOfRange) : answered m x = .running m := by
  unfold answered
  split
  · exact absurd rfl h
  · rfl

theorem sound_step {s : Server} {e : Event} {m : Manager} (h : Sound (board m))
    (hserved : Served (.running m) e) (hstep : step (.running m) e = some s) :
    ∃ m', s = .running m' ∧ Sound (board m') := by
  cases e with
  | range db r committed =>
    cases hstep
    exact ⟨m, answered_of_ne m ((range_ne_iff db r committed).mpr hserved), h⟩
  | rangeStream size db rounds r committed =>
    cases hstep
    exact ⟨m, answered_of_ne m ((rangeStream_ne_iff size db rounds r committed).mpr hserved), h⟩
  | watch env a =>
    simp only [step, panics_of_sound h a, Bool.false_eq_true, if_false] at hstep
    obtain ⟨m', hm, rfl⟩ := Option.map_eq_some_iff.mp hstep
    refine ⟨m', rfl, sound_of_move (move_of_step hm) h fun w r id ha hres => ?_⟩
    subst ha
    exact hserved r (Option.mem_def.mpr (congrArg (Option.map Prod.fst) hres))
  | distribute caller arg =>
    cases hstep
    exact ⟨_, rfl, h⟩

/-- **Requests with unusual keys.** The requests on which no call panics, at once or with a later
record, are those that are rejected, that have a key, or, for a watch, that filter every record;
and a server that gets no others runs on. -/
theorem key_safety_iff (size : List KeyValue → ℤ) (db : ℕ → Table) (rounds : ℕ)
    (r : RangeRequest) (committed : ℤ) (create : WatchCreateRequest) :
    (range (db 0) r committed ≠ .error .indexOutOfRange ↔ RangeServed r) ∧
    ((rangeStream size db rounds r committed).2 ≠ .error .indexOutOfRange ↔ StreamServed r) ∧
    ((∀ record, (isWatchMatch (watchData create) record).isSome) ↔ WatchServed create) ∧
    ∀ events s, Meets step Served (.running .new) events →
      exec step (.running .new) events = some s → ∃ m, s = .running m := by
  refine ⟨range_ne_iff (db 0) r committed, rangeStream_ne_iff size db rounds r committed, ?_,
    fun events s hok hrun => ?_⟩
  · exact (isWatchMatch_isSome_iff _).trans (entryServed_watchData create)
  · have hnew : Sound (board .new) := fun w y hy => absurd hy (by simp [board, face, Manager.new,
      Watcher.unused])
    have hinv : ∃ m, s = .running m ∧ Sound (board m) := by
      refine exec_invariant (I := fun s => ∃ m, s = .running m ∧ Sound (board m)) ?_
        ⟨_, rfl, hnew⟩ hok hrun
      rintro _ e s' ⟨m, rfl, hm⟩ hserved hstep
      exact sound_step hm hserved hstep
    obtain ⟨m, hm, -⟩ := hinv
    exact ⟨m, hm⟩

/-- A node without a record. -/
def emptyNode : Env := { committed := 0, compaction := 0, db := .empty, log := 0 }

/-- A client creates a watch. -/
def createWatch (r : WatchCreateRequest) : List Event :=
  [.register, .receive 1 r, .accept 1, .lookup 1 none, .add 1, .ack 1 none].map (.watch emptyNode)

/-- A put of the key `a` by another client comes to the watch. -/
def distributePut : List Event :=
  [.distribute .applyTxn ⟨{ revision := 1, key := [97] }, none⟩, .watch emptyNode (.enter 0 1),
    .watch emptyNode (.offer 0 1)]

/-- Requests without a key: one that is rejected, and a watch that filters everything. -/
def filteredWatch : List Event :=
  .range .empty { key := [], serializable := true } 0 ::
    (createWatch { key := [], filters := [.noPut, .noDelete] } ++ distributePut)

theorem key_safety_iff_filteredWatch :
    ∃ m, exec step (.running .new) filteredWatch = some (.running m) := by
  obtain ⟨s, hrun, -⟩ := exists_exec_of_any step (.running .new) filteredWatch (fun _ => True)
    (by decide +kernel)
  obtain ⟨-, -, -, hruns⟩ := key_safety_iff (fun _ => 0) (fun _ => .empty) 1 { key := [97] } 0
    { key := [97] }
  obtain ⟨m, rfl⟩ := hruns filteredWatch s (by decide +kernel) hrun
  exact ⟨m, hrun⟩

/-- **An empty key ends the server**: `Range` panics on it at once, and a watch when a client writes
another key. -/
theorem empty_key_crashes :
    exec step (.running .new) [.range .empty { key := [] } 0] = some .crashed ∧
      exec step (.running .new) (createWatch { key := [] } ++ distributePut) = some .crashed :=
  ⟨rfl, rfl⟩

end Netsy.ClientAPI.KeySafety
