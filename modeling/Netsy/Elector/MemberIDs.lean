import Netsy.Lib.Keyed
import Netsy.Lib.ObjectStore
import Netsy.Lib.Run
import Netsy.Proto
import Mathlib.Algebra.Group.Nat.Defs

/-! # Member ids

The member ids of the nodes are kept in `members.json`. Several Electors may read and write it at
once: `RegisterNode` adds an id for its node, the bootstrap of an Elector adds ids for the
registration files it finds, and the first Elector creates the file. Every write is conditional on
the version that was read. A write whose error was reported may take effect all the same, also
much later. -/

namespace Netsy.Elector.MemberIDs

open Proto Lib.Keyed Lib.ObjectStore Lib.Run

/-! ### The file -/

/-- `MembersFile.Members`, from node ids to member ids. -/
abbrev Members := KeyedMap (Prod.fst : NodeID × ℕ → NodeID)

def findMemberID (mf : Members) (nodeID : NodeID) : Option ℕ := (mf.get nodeID).map Prod.snd

/-- The highest member id. -/
def maxID (mf : Members) : ℕ :=
  mf.entries.foldl (fun highest e => if highest < e.2 then e.2 else highest) 0

/-- `AllocateMemberID`, in `uint64`. -/
def allocateMemberID (existing : Members) : ℕ := (maxID existing + 1) % 2 ^ 64

/-- The file with a new id for the node. -/
def allocate (mf : Members) (nodeID : NodeID) : Members := mf.add (nodeID, allocateMemberID mf)

/-- What the bootstrap meets: a registration file, and what the node map of the Elector says of its
node. -/
structure Registration where
  nodeID : NodeID
  isDeregistered : Bool := false
  inNodeMap : Bool := false
deriving DecidableEq, Repr

/-- The loop of `bootstrapFirstElector`; it also counts the allocations. -/
def firstMembers (mf : Members) : List Registration → Members × ℕ
  | [] => (mf, 0)
  | reg :: regs =>
    if reg.isDeregistered then firstMembers mf regs
    else
      let (mf, n) := firstMembers (allocate mf reg.nodeID) regs
      (mf, n + 1)

/-- The loop of `bootstrapExisting`; it also counts the allocations. -/
def reconcile (mf : Members) : List Registration → Members × ℕ
  | [] => (mf, 0)
  | reg :: regs =>
    if reg.isDeregistered || reg.inNodeMap || (findMemberID mf reg.nodeID).isSome then
      reconcile mf regs
    else
      let (mf, n) := reconcile (allocate mf reg.nodeID) regs
      (mf, n + 1)

/-! ### `allocateOrReuseMemberID` -/

/-- How a conditional write ends for its caller: with the answer of the store, or with an error,
which may be the one for a failed precondition. -/
inductive Outcome
  | answered | failed (precondition : Bool)
deriving DecidableEq, Repr

/-- The attempts of `allocateOrReuseMemberID`. -/
def maxRetries : ℕ := 5

/-- What an attempt makes of the file that it reads. -/
inductive ReadResult
  | fails
  | reuses (memberID : ℕ)
  /-- It is about to write the file with the new id. -/
  | allocates (newID : ℕ) (put : ConditionalPut Members)
deriving DecidableEq

/-- An attempt up to its write. An error, also for a file that is not there, ends the call. -/
def readAttempt (file : Option Members) (nodeID : NodeID) (ok : Bool) : ReadResult :=
  match if ok then file else none with
  | none => .fails
  | some mf =>
    match findMemberID mf nodeID with
    | some id => .reuses id
    | none => .allocates (allocateMemberID mf) ⟨some mf, allocate mf nodeID⟩

/-- How the write of an attempt ends. -/
inductive WriteResult
  | returns
  | retries (attempts : ℕ)
  | fails
deriving DecidableEq, Repr

/-- After a failed precondition the call tries again or gives up. -/
def retry (attempts : ℕ) : WriteResult :=
  if attempts + 1 < maxRetries then .retries (attempts + 1) else .fails

def writeAttempt (file : Option Members) (put : ConditionalPut Members) (attempts : ℕ) :
    Outcome → WriteResult
  | .answered => if file = put.expected then .returns else retry attempts
  | .failed true => retry attempts
  | .failed false => .fails

/-! ### The Electors -/

/-- A call that is under way on some Elector. -/
inductive Call
  /-- `allocateOrReuseMemberID` is about to read, after so many attempts. -/
  | registering (nodeID : NodeID) (attempts : ℕ)
  /-- It is about to write the file with the new id. -/
  | allocating (nodeID : NodeID) (attempts : ℕ) (newID : ℕ) (put : ConditionalPut Members)
  /-- `Bootstrap` is about to read the file. -/
  | bootstrapping
  /-- It has read the file, if there is one, and is about to list the registrations. -/
  | listing (file : Option Members)
  /-- It is about to write. -/
  | reconciling (put : ConditionalPut Members)
deriving DecidableEq

structure Cluster where
  /-- `members.json`. -/
  file : Option Members := none
  calls : List Call := []
  /-- The writes whose error was reported and that may still take effect. -/
  inflight : List (ConditionalPut Members) := []
  /-- The calls of `AllocateMemberID` so far. -/
  allocations : ℕ := 0
  /-- What the successful calls of `RegisterNode` returned. -/
  returned : List (NodeID × ℕ) := []
deriving DecidableEq

inductive Action
  | registerNode (nodeID : NodeID)
  | bootstrap
  /-- The `i`-th call reads the file, or the read fails. -/
  | read (i : ℕ) (ok : Bool)
  /-- The `i`-th call lists the registrations, or fails there. -/
  | list (i : ℕ) (ok : Bool) (regs : List Registration)
  | write (i : ℕ) (outcome : Outcome)
  /-- A write whose error was reported takes effect, if the file is still the expected one. -/
  | land (i : ℕ)
  /-- The process of the `i`-th call stops. -/
  | stop (i : ℕ)
deriving DecidableEq, Repr

namespace Cluster

def finish (s : Cluster) (i : ℕ) : Cluster := { s with calls := s.calls.eraseIdx i }

def goOn (s : Cluster) (i : ℕ) (c : Call) : Cluster := { s with calls := s.calls.set i c }

def read (s : Cluster) (i : ℕ) (ok : Bool) : Option Cluster :=
  match s.calls[i]? with
  | some (.registering nodeID attempts) =>
    match readAttempt s.file nodeID ok with
    | .fails => some (s.finish i)
    | .reuses id => some { s.finish i with returned := (nodeID, id) :: s.returned }
    | .allocates newID put =>
      some { s.goOn i (.allocating nodeID attempts newID put) with
        allocations := s.allocations + 1 }
  | some .bootstrapping => some (if ok then s.goOn i (.listing s.file) else s.finish i)
  | _ => none

def list (s : Cluster) (i : ℕ) (ok : Bool) (regs : List Registration) : Option Cluster :=
  match s.calls[i]? with
  | some (.listing file) =>
    if !ok then some (s.finish i)
    else
      match file with
      | none =>
        let (mf, n) := firstMembers KeyedMap.empty regs
        some { s.goOn i (.reconciling ⟨none, mf⟩) with allocations := s.allocations + n }
      | some mf =>
        let (mf', n) := reconcile mf regs
        -- without a new id there is nothing to write
        if n = 0 then some (s.finish i)
        else some { s.goOn i (.reconciling ⟨some mf, mf'⟩) with allocations := s.allocations + n }
  | _ => none

/-- A write whose error is reported may still take effect. -/
def sent (s : Cluster) (put : ConditionalPut Members) : Outcome → Cluster
  | .answered => s
  | .failed _ => { s with inflight := put :: s.inflight }

def write (s : Cluster) (i : ℕ) (outcome : Outcome) : Option Cluster :=
  match s.calls[i]? with
  | some (.allocating nodeID attempts newID put) =>
    let s := s.sent put outcome
    match writeAttempt s.file put attempts outcome with
    | .returns =>
      some { s.finish i with file := put.apply s.file, returned := (nodeID, newID) :: s.returned }
    | .retries attempts => some (s.goOn i (.registering nodeID attempts))
    | .fails => some (s.finish i)
  | some (.reconciling put) =>
    match outcome with
    | .answered => some { s.finish i with file := put.apply s.file }
    | .failed _ => some ((s.sent put outcome).finish i)
  | _ => none

end Cluster

def step (s : Cluster) : Action → Option Cluster
  | .registerNode nodeID =>
    if nodeID = "" then none else some { s with calls := s.calls ++ [.registering nodeID 0] }
  | .bootstrap => some { s with calls := s.calls ++ [.bootstrapping] }
  | .read i ok => s.read i ok
  | .list i ok regs => s.list i ok regs
  | .write i outcome => s.write i outcome
  | .land i =>
    s.inflight[i]?.map fun put =>
      { s with file := put.apply s.file, inflight := s.inflight.eraseIdx i }
  | .stop i => some (s.finish i)

/-! ### Files -/

/-- The ids are at most `k`, and no two nodes share one. -/
structure Sound (k : ℕ) (mf : Members) : Prop where
  le : ∀ e ∈ mf.entries, e.2 ≤ k
  inj : ∀ e ∈ mf.entries, ∀ e' ∈ mf.entries, e.2 = e'.2 → e = e'

/-- Every entry is still there. -/
def Extends (mf mf' : Members) : Prop := ∀ e ∈ mf.entries, e ∈ mf'.entries

variable {mf mf' : Members} {nodeID : NodeID} {k k' id i : ℕ} {regs : List Registration}
  {s s' : Cluster} {a : Action} {as bs : List Action} {c : Call} {put : ConditionalPut Members}

theorem findMemberID_eq_some : findMemberID mf nodeID = some id ↔ (nodeID, id) ∈ mf.entries := by
  unfold findMemberID
  rw [Option.map_eq_some_iff]
  constructor
  · rintro ⟨e, he, rfl⟩
    obtain ⟨hmem, rfl⟩ := KeyedMap.get_eq_some.mp he
    exact hmem
  · intro h
    exact ⟨(nodeID, id), KeyedMap.get_eq_some.mpr ⟨h, rfl⟩, rfl⟩

theorem Sound.mono (h : Sound k mf) (hle : k ≤ k') : Sound k' mf :=
  ⟨fun e he => (h.le e he).trans hle, h.inj⟩

theorem sound_empty : Sound k KeyedMap.empty :=
  ⟨fun _ he => absurd he List.not_mem_nil, fun _ he => absurd he List.not_mem_nil⟩

theorem foldl_max_spec (l : List (NodeID × ℕ)) (highest : ℕ) :
    (∀ e ∈ l, e.2 ≤ l.foldl (fun highest e => if highest < e.2 then e.2 else highest) highest) ∧
      highest ≤ l.foldl (fun highest e => if highest < e.2 then e.2 else highest) highest ∧
      ∀ k, highest ≤ k → (∀ e ∈ l, e.2 ≤ k) →
        l.foldl (fun highest e => if highest < e.2 then e.2 else highest) highest ≤ k := by
  induction l generalizing highest with
  | nil => exact ⟨fun e he => absurd he List.not_mem_nil, le_rfl, fun k hk _ => hk⟩
  | cons e l ih =>
    obtain ⟨h1, h2, h3⟩ := ih (if highest < e.2 then e.2 else highest)
    have hstep : highest ≤ (if highest < e.2 then e.2 else highest) ∧
        e.2 ≤ (if highest < e.2 then e.2 else highest) := by
      split_ifs <;> omega
    refine ⟨List.forall_mem_cons.mpr ⟨hstep.2.trans h2, h1⟩, hstep.1.trans h2, fun k hk hl => ?_⟩
    obtain ⟨he, hrest⟩ := List.forall_mem_cons.mp hl
    refine h3 k ?_ hrest
    split_ifs <;> omega

theorem le_maxID {e : NodeID × ℕ} (h : e ∈ mf.entries) : e.2 ≤ maxID mf :=
  (foldl_max_spec mf.entries 0).1 e h

theorem Sound.maxID_le (h : Sound k mf) : maxID mf ≤ k :=
  (foldl_max_spec mf.entries 0).2.2 k (Nat.zero_le k) h.le

theorem mem_allocate {e : NodeID × ℕ} : e ∈ (allocate mf nodeID).entries ↔
    e = (nodeID, allocateMemberID mf) ∨ (e ∈ mf.entries ∧ e.1 ≠ nodeID) := by
  simp [allocate, KeyedMap.add, KeyedMap.remove, KeyedMap.filter]

theorem Sound.allocate (h : Sound k mf) (nodeID : NodeID) (hk : k + 1 < 2 ^ 64) :
    Sound (k + 1) (allocate mf nodeID) := by
  have hmax := h.maxID_le
  have hnew : allocateMemberID mf = maxID mf + 1 := Nat.mod_eq_of_lt (by omega)
  constructor
  · intro e he
    rcases mem_allocate.mp he with rfl | ⟨he, -⟩
    · dsimp only
      omega
    · have := h.le e he
      omega
  · intro e he e' he' heq
    rcases mem_allocate.mp he with rfl | ⟨he, -⟩ <;>
      rcases mem_allocate.mp he' with rfl | ⟨he', -⟩
    · rfl
    · have := le_maxID he'
      dsimp only at heq
      omega
    · have := le_maxID he
      dsimp only at heq
      omega
    · exact h.inj e he e' he' heq

theorem extends_allocate (h : findMemberID mf nodeID = none) :
    Extends mf (allocate mf nodeID) := by
  intro e he
  refine mem_allocate.mpr (Or.inr ⟨he, fun hn => ?_⟩)
  have hfind : findMemberID mf nodeID = some e.2 := findMemberID_eq_some.mpr (hn ▸ he)
  rw [h] at hfind
  cases hfind

theorem Extends.trans {mf'' : Members} (h : Extends mf mf') (h' : Extends mf' mf'') :
    Extends mf mf'' := fun e he => h' e (h e he)

theorem sound_firstMembers (h : Sound k mf) (hk : k + (firstMembers mf regs).2 < 2 ^ 64) :
    Sound (k + (firstMembers mf regs).2) (firstMembers mf regs).1 := by
  induction regs generalizing mf k with
  | nil => exact h
  | cons reg regs ih =>
    unfold firstMembers at hk ⊢
    split_ifs at hk ⊢
    · exact ih h hk
    · dsimp only at hk ⊢
      have hnext := ih (h.allocate reg.nodeID (by omega)) (by omega)
      exact hnext.mono (by omega)

theorem sound_reconcile (h : Sound k mf) (hk : k + (reconcile mf regs).2 < 2 ^ 64) :
    Sound (k + (reconcile mf regs).2) (reconcile mf regs).1 ∧
      Extends mf (reconcile mf regs).1 := by
  induction regs generalizing mf k with
  | nil => exact ⟨h, fun e he => he⟩
  | cons reg regs ih =>
    unfold reconcile at hk ⊢
    split_ifs at hk ⊢ with hskip
    · exact ih h hk
    · dsimp only at hk ⊢
      have hnone : findMemberID mf reg.nodeID = none := by
        simp only [Bool.or_eq_true, not_or, Bool.not_eq_true] at hskip
        simpa using hskip.2
      obtain ⟨hsound, hext⟩ := ih (h.allocate reg.nodeID (by omega)) (by omega)
      exact ⟨hsound.mono (by omega), (extends_allocate hnone).trans hext⟩

theorem readAttempt_cases (file : Option Members) (nodeID : NodeID) (ok : Bool) :
    readAttempt file nodeID ok = .fails ∨ ∃ mf ∈ file,
      (∃ id, findMemberID mf nodeID = some id ∧ readAttempt file nodeID ok = .reuses id) ∨
      (findMemberID mf nodeID = none ∧ readAttempt file nodeID ok =
        .allocates (allocateMemberID mf) ⟨some mf, allocate mf nodeID⟩) := by
  unfold readAttempt
  cases ok with
  | false => exact Or.inl rfl
  | true =>
    cases file with
    | none => exact Or.inl rfl
    | some mf =>
      refine Or.inr ⟨mf, rfl, ?_⟩
      cases hfind : findMemberID mf nodeID with
      | some id => exact Or.inl ⟨id, rfl, by simp [hfind]⟩
      | none => exact Or.inr ⟨rfl, by simp [hfind]⟩

theorem retry_ne_returns {attempts : ℕ} : retry attempts ≠ .returns := by
  unfold retry
  split_ifs <;> exact nofun

theorem writeAttempt_eq_returns {file : Option Members} {attempts : ℕ} {outcome : Outcome}
    (h : writeAttempt file put attempts outcome = .returns) :
    outcome = .answered ∧ file = put.expected := by
  unfold writeAttempt at h
  split at h
  · split_ifs at h with hmatch
    · exact ⟨rfl, hmatch⟩
    · exact absurd h retry_ne_returns
  · exact absurd h retry_ne_returns
  · cases h

/-! ### The invariant -/

/-- The write adds to what it expects. -/
structure PutOk (k : ℕ) (put : ConditionalPut Members) : Prop where
  sound : Sound k put.data
  adds : ∀ mf ∈ put.expected, Extends mf put.data

/-- What a call has in hand. -/
def CallOk (k : ℕ) : Call → Prop
  | .registering _ _ | .bootstrapping => True
  | .allocating nodeID _ newID put => PutOk k put ∧ (nodeID, newID) ∈ put.data.entries
  | .listing file => ∀ mf ∈ file, Sound k mf
  | .reconciling put => PutOk k put

structure Inv (s : Cluster) : Prop where
  file : ∀ mf ∈ s.file, Sound s.allocations mf
  calls : ∀ c ∈ s.calls, CallOk s.allocations c
  inflight : ∀ put ∈ s.inflight, PutOk s.allocations put
  returned : ∀ e ∈ s.returned, ∃ mf ∈ s.file, e ∈ mf.entries

/-- Every entry of the first file is in the second. -/
def Grows (file file' : Option Members) : Prop := ∀ mf ∈ file, ∃ mf' ∈ file', Extends mf mf'

theorem Grows.refl (file : Option Members) : Grows file file := fun mf h => ⟨mf, h, fun _ he => he⟩

theorem Grows.trans {f f' f'' : Option Members} (h : Grows f f') (h' : Grows f' f'') :
    Grows f f'' := by
  intro mf hmf
  obtain ⟨mf', hmf', hext⟩ := h mf hmf
  obtain ⟨mf'', hmf'', hext'⟩ := h' mf' hmf'
  exact ⟨mf'', hmf'', hext.trans hext'⟩

theorem PutOk.mono (h : PutOk k put) (hle : k ≤ k') : PutOk k' put := ⟨h.sound.mono hle, h.adds⟩

theorem CallOk.mono (h : CallOk k c) (hle : k ≤ k') : CallOk k' c := by
  cases c with
  | registering => trivial
  | allocating => exact ⟨h.1.mono hle, h.2⟩
  | bootstrapping => trivial
  | listing => exact fun mf hmf => (h mf hmf).mono hle
  | reconciling => exact PutOk.mono h hle

theorem PutOk.apply (h : PutOk k put) {file : Option Members} (hfile : ∀ mf ∈ file, Sound k mf) :
    Grows file (put.apply file) ∧ ∀ mf ∈ put.apply file, Sound k mf := by
  refine ⟨ConditionalPut.apply_rel (Grows.refl file) fun mf hmf => ?_, ?_⟩
  · exact ⟨put.data, rfl, h.adds mf hmf⟩
  · unfold ConditionalPut.apply
    split_ifs
    · rintro _ ⟨⟩
      exact h.sound
    · exact hfile

theorem Inv.finish (hi : Inv s) (i : ℕ) : Inv (s.finish i) :=
  ⟨hi.file, fun c hc => hi.calls c (List.mem_of_mem_eraseIdx hc), hi.inflight, hi.returned⟩

theorem Inv.count (hi : Inv s) (n : ℕ) : Inv { s with allocations := s.allocations + n } where
  file mf hmf := (hi.file mf hmf).mono (Nat.le_add_right _ n)
  calls c hc := (hi.calls c hc).mono (Nat.le_add_right _ n)
  inflight put hput := (hi.inflight put hput).mono (Nat.le_add_right _ n)
  returned := hi.returned

theorem Inv.goOn (hi : Inv s) (i : ℕ) (hc : CallOk s.allocations c) : Inv (s.goOn i c) :=
  ⟨hi.file, fun c' hc' => (List.mem_or_eq_of_mem_set hc').elim (hi.calls c') fun he => he ▸ hc,
    hi.inflight, hi.returned⟩

theorem Inv.sent (hi : Inv s) (hput : PutOk s.allocations put) (outcome : Outcome) :
    Inv (s.sent put outcome) := by
  cases outcome with
  | answered => exact hi
  | failed precondition =>
    exact ⟨hi.file, hi.calls, List.forall_mem_cons.mpr ⟨hput, hi.inflight⟩, hi.returned⟩

theorem Inv.apply (hi : Inv s) (hput : PutOk s.allocations put) :
    Inv { s with file := put.apply s.file } := by
  obtain ⟨hgrows, hsound⟩ := hput.apply hi.file
  refine ⟨hsound, hi.calls, hi.inflight, fun e he => ?_⟩
  obtain ⟨mf, hmf, hmem⟩ := hi.returned e he
  obtain ⟨mf', hmf', hext⟩ := hgrows mf hmf
  exact ⟨mf', hmf', hext e hmem⟩

theorem Inv.answer (hi : Inv s) {e : NodeID × ℕ} (h : ∃ mf ∈ s.file, e ∈ mf.entries) :
    Inv { s with returned := e :: s.returned } :=
  ⟨hi.file, hi.calls, hi.inflight, List.forall_mem_cons.mpr ⟨h, hi.returned⟩⟩

/-- **What every step does**: the counter does not fall, and while it stays below the limit the
invariant is kept and so is every entry of the file. -/
structure Safe (s s' : Cluster) : Prop where
  count : s.allocations ≤ s'.allocations
  keeps : Inv s → s'.allocations < 2 ^ 64 - 1 → Inv s' ∧ Grows s.file s'.file

theorem Safe.refl (s : Cluster) : Safe s s := ⟨le_rfl, fun hi _ => ⟨hi, Grows.refl s.file⟩⟩

theorem Safe.trans {s'' : Cluster} (h : Safe s s') (h' : Safe s' s'') : Safe s s'' := by
  refine ⟨h.count.trans h'.count, fun hi hlimit => ?_⟩
  have hle := h'.count
  obtain ⟨hi', hgrows⟩ := h.keeps hi (by omega)
  obtain ⟨hi'', hgrows'⟩ := h'.keeps hi' hlimit
  exact ⟨hi'', hgrows.trans hgrows'⟩

theorem Safe.of_inv (hfile : s'.file = s.file) (hcount : s'.allocations = s.allocations)
    (h : Inv s → Inv s') : Safe s s' :=
  ⟨hcount.ge, fun hi _ => ⟨h hi, hfile ▸ Grows.refl s.file⟩⟩

theorem safe_finish (s : Cluster) (i : ℕ) : Safe s (s.finish i) :=
  .of_inv rfl rfl fun hi => hi.finish i

theorem safe_begin (hc : ∀ k, CallOk k c) : Safe s { s with calls := s.calls ++ [c] } := by
  refine .of_inv rfl rfl fun hi => ⟨hi.file, fun c' hc' => ?_, hi.inflight, hi.returned⟩
  rcases List.mem_append.mp hc' with hc' | hc'
  · exact hi.calls c' hc'
  · rw [List.mem_singleton.mp hc']
    exact hc s.allocations

theorem safe_sent (hput : Inv s → PutOk s.allocations put) (outcome : Outcome) :
    Safe s (s.sent put outcome) := by
  refine .of_inv ?_ ?_ fun hi => hi.sent (hput hi) outcome
  · cases outcome <;> rfl
  · cases outcome <;> rfl

theorem safe_read {ok : Bool} (h : s.read i ok = some s') : Safe s s' := by
  unfold Cluster.read at h
  split at h
  · next nodeID attempts hcall =>
    obtain hread | ⟨mf, hmf, ⟨id, hfind, hread⟩ | ⟨hfind, hread⟩⟩ :=
      readAttempt_cases s.file nodeID ok
    · rw [hread] at h
      obtain rfl := Option.some.inj h
      exact safe_finish s i
    · rw [hread] at h
      obtain rfl := Option.some.inj h
      exact .of_inv rfl rfl fun hi =>
        (hi.finish i).answer ⟨mf, hmf, findMemberID_eq_some.mp hfind⟩
    · rw [hread] at h
      obtain rfl := Option.some.inj h
      refine ⟨Nat.le_add_right _ 1, fun hi hlimit => ⟨?_, Grows.refl s.file⟩⟩
      have hk : s.allocations + 1 < 2 ^ 64 - 1 := hlimit
      refine (hi.count 1).goOn i ⟨⟨(hi.file mf hmf).allocate _ (by omega), ?_⟩,
        mem_allocate.mpr (Or.inl rfl)⟩
      rintro _ ⟨⟩
      exact extends_allocate hfind
  · obtain rfl := Option.some.inj h
    split_ifs
    · exact .of_inv rfl rfl fun hi => hi.goOn i hi.file
    · exact safe_finish s i
  · cases h

theorem safe_list {ok : Bool} (h : s.list i ok regs = some s') : Safe s s' := by
  unfold Cluster.list at h
  split at h
  · rename_i file hcall
    split_ifs at h
    · obtain rfl := Option.some.inj h
      exact safe_finish s i
    · split at h
      · obtain rfl := Option.some.inj h
        refine ⟨Nat.le_add_right _ _, fun hi hlimit => ⟨?_, Grows.refl s.file⟩⟩
        have hk : s.allocations + (firstMembers KeyedMap.empty regs).2 < 2 ^ 64 - 1 := hlimit
        refine (hi.count _).goOn i ⟨sound_firstMembers sound_empty (by omega), fun mf hmf => ?_⟩
        cases hmf
      · rename_i mf
        simp only at h
        split_ifs at h
        · obtain rfl := Option.some.inj h
          exact safe_finish s i
        · obtain rfl := Option.some.inj h
          refine ⟨Nat.le_add_right _ _, fun hi hlimit => ⟨?_, Grows.refl s.file⟩⟩
          have hk : s.allocations + (reconcile mf regs).2 < 2 ^ 64 - 1 := hlimit
          have hread : CallOk s.allocations (.listing (some mf)) :=
            hi.calls _ (List.mem_of_getElem? hcall)
          have hk' : s.allocations + (reconcile mf regs).2 < 2 ^ 64 := by omega
          obtain ⟨hsound, hext⟩ := sound_reconcile (hread mf rfl) hk'
          refine (hi.count _).goOn i ⟨hsound, ?_⟩
          rintro _ ⟨⟩
          exact hext
  · cases h

theorem safe_write {outcome : Outcome} (h : s.write i outcome = some s') : Safe s s' := by
  unfold Cluster.write at h
  split at h
  · next nodeID attempts newID put hcall =>
    have hok : Inv s → PutOk s.allocations put ∧ (nodeID, newID) ∈ put.data.entries :=
      fun hi => hi.calls _ (List.mem_of_getElem? hcall)
    have hsent : Safe s (s.sent put outcome) := safe_sent (fun hi => (hok hi).1) outcome
    dsimp only at h
    split at h
    · next hreturns =>
      obtain ⟨rfl, hmatch⟩ := writeAttempt_eq_returns hreturns
      obtain rfl := Option.some.inj h
      refine ⟨le_rfl, fun hi _ => ?_⟩
      obtain ⟨hput, hnew⟩ := hok hi
      have hfile : put.data ∈ put.apply s.file := ConditionalPut.apply_of_eq hmatch
      exact ⟨((hi.finish i).apply hput).answer ⟨put.data, hfile, hnew⟩, (hput.apply hi.file).1⟩
    · obtain rfl := Option.some.inj h
      exact hsent.trans (.of_inv rfl rfl fun hi => hi.goOn i trivial)
    · obtain rfl := Option.some.inj h
      exact hsent.trans (safe_finish _ i)
  · next put hcall =>
    have hok : Inv s → PutOk s.allocations put := fun hi => hi.calls _ (List.mem_of_getElem? hcall)
    split at h
    · obtain rfl := Option.some.inj h
      exact ⟨le_rfl, fun hi _ => ⟨(hi.finish i).apply (hok hi), ((hok hi).apply hi.file).1⟩⟩
    · obtain rfl := Option.some.inj h
      exact (safe_sent hok _).trans (safe_finish _ i)
  · cases h

theorem safe_step (h : step s a = some s') : Safe s s' := by
  cases a with
  | registerNode nodeID =>
    simp only [step] at h
    split_ifs at h
    obtain rfl := Option.some.inj h
    exact safe_begin fun _ => trivial
  | bootstrap =>
    obtain rfl := Option.some.inj h
    exact safe_begin fun _ => trivial
  | read i ok => exact safe_read h
  | list i ok regs => exact safe_list h
  | write i outcome => exact safe_write h
  | land i =>
    obtain ⟨put, hget, rfl⟩ := Option.map_eq_some_iff.mp h
    refine ⟨le_rfl, fun hi _ => ?_⟩
    have hput : PutOk s.allocations put := hi.inflight put (List.mem_of_getElem? hget)
    obtain ⟨hfile, hcalls, hinflight, hreturned⟩ := hi.apply hput
    exact ⟨⟨hfile, hcalls, fun p hp => hinflight p (List.mem_of_mem_eraseIdx hp), hreturned⟩,
      (hput.apply hi.file).1⟩
  | stop i =>
    obtain rfl := Option.some.inj h
    exact safe_finish s i

theorem safe_exec (h : exec step s as = some s') : Safe s s' := by
  induction as generalizing s with
  | nil => exact Option.some.inj h ▸ Safe.refl s
  | cons a as ih =>
    obtain ⟨s1, h1, h2⟩ := exec_cons_eq_some.mp h
    exact (safe_step h1).trans (ih h2)

theorem inv_start : Inv {} :=
  ⟨nofun, fun _ h => absurd h List.not_mem_nil, fun _ h => absurd h List.not_mem_nil,
    fun _ h => absurd h List.not_mem_nil⟩

/-- **Member ids are unique and permanent.** With any calls of `RegisterNode` and `Bootstrap` on any
Electors, in any interleaving and with any failures, and fewer than `2 ^ 64 - 1` allocations: no two
nodes share an id in `members.json`, an entry that was there is there for ever, and what
`RegisterNode` returned is the id of the node in the file. -/
theorem memberIDs_unique_permanent (as bs : List Action) (s s' : Cluster)
    (hs : exec step {} as = some s) (hs' : exec step s bs = some s')
    (hlimit : s'.allocations < 2 ^ 64 - 1) :
    (∀ mf ∈ s'.file, ∀ n n' id, findMemberID mf n = some id → findMemberID mf n' = some id →
      n = n') ∧
    (∀ mf ∈ s.file, ∀ n id, findMemberID mf n = some id →
      ∃ mf' ∈ s'.file, findMemberID mf' n = some id) ∧
    ∀ n id, (n, id) ∈ s'.returned → ∃ mf ∈ s'.file, findMemberID mf n = some id := by
  have hle := (safe_exec hs').count
  obtain ⟨hi, -⟩ := (safe_exec hs).keeps inv_start (by omega)
  obtain ⟨hi', hgrows⟩ := (safe_exec hs').keeps hi hlimit
  simp only [findMemberID_eq_some]
  refine ⟨fun mf hmf n n' id hn hn' => ?_, fun mf hmf n id hn => ?_, fun n id h => ?_⟩
  · exact congrArg Prod.fst ((hi'.file mf hmf).inj _ hn _ hn' rfl)
  · obtain ⟨mf', hmf', hext⟩ := hgrows mf hmf
    exact ⟨mf', hmf', hext _ hn⟩
  · exact hi'.returned _ h

/-- Two Electors bootstrap on an empty store at once. -/
def twoBootstraps : List Action :=
  [.bootstrap, .bootstrap, .read 0 true, .read 1 true,
    .list 0 true [{ nodeID := "a" }, { nodeID := "b" }], .list 1 true [{ nodeID := "a" }],
    .write 0 .answered, .write 0 .answered]

/-- Two nodes register at once. The write for `c` takes effect although a failed precondition is
reported, so that both calls read again. -/
def twoRegistrations : List Action :=
  [.registerNode "c", .registerNode "d", .read 0 true, .read 1 true, .write 0 (.failed true),
    .land 0, .write 1 .answered, .read 0 true, .read 0 true, .write 0 .answered]

theorem memberIDs_unique_permanent_four : ∃ s s' : Cluster,
    exec step {} twoBootstraps = some s ∧ exec step s twoRegistrations = some s' ∧
    s'.returned = [("d", 4), ("c", 3)] ∧
    (∀ mf ∈ s'.file, ∀ n n' id, findMemberID mf n = some id → findMemberID mf n' = some id →
      n = n') ∧
    (∀ mf ∈ s.file, ∀ n id, findMemberID mf n = some id →
      ∃ mf' ∈ s'.file, findMemberID mf' n = some id) ∧
    ∀ n id, (n, id) ∈ s'.returned → ∃ mf ∈ s'.file, findMemberID mf n = some id := by
  obtain ⟨s, hs, hp⟩ := exists_exec_of_any step {} twoBootstraps
    (fun s => (exec step s twoRegistrations).any fun s' =>
      s'.returned = [("d", 4), ("c", 3)] ∧ s'.allocations < 2 ^ 64 - 1) (by decide +kernel)
  obtain ⟨s', hs', hreturned, hlimit⟩ := exists_exec_of_any step s _ _ hp
  exact ⟨s, s', hs, hs', hreturned,
    memberIDs_unique_permanent twoBootstraps twoRegistrations s s' hs hs' hlimit⟩

end Netsy.Elector.MemberIDs
