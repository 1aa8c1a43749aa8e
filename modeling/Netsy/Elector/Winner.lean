import Netsy.Elector.PrimaryElection
import Mathlib.Data.List.Pairwise
import Mathlib.Data.Prod.Lex

/-! # The winner of an election

Whatever the order in which the nodes are listed and however ties are sorted, the filters and the
sort come out as one choice: the single Active candidate, or a Healthy one of the highest rank. -/

namespace Netsy.Elector.Winner

open Proto Elector.NodeMap Elector.PrimaryElection

variable {e e' : Server} {polls : List Poll} {reply : NodeID → Option NodeReply} {g g' : Choices}
  {cs cs' : List Candidate} {c w : Candidate} {info : NodeInfo}

/-! ### What the candidates decide -/

/-- The candidate is the only one that reports Active. -/
def SoleActive (cs : List Candidate) (c : Candidate) : Prop :=
  (cs.filter fun c => c.primaryState = .active) = [c]

/-- Some candidate is not Degraded and not a Replica. -/
def Blocked (cs : List Candidate) : Prop :=
  ∃ c ∈ cs, c.healthState ≠ .degraded ∧ c.primaryState ≠ .replica

/-- The latest revision, then the start time. -/
def rank (c : Candidate) : ℤ ×ₗ ℤ := toLex (c.latestRevision, c.startTime)

/-- No two Healthy candidates have the same rank. -/
def NoTie (cs : List Candidate) : Prop := (filterHealthy cs).Pairwise fun a b => rank a ≠ rank b

instance : DecidablePred NoTie := fun cs =>
  inferInstanceAs (Decidable ((filterHealthy cs).Pairwise fun a b => rank a ≠ rank b))

instance : Std.Symm fun a b : Candidate => rank a ≠ rank b := ⟨fun _ _ => Ne.symm⟩

/-- What an election makes of its candidates. -/
structure Decides (cs : List Candidate) (result : Except ElectionError NodeInfo) : Prop where
  active : ∀ c, SoleActive cs c → result = .ok c.info
  fails : (∀ c, ¬ SoleActive cs c) → Blocked cs ∨ (∀ c ∈ cs, c.healthState ≠ .healthy) →
    ∃ err, result = .error err
  best : (∀ c, ¬ SoleActive cs c) → ¬ Blocked cs → (∃ c ∈ cs, c.healthState = .healthy) →
    ∃ w ∈ cs, result = .ok w.info ∧ w.healthState = .healthy ∧
      ∀ c ∈ cs, c.healthState = .healthy → rank c ≤ rank w

/-- Two elections have the same winner, or fail for the same reason. A failure because of a node
that is not a Replica names the first such node. -/
def SameResult : Except ElectionError NodeInfo → Except ElectionError NodeInfo → Prop
  | .ok a, .ok b => a = b
  | .error (.nonReplica _ _), .error (.nonReplica _ _) => True
  | .error a, .error b => a = b
  | _, _ => False

theorem notBehind_iff : NotBehind w c ↔ rank c ≤ rank w := by
  unfold NotBehind rank
  rw [Prod.Lex.toLex_le_toLex, eq_comm]

theorem mem_filterHealthy : c ∈ filterHealthy cs ↔ c ∈ cs ∧ c.healthState = .healthy := by
  simp [filterHealthy]

/-! ### The stages -/

theorem findActivePrimary_of_sole (h : SoleActive cs c) : findActivePrimary cs = some c.info := by
  unfold SoleActive at h
  simp [findActivePrimary, h]

theorem findActivePrimary_eq_none (h : ∀ c, ¬ SoleActive cs c) : findActivePrimary cs = none := by
  unfold findActivePrimary
  split
  · next c hc => exact absurd hc (h c)
  · rfl

theorem checkNonReplicaStates_blocked (h : Blocked cs) :
    ∃ nodeID state, checkNonReplicaStates cs = .error (.nonReplica nodeID state) := by
  unfold checkNonReplicaStates
  cases hfind : cs.find? fun c => c.healthState ≠ .degraded && c.primaryState ≠ .replica with
  | some c => exact ⟨c.info.nodeID, c.primaryState, rfl⟩
  | none =>
    obtain ⟨c, hc, hhealth, hstate⟩ := h
    have hnone := List.find?_eq_none.mp hfind c hc
    simp [hhealth, hstate] at hnone

theorem checkNonReplicaStates_ok (h : ¬ Blocked cs) : checkNonReplicaStates cs = .ok () := by
  unfold checkNonReplicaStates
  cases hfind : cs.find? fun c => c.healthState ≠ .degraded && c.primaryState ≠ .replica with
  | none => rfl
  | some c =>
    have hc := List.find?_some hfind
    simp only [ne_eq, Bool.and_eq_true, decide_eq_true_eq] at hc
    exact absurd ⟨c, List.mem_of_find?_eq_some hfind, hc⟩ h

theorem selectPrimary_of_sole (h : SoleActive cs c) : selectPrimary g.sorted cs = .ok c.info := by
  unfold selectPrimary
  rw [findActivePrimary_of_sole h]
  rfl

theorem selectPrimary_of_blocked (hactive : ∀ c, ¬ SoleActive cs c) (h : Blocked cs) :
    ∃ nodeID state, selectPrimary g.sorted cs = .error (.nonReplica nodeID state) := by
  obtain ⟨nodeID, state, herror⟩ := checkNonReplicaStates_blocked h
  refine ⟨nodeID, state, ?_⟩
  unfold selectPrimary
  rw [findActivePrimary_eq_none hactive, herror]
  rfl

theorem selectPrimary_of_replicas (hactive : ∀ c, ¬ SoleActive cs c) (h : ¬ Blocked cs) :
    selectPrimary g.sorted cs = match (g.sorted (filterHealthy cs)).head? with
      | none => .error .noHealthyCandidates
      | some winner => .ok winner.info := by
  unfold selectPrimary
  rw [findActivePrimary_eq_none hactive, checkNonReplicaStates_ok h]
  cases g.sorted (filterHealthy cs) <;> rfl

/-! ### Whatever the order -/

theorem sorted_eq_nil_iff : g.sorted (filterHealthy cs) = [] ↔
    ∀ c ∈ cs, c.healthState ≠ .healthy := by
  have hnil := (g.perm_sorted (filterHealthy cs)).length_eq
  rw [← List.length_eq_zero_iff, hnil, List.length_eq_zero_iff, List.eq_nil_iff_forall_not_mem]
  simp only [mem_filterHealthy, not_and]

theorem rank_le_of_head (h : (g.sorted (filterHealthy cs)).head? = some w) :
    (w ∈ cs ∧ w.healthState = .healthy) ∧
      ∀ c ∈ cs, c.healthState = .healthy → rank c ≤ rank w := by
  obtain ⟨ws, hws⟩ := List.head?_eq_some_iff.mp h
  have hperm := g.perm_sorted (filterHealthy cs)
  have hpairs := g.pairwise_sorted (filterHealthy cs)
  rw [hws] at hperm hpairs
  refine ⟨mem_filterHealthy.mp (hperm.mem_iff.mp List.mem_cons_self), fun c hc hhealthy => ?_⟩
  have hmem : c ∈ w :: ws := hperm.mem_iff.mpr (mem_filterHealthy.mpr ⟨hc, hhealthy⟩)
  rcases List.mem_cons.mp hmem with rfl | hlater
  · exact le_rfl
  · exact notBehind_iff.mp ((List.pairwise_cons.mp hpairs).1 c hlater)

theorem decides_selectPrimary : Decides cs (selectPrimary g.sorted cs) where
  active := fun _ => selectPrimary_of_sole
  fails := fun hactive h => by
    by_cases hblocked : Blocked cs
    · obtain ⟨nodeID, state, herror⟩ := selectPrimary_of_blocked hactive hblocked
      exact ⟨_, herror⟩
    · refine ⟨.noHealthyCandidates, ?_⟩
      rw [selectPrimary_of_replicas hactive hblocked,
        sorted_eq_nil_iff.mpr (h.resolve_left hblocked)]
      rfl
  best := fun hactive hblocked ⟨c, hc, hhealthy⟩ => by
    rw [selectPrimary_of_replicas hactive hblocked]
    cases hhead : (g.sorted (filterHealthy cs)).head? with
    | none => exact absurd hhealthy (sorted_eq_nil_iff.mp (List.head?_eq_none_iff.mp hhead) c hc)
    | some w =>
      obtain ⟨⟨hw, hwh⟩, hmax⟩ := rank_le_of_head hhead
      exact ⟨w, hw, rfl, hwh, hmax⟩

theorem soleActive_perm (h : cs.Perm cs') : SoleActive cs c ↔ SoleActive cs' c := by
  have hfilter := h.filter fun c => c.primaryState = .active
  unfold SoleActive
  constructor
  · intro hc
    rw [hc] at hfilter
    exact List.perm_singleton.mp hfilter.symm
  · intro hc
    rw [hc] at hfilter
    exact List.perm_singleton.mp hfilter

theorem blocked_perm (h : cs.Perm cs') : Blocked cs ↔ Blocked cs' := by
  unfold Blocked
  simp only [h.mem_iff]

theorem Decides.perm {result : Except ElectionError NodeInfo} (h : cs.Perm cs')
    (hd : Decides cs result) : Decides cs' result where
  active := fun c hc => hd.active c ((soleActive_perm h).mpr hc)
  fails := fun hactive hcs => by
    refine hd.fails (fun c => mt (soleActive_perm h).mp (hactive c)) ?_
    rw [blocked_perm h]
    simpa only [h.mem_iff] using hcs
  best := fun hactive hblocked hhealthy => by
    simp only [← h.mem_iff] at hhealthy ⊢
    exact hd.best (fun c => mt (soleActive_perm h).mp (hactive c)) (mt (blocked_perm h).mp hblocked)
      hhealthy

theorem sorted_eq_of_noTie (hperm : cs.Perm cs') (hties : NoTie cs) :
    g.sorted (filterHealthy cs) = g'.sorted (filterHealthy cs') := by
  have hsame : (filterHealthy cs).Perm (filterHealthy cs') := hperm.filter _
  have hall := ((g.perm_sorted _).trans hsame).trans (g'.perm_sorted _).symm
  refine List.Perm.eq_of_pairwise (fun a b ha hb hab hba => ?_) (g.pairwise_sorted _)
    (g'.pairwise_sorted _) hall
  have hrank : rank a = rank b := le_antisymm (notBehind_iff.mp hba) (notBehind_iff.mp hab)
  have ha' : a ∈ filterHealthy cs := (g.perm_sorted _).mem_iff.mp ha
  have hb' : b ∈ filterHealthy cs := hsame.mem_iff.mpr ((g'.perm_sorted _).mem_iff.mp hb)
  by_contra hne
  exact hties.forall ha' hb' hne hrank

theorem sameResult_of_noTie (hperm : cs.Perm cs') (hties : NoTie cs) :
    SameResult (selectPrimary g.sorted cs) (selectPrimary g'.sorted cs') := by
  by_cases hsole : ∃ c, SoleActive cs c
  · obtain ⟨c, hc⟩ := hsole
    rw [selectPrimary_of_sole hc, selectPrimary_of_sole ((soleActive_perm hperm).mp hc)]
    rfl
  · rw [not_exists] at hsole
    have hsole' : ∀ c, ¬ SoleActive cs' c := fun c => mt (soleActive_perm hperm).mpr (hsole c)
    by_cases hblocked : Blocked cs
    · obtain ⟨nodeID, state, h⟩ := selectPrimary_of_blocked (g := g) hsole hblocked
      obtain ⟨nodeID', state', h'⟩ :=
        selectPrimary_of_blocked (g := g') hsole' ((blocked_perm hperm).mp hblocked)
      rw [h, h']
      trivial
    · rw [selectPrimary_of_replicas hsole hblocked,
        selectPrimary_of_replicas (g := g') hsole' (mt (blocked_perm hperm).mpr hblocked),
        ← sorted_eq_of_noTie hperm hties]
      cases (g.sorted (filterHealthy cs)).head? with
      | none => rfl
      | some w => rfl

/-! ### Who may win -/

/-- The candidate is the only Active one; or there is no such one, none that is not Degraded stands
in the way, and it is a Healthy one of the highest rank. -/
inductive Wins (cs : List Candidate) (w : Candidate) : Prop
  | active (h : SoleActive cs w)
  | best (hactive : ∀ c, ¬ SoleActive cs c) (hblocked : ¬ Blocked cs) (hw : w ∈ cs)
      (hhealthy : w.healthState = .healthy)
      (hmax : ∀ c ∈ cs, c.healthState = .healthy → rank c ≤ rank w)

/-- The order in which the candidate comes first, with a stable sort. -/
def favouring (w : Candidate) : Choices where
  listed := fun cs => if w ∈ cs then w :: cs.erase w else cs
  sorted := List.insertionSort NotBehind
  perm_listed := fun cs => by
    split_ifs with h
    · exact (List.perm_cons_erase h).symm
    · exact List.Perm.refl _
  perm_sorted := stable.perm_sorted
  pairwise_sorted := stable.pairwise_sorted

theorem insertionSort_cons_of_notBehind {cs : List Candidate} (h : ∀ c ∈ cs, NotBehind w c) :
    (w :: cs).insertionSort NotBehind = w :: cs.insertionSort NotBehind := by
  rw [List.insertionSort_cons]
  cases hs : cs.insertionSort NotBehind with
  | nil => rfl
  | cons c rest =>
    have hmem : c ∈ cs := by
      rw [← List.mem_insertionSort NotBehind, hs]
      exact List.mem_cons_self
    exact if_pos (h c hmem)

theorem selectPrimary_favouring (h : Wins cs w) :
    selectPrimary (favouring w).sorted ((favouring w).listed cs) = .ok w.info := by
  have hperm := (favouring w).perm_listed cs
  cases h with
  | active h => exact selectPrimary_of_sole ((soleActive_perm hperm.symm).mp h)
  | best hactive hblocked hw hhealthy hmax =>
    have hlisted : (favouring w).listed cs = w :: cs.erase w := if_pos hw
    have hfirst : filterHealthy (w :: cs.erase w) = w :: filterHealthy (cs.erase w) := by
      simp [filterHealthy, hhealthy]
    have hsorted : (favouring w).sorted (filterHealthy ((favouring w).listed cs)) =
        w :: (filterHealthy (cs.erase w)).insertionSort NotBehind := by
      rw [hlisted, hfirst]
      refine insertionSort_cons_of_notBehind fun c hc => notBehind_iff.mpr ?_
      obtain ⟨hmem, hc⟩ := mem_filterHealthy.mp hc
      exact hmax c (List.mem_of_mem_erase hmem) hc
    rw [selectPrimary_of_replicas (fun c => mt (soleActive_perm hperm).mp (hactive c))
      (mt (blocked_perm hperm).mp hblocked), hsorted]
    rfl

theorem exists_selectPrimary_iff :
    (∃ g : Choices, selectPrimary g.sorted (g.listed cs) = .ok info) ↔
      ∃ w, Wins cs w ∧ w.info = info := by
  constructor
  · rintro ⟨g, h⟩
    have hd : Decides cs (.ok info) := h ▸ decides_selectPrimary.perm (g.perm_listed cs)
    by_cases hsole : ∃ c, SoleActive cs c
    · obtain ⟨c, hc⟩ := hsole
      exact ⟨c, .active hc, (Except.ok.inj (hd.active c hc)).symm⟩
    · rw [not_exists] at hsole
      have hnofail := mt (hd.fails hsole) (by simp)
      obtain ⟨hblocked, hhealthy⟩ := not_or.mp hnofail
      push Not at hhealthy
      obtain ⟨w, hw, hinfo, hwh, hmax⟩ := hd.best hsole hblocked hhealthy
      exact ⟨w, .best hsole hblocked hw hwh hmax, (Except.ok.inj hinfo).symm⟩
  · rintro ⟨w, hw, rfl⟩
    exact ⟨favouring w, selectPrimary_favouring hw⟩

/-! ### A whole round -/

theorem fails_of_actives {result : Except ElectionError NodeInfo} (hd : Decides cs result)
    (hactives : 2 ≤ (cs.filter fun c => c.primaryState = .active).length)
    (h : ∃ c ∈ cs, c.primaryState = .active ∧ c.healthState ≠ .degraded) :
    ∃ err, result = .error err := by
  have hnone : ∀ c, ¬ SoleActive cs c := by
    intro c hc
    rw [SoleActive] at hc
    rw [hc, List.length_singleton] at hactives
    omega
  obtain ⟨c, hc, hactive, hhealth⟩ := h
  exact hd.fails hnone (Or.inl ⟨c, hc, hhealth, by rw [hactive]; decide⟩)

/-- **The winner of an election.** In a round that passed the check of the previous Primary and
contacted the candidates `cs`, whatever the order in which they are listed and however ties are
sorted: the only Active candidate is returned; otherwise the round fails if a candidate that is not
Degraded is not a Replica or if none is Healthy; otherwise a Healthy candidate of the highest rank
is returned. Without ties the order does not matter, and several Active candidates give no winner
unless all of them are Degraded. -/
theorem election_winner (e e' : Server) (polls : List Poll) (reply : NodeID → Option NodeReply)
    (cs : List Candidate) (hprev : checkPreviousPrimary e polls = .ok ())
    (hcs : collectNodeStates e' reply = .ok cs) (g : Choices) :
    Decides cs (electPrimary g e e' polls reply) ∧
      (NoTie cs → ∀ g', SameResult (electPrimary g e e' polls reply)
        (electPrimary g' e e' polls reply)) ∧
      (2 ≤ (cs.filter fun c => c.primaryState = .active).length →
        (∃ c ∈ cs, c.primaryState = .active ∧ c.healthState ≠ .degraded) →
        ∃ err, electPrimary g e e' polls reply = .error err) := by
  have hd : Decides cs (electPrimary g e e' polls reply) := by
    rw [electPrimary_eq hprev hcs]
    exact decides_selectPrimary.perm (g.perm_listed cs)
  refine ⟨hd, fun hties g' => ?_, fails_of_actives hd⟩
  have hperm := (g.perm_listed cs).trans (g'.perm_listed cs).symm
  have hlisted : NoTie (g.listed cs) :=
    hties.perm ((g.perm_listed cs).symm.filter _) fun h => h.symm
  rw [electPrimary_eq hprev hcs, electPrimary_eq hprev hcs]
  exact sameResult_of_noTie hperm hlisted

/-- The nodes `"b"` and `"c"` answer, both Healthy; `"b"` has the higher revision. -/
theorem election_winner_two :
    checkPreviousPrimary (threeNodes .healthy 4) [] = .ok () ∧
      collectNodeStates (threeNodes .healthy 4) (onlyB .healthy 5) =
        .ok (contactedBC (threeNodes .healthy 4) .healthy 5) ∧
      NoTie (contactedBC (threeNodes .healthy 4) .healthy 5) ∧
      ∀ g, SameResult
        (electPrimary g (threeNodes .healthy 4) (threeNodes .healthy 4) [] (onlyB .healthy 5))
        (.ok (infoOf "b")) := by
  have hties : NoTie (contactedBC (threeNodes .healthy 4) .healthy 5) := by decide
  refine ⟨rfl, rfl, hties, fun g => ?_⟩
  exact (election_winner (threeNodes .healthy 4) (threeNodes .healthy 4) [] (onlyB .healthy 5) _ rfl
    rfl g).2.1 hties stable

end Netsy.Elector.Winner
