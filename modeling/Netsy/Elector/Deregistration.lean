import Netsy.Elector.Reigns

/-! # A node that was deregistered stays out

`DeregisterNode` marks the node and then removes it; the bootstrap skips the nodes that are marked.
The check of the marks and the addition are two critical sections of the bootstrap, so a node that
is removed between them comes back. -/

namespace Netsy.Elector.Deregistration

open Proto Lib.Keyed Lib.ObjectStore Lib.Run Elector.NodeMap Elector.Reigns
open Elector.MemberIDs (Members Outcome)

/-- The bootstrap of the reign, unless its context is done. -/
def live (s : Runner) : Option Phase := s.leaderCancel.bind fun k => s.bootstraps[k]?

/-- The node that the bootstrap has found unmarked and has not added yet. -/
def window : Phase → Option NodeID
  | .looking reg _ | .adding reg _ _ => some reg.nodeID
  | _ => none

/-- The loop is over. -/
def past : Phase → Bool
  | .writing _ | .clearing | .settingReady | .returned _ => true
  | _ => false

/-- The nodes whose deregistration has returned are not in the map. -/
def StaysOut (s : Runner) : Prop := ∀ n ∈ s.out, n ∉ s.nodes.keys

/-- A node is not removed between its check and its addition. A bootstrap whose context is done adds
no node and clears no marks, and the map is not reset between the mark of a call and its return.
The calls for one node do not overlap. -/
def Undisturbed (s : Runner) : Action → Prop
  | .add i _ | .clearDeregistered i => s.leaderCancel = some i
  | .remove i => ∀ c ∈ s.deregistrations[i]?, ∀ ph ∈ live s, window ph ≠ some c.nodeID
  | .reset => ∀ c ∈ s.deregistrations, c.stage = .marking
  | .registerNode reg => ∀ c ∈ s.deregistrations, c.nodeID ≠ reg.nodeID
  | .deregisterNode nodeID => ∀ c ∈ s.registrations, c.nodeID ≠ nodeID
  | _ => True

instance (s : Runner) : ∀ a, Decidable (Undisturbed s a)
  | .add i _ => inferInstanceAs (Decidable (s.leaderCancel = some i))
  | .clearDeregistered i => inferInstanceAs (Decidable (s.leaderCancel = some i))
  | .remove i => inferInstanceAs (Decidable (∀ c ∈ s.deregistrations[i]?, ∀ ph ∈ live s, _))
  | .reset => inferInstanceAs (Decidable (∀ c ∈ s.deregistrations, _))
  | .registerNode reg => inferInstanceAs (Decidable (∀ c ∈ s.deregistrations, _ ≠ reg.nodeID))
  | .deregisterNode nodeID => inferInstanceAs (Decidable (∀ c ∈ s.registrations, _ ≠ nodeID))
  | .onAcquireLeadership | .onLoseLeadership | .setFollower | .read _ _ | .list _ _ _
  | .promote _ _ | .check _ | .look _ | .write _ _ | .setReady _ | .registerReady _
  | .registerRead _ _ | .registerWrite _ _ | .registerAdd _ _ | .markDeregistered _
  | .deregisterReturn _ | .sendHeartbeat .. | .setHealthState .. | .removeDegraded _
  | .otherElector _ | .land _ => .isTrue trivial

variable {s s' : Runner} {a : Action} {as : List Action} {i : ℕ} {n : NodeID}
  {ph ph' x' : Phase} {l l' : Option Phase} {marks : List NodeID} {nodes nodes' : Nodes}
  {reg : NodeRegistration} {ok : Bool}

/-! ### A node that is out -/

/-- The bootstrap of the reign does not come to add the node. -/
def Skipped (l : Option Phase) (marks : List NodeID) (n : NodeID) : Prop :=
  n ∈ marks ∨ ∀ ph, l = some ph → past ph = true

/-- The node is not in the map, and is not about to be added. -/
def Gone (l : Option Phase) (nodes : Nodes) (n : NodeID) : Prop :=
  n ∉ nodes.keys ∧ ∀ ph, l = some ph → window ph ≠ some n

/-- **What a step of the bootstrap does**: a loop that is over stays so, and a node comes into the
window from an open loop only, and only without a mark. -/
structure Advances (marks : List NodeID) (ph ph' : Phase) : Prop where
  ended : past ph = true → past ph' = true
  entered : ∀ n, window ph' = some n → window ph = some n ∨ n ∉ marks ∧ past ph = false

theorem advances_of_past (h : past ph' = true) (hwindow : window ph' = none) :
    Advances marks ph ph' := by
  refine ⟨fun _ => h, fun n hn => ?_⟩
  rw [hwindow] at hn
  cases hn

theorem advances_of_open (h : past ph = false)
    (hwindow : ∀ n, window ph' = some n → window ph = some n ∨ n ∉ marks) :
    Advances marks ph ph' := by
  refine ⟨fun hpast => ?_, fun n hn => (hwindow n hn).imp_right fun hmark => ⟨hmark, h⟩⟩
  rw [h] at hpast
  cases hpast

theorem advances_of_window (h : past ph = false) (hwindow : window ph' = none) :
    Advances marks ph ph' := by
  refine advances_of_open h fun n hn => ?_
  rw [hwindow] at hn
  cases hn

theorem advances_read {file : Option Members} (h : Phase.read file ok ph = some ph') :
    Advances marks ph ph' := by
  cases ph with
  | reading =>
    cases h
    cases ok with
    | false => exact advances_of_past rfl rfl
    | true => exact advances_of_window rfl rfl
  | _ => cases h

theorem advances_list {regs : List NodeRegistration} (h : Phase.list ok regs ph = some ph') :
    Advances marks ph ph' := by
  cases ph with
  | listing base =>
    cases base <;> cases h <;> cases ok
    · exact advances_of_past rfl rfl
    · exact advances_of_window rfl rfl
    · exact advances_of_past rfl rfl
    · exact advances_of_window rfl rfl
  | _ => cases h

theorem advances_promote (h : Phase.promote ok ph = some ph') : Advances marks ph ph' := by
  cases ph with
  | promoting regs =>
    cases h
    cases ok with
    | false => exact advances_of_past rfl rfl
    | true => exact advances_of_window rfl rfl
  | _ => cases h

theorem advances_check (h : Phase.check marks ph = some ph') : Advances marks ph ph' := by
  cases ph with
  | checking l =>
    simp only [Phase.check] at h
    split at h
    · cases h
      split_ifs
      · exact advances_of_past rfl rfl
      · exact advances_of_past rfl rfl
    · split_ifs at h with hmark hbase
      · cases h
        exact advances_of_window rfl rfl
      · cases h
        refine advances_of_open rfl fun n hn => Or.inr ?_
        rwa [← Option.some.inj hn]
      · cases h
        refine advances_of_open rfl fun n hn => Or.inr ?_
        rwa [← Option.some.inj hn]
  | _ => cases h

theorem advances_look (h : Phase.look nodes ph = some ph') : Advances marks ph ph' := by
  cases ph with
  | looking reg l =>
    simp only [Phase.look] at h
    split_ifs at h
    · cases h
      exact advances_of_window rfl rfl
    · split at h
      · cases h
        exact advances_of_open rfl fun n hn => Or.inl hn
      · cases h
        exact advances_of_open rfl fun n hn => Or.inl hn
  | _ => cases h

theorem Skipped.advance (h : Skipped l marks n)
    (hadv : ∀ x', l' = some x' → ∃ x, l = some x ∧ Advances marks x x') :
    Skipped l' marks n := by
  refine h.imp_right fun hpast x' hx' => ?_
  obtain ⟨x, hx, ha⟩ := hadv x' hx'
  exact ha.ended (hpast x hx)

theorem Gone.advance (h : Gone l nodes n) (hskip : Skipped l marks n)
    (hadv : ∀ x', l' = some x' → ∃ x, l = some x ∧ Advances marks x x') : Gone l' nodes n := by
  refine ⟨h.1, fun x' hx' hwindow => ?_⟩
  obtain ⟨x, hx, ha⟩ := hadv x' hx'
  rcases ha.entered n hwindow with hold | ⟨hmark, hopen⟩
  · exact h.2 x hx hold
  · rcases hskip with hmarked | hpast
    · exact hmark hmarked
    · rw [hpast x hx] at hopen
      cases hopen

/-! ### The invariant -/

structure Inv (s : Runner) : Prop where
  control : Control s.leaderCancel s.reign s.leader s.losing
  marked : ∀ c ∈ s.deregistrations, c.stage ≠ .marking →
    Skipped (live s) s.deregistered c.nodeID ∧ (s.reign = none → c.nodeID ∈ s.deregistered)
  gone : ∀ c ∈ s.deregistrations, c.stage = .returning → Gone (live s) s.nodes c.nodeID
  out : ∀ n ∈ s.out, Gone (live s) s.nodes n ∧ Skipped (live s) s.deregistered n
  calls : ∀ r ∈ s.registrations, r.nodeID ∉ s.out ∧ ∀ c ∈ s.deregistrations, c.nodeID ≠ r.nodeID

theorem inv_new : Inv {} where
  control := ⟨nofun, fun h => absurd rfl h⟩
  marked _ hc := absurd hc List.not_mem_nil
  gone _ hc := absurd hc List.not_mem_nil
  out _ hn := absurd hn List.not_mem_nil
  calls _ hr := absurd hr List.not_mem_nil

/-! #### The bootstrap -/

theorem live_setPhase (hi : s.bootstraps[i]? = some ph) (hx : live (s.setPhase i ph') = some x') :
    (s.leaderCancel = some i ∧ live s = some ph ∧ x' = ph') ∨ live s = some x' := by
  obtain ⟨k, hk, hphase⟩ := Option.bind_eq_some_iff.mp hx
  rw [getElem?_setPhase hi] at hphase
  change s.leaderCancel = some k at hk
  unfold live
  rw [hk]
  split_ifs at hphase with hki
  · subst hki
    exact Or.inl ⟨rfl, hi, (Option.some.inj hphase).symm⟩
  · exact Or.inr hphase

theorem advances_refl : Advances marks ph ph := ⟨id, fun _ hn => Or.inl hn⟩

theorem Inv.setPhase (h : Inv s) (hi : s.bootstraps[i]? = some ph)
    (hadv : Advances s.deregistered ph ph') : Inv (s.setPhase i ph') := by
  have hlive : ∀ x', live (s.setPhase i ph') = some x' →
      ∃ x, live s = some x ∧ Advances s.deregistered x x' := by
    intro x' hx'
    rcases live_setPhase hi hx' with ⟨-, hold, rfl⟩ | hsame
    · exact ⟨ph, hold, hadv⟩
    · exact ⟨x', hsame, advances_refl⟩
  refine ⟨h.control, fun c hc hstage => ?_, fun c hc hstage => ?_, fun n hn => ?_, h.calls⟩
  · obtain ⟨hskip, hmark⟩ := h.marked c hc hstage
    exact ⟨hskip.advance hlive, hmark⟩
  · have hskip := (h.marked c hc (by rw [hstage]; nofun)).1
    exact (h.gone c hc hstage).advance hskip hlive
  · obtain ⟨hgone, hskip⟩ := h.out n hn
    exact ⟨hgone.advance hskip hlive, hskip.advance hlive⟩

theorem Inv.advance {f : Phase → Option Phase} (h : Inv s)
    (hf : ∀ ph ph', f ph = some ph' → Advances s.deregistered ph ph')
    (hs : s.advance i f = some s') : Inv s' := by
  obtain ⟨ph, ph', hi, hph', rfl⟩ := advance_eq_some hs
  exact h.setPhase hi (hf ph ph' hph')

/-- `members.json` and the readiness of the map do not matter here. -/
theorem Inv.setStore {ready : Bool} {file : Option Members}
    {inflight : List (ConditionalPut Members)} (h : Inv s) :
    Inv { s with ready := ready, file := file, inflight := inflight } :=
  ⟨h.control, h.marked, h.gone, h.out, h.calls⟩

theorem Inv.write {outcome : Outcome} (h : Inv s) (hs : s.write i outcome = some s') : Inv s' := by
  obtain ⟨l, hi, ⟨-, rfl⟩ | rfl | rfl⟩ := write_eq_some hs
  · exact (h.setPhase hi (advances_of_past rfl rfl)).setStore
  · exact h.setPhase hi (advances_of_past rfl rfl)
  · exact (h.setPhase hi (advances_of_past rfl rfl)).setStore

theorem Inv.setReady (h : Inv s) (hs : s.setReady i = some s') : Inv s' := by
  obtain ⟨hi, rfl⟩ := setReady_eq_some hs
  exact (h.setPhase hi (advances_of_past rfl rfl)).setStore

theorem Inv.clearDeregistered (h : Inv s) (hlive : s.leaderCancel = some i)
    (hs : s.clearDeregistered i = some s') : Inv s' := by
  obtain ⟨hi, rfl⟩ := clearDeregistered_eq_some hs
  have hnext : Inv (s.setPhase i .settingReady) := h.setPhase hi (advances_of_past rfl rfl)
  have hpast : ∀ n, Skipped (live (s.setPhase i .settingReady)) [] n := by
    intro n
    refine Or.inr fun x hx => ?_
    rcases live_setPhase hi hx with ⟨-, -, rfl⟩ | hsame
    · rfl
    · unfold live at hsame
      rw [hlive, Option.bind_some, hi] at hsame
      cases hsame
      rfl
  have hreign := (h.control.cancel i hlive).1
  refine ⟨hnext.control, fun c hc hstage => ⟨hpast _, fun hnone => ?_⟩, hnext.gone,
    fun n hn => ⟨(hnext.out n hn).1, hpast n⟩, hnext.calls⟩
  rw [show s.reign = none from hnone] at hreign
  cases hreign

/-! #### The map -/

theorem Inv.setNodes (h : Inv s) (hkeys : ∀ n ∈ nodes.keys, n ∈ s.nodes.keys) :
    Inv { s with nodes := nodes } := by
  have hgone : ∀ n, Gone (live s) s.nodes n → Gone (live s) nodes n :=
    fun n hn => ⟨fun hmem => hn.1 (hkeys n hmem), hn.2⟩
  exact ⟨h.control, h.marked, fun c hc hstage => hgone _ (h.gone c hc hstage),
    fun n hn => ⟨hgone n (h.out n hn).1, (h.out n hn).2⟩, h.calls⟩

theorem Inv.addEntry {e : NodeEntry} (h : Inv s) (hout : e.nodeID ∉ s.out)
    (hcalls : ∀ c ∈ s.deregistrations, c.stage = .returning → c.nodeID ≠ e.nodeID) :
    Inv { s with nodes := s.nodes.add e } := by
  have hgone : ∀ n, Gone (live s) s.nodes n → n ≠ e.nodeID →
      Gone (live s) (s.nodes.add e) n := by
    rintro n ⟨hkey, hwindow⟩ hne
    refine ⟨fun hmem => ?_, hwindow⟩
    exact (KeyedMap.mem_keys_add.mp hmem).elim hne hkey
  refine ⟨h.control, h.marked, fun c hc hstage => ?_, fun n hn => ⟨?_, (h.out n hn).2⟩, h.calls⟩
  · exact hgone _ (h.gone c hc hstage) (hcalls c hc hstage)
  · refine hgone n (h.out n hn).1 ?_
    rintro rfl
    exact hout hn

theorem Inv.add {now : Time} (h : Inv s) (hlive : s.leaderCancel = some i)
    (hs : s.add i now = some s') : Inv s' := by
  obtain ⟨reg, memberID, l, hi, rfl⟩ := add_eq_some hs
  have hphase : live s = some (.adding reg memberID l) := by
    unfold live
    rw [hlive, Option.bind_some, hi]
  have hadded : Inv { s with nodes := s.nodes.add (reg.entry memberID now) } := by
    refine h.addEntry (fun hmem => ?_) fun c hc hstage heq => ?_
    · exact (h.out _ hmem).1.2 _ hphase rfl
    · exact (h.gone c hc hstage).2 _ hphase (congrArg some heq.symm)
  exact hadded.setPhase hi (advances_of_window rfl rfl)

/-! #### The callbacks of the election -/

theorem Inv.onAcquireLeadership (h : Inv s) (hidle : s.losing = .idle) :
    Inv s.onAcquireLeadership := by
  unfold Runner.onAcquireLeadership
  split_ifs with hleader
  · exact h
  · have hnone := h.control.reign_eq_none hleader
    refine ⟨?_, fun c hc hstage => ⟨Or.inl ((h.marked c hc hstage).2 hnone), nofun⟩,
      fun c hc hstage => ⟨(h.gone c hc hstage).1, fun x hx => ?_⟩,
      fun _ hn => absurd hn List.not_mem_nil, fun r hr => ⟨List.not_mem_nil, (h.calls r hr).2⟩⟩
    · change Control _ _ true s.losing
      rw [hidle]
      exact Control.acquire _
    · obtain rfl : Phase.reading = x := by
        simpa [live] using hx
      nofun

theorem Inv.onLoseLeadership (h : Inv s) :
    Inv { s with leaderCancel := none, losing := .resetting } := by
  have hskip : ∀ marks n, Skipped none marks n := fun _ _ => Or.inr nofun
  refine ⟨h.control.lose, fun c hc hstage => ⟨hskip _ _, (h.marked c hc hstage).2⟩,
    fun c hc hstage => ⟨(h.gone c hc hstage).1, nofun⟩,
    fun n hn => ⟨⟨(h.out n hn).1.1, nofun⟩, hskip _ _⟩, h.calls⟩

theorem Inv.reset (h : Inv s) (hok : Undisturbed s .reset) (hlosing : s.losing = .resetting) :
    Inv s.reset := by
  have hcontrol := h.control
  rw [hlosing] at hcontrol
  have hlive : live s = none := by
    unfold live
    rw [hcontrol.leaderCancel_eq_none nofun]
    rfl
  have hgone : ∀ n, Gone (live s) KeyedMap.empty n := by
    intro n
    rw [hlive]
    exact ⟨by simp [KeyedMap.empty], nofun⟩
  refine ⟨hcontrol.reset, fun c hc hstage => absurd (hok c hc) hstage, fun c hc _ => hgone _,
    fun n _ => ⟨hgone n, Or.inr fun x hx => ?_⟩, h.calls⟩
  rw [show live s = some x from hx] at hlive
  cases hlive

theorem Inv.setFollower (h : Inv s) (hlosing : s.losing = .settingFollower) :
    Inv { s with leader := false, losing := .idle } := by
  have hcontrol := h.control
  rw [hlosing] at hcontrol
  exact ⟨hcontrol.setFollower, h.marked, h.gone, h.out, h.calls⟩

/-! #### `RegisterNode` -/

theorem Inv.setRegistrations {cs : List Registering} (h : Inv s)
    (hcs : ∀ c ∈ cs, ∃ r ∈ s.registrations, r.nodeID = c.nodeID) :
    Inv { s with registrations := cs } := by
  refine ⟨h.control, h.marked, h.gone, h.out, fun c hc => ?_⟩
  obtain ⟨r, hr, heq⟩ := hcs c hc
  rw [← heq]
  exact h.calls r hr

theorem Inv.endRegistration (h : Inv s) : Inv (s.endRegistration i) :=
  h.setRegistrations fun c hc => ⟨c, List.mem_of_mem_eraseIdx hc, rfl⟩

theorem Inv.setRegistration {r c : Registering} (h : Inv s) (hi : s.registrations[i]? = some r)
    (hc : c.nodeID = r.nodeID) : Inv (s.setRegistration i c) := by
  refine h.setRegistrations fun x hx => ?_
  rcases List.mem_or_eq_of_mem_set hx with hx | rfl
  · exact ⟨x, hx, rfl⟩
  · exact ⟨r, List.mem_of_getElem? hi, hc.symm⟩

theorem Inv.registerNode (h : Inv s) (hok : Undisturbed s (.registerNode reg))
    (hs : s.registerNode reg = some s') : Inv s' := by
  obtain rfl := registerNode_eq_some hs
  refine ⟨h.control, h.marked, h.gone, fun n hn => h.out n (List.mem_of_mem_filter hn),
    fun r hr => ?_⟩
  rcases List.mem_append.mp hr with hold | hnew
  · exact ⟨fun hmem => (h.calls r hold).1 (List.mem_of_mem_filter hmem), (h.calls r hold).2⟩
  · rw [List.mem_singleton.mp hnew]
    refine ⟨fun hmem => ?_, hok⟩
    simpa [Registering.nodeID] using (List.mem_filter.mp hmem).2

theorem Inv.registerReady (h : Inv s) (hs : s.registerReady i = some s') : Inv s' := by
  obtain ⟨reg, hi, rfl | rfl⟩ := registerReady_eq_some hs
  · exact h.setRegistration hi rfl
  · exact h.endRegistration

theorem Inv.registerRead (h : Inv s) (hs : s.registerRead i ok = some s') : Inv s' := by
  obtain ⟨reg, attempts, hi, rfl | ⟨mf, -, ⟨memberID, -, rfl⟩ | ⟨-, rfl⟩⟩⟩ :=
    registerRead_eq_some hs
  · exact h.endRegistration
  · exact h.setRegistration hi rfl
  · exact h.setRegistration hi rfl

theorem Inv.registerWrite {outcome : Outcome} (h : Inv s)
    (hs : s.registerWrite i outcome = some s') : Inv s' := by
  obtain ⟨reg, attempts, newID, put, hi, hcases⟩ := registerWrite_eq_some hs
  have hsent : Inv (s.sent put outcome) := by
    cases outcome with
    | answered => exact h
    | failed precondition => exact h.setStore
  have hi' : (s.sent put outcome).registrations[i]? = some (.writing reg attempts newID put) := by
    cases outcome <;> exact hi
  rcases hcases with ⟨-, rfl⟩ | ⟨attempts', rfl⟩ | rfl
  · have hnext : Inv (s.setRegistration i (.adding reg newID)) := h.setRegistration hi rfl
    exact hnext.setStore
  · exact hsent.setRegistration hi' rfl
  · exact hsent.endRegistration

/-- `Add` of `RegisterNode`: no call for its node is under way or has returned since. -/
theorem Inv.registerAdd {now : Time} (h : Inv s) (hs : s.registerAdd i now = some s') :
    Inv s' := by
  obtain ⟨reg, memberID, hi, rfl⟩ := registerAdd_eq_some hs
  obtain ⟨hout, hcalls⟩ := h.calls _ (List.mem_of_getElem? hi)
  have hended : Inv (s.endRegistration i) := h.endRegistration
  exact hended.addEntry hout fun c hc _ => hcalls c hc

/-! #### `DeregisterNode` -/

theorem Inv.deregisterNode (h : Inv s) (hok : Undisturbed s (.deregisterNode n))
    (hs : s.deregisterNode n = some s') : Inv s' := by
  obtain rfl := deregisterNode_eq_some hs
  have hnew : ∀ c ∈ s.deregistrations ++ [⟨n, .marking⟩], c.stage ≠ .marking →
      c ∈ s.deregistrations := by
    intro c hc hstage
    rcases List.mem_append.mp hc with hold | hlast
    · exact hold
    · rw [List.mem_singleton.mp hlast] at hstage
      exact absurd rfl hstage
  refine ⟨h.control, fun c hc hstage => h.marked c (hnew c hc hstage) hstage,
    fun c hc hstage => h.gone c (hnew c hc (by rw [hstage]; nofun)) hstage, h.out,
    fun r hr => ⟨(h.calls r hr).1, fun c hc => ?_⟩⟩
  rcases List.mem_append.mp hc with hold | hlast
  · exact (h.calls r hr).2 c hold
  · rw [List.mem_singleton.mp hlast]
    exact Ne.symm (hok r hr)

theorem Inv.markDeregistered (h : Inv s) (hs : s.markDeregistered i = some s') : Inv s' := by
  obtain ⟨nodeID, hi, rfl⟩ := markDeregistered_eq_some hs
  have hother : ∀ r ∈ s.registrations, nodeID ≠ r.nodeID :=
    fun r hr => (h.calls r hr).2 _ (List.mem_of_getElem? hi)
  refine ⟨h.control, fun c hc hstage => ?_, fun c hc hstage => ?_, fun n hn => ?_,
    fun r hr => ⟨(h.calls r hr).1, fun c hc => ?_⟩⟩
  · rcases List.mem_or_eq_of_mem_set hc with hold | rfl
    · obtain ⟨hskip, hmark⟩ := h.marked c hold hstage
      exact ⟨hskip.imp_left (List.mem_cons_of_mem _), fun hnone =>
        List.mem_cons_of_mem _ (hmark hnone)⟩
    · exact ⟨Or.inl (List.mem_cons_self ..), fun _ => List.mem_cons_self ..⟩
  · rcases List.mem_or_eq_of_mem_set hc with hold | rfl
    · exact h.gone c hold hstage
    · cases hstage
  · exact ⟨(h.out n hn).1, (h.out n hn).2.imp_left (List.mem_cons_of_mem _)⟩
  · rcases List.mem_or_eq_of_mem_set hc with hold | rfl
    · exact (h.calls r hr).2 c hold
    · exact hother r hr

theorem Inv.remove (h : Inv s) (hok : Undisturbed s (.remove i)) (hs : s.remove i = some s') :
    Inv s' := by
  obtain ⟨nodeID, hi, rfl⟩ := remove_eq_some hs
  have hmem := List.mem_of_getElem? hi
  have hmarked := h.marked _ hmem nofun
  have hother : ∀ r ∈ s.registrations, nodeID ≠ r.nodeID := fun r hr => (h.calls r hr).2 _ hmem
  have hwindow : ∀ ph, live s = some ph → window ph ≠ some nodeID := hok _ hi
  have hsmaller : Inv { s with nodes := s.nodes.remove nodeID } :=
    h.setNodes fun n hn => (KeyedMap.mem_keys_remove.mp hn).1
  refine ⟨h.control, fun c hc hstage => ?_, fun c hc hstage => ?_, hsmaller.out,
    fun r hr => ⟨(h.calls r hr).1, fun c hc => ?_⟩⟩
  · rcases List.mem_or_eq_of_mem_set hc with hold | rfl
    · exact h.marked c hold hstage
    · exact hmarked
  · rcases List.mem_or_eq_of_mem_set hc with hold | rfl
    · exact hsmaller.gone c hold hstage
    · exact ⟨fun hkey => (KeyedMap.mem_keys_remove.mp hkey).2 rfl, hwindow⟩
  · rcases List.mem_or_eq_of_mem_set hc with hold | rfl
    · exact (h.calls r hr).2 c hold
    · exact hother r hr

theorem Inv.deregisterReturn (h : Inv s) (hs : s.deregisterReturn i = some s') : Inv s' := by
  obtain ⟨nodeID, hi, rfl⟩ := deregisterReturn_eq_some hs
  have hmem := List.mem_of_getElem? hi
  refine ⟨h.control, fun c hc => h.marked c (List.mem_of_mem_eraseIdx hc),
    fun c hc => h.gone c (List.mem_of_mem_eraseIdx hc), fun n hn => ?_,
    fun r hr => ⟨fun hout => ?_, fun c hc => (h.calls r hr).2 c (List.mem_of_mem_eraseIdx hc)⟩⟩
  · rcases List.mem_cons.mp hn with rfl | hold
    · exact ⟨h.gone _ hmem rfl, (h.marked _ hmem nofun).1⟩
    · exact h.out n hold
  · rcases List.mem_cons.mp hout with heq | hold
    · exact (h.calls r hr).2 _ hmem heq.symm
    · exact (h.calls r hr).1 hold

/-! ### Runs -/

theorem inv_step (h : Inv s) (hok : Undisturbed s a) (hs : step s a = some s') : Inv s' := by
  cases a with
  | onAcquireLeadership =>
    dsimp only [step] at hs
    split_ifs at hs with hidle
    cases hs
    exact h.onAcquireLeadership hidle
  | onLoseLeadership =>
    dsimp only [step] at hs
    split_ifs at hs
    cases hs
    exact h.onLoseLeadership
  | reset =>
    dsimp only [step] at hs
    split_ifs at hs with hlosing
    cases hs
    exact h.reset hok hlosing
  | setFollower =>
    dsimp only [step] at hs
    split_ifs at hs with hlosing
    cases hs
    exact h.setFollower hlosing
  | read i ok => exact h.advance (fun _ _ => advances_read) hs
  | list i ok regs => exact h.advance (fun _ _ => advances_list) hs
  | promote i ok => exact h.advance (fun _ _ => advances_promote) hs
  | check i => exact h.advance (fun _ _ => advances_check) hs
  | look i => exact h.advance (fun _ _ => advances_look) hs
  | add i now => exact h.add hok hs
  | write i outcome => exact h.write hs
  | clearDeregistered i => exact h.clearDeregistered hok hs
  | setReady i => exact h.setReady hs
  | registerNode reg => exact h.registerNode hok hs
  | registerReady i => exact h.registerReady hs
  | registerRead i ok => exact h.registerRead hs
  | registerWrite i outcome => exact h.registerWrite hs
  | registerAdd i now => exact h.registerAdd hs
  | deregisterNode nodeID => exact h.deregisterNode hok hs
  | markDeregistered i => exact h.markDeregistered hs
  | remove i => exact h.remove hok hs
  | deregisterReturn i => exact h.deregisterReturn hs
  | sendHeartbeat nodeID now health primary latestRevision startTime =>
    cases hs
    exact h.setNodes fun n hn => by rwa [keys_updateHeartbeat] at hn
  | setHealthState nodeID health now =>
    cases hs
    exact h.setNodes fun n hn => by rwa [keys_setHealthState] at hn
  | removeDegraded nodeID =>
    cases hs
    exact h.setNodes fun n hn => (KeyedMap.mem_keys_remove.mp hn).1
  | otherElector mf =>
    dsimp only [step] at hs
    split_ifs at hs
    cases hs
    exact h.setStore
  | land i =>
    obtain ⟨put, -, rfl⟩ := Option.map_eq_some_iff.mp hs
    exact h.setStore

/-- **A node that was deregistered stays out** of the map, in every run that does not disturb the
deregistration, until `RegisterNode` is called for it or the reign is over. -/
theorem deregistered_stays_out (as : List Action) (s : Runner)
    (hok : Meets step Undisturbed {} as) (hrun : exec step {} as = some s) : StaysOut s := by
  have hinv : Inv s :=
    exec_invariant (fun _ _ _ h hok hs => inv_step h hok hs) inv_new hok hrun
  exact fun n hn => (hinv.out n hn).1.1

/-- The start of a bootstrap that finds these registrations. -/
def beginning (nodes : List NodeID) : List Action :=
  [.onAcquireLeadership, .read 0 true, .list 0 true (nodes.map registrationOf), .promote 0 true]

/-- The rest of a bootstrap whose loop is over. -/
def ending : List Action := [.check 0, .write 0 .answered, .clearDeregistered 0, .setReady 0]

/-- The node `"b"` is marked before it is checked, and removed while `"a"` is added. -/
def markedBefore : List Action :=
  [.deregisterNode "b", .markDeregistered 0, .check 0, .remove 0, .add 0 1, .deregisterReturn 0,
    .check 0]

theorem deregistered_stays_out_marked :
    ∃ s, exec step {} (beginning ["a", "b"] ++ markedBefore ++ ending) = some s ∧
      s.ready = true ∧ s.out = ["b"] ∧ s.nodes.entries.map NodeEntry.nodeID = ["a"] ∧
      Meets step Undisturbed {} (beginning ["a", "b"] ++ markedBefore ++ ending) ∧
      StaysOut s := by
  have hok : Meets step Undisturbed {} (beginning ["a", "b"] ++ markedBefore ++ ending) := by
    decide +kernel
  obtain ⟨s, hrun, hready, hout, hnodes⟩ := exists_exec_of_any step {}
    (beginning ["a", "b"] ++ markedBefore ++ ending)
    (fun s => s.ready = true ∧ s.out = ["b"] ∧ s.nodes.entries.map NodeEntry.nodeID = ["a"])
    (by decide +kernel)
  exact ⟨s, hrun, hready, hout, hnodes, hok, deregistered_stays_out _ s hok hrun⟩

/-- The whole of `DeregisterNode` runs between the check of its node and the addition. -/
def removedInWindow : List Action :=
  [.check 0, .deregisterNode "b", .markDeregistered 0, .remove 0, .deregisterReturn 0, .add 0 1]

/-- **A node comes back** after its deregistration has returned, and stays in the map that the
bootstrap declares ready; nobody has called `RegisterNode`. -/
theorem deregistered_comes_back :
    ∃ s, exec step {} (beginning ["b"] ++ removedInWindow ++ ending) = some s ∧
      s.ready = true ∧ s.out = ["b"] ∧ s.nodes.entries.map NodeEntry.nodeID = ["b"] ∧
      ¬ StaysOut s := by
  obtain ⟨s, hrun, hready, hout, hnodes⟩ := exists_exec_of_any step {}
    (beginning ["b"] ++ removedInWindow ++ ending)
    (fun s => s.ready = true ∧ s.out = ["b"] ∧ s.nodes.entries.map NodeEntry.nodeID = ["b"])
    (by decide +kernel)
  refine ⟨s, hrun, hready, hout, hnodes, fun h => h "b" (by rw [hout]; decide) ?_⟩
  have hmem : "b" ∈ s.nodes.entries.map NodeEntry.nodeID := by
    rw [hnodes]
    decide
  exact KeyedMap.mem_keys.mpr (List.mem_map.mp hmem)

end Netsy.Elector.Deregistration
