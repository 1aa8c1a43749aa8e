import Netsy.Node.Roles

/-! # The preflight of a reign

A node may be superseded during its preflight and elected again while the old goroutine still runs.
A pass looks at its context only before a chunk and before a record; after the last of them it sets
the committed revision, the next revision and the state without a look at either. -/

namespace Netsy.Node.Reigns

open Proto NodeState Lib.Run Lib.StateError Primary.Preflight Primary.PreflightStages Node.Roles

/-- The pass has not begun, or it will stop: it is cancelled and looks at its context again. -/
def Stops (p : Preflight) : Prop :=
  match p.place with
  | .pass stage => p.times = [] ∨ (p.cancelled = true ∧ stage.checksAgain = true)
  | .passed => False
  | _ => True

instance (p : Preflight) : Decidable (Stops p) := by
  unfold Stops
  split <;> infer_instance

/-- Whenever the node enters Starting, the passes that are still under way will stop. -/
def Retires (s : State) : Action → Prop
  | .applyNext => ∀ c ∈ s.applying, c.stand.starts = true → s.primary = .replica →
      ∀ p ∈ s.preflights, Stops p
  | _ => True

instance (s : State) : ∀ a, Decidable (Retires s a) := by
  intro a
  unfold Retires
  split <;> infer_instance

/-- The pass is one of the reign that was entered then, or it will stop. -/
def Own (entered : ℕ) (p : Preflight) : Prop :=
  match p.place with
  | .pass stage =>
    (∀ t ∈ p.times, entered < t) ∨ (p.cancelled = true ∧ stage.checksAgain = true)
  | .passed => ∀ t ∈ p.times, entered < t
  | _ => True

structure Inv (s : State) : Prop where
  clock : s.entered < s.clock
  own : ∀ p ∈ s.preflights, Own s.entered p

variable {nodeID : NodeID} {s s' : State} {a : Action} {as : List Action} {data data' : Node}
variable {env : Env} {choice : Bool} {i clock entered : ℕ} {p p' : Preflight} {c : Call}
variable {primary primary' : PrimaryState}

/-! ### One goroutine -/

theorem Stops.own (h : Stops p) : Own entered p := by
  unfold Stops at h
  unfold Own
  split
  · next stage hplace =>
    rw [hplace] at h
    refine h.imp_left fun hnil => ?_
    rw [hnil]
    exact fun t ht => absurd ht List.not_mem_nil
  · next hplace =>
    rw [hplace] at h
    exact h.elim
  · trivial

theorem Own.cancel (h : Own entered p) : Own entered p.cancel := by
  unfold Own at h ⊢
  split
  · next stage hplace =>
    rw [show p.place = .pass stage from hplace] at h
    exact h.imp_right fun hc => ⟨rfl, hc.2⟩
  · next hplace =>
    rw [show p.place = .passed from hplace] at h
    exact h
  · trivial

theorem Own.go (h : Own entered p) (hclock : entered < clock)
    (hgo : p.go nodeID env choice clock primary data = some (p', primary', data')) :
    Own entered p' := by
  have hlater : (∀ t ∈ p.times, entered < t) → ∀ t ∈ p.times ++ [clock], entered < t := by
    intro hall t ht
    rcases List.mem_append.mp ht with ht | ht
    · exact hall t ht
    · exact List.mem_singleton.mp ht ▸ hclock
  unfold Own at h
  unfold Preflight.go at hgo
  split at hgo
  · split_ifs at hgo <;> cases hgo
    · exact Or.inl fun t ht => absurd ht List.not_mem_nil
    · trivial
  · next stage hplace =>
    simp only [hplace] at h
    split at hgo
    · next next data1 hret =>
      cases hgo
      rcases h with hall | ⟨hcancelled, hchecks⟩
      · exact Or.inl (hlater hall)
      · rw [hcancelled] at hret
        obtain ⟨_, hnext, hagain⟩ := checksAgain_of_returns hret hchecks
        cases hnext
        exact Or.inr ⟨hcancelled, hagain⟩
    · next data1 hret =>
      cases hgo
      rcases h with hall | ⟨hcancelled, hchecks⟩
      · exact hlater hall
      · rw [hcancelled] at hret
        obtain ⟨_, hnext, -⟩ := checksAgain_of_returns hret hchecks
        cases hnext
    · cases hgo
      unfold Own
      dsimp only
      split_ifs <;> trivial
  · cases hgo
    trivial
  · split_ifs at hgo <;> cases hgo <;> trivial
  · cases hgo
    trivial
  · cases hgo

/-! ### The node -/

theorem own_of_served {ps ps' : List Preflight} (h : ∀ p ∈ ps, Own entered p)
    (hs : Served ps ps') : ∀ p ∈ ps', Own entered p := by
  intro p hp
  rcases hs p hp with hp | rfl | ⟨q, hq, rfl⟩
  · exact h p hp
  · trivial
  · exact (h q hq).cancel

theorem own_act (h : ∀ p ∈ s.preflights, Own entered p) (hclock : entered < s.clock)
    (hact : act nodeID s a = some s') : ∀ p ∈ s'.preflights, Own entered p := by
  cases effect_of_act hact with
  | keep _ hs => exact own_of_served h hs
  | giveUp _ _ hp => exact hp ▸ h
  | call _ _ hp => exact hp ▸ h
  | next _ hs =>
    subst hs
    exact own_of_served h served_applyNext
  | forget _ hp => exact hp ▸ h
  | go hs =>
    obtain ⟨p, hp, hs⟩ := Option.bind_eq_some_iff.mp hs
    obtain ⟨⟨p', primary, data⟩, hgo, rfl⟩ := Option.map_eq_some_iff.mp hs
    intro q hq
    rcases List.mem_or_eq_of_mem_set hq with hq | rfl
    · exact h q hq
    · exact (h p (List.mem_of_getElem? hp)).go hclock hgo

theorem inv_step (h : Inv s) (hok : Retires s a) (hs : step nodeID s a = some s') : Inv s' := by
  obtain ⟨s1, hact, rfl⟩ := Option.map_eq_some_iff.mp hs
  have hclock := h.clock
  have hlater : s.entered < s.clock + 1 := by omega
  have hkeep : ¬ (s.primary ≠ .starting ∧ s1.primary = .starting) →
      Inv { s1 with
        clock := s.clock + 1
        entered := if s.primary ≠ .starting ∧ s1.primary = .starting then s.clock
          else s.entered } := by
    intro hold
    have hown : ∀ p ∈ s1.preflights, Own s.entered p := own_act h.own hclock hact
    rw [if_neg hold]
    exact ⟨hlater, hown⟩
  cases moves_of_act hact with
  | keep hp => exact hkeep fun hnew => hnew.1 (hp.symm.trans hnew.2)
  | giveUp hp =>
    refine hkeep fun hnew => ?_
    rw [hnew.2] at hp
    rcases hp with hp | hp <;> cases hp
  | activate _ _ _ _ hp =>
    refine hkeep fun hnew => ?_
    rw [hp] at hnew
    cases hnew.2
  | enter ha hc hstarts hreplica hsame hp =>
    subst ha
    have hnew : s.primary ≠ .starting ∧ s1.primary = .starting := ⟨by rw [hreplica]; decide, hp⟩
    rw [if_pos hnew]
    refine ⟨Nat.lt_succ_self _, fun p hp => ?_⟩
    have hstops : Stops p := hok _ hc hstarts hreplica p (hsame ▸ hp)
    exact hstops.own

/-! ### Who sets what -/

/-- The step sets the committed revision or the next revision. -/
def placeNumbers : Place → Bool
  | .pass stage => stage.numbers
  | _ => false

theorem numbers_go (h : placeNumbers p.place = false)
    (hgo : p.go nodeID env choice clock primary data = some (p', primary', data')) :
    numbers data' = numbers data := by
  unfold Preflight.go at hgo
  split at hgo
  · split_ifs at hgo <;> cases hgo <;> rfl
  · next stage hplace =>
    rw [hplace] at h
    have hkept : numbers (leaves (stage.pass env nodeID p.cancelled primary) data) =
        numbers data := numbers_pass h
    unfold leaves at hkept
    split at hgo
    · next hret =>
      cases hgo
      rwa [hret] at hkept
    · next hret =>
      cases hgo
      rwa [hret] at hkept
    · next hret =>
      cases hgo
      rwa [hret] at hkept
  · cases hgo
    rfl
  · split_ifs at hgo <;> cases hgo <;> rfl
  · cases hgo
    rfl
  · cases hgo

/-- **Active only after its own preflight.** The node becomes Active only by a preflight whose pass
made every step after the node last entered Starting, and only such a pass sets the committed
revision and the next revision. -/
theorem active_after_own_preflight (hok : Meets (step nodeID) Retires (.start data) as)
    (hrun : exec (step nodeID) (.start data) as = some s) (hs : step nodeID s a = some s') :
    (s.primary ≠ .active → s'.primary = .active → ∃ i env choice p, a = .preflight i env choice ∧
      s.preflights[i]? = some p ∧ p.place = .passed ∧ ∀ t ∈ p.times, s.entered < t) ∧
    ∀ i env choice p, a = .preflight i env choice → s.preflights[i]? = some p →
      placeNumbers p.place = true ∨ numbers s'.data ≠ numbers s.data →
      ∀ t ∈ p.times, s.entered < t := by
  have hinv : Inv s := exec_invariant (fun _ _ _ h hok hs => inv_step h hok hs)
    ⟨Nat.zero_lt_one, fun p hp => absurd hp List.not_mem_nil⟩ hok hrun
  obtain ⟨s1, hact, rfl⟩ := Option.map_eq_some_iff.mp hs
  constructor
  · intro h0 h1
    cases moves_of_act hact with
    | keep hp => exact absurd (hp.symm.trans h1) h0
    | giveUp hp =>
      rw [show s1.primary = .active from h1] at hp
      rcases hp with hp | hp <;> cases hp
    | enter _ _ _ _ _ hp =>
      rw [show s1.primary = .active from h1] at hp
      cases hp
    | activate ha hp hplace _ _ =>
      have hown := hinv.own _ (List.mem_of_getElem? hp)
      unfold Own at hown
      rw [hplace] at hown
      exact ⟨_, _, _, _, ha, hp, hplace, hown⟩
  · rintro i env choice p rfl hp hnum
    have hplace : placeNumbers p.place = true := by
      by_contra hno
      rcases hnum with h | h
      · exact hno h
      · obtain ⟨q, hq, hact⟩ := Option.bind_eq_some_iff.mp hact
        obtain ⟨⟨p', primary, data'⟩, hgo, rfl⟩ := Option.map_eq_some_iff.mp hact
        obtain rfl := Option.some.inj (hp.symm.trans hq)
        exact h (numbers_go (Bool.eq_false_of_not_eq_true hno) hgo)
    have hown := hinv.own p (List.mem_of_getElem? hp)
    unfold placeNumbers at hplace
    unfold Own at hown
    split at hplace
    · next stage hstage =>
      rw [hstage] at hown
      -- a stage that sets one of them does not look at the context again
      refine hown.resolve_right fun hc => ?_
      cases stage <;> cases hplace <;> exact Bool.false_ne_true hc.2
    · cases hplace

/-- The node is superseded before the only record is visited, and elected again. -/
def supersededEarly : List Action :=
  .wire :: applies "n1" 6 ++ goes 0 7 ++ applies "n2" 6 ++ applies "n1" 6 ++ goes 0 1 ++ goes 1 16

/-- Preflight 0 stops and preflight 1 makes the node Active. -/
theorem active_after_own_preflight_early : ∃ s s' p,
    exec (step "n1") (.start oneRecord) supersededEarly = some s ∧
      step "n1" s (.preflight 1 (Primary.Handover.faultless 10) true) = some s' ∧
      s'.primary = .active ∧ s.preflights[1]? = some p ∧ ∀ t ∈ p.times, s.entered < t := by
  have hok : Meets (step "n1") Retires (.start oneRecord) supersededEarly := by decide +kernel
  obtain ⟨s, hrun, hstarting, hlast⟩ := exists_exec_of_any (step "n1") (.start oneRecord)
    supersededEarly (fun s => s.primary = .starting ∧
      (step "n1" s (.preflight 1 (Primary.Handover.faultless 10) true)).any
        (fun s' => s'.primary = .active) = true) (by decide +kernel)
  obtain ⟨s', hs, hactive⟩ := (Option.any_eq_true _ _).mp hlast
  have hactive : s'.primary = .active := of_decide_eq_true hactive
  obtain ⟨i, env, choice, p, ha, hp, -, hown⟩ :=
    (active_after_own_preflight hok hrun hs).1 (by rw [hstarting]; decide) hactive
  cases ha
  exact ⟨s, s', p, hrun, hs, hactive, hp, hown⟩

/-- A preflight whose pass began before the node last entered Starting makes it Active. -/
def activatesLate (i : ℕ) (s : State) : Prop :=
  (∃ p ∈ s.preflights[i]?, ∃ t ∈ p.times, t < s.entered) ∧
    (step "n1" s (.preflight i (Primary.Handover.faultless 10) true)).any
      (fun s' => s'.primary = .active) = true

instance (i : ℕ) (s : State) : Decidable (activatesLate i s) := inferInstanceAs (Decidable (_ ∧ _))

/-- A node is superseded and elected again while its first pass stands before `SetCommitted`. And an
Elector that loses its leadership leaves no Primary in the view, so that the services of a node that
is then told that there is none are not stopped, and the first pass goes on. -/
theorem earlier_preflight_activates :
    (∃ s, exec (step "n1") (.start oneRecord) (.wire :: applies "n1" 6 ++ goes 0 13 ++
      applies "n2" 6 ++ applies "n1" 6 ++ goes 0 3) = some s ∧ activatesLate 0 s) ∧
    ∃ s, exec (step "n1") (.start oneRecord) (.wire :: applies "n1" 6 ++ goes 0 7 ++
      .loseLeadership :: applies "" 6 ++ applies "n1" 6 ++ goes 0 9) = some s ∧
      activatesLate 0 s := by
  constructor
  · exact exists_exec_of_any (step "n1") (.start oneRecord) _ (activatesLate 0) (by decide +kernel)
  · exact exists_exec_of_any (step "n1") (.start oneRecord) _ (activatesLate 0) (by decide +kernel)

end Netsy.Node.Reigns
