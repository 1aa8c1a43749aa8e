import Netsy.Lib.Channel
import Netsy.Primary.FollowSessions

/-! # The channels of the Follow sessions

`followStreams` maps a node to its current session, and a session has a channel. `addFollowStream`
closes the channel of the session it replaces, `removeFollowStream` that of its own session if it is
still the current one, `resetFollowStreams` those of all sessions in the map; handlers keep their
session after that. Here the sessions are a heap of their own, a session is named by its position,
and a channel that is closed twice or sent on after it is closed panics. What runs under the write
lock is one action and waits for all readers; `broadcastToFollowers`, under the read lock, is cut at
every send. -/

namespace Netsy.Primary.FollowChannels

open Proto Lib.Run Lib.Keyed Lib.Channel
open Primary.Follow (Peers streamBufferSize)

/-- `followSession`. -/
structure Session where
  nodeID : NodeID
  sendCh : Chan PrimaryMessage
deriving DecidableEq

/-- An entry of `followStreams`: the node and the position of its session. -/
structure Entry where
  nodeID : NodeID
  session : ℕ
deriving DecidableEq, Repr

/-- A call of `broadcastToFollowers` with the sessions that its loop has not come to. It holds the
read lock. -/
structure Broadcast where
  msg : PrimaryMessage
  todo : List ℕ
deriving DecidableEq

structure State where
  followStreams : KeyedMap Entry.nodeID
  sessions : List Session
  broadcasts : List Broadcast
deriving DecidableEq

namespace State

/-- `NewServer`. -/
def new : State := { followStreams := .empty, sessions := [], broadcasts := [] }

/-- `close(session.sendCh)`. -/
def closeSession (s : State) (i : ℕ) : Except Panic State :=
  match s.sessions[i]? with
  | some x => x.sendCh.close.map fun c =>
      { s with sessions := s.sessions.set i { x with sendCh := c } }
  | none => .ok s

/-- The session that the node has is closed. -/
def closeCurrent (s : State) (nodeID : NodeID) : Except Panic State :=
  match s.followStreams.get nodeID with
  | some old => s.closeSession old.session
  | none => .ok s

def addFollowStream (s : State) (nodeID : NodeID) : Except Panic State := do
  let s ← s.closeCurrent nodeID
  return { s with
    sessions := s.sessions ++ [{ nodeID := nodeID, sendCh := .make }]
    followStreams := s.followStreams.add { nodeID := nodeID, session := s.sessions.length } }

/-- The session of an entry is closed and the entry is deleted. -/
def drop (s : State) (e : Entry) : Except Panic State := do
  let s ← s.closeSession e.session
  return { s with followStreams := s.followStreams.remove e.nodeID }

def removeFollowStream (s : State) (nodeID : NodeID) (session : ℕ) : Except Panic State :=
  match s.followStreams.get nodeID with
  | some current => if current.session = session then s.drop current else .ok s
  | none => .ok s

/-- The loop of `resetFollowStreams`. -/
def dropAll (s : State) : List Entry → Except Panic State
  | [] => .ok s
  | e :: es => do
    let s ← s.drop e
    s.dropAll es

def resetFollowStreams (s : State) : Except Panic State := s.dropAll s.followStreams.entries

/-- `broadcastToFollowers` takes the read lock. -/
def broadcastToFollowers (s : State) (msg : PrimaryMessage) : State :=
  { s with
    broadcasts := s.broadcasts ++
      [{ msg := msg, todo := s.followStreams.entries.map Entry.session }] }

/-- Its loop comes to a session. -/
def sendTo (s : State) (k i : ℕ) : Option (Except Panic State) := do
  let b ← s.broadcasts[k]?
  let x ← s.sessions[i]?
  if i ∈ b.todo then
    some ((x.sendCh.offer streamBufferSize b.msg).map fun c =>
      { s with
        sessions := s.sessions.set i { x with sendCh := c }
        broadcasts := s.broadcasts.set k { b with todo := b.todo.filter (· ≠ i) } })
  else none

/-- Its loop ends. -/
def unlock (s : State) (k : ℕ) : Option State := do
  let b ← s.broadcasts[k]?
  if b.todo = [] then some { s with broadcasts := s.broadcasts.eraseIdx k } else none

/-- `followSendLoop` takes a message from the channel of a session. -/
def receive (s : State) (i : ℕ) : Option State := do
  let x ← s.sessions[i]?
  let (_, c) ← x.sendCh.receive
  return { s with sessions := s.sessions.set i { x with sendCh := c } }

end State

/-- The calls of the handlers, of the transactions and of the callback of a role change. A handler
may call `removeFollowStream` at any time after its session was replaced or closed. -/
inductive Action
  | addFollowStream (nodeID : NodeID)
  | removeFollowStream (nodeID : NodeID) (session : ℕ)
  | resetFollowStreams
  | broadcastToFollowers (msg : PrimaryMessage)
  | sendTo (k i : ℕ)
  | unlock (k : ℕ)
  | receive (i : ℕ)
deriving DecidableEq

/-- The actions under the write lock. -/
def writes : Action → Bool
  | .addFollowStream _ | .removeFollowStream .. | .resetFollowStreams => true
  | _ => false

def act (s : State) : Action → Option (Except Panic State)
  | .addFollowStream nodeID => some (s.addFollowStream nodeID)
  | .removeFollowStream nodeID session => some (s.removeFollowStream nodeID session)
  | .resetFollowStreams => some s.resetFollowStreams
  | .broadcastToFollowers msg => some (.ok (s.broadcastToFollowers msg))
  | .sendTo k i => s.sendTo k i
  | .unlock k => (s.unlock k).map .ok
  | .receive i => (s.receive i).map .ok

/-- A step of the program. A panic ends it. -/
def step : Except Panic State → Action → Option (Except Panic State)
  | .ok s, a => if writes a && !s.broadcasts.isEmpty then none else act s a
  | .error _, _ => none

/-! ### The sessions in the map -/

/-- The session is in `followStreams`, as the one of the node. -/
def State.Listed (s : State) (n : NodeID) (i : ℕ) : Prop := s.followStreams.get n = some ⟨n, i⟩

/-- The session is one of the node, and its channel is open. -/
def State.Open (s : State) (n : NodeID) (i : ℕ) : Prop :=
  ∃ x, s.sessions[i]? = some x ∧ x.nodeID = n ∧ x.sendCh.closed = false

/-- The sessions in the map are those with an open channel, and a running broadcast has only such
sessions before it. -/
structure Safe (s : State) : Prop where
  listed : ∀ n i, s.Listed n i ↔ s.Open n i
  todo : ∀ b ∈ s.broadcasts, ∀ i ∈ b.todo, ∃ n, s.Open n i

variable {s s' : State} {o : Except Panic State} {a : Action} {x : Session} {e : Entry}
  {n m nodeID : NodeID} {i j k : ℕ} {c : Chan PrimaryMessage}

theorem Safe.of_free (hlock : s.broadcasts = []) (h : ∀ n i, s.Listed n i ↔ s.Open n i) :
    Safe s := by
  refine ⟨h, fun b hb => ?_⟩
  rw [hlock] at hb
  cases hb

theorem safe_new : Safe .new := by
  refine .of_free rfl fun n i => iff_of_false ?_ ?_
  · intro h
    cases h
  · rintro ⟨x, hx, -⟩
    cases hx

theorem get_nodeID (h : s.followStreams.get n = some e) : e.nodeID = n :=
  (KeyedMap.get_eq_some.mp h).2

theorem listed_of_get (h : s.followStreams.get n = some e) : s.Listed n e.session := by
  obtain rfl := get_nodeID h
  exact h

theorem State.Open.unique (h : s.Open n i) (h' : s.Open m i) : n = m := by
  obtain ⟨x, hx, rfl, -⟩ := h
  obtain ⟨y, hy, rfl, -⟩ := h'
  rw [Option.some.inj (hx.symm.trans hy)]

theorem State.Listed.unique (h : s.Listed n i) (h' : s.Listed n j) : i = j := by
  have hsame := Option.some.inj (h.symm.trans h')
  exact congrArg Entry.session hsame

theorem open_set (hx : s.sessions[i]? = some x) (hc : c.closed = x.sendCh.closed)
    (hs : s'.sessions = s.sessions.set i { x with sendCh := c }) : s'.Open n j ↔ s.Open n j := by
  unfold State.Open
  rw [hs, getElem?_set_process hx]
  split_ifs with hj
  · subst hj
    simp [hx, hc]
  · exact Iff.rfl

theorem closeSession_ok (h : s.Open n i) :
    ∃ s', s.closeSession i = .ok s' ∧ s'.followStreams = s.followStreams ∧
      s'.broadcasts = s.broadcasts ∧ s'.sessions.length = s.sessions.length ∧
      ∀ m j, s'.Open m j ↔ s.Open m j ∧ j ≠ i := by
  obtain ⟨x, hx, rfl, hopen⟩ := h
  refine ⟨{ s with sessions := s.sessions.set i { x with
    sendCh := { x.sendCh with closed := true } } }, ?_, rfl, rfl, List.length_set, fun m j => ?_⟩
  · simp only [State.closeSession, hx, Chan.close_of_open hopen]
    rfl
  · unfold State.Open
    dsimp only
    rw [getElem?_set_process hx]
    split_ifs with hj
    · subst hj
      simp
    · simp [hj]

/-! ### Under the write lock -/

theorem drop_ok (h : Safe s) (hlock : s.broadcasts = []) (he : s.followStreams.get n = some e) :
    ∃ s', s.drop e = .ok s' ∧ Safe s' ∧ s'.broadcasts = [] ∧
      s'.followStreams = s.followStreams.remove n := by
  have hlisted := listed_of_get he
  obtain rfl := get_nodeID he
  obtain ⟨s1, hclose, hmap, hbroadcasts, -, hopen⟩ := closeSession_ok ((h.listed _ _).mp hlisted)
  refine ⟨{ s1 with followStreams := s1.followStreams.remove e.nodeID }, ?_,
    .of_free (hbroadcasts.trans hlock) fun m j => ?_, hbroadcasts.trans hlock,
    congrArg (KeyedMap.remove · e.nodeID) hmap⟩
  · simp only [State.drop, hclose, bind, Except.bind, pure, Except.pure]
  · change (s1.followStreams.remove e.nodeID).get m = _ ↔ s1.Open m j
    rw [hmap, KeyedMap.get_remove, hopen, ← h.listed]
    split_ifs with hm
    · -- the node had no other session
      subst hm
      refine iff_of_false (by simp) ?_
      rintro ⟨hj, hne⟩
      exact hne (hlisted.unique hj).symm
    · refine (and_iff_left_of_imp fun hj => ?_).symm
      rintro rfl
      exact hm (((h.listed _ _).mp hj).unique ((h.listed _ _).mp hlisted))

theorem removeFollowStream_ok (h : Safe s) (hlock : s.broadcasts = []) :
    ∃ s', s.removeFollowStream nodeID i = .ok s' ∧ Safe s' := by
  unfold State.removeFollowStream
  cases hget : s.followStreams.get nodeID with
  | none => exact ⟨s, rfl, h⟩
  | some current =>
    dsimp only
    split_ifs
    · obtain ⟨s', hdrop, hsafe, -⟩ := drop_ok h hlock hget
      exact ⟨s', hdrop, hsafe⟩
    · exact ⟨s, rfl, h⟩

theorem closeCurrent_ok (h : Safe s) (nodeID : NodeID) :
    ∃ s', s.closeCurrent nodeID = .ok s' ∧ s'.followStreams = s.followStreams ∧
      s'.broadcasts = s.broadcasts ∧ ∀ m j, s'.Open m j ↔ s.Open m j ∧ m ≠ nodeID := by
  unfold State.closeCurrent
  cases hget : s.followStreams.get nodeID with
  | none =>
    refine ⟨s, rfl, rfl, rfl, fun m j => (and_iff_left_of_imp fun hj => ?_).symm⟩
    rintro rfl
    have hlisted : s.followStreams.get m = _ := (h.listed m j).mpr hj
    rw [hget] at hlisted
    cases hlisted
  | some old =>
    have hlisted := listed_of_get hget
    obtain ⟨s1, hclose, hmap, hbroadcasts, -, hopen⟩ :=
      closeSession_ok ((h.listed _ _).mp hlisted)
    refine ⟨s1, hclose, hmap, hbroadcasts, fun m j => ?_⟩
    rw [hopen]
    refine and_congr_right fun hj => not_congr ⟨?_, ?_⟩
    · rintro rfl
      exact hj.unique ((h.listed _ _).mp hlisted)
    · rintro rfl
      exact ((h.listed m j).mpr hj).unique hlisted

theorem open_append (hs : s'.sessions = s.sessions ++ [{ nodeID := nodeID, sendCh := .make }]) :
    s'.Open m j ↔ s.Open m j ∨ j = s.sessions.length ∧ m = nodeID := by
  unfold State.Open
  rw [hs]
  constructor
  · rintro ⟨x, hx, hm, hopen⟩
    rcases getElem?_concat_process hx with hx | ⟨hj, rfl⟩
    · exact Or.inl ⟨x, hx, hm, hopen⟩
    · exact Or.inr ⟨hj, hm.symm⟩
  · rintro (⟨x, hx, hm, hopen⟩ | ⟨rfl, rfl⟩)
    · exact ⟨x, List.getElem?_append_left (List.getElem?_eq_some_iff.mp hx).1 ▸ hx, hm, hopen⟩
    · exact ⟨_, List.getElem?_concat_length, rfl, rfl⟩

theorem addFollowStream_ok (h : Safe s) (hlock : s.broadcasts = []) :
    ∃ s', s.addFollowStream nodeID = .ok s' ∧ Safe s' := by
  obtain ⟨s1, hclose, hmap, hbroadcasts, hopen⟩ := closeCurrent_ok h nodeID
  refine ⟨{ s1 with
    sessions := s1.sessions ++ [{ nodeID := nodeID, sendCh := .make }]
    followStreams := s1.followStreams.add { nodeID := nodeID, session := s1.sessions.length } },
    ?_, .of_free (hbroadcasts.trans hlock) fun m j => ?_⟩
  · simp only [State.addFollowStream, hclose, bind, Except.bind, pure, Except.pure]
  · rw [open_append rfl, hopen, ← h.listed]
    change (s1.followStreams.add _).get m = _ ↔ _
    rw [hmap, KeyedMap.get_add]
    split_ifs with hm
    · subst hm
      simp [eq_comm]
    · simp [State.Listed, show m ≠ nodeID from hm]

theorem dropAll_ok {es : List Entry} (h : Safe s) (hlock : s.broadcasts = [])
    (hes : ∀ e ∈ es, s.followStreams.get e.nodeID = some e) (hnodup : (es.map Entry.nodeID).Nodup) :
    ∃ s', s.dropAll es = .ok s' ∧ Safe s' := by
  induction es generalizing s with
  | nil => exact ⟨s, rfl, h⟩
  | cons e es ih =>
    obtain ⟨hnot, hnodup⟩ := List.nodup_cons.mp hnodup
    obtain ⟨s1, hdrop, hsafe, hlock1, hmap⟩ := drop_ok h hlock (hes e List.mem_cons_self)
    have hrest : ∀ f ∈ es, s1.followStreams.get f.nodeID = some f := by
      intro f hf
      have hne : f.nodeID ≠ e.nodeID := fun he => hnot (he ▸ List.mem_map_of_mem hf)
      rw [hmap, KeyedMap.get_remove, if_neg hne]
      exact hes f (List.mem_cons_of_mem e hf)
    obtain ⟨s', hall, hsafe'⟩ := ih hsafe hlock1 hrest hnodup
    refine ⟨s', ?_, hsafe'⟩
    simp only [State.dropAll, hdrop, bind, Except.bind, hall]

theorem resetFollowStreams_ok (h : Safe s) (hlock : s.broadcasts = []) :
    ∃ s', s.resetFollowStreams = .ok s' ∧ Safe s' :=
  dropAll_ok h hlock (fun _ he => KeyedMap.get_eq_some.mpr ⟨he, rfl⟩) s.followStreams.nodup

/-! ### Under the read lock -/

theorem Safe.broadcastToFollowers (h : Safe s) (msg : PrimaryMessage) :
    Safe (s.broadcastToFollowers msg) := by
  refine ⟨h.listed, fun b hb i hi => ?_⟩
  rcases List.mem_append.mp hb with hb | hb
  · exact h.todo b hb i hi
  · rw [List.mem_singleton.mp hb] at hi
    obtain ⟨e, he, rfl⟩ := List.mem_map.mp hi
    exact ⟨e.nodeID, (h.listed _ _).mp (KeyedMap.get_eq_some.mpr ⟨he, rfl⟩)⟩

theorem sendTo_ok (h : Safe s) (ho : s.sendTo k i = some o) : ∃ s', o = .ok s' ∧ Safe s' := by
  obtain ⟨b, hb, ho⟩ := Option.bind_eq_some_iff.mp ho
  obtain ⟨x, hx, ho⟩ := Option.bind_eq_some_iff.mp ho
  split_ifs at ho with hi
  cases ho
  have hopen : x.sendCh.closed = false := by
    obtain ⟨n, y, hy, -, hopen⟩ := h.todo b (List.mem_of_getElem? hb) i hi
    rwa [Option.some.inj (hx.symm.trans hy)]
  rw [Chan.offer_of_open hopen]
  refine ⟨_, rfl, ⟨fun n j => ?_, fun b' hb' j hj => ?_⟩⟩
  · rw [open_set hx (Chan.closed_of_offer (Chan.offer_of_open hopen)) rfl]
    exact h.listed n j
  · have htodo : ∃ b ∈ s.broadcasts, j ∈ b.todo := by
      rcases List.mem_or_eq_of_mem_set hb' with hb' | rfl
      · exact ⟨b', hb', hj⟩
      · exact ⟨b, List.mem_of_getElem? hb, List.mem_of_mem_filter hj⟩
    obtain ⟨b, hb, hj⟩ := htodo
    obtain ⟨n, hn⟩ := h.todo b hb j hj
    exact ⟨n, (open_set hx (Chan.closed_of_offer (Chan.offer_of_open hopen)) rfl).mpr hn⟩

theorem unlock_ok (h : Safe s) (hs : s.unlock k = some s') : Safe s' := by
  obtain ⟨b, -, hs⟩ := Option.bind_eq_some_iff.mp hs
  split_ifs at hs
  cases hs
  exact ⟨h.listed, fun b hb => h.todo b (List.mem_of_mem_eraseIdx hb)⟩

theorem receive_ok (h : Safe s) (hs : s.receive i = some s') : Safe s' := by
  obtain ⟨x, hx, hs⟩ := Option.bind_eq_some_iff.mp hs
  obtain ⟨⟨msg, c⟩, hc, hs⟩ := Option.bind_eq_some_iff.mp hs
  cases hs
  have hsame : ∀ n j, State.Open { s with
      sessions := s.sessions.set i { x with sendCh := c } } n j ↔ s.Open n j := fun n j =>
    open_set hx (Chan.closed_of_receive hc) rfl
  refine ⟨fun n j => (h.listed n j).trans (hsame n j).symm, fun b hb j hj => ?_⟩
  obtain ⟨n, hn⟩ := h.todo b hb j hj
  exact ⟨n, (hsame n j).mpr hn⟩

/-! ### Whole runs -/

theorem step_ok (h : Safe s) (hs : step (.ok s) a = some o) : ∃ s', o = .ok s' ∧ Safe s' := by
  dsimp only [step] at hs
  split_ifs at hs with hlock
  have hfree : writes a = true → s.broadcasts = [] := fun hw => by simpa [hw] using hlock
  cases a with
  | addFollowStream nodeID =>
    cases hs
    exact addFollowStream_ok h (hfree rfl)
  | removeFollowStream nodeID session =>
    cases hs
    exact removeFollowStream_ok h (hfree rfl)
  | resetFollowStreams =>
    cases hs
    exact resetFollowStreams_ok h (hfree rfl)
  | broadcastToFollowers msg =>
    cases hs
    exact ⟨_, rfl, h.broadcastToFollowers msg⟩
  | sendTo k i => exact sendTo_ok h hs
  | unlock k =>
    obtain ⟨s', hunlock, rfl⟩ := Option.map_eq_some_iff.mp hs
    exact ⟨s', rfl, unlock_ok h hunlock⟩
  | receive i =>
    obtain ⟨s', hreceive, rfl⟩ := Option.map_eq_some_iff.mp hs
    exact ⟨s', rfl, receive_ok h hreceive⟩

theorem exec_ok {as : List Action} (hrun : exec step (.ok .new) as = some o) :
    ∃ s, o = .ok s ∧ Safe s := by
  refine exec_invariant (I := fun o => ∃ s, o = .ok s ∧ Safe s) ?_ ⟨.new, rfl, safe_new⟩
    (meets_of_forall fun _ _ => trivial) hrun
  rintro _ a o ⟨s, rfl, hs⟩ - hstep
  exact step_ok hs hstep

/-- **The channels of the Follow sessions are safe.** No interleaving of the calls ends in a panic:
every channel is closed at most once, and nothing is sent on a closed one. In every state the
sessions in `followStreams`, each under its own node, are exactly those with an open channel. -/
theorem follow_channels_safe (as : List Action) (o : Except Panic State)
    (hrun : exec step (.ok .new) as = some o) :
    ∃ s, o = .ok s ∧ ∀ n i, s.Listed n i ↔ s.Open n i := by
  obtain ⟨s, rfl, hs⟩ := exec_ok hrun
  exact ⟨s, rfl, hs.listed⟩

/-- A node connects twice, a broadcast finds the second session, its handlers return, and the
services stop between them. -/
def replacedAndReset : List Action :=
  [.addFollowStream "a", .addFollowStream "b", .addFollowStream "a",
    .broadcastToFollowers (.commit 1), .sendTo 0 2, .sendTo 0 1, .unlock 0,
    .removeFollowStream "a" 0, .receive 2, .removeFollowStream "a" 2, .resetFollowStreams,
    .removeFollowStream "b" 1, .removeFollowStream "a" 2, .addFollowStream "a"]

theorem follow_channels_safe_replacedAndReset :
    ∃ s, exec step (.ok .new) replacedAndReset = some (.ok s) ∧ s.Listed "a" 3 ∧
      ∀ n i, s.Listed n i ↔ s.Open n i := by
  obtain ⟨o, hrun, hget⟩ := exists_exec_of_any step (.ok .new) replacedAndReset
    (fun o => o.toOption.bind (fun s => s.followStreams.get "a") = some ⟨"a", 3⟩)
    (by decide +kernel)
  obtain ⟨s, rfl, hlisted⟩ := follow_channels_safe replacedAndReset o hrun
  exact ⟨s, hrun, hget, hlisted⟩

end Netsy.Primary.FollowChannels
