import Netsy.Lib.Run

/-! # Waiting for the initial sync

`Start` of the Follower waits on a channel with one slot if `RequireInitialSync` was called before
it. The channel is answered by the loop that `Start` began, and by `Stop`. Each of them holds the
mutex of the Follower while it sends. The loop answers when it finds its context done at the top,
but not when it finds it done in the reconnect delay. -/

namespace Netsy.Replication.InitialSync

open Lib.Run

/-- The error that a waiting `Start` returns. -/
inductive SyncError
  | canceled | initial
deriving DecidableEq, Repr

abbrev Result := Except SyncError Unit

/-- Where a goroutine of `run` stands. -/
inductive Phase
  /-- It has not come to `initialWaiter`. -/
  | begun
  | top
  | connecting
  | streaming
  /-- The reconnect delay. -/
  | delay
  | exited
deriving DecidableEq, Repr

/-- A goroutine of `run`. -/
structure Loop where
  /-- Its context is done. -/
  cancelled : Bool
  phase : Phase
  /-- `initialResult`, as long as it is `initialPending`. -/
  pending : Option ℕ
deriving DecidableEq, Repr

def Loop.new : Loop := { cancelled := false, phase := .begun, pending := none }

/-- A call of `Start` that waits, with the loop it began. -/
structure Starting where
  waitCh : ℕ
  loop : Option ℕ
  result : Option Result
deriving DecidableEq, Repr

/-- A send that blocks, of a loop or of a call of `Stop`. It holds the mutex. -/
structure Blocked where
  waitCh : ℕ
  result : Result
  loop : Option ℕ
deriving DecidableEq, Repr

/-- The fields of the Follower that its mutex guards, the waiter channels and the goroutines. -/
structure Follower where
  /-- The loop whose context `f.cancel` cancels. -/
  cancel : Option ℕ
  requireInitialSync : Bool
  initialSyncWaiterCh : Option ℕ
  /-- The slot of every channel that was made. -/
  channels : List (Option Result)
  loops : List Loop
  starts : List Starting
  /-- The calls of `Stop` that have released the mutex and have a channel to answer. -/
  stops : List ℕ
  blocked : Option Blocked
deriving DecidableEq, Repr

/-- `NewFollower`. -/
def Follower.new : Follower :=
  { cancel := none, requireInitialSync := false, initialSyncWaiterCh := none, channels := [],
    loops := [], starts := [], stops := [], blocked := none }

/-- What becomes of a connection or a stream. -/
inductive Outcome
  /-- There is no Primary, or the node is the Primary. -/
  | skipped
  | failed
  | established
  /-- The stream delivers an Initial message, and `handleInitial` succeeds or fails. -/
  | initial (result : Result)
deriving DecidableEq, Repr

namespace Follower

def setLoop (f : Follower) (r : ℕ) (l : Loop) : Follower := { f with loops := f.loops.set r l }

/-- The context of a loop is cancelled. -/
def cancelLoop (f : Follower) (r : ℕ) : Follower :=
  { f with loops := f.loops.modify r fun l => { l with cancelled := true } }

/-- `finishInitialSyncWait`. A send to a full channel blocks. -/
def finishInitialSyncWait (f : Follower) (waitCh : ℕ) (result : Result) (loop : Option ℕ) :
    Follower :=
  let f := { f with
    initialSyncWaiterCh :=
      if f.initialSyncWaiterCh = some waitCh then none else f.initialSyncWaiterCh }
  if f.channels[waitCh]? = some none then
    { f with channels := f.channels.set waitCh (some result) }
  else { f with blocked := some ⟨waitCh, result, loop⟩ }

/-- A loop answers its waiter, if it has one, and goes on as `l`. -/
def answer (f : Follower) (r : ℕ) (l : Loop) (result : Result) : Option Follower :=
  match l.pending with
  | none => some (f.setLoop r l)
  | some waitCh =>
    if f.blocked.isSome then none
    else
      some ((f.setLoop r { l with pending := none }).finishInitialSyncWait waitCh result (some r))

/-! ### The calls -/

/-- `Start` up to its wait. -/
def start (f : Follower) : Follower :=
  match f.cancel, f.initialSyncWaiterCh with
  | some _, none => f
  | some _, some waitCh => { f with starts := f.starts ++ [⟨waitCh, none, none⟩] }
  | none, waitCh =>
    let r := f.loops.length
    let f' := { f with cancel := some r, loops := f.loops ++ [Loop.new] }
    if f.requireInitialSync then
      { f' with
        requireInitialSync := false
        initialSyncWaiterCh := some f.channels.length
        channels := f.channels ++ [none]
        starts := f.starts ++ [⟨f.channels.length, some r, none⟩] }
    else { f' with starts := f.starts ++ (waitCh.map fun ch => ⟨ch, some r, none⟩).toList }

/-- A waiting call of `Start` receives. A send that blocks on the channel goes on. -/
def receive (f : Follower) (i : ℕ) : Option Follower :=
  match f.starts[i]? with
  | none => none
  | some call =>
    match call.result, f.channels[call.waitCh]? with
    | none, some (some result) =>
      let next := f.blocked.filter fun b => b.waitCh = call.waitCh
      some { f with
        starts := f.starts.set i { call with result := some result }
        channels := f.channels.set call.waitCh (next.map Blocked.result)
        blocked := if next.isSome then none else f.blocked }
    | _, _ => none

/-- `Stop` under the mutex. -/
def stop (f : Follower) : Follower :=
  match f.cancel with
  | none => f
  | some r =>
    { f.cancelLoop r with
      cancel := none
      initialSyncWaiterCh := none
      stops := f.stops ++ f.initialSyncWaiterCh.toList }

/-- `Stop` answers the waiter. -/
def stopAnswers (f : Follower) (k : ℕ) : Option Follower :=
  f.stops[k]?.map fun waitCh =>
    { f with stops := f.stops.eraseIdx k }.finishInitialSyncWait waitCh (.error .canceled) none

/-! ### The loop -/

/-- `initialWaiter`. -/
def readWaiter (f : Follower) (r : ℕ) (l : Loop) : Option Follower :=
  if l.phase = .begun ∧ f.blocked = none then
    some (f.setLoop r { l with phase := .top, pending := f.initialSyncWaiterCh })
  else none

/-- The `select` at the top. -/
def loopTop (f : Follower) (r : ℕ) (l : Loop) : Option Follower :=
  if l.phase ≠ .top then none
  else if l.cancelled then f.answer r { l with phase := .exited } (.error .canceled)
  else some (f.setLoop r { l with phase := .connecting })

/-- `connectAndFollow` and `processStream`, as far as they answer. -/
def follow (f : Follower) (r : ℕ) (l : Loop) : Outcome → Option Follower
  | .skipped =>
    if l.phase = .connecting then f.answer r { l with phase := .delay } (.ok ()) else none
  | .established =>
    if l.phase = .connecting then some (f.setLoop r { l with phase := .streaming }) else none
  | .failed =>
    if l.phase = .connecting ∨ l.phase = .streaming then
      some (f.setLoop r { l with phase := .delay })
    else none
  | .initial (.ok ()) => if l.phase = .streaming then f.answer r l (.ok ()) else none
  | .initial (.error e) =>
    if l.phase = .streaming then f.answer r { l with phase := .delay } (.error e) else none

/-- The context is done in the reconnect delay. -/
def delayDone (f : Follower) (r : ℕ) (l : Loop) : Option Follower :=
  if l.phase = .delay ∧ l.cancelled = true then some (f.setLoop r { l with phase := .exited })
  else none

def delayElapsed (f : Follower) (r : ℕ) (l : Loop) : Option Follower :=
  if l.phase = .delay then some (f.setLoop r { l with phase := .top }) else none

/-- A loop acts unless it blocks in a send. -/
def loop (f : Follower) (r : ℕ) (act : Loop → Option Follower) : Option Follower :=
  if f.blocked.any fun b => b.loop = some r then none else f.loops[r]?.bind act

end Follower

inductive Action
  | requireInitialSync
  | start
  | receive (i : ℕ)
  | stop
  | stopAnswers (k : ℕ)
  /-- The context that was given to the `Start` of the loop is cancelled. -/
  | cancelParent (r : ℕ)
  | readWaiter (r : ℕ)
  | loopTop (r : ℕ)
  | follow (r : ℕ) (outcome : Outcome)
  | delayDone (r : ℕ)
  | delayElapsed (r : ℕ)
deriving DecidableEq, Repr

/-- What runs under the mutex of the Follower waits for a send that blocks. -/
def locked (f : Follower) (f' : Option Follower) : Option Follower :=
  if f.blocked.isSome then none else f'

def step (f : Follower) : Action → Option Follower
  | .requireInitialSync => locked f (some { f with requireInitialSync := true })
  | .start => locked f (some f.start)
  | .receive i => f.receive i
  | .stop => locked f (some f.stop)
  | .stopAnswers k => locked f (f.stopAnswers k)
  | .cancelParent r => some (f.cancelLoop r)
  | .readWaiter r => f.loop r (f.readWaiter r)
  | .loopTop r => f.loop r (f.loopTop r)
  | .follow r outcome => f.loop r fun l => f.follow r l outcome
  | .delayDone r => f.loop r (f.delayDone r)
  | .delayElapsed r => f.loop r (f.delayElapsed r)

/-! ### The waiters are answered -/

/-- The call of `Start` has a result: it has received it, or it is in its channel. -/
def Given (f : Follower) (call : Starting) : Prop :=
  call.result.isSome = true ∨ ∃ v, f.channels[call.waitCh]? = some (some v)

/-- No send blocks with the mutex held, and a call of `Start` has its result when the loop that it
began has exited. -/
structure Answers (f : Follower) : Prop where
  unblocked : f.blocked = none
  given : ∀ call ∈ f.starts, ∀ r l, call.loop = some r → f.loops[r]? = some l →
    l.phase = .exited → Given f call

/-- While a call of `Start` waits there is no `Stop` and no other `Start`, and the context is not
cancelled once its loop tries to connect. A `Start` that will wait comes when the loops before it
have read their waiter. -/
def Orderly (f : Follower) : Action → Prop
  | .start => f.initialSyncWaiterCh = none ∧
      (f.cancel = none → f.requireInitialSync = true → ∀ l ∈ f.loops, l.phase ≠ .begun)
  | .stop => f.initialSyncWaiterCh = none
  | .cancelParent r => ∀ l ∈ f.loops[r]?, l.pending = none ∨ l.phase = .top
  | _ => True

instance (f : Follower) : ∀ a, Decidable (Orderly f a)
  | .start => inferInstanceAs (Decidable (_ ∧ (f.cancel = none → f.requireInitialSync = true → _)))
  | .stop => inferInstanceAs (Decidable (f.initialSyncWaiterCh = none))
  | .cancelParent r => inferInstanceAs (Decidable (∀ l ∈ f.loops[r]?, _))
  | .requireInitialSync | .receive _ | .stopAnswers _ | .readWaiter _ | .loopTop _ | .follow _ _
  | .delayDone _ | .delayElapsed _ => .isTrue trivial

/-! ### One waiter, one answer -/

variable {f f' : Follower} {a : Action} {r r' i : ℕ} {l l' : Loop} {ch : ℕ} {result : Result}
  {call : Starting} {as : List Action}

/-- What a loop owes: the waiter is its own, and its context is not done unless it is at the top. -/
structure Owes (waiterCh cancel : Option ℕ) (r : ℕ) (l : Loop) (ch : ℕ) : Prop where
  waiter : waiterCh = some ch
  cancel : cancel = some r
  phase : l.phase ≠ .begun ∧ l.phase ≠ .exited
  cancelled : l.cancelled = true → l.phase = .top

/-- In orderly runs the waiter has one loop that owes the answer, and its channel is empty. -/
structure Inv (f : Follower) : Prop where
  blocked : f.blocked = none
  stops : f.stops = []
  waiter : ∀ ch, f.initialSyncWaiterCh = some ch → f.channels[ch]? = some none ∧
    ∃ r l, f.cancel = some r ∧ f.loops[r]? = some l ∧ (l.phase = .begun ∨ l.pending = some ch)
  begun : f.initialSyncWaiterCh ≠ none → ∀ r l, f.loops[r]? = some l → l.phase = .begun →
    f.cancel = some r
  owes : ∀ r l ch, f.loops[r]? = some l → l.pending = some ch →
    Owes f.initialSyncWaiterCh f.cancel r l ch
  calls : ∀ call ∈ f.starts, call.waitCh < f.channels.length ∧
    (Given f call ∨ f.initialSyncWaiterCh = some call.waitCh ∧ call.loop = f.cancel)
  distinct : (f.starts.map Starting.waitCh).Nodup

theorem inv_new : Inv .new where
  blocked := rfl
  stops := rfl
  waiter := nofun
  begun := fun h => absurd rfl h
  owes := nofun
  calls := nofun
  distinct := List.nodup_nil

theorem Inv.answers (h : Inv f) : Answers f where
  unblocked := h.blocked
  given := by
    intro call hcall r l hloop hl hexited
    rcases (h.calls call hcall).2 with hgiven | ⟨hwaiter, hcancel⟩
    · exact hgiven
    · obtain ⟨-, r', l', hr', hl', howes⟩ := h.waiter _ hwaiter
      obtain rfl : r = r' := Option.some.inj (hloop.symm.trans (hcancel.trans hr'))
      obtain rfl : l = l' := Option.some.inj (hl.symm.trans hl')
      rcases howes with hbegun | hpending
      · rw [hexited] at hbegun
        cases hbegun
      · exact absurd hexited (h.owes r l _ hl hpending).phase.2

theorem Inv.pending_eq_none (h : Inv f) (hnone : f.initialSyncWaiterCh = none)
    (hl : f.loops[r]? = some l) : l.pending = none := by
  cases hp : l.pending with
  | none => rfl
  | some ch =>
    have howes := (h.owes r l ch hl hp).waiter
    rw [hnone] at howes
    cases howes

theorem Inv.given (h : Inv f) (hnone : f.initialSyncWaiterCh = none) (hcall : call ∈ f.starts) :
    Given f call := by
  rcases (h.calls call hcall).2 with hgiven | ⟨hwaiter, -⟩
  · exact hgiven
  · rw [hnone] at hwaiter
    cases hwaiter

/-! #### The loop goes on -/

theorem getElem?_setLoop (hl : f.loops[r]? = some l) :
    (f.setLoop r l').loops[r']? = if r' = r then some l' else f.loops[r']? :=
  getElem?_set_process hl

theorem Inv.setLoop (h : Inv f) (hl : f.loops[r]? = some l) (hpending : l'.pending = l.pending)
    (hbegun : l.phase ≠ .begun) (hbegun' : l'.phase ≠ .begun)
    (howes : l.pending ≠ none → l'.phase ≠ .exited ∧ (l'.cancelled = true → l'.phase = .top)) :
    Inv (f.setLoop r l') := by
  refine ⟨h.blocked, h.stops, fun ch hch => ?_, fun hne r' x hx hphase => ?_, ?_, h.calls,
    h.distinct⟩
  · obtain ⟨hempty, r', x, hcancel, hx, hor⟩ := h.waiter ch hch
    refine ⟨hempty, ?_⟩
    by_cases hr : r' = r
    · subst hr
      obtain rfl : l = x := Option.some.inj (hl.symm.trans hx)
      refine ⟨r', l', hcancel, by rw [getElem?_setLoop hl, if_pos rfl], Or.inr ?_⟩
      rw [hpending]
      exact hor.resolve_left hbegun
    · exact ⟨r', x, hcancel, by rw [getElem?_setLoop hl, if_neg hr, hx], hor⟩
  · rw [getElem?_setLoop hl] at hx
    split_ifs at hx with hr
    · cases hx
      exact absurd hphase hbegun'
    · exact h.begun hne r' x hx hphase
  · intro r' x ch hx hp
    rw [getElem?_setLoop hl] at hx
    split_ifs at hx with hr
    · cases hx
      subst hr
      rw [hpending] at hp
      obtain ⟨hexited, htop⟩ := howes (by rw [hp]; simp)
      have hold := h.owes r' l ch hl hp
      exact ⟨hold.waiter, hold.cancel, ⟨hbegun', hexited⟩, htop⟩
    · exact h.owes r' x ch hx hp

theorem Inv.answer (h : Inv f) (ha : f.answer r l' result = some f')
    (hl : f.loops[r]? = some l) (hpending : l'.pending = l.pending)
    (hbegun : l.phase ≠ .begun) (hbegun' : l'.phase ≠ .begun) : Inv f' := by
  unfold Follower.answer at ha
  cases hp : l.pending with
  | none =>
    rw [hpending, hp] at ha
    cases ha
    exact h.setLoop hl hpending hbegun hbegun' fun hne => absurd hp hne
  | some ch =>
    rw [hpending, hp] at ha
    simp only [h.blocked, Option.isSome_none, Bool.false_eq_true, if_false] at ha
    have howes := h.owes r l ch hl hp
    obtain ⟨hempty, -⟩ := h.waiter ch howes.waiter
    have hlt : ch < f.channels.length := (List.getElem?_eq_some_iff.mp hempty).1
    have hf : f' = { f.setLoop r { l' with pending := none } with
        initialSyncWaiterCh := none, channels := f.channels.set ch (some result) } := by
      rw [← Option.some.inj ha]
      unfold Follower.finishInitialSyncWait Follower.setLoop
      simp [howes.waiter, hempty]
    rw [hf]
    refine ⟨h.blocked, h.stops, nofun, fun hne => absurd rfl hne, ?_, ?_, h.distinct⟩
    · intro r' x ch' hx hp'
      rw [getElem?_setLoop hl] at hx
      split_ifs at hx with hr
      · cases hx
        cases hp'
      · -- only the loop of the waiter owes an answer
        have hother := (h.owes r' x ch' hx hp').cancel
        exact absurd (Option.some.inj (hother.symm.trans howes.cancel)) hr
    · intro call hcall
      obtain ⟨hcall_lt, hor⟩ := h.calls call hcall
      refine ⟨by simpa using hcall_lt, Or.inl ?_⟩
      by_cases hch : call.waitCh = ch
      · exact Or.inr ⟨result, by rw [hch]; simp [hlt]⟩
      · rcases hor with hres | ⟨hw, -⟩
        · refine hres.imp id fun ⟨v, hv⟩ => ⟨v, ?_⟩
          change (f.channels.set ch (some result))[call.waitCh]? = _
          rw [List.getElem?_set_ne (Ne.symm hch), hv]
        · exact absurd (Option.some.inj (hw.symm.trans howes.waiter)) hch

theorem Inv.readWaiter (h : Inv f) (hl : f.loops[r]? = some l)
    (hs : f.readWaiter r l = some f') : Inv f' := by
  unfold Follower.readWaiter at hs
  split_ifs at hs with hguard
  cases hs
  obtain ⟨hbegun, -⟩ := hguard
  refine ⟨h.blocked, h.stops, fun ch hch => ?_, fun hne r' x hx hphase => ?_, ?_, h.calls,
    h.distinct⟩
  · have hcancel := h.begun (by rw [show f.initialSyncWaiterCh = some ch from hch]; simp) r l hl
      hbegun
    obtain ⟨hempty, -⟩ := h.waiter ch hch
    exact ⟨hempty, r, _, hcancel, by rw [getElem?_setLoop hl, if_pos rfl], Or.inr hch⟩
  · rw [getElem?_setLoop hl] at hx
    split_ifs at hx with hr
    · cases hx
      cases hphase
    · exact h.begun hne r' x hx hphase
  · intro r' x ch hx hp
    rw [getElem?_setLoop hl] at hx
    split_ifs at hx with hr
    · cases hx
      subst hr
      have hcancel := h.begun (by rw [show f.initialSyncWaiterCh = some ch from hp]; simp) r' l hl
        hbegun
      exact ⟨hp, hcancel, ⟨nofun, nofun⟩, fun _ => rfl⟩
    · exact h.owes r' x ch hx hp

theorem Inv.loopTop (h : Inv f) (hl : f.loops[r]? = some l) (hs : f.loopTop r l = some f') :
    Inv f' := by
  unfold Follower.loopTop at hs
  split_ifs at hs with htop hcancelled
  · have hbegun : l.phase ≠ .begun := by
      rw [not_not.mp htop]
      decide
    exact h.answer hs hl rfl hbegun nofun
  · cases hs
    refine h.setLoop hl rfl (by rw [not_not.mp htop]; decide) nofun fun _ => ⟨nofun, fun hc => ?_⟩
    exact absurd hc hcancelled

/-- A loop that owes an answer is cancelled at the top only. -/
theorem Inv.not_cancelled (h : Inv f) (hl : f.loops[r]? = some l) (hp : l.pending ≠ none)
    (hphase : l.phase ≠ .top) : l.cancelled ≠ true := by
  obtain ⟨ch, hch⟩ := Option.ne_none_iff_exists'.mp hp
  exact fun hcancelled => hphase ((h.owes r l ch hl hch).cancelled hcancelled)

theorem Inv.follow {outcome : Outcome} (h : Inv f) (hl : f.loops[r]? = some l)
    (hs : f.follow r l outcome = some f') : Inv f' := by
  have hlive : ∀ p, l.phase = p → p = .connecting ∨ p = .streaming →
      l.phase ≠ .begun ∧ l.phase ≠ .top := by
    rintro p hp (rfl | rfl) <;> rw [hp] <;> decide
  cases outcome with
  | skipped =>
    simp only [Follower.follow] at hs
    split_ifs at hs with hphase
    exact h.answer hs hl rfl (hlive _ hphase (Or.inl rfl)).1 nofun
  | established =>
    simp only [Follower.follow] at hs
    split_ifs at hs with hphase
    cases hs
    obtain ⟨hbegun, htop⟩ := hlive _ hphase (Or.inl rfl)
    refine h.setLoop hl rfl hbegun nofun fun hp => ⟨nofun, fun hc => ?_⟩
    have hnot := h.not_cancelled hl hp htop
    exact absurd hc hnot
  | failed =>
    simp only [Follower.follow] at hs
    split_ifs at hs with hphase
    cases hs
    obtain ⟨hbegun, htop⟩ := hlive l.phase rfl hphase
    refine h.setLoop hl rfl hbegun nofun fun hp => ⟨nofun, fun hc => ?_⟩
    have hnot := h.not_cancelled hl hp htop
    exact absurd hc hnot
  | initial result =>
    cases result with
    | ok u =>
      simp only [Follower.follow] at hs
      split_ifs at hs with hphase
      obtain ⟨hbegun, -⟩ := hlive _ hphase (Or.inr rfl)
      exact h.answer hs hl rfl hbegun hbegun
    | error e =>
      simp only [Follower.follow] at hs
      split_ifs at hs with hphase
      exact h.answer hs hl rfl (hlive _ hphase (Or.inr rfl)).1 nofun

theorem Inv.delayDone (h : Inv f) (hl : f.loops[r]? = some l) (hs : f.delayDone r l = some f') :
    Inv f' := by
  unfold Follower.delayDone at hs
  split_ifs at hs with hguard
  cases hs
  obtain ⟨hphase, hcancelled⟩ := hguard
  refine h.setLoop hl rfl (by rw [hphase]; decide) nofun fun hp => ?_
  exact absurd hcancelled (h.not_cancelled hl hp (by rw [hphase]; decide))

theorem Inv.delayElapsed (h : Inv f) (hl : f.loops[r]? = some l)
    (hs : f.delayElapsed r l = some f') : Inv f' := by
  unfold Follower.delayElapsed at hs
  split_ifs at hs with hphase
  cases hs
  exact h.setLoop hl rfl (by rw [hphase]; decide) nofun fun _ => ⟨nofun, fun _ => rfl⟩

/-! #### The calls -/

theorem given_congr (hchannels : ∀ v, f.channels[call.waitCh]? = some (some v) →
    f'.channels[call.waitCh]? = some (some v)) (h : Given f call) : Given f' call :=
  h.imp id fun ⟨v, hv⟩ => ⟨v, hchannels v hv⟩

theorem Inv.start (h : Inv f) (hok : Orderly f .start) : Inv f.start := by
  obtain ⟨hnone, hread⟩ := hok
  unfold Follower.start
  cases hcancel : f.cancel with
  | some r =>
    rw [hnone]
    exact h
  | none =>
    dsimp only
    have hidle : ∀ (r : ℕ) (l : Loop), (f.loops ++ [Loop.new])[r]? = some l →
        l.pending = none := by
      intro r l hl
      rcases getElem?_concat_process hl with hold | ⟨-, rfl⟩
      · exact h.pending_eq_none hnone hold
      · rfl
    split_ifs with hrequired
    · have hlast : (f.loops ++ [Loop.new])[f.loops.length]? = some Loop.new := by simp
      refine ⟨h.blocked, h.stops, ?_, fun _ r l hl hbegun => ?_, ?_, fun call hcall => ?_, ?_⟩
      · intro ch hch
        cases hch
        exact ⟨by simp, f.loops.length, Loop.new, rfl, hlast, Or.inl rfl⟩
      · rcases getElem?_concat_process hl with hold | ⟨rfl, -⟩
        · exact absurd hbegun (hread hcancel hrequired l (List.mem_of_getElem? hold))
        · rfl
      · intro r l ch hl hp
        rw [hidle r l hl] at hp
        cases hp
      · rcases List.mem_append.mp hcall with hold | hnew
        · obtain ⟨hlt, -⟩ := h.calls call hold
          refine ⟨by simpa using Nat.lt_succ_of_lt hlt, Or.inl ?_⟩
          refine given_congr (fun v hv => ?_) (h.given hnone hold)
          rw [List.getElem?_append_left hlt, hv]
        · obtain rfl := List.mem_singleton.mp hnew
          exact ⟨by simp, Or.inr ⟨rfl, rfl⟩⟩
      · rw [List.map_append, List.map_singleton]
        refine List.nodup_append.mpr ⟨h.distinct, by simp, ?_⟩
        rintro x hx y hy rfl
        obtain ⟨call, hcall, rfl⟩ := List.mem_map.mp hx
        have hlt := (h.calls call hcall).1
        rw [List.mem_singleton.mp hy] at hlt
        exact Nat.lt_irrefl _ hlt
    · rw [hnone]
      simp only [Option.map_none, Option.toList_none, List.append_nil]
      refine ⟨h.blocked, h.stops, nofun, fun hne => absurd rfl hne, ?_, ?_, h.distinct⟩
      · intro r l ch hl hp
        rw [hidle r l hl] at hp
        cases hp
      · exact fun call hcall => ⟨(h.calls call hcall).1, Or.inl (h.given hnone hcall)⟩

theorem Inv.waitCh_ne {x : Starting} {j : ℕ} (h : Inv f) (hi : f.starts[i]? = some call)
    (hj : f.starts[j]? = some x) (hij : i ≠ j) : call.waitCh ≠ x.waitCh := by
  intro heq
  have hi' : (f.starts.map Starting.waitCh)[i]? = some x.waitCh := by
    rw [List.getElem?_map, hi, ← heq]
    rfl
  have hj' : (f.starts.map Starting.waitCh)[j]? = some x.waitCh := by
    rw [List.getElem?_map, hj]
    rfl
  have hbound := (List.getElem?_eq_some_iff.mp hi').1
  exact hij ((List.getElem?_inj hbound h.distinct).mp (hi'.trans hj'.symm))

theorem map_waitCh_set {x : Starting} (hi : f.starts[i]? = some call)
    (hx : x.waitCh = call.waitCh) :
    (f.starts.set i x).map Starting.waitCh = f.starts.map Starting.waitCh := by
  refine List.ext_getElem? fun j => ?_
  rw [List.getElem?_map, getElem?_set_process hi, List.getElem?_map]
  split_ifs with hj
  · rw [hj, hi, Option.map_some, Option.map_some, hx]
  · rfl

theorem Inv.receive (h : Inv f) (hs : f.receive i = some f') : Inv f' := by
  unfold Follower.receive at hs
  split at hs
  · cases hs
  rename_i call hi
  split at hs
  swap
  · cases hs
  rename_i result hresult hfull
  simp only [h.blocked, Option.filter_none, Option.map_none, Option.isSome_none,
    Bool.false_eq_true, if_false] at hs
  cases hs
  refine ⟨rfl, h.stops, fun ch hch => ?_, h.begun, h.owes, fun x hx => ?_, ?_⟩
  · obtain ⟨hempty, hloop⟩ := h.waiter ch hch
    refine ⟨?_, hloop⟩
    have hne : call.waitCh ≠ ch := by
      rintro rfl
      rw [hempty] at hfull
      cases hfull
    change (f.channels.set call.waitCh none)[ch]? = some none
    rw [List.getElem?_set_ne hne, hempty]
  · obtain ⟨j, hj⟩ := List.mem_iff_getElem?.mp hx
    change (f.starts.set i _)[j]? = some x at hj
    rw [getElem?_set_process hi] at hj
    split_ifs at hj with hji
    · cases hj
      have hlt := (h.calls call (List.mem_of_getElem? hi)).1
      exact ⟨by simpa using hlt, Or.inl (Or.inl rfl)⟩
    · -- another call waits on another channel
      obtain ⟨hlt, hor⟩ := h.calls x (List.mem_of_getElem? hj)
      refine ⟨by simpa using hlt, hor.imp_left (given_congr fun v hv => ?_)⟩
      have hne := h.waitCh_ne hi hj (Ne.symm hji)
      change (f.channels.set call.waitCh none)[x.waitCh]? = _
      rw [List.getElem?_set_ne hne, hv]
  · have hsame := map_waitCh_set (x := { call with result := some result }) hi rfl
    change ((f.starts.set i _).map Starting.waitCh).Nodup
    rw [hsame]
    exact h.distinct

theorem getElem?_cancelLoop (hx : (f.cancelLoop r).loops[r']? = some l) :
    ∃ x, f.loops[r']? = some x ∧ l.phase = x.phase ∧ l.pending = x.pending ∧
      (r' ≠ r → l = x) := by
  unfold Follower.cancelLoop at hx
  rw [List.getElem?_modify] at hx
  obtain ⟨x, hx', rfl⟩ := Option.map_eq_some_iff.mp hx
  refine ⟨x, hx', ?_⟩
  split_ifs with hr
  · exact ⟨rfl, rfl, fun hne => absurd hr.symm hne⟩
  · exact ⟨rfl, rfl, fun _ => rfl⟩

theorem Inv.stop (h : Inv f) (hok : Orderly f .stop) : Inv f.stop := by
  have hnone : f.initialSyncWaiterCh = none := hok
  unfold Follower.stop
  cases hcancel : f.cancel with
  | none => exact h
  | some r =>
    dsimp only
    refine ⟨h.blocked, by simp [hnone, h.stops], nofun, fun hne => absurd rfl hne, ?_, ?_,
      h.distinct⟩
    · intro r' l ch hl hp
      obtain ⟨x, hx, -, hpending, -⟩ := getElem?_cancelLoop hl
      rw [hpending, h.pending_eq_none hnone hx] at hp
      cases hp
    · exact fun call hcall => ⟨(h.calls call hcall).1, Or.inl (h.given hnone hcall)⟩

theorem Inv.cancelParent (h : Inv f) (hok : Orderly f (.cancelParent r)) :
    Inv (f.cancelLoop r) := by
  have hmodify : ∀ {r' : ℕ} {x : Loop}, f.loops[r']? = some x →
      ∃ l, (f.cancelLoop r).loops[r']? = some l ∧ l.phase = x.phase ∧ l.pending = x.pending := by
    intro r' x hx
    refine ⟨_, by rw [Follower.cancelLoop, List.getElem?_modify, hx]; rfl, ?_⟩
    split_ifs
    · exact ⟨rfl, rfl⟩
    · exact ⟨rfl, rfl⟩
  refine ⟨h.blocked, h.stops, fun ch hch => ?_, fun hne r' l hl hphase => ?_, ?_, h.calls,
    h.distinct⟩
  · obtain ⟨hempty, r', x, hcancel, hx, hor⟩ := h.waiter ch hch
    obtain ⟨l, hl, hphase, hpending⟩ := hmodify hx
    exact ⟨hempty, r', l, hcancel, hl, by rwa [hphase, hpending]⟩
  · obtain ⟨x, hx, hx', -⟩ := getElem?_cancelLoop hl
    exact h.begun hne r' x hx (hx'.symm.trans hphase)
  · intro r' l ch hl hp
    obtain ⟨x, hx, hphase, hpending, hother⟩ := getElem?_cancelLoop hl
    have hold := h.owes r' x ch hx (hpending.symm.trans hp)
    refine ⟨hold.waiter, hold.cancel, by rw [hphase]; exact hold.phase, fun hcancelled => ?_⟩
    by_cases hr : r' = r
    · subst hr
      have htop := (hok x hx).resolve_left (by rw [← hpending, hp]; simp)
      rw [hphase, htop]
    · rw [hother hr] at hcancelled ⊢
      exact hold.cancelled hcancelled

/-! ### Runs -/

theorem loop_eq_some {act : Loop → Option Follower} (h : f.loop r act = some f') :
    ∃ l, f.loops[r]? = some l ∧ act l = some f' := by
  unfold Follower.loop at h
  split_ifs at h
  exact Option.bind_eq_some_iff.mp h

theorem locked_eq_some {x : Option Follower} (h : locked f x = some f') : x = some f' := by
  unfold locked at h
  split_ifs at h
  exact h

theorem inv_step (h : Inv f) (hok : Orderly f a) (hs : step f a = some f') : Inv f' := by
  cases a with
  | requireInitialSync =>
    cases locked_eq_some hs
    exact ⟨h.blocked, h.stops, h.waiter, h.begun, h.owes, h.calls, h.distinct⟩
  | start =>
    cases locked_eq_some hs
    exact h.start hok
  | receive i => exact h.receive hs
  | stop =>
    cases locked_eq_some hs
    exact h.stop hok
  | stopAnswers k =>
    -- `Stop` has nobody to answer
    have hk := locked_eq_some hs
    rw [Follower.stopAnswers, h.stops] at hk
    cases hk
  | cancelParent r =>
    cases hs
    exact h.cancelParent hok
  | readWaiter r =>
    obtain ⟨l, hl, hact⟩ := loop_eq_some hs
    exact h.readWaiter hl hact
  | loopTop r =>
    obtain ⟨l, hl, hact⟩ := loop_eq_some hs
    exact h.loopTop hl hact
  | follow r outcome =>
    obtain ⟨l, hl, hact⟩ := loop_eq_some hs
    exact h.follow hl hact
  | delayDone r =>
    obtain ⟨l, hl, hact⟩ := loop_eq_some hs
    exact h.delayDone hl hact
  | delayElapsed r =>
    obtain ⟨l, hl, hact⟩ := loop_eq_some hs
    exact h.delayElapsed hl hact

/-- **Waiters are answered in orderly runs**: no send blocks with the mutex held, and whenever the
loop of a waiting `Start` has exited, the call has its result. -/
theorem orderly_runs_answer (as : List Action) (f : Follower)
    (hok : Meets step Orderly .new as) (hrun : exec step .new as = some f) : Answers f :=
  (exec_invariant (fun _ _ _ h hok hs => inv_step h hok hs) inv_new hok hrun).answers

/-- A `Start` waits, its loop connects again after a failure, and the context is cancelled when the
loop has delivered the result. -/
def orderly : List Action :=
  [.requireInitialSync, .start, .readWaiter 0, .loopTop 0, .follow 0 .failed, .delayElapsed 0,
    .loopTop 0, .follow 0 .established, .follow 0 (.initial (.ok ())), .receive 0, .cancelParent 0,
    .follow 0 .failed, .delayDone 0]

theorem orderly_runs_answer_once :
    ∃ f, exec step .new orderly = some f ∧ f.starts = [⟨0, some 0, some (.ok ())⟩] ∧
      Meets step Orderly .new orderly ∧ Answers f := by
  have hok : Meets step Orderly .new orderly := by decide +kernel
  exact ⟨_, rfl, rfl, hok, orderly_runs_answer orderly _ hok rfl⟩

/-- The context of a waiting `Start` is cancelled in the reconnect delay of its loop. -/
def cancelledInDelay : List Action :=
  [.requireInitialSync, .start, .readWaiter 0, .loopTop 0, .follow 0 .failed, .cancelParent 0,
    .delayDone 0]

/-- `Stop` answers a waiting `Start`, and its loop answers too before the first value is taken. -/
def answeredTwice : List Action :=
  [.requireInitialSync, .start, .readWaiter 0, .stop, .stopAnswers 0, .loopTop 0]

/-- **A `Start` without a result and a send that blocks.** In the first run the loop has exited and
nobody has answered; in the second the loop holds the mutex and waits for a free slot. -/
theorem start_unanswered_and_send_blocked :
    (∃ f, exec step .new cancelledInDelay = some f ∧ (∃ l ∈ f.loops[0]?, l.phase = .exited) ∧
        f.starts = [⟨0, some 0, none⟩] ∧ f.channels = [none] ∧ ¬ Answers f) ∧
      ∃ f, exec step .new answeredTwice = some f ∧
        f.blocked = some ⟨0, .error .canceled, some 0⟩ ∧ ¬ Answers f := by
  refine ⟨⟨_, rfl, ⟨_, rfl, rfl⟩, rfl, rfl, fun h => ?_⟩, ⟨_, rfl, rfl, fun h => ?_⟩⟩
  · have hgiven := h.given ⟨0, some 0, none⟩ (List.mem_singleton_self _) 0 _ rfl rfl rfl
    rcases hgiven with hresult | ⟨v, hv⟩
    · cases hresult
    · cases hv
  · cases h.unblocked

end Netsy.Replication.InitialSync
