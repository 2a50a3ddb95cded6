import ComicStream.Foundation.Machine

/-!
# The scanner loop and its triggers

The loop waits at a channel that holds one message, drains it, and scans. The
watcher, the poller, the admin route and the loop itself, once when it is spawned,
try to put a message into the channel and never wait for it. The steps of all
these tasks come in any order.
-/

namespace ComicStream.Server.ScanLoop

/-- The result of `try_send`. -/
inductive Answer where
  | ok
  | full
  | closed
  deriving DecidableEq, Repr

/-- Where the loop is: it has not yet sent its own trigger, is in `recv`, has received a message
and drains the channel, has found it empty, or scans. A loop that has ended has dropped its
receiver. -/
inductive Phase where
  | spawned
  | waiting
  | received
  | drained
  | scanning
  | stopped
  deriving DecidableEq, Repr

/-- The messages in the channel, and where the loop is. -/
structure Loop where
  queued : ℕ
  phase : Phase
  deriving DecidableEq, Repr

/-- The first tick of the poller is skipped. -/
inductive Poller where
  | skipping
  | polling
  | exited
  deriving DecidableEq, Repr

structure State extends Loop where
  hasSenders : Bool
  watching : Bool
  poller : Poller
  deriving DecidableEq, Repr

/-- The capacity of the channel. -/
def capacity : ℕ := 1

/-- A server that has been set up, with or without scanning, a watcher and a poller. -/
def State.start (noScan watching polling : Bool) : State where
  queued := 0
  phase := if noScan then .stopped else .spawned
  hasSenders := true
  watching := !noScan && watching
  poller := if !noScan && polling then .skipping else .exited

inductive Output where
  | answered (answer : Answer)
  | scanStarted
  | scanFinished (isOk : Bool)
  deriving DecidableEq, Repr

/-- The steps of the tasks. A batch from the debouncer has events or errors. The last senders go
away when the server shuts down, and the loop ends without more ado when its task is aborted. -/
inductive Event where
  | initialTrigger
  | watcherBatch (batch : Except ℕ ℕ)
  | pollerTick
  | adminRescan
  | recv
  | tryRecv
  | startScan
  | finishScan (isOk : Bool)
  | dropSenders
  | abort
  deriving DecidableEq, Repr

section Steps

variable (state : State)

/-- `try_send`. -/
def trySend : Answer × State :=
  if state.phase = .stopped then (.closed, state)
  else if state.queued < capacity then (.ok, { state with queued := state.queued + 1 })
  else (.full, state)

/-- A message is tried to be sent, and the answer leads to a change of the task that sends. -/
def triggerThen (next : Answer → State → State) : Option Output × State :=
  if state.hasSenders then
    let sent := trySend state
    (some (.answered sent.1), next sent.1 sent.2)
  else (none, state)

/-- The start of the task in `spawn_loop`, which ignores the answer. -/
def initialTrigger : Option Output × State :=
  if state.phase = .spawned then
    triggerThen state fun _ sent ↦ { sent with phase := .waiting }
  else (none, state)

/-- A batch that reaches the thread in `watcher::spawn`. -/
def watcherBatch (batch : Except ℕ ℕ) : Option Output × State :=
  match state.watching, batch with
  | true, .ok (_ + 1) => triggerThen state fun answer sent ↦
    if answer = .closed then { sent with watching := false } else sent
  | _, _ => (none, state)

/-- A tick in `poller::spawn`. -/
def pollerTick : Option Output × State :=
  match state.poller with
  | .skipping => (none, { state with poller := .polling })
  | .polling => triggerThen state fun answer sent ↦
    if answer = .closed then { sent with poller := .exited } else sent
  | .exited => (none, state)

/-- `admin_rescan`. -/
def adminRescan : Option Output × State := triggerThen state fun _ sent ↦ sent

/-- The status and the text with which `admin_rescan` passes the answer on. -/
def Answer.response : Answer → ℕ × String
  | .ok => (202, "rescan queued\n")
  | .full => (202, "rescan already pending\n")
  | .closed => (503, "scanner unavailable\n")

/-- `recv`, which waits for a message as long as there are senders. -/
def recv : Option Output × State :=
  if state.phase = .waiting then
    match state.queued with
    | queued + 1 => (none, { state with queued := queued, phase := .received })
    | 0 => if state.hasSenders then (none, state) else (none, { state with phase := .stopped })
  else (none, state)

/-- `try_recv`, again and again until the channel is empty. -/
def tryRecv : Option Output × State :=
  if state.phase = .received then
    match state.queued with
    | queued + 1 => (none, { state with queued := queued })
    | 0 => (none, { state with phase := .drained })
  else (none, state)

def startScan : Option Output × State :=
  if state.phase = .drained then (some .scanStarted, { state with phase := .scanning })
  else (none, state)

/-- The end of a scan. An error is logged. -/
def finishScan (isOk : Bool) : Option Output × State :=
  if state.phase = .scanning then (some (.scanFinished isOk), { state with phase := .waiting })
  else (none, state)

/-- The loop's initial sender is dropped when it has sent. -/
def dropSenders : Option Output × State :=
  if state.phase = .spawned then (none, state) else (none, { state with hasSenders := false })

def abort : Option Output × State := (none, { state with queued := 0, phase := .stopped })

def act : Event → Option Output × State
  | .initialTrigger => initialTrigger state
  | .watcherBatch batch => watcherBatch state batch
  | .pollerTick => pollerTick state
  | .adminRescan => adminRescan state
  | .recv => recv state
  | .tryRecv => tryRecv state
  | .startScan => startScan state
  | .finishScan isOk => finishScan state isOk
  | .dropSenders => dropSenders state
  | .abort => abort state

def step (state : State) (event : Event) : State := (act state event).2

def output (state : State) (event : Event) : Option Output := (act state event).1

end Steps

/-! ## Moves -/

/-- What one step does to the channel and the loop. -/
inductive Move : Loop → Option Output → Loop → Prop
  | idle (loop : Loop) : Move loop none loop
  | sent {phase next : Phase} (halive : phase ≠ .stopped)
      (hnext : next = phase ∨ phase = .spawned ∧ next = .waiting) :
      Move ⟨0, phase⟩ (some (.answered .ok)) ⟨1, next⟩
  | full {queued : ℕ} {phase next : Phase} (hqueued : 0 < queued) (halive : phase ≠ .stopped)
      (hnext : next = phase ∨ phase = .spawned ∧ next = .waiting) :
      Move ⟨queued, phase⟩ (some (.answered .full)) ⟨queued, next⟩
  | closed (queued : ℕ) : Move ⟨queued, .stopped⟩ (some (.answered .closed)) ⟨queued, .stopped⟩
  | receive (queued : ℕ) : Move ⟨queued + 1, .waiting⟩ none ⟨queued, .received⟩
  | drain (queued : ℕ) : Move ⟨queued + 1, .received⟩ none ⟨queued, .received⟩
  | drained : Move ⟨0, .received⟩ none ⟨0, .drained⟩
  | start (queued : ℕ) : Move ⟨queued, .drained⟩ (some .scanStarted) ⟨queued, .scanning⟩
  | finish (queued : ℕ) (isOk : Bool) :
      Move ⟨queued, .scanning⟩ (some (.scanFinished isOk)) ⟨queued, .waiting⟩
  | stop (loop : Loop) : Move loop none ⟨0, .stopped⟩

variable {state : State} {loop next : Loop} {out : Option Output}

theorem trySend_move (hqueued : next.queued = (trySend state).2.queued)
    (hphase : next.phase = state.phase ∨ state.phase = .spawned ∧ next.phase = .waiting) :
    Move state.toLoop (some (.answered (trySend state).1)) next := by
  obtain ⟨⟨queued, phase⟩, hasSenders, watching, poller⟩ := state
  obtain ⟨nextQueued, nextPhase⟩ := next
  unfold trySend at hqueued ⊢
  dsimp only at hqueued hphase ⊢
  by_cases hstopped : phase = .stopped
  · subst hstopped
    obtain rfl : nextPhase = .stopped := by simpa using hphase
    rw [if_pos rfl] at hqueued ⊢
    rw [hqueued]
    exact .closed queued
  · rw [if_neg hstopped] at hqueued ⊢
    by_cases hroom : queued < capacity
    · obtain rfl : queued = 0 := Nat.lt_one_iff.mp hroom
      rw [if_pos hroom] at hqueued ⊢
      rw [hqueued]
      exact .sent hstopped hphase
    · rw [if_neg hroom] at hqueued ⊢
      rw [hqueued]
      exact .full (Nat.lt_of_lt_of_le Nat.one_pos (Nat.le_of_not_lt hroom)) hstopped hphase

theorem trySend_phase (state : State) : (trySend state).2.phase = state.phase := by
  unfold trySend
  split
  · rfl
  · split <;> rfl

theorem triggerThen_move {after : Answer → State → State}
    (hafter : ∀ answer sent, (after answer sent).toLoop = sent.toLoop) :
    Move state.toLoop (triggerThen state after).1 (triggerThen state after).2.toLoop := by
  unfold triggerThen
  split
  · dsimp only
    rw [hafter]
    exact trySend_move rfl (.inl (trySend_phase state))
  · exact .idle _

theorem initialTrigger_move (state : State) :
    Move state.toLoop (initialTrigger state).1 (initialTrigger state).2.toLoop := by
  unfold initialTrigger
  split
  · next hspawned =>
    unfold triggerThen
    split
    · exact trySend_move rfl (.inr ⟨hspawned, rfl⟩)
    · exact .idle _
  · exact .idle _

theorem watcherBatch_move (state : State) (batch : Except ℕ ℕ) :
    Move state.toLoop (watcherBatch state batch).1 (watcherBatch state batch).2.toLoop := by
  unfold watcherBatch
  split
  · exact triggerThen_move fun answer sent ↦ by split <;> rfl
  · exact .idle _

theorem pollerTick_move (state : State) :
    Move state.toLoop (pollerTick state).1 (pollerTick state).2.toLoop := by
  unfold pollerTick
  split
  · exact .idle _
  · exact triggerThen_move fun answer sent ↦ by split <;> rfl
  · exact .idle _

theorem recv_move (state : State) : Move state.toLoop (recv state).1 (recv state).2.toLoop := by
  obtain ⟨⟨queued, phase⟩, hasSenders, watching, poller⟩ := state
  unfold recv
  split
  · next hphase =>
    obtain rfl := hphase
    cases queued with
    | zero =>
      cases hasSenders with
      | true => exact .idle _
      | false => exact .stop _
    | succ queued => exact .receive queued
  · exact .idle _

theorem tryRecv_move (state : State) :
    Move state.toLoop (tryRecv state).1 (tryRecv state).2.toLoop := by
  obtain ⟨⟨queued, phase⟩, hasSenders, watching, poller⟩ := state
  unfold tryRecv
  split
  · next hphase =>
    obtain rfl := hphase
    cases queued with
    | zero => exact .drained
    | succ queued => exact .drain queued
  · exact .idle _

theorem startScan_move (state : State) :
    Move state.toLoop (startScan state).1 (startScan state).2.toLoop := by
  obtain ⟨⟨queued, phase⟩, hasSenders, watching, poller⟩ := state
  unfold startScan
  split
  · next hphase =>
    obtain rfl := hphase
    exact .start queued
  · exact .idle _

theorem finishScan_move (state : State) (isOk : Bool) :
    Move state.toLoop (finishScan state isOk).1 (finishScan state isOk).2.toLoop := by
  obtain ⟨⟨queued, phase⟩, hasSenders, watching, poller⟩ := state
  unfold finishScan
  split
  · next hphase =>
    obtain rfl := hphase
    exact .finish queued isOk
  · exact .idle _

theorem dropSenders_move (state : State) :
    Move state.toLoop (dropSenders state).1 (dropSenders state).2.toLoop := by
  unfold dropSenders
  split <;> exact .idle _

theorem step_move (state : State) (event : Event) :
    Move state.toLoop (output state event) (step state event).toLoop := by
  cases event with
  | initialTrigger => exact initialTrigger_move state
  | watcherBatch batch => exact watcherBatch_move state batch
  | pollerTick => exact pollerTick_move state
  | adminRescan => exact triggerThen_move fun _ _ ↦ rfl
  | recv => exact recv_move state
  | tryRecv => exact tryRecv_move state
  | startScan => exact startScan_move state
  | finishScan isOk => exact finishScan_move state isOk
  | dropSenders => exact dropSenders_move state
  | abort => exact .stop _

/-- The scans that the messages in the channel and a message already received will lead to. -/
def Loop.owed (loop : Loop) : ℕ :=
  loop.queued + if loop.phase = .received ∨ loop.phase = .drained then 1 else 0

/-- The scan that runs, or that may have been cut off. -/
def Loop.running (loop : Loop) : ℕ :=
  if loop.phase = .scanning ∨ loop.phase = .stopped then 1 else 0

def isFinished : Output → Bool
  | .scanFinished _ => true
  | _ => false

/-- Every message that was accepted leads to at most one scan, and a scan starts when the one before
it has finished. -/
structure Accounted (loop : Loop) (outs : List Output) : Prop where
  queued_le : loop.queued ≤ capacity
  starts_le : outs.count .scanStarted + loop.owed ≤ outs.count (.answered .ok)
  scans_le : outs.count .scanStarted ≤ outs.countP isFinished + loop.running

theorem Move.queued_le (hmove : Move loop out next) (h : loop.queued ≤ capacity) :
    next.queued ≤ capacity := by
  cases hmove with
  | sent => exact Nat.le_refl 1
  | stop => exact Nat.zero_le _
  | receive => exact Nat.le_of_succ_le h
  | drain => exact Nat.le_of_succ_le h
  | idle => exact h
  | full => exact h
  | closed => exact h
  | drained => exact h
  | start => exact h
  | finish => exact h

/-- What starts a scan is owed one, and what is owed comes from a message that was accepted. -/
theorem Move.owed_le (hmove : Move loop out next) :
    out.toList.count .scanStarted + next.owed ≤ out.toList.count (.answered .ok) + loop.owed := by
  cases hmove with
  | sent halive hnext =>
    rcases hnext with rfl | ⟨rfl, rfl⟩
    · simp [Loop.owed]
    · simp [Loop.owed]
  | full hpos halive hnext =>
    rcases hnext with rfl | ⟨rfl, rfl⟩
    · simp
    · simp [Loop.owed]
  | drain queued => simp [Loop.owed]
  | start queued => simp [Loop.owed, Nat.add_comm]
  | stop => simp [Loop.owed]
  | idle => simp
  | closed queued => simp
  | receive queued => simp [Loop.owed]
  | drained => simp [Loop.owed]
  | finish queued isOk => simp [Loop.owed]

theorem Move.running_le (hmove : Move loop out next) :
    out.toList.count .scanStarted + loop.running ≤ out.toList.countP isFinished + next.running := by
  cases hmove with
  | sent halive hnext =>
    rcases hnext with rfl | ⟨rfl, rfl⟩
    · simp [Loop.running]
    · simp [Loop.running]
  | full hpos halive hnext =>
    rcases hnext with rfl | ⟨rfl, rfl⟩
    · simp [Loop.running]
    · simp [Loop.running]
  | stop =>
    simp only [Loop.running, Option.toList_none, List.count_nil, List.countP_nil]
    split <;> simp
  | start queued => simp [Loop.running]
  | finish queued isOk => simp [Loop.running, isFinished]
  | idle => simp
  | closed queued => simp
  | receive queued => simp [Loop.running]
  | drain queued => simp [Loop.running]
  | drained => simp [Loop.running]

theorem Move.accounted {outs : List Output} (hmove : Move loop out next)
    (h : Accounted loop outs) : Accounted next (outs ++ out.toList) := by
  have howed := hmove.owed_le
  have hrunning := hmove.running_le
  obtain ⟨hqueued, hstarts, hscans⟩ := h
  refine ⟨hmove.queued_le hqueued, ?_, ?_⟩
  · rw [List.count_append, List.count_append]
    omega
  · rw [List.count_append, List.countP_append]
    omega

theorem start_accounted (noScan watching polling : Bool) :
    Accounted (State.start noScan watching polling).toLoop [] := by
  cases noScan with
  | false => exact ⟨Nat.zero_le _, Nat.le_refl _, Nat.le_refl _⟩
  | true => exact ⟨Nat.zero_le _, Nat.le_refl _, Nat.zero_le _⟩

/-- A scan is still to be started: there is a message, or one has been received since the last scan
started. -/
def Loop.Pending (loop : Loop) : Prop :=
  0 < loop.queued ∨ loop.phase = .received ∨ loop.phase = .drained

/-- Whoever is answered that a message was accepted, or that there is one, leaves a scan pending. -/
theorem Move.pending_of_answered {answer : Answer} (hmove : Move loop (some (.answered answer)) next)
    (hanswer : answer ≠ .closed) : next.Pending := by
  cases hmove with
  | sent => exact .inl Nat.one_pos
  | full hpos => exact .inl hpos
  | closed => exact absurd rfl hanswer

theorem Move.alive (hmove : Move loop out next) (halive : next.phase ≠ .stopped) :
    loop.phase ≠ .stopped := by
  cases hmove with
  | sent hphase => exact hphase
  | full _ hphase => exact hphase
  | stop => exact absurd rfl halive
  | closed => exact halive
  | idle => exact halive
  | receive => simp
  | drain => simp
  | drained => simp
  | start => simp
  | finish => simp

/-- As long as the loop is alive, a pending scan stays pending until one starts. -/
theorem Move.pending (hmove : Move loop out next) (h : loop.Pending)
    (halive : next.phase ≠ .stopped) : out = some .scanStarted ∨ next.Pending := by
  cases hmove with
  | idle => exact .inr h
  | sent => exact .inr (.inl Nat.one_pos)
  | full hpos => exact .inr (.inl hpos)
  | closed => exact absurd rfl halive
  | receive => exact .inr (.inr (.inl rfl))
  | drain => exact .inr (.inr (.inl rfl))
  | drained => exact .inr (.inr (.inr rfl))
  | start => exact .inl rfl
  | finish =>
    rcases h with hpos | hphase | hphase
    · exact .inr (.inl hpos)
    · cases hphase
    · cases hphase
  | stop => exact absurd rfl halive

/-- A scan that is pending has been started, or is pending still. -/
theorem run_pending {events : List Event} (h : state.Pending)
    (halive : (Machine.run step state events).phase ≠ .stopped) :
    .scanStarted ∈ Machine.outputs step output state events ∨
      (Machine.run step state events).Pending := by
  induction events using List.reverseRecOn with
  | nil => exact .inr h
  | append_singleton events event ih =>
    rw [Machine.run_snoc] at halive ⊢
    rw [Machine.outputs_append, List.mem_append]
    have hmove := step_move (Machine.run step state events) event
    rcases ih (hmove.alive halive) with hstarted | hpending
    · exact .inl (.inl hstarted)
    · refine (hmove.pending hpending halive).imp_left fun hstarted ↦ .inr ?_
      simp [Machine.outputs, hstarted]

/-- **No rescan is lost.** In every order of the steps: the channel holds at most one message, a
scan starts only when the one before it has finished, there are no more scans than messages
accepted, and a trigger that was told its message was accepted, or that one was pending already, is
followed by a scan that started after it or leaves one pending. -/
theorem no_lost_rescan (noScan watching polling : Bool) (events : List Event) :
    let start := State.start noScan watching polling
    let state := Machine.run step start events
    let outs := Machine.outputs step output start events
    state.queued ≤ 1 ∧
    outs.count .scanStarted ≤ outs.countP isFinished + 1 ∧
    outs.count .scanStarted ≤ outs.count (.answered .ok) ∧
    ∀ before trigger after, events = before ++ trigger :: after →
      (output (Machine.run step start before) trigger = some (.answered .ok) ∨
        output (Machine.run step start before) trigger = some (.answered .full)) →
      state.phase ≠ .stopped →
      .scanStarted ∈
          Machine.outputs step output (Machine.run step start (before ++ [trigger])) after ∨
        0 < state.queued ∨ state.phase = .received ∨ state.phase = .drained := by
  intro start state outs
  have hstep (state : State) (outs : List Output) (event : Event)
      (h : Accounted state.toLoop outs) :
      Accounted (step state event).toLoop (outs ++ (output state event).toList) :=
    (step_move state event).accounted h
  have haccounted : Accounted state.toLoop outs :=
    Machine.run_outputs_invariant hstep events (start_accounted noScan watching polling)
  have hrunning : state.toLoop.running ≤ 1 := by
    unfold Loop.running
    split <;> simp
  refine ⟨haccounted.queued_le, haccounted.scans_le.trans (Nat.add_le_add_left hrunning _),
    Nat.le_of_add_right_le haccounted.starts_le, ?_⟩
  intro before trigger after hevents hanswered halive
  have hstate : state =
      Machine.run step (Machine.run step start (before ++ [trigger])) after := by
    rw [← Machine.run_append, List.append_assoc, List.singleton_append, ← hevents]
  have hmove := step_move (Machine.run step start before) trigger
  rw [← Machine.run_snoc step] at hmove
  have hpending : (Machine.run step start (before ++ [trigger])).Pending := by
    rcases hanswered with hok | hfull
    · rw [hok] at hmove
      exact hmove.pending_of_answered (by decide)
    · rw [hfull] at hmove
      exact hmove.pending_of_answered (by decide)
  rw [hstate] at halive ⊢
  exact run_pending hpending halive

end ComicStream.Server.ScanLoop
