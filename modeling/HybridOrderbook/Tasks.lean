import HybridOrderbook.Library.Run
import HybridOrderbook.Publishing

namespace HybridOrderbook.Preconf

open Library

/-!
# The tasks of a block proposal

The loop of `propose_with` runs beside two tasks that it spawned.  One sleeps
until the deadline of the block and then cancels a token that the others
watch.  The other sends a signal at every tick of an interval, through a
channel that holds one signal.

An event is what one of them does next, or that time passes, and a run is any
order of events.  Time is in microseconds.
-/

/-- The task that cancels the token at the deadline. -/
inductive CancelTask where
  | spawned
  | sleeping
  | ended
  deriving Repr, DecidableEq

/-- The task that sends signals, and when its interval ticks next. -/
inductive IntervalTask where
  | spawned
  | waiting (next : Nat)
  | sending (next : Nat)
  | ended
  deriving Repr, DecidableEq

/-- Where `propose_with` is. -/
inductive MainTask (ε : Type) where
  -- it waits for the ready transactions
  | fetching
  | selecting
  -- it has a signal
  | received
  | building (now : Nat) (sub : SubBlock ε) (channelOpen : Bool)
  | left (outcome : Except (Fault (ProposeError ε)) Unit)

/-- What the tasks share, and where each of them is. -/
structure Tasks (Tx Hash BlockHash ε : Type) where
  clock : Nat
  -- the token
  cancelled : Bool
  canceller : CancelTask
  interval : IntervalTask
  -- the signals in the channel
  signals : Nat
  main : MainTask ε
  proposal : Proposal Tx Hash BlockHash ε
  -- what the loop has selected and dealt with
  selected : List (Selected ε)

/-- What happens next. -/
inductive TaskEvent (ε : Type) where
  | pass (micros : Nat)
  | canceller
  -- the interval task takes one of the branches it selects from
  | interval (cancelled : Bool)
  | fetch
  | selectCancelled
  | receive
  | begin (sub : SubBlock ε) (channelOpen : Bool)
  | build

variable {Tx Hash BlockHash ε : Type}

/-- `propose_with` has returned, and the channel has no receiver. -/
def MainTask.isLeft : MainTask ε → Bool
  | .left _ => true
  | _ => false

/-- What the loop has come to; as long as it goes on it waits. -/
def MainTask.outcome : MainTask ε → Except (Fault (ProposeError ε)) Unit
  | .left outcome => outcome
  | _ => .error .diverge

theorem MainTask.outcome_of_inLoop
    {main : MainTask ε}
    (inLoop : main.isLeft = false) : main.outcome = .error .diverge := by
  cases main with
  | left outcome =>
      cases inLoop
  | _ =>
      rfl

theorem MainTask.left_of_outcome
    {main : MainTask ε}
    (returned : main.outcome = .ok ()) : main = .left (.ok ()) := by
  cases main with
  | left outcome =>
      exact congrArg MainTask.left returned
  | _ =>
      cases returned

/-- The interval of the signals. -/
def Proposer.period (proposer : Proposer Tx Hash BlockHash ε) : Nat :=
  proposer.preconfBlockTime * 1000

namespace Tasks

/-- The tasks right after they were spawned. -/
def spawn
    (clock : Nat)
    (proposal : Proposal Tx Hash BlockHash ε) :
    Tasks Tx Hash BlockHash ε where
  clock := clock
  cancelled := false
  canceller := .spawned
  interval := .spawned
  signals := 0
  main := .fetching
  proposal := proposal
  selected := []

/-- The next step of the task that cancels; past the deadline it does not. -/
def stepCanceller
    (deadline : Nat)
    (tasks : Tasks Tx Hash BlockHash ε) : Option (Tasks Tx Hash BlockHash ε) :=
  match tasks.canceller with
  | .spawned =>
      some { tasks with
        canceller := if tasks.clock < deadline then .sleeping else .ended }
  | .sleeping =>
      if deadline ≤ tasks.clock then
        some { tasks with canceller := .ended, cancelled := true }
      else
        none
  | .ended => none

/--
The next step of the task that sends signals.  Ticks that were missed are
made up for, the first one is due at once, and an interval of zero panics.
-/
def stepInterval
    (period : Nat)
    (cancelled : Bool)
    (tasks : Tasks Tx Hash BlockHash ε) : Option (Tasks Tx Hash BlockHash ε) :=
  match tasks.interval with
  | .spawned =>
      some { tasks with
        interval := if period = 0 then .ended else .waiting tasks.clock }
  | .waiting next =>
      if cancelled then
        if tasks.cancelled then some { tasks with interval := .ended } else none
      else if next ≤ tasks.clock then
        some { tasks with interval := .sending (next + period) }
      else
        none
  | .sending next =>
      if tasks.main.isLeft then
        some { tasks with interval := .ended }
      else if tasks.signals < 1 then
        some { tasks with
          interval := .waiting next
          signals := tasks.signals + 1 }
      else
        none
  | .ended => none

/-- Take what is in the channel; it is closed once its sender is dropped. -/
def stepReceive (tasks : Tasks Tx Hash BlockHash ε) :
    Option (Tasks Tx Hash BlockHash ε) :=
  if 0 < tasks.signals then
    some { tasks with main := .received, signals := tasks.signals - 1 }
  else if tasks.interval = .ended then
    some { tasks with
      main := .left (.ok ())
      selected := tasks.selected ++ [.closed] }
  else
    none

variable (proposer : Proposer Tx Hash BlockHash ε) (deadline : Nat)

/-- Finish the sub-block that was begun. -/
def stepBuild
    (now : Nat)
    (sub : SubBlock ε)
    (channelOpen : Bool)
    (tasks : Tasks Tx Hash BlockHash ε) : Tasks Tx Hash BlockHash ε :=
  let built := proposer.onSignal (proposer.timed deadline now sub) channelOpen
    tasks.proposal
  { tasks with
    main :=
      match built.1 with
      | .ok () => .selecting
      | .error fault => .left (.error fault)
    proposal := built.2
    selected := tasks.selected ++ [.signal now sub channelOpen] }

/-- One event. -/
def step
    (event : TaskEvent ε)
    (tasks : Tasks Tx Hash BlockHash ε) :
    Option (Tasks Tx Hash BlockHash ε) :=
  match event, tasks.main with
  | .pass micros, _ => some { tasks with clock := tasks.clock + micros }
  | .canceller, _ => tasks.stepCanceller deadline
  | .interval cancelled, _ => tasks.stepInterval proposer.period cancelled
  | .fetch, .fetching => some { tasks with main := .selecting }
  | .selectCancelled, .selecting =>
      if tasks.cancelled then
        some { tasks with
          main := .left (.ok ())
          selected := tasks.selected ++ [.cancelled] }
      else
        none
  | .receive, .selecting => tasks.stepReceive
  | .begin sub channelOpen, .received =>
      some { tasks with main := .building tasks.clock sub channelOpen }
  | .build, .building now sub channelOpen =>
      some (tasks.stepBuild proposer deadline now sub channelOpen)
  | _, _ => none

/-- What an event does. -/
inductive Effect
    (proposer : Proposer Tx Hash BlockHash ε)
    (deadline : Nat)
    (event : TaskEvent ε)
    (tasks : Tasks Tx Hash BlockHash ε) : Tasks Tx Hash BlockHash ε → Prop where
  | passed (micros : Nat) :
      Effect proposer deadline event tasks
        { tasks with clock := tasks.clock + micros }
  | sleeps
      (spawned : tasks.canceller = .spawned)
      (early : tasks.clock < deadline) :
      Effect proposer deadline event tasks { tasks with canceller := .sleeping }
  | givesUp
      (spawned : tasks.canceller = .spawned)
      (late : deadline ≤ tasks.clock) :
      Effect proposer deadline event tasks { tasks with canceller := .ended }
  | cancels
      (sleeping : tasks.canceller = .sleeping)
      (late : deadline ≤ tasks.clock) :
      Effect proposer deadline event tasks
        { tasks with canceller := .ended, cancelled := true }
  | panics
      (spawned : tasks.interval = .spawned)
      (zero : proposer.period = 0) :
      Effect proposer deadline event tasks { tasks with interval := .ended }
  | starts
      (spawned : tasks.interval = .spawned)
      (positive : 0 < proposer.period) :
      Effect proposer deadline event tasks
        { tasks with interval := .waiting tasks.clock }
  | stops
      {next : Nat}
      (waiting : tasks.interval = .waiting next)
      (cancelled : tasks.cancelled = true) :
      Effect proposer deadline event tasks { tasks with interval := .ended }
  | ticks
      {next : Nat}
      (waiting : tasks.interval = .waiting next)
      (due : next ≤ tasks.clock) :
      Effect proposer deadline event tasks
        { tasks with interval := .sending (next + proposer.period) }
  | orphaned
      {next : Nat}
      (sending : tasks.interval = .sending next)
      (isLeft : tasks.main.isLeft = true) :
      Effect proposer deadline event tasks { tasks with interval := .ended }
  | sends
      {next : Nat}
      (sending : tasks.interval = .sending next)
      (inLoop : tasks.main.isLeft = false)
      (empty : tasks.signals = 0) :
      Effect proposer deadline event tasks
        { tasks with interval := .waiting next, signals := 1 }
  | fetched (fetching : tasks.main = .fetching) :
      Effect proposer deadline event tasks { tasks with main := .selecting }
  | leaves
      (selecting : tasks.main = .selecting)
      (cancelled : tasks.cancelled = true) :
      Effect proposer deadline event tasks
        { tasks with
          main := .left (.ok ())
          selected := tasks.selected ++ [.cancelled] }
  | closes
      (selecting : tasks.main = .selecting)
      (ended : tasks.interval = .ended) :
      Effect proposer deadline event tasks
        { tasks with
          main := .left (.ok ())
          selected := tasks.selected ++ [.closed] }
  | receives
      {left : Nat}
      (selecting : tasks.main = .selecting)
      (signals : tasks.signals = left + 1) :
      Effect proposer deadline event tasks
        { tasks with main := .received, signals := left }
  | begins
      (sub : SubBlock ε)
      (channelOpen : Bool)
      (received : tasks.main = .received) :
      Effect proposer deadline event tasks
        { tasks with main := .building tasks.clock sub channelOpen }
  | builds
      {now : Nat}
      {sub : SubBlock ε}
      {channelOpen : Bool}
      (happened : event = .build)
      (building : tasks.main = .building now sub channelOpen) :
      Effect proposer deadline event tasks
        (tasks.stepBuild proposer deadline now sub channelOpen)

variable {proposer deadline} {event : TaskEvent ε}
  {tasks next : Tasks Tx Hash BlockHash ε}

theorem effect_of_stepCanceller
    (stepped : tasks.stepCanceller deadline = some next) :
    Effect proposer deadline event tasks next := by
  unfold stepCanceller at stepped
  split at stepped
  · rename_i spawned
    cases stepped
    by_cases early : tasks.clock < deadline
    · rw [if_pos early]
      exact .sleeps spawned early
    · rw [if_neg early]
      exact .givesUp spawned (Nat.le_of_not_lt early)
  · rename_i sleeping
    split at stepped
    · cases stepped
      exact .cancels sleeping ‹_›
    · cases stepped
  · cases stepped

theorem effect_of_stepInterval
    {cancelled : Bool}
    (stepped : tasks.stepInterval proposer.period cancelled = some next) :
    Effect proposer deadline event tasks next := by
  unfold stepInterval at stepped
  split at stepped
  · rename_i spawned
    cases stepped
    by_cases zero : proposer.period = 0
    · rw [if_pos zero]
      exact .panics spawned zero
    · rw [if_neg zero]
      exact .starts spawned (Nat.pos_of_ne_zero zero)
  · rename_i waiting
    split at stepped
    · split at stepped
      · cases stepped
        exact .stops waiting ‹_›
      · cases stepped
    · split at stepped
      · cases stepped
        exact .ticks waiting ‹_›
      · cases stepped
  · rename_i sending
    split at stepped
    · cases stepped
      exact .orphaned sending ‹_›
    · rename_i inLoop
      split at stepped
      · rename_i room
        have empty : tasks.signals = 0 := Nat.lt_one_iff.mp room
        cases stepped
        rw [empty]
        exact .sends sending (Bool.eq_false_iff.mpr inLoop) empty
      · cases stepped
  · cases stepped

theorem effect_of_stepReceive
    (selecting : tasks.main = .selecting)
    (stepped : tasks.stepReceive = some next) :
    Effect proposer deadline event tasks next := by
  unfold stepReceive at stepped
  split at stepped
  · rename_i some
    obtain ⟨left, signals⟩ := Nat.exists_eq_succ_of_ne_zero some.ne'
    rw [signals, Nat.succ_sub_one] at stepped
    cases stepped
    exact .receives selecting signals
  · split at stepped
    · cases stepped
      exact .closes selecting ‹_›
    · cases stepped

theorem effect_of_step
    (stepped : tasks.step proposer deadline event = some next) :
    Effect proposer deadline event tasks next := by
  unfold step at stepped
  split at stepped
  · cases stepped
    exact .passed _
  · exact effect_of_stepCanceller stepped
  · exact effect_of_stepInterval stepped
  · cases stepped
    exact .fetched ‹_›
  · split at stepped
    · cases stepped
      exact .leaves ‹_› ‹_›
    · cases stepped
  · exact effect_of_stepReceive ‹_› stepped
  · cases stepped
    exact .begins _ _ ‹_›
  · cases stepped
    exact .builds rfl ‹_›
  · cases stepped

end Tasks

section Loop

variable {proposer : Proposer Tx Hash BlockHash ε} {deadline : Nat}
  {start : Proposal Tx Hash BlockHash ε}

/-- A loop that is waiting goes on with whatever is selected next. -/
theorem proposeLoop_append
    {selected : List (Selected ε)}
    {state reached : Proposal Tx Hash BlockHash ε}
    (waits :
      proposer.proposeLoop deadline selected state =
        (.error .diverge, reached))
    (rest : List (Selected ε)) :
    proposer.proposeLoop deadline (selected ++ rest) state =
      proposer.proposeLoop deadline rest reached := by
  induction selected generalizing state with
  | nil =>
      cases waits
      rfl
  | cons event later inductionHypothesis =>
      cases event with
      | cancelled =>
          cases waits
      | closed =>
          cases waits
      | signal now sub channelOpen =>
          simp only [List.cons_append, Proposer.proposeLoop, Proc.bind_apply]
            at waits ⊢
          cases built : proposer.onSignal (proposer.timed deadline now sub)
              channelOpen state with
          | mk outcome next =>
              rw [built] at waits
              cases outcome with
              | ok value =>
                  exact inductionHypothesis waits
              | error fault =>
                  -- a sub-block that fails does not wait
                  unfold Proposer.onSignal at built
                  split at built
                  · cases built
                    cases waits
                  · cases built

/-- Nothing is published before the first signal. -/
theorem published_of_startProposal
    {authoring : Authoring Tx ε}
    (started : proposer.startProposal authoring = .ok start) :
    ∃ inherents pushed,
      authoring.inherents = some inherents ∧
        proposer.applyInherents authoring.wasMandatory inherents [] =
          .ok pushed ∧
        Published proposer pushed start := by
  obtain ⟨inherents, pushed, given, applied, rfl⟩ :=
    startProposal_eq_ok started
  exact ⟨inherents, pushed, given, applied,
    ⟨(List.append_nil pushed).symm, nofun, .nil, nofun⟩⟩

/-- The loop has done what it does alone on what was selected. -/
structure Tasks.Follows
    (proposer : Proposer Tx Hash BlockHash ε)
    (deadline : Nat)
    (start : Proposal Tx Hash BlockHash ε)
    (tasks : Tasks Tx Hash BlockHash ε) : Prop where
  loop :
    proposer.proposeLoop deadline tasks.selected start =
      (tasks.main.outcome, tasks.proposal)
  late : tasks.cancelled = true → deadline ≤ tasks.clock
  ended :
    tasks.interval = .ended →
      proposer.period = 0 ∨ tasks.cancelled = true ∨ tasks.main.isLeft = true
  left :
    tasks.main = .left (.ok ()) →
      proposer.period = 0 ∨ tasks.cancelled = true

namespace Tasks.Follows

variable {event : TaskEvent ε} {tasks next : Tasks Tx Hash BlockHash ε}

theorem spawn (clock : Nat) :
    Tasks.Follows proposer deadline start (.spawn clock start) where
  loop := rfl
  late := nofun
  ended := nofun
  left := nofun

/-- Selecting an event that ends the loop. -/
theorem selects
    (follows : tasks.Follows proposer deadline start)
    (selecting : tasks.main = .selecting)
    (event : Selected ε)
    (ends :
      proposer.proposeLoop deadline [event] tasks.proposal =
        (.ok (), tasks.proposal)) :
    proposer.proposeLoop deadline (tasks.selected ++ [event]) start =
      (.ok (), tasks.proposal) := by
  have waits := follows.loop
  rw [selecting] at waits
  rw [proposeLoop_append waits, ends]

theorem ended_of_inLoop
    (follows : tasks.Follows proposer deadline start)
    (inLoop : tasks.main.isLeft = false)
    (ended : tasks.interval = .ended) :
    proposer.period = 0 ∨ tasks.cancelled = true := by
  rcases follows.ended ended with zero | cancelled | isLeft
  · exact .inl zero
  · exact .inr cancelled
  · rw [inLoop] at isLeft
    cases isLeft

/-- Within the loop nothing is selected. -/
theorem moves
    (follows : tasks.Follows proposer deadline start)
    (inLoop : tasks.main.isLeft = false)
    {main : MainTask ε}
    (stays : main.isLeft = false)
    (signals : Nat) :
    Tasks.Follows proposer deadline start
      { tasks with main := main, signals := signals } where
  loop := by
    rw [follows.loop, MainTask.outcome_of_inLoop inLoop,
      MainTask.outcome_of_inLoop stays]
  late := follows.late
  ended ended := (follows.ended_of_inLoop inLoop ended).imp_right .inl
  left leaves := by
    have leaves : main = .left (.ok ()) := leaves
    rw [leaves] at stays
    cases stays

/-- Finishing a sub-block, whether the loop goes on or not. -/
theorem builds
    (follows : tasks.Follows proposer deadline start)
    {now : Nat}
    {sub : SubBlock ε}
    {channelOpen : Bool}
    (building : tasks.main = .building now sub channelOpen) :
    (tasks.stepBuild proposer deadline now sub channelOpen).Follows proposer
      deadline start := by
  have waits := follows.loop
  rw [building] at waits
  have inLoop : tasks.main.isLeft = false := by
    rw [building]
    rfl
  have built :
      proposer.proposeLoop deadline [.signal now sub channelOpen]
          tasks.proposal =
        ((tasks.stepBuild proposer deadline now sub channelOpen).main.outcome,
          (tasks.stepBuild proposer deadline now sub channelOpen).proposal) ∧
        (tasks.stepBuild proposer deadline now sub channelOpen).main ≠
          .left (.ok ()) := by
    rw [Proposer.proposeLoop, Proc.bind_apply, Tasks.stepBuild]
    rcases proposer.onSignal (proposer.timed deadline now sub) channelOpen
      tasks.proposal with ⟨fault | value, reached⟩
    · exact ⟨rfl, nofun⟩
    · exact ⟨rfl, nofun⟩
  exact
    { loop := (proposeLoop_append waits _).trans built.1
      late := follows.late
      ended := fun ended =>
        (follows.ended_of_inLoop inLoop ended).imp_right .inl
      left := fun leaves => absurd leaves built.2 }

theorem step
    (follows : tasks.Follows proposer deadline start)
    (effect : Tasks.Effect proposer deadline event tasks next) :
    next.Follows proposer deadline start := by
  cases effect with
  | passed micros =>
      exact { follows with
        late := fun cancelled => (follows.late cancelled).trans
          (Nat.le_add_right ..) }
  | sleeps spawned early =>
      exact { follows with }
  | givesUp spawned late =>
      exact { follows with }
  | cancels sleeping late =>
      exact { follows with
        late := fun _ => late
        ended := fun _ => .inr (.inl rfl)
        left := fun _ => .inr rfl }
  | panics spawned zero =>
      exact { follows with ended := fun _ => .inl zero }
  | starts spawned positive =>
      exact { follows with ended := nofun }
  | stops waiting cancelled =>
      exact { follows with ended := fun _ => .inr (.inl cancelled) }
  | ticks waiting due =>
      exact { follows with ended := nofun }
  | orphaned sending isLeft =>
      exact { follows with ended := fun _ => .inr (.inr isLeft) }
  | sends sending inLoop empty =>
      exact { follows with ended := nofun }
  | fetched fetching =>
      exact follows.moves (by rw [fetching]; rfl) rfl tasks.signals
  | leaves selecting cancelled =>
      exact
        { loop := follows.selects selecting _ rfl
          late := follows.late
          ended := fun _ => .inr (.inr rfl)
          left := fun _ => .inr cancelled }
  | closes selecting ended =>
      exact
        { loop := follows.selects selecting _ rfl
          late := follows.late
          ended := fun _ => .inr (.inr rfl)
          left := fun _ =>
            follows.ended_of_inLoop (by rw [selecting]; rfl) ended }
  | receives selecting signals =>
      exact follows.moves (by rw [selecting]; rfl) rfl _
  | begins sub channelOpen received =>
      exact follows.moves (by rw [received]; rfl) rfl tasks.signals
  | builds _ building =>
      exact follows.builds building

end Tasks.Follows

/-- What was published is in the block, at every moment. -/
theorem Tasks.Follows.published
    {tasks : Tasks Tx Hash BlockHash ε}
    (follows : tasks.Follows proposer deadline start)
    (sound : ∀ fault, tasks.main ≠ .left (.error fault))
    {inherents : List Tx}
    (initial : Published proposer inherents start) :
    Published proposer inherents tasks.proposal := by
  have ends : ∃ selected,
      proposer.proposeLoop deadline selected start =
        (.ok (), tasks.proposal) := by
    cases main : tasks.main with
    | left outcome =>
        cases outcome with
        | ok value =>
            have loop := follows.loop
            rw [main] at loop
            exact ⟨_, loop⟩
        | error fault =>
            exact absurd main (sound fault)
    | _ =>
        -- the loop is waiting, and cancelling it now ends it
        have loop := follows.loop
        rw [main] at loop
        exact ⟨_, proposeLoop_append loop [.cancelled]⟩
  obtain ⟨selected, looped⟩ := ends
  exact initial.proposeLoop looped

/-! ## What is published, and when the block is returned -/

theorem Tasks.follows_of_run
    {clock : Nat}
    {events : List (TaskEvent ε)}
    {tasks : Tasks Tx Hash BlockHash ε}
    (ran :
      Run.run (Tasks.step proposer deadline) events (.spawn clock start) =
        some tasks) :
    tasks.Follows proposer deadline start :=
  Run.run_invariant
    (fun _ _ _ follows stepped =>
      follows.step (Tasks.effect_of_step stepped))
    (.spawn clock) ran

/--
In whatever order the tasks run, the loop does what it does alone on what was
selected.  Unless a payload could not be sent, what was published is what the
block has after its inherents, at every moment.  With a positive block time
the block is not returned before its deadline.
-/
theorem Tasks.published_of_run
    (proposer : Proposer Tx Hash BlockHash ε)
    (authoring : Authoring Tx ε)
    {start : Proposal Tx Hash BlockHash ε}
    (started : proposer.startProposal authoring = .ok start)
    {clock : Nat}
    {events : List (TaskEvent ε)}
    {tasks : Tasks Tx Hash BlockHash ε}
    (ran :
      Run.run (Tasks.step proposer authoring.deadline) events
        (.spawn clock start) = some tasks) :
    proposer.proposeLoop authoring.deadline tasks.selected start =
        (tasks.main.outcome, tasks.proposal) ∧
      ((∀ fault, tasks.main ≠ .left (.error fault)) →
        ∃ inherents pushed,
          authoring.inherents = some inherents ∧
            proposer.applyInherents authoring.wasMandatory inherents [] =
              .ok pushed ∧
            tasks.proposal.block =
              pushed ++ tasks.proposal.sent.flatMap (·.extrinsics)) ∧
      (tasks.main = .left (.ok ()) →
        0 < proposer.preconfBlockTime → authoring.deadline ≤ tasks.clock) := by
  have follows := Tasks.follows_of_run ran
  refine ⟨follows.loop, fun sound => ?_, fun left positive => ?_⟩
  · obtain ⟨inherents, pushed, given, applied, initial⟩ :=
      published_of_startProposal started
    exact ⟨inherents, pushed, given, applied,
      (follows.published sound initial).block⟩
  · rcases follows.left left with zero | cancelled
    · rw [Proposer.period] at zero
      omega
    · exact follows.late cancelled

end Loop

/-- A proposal with the inherent 100, at its first wait for a signal. -/
def Proposal.mock : Proposal Nat Nat Nat Unit :=
  { Proposal.new [1, 2, 3] with block := [100] }

/-- Two sub-blocks, of which the first takes 150 ms, and the deadline. -/
def TaskEvent.mock : List (TaskEvent Unit) :=
  [.canceller, .interval false, .interval false, .interval false, .fetch,
    .receive, .begin (.mock 0) true, .pass 150000, .interval false,
    .interval false, .build, .receive, .begin (.mock 150000) true, .build,
    .pass 1850000, .canceller, .selectCancelled]

theorem Tasks.published_of_run_mock :
    ∃ tasks : Tasks Nat Nat Nat Unit,
      Run.run (Tasks.step Proposer.mock 2000000) TaskEvent.mock
          (.spawn 0 Proposal.mock) = some tasks ∧
        tasks.main = .left (.ok ()) ∧
        tasks.proposal.block = [100, 1, 3] ∧
        tasks.proposal.block =
          [100] ++ tasks.proposal.sent.flatMap (·.extrinsics) ∧
        2000000 ≤ tasks.clock := by
  have succeeds :
      (Run.run (Tasks.step Proposer.mock 2000000) TaskEvent.mock
          (.spawn 0 Proposal.mock)).map (fun tasks =>
            (tasks.main.outcome.toOption, tasks.proposal.block)) =
        some (some (), [100, 1, 3]) := by
    decide +kernel
  obtain ⟨tasks, ran, reached⟩ := Option.map_eq_some_iff.mp succeeds
  obtain ⟨returned, block⟩ := Prod.mk.inj reached
  have left : tasks.main = .left (.ok ()) :=
    MainTask.left_of_outcome (toOption_eq_some_iff.mp returned)
  obtain ⟨_, published, late⟩ :=
    Tasks.published_of_run Proposer.mock (.mock [1, 2, 3] []) rfl ran
  obtain ⟨inherents, pushed, given, applied, same⟩ := published (by simp [left])
  cases given
  cases applied
  exact ⟨tasks, ran, left, block, same, late left (by decide)⟩

/-! ## Whether the loop can still end -/

/-- The token is cancelled, or there is a task that is going to cancel it. -/
def Tasks.Cancellable
    (deadline : Nat)
    (tasks : Tasks Tx Hash BlockHash ε) : Prop :=
  tasks.cancelled = true ∨ tasks.canceller = .sleeping ∨
    (tasks.canceller = .spawned ∧ tasks.clock < deadline)

/-- The loop goes on, and the payload of a sub-block can be sent. -/
def MainTask.goesOn : MainTask ε → Bool
  | .left _ => false
  | .building _ _ channelOpen => channelOpen
  | _ => true

/-- Nobody is going to cancel the token, and the loop depends on it. -/
structure Tasks.Stuck
    (deadline : Nat)
    (tasks : Tasks Tx Hash BlockHash ε) : Prop where
  cancelled : tasks.cancelled = false
  canceller :
    tasks.canceller = .ended ∨
      (tasks.canceller = .spawned ∧ deadline ≤ tasks.clock)
  interval : tasks.interval = .ended → tasks.main.isLeft = true
  main : tasks.main ≠ .left (.ok ())

section Stuck

variable {proposer : Proposer Tx Hash BlockHash ε} {deadline : Nat}
  {event : TaskEvent ε} {tasks next : Tasks Tx Hash BlockHash ε}

theorem Tasks.stuck_of_not_cancellable
    {start : Proposal Tx Hash BlockHash ε}
    (positive : 0 < proposer.period)
    (follows : tasks.Follows proposer deadline start)
    (goesOn : tasks.main.goesOn = true)
    (notCancellable : ¬ tasks.Cancellable deadline) :
    tasks.Stuck deadline := by
  simp only [Tasks.Cancellable, not_or, not_and, Nat.not_lt] at notCancellable
  obtain ⟨notCancelled, notSleeping, late⟩ := notCancellable
  refine ⟨Bool.eq_false_iff.mpr notCancelled, ?_, fun ended => ?_, ?_⟩
  · cases canceller : tasks.canceller with
    | spawned => exact .inr ⟨rfl, late canceller⟩
    | sleeping => exact absurd canceller notSleeping
    | ended => exact .inl rfl
  · rcases follows.ended ended with zero | cancelled | isLeft
    · exact absurd zero positive.ne'
    · exact absurd cancelled notCancelled
    · exact isLeft
  · intro left
    rw [left] at goesOn
    cases goesOn

theorem Tasks.Stuck.step
    (positive : 0 < proposer.period)
    (stuck : tasks.Stuck deadline)
    (effect : Tasks.Effect proposer deadline event tasks next) :
    next.Stuck deadline := by
  -- a loop that has not been left has a sender
  have running (inLoop : tasks.main.isLeft = false) :
      tasks.interval ≠ .ended := by
    intro ended
    rw [stuck.interval ended] at inLoop
    cases inLoop
  cases effect with
  | passed micros =>
      exact { stuck with
        canceller := stuck.canceller.imp_right fun ⟨spawned, late⟩ =>
          ⟨spawned, late.trans (Nat.le_add_right ..)⟩ }
  | sleeps spawned early =>
      rcases stuck.canceller with ended | ⟨_, late⟩
      · rw [spawned] at ended
        cases ended
      · exact absurd early (Nat.not_lt.mpr late)
  | givesUp spawned late =>
      exact { stuck with canceller := .inl rfl }
  | cancels sleeping late =>
      rcases stuck.canceller with ended | ⟨spawned, _⟩
      · rw [sleeping] at ended
        cases ended
      · rw [sleeping] at spawned
        cases spawned
  | panics spawned zero =>
      exact absurd zero positive.ne'
  | starts spawned _ =>
      exact { stuck with interval := nofun }
  | stops waiting cancelled =>
      rw [stuck.cancelled] at cancelled
      cases cancelled
  | ticks waiting due =>
      exact { stuck with interval := nofun }
  | orphaned sending isLeft =>
      exact { stuck with interval := fun _ => isLeft }
  | sends sending inLoop empty =>
      exact { stuck with interval := nofun }
  | fetched fetching =>
      exact { stuck with
        interval := fun ended =>
          absurd ended (running (by rw [fetching]; rfl))
        main := nofun }
  | leaves selecting cancelled =>
      rw [stuck.cancelled] at cancelled
      cases cancelled
  | closes selecting ended =>
      exact absurd ended (running (by rw [selecting]; rfl))
  | receives selecting signals =>
      exact { stuck with
        interval := fun ended =>
          absurd ended (running (by rw [selecting]; rfl))
        main := nofun }
  | begins sub channelOpen received =>
      exact { stuck with
        interval := fun ended =>
          absurd ended (running (by rw [received]; rfl))
        main := nofun }
  | @builds now sub channelOpen _ building =>
      exact
        { cancelled := stuck.cancelled
          canceller := stuck.canceller
          interval := fun ended =>
            absurd ended (running (by rw [building]; rfl))
          main := by
            simp only [Tasks.stepBuild]
            split
            · exact nofun
            · exact nofun }

end Stuck

section Returns

variable (proposer : Proposer Tx Hash BlockHash ε) {deadline : Nat}
  {tasks : Tasks Tx Hash BlockHash ε}

/-- Asleep, the task that cancels wakes up at the deadline. -/
theorem Tasks.reaches_cancelled
    (sleeping : tasks.canceller = .sleeping) :
    Run.Reaches (Tasks.step proposer deadline) tasks
      { tasks with
        clock := tasks.clock + (deadline - tasks.clock)
        canceller := .ended
        cancelled := true } := by
  have due : deadline ≤ tasks.clock + (deadline - tasks.clock) := by omega
  refine .head (.pass (deadline - tasks.clock)) rfl ?_
  refine .head .canceller ?_ (.refl _ _)
  simp only [Tasks.step, Tasks.stepCanceller, sleeping, if_pos due]

/-- The task that cancels can do so whatever the others are doing. -/
theorem Tasks.Cancellable.reaches
    (cancellable : tasks.Cancellable deadline) :
    ∃ next,
      Run.Reaches (Tasks.step proposer deadline) tasks next ∧
        next.cancelled = true ∧ next.main = tasks.main := by
  rcases cancellable with cancelled | sleeping | ⟨spawned, early⟩
  · exact ⟨tasks, .refl _ _, cancelled, rfl⟩
  · exact ⟨_, Tasks.reaches_cancelled proposer sleeping, rfl, rfl⟩
  · have asleep :
        tasks.step proposer deadline .canceller =
          some { tasks with canceller := .sleeping } := by
      simp only [Tasks.step, Tasks.stepCanceller, spawned, if_pos early]
    exact ⟨_, .head _ asleep (Tasks.reaches_cancelled proposer rfl), rfl,
      rfl⟩

/-- With the token cancelled the loop can be left from wherever it is. -/
theorem Tasks.reaches_left
    (cancelled : tasks.cancelled = true)
    (goesOn : tasks.main.goesOn = true) :
    ∃ final,
      Run.Reaches (Tasks.step proposer deadline) tasks final ∧
        final.main = .left (.ok ()) := by
  have leaves
      (tasks : Tasks Tx Hash BlockHash ε)
      (cancelled : tasks.cancelled = true)
      (selecting : tasks.main = .selecting) :
      ∃ final,
        Run.Reaches (Tasks.step proposer deadline) tasks final ∧
          final.main = .left (.ok ()) := by
    have left :
        tasks.step proposer deadline .selectCancelled =
          some { tasks with
            main := .left (.ok ())
            selected := tasks.selected ++ [.cancelled] } := by
      simp only [Tasks.step, selecting, if_pos cancelled]
    exact ⟨_, .head _ left (.refl _ _), rfl⟩
  have finishes
      (tasks : Tasks Tx Hash BlockHash ε)
      (cancelled : tasks.cancelled = true)
      {now : Nat}
      {sub : SubBlock ε}
      (building : tasks.main = .building now sub true) :
      ∃ final,
        Run.Reaches (Tasks.step proposer deadline) tasks final ∧
          final.main = .left (.ok ()) := by
    have built :
        tasks.step proposer deadline .build =
          some (tasks.stepBuild proposer deadline now sub true) := by
      simp only [Tasks.step, building]
    have selecting :
        (tasks.stepBuild proposer deadline now sub true).main =
          .selecting := by
      simp [Tasks.stepBuild, Proposer.onSignal]
    obtain ⟨final, reaches, left⟩ :=
      leaves (tasks.stepBuild proposer deadline now sub true) cancelled
        selecting
    exact ⟨final, .head _ built reaches, left⟩
  cases main : tasks.main with
  | fetching =>
      have fetched :
          tasks.step proposer deadline .fetch =
            some { tasks with main := .selecting } := by
        simp only [Tasks.step, main]
      obtain ⟨final, reaches, left⟩ :=
        leaves { tasks with main := .selecting } cancelled rfl
      exact ⟨final, .head _ fetched reaches, left⟩
  | selecting =>
      exact leaves tasks cancelled main
  | received =>
      let sub : SubBlock ε := ⟨0, 0, 0, fun _ => ⟨0, 0, .ok (), 0⟩⟩
      have begun :
          tasks.step proposer deadline (.begin sub true) =
            some { tasks with main := .building tasks.clock sub true } := by
        simp only [Tasks.step, main]
      obtain ⟨final, reaches, left⟩ :=
        finishes { tasks with main := .building tasks.clock sub true }
          cancelled rfl
      exact ⟨final, .head _ begun reaches, left⟩
  | building now sub channelOpen =>
      rw [main] at goesOn
      have isOpen : channelOpen = true := goesOn
      subst isOpen
      exact finishes tasks cancelled main
  | left outcome =>
      rw [main] at goesOn
      cases goesOn

/--
With a positive block time, a block proposal in its loop can still return a
block exactly if the token is or can still be cancelled.  A task that is only
started after the deadline does not cancel it, and then no order of events
ends the loop.
-/
theorem Tasks.returns_iff_cancellable
    (positive : 0 < proposer.preconfBlockTime)
    (deadline clock : Nat)
    (start : Proposal Tx Hash BlockHash ε)
    (events : List (TaskEvent ε))
    (ran :
      Run.run (Tasks.step proposer deadline) events (.spawn clock start) =
        some tasks)
    (goesOn : tasks.main.goesOn = true) :
    (∃ final,
      Run.Reaches (Tasks.step proposer deadline) tasks final ∧
        final.main = .left (.ok ())) ↔
      tasks.Cancellable deadline := by
  have period : 0 < proposer.period := Nat.mul_pos positive (by decide)
  constructor
  · rintro ⟨final, ⟨later, ranLater⟩, left⟩
    by_contra notCancellable
    have stuck := Tasks.stuck_of_not_cancellable period
      (Tasks.follows_of_run ran) goesOn notCancellable
    have finallyStuck : final.Stuck deadline :=
      Run.run_invariant
        (fun _ _ _ stuck stepped =>
          stuck.step period (Tasks.effect_of_step stepped))
        stuck ranLater
    exact finallyStuck.main left
  · intro cancellable
    obtain ⟨middle, cancels, cancelled, main⟩ := cancellable.reaches proposer
    obtain ⟨final, leaves, left⟩ :=
      Tasks.reaches_left proposer cancelled (main ▸ goesOn)
    exact ⟨final, cancels.trans leaves, left⟩

/-- The task that cancels is started two seconds late. -/
theorem Tasks.returns_iff_cancellable_late :
    ∃ tasks : Tasks Nat Nat Nat Unit,
      Run.run (Tasks.step Proposer.mock 2000000)
          [.fetch, .pass 2000000, .canceller] (.spawn 0 Proposal.mock) =
        some tasks ∧
        ¬ ∃ final,
          Run.Reaches (Tasks.step Proposer.mock 2000000) tasks final ∧
            final.main = .left (.ok ()) := by
  refine ⟨_, rfl, ?_⟩
  rw [Tasks.returns_iff_cancellable Proposer.mock (by decide) 2000000 0
    Proposal.mock [.fetch, .pass 2000000, .canceller] rfl rfl]
  simp [Tasks.Cancellable, Tasks.spawn]

end Returns

/-! ## The pace of sub-blocks -/

/-- A signal that was received and not yet built upon. -/
def MainTask.pending : MainTask ε → Nat
  | .received => 1
  | .building .. => 1
  | _ => 0

/-- A tick whose signal was not sent yet. -/
def IntervalTask.pending : IntervalTask → Nat
  | .sending _ => 1
  | _ => 0

/--
Of a number of ticks, one in each interval since the given time, each led to
a sub-block, is on its way to one, or is lost.
-/
structure Tasks.Paced
    (proposer : Proposer Tx Hash BlockHash ε)
    (since ticks : Nat)
    (tasks : Tasks Tx Hash BlockHash ε) : Prop where
  counted :
    tasks.proposal.subBlockCount + tasks.main.pending + tasks.signals +
      tasks.interval.pending ≤ ticks
  passed : since ≤ tasks.clock
  due : ∀ tick < ticks, since + tick * proposer.period ≤ tasks.clock
  spawned : tasks.interval = .spawned → ticks = 0
  next :
    ∀ next, tasks.interval = .waiting next ∨ tasks.interval = .sending next →
      since + ticks * proposer.period ≤ next
  signals : tasks.signals ≤ 1
  indices :
    ∀ payload ∈ tasks.proposal.sent,
      payload.index < tasks.proposal.subBlockCount

section Pace

variable {proposer : Proposer Tx Hash BlockHash ε} {deadline since ticks : Nat}
  {event : TaskEvent ε} {tasks next : Tasks Tx Hash BlockHash ε}

/-- A sub-block counts once its payload, if there is one, was sent. -/
theorem onSignal_counts
    (proposer : Proposer Tx Hash BlockHash ε)
    (sub : SubBlock ε)
    (channelOpen : Bool)
    {state : Proposal Tx Hash BlockHash ε}
    (indices : ∀ payload ∈ state.sent, payload.index < state.subBlockCount) :
    (proposer.onSignal sub channelOpen state).2.subBlockCount ≤
        state.subBlockCount + 1 ∧
      ∀ payload ∈ (proposer.onSignal sub channelOpen state).2.sent,
        payload.index <
          (proposer.onSignal sub channelOpen state).2.subBlockCount := by
  unfold Proposer.onSignal
  simp only
  split
  · exact ⟨Nat.le_succ _, indices⟩
  · refine ⟨le_rfl, ?_⟩
    have later : ∀ payload ∈ state.sent,
        payload.index < state.subBlockCount + 1 :=
      fun payload member => Nat.lt_succ_of_lt (indices payload member)
    rcases buildSubBlock_cases proposer sub state with ⟨_, _, sent⟩ |
      ⟨payload, _, _, sent, _, index, _⟩
    · rw [sent]
      exact later
    · rw [sent, List.forall_mem_append, List.forall_mem_singleton, index]
      exact ⟨later, Nat.lt_succ_self _⟩

namespace Tasks.Paced

theorem spawn
    {start : Proposal Tx Hash BlockHash ε}
    (notBegun : start.subBlockCount = 0)
    (nothingSent : start.sent = []) :
    (Tasks.spawn since start).Paced proposer since 0 where
  counted := notBegun.le
  passed := le_rfl
  due := nofun
  spawned _ := rfl
  next := nofun
  signals := Nat.zero_le 1
  indices := by simp [Tasks.spawn, nothingSent]

/-- The loop passes a signal on, or loses it. -/
theorem moves
    (paced : tasks.Paced proposer since ticks)
    {main : MainTask ε}
    {signals : Nat}
    (fewer :
      main.pending + signals ≤ tasks.main.pending + tasks.signals)
    (atMostOne : signals ≤ 1)
    (selected : List (Selected ε)) :
    Tasks.Paced proposer since ticks
      { tasks with main := main, signals := signals, selected := selected } :=
  { paced with
    counted := by
      have counted := paced.counted
      simp only
      omega
    signals := atMostOne }

/-- The task that sends signals ends. -/
theorem ends (paced : tasks.Paced proposer since ticks) :
    Tasks.Paced proposer since ticks { tasks with interval := .ended } :=
  { paced with
    counted := (Nat.le_add_right _ _).trans paced.counted
    spawned := nofun
    next := by simp }

/-- A tick is due, so that an interval has passed since the one before it. -/
theorem tick
    (paced : tasks.Paced proposer since ticks)
    {next : Nat}
    (waiting : tasks.interval = .waiting next)
    (due : next ≤ tasks.clock) :
    Tasks.Paced proposer since (ticks + 1)
      { tasks with interval := .sending (next + proposer.period) } := by
  have counted := paced.counted
  have bound := paced.next next (.inl waiting)
  rw [waiting] at counted
  refine { paced with
    counted := Nat.succ_le_succ counted
    due := fun tick below => ?_
    spawned := nofun
    next := fun later isLater => ?_ }
  · rcases Nat.lt_succ_iff_lt_or_eq.mp below with earlier | rfl
    · exact paced.due tick earlier
    · exact bound.trans due
  · simp only [reduceCtorEq, IntervalTask.sending.injEq, false_or] at isLater
    rw [← isLater, Nat.succ_mul, ← Nat.add_assoc]
    exact Nat.add_le_add_right bound _

theorem build
    (paced : tasks.Paced proposer since ticks)
    {now : Nat}
    {sub : SubBlock ε}
    {channelOpen : Bool}
    (building : tasks.main = .building now sub channelOpen) :
    (tasks.stepBuild proposer deadline now sub channelOpen).Paced proposer
      since ticks := by
  obtain ⟨atMostOne, indices⟩ :=
    onSignal_counts proposer (proposer.timed deadline now sub) channelOpen
      paced.indices
  have idle :
      (tasks.stepBuild proposer deadline now sub
        channelOpen).main.pending = 0 := by
    simp only [Tasks.stepBuild]
    split
    · rfl
    · rfl
  have counted := paced.counted
  rw [building] at counted
  refine { paced with counted := ?_, indices := indices }
  rw [idle]
  simp only [Tasks.stepBuild, MainTask.pending] at counted ⊢
  omega

theorem step
    (paced : tasks.Paced proposer since ticks)
    (effect : Tasks.Effect proposer deadline event tasks next) :
    ∃ ticks, next.Paced proposer since ticks := by
  cases effect with
  | passed micros =>
      exact ⟨ticks, { paced with
        passed := paced.passed.trans (Nat.le_add_right ..)
        due := fun tick below =>
          (paced.due tick below).trans (Nat.le_add_right ..) }⟩
  | sleeps spawned early =>
      exact ⟨ticks, { paced with }⟩
  | givesUp spawned late =>
      exact ⟨ticks, { paced with }⟩
  | cancels sleeping late =>
      exact ⟨ticks, { paced with }⟩
  | panics spawned zero =>
      exact ⟨ticks, paced.ends⟩
  | starts spawned positive =>
      have none := paced.spawned spawned
      have counted := paced.counted
      rw [spawned] at counted
      refine ⟨ticks, { paced with
        counted := counted
        spawned := nofun
        next := fun next isNext => ?_ }⟩
      simp only [IntervalTask.waiting.injEq, reduceCtorEq, or_false] at isNext
      rw [none, Nat.zero_mul, ← isNext]
      exact paced.passed
  | stops waiting cancelled =>
      exact ⟨ticks, paced.ends⟩
  | ticks waiting due =>
      exact ⟨ticks + 1, paced.tick waiting due⟩
  | orphaned sending isLeft =>
      exact ⟨ticks, paced.ends⟩
  | @sends due sending inLoop empty =>
      have counted := paced.counted
      rw [sending, empty] at counted
      refine ⟨ticks, { paced with
        counted := counted
        spawned := nofun
        next := fun next isNext => ?_
        signals := le_rfl }⟩
      simp only [IntervalTask.waiting.injEq, reduceCtorEq, or_false] at isNext
      exact isNext ▸ paced.next due (.inr sending)
  | fetched fetching =>
      exact ⟨ticks, paced.moves (by simp [MainTask.pending]) paced.signals _⟩
  | leaves selecting cancelled =>
      exact ⟨ticks, paced.moves (by simp [MainTask.pending]) paced.signals _⟩
  | closes selecting ended =>
      exact ⟨ticks, paced.moves (by simp [MainTask.pending]) paced.signals _⟩
  | @receives left selecting signals =>
      have atMostOne := paced.signals
      refine ⟨ticks, paced.moves ?_ (by omega) _⟩
      rw [selecting, signals]
      simp only [MainTask.pending]
      omega
  | begins sub channelOpen received =>
      refine ⟨ticks, paced.moves ?_ paced.signals _⟩
      rw [received]
      rfl
  | builds _ building =>
      exact ⟨ticks, paced.build building⟩

end Tasks.Paced

/--
In whatever order the tasks run, sub-blocks keep to the block time: the one
with a given index is not published, nor built, before as many intervals have
passed since the tasks were spawned.  At most one signal waits in the channel.
-/
theorem Tasks.pace_of_run
    (proposer : Proposer Tx Hash BlockHash ε)
    (authoring : Authoring Tx ε)
    {start : Proposal Tx Hash BlockHash ε}
    (started : proposer.startProposal authoring = .ok start)
    {clock : Nat}
    {events : List (TaskEvent ε)}
    (ran :
      Run.run (Tasks.step proposer authoring.deadline) events
        (.spawn clock start) = some tasks) :
    tasks.signals ≤ 1 ∧
      (∀ index < tasks.proposal.subBlockCount,
        clock + index * (proposer.preconfBlockTime * 1000) ≤ tasks.clock) ∧
      ∀ payload ∈ tasks.proposal.sent,
        clock + payload.index * (proposer.preconfBlockTime * 1000) ≤
          tasks.clock := by
  obtain ⟨_, _, _, _, start_eq⟩ := startProposal_eq_ok started
  have initial : (Tasks.spawn clock start).Paced proposer clock 0 :=
    .spawn (by rw [start_eq]; rfl) (by rw [start_eq]; rfl)
  have preserved
      (event : TaskEvent ε)
      (tasks next : Tasks Tx Hash BlockHash ε)
      (paced : ∃ ticks, tasks.Paced proposer clock ticks)
      (stepped : tasks.step proposer authoring.deadline event = some next) :
      ∃ ticks, next.Paced proposer clock ticks := by
    obtain ⟨_, paced⟩ := paced
    exact paced.step (Tasks.effect_of_step stepped)
  obtain ⟨ticks, paced⟩ := Run.run_invariant preserved ⟨0, initial⟩ ran
  have counted := paced.counted
  refine ⟨paced.signals, fun index below => ?_, fun payload member => ?_⟩
  · exact paced.due index (by omega)
  · have below := paced.indices payload member
    exact paced.due payload.index (by omega)

/-- The second sub-block is not published in the first 100 ms. -/
theorem Tasks.pace_of_run_mock :
    ∃ tasks : Tasks Nat Nat Nat Unit,
      Run.run (Tasks.step Proposer.mock 2000000) TaskEvent.mock
          (.spawn 0 Proposal.mock) = some tasks ∧
        tasks.proposal.sent.map (·.index) = [0, 1] ∧
        100000 ≤ tasks.clock := by
  have succeeds :
      (Run.run (Tasks.step Proposer.mock 2000000) TaskEvent.mock
          (.spawn 0 Proposal.mock)).map (fun tasks =>
            tasks.proposal.sent.map (·.index)) = some [0, 1] := by
    decide +kernel
  obtain ⟨tasks, ran, indices⟩ := Option.map_eq_some_iff.mp succeeds
  obtain ⟨_, _, published⟩ :=
    Tasks.pace_of_run Proposer.mock (.mock [1, 2, 3] []) rfl ran
  have second : 1 ∈ tasks.proposal.sent.map (·.index) := by
    rw [indices]
    decide
  obtain ⟨payload, member, index⟩ := List.mem_map.mp second
  have passed := published payload member
  rw [index] at passed
  exact ⟨tasks, ran, indices, passed⟩

end Pace

end HybridOrderbook.Preconf
