import HybridOrderbook.Subscribers
import HybridOrderbook.Tasks

namespace HybridOrderbook.Preconf

open Library

/-!
# From proposals to subscribers

A node makes one block proposal after the other, or several at once.  Each
has a proposer with tasks and a channel of its own, and all of them share the
subscribers.  The proposer owns the sender of the channel, and is dropped
after `propose_with` has returned.  Until then the publish task waits for
messages, so that a payload can always be sent.
-/

variable {Tx Hash BlockHash ε : Type}

/-- A block proposal. -/
structure Session (Tx Hash BlockHash ε : Type) where
  proposer : Proposer Tx Hash BlockHash ε
  authoring : Authoring Tx ε
  -- the proposal and the time at which its tasks were spawned
  start : Proposal Tx Hash BlockHash ε
  spawned : Nat
  -- how many messages had been published then
  created : Nat
  tasks : Tasks Tx Hash BlockHash ε

structure Node (Tx Hash BlockHash ε : Type) where
  sessions : Nat → Option (Session Tx Hash BlockHash ε)
  hub : Hub (PreConfBlockPayload Tx Hash BlockHash)

/-- What happens next; proposals are named by numbers. -/
inductive NodeEvent (Tx Hash BlockHash ε : Type) where
  | propose
      (id : Nat)
      (proposer : Proposer Tx Hash BlockHash ε)
      (authoring : Authoring Tx ε)
      (clock : Nat)
  | task (id : Nat) (event : TaskEvent ε)
  | recv (id : Nat)
  | publish (id : Nat) (answers : Nat → Answer)
  -- the publish task ends
  | close (id : Nat)
  | subscribe

/-- What a sub-block reads when it sends is whether the channel is open. -/
def TaskEvent.agrees (closed : Bool) : TaskEvent ε → MainTask ε → Bool
  | .build, .building _ _ channelOpen => channelOpen == !closed
  | _, _ => true

namespace Session

/-- A proposal whose inherents were applied. -/
def begin
    (proposer : Proposer Tx Hash BlockHash ε)
    (authoring : Authoring Tx ε)
    (clock created : Nat) : Option (Session Tx Hash BlockHash ε) :=
  match proposer.startProposal authoring with
  | .error _ => none
  | .ok start =>
      some ⟨proposer, authoring, start, clock, created, .spawn clock start⟩

/-- One event of the tasks, with the channel open or closed. -/
def step
    (closed : Bool)
    (event : TaskEvent ε)
    (session : Session Tx Hash BlockHash ε) :
    Option (Session Tx Hash BlockHash ε) :=
  if event.agrees closed session.tasks.main then
    (session.tasks.step session.proposer session.authoring.deadline
      event).map fun tasks => { session with tasks := tasks }
  else
    none

/-- What the proposal has put into its channel. -/
def sent (session : Session Tx Hash BlockHash ε) :
    List (PreConfBlockPayload Tx Hash BlockHash) :=
  session.tasks.proposal.sent

end Session

namespace Node

def empty : Node Tx Hash BlockHash ε where
  sessions _ := none
  hub := .empty

/-- What a proposal has put into its channel. -/
def sent (node : Node Tx Hash BlockHash ε) (id : Nat) :
    List (PreConfBlockPayload Tx Hash BlockHash) :=
  match node.sessions id with
  | some session => session.sent
  | none => []

/-- Put what is new of a proposal into its channel. -/
def update
    (id : Nat)
    (session next : Session Tx Hash BlockHash ε)
    (node : Node Tx Hash BlockHash ε) : Node Tx Hash BlockHash ε where
  sessions := Function.update node.sessions id (some next)
  hub :=
    (next.sent.drop session.sent.length).foldl
      (fun hub payload => hub.sendMessage id payload) node.hub

/-- One event. -/
def step
    (event : NodeEvent Tx Hash BlockHash ε)
    (node : Node Tx Hash BlockHash ε) : Option (Node Tx Hash BlockHash ε) :=
  match event with
  | .propose id proposer authoring clock =>
      match node.sessions id with
      | some _ => none
      | none =>
          (Session.begin proposer authoring clock
            node.hub.published.length).map fun session =>
              { node with
                sessions := Function.update node.sessions id (some session) }
  | .task id event =>
      (node.sessions id).bind fun session =>
        (session.step (node.hub.channels id).closed event).map fun next =>
          node.update id session next
  | .recv id => (node.hub.recv id).map fun hub => { node with hub := hub }
  | .publish id answers =>
      (node.hub.publish id answers).map fun hub => { node with hub := hub }
  | .close id =>
      (node.sessions id).bind fun session =>
        -- before, the proposer has the sender
        if session.tasks.main.isLeft then
          (node.hub.close id).map fun hub => { node with hub := hub }
        else
          none
  | .subscribe => some { node with hub := node.hub.subscribe }

end Node

/-! ## Proposals do not fail to send -/

section Sending

variable {proposer : Proposer Tx Hash BlockHash ε} {deadline : Nat}
  {event : TaskEvent ε} {tasks next : Tasks Tx Hash BlockHash ε}

/-- A loop that was left is not entered again. -/
theorem Tasks.isLeft_step
    (isLeft : tasks.main.isLeft = true)
    (stepped : tasks.step proposer deadline event = some next) :
    next.main.isLeft = true := by
  cases Tasks.effect_of_step stepped with
  | fetched within | receives within | begins _ _ within | builds _ within =>
      rw [within] at isLeft
      cases isLeft
  | leaves | closes =>
      rfl
  | _ =>
      exact isLeft

/-- The loop fails in no event but the end of a sub-block that is refused. -/
theorem Tasks.sends_step
    {closed : Bool}
    (lives : closed = true → tasks.main.isLeft = true)
    (agrees : event.agrees closed tasks.main = true)
    (sends : ∀ fault, tasks.main ≠ .left (.error fault))
    (stepped : tasks.step proposer deadline event = some next) :
    ∀ fault, next.main ≠ .left (.error fault) := by
  cases Tasks.effect_of_step stepped with
  | fetched | receives | begins | leaves | closes =>
      exact nofun
  | @builds now sub channelOpen happened building =>
      subst happened
      rw [building] at agrees lives
      have isOpen : closed = false := by
        cases closed with
        | false => rfl
        | true => cases lives rfl
      subst isOpen
      have channelOpen : channelOpen = true := by
        simpa [TaskEvent.agrees] using agrees
      subst channelOpen
      simp [Tasks.stepBuild, Proposer.onSignal]
  | _ =>
      exact sends

/-- What was sent stays sent. -/
theorem Tasks.sent_step
    (stepped : tasks.step proposer deadline event = some next) :
    ∃ new, next.proposal.sent = tasks.proposal.sent ++ new := by
  cases Tasks.effect_of_step stepped with
  | @builds now sub channelOpen _ _ =>
      simp only [Tasks.stepBuild, Proposer.onSignal]
      split
      · exact ⟨[], (List.append_nil _).symm⟩
      · exact ⟨_, rfl⟩
  | _ =>
      exact ⟨[], (List.append_nil _).symm⟩

end Sending

/-! ## What subscribers get -/

/-- A proposal that its tasks have brought about. -/
structure Session.Sound
    (id : Nat)
    (published : List (Nat × PreConfBlockPayload Tx Hash BlockHash))
    (session : Session Tx Hash BlockHash ε) : Prop where
  started :
    session.proposer.startProposal session.authoring = .ok session.start
  reached :
    Run.Reaches
      (Tasks.step session.proposer session.authoring.deadline)
      (.spawn session.spawned session.start) session.tasks
  sends : ∀ fault, session.tasks.main ≠ .left (.error fault)
  created : session.created ≤ published.length
  -- nothing of it was published before it was created
  silent : publishedBy id (published.take session.created) = []

structure Node.Sound (node : Node Tx Hash BlockHash ε) : Prop where
  sessions :
    ∀ id session,
      node.sessions id = some session → session.Sound id node.hub.published
  -- a publish task outlives the loop of its proposer
  closed :
    ∀ id,
      (node.hub.channels id).closed = true →
        ∃ session,
          node.sessions id = some session ∧ session.tasks.main.isLeft = true
  delivers : node.hub.Delivers node.sent

section Sound

variable {id : Nat} {session next : Session Tx Hash BlockHash ε}
  {published : List (Nat × PreConfBlockPayload Tx Hash BlockHash)}

theorem Session.Sound.step
    (sound : session.Sound id published)
    {closed : Bool}
    (lives : closed = true → session.tasks.main.isLeft = true)
    {event : TaskEvent ε}
    (stepped : session.step closed event = some next) :
    next.Sound id published ∧
      (session.tasks.main.isLeft = true → next.tasks.main.isLeft = true) ∧
      ∃ new, next.sent = session.sent ++ new := by
  unfold Session.step at stepped
  split at stepped
  · rename_i agrees
    obtain ⟨tasks, taskStepped, rfl⟩ := Option.map_eq_some_iff.mp stepped
    refine ⟨{ sound with
      reached := sound.reached.trans (.head event taskStepped (.refl _ _))
      sends := Tasks.sends_step lives agrees sound.sends taskStepped }, ?_,
      Tasks.sent_step taskStepped⟩
    exact fun isLeft => Tasks.isLeft_step isLeft taskStepped
  · cases stepped

theorem Session.Sound.begin
    {proposer : Proposer Tx Hash BlockHash ε}
    {authoring : Authoring Tx ε}
    {clock : Nat}
    (begun :
      Session.begin proposer authoring clock published.length = some session)
    (silent : publishedBy id published = []) :
    session.Sound id published ∧ session.sent = [] := by
  unfold Session.begin at begun
  split at begun
  · cases begun
  · rename_i start started
    cases begun
    obtain ⟨_, _, _, _, start_eq⟩ := startProposal_eq_ok started
    refine ⟨⟨started, .refl _ _, nofun, le_rfl, ?_⟩, ?_⟩
    · rw [List.take_length]
      exact silent
    · rw [start_eq]
      rfl

/-- Publishing more does not change what was published before. -/
theorem Session.Sound.later
    (sound : session.Sound id published)
    (more : List (Nat × PreConfBlockPayload Tx Hash BlockHash)) :
    session.Sound id (published ++ more) :=
  { sound with
    created := by
      rw [List.length_append]
      exact sound.created.trans (Nat.le_add_right ..)
    silent := by
      rw [List.take_append_of_le_length sound.created]
      exact sound.silent }

/-- Nothing of it was published to whoever joined before it was created. -/
theorem Session.Sound.silent_before
    (sound : session.Sound id published)
    {joined : Nat}
    (early : joined ≤ session.created) :
    publishedBy id (published.take joined) = [] := by
  have silent := sound.silent
  rw [← List.take_append_drop joined (published.take session.created),
    publishedBy_append, List.take_take, Nat.min_eq_left early] at silent
  exact (List.append_eq_nil_iff.mp silent).1

/-- Several messages are put into a channel. -/
theorem Hub.Delivers.sendMessages
    {Message : Type}
    {hub : Hub Message}
    {sent : Nat → List Message}
    (delivers : hub.Delivers sent)
    (id : Nat)
    (messages : List Message) :
    (messages.foldl (fun hub message => hub.sendMessage id message)
        hub).Delivers
      (Function.update sent id (sent id ++ messages)) := by
  induction messages generalizing hub sent with
  | nil =>
      simpa using delivers
  | cons message rest inductionHypothesis =>
      have sentOne := delivers.sendMessage id message
      simpa using inductionHypothesis sentOne

theorem Hub.published_sendMessages
    {Message : Type}
    (hub : Hub Message)
    (id : Nat)
    (messages : List Message) :
    (messages.foldl (fun hub message => hub.sendMessage id message)
      hub).published = hub.published := by
  induction messages generalizing hub with
  | nil =>
      rfl
  | cons message rest inductionHypothesis =>
      exact inductionHypothesis (hub.sendMessage id message)

theorem Hub.closed_sendMessages
    {Message : Type}
    (hub : Hub Message)
    (id : Nat)
    (messages : List Message)
    (other : Nat) :
    ((messages.foldl (fun hub message => hub.sendMessage id message)
      hub).channels other).closed = (hub.channels other).closed := by
  induction messages generalizing hub with
  | nil =>
      rfl
  | cons message rest inductionHypothesis =>
      exact (inductionHypothesis (hub.sendMessage id message)).trans
        (Hub.closed_sendMessage message)

end Sound

namespace Node

variable {node after : Node Tx Hash BlockHash ε}

theorem sent_update
    (id : Nat)
    (session next : Session Tx Hash BlockHash ε)
    (node : Node Tx Hash BlockHash ε) :
    (node.update id session next).sent =
      Function.update node.sent id next.sent := by
  funext other
  by_cases same : other = id
  · subst same
    simp [Node.sent, Node.update]
  · simp [Node.sent, Node.update, same]

/-- A proposal that begins has sent nothing, and was not there before. -/
theorem Sound.propose
    (sound : node.Sound)
    {id : Nat}
    (absent : node.sessions id = none)
    {proposer : Proposer Tx Hash BlockHash ε}
    {authoring : Authoring Tx ε}
    {clock : Nat}
    {session : Session Tx Hash BlockHash ε}
    (begun :
      Session.begin proposer authoring clock node.hub.published.length =
        some session) :
    Node.Sound
      { node with
        sessions := Function.update node.sessions id (some session) } := by
  have nothing : node.sent id = [] := by
    simp [Node.sent, absent]
  have fifo := sound.delivers.fifo id
  rw [nothing] at fifo
  obtain ⟨begins, sentNothing⟩ :=
    Session.Sound.begin begun (List.append_eq_nil_iff.mp fifo).1
  have sameSent :
      Node.sent
          { node with
            sessions := Function.update node.sessions id (some session) } =
        node.sent := by
    funext other
    by_cases same : other = id
    · subst same
      simp [Node.sent, absent, sentNothing]
    · simp [Node.sent, same]
  constructor
  · intro other found isFound
    by_cases same : other = id
    · subst same
      simp only [Function.update_self, Option.some.injEq] at isFound
      exact isFound ▸ begins
    · simp only [Function.update_of_ne same] at isFound
      exact sound.sessions other found isFound
  · intro other isClosed
    obtain ⟨found, isFound, isLeft⟩ := sound.closed other isClosed
    have different : other ≠ id := by
      rintro rfl
      rw [absent] at isFound
      cases isFound
    exact ⟨found, by simpa [different] using isFound, isLeft⟩
  · rw [sameSent]
    exact sound.delivers

theorem Sound.task
    (sound : node.Sound)
    {id : Nat}
    {session next : Session Tx Hash BlockHash ε}
    (found : node.sessions id = some session)
    {event : TaskEvent ε}
    (stepped :
      session.step (node.hub.channels id).closed event = some next) :
    (node.update id session next).Sound := by
  have lives (isClosed : (node.hub.channels id).closed = true) :
      session.tasks.main.isLeft = true := by
    obtain ⟨same, isFound, isLeft⟩ := sound.closed id isClosed
    rw [found, Option.some.injEq] at isFound
    exact isFound ▸ isLeft
  obtain ⟨nextSound, staysLeft, new, sentMore⟩ :=
    (sound.sessions id session found).step lives stepped
  have sentBefore : node.sent id = session.sent := by
    simp [Node.sent, found]
  have samePublished :
      (node.update id session next).hub.published = node.hub.published :=
    Hub.published_sendMessages _ _ _
  constructor
  · rw [samePublished]
    intro other otherSession isFound
    by_cases same : other = id
    · subst same
      simp only [Node.update, Function.update_self, Option.some.injEq]
        at isFound
      exact isFound ▸ nextSound
    · simp only [Node.update, Function.update_of_ne same] at isFound
      exact sound.sessions other otherSession isFound
  · intro other isClosed
    have wasClosed : (node.hub.channels other).closed = true :=
      (Hub.closed_sendMessages _ _ _ other).symm.trans isClosed
    by_cases same : other = id
    · subst same
      exact ⟨next, Function.update_self .., staysLeft (lives wasClosed)⟩
    · obtain ⟨otherSession, isFound, isLeft⟩ := sound.closed other wasClosed
      exact ⟨otherSession, (Function.update_of_ne same ..).trans isFound,
        isLeft⟩
  · have delivers := sound.delivers.sendMessages id new
    rw [sentBefore, ← sentMore] at delivers
    rw [sent_update, Node.update, sentMore, List.drop_left]
    exact sentMore ▸ delivers

/-- The hub goes on, and may publish a message. -/
theorem Sound.withHub
    (sound : node.Sound)
    {hub : Hub (PreConfBlockPayload Tx Hash BlockHash)}
    (delivers : hub.Delivers node.sent)
    (closed :
      ∀ id,
        (hub.channels id).closed = true →
          ∃ session,
            node.sessions id = some session ∧
              session.tasks.main.isLeft = true)
    (later : List (Nat × PreConfBlockPayload Tx Hash BlockHash))
    (published : hub.published = node.hub.published ++ later) :
    Node.Sound { node with hub := hub } := by
  refine ⟨fun id session found => ?_, closed, delivers⟩
  rw [published]
  exact (sound.sessions id session found).later later

theorem Sound.step
    (sound : node.Sound)
    {event : NodeEvent Tx Hash BlockHash ε}
    (stepped : node.step event = some after) : after.Sound := by
  cases event with
  | propose id proposer authoring clock =>
      unfold Node.step at stepped
      cases absent : node.sessions id with
      | some session =>
          simp only [absent] at stepped
          cases stepped
      | none =>
          simp only [absent] at stepped
          obtain ⟨session, begun, rfl⟩ := Option.map_eq_some_iff.mp stepped
          exact sound.propose absent begun
  | task id event =>
      obtain ⟨session, found, stepped⟩ := Option.bind_eq_some_iff.mp stepped
      obtain ⟨next, taskStepped, rfl⟩ := Option.map_eq_some_iff.mp stepped
      exact sound.task found taskStepped
  | recv id =>
      obtain ⟨hub, received, rfl⟩ := Option.map_eq_some_iff.mp stepped
      refine sound.withHub (sound.delivers.recv received)
        (fun other isClosed => ?_) [] ?_
      · rw [Hub.closed_recv received] at isClosed
        exact sound.closed other isClosed
      · rw [List.append_nil]
        exact Hub.published_recv received
  | publish id answers =>
      obtain ⟨hub, published, rfl⟩ := Option.map_eq_some_iff.mp stepped
      obtain ⟨message, samePublished⟩ := Hub.published_publish published
      refine sound.withHub (sound.delivers.publish published)
        (fun other isClosed => ?_) _ samePublished
      rw [Hub.closed_publish published] at isClosed
      exact sound.closed other isClosed
  | close id =>
      obtain ⟨session, found, stepped⟩ := Option.bind_eq_some_iff.mp stepped
      split at stepped
      · rename_i isLeft
        obtain ⟨hub, closed, rfl⟩ := Option.map_eq_some_iff.mp stepped
        refine sound.withHub (sound.delivers.close closed)
          (fun other isClosed => ?_) [] ?_
        · by_cases same : other = id
          · exact ⟨session, same ▸ found, isLeft⟩
          · rw [Hub.closed_close closed same] at isClosed
            exact sound.closed other isClosed
        · rw [List.append_nil]
          exact Hub.published_close closed
      · cases stepped
  | subscribe =>
      cases stepped
      exact sound.withHub sound.delivers.subscribe sound.closed []
        (List.append_nil _).symm

theorem sound_empty : (Node.empty : Node Tx Hash BlockHash ε).Sound where
  sessions _ _ found := by cases found
  closed _ isClosed := by cases isClosed
  delivers := .empty

theorem sound_of_run
    {events : List (NodeEvent Tx Hash BlockHash ε)}
    (ran : Run.run Node.step events Node.empty = some node) : node.Sound :=
  Run.run_invariant (fun _ _ _ sound stepped => sound.step stepped)
    sound_empty ran

/--
A payload is never refused, so that a block proposal does not fail in its
loop.  A subscriber that was there when a proposal began, and still is, has
exactly what the block has after its inherents, up to the payloads that are
on their way.
-/
theorem delivered_of_run
    {events : List (NodeEvent Tx Hash BlockHash ε)}
    (ran : Run.run Node.step events Node.empty = some node)
    {id : Nat}
    {session : Session Tx Hash BlockHash ε}
    (found : node.sessions id = some session) :
    (∀ fault, session.tasks.main ≠ .left (.error fault)) ∧
      ∃ inherents pushed,
        session.authoring.inherents = some inherents ∧
          session.proposer.applyInherents session.authoring.wasMandatory
            inherents [] = .ok pushed ∧
          ∀ subscriber ∈ node.hub.subscribers,
            subscriber.joined ≤ session.created →
              session.tasks.proposal.block =
                pushed ++
                  (publishedBy id subscriber.log ++
                    ((node.hub.channels id).taken.toList ++
                      (node.hub.channels id).queue)).flatMap
                    (·.extrinsics) := by
  have sound := sound_of_run ran
  have here := sound.sessions id session found
  obtain ⟨inherents, pushed, given, applied, initial⟩ :=
    published_of_startProposal here.started
  obtain ⟨taskEvents, reached⟩ := here.reached
  have published :=
    (Tasks.follows_of_run reached).published here.sends initial
  refine ⟨here.sends, inherents, pushed, given, applied, ?_⟩
  intro subscriber member early
  have fifo := sound.delivers.fifo id
  rw [sound.delivers.publishedBy_log member (here.silent_before early),
    fifo, Node.sent, found]
  exact published.block

/--
A proposal with two payloads.  One subscriber is there from the beginning,
and one joins between the payloads and is dropped with the second.  The
publish task ends after it.
-/
def mockEvents : List (NodeEvent Nat Nat Nat Unit) :=
  [.subscribe, .propose 7 Proposer.mock (.mock [1, 2, 3] []) 0] ++
    TaskEvent.mock.map (.task 7) ++
    [.recv 7, .publish 7 fun _ => .sent, .subscribe, .recv 7,
      .publish 7 fun id => if id = 1 then .refused false else .sent,
      .close 7]

theorem delivered_of_run_mock :
    ∃ node : Node Nat Nat Nat Unit,
      Run.run Node.step mockEvents Node.empty = some node ∧
        ∃ session, node.sessions 7 = some session ∧
          session.tasks.proposal.block = [100, 1, 3] ∧
            ∃ subscriber ∈ node.hub.subscribers, ∃ pushed,
              session.tasks.proposal.block =
                pushed ++
                  (publishedBy 7 subscriber.log).flatMap (·.extrinsics) := by
  have succeeds :
      ((Run.run Node.step mockEvents Node.empty).bind fun node =>
        (node.sessions 7).bind fun session =>
          node.hub.subscribers.head?.map fun subscriber =>
            (session.tasks.proposal.block,
              decide (subscriber.joined ≤ session.created),
              node.hub.channels 7)) =
        some ([100, 1, 3], true, ⟨[], none, true⟩) := by
    decide +kernel
  obtain ⟨node, ran, rest⟩ := Option.bind_eq_some_iff.mp succeeds
  obtain ⟨session, found, rest⟩ := Option.bind_eq_some_iff.mp rest
  obtain ⟨subscriber, first, same⟩ := Option.map_eq_some_iff.mp rest
  simp only [Prod.mk.injEq, decide_eq_true_eq] at same
  obtain ⟨block, early, drained⟩ := same
  obtain ⟨_, _, pushed, _, _, delivered⟩ := delivered_of_run ran found
  have member := List.mem_of_mem_head? first
  have has := delivered subscriber member early
  rw [drained] at has
  refine ⟨node, ran, session, found, block, subscriber, member, pushed, ?_⟩
  simpa using has

/-- The payloads of a proposal, sent in the order of their indices. -/
theorem Sound.increasing
    (sound : node.Sound)
    (id : Nat) :
    ((node.sent id).map (·.index)).Pairwise (· < ·) := by
  unfold Node.sent
  split
  · rename_i session found
    have here := sound.sessions id session found
    obtain ⟨_, _, _, _, initial⟩ := published_of_startProposal here.started
    obtain ⟨taskEvents, reached⟩ := here.reached
    exact ((Tasks.follows_of_run reached).published here.sends
      initial).increasing
  · exact .nil

/--
Of each proposal, every subscriber, also one that was dropped, has payloads
that were sent one after the other, none of them twice.  From the time both
are there, two subscribers have the same.
-/
theorem logs_of_run
    {events : List (NodeEvent Tx Hash BlockHash ε)}
    (ran : Run.run Node.step events Node.empty = some node) :
    (∀ subscriber ∈ node.hub.subscribers ++ node.hub.dropped, ∀ id,
      (∃ before after,
        node.sent id =
          before ++ (publishedBy id subscriber.log ++ after)) ∧
        ((publishedBy id subscriber.log).map (·.index)).Pairwise (· < ·)) ∧
      ∀ first ∈ node.hub.subscribers, ∀ second ∈ node.hub.subscribers,
        first.joined ≤ second.joined →
          first.log.drop (second.joined - first.joined) = second.log := by
  have sound := sound_of_run ran
  refine ⟨fun subscriber member id => ?_, fun first isFirst second isSecond
    earlier => ?_⟩
  · have segment := sound.delivers.segment member id
    refine ⟨segment, ?_⟩
    obtain ⟨before, after, sent⟩ := segment
    have increasing := sound.increasing id
    rw [sent, List.map_append, List.map_append] at increasing
    exact (List.pairwise_append.mp
      (List.pairwise_append.mp increasing).2.1).1
  · obtain ⟨_, firstLog⟩ := sound.delivers.subscribers first isFirst
    obtain ⟨_, secondLog⟩ := sound.delivers.subscribers second isSecond
    rw [← firstLog, ← secondLog, List.drop_drop, Nat.add_sub_cancel' earlier]

/-- One subscriber stays, and one is dropped. -/
theorem logs_of_run_mock :
    ∃ node : Node Nat Nat Nat Unit,
      Run.run Node.step mockEvents Node.empty = some node ∧
        node.hub.subscribers.map (·.id) = [0] ∧
        node.hub.dropped.map (·.id) = [1] ∧
        ∀ subscriber ∈ node.hub.subscribers ++ node.hub.dropped,
          ∃ before after,
            node.sent 7 =
              before ++ (publishedBy 7 subscriber.log ++ after) := by
  have succeeds :
      (Run.run Node.step mockEvents Node.empty).map (fun node =>
        (node.hub.subscribers.map (·.id), node.hub.dropped.map (·.id))) =
        some ([0], [1]) := by
    decide +kernel
  obtain ⟨node, ran, same⟩ := Option.map_eq_some_iff.mp succeeds
  obtain ⟨stays, leaves⟩ := Prod.mk.inj same
  exact ⟨node, ran, stays, leaves,
    fun subscriber member => ((logs_of_run ran).1 subscriber member 7).1⟩

end Node

end HybridOrderbook.Preconf
