import Mathlib.Data.List.Basic
import Mathlib.Logic.Function.Basic

namespace HybridOrderbook.Preconf

/-!
# Publishing to subscribers

Every proposer has a channel, and a task that takes one message after the
other from it and sends each to all subscribers, under the lock of their
list.  The task owns the receiver of the channel, and ends when nothing more
can come.  Subscribers join at any time.  One to whom a message cannot be
sent at once is dropped, and the message may or may not arrive.

The order in which the tasks get the lock is the order of `published`.  It is
not a variable of the code, and neither are the subscribers that were dropped.
-/

/-- What the connection of a subscriber does with a message. -/
inductive Answer where
  | sent
  -- it was not sent at once
  | refused (arrives : Bool)
  deriving Repr, DecidableEq

/-- A subscriber, with the messages that arrived and their proposers. -/
structure Subscriber (Message : Type) where
  id : Nat
  -- how many messages had been published when it joined
  joined : Nat
  log : List (Nat × Message)
  deriving Repr, DecidableEq

/-- The channel of a proposer, and what its task took from it last. -/
structure Channel (Message : Type) where
  queue : List Message
  taken : Option Message
  -- the task has ended, and the receiver with it
  closed : Bool
  deriving Repr, DecidableEq

structure Hub (Message : Type) where
  channels : Nat → Channel Message
  subscribers : List (Subscriber Message)
  published : List (Nat × Message)
  dropped : List (Subscriber Message)

variable {Message : Type}

/-- Whether a subscriber is kept. -/
def Answer.isSent : Answer → Bool
  | .sent => true
  | .refused _ => false

def Answer.arrives : Answer → Bool
  | .sent => true
  | .refused arrives => arrives

/-- What becomes of a subscriber that a message is sent to. -/
def Answer.deliver
    (answer : Answer)
    (entry : Nat × Message)
    (subscriber : Subscriber Message) : Subscriber Message :=
  if answer.arrives then
    { subscriber with log := subscriber.log ++ [entry] }
  else
    subscriber

/-- The messages of one proposer, in the order they were published in. -/
def publishedBy (proposer : Nat) (published : List (Nat × Message)) :
    List Message :=
  (published.filter fun entry => entry.1 = proposer).map Prod.snd

namespace Hub

/-- Nobody has proposed or subscribed. -/
def empty : Hub Message where
  channels _ := ⟨[], none, false⟩
  subscribers := []
  published := []
  dropped := []

/-- Put a message into the channel, which is not bounded. -/
def sendMessage
    (proposer : Nat)
    (message : Message)
    (hub : Hub Message) : Hub Message :=
  { hub with
    channels := Function.update hub.channels proposer
      { hub.channels proposer with
        queue := (hub.channels proposer).queue ++ [message] } }

/-- The publish task takes the next message, once it is done with the last. -/
def recv (proposer : Nat) (hub : Hub Message) : Option (Hub Message) :=
  match hub.channels proposer with
  | ⟨message :: rest, none, false⟩ =>
      some { hub with
        channels :=
          Function.update hub.channels proposer ⟨rest, some message, false⟩ }
  | _ => none

/-- The publish task ends, once the channel is empty and has no sender. -/
def close (proposer : Nat) (hub : Hub Message) : Option (Hub Message) :=
  match hub.channels proposer with
  | ⟨[], none, false⟩ =>
      some { hub with
        channels := Function.update hub.channels proposer ⟨[], none, true⟩ }
  | _ => none

/-- The publish task sends the message it took, and keeps who got it. -/
def publish
    (proposer : Nat)
    (answers : Nat → Answer)
    (hub : Hub Message) : Option (Hub Message) :=
  match (hub.channels proposer).taken with
  | none => none
  | some message =>
      let delivered := hub.subscribers.map fun subscriber =>
        (answers subscriber.id).deliver (proposer, message) subscriber
      some {
        channels := Function.update hub.channels proposer
          { hub.channels proposer with taken := none }
        subscribers :=
          delivered.filter fun subscriber => (answers subscriber.id).isSent
        published := hub.published ++ [(proposer, message)]
        dropped := hub.dropped ++
          delivered.filter fun subscriber => !(answers subscriber.id).isSent }

/-- A connection was accepted. -/
def subscribe (hub : Hub Message) : Hub Message :=
  { hub with
    subscribers := hub.subscribers ++
      [⟨hub.subscribers.length + hub.dropped.length, hub.published.length,
        []⟩] }

/--
Nothing that was sent is lost, doubled or reordered.  A subscriber has all
that was published since it joined, and one that was dropped a first part.
-/
structure Delivers
    (sent : Nat → List Message)
    (hub : Hub Message) : Prop where
  fifo :
    ∀ proposer,
      publishedBy proposer hub.published ++
          ((hub.channels proposer).taken.toList ++
            (hub.channels proposer).queue) =
        sent proposer
  subscribers :
    ∀ subscriber ∈ hub.subscribers,
      subscriber.joined ≤ hub.published.length ∧
        hub.published.drop subscriber.joined = subscriber.log
  dropped :
    ∀ subscriber ∈ hub.dropped,
      subscriber.joined ≤ hub.published.length ∧
        ∃ missed,
          hub.published.drop subscriber.joined = subscriber.log ++ missed

end Hub

section Deliver

variable {sent : Nat → List Message} {hub next : Hub Message}

@[simp] theorem publishedBy_append
    (proposer : Nat)
    (first second : List (Nat × Message)) :
    publishedBy proposer (first ++ second) =
      publishedBy proposer first ++ publishedBy proposer second := by
  simp [publishedBy]

@[simp] theorem publishedBy_singleton
    (proposer : Nat)
    (entry : Nat × Message) :
    publishedBy proposer [entry] =
      if entry.1 = proposer then [entry.2] else [] := by
  by_cases same : entry.1 = proposer
  · simp [publishedBy, same]
  · simp [publishedBy, same]

@[simp] theorem Answer.id_deliver
    (answer : Answer)
    (entry : Nat × Message)
    (subscriber : Subscriber Message) :
    (answer.deliver entry subscriber).id = subscriber.id := by
  unfold Answer.deliver
  split
  · rfl
  · rfl

@[simp] theorem Answer.joined_deliver
    (answer : Answer)
    (entry : Nat × Message)
    (subscriber : Subscriber Message) :
    (answer.deliver entry subscriber).joined = subscriber.joined := by
  unfold Answer.deliver
  split
  · rfl
  · rfl

theorem Answer.arrives_of_isSent
    {answer : Answer}
    (isSent : answer.isSent = true) : answer.arrives = true := by
  cases answer with
  | sent =>
      rfl
  | refused arrives =>
      cases isSent

theorem length_published_le
    (published : List (Nat × Message))
    (entry : Nat × Message) :
    published.length ≤ (published ++ [entry]).length := by
  rw [List.length_append]
  exact Nat.le_add_right ..

theorem drop_published
    {published : List (Nat × Message)}
    {joined : Nat}
    (before : joined ≤ published.length)
    (entry : Nat × Message) :
    (published ++ [entry]).drop joined = published.drop joined ++ [entry] :=
  List.drop_append_of_le_length before

namespace Hub

variable {proposer other : Nat} {answers : Nat → Answer}

theorem recv_eq_some (received : hub.recv proposer = some next) :
    ∃ message rest,
      hub.channels proposer = ⟨message :: rest, none, false⟩ ∧
        next =
          { hub with
            channels :=
              Function.update hub.channels proposer
                ⟨rest, some message, false⟩ } := by
  unfold recv at received
  split at received
  · rename_i message rest channel
    cases received
    exact ⟨message, rest, channel, rfl⟩
  · cases received

theorem close_eq_some (closed : hub.close proposer = some next) :
    hub.channels proposer = ⟨[], none, false⟩ ∧
      next =
        { hub with
          channels :=
            Function.update hub.channels proposer ⟨[], none, true⟩ } := by
  unfold close at closed
  split at closed
  · rename_i channel
    cases closed
    exact ⟨channel, rfl⟩
  · cases closed

/-- What is published was taken, and who stays or leaves was subscribed. -/
theorem publish_eq_some
    (published : hub.publish proposer answers = some next) :
    ∃ message,
      (hub.channels proposer).taken = some message ∧
        next =
          { channels := Function.update hub.channels proposer
              { hub.channels proposer with taken := none }
            subscribers :=
              (hub.subscribers.map fun subscriber =>
                (answers subscriber.id).deliver (proposer, message)
                  subscriber).filter
                fun subscriber => (answers subscriber.id).isSent
            published := hub.published ++ [(proposer, message)]
            dropped := hub.dropped ++
              (hub.subscribers.map fun subscriber =>
                (answers subscriber.id).deliver (proposer, message)
                  subscriber).filter
                fun subscriber => !(answers subscriber.id).isSent } := by
  unfold publish at published
  split at published
  · cases published
  · rename_i message taken
    cases published
    exact ⟨message, taken, rfl⟩

/-- Taking a message from a channel publishes nothing. -/
theorem published_recv (received : hub.recv proposer = some next) :
    next.published = hub.published := by
  obtain ⟨_, _, _, rfl⟩ := recv_eq_some received
  rfl

theorem published_close (closed : hub.close proposer = some next) :
    next.published = hub.published := by
  obtain ⟨_, rfl⟩ := close_eq_some closed
  rfl

theorem published_publish
    (published : hub.publish proposer answers = some next) :
    ∃ message, next.published = hub.published ++ [(proposer, message)] := by
  obtain ⟨message, _, rfl⟩ := publish_eq_some published
  exact ⟨message, rfl⟩

theorem closed_sendMessage (message : Message) :
    ((hub.sendMessage proposer message).channels other).closed =
      (hub.channels other).closed := by
  by_cases same : other = proposer
  · subst same
    simp [sendMessage]
  · simp [sendMessage, same]

theorem closed_recv (received : hub.recv proposer = some next) :
    (next.channels other).closed = (hub.channels other).closed := by
  obtain ⟨_, _, channel, rfl⟩ := recv_eq_some received
  by_cases same : other = proposer
  · subst same
    simp [channel]
  · simp [same]

theorem closed_publish
    (published : hub.publish proposer answers = some next) :
    (next.channels other).closed = (hub.channels other).closed := by
  obtain ⟨_, _, rfl⟩ := publish_eq_some published
  by_cases same : other = proposer
  · subst same
    simp
  · simp [same]

/-- No other channel is closed. -/
theorem closed_close
    (closed : hub.close proposer = some next)
    (different : other ≠ proposer) :
    (next.channels other).closed = (hub.channels other).closed := by
  obtain ⟨_, rfl⟩ := close_eq_some closed
  simp [different]

end Hub

namespace Hub.Delivers

theorem empty : (Hub.empty : Hub Message).Delivers fun _ => [] where
  fifo _ := rfl
  subscribers := List.forall_mem_nil _
  dropped := List.forall_mem_nil _

theorem sendMessage
    (delivers : hub.Delivers sent)
    (proposer : Nat)
    (message : Message) :
    (hub.sendMessage proposer message).Delivers
      (Function.update sent proposer (sent proposer ++ [message])) where
  fifo other := by
    by_cases same : other = proposer
    · subst same
      simp [Hub.sendMessage, ← delivers.fifo other]
    · simpa [Hub.sendMessage, same] using delivers.fifo other
  subscribers := delivers.subscribers
  dropped := delivers.dropped

theorem recv
    (delivers : hub.Delivers sent)
    {proposer : Nat}
    (received : hub.recv proposer = some next) : next.Delivers sent := by
  obtain ⟨message, rest, channel, rfl⟩ := recv_eq_some received
  refine { delivers with fifo := fun other => ?_ }
  have fifo := delivers.fifo other
  by_cases same : other = proposer
  · subst same
    rw [channel] at fifo
    simpa using fifo
  · simpa [same] using fifo

/-- Nothing is left in a channel that is closed. -/
theorem close
    (delivers : hub.Delivers sent)
    {proposer : Nat}
    (closed : hub.close proposer = some next) : next.Delivers sent := by
  obtain ⟨channel, rfl⟩ := close_eq_some closed
  refine { delivers with fifo := fun other => ?_ }
  have fifo := delivers.fifo other
  by_cases same : other = proposer
  · subst same
    rw [channel] at fifo
    simpa using fifo
  · simpa [same] using fifo

theorem subscribe (delivers : hub.Delivers sent) :
    hub.subscribe.Delivers sent where
  fifo := delivers.fifo
  subscribers := by
    intro subscriber member
    rcases List.mem_append.mp member with earlier | new
    · exact delivers.subscribers subscriber earlier
    · rw [List.mem_singleton] at new
      subst new
      exact ⟨Nat.le_refl _, List.drop_length⟩
  dropped := delivers.dropped

/-- A message that arrives extends what a subscriber has. -/
theorem delivered
    (delivers : hub.Delivers sent)
    {subscriber : Subscriber Message}
    (member : subscriber ∈ hub.subscribers)
    (entry : Nat × Message)
    {answer : Answer}
    (arrives : answer.arrives = true) :
    (answer.deliver entry subscriber).joined ≤
        (hub.published ++ [entry]).length ∧
      (hub.published ++ [entry]).drop
          (answer.deliver entry subscriber).joined =
        (answer.deliver entry subscriber).log := by
  obtain ⟨before, received⟩ := delivers.subscribers subscriber member
  rw [Answer.joined_deliver]
  refine ⟨Nat.le_trans before (length_published_le ..), ?_⟩
  rw [drop_published before, received, Answer.deliver, if_pos arrives]

theorem publish
    (delivers : hub.Delivers sent)
    {proposer : Nat}
    {answers : Nat → Answer}
    (published : hub.publish proposer answers = some next) :
    next.Delivers sent := by
  obtain ⟨message, taken, rfl⟩ := publish_eq_some published
  constructor
  · intro other
    have fifo := delivers.fifo other
    by_cases same : other = proposer
    · subst same
      rw [taken] at fifo
      simpa using fifo
    · simpa [same, Ne.symm same] using fifo
  · intro subscriber member
    obtain ⟨mapped, kept⟩ := List.mem_filter.mp member
    obtain ⟨original, isOriginal, rfl⟩ := List.mem_map.mp mapped
    rw [Answer.id_deliver] at kept
    have arrives := Answer.arrives_of_isSent kept
    exact delivers.delivered isOriginal (proposer, message) arrives
  · intro subscriber member
    rcases List.mem_append.mp member with earlier | mapped
    · obtain ⟨before, missed, received⟩ :=
        delivers.dropped subscriber earlier
      refine ⟨Nat.le_trans before (length_published_le ..),
        missed ++ [(proposer, message)], ?_⟩
      rw [drop_published before, received, List.append_assoc]
    · obtain ⟨original, isOriginal, rfl⟩ :=
        List.mem_map.mp (List.mem_filter.mp mapped).1
      cases arrives : (answers original.id).arrives with
      | true =>
          obtain ⟨before, received⟩ :=
            delivers.delivered isOriginal (proposer, message) arrives
          exact ⟨before, [], by rw [List.append_nil]; exact received⟩
      | false =>
          obtain ⟨before, received⟩ :=
            delivers.subscribers original isOriginal
          have unchanged :
              (answers original.id).deliver (proposer, message) original =
                original := by
            simp [Answer.deliver, arrives]
          rw [unchanged]
          refine ⟨Nat.le_trans before (length_published_le ..),
            [(proposer, message)], ?_⟩
          rw [drop_published before, received]

/-- A subscriber has all messages of whoever was silent before it joined. -/
theorem publishedBy_log
    (delivers : hub.Delivers sent)
    {subscriber : Subscriber Message}
    (member : subscriber ∈ hub.subscribers)
    {proposer : Nat}
    (silent :
      publishedBy proposer (hub.published.take subscriber.joined) = []) :
    publishedBy proposer subscriber.log =
      publishedBy proposer hub.published := by
  obtain ⟨_, received⟩ := delivers.subscribers subscriber member
  rw [← List.take_append_drop subscriber.joined hub.published,
    publishedBy_append, silent, List.nil_append, received]

/-- What a subscriber has of a proposer was sent without a gap. -/
theorem segment
    (delivers : hub.Delivers sent)
    {subscriber : Subscriber Message}
    (member : subscriber ∈ hub.subscribers ++ hub.dropped)
    (proposer : Nat) :
    ∃ before after,
      sent proposer =
        before ++ (publishedBy proposer subscriber.log ++ after) := by
  have published : ∃ missed,
      hub.published.drop subscriber.joined = subscriber.log ++ missed := by
    rcases List.mem_append.mp member with isThere | wasDropped
    · obtain ⟨_, received⟩ := delivers.subscribers subscriber isThere
      exact ⟨[], by rw [List.append_nil, received]⟩
    · exact (delivers.dropped subscriber wasDropped).2
  obtain ⟨missed, received⟩ := published
  have split :
      publishedBy proposer hub.published =
        publishedBy proposer (hub.published.take subscriber.joined) ++
          (publishedBy proposer subscriber.log ++
            publishedBy proposer missed) := by
    rw [← publishedBy_append, ← received, ← publishedBy_append,
      List.take_append_drop]
  refine ⟨publishedBy proposer (hub.published.take subscriber.joined),
    publishedBy proposer missed ++
      ((hub.channels proposer).taken.toList ++
        (hub.channels proposer).queue), ?_⟩
  rw [← delivers.fifo proposer, split]
  simp only [List.append_assoc]

end Hub.Delivers

end Deliver

end HybridOrderbook.Preconf
