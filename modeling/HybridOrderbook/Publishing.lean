import HybridOrderbook.Library.Fallible
import HybridOrderbook.Preconf

namespace HybridOrderbook.Preconf

open Library

/-!
# What a block proposal publishes

`propose_with` applies the inherents, and then waits in a loop for the signal
to build another sub-block, for the end of the signals, or for the deadline
of the block.  Whatever becomes ready first is taken, and a sub-block that
was begun is finished before the loop waits again.

The order in which they become ready is an input here, as are the answers of
the block builder and of the channel that the payloads are sent through.
-/

/-- What the loop of `propose_with` waited for and got. -/
inductive Selected (ε : Type) where
  | cancelled
  -- the sender of the signals was dropped
  | closed
  -- the clock at the signal, what the sub-block reads, and whether the
  -- channel takes a message afterwards
  | signal (now : Nat) (sub : SubBlock ε) (channelOpen : Bool)

/-- The errors of `propose_with`. -/
inductive ProposeError (ε : Type) where
  | blockBuilder
  | createInherents
  | applyExtrinsicFailed (error : ε)
  | application
  | build
  | intoProof
  deriving Repr, DecidableEq

/-- What `propose_with` is given, and what it reads outside its sub-blocks. -/
structure Authoring (Tx ε : Type) where
  deadline : Nat
  blockBuilderCreated : Bool
  -- the inherents, each with the answer of the block builder to it
  inherents : Option (List (Tx × Except (PushError ε) Unit))
  wasMandatory : ε → Bool
  -- the iterator over the ready transactions
  ready : List Tx
  selected : List (Selected ε)
  built : Bool
  proofConverted : Bool

variable {Tx Hash BlockHash ε : Type}

namespace Proposer

variable (proposer : Proposer Tx Hash BlockHash ε)

/-- Push the inherents; only the failure of a mandatory one is an error. -/
def applyInherents
    (wasMandatory : ε → Bool) :
    List (Tx × Except (PushError ε) Unit) → List Tx →
      Except (ProposeError ε) (List Tx)
  | [], block => .ok block
  | (inherent, .ok ()) :: rest, block =>
      applyInherents wasMandatory rest (block ++ [inherent])
  | (_, .error (.validity error)) :: rest, block =>
      if proposer.exhaustedResources error then
        applyInherents wasMandatory rest block
      else if wasMandatory error then
        .error (.applyExtrinsicFailed error)
      else
        applyInherents wasMandatory rest block
  | (_, .error .other) :: rest, block =>
      applyInherents wasMandatory rest block

/-- The proposal at the first wait for a signal. -/
def startProposal (authoring : Authoring Tx ε) :
    Except (ProposeError ε) (Proposal Tx Hash BlockHash ε) := do
  if !authoring.blockBuilderCreated then throw .blockBuilder
  match authoring.inherents with
  | none => throw .createInherents
  | some inherents =>
      let block ←
        proposer.applyInherents authoring.wasMandatory inherents []
      return { Proposal.new authoring.ready with block := block }

/-- A sub-block with its deadline. -/
def timed (deadline now : Nat) (sub : SubBlock ε) : SubBlock ε :=
  { sub with deadline := proposer.effectiveDeadline now deadline }

/-- Whether a sub-block includes transactions. -/
def publishes
    (sub : SubBlock ε)
    (state : Proposal Tx Hash BlockHash ε) : Bool :=
  (proposer.applyExtrinsics sub state.ready state.block).2.extrinsics.length > 0

/--
Build a sub-block on a signal.  If its payload cannot be sent, the block is
given up with the transactions in it.
-/
def onSignal
    (sub : SubBlock ε)
    (channelOpen : Bool) :
    Proc (Proposal Tx Hash BlockHash ε) (ProposeError ε) Unit := fun state =>
  let next := proposer.buildSubBlock sub state
  if proposer.publishes sub state && !channelOpen then
    (.error (.error .application),
      { next with subBlockCount := state.subBlockCount, sent := state.sent })
  else
    (.ok (), next)

/-- The loop of `propose_with`; with nothing more to select it waits. -/
def proposeLoop (deadline : Nat) :
    List (Selected ε) →
      Proc (Proposal Tx Hash BlockHash ε) (ProposeError ε) Unit
  | [] => fun state => (.error .diverge, state)
  | .cancelled :: _ => pure ()
  | .closed :: _ => pure ()
  | .signal now sub channelOpen :: rest => do
      proposer.onSignal (proposer.timed deadline now sub) channelOpen
      proposeLoop deadline rest

/-- Propose a block: its transactions, and the proposal that was reached. -/
def proposeWith (authoring : Authoring Tx ε) :
    Except (Fault (ProposeError ε)) (List Tx) ×
      Proposal Tx Hash BlockHash ε :=
  match proposer.startProposal authoring with
  | .error error => (.error (.error error), Proposal.new authoring.ready)
  | .ok start =>
      match
        proposer.proposeLoop authoring.deadline authoring.selected start with
      | (.error fault, reached) => (.error fault, reached)
      | (.ok (), reached) =>
          if !authoring.built then
            (.error (.error .build), reached)
          else if !authoring.proofConverted then
            (.error (.error .intoProof), reached)
          else
            (.ok reached.block, reached)

end Proposer

section Contents

variable (proposer : Proposer Tx Hash BlockHash ε)

/-- A sub-block adds to the block what it keeps for its payload. -/
theorem applyLoop_appends
    (sub : SubBlock ε)
    (state : Applying Tx Hash ε) :
    ∃ pushed,
      (proposer.applyLoop sub state).2.block = state.block ++ pushed ∧
        (proposer.applyLoop sub state).2.extrinsics =
          state.extrinsics ++ pushed ∧
        (proposer.applyLoop sub state).2.extrinsicsHashes =
          state.extrinsicsHashes ++ pushed.map proposer.hash := by
  -- one round pushes the transaction it took, or nothing
  have appends
      {state next : Applying Tx Hash ε}
      {reason : Option EndProposingReason}
      (round : proposer.applyRound sub state = (next, reason)) :
      ∃ pushed,
        next.block = state.block ++ pushed ∧
          next.extrinsics = state.extrinsics ++ pushed ∧
          next.extrinsicsHashes =
            state.extrinsicsHashes ++ pushed.map proposer.hash := by
    rcases Proposer.handled_of_applyRound round with ⟨rfl, _⟩ | ⟨tx, rest, _,
      handled⟩
    · exact ⟨[], by simp⟩
    · cases handled with
      | dropped _ _ next_eq =>
          exact ⟨[], by simp [next_eq, Applying.took]⟩
      | reported _ next_eq =>
          rw [next_eq]
          exact ⟨[], by simp [Applying.took]⟩
      | pushed _ next_eq =>
          exact ⟨[tx], by simp [next_eq, Applying.took]⟩
  fun_induction proposer.applyLoop sub state with
  | case1 state next reason round =>
      exact appends round
  | case2 state next round inductionHypothesis =>
      obtain ⟨first, block, extrinsics, hashes⟩ := appends round
      obtain ⟨later, laterBlock, laterExtrinsics, laterHashes⟩ :=
        inductionHypothesis
      refine ⟨first ++ later, ?_, ?_, ?_⟩
      · rw [laterBlock, block, List.append_assoc]
      · rw [laterExtrinsics, extrinsics, List.append_assoc]
      · rw [laterHashes, hashes, List.append_assoc, List.map_append]

theorem block_applyExtrinsics
    (sub : SubBlock ε)
    (ready : ReadyTxs Tx)
    (block : List Tx) :
    (proposer.applyExtrinsics sub ready block).2.block =
      block ++ (proposer.applyExtrinsics sub ready block).2.extrinsics := by
  obtain ⟨pushed, appended, extrinsics, _⟩ :=
    applyLoop_appends proposer sub
      ⟨ready, block, 0, [], [], [], 0⟩
  unfold Proposer.applyExtrinsics
  rw [appended, extrinsics, List.nil_append]

theorem hashes_applyExtrinsics
    (sub : SubBlock ε)
    (ready : ReadyTxs Tx)
    (block : List Tx) :
    (proposer.applyExtrinsics sub ready block).2.extrinsicsHashes =
      (proposer.applyExtrinsics sub ready block).2.extrinsics.map
        proposer.hash := by
  obtain ⟨pushed, _, extrinsics, hashes⟩ :=
    applyLoop_appends proposer sub
      ⟨ready, block, 0, [], [], [], 0⟩
  unfold Proposer.applyExtrinsics
  rw [hashes, extrinsics, List.nil_append, List.nil_append]

/-- A sub-block either includes nothing, or sends what it includes. -/
theorem buildSubBlock_cases
    (sub : SubBlock ε)
    (state : Proposal Tx Hash BlockHash ε) :
    (proposer.publishes sub state = false ∧
        (proposer.buildSubBlock sub state).block = state.block ∧
        (proposer.buildSubBlock sub state).sent = state.sent) ∨
      ∃ payload,
        proposer.publishes sub state = true ∧
          (proposer.buildSubBlock sub state).block =
            state.block ++ payload.extrinsics ∧
          (proposer.buildSubBlock sub state).sent =
            state.sent ++ [payload] ∧
          payload.hashes = payload.extrinsics.map proposer.hash ∧
          payload.index = state.subBlockCount ∧
          payload.base =
            if state.subBlockCount = 0 then
              some ⟨proposer.parentHash, proposer.parentNumber + 1,
                proposer.blockSizeLimit, sub.timestamp⟩
            else
              none := by
  have block := block_applyExtrinsics proposer sub state.ready state.block
  have hashes := hashes_applyExtrinsics proposer sub state.ready state.block
  unfold Proposer.publishes Proposer.buildSubBlock Proposer.subBlockPayload
  by_cases empty :
      (proposer.applyExtrinsics sub state.ready state.block).2.extrinsics = []
  · rw [empty, List.append_nil] at block
    exact .inl ⟨by simp [empty], block, by simp [empty]⟩
  · have some := List.length_pos_iff.mpr empty
    simp only [gt_iff_lt, some, if_true, decide_true, Option.toList_some]
    exact .inr ⟨_, trivial, block, rfl, hashes, rfl, rfl⟩

variable {proposer}

@[simp] theorem subBlockCount_buildSubBlock
    (sub : SubBlock ε)
    (state : Proposal Tx Hash BlockHash ε) :
    (proposer.buildSubBlock sub state).subBlockCount =
      state.subBlockCount + 1 :=
  rfl

/-- What was published of a block so far is what it has after its inherents. -/
structure Published
    (proposer : Proposer Tx Hash BlockHash ε)
    (inherents : List Tx)
    (state : Proposal Tx Hash BlockHash ε) : Prop where
  block : state.block = inherents ++ state.sent.flatMap (·.extrinsics)
  hashes :
    ∀ payload ∈ state.sent,
      payload.hashes = payload.extrinsics.map proposer.hash
  increasing : (state.sent.map (·.index)).Pairwise (· < ·)
  counted : ∀ payload ∈ state.sent, payload.index < state.subBlockCount

theorem Published.buildSubBlock
    {inherents : List Tx}
    {state : Proposal Tx Hash BlockHash ε}
    (published : Published proposer inherents state)
    (sub : SubBlock ε) :
    Published proposer inherents (proposer.buildSubBlock sub state) := by
  have counted :
      ∀ payload ∈ state.sent, payload.index < state.subBlockCount + 1 :=
    fun payload member => Nat.lt_succ_of_lt (published.counted payload member)
  rcases buildSubBlock_cases proposer sub state with ⟨_, block, sent⟩ |
    ⟨payload, _, block, sent, hashes, index, _⟩
  · constructor
    · rw [block, sent, published.block]
    · rw [sent]
      exact published.hashes
    · rw [sent]
      exact published.increasing
    · rw [sent, subBlockCount_buildSubBlock]
      exact counted
  · constructor
    · rw [block, sent, published.block]
      simp
    · rw [sent, List.forall_mem_append, List.forall_mem_singleton]
      exact ⟨published.hashes, hashes⟩
    · rw [sent, List.map_append, List.pairwise_append]
      refine ⟨published.increasing, List.pairwise_singleton .., ?_⟩
      simpa [index] using published.counted
    · rw [sent, List.forall_mem_append, List.forall_mem_singleton,
        subBlockCount_buildSubBlock, index]
      exact ⟨counted, Nat.lt_succ_self _⟩

/-- In every order of signals and cancellation, until the loop is left. -/
theorem Published.proposeLoop
    {inherents : List Tx}
    {deadline : Nat}
    {selected : List (Selected ε)}
    {state final : Proposal Tx Hash BlockHash ε}
    (published : Published proposer inherents state)
    (looped :
      proposer.proposeLoop deadline selected state = (.ok (), final)) :
    Published proposer inherents final := by
  induction selected generalizing state with
  | nil =>
      cases looped
  | cons event rest inductionHypothesis =>
      cases event with
      | cancelled =>
          cases looped
          exact published
      | closed =>
          cases looped
          exact published
      | signal now sub channelOpen =>
          unfold Proposer.proposeLoop at looped
          obtain ⟨_, reached, built, remaining⟩ := Proc.bind_eq_ok_iff.mp looped
          unfold Proposer.onSignal at built
          split at built
          · cases built
          · cases built
            exact inductionHypothesis (published.buildSubBlock _) remaining

/-- A proposal starts with the inherents that the block builder took. -/
theorem startProposal_eq_ok
    {authoring : Authoring Tx ε}
    {start : Proposal Tx Hash BlockHash ε}
    (started : proposer.startProposal authoring = .ok start) :
    ∃ inherents block,
      authoring.inherents = some inherents ∧
        proposer.applyInherents authoring.wasMandatory inherents [] =
          .ok block ∧
        start = { Proposal.new authoring.ready with block := block } := by
  unfold Proposer.startProposal at started
  cases created : authoring.blockBuilderCreated with
  | false =>
      rw [created] at started
      cases started
  | true =>
      rw [created] at started
      cases given : authoring.inherents with
      | none =>
          rw [given] at started
          cases started
      | some inherents =>
          simp only [given] at started
          cases applied :
            proposer.applyInherents authoring.wasMandatory inherents [] with
          | error error =>
              rw [applied] at started
              cases started
          | ok block =>
              rw [applied] at started
              cases started
              exact ⟨inherents, block, rfl, applied, rfl⟩

/--
The payloads of a block proposal that succeeds hold exactly the transactions
of the block after its inherents, in the order of the block.
-/
theorem published_eq_block
    (proposer : Proposer Tx Hash BlockHash ε)
    (authoring : Authoring Tx ε)
    {block : List Tx}
    {final : Proposal Tx Hash BlockHash ε}
    (proposed : proposer.proposeWith authoring = (.ok block, final)) :
    (∃ inherents pushed,
      authoring.inherents = some inherents ∧
        proposer.applyInherents authoring.wasMandatory inherents [] =
          .ok pushed ∧
        block = pushed ++ final.sent.flatMap (·.extrinsics)) ∧
      (∀ payload ∈ final.sent,
        payload.hashes = payload.extrinsics.map proposer.hash) ∧
      (final.sent.map (·.index)).Pairwise (· < ·) := by
  unfold Proposer.proposeWith at proposed
  cases started : proposer.startProposal authoring with
  | error error =>
      rw [started] at proposed
      cases proposed
  | ok start =>
      simp only [started] at proposed
      obtain ⟨inherents, pushed, given, applied, start_eq⟩ :=
        startProposal_eq_ok started
      have initial : Published proposer pushed start := by
        rw [start_eq]
        exact ⟨(List.append_nil pushed).symm, nofun, .nil, nofun⟩
      split at proposed
      · cases proposed
      · rename_i reached looped
        have published := initial.proposeLoop looped
        split at proposed
        · cases proposed
        · split at proposed
          · cases proposed
          · cases proposed
            exact ⟨⟨inherents, pushed, given, applied, published.block⟩,
              published.hashes, published.increasing⟩

/-- A proposal of two seconds with the inherent 100. -/
def Authoring.mock
    (ready : List Nat)
    (selected : List (Selected Unit)) : Authoring Nat Unit where
  deadline := 2000000
  blockBuilderCreated := true
  inherents := some [(100, .ok ())]
  wasMandatory _ := true
  ready := ready
  selected := selected
  built := true
  proofConverted := true

/-- Two sub-blocks and the deadline of the block. -/
theorem published_eq_block_twice :
    let proposed :=
      Proposer.mock.proposeWith
        (.mock [1, 2, 3]
          [.signal 0 (.mock 0) true, .signal 150000 (.mock 150000) true,
            .cancelled])
    proposed.1.toOption = some [100, 1, 3] ∧
      proposed.2.sent.map (·.extrinsics) = [[1], [3]] ∧
      (proposed.2.sent.map (·.index)).Pairwise (· < ·) := by
  intro proposed
  have block : proposed.1.toOption = some [100, 1, 3] := by decide +kernel
  have succeeded : proposed = (.ok [100, 1, 3], proposed.2) :=
    Prod.ext (toOption_eq_some_iff.mp block) rfl
  have increasing :=
    (published_eq_block Proposer.mock _ succeeded).2.2
  exact ⟨block, by decide +kernel, increasing⟩

end Contents

section Base

variable (proposer : Proposer Tx Hash BlockHash ε)

/-- The first payload, and no other one, has the base of the block. -/
def Proposer.BaseComesFirst :
    List (PreConfBlockPayload Tx Hash BlockHash) → Prop
  | [] => True
  | first :: later =>
      (∃ base,
        first.base = some base ∧
          base.parentHash = proposer.parentHash ∧
          base.blockNumber = proposer.parentNumber + 1) ∧
        ∀ payload ∈ later, payload.base = none

/-- Whether a sub-block is still going to be published. -/
def Proposer.publishesLater (deadline : Nat) :
    List (Selected ε) → Proposal Tx Hash BlockHash ε → Bool
  | .signal now sub channelOpen :: rest, state =>
      let sub := proposer.timed deadline now sub
      if proposer.publishes sub state then
        channelOpen
      else
        publishesLater deadline rest (proposer.buildSubBlock sub state)
  | _, _ => false

/--
Whether the first sub-block includes no transactions, and a later one is
published.
-/
def Proposer.publishesAfterEmpty (deadline : Nat) :
    List (Selected ε) → Proposal Tx Hash BlockHash ε → Bool
  | .signal now sub _ :: rest, state =>
      let sub := proposer.timed deadline now sub
      !proposer.publishes sub state &&
        proposer.publishesLater deadline rest
          (proposer.buildSubBlock sub state)
  | _, _ => false

variable {proposer}

theorem sent_proposeLoop_signal
    (deadline now : Nat)
    (sub : SubBlock ε)
    (channelOpen : Bool)
    (rest : List (Selected ε))
    (state : Proposal Tx Hash BlockHash ε) :
    (proposer.proposeLoop deadline
        (.signal now sub channelOpen :: rest) state).2.sent =
      if proposer.publishes (proposer.timed deadline now sub) state &&
          !channelOpen then
        state.sent
      else
        (proposer.proposeLoop deadline rest
          (proposer.buildSubBlock
            (proposer.timed deadline now sub) state)).2.sent := by
  change
    ((proposer.onSignal (proposer.timed deadline now sub) channelOpen >>=
      fun _ => proposer.proposeLoop deadline rest) state).2.sent = _
  rw [Proc.bind_apply, Proposer.onSignal]
  cases proposer.publishes (proposer.timed deadline now sub) state &&
    !channelOpen with
  | false =>
      rfl
  | true =>
      rfl

theorem begun_buildSubBlock
    (sub : SubBlock ε)
    (state : Proposal Tx Hash BlockHash ε) :
    (proposer.buildSubBlock sub state).subBlockCount ≠ 0 :=
  Nat.succ_ne_zero _

/-- From the second sub-block on, nothing that is published has a base. -/
theorem sent_proposeLoop
    (proposer : Proposer Tx Hash BlockHash ε)
    (deadline : Nat)
    (selected : List (Selected ε))
    {state : Proposal Tx Hash BlockHash ε}
    (begun : state.subBlockCount ≠ 0) :
    ∃ later,
      (proposer.proposeLoop deadline selected state).2.sent =
          state.sent ++ later ∧
        (∀ payload ∈ later, payload.base = none) ∧
        (later = [] ↔
          proposer.publishesLater deadline selected state = false) := by
  induction selected generalizing state with
  | nil =>
      exact ⟨[], (List.append_nil _).symm, nofun, by
        simp [Proposer.publishesLater]⟩
  | cons event rest inductionHypothesis =>
      cases event with
      | cancelled =>
          exact ⟨[], (List.append_nil _).symm, nofun, by
            simp [Proposer.publishesLater]⟩
      | closed =>
          exact ⟨[], (List.append_nil _).symm, nofun, by
            simp [Proposer.publishesLater]⟩
      | signal now sub channelOpen =>
          rw [sent_proposeLoop_signal]
          obtain ⟨later, sentLater, noBase, empty⟩ :=
            inductionHypothesis
              (begun_buildSubBlock (proposer.timed deadline now sub) state)
          unfold Proposer.publishesLater
          rcases buildSubBlock_cases proposer (proposer.timed deadline now sub)
            state with ⟨quiet, _, sent⟩ | ⟨payload, publishes, _, sent, _, _,
              base⟩
          · rw [sent] at sentLater
            exact ⟨later, by simpa [quiet] using sentLater, noBase, by
              simpa [quiet] using empty⟩
          · cases channelOpen with
            | false =>
                exact ⟨[], by simp [publishes], nofun, by simp [publishes]⟩
            | true =>
                rw [if_neg begun] at base
                rw [sent, List.append_assoc] at sentLater
                refine ⟨[payload] ++ later, by simpa [publishes] using
                  sentLater, ?_, by simp [publishes]⟩
                rw [List.forall_mem_append, List.forall_mem_singleton]
                exact ⟨base, noBase⟩

theorem baseComesFirst_iff_of_noBase
    {later : List (PreConfBlockPayload Tx Hash BlockHash)}
    (noBase : ∀ payload ∈ later, payload.base = none) :
    proposer.BaseComesFirst later ↔ later = [] := by
  cases later with
  | nil =>
      simp [Proposer.BaseComesFirst]
  | cons first rest =>
      simp [Proposer.BaseComesFirst, noBase first (List.mem_cons_self ..)]

theorem baseComesFirst_proposeLoop_iff
    (proposer : Proposer Tx Hash BlockHash ε)
    (deadline : Nat)
    (selected : List (Selected ε))
    {start : Proposal Tx Hash BlockHash ε}
    (notBegun : start.subBlockCount = 0)
    (nothingSent : start.sent = []) :
    proposer.BaseComesFirst
        (proposer.proposeLoop deadline selected start).2.sent ↔
      proposer.publishesAfterEmpty deadline selected start = false := by
  have sentNothing :
      proposer.BaseComesFirst start.sent ↔ false = false := by
    simp [nothingSent, Proposer.BaseComesFirst]
  match selected with
  | [] =>
      exact sentNothing
  | .cancelled :: _ =>
      exact sentNothing
  | .closed :: _ =>
      exact sentNothing
  | .signal now sub channelOpen :: rest =>
      rw [sent_proposeLoop_signal]
      obtain ⟨later, sentLater, noBase, empty⟩ :=
        sent_proposeLoop proposer deadline rest
          (begun_buildSubBlock (proposer.timed deadline now sub) start)
      unfold Proposer.publishesAfterEmpty
      rcases buildSubBlock_cases proposer (proposer.timed deadline now sub)
        start with ⟨quiet, _, sent⟩ | ⟨payload, publishes, _, sent, _, _,
          base⟩
      · rw [sent, nothingSent, List.nil_append] at sentLater
        simp only [quiet, Bool.false_and, Bool.false_eq_true, if_false,
          Bool.not_false, Bool.true_and, sentLater]
        exact (baseComesFirst_iff_of_noBase noBase).trans empty
      · rw [if_pos notBegun] at base
        rw [sent, nothingSent, List.nil_append] at sentLater
        simp only [publishes, Bool.true_and, Bool.not_true, Bool.false_and,
          iff_true]
        cases channelOpen with
        | false =>
            simp [nothingSent, Proposer.BaseComesFirst]
        | true =>
            simp only [Bool.not_true, Bool.false_eq_true, if_false, sentLater]
            exact ⟨⟨_, base, rfl, rfl⟩, noBase⟩

/--
The first payload that a block proposal publishes has the base, and the later
ones have none, unless a sub-block is published after a first one without
transactions.
-/
theorem firstPublished_hasBase_iff
    (proposer : Proposer Tx Hash BlockHash ε)
    (authoring : Authoring Tx ε) :
    proposer.BaseComesFirst (proposer.proposeWith authoring).2.sent ↔
      ∀ start,
        proposer.startProposal authoring = .ok start →
          proposer.publishesAfterEmpty authoring.deadline authoring.selected
            start = false := by
  cases started : proposer.startProposal authoring with
  | error error =>
      simp [Proposer.proposeWith, started, Proposer.BaseComesFirst,
        Proposal.new]
  | ok start =>
      obtain ⟨inherents, block, _, _, start_eq⟩ := startProposal_eq_ok started
      have sent :
          (proposer.proposeWith authoring).2.sent =
            (proposer.proposeLoop authoring.deadline authoring.selected
              start).2.sent := by
        simp only [Proposer.proposeWith, started]
        rcases proposer.proposeLoop authoring.deadline authoring.selected
          start with ⟨fault | _, reached⟩
        · rfl
        · cases authoring.built <;> cases authoring.proofConverted <;> rfl
      rw [sent, baseComesFirst_proposeLoop_iff proposer authoring.deadline
        authoring.selected (by rw [start_eq]; rfl) (by rw [start_eq]; rfl)]
      simp

/--
The first sub-block gives up after nine transactions that are too heavy, and
the second one is published without a base.
-/
theorem emptySubBlock_loses_base :
    let proposed :=
      Proposer.mock.proposeWith
        (.mock (List.range 10)
          [.signal 0 .overweight true, .signal 150000 (.mock 150000) true,
            .cancelled])
    proposed.1.toOption = some [100, 9] ∧
      proposed.2.sent.map (·.extrinsics) = [[9]] ∧
      proposed.2.sent.map (·.base) = [none] ∧
      ¬ Proposer.mock.BaseComesFirst proposed.2.sent := by
  intro proposed
  have bases : proposed.2.sent.map (·.base) = [none] := by decide +kernel
  refine ⟨by decide +kernel, by decide +kernel, bases, ?_⟩
  have noBase : ∀ payload ∈ proposed.2.sent, payload.base = none := by
    intro payload member
    have mapped := List.mem_map_of_mem (f := (·.base)) member
    rw [bases] at mapped
    exact List.mem_singleton.mp mapped
  rw [baseComesFirst_iff_of_noBase noBase]
  intro empty
  rw [empty] at bases
  cases bases

end Base

end HybridOrderbook.Preconf
