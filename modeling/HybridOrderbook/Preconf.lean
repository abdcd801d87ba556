import Mathlib.Tactic

namespace HybridOrderbook.Preconf

/-!
# Preconfirmed sub-blocks

The proposer of `preconf.rs` builds a block in sub-blocks.  All of them share
one block builder and one iterator over the ready transactions, and each has
a deadline of its own.

What the proposer reads from outside is an input here: the clock, in
microseconds, the size estimates of the block builder and its answers to
pushed transactions.  `Reading` holds those of one round of
`apply_extrinsics`.
-/

/-- Why a sub-block ended. -/
inductive EndProposingReason where
  | noMoreTransactions
  | hitDeadline
  | hitBlockSizeLimit
  | hitBlockWeightLimit
  deriving Repr, DecidableEq

/-- An error of the block builder. -/
inductive PushError (ε : Type) where
  | validity (error : ε)
  | other
  deriving Repr, DecidableEq

/-- What one round reads. -/
structure Reading (ε : Type) where
  -- the clock, after a transaction was taken
  now : Nat
  blockSize : Nat
  push : Except (PushError ε) Unit
  -- the clock, after the block builder ran out of resources
  nowAfterPush : Nat

/-- What one sub-block reads: the clock at its start, and its rounds. -/
structure SubBlock (ε : Type) where
  now : Nat
  deadline : Nat
  timestamp : Nat
  readings : Nat → Reading ε

/--
The iterator over the ready transactions, with those it has yielded and those
that were reported to it.
-/
structure ReadyTxs (Tx : Type) where
  pending : List Tx
  yielded : List Tx
  reported : List Tx
  deriving Repr, DecidableEq

/-- The proposer, and the functions of its types. -/
structure Proposer (Tx Hash BlockHash ε : Type) where
  hash : Tx → Hash
  encodedSize : Tx → Nat
  -- whether a transaction needs another one before it
  dependsOn : Tx → Tx → Bool
  exhaustedResources : ε → Bool
  parentHash : BlockHash
  parentNumber : Nat
  blockSizeLimit : Nat
  softDeadlinePercent : Nat
  -- in milliseconds
  preconfBlockTime : Nat

/-- The base that is sent with a sub-block. -/
structure PreConfBlockBase (BlockHash : Type) where
  parentHash : BlockHash
  blockNumber : Nat
  blockSizeLimit : Nat
  timestamp : Nat
  deriving Repr, DecidableEq

/-- What is published of a sub-block. -/
structure PreConfBlockPayload (Tx Hash BlockHash : Type) where
  index : Nat
  base : Option (PreConfBlockBase BlockHash)
  extrinsics : List Tx
  hashes : List Hash
  endReason : EndProposingReason
  extrinsicsCount : Nat
  deriving Repr, DecidableEq

/-- The variables of `apply_extrinsics`. -/
structure Applying (Tx Hash ε : Type) where
  ready : ReadyTxs Tx
  -- the transactions in the block builder
  block : List Tx
  skipped : Nat
  unqueueInvalid : List (Hash × Option ε)
  extrinsics : List Tx
  extrinsicsHashes : List Hash
  rounds : Nat

/-- The variables of `propose_with`. -/
structure Proposal (Tx Hash BlockHash ε : Type) where
  ready : ReadyTxs Tx
  block : List Tx
  subBlockCount : Nat
  sent : List (PreConfBlockPayload Tx Hash BlockHash)
  -- the reports to the transaction pool
  unqueued : List (List (Hash × Option ε))

def maxSkippedTransactions : Nat := 8

variable {Tx Hash BlockHash ε : Type}

/-- Take the next transaction. -/
def ReadyTxs.next (ready : ReadyTxs Tx) : Option (Tx × ReadyTxs Tx) :=
  match ready.pending with
  | [] => none
  | tx :: rest =>
      some (tx,
        { ready with pending := rest, yielded := ready.yielded ++ [tx] })

/-- The variables after a transaction was taken from the iterator. -/
def Applying.took
    (state : Applying Tx Hash ε)
    (tx : Tx)
    (rest : List Tx) : Applying Tx Hash ε :=
  { state with
    ready :=
      { state.ready with
        pending := rest
        yielded := state.ready.yielded ++ [tx] } }

/-- What is reported to the transaction pool for an error. -/
def PushError.toReport : PushError ε → Option ε
  | .validity error => some error
  | .other => none

namespace Proposer

variable (proposer : Proposer Tx Hash BlockHash ε)

/-- Skip what depends on a transaction from now on. -/
def reportInvalid (tx : Tx) (ready : ReadyTxs Tx) : ReadyTxs Tx :=
  { ready with
    pending := ready.pending.filter fun other => !proposer.dependsOn other tx
    reported := ready.reported ++ [tx] }

def isExhausted : PushError ε → Bool
  | .validity error => proposer.exhaustedResources error
  | .other => false

/-- The deadline of a sub-block. -/
def effectiveDeadline (now deadline : Nat) : Nat :=
  min (now + proposer.preconfBlockTime * 1000) deadline

/-- The time after which a full block is not tried any more. -/
def softDeadline (now deadline : Nat) : Nat :=
  now + proposer.softDeadlinePercent * min (deadline - now) (2 ^ 64 - 1) / 100

section Rounds

variable (sub : SubBlock ε)

/-- Try to push a transaction; a reason ends the sub-block. -/
def tryTransaction
    (tx : Tx)
    (state : Applying Tx Hash ε) :
    Applying Tx Hash ε × Option EndProposingReason :=
  let reading := sub.readings state.rounds
  let softDeadline := proposer.softDeadline sub.now sub.deadline
  let state := { state with rounds := state.rounds + 1 }
  let reported :=
    { state with ready := proposer.reportInvalid tx state.ready }
  if reading.now > sub.deadline then
    (state, some .hitDeadline)
  else if reading.blockSize + proposer.encodedSize tx >
      proposer.blockSizeLimit then
    if state.skipped < maxSkippedTransactions then
      ({ reported with skipped := state.skipped + 1 }, none)
    else if reading.now < softDeadline then
      (reported, none)
    else
      (reported, some .hitBlockSizeLimit)
  else
    match reading.push with
    | .ok () =>
        ({ state with
            block := state.block ++ [tx]
            extrinsics := state.extrinsics ++ [tx]
            extrinsicsHashes := state.extrinsicsHashes ++ [proposer.hash tx] },
          none)
    | .error error =>
        if proposer.isExhausted error then
          if state.skipped < maxSkippedTransactions then
            ({ reported with skipped := state.skipped + 1 }, none)
          else if reading.nowAfterPush < softDeadline then
            (reported, none)
          else
            (reported, some .hitBlockWeightLimit)
        else
          ({ reported with
              unqueueInvalid := state.unqueueInvalid ++
                [(proposer.hash tx, error.toReport)] },
            none)

/-- One round of `apply_extrinsics`. -/
def applyRound (state : Applying Tx Hash ε) :
    Applying Tx Hash ε × Option EndProposingReason :=
  match state.ready.next with
  | none => (state, some .noMoreTransactions)
  | some (tx, ready) =>
      proposer.tryTransaction sub tx { state with ready := ready }

end Rounds

/-- What became of a transaction that was taken. -/
inductive Handled
    (proposer : Proposer Tx Hash BlockHash ε)
    (sub : SubBlock ε)
    (tx : Tx)
    (state next : Applying Tx Hash ε)
    (reason : Option EndProposingReason) : Prop where
  | dropped
      (late : sub.deadline < (sub.readings state.rounds).now)
      (ends : reason = some .hitDeadline)
      (next_eq : next = { state with rounds := state.rounds + 1 })
  | reported
      (inTime : (sub.readings state.rounds).now ≤ sub.deadline)
      (next_eq :
        next =
          { state with
            ready := proposer.reportInvalid tx state.ready
            skipped := next.skipped
            unqueueInvalid := next.unqueueInvalid
            rounds := state.rounds + 1 })
  | pushed
      (inTime : (sub.readings state.rounds).now ≤ sub.deadline)
      (next_eq :
        next =
          { state with
            block := state.block ++ [tx]
            extrinsics := state.extrinsics ++ [tx]
            extrinsicsHashes := state.extrinsicsHashes ++ [proposer.hash tx]
            rounds := state.rounds + 1 })

variable {proposer}

theorem handled_of_tryTransaction
    (sub : SubBlock ε)
    (tx : Tx)
    (state : Applying Tx Hash ε) :
    proposer.Handled sub tx state (proposer.tryTransaction sub tx state).1
      (proposer.tryTransaction sub tx state).2 := by
  simp only [tryTransaction]
  split
  · rename_i late
    exact .dropped late rfl rfl
  · rename_i notLate
    have inTime := Nat.le_of_not_lt notLate
    split
    · split
      · exact .reported inTime rfl
      · split
        · exact .reported inTime rfl
        · exact .reported inTime rfl
    · split
      · exact .pushed inTime rfl
      · split
        · split
          · exact .reported inTime rfl
          · split
            · exact .reported inTime rfl
            · exact .reported inTime rfl
        · exact .reported inTime rfl

/-- A round ends for want of transactions, or handles one. -/
theorem handled_of_applyRound
    {sub : SubBlock ε}
    {state next : Applying Tx Hash ε}
    {reason : Option EndProposingReason}
    (round : proposer.applyRound sub state = (next, reason)) :
    (next = state ∧ reason = some .noMoreTransactions) ∨
      ∃ tx rest,
        state.ready.pending = tx :: rest ∧
          proposer.Handled sub tx (state.took tx rest) next reason := by
  unfold applyRound ReadyTxs.next at round
  cases pending : state.ready.pending with
  | nil =>
      simp only [pending, Prod.mk.injEq] at round
      exact .inl ⟨round.1.symm, round.2.symm⟩
  | cons tx rest =>
      simp only [pending] at round
      refine .inr ⟨tx, rest, rfl, ?_⟩
      have handled : proposer.Handled sub tx (state.took tx rest) _ _ :=
        handled_of_tryTransaction sub tx (state.took tx rest)
      have tried :
          proposer.tryTransaction sub tx (state.took tx rest) =
            (next, reason) := round
      rw [tried] at handled
      exact handled

theorem Handled.rounds
    {sub : SubBlock ε}
    {tx : Tx}
    {state next : Applying Tx Hash ε}
    {reason : Option EndProposingReason}
    (handled : proposer.Handled sub tx state next reason) :
    next.rounds = state.rounds + 1 := by
  cases handled with
  | dropped _ _ next_eq | reported _ next_eq | pushed _ next_eq =>
      rw [next_eq]

theorem Handled.yielded
    {sub : SubBlock ε}
    {tx : Tx}
    {state next : Applying Tx Hash ε}
    {reason : Option EndProposingReason}
    (handled : proposer.Handled sub tx state next reason) :
    next.ready.yielded = state.ready.yielded := by
  cases handled with
  | dropped _ _ next_eq | pushed _ next_eq =>
      rw [next_eq]
  | reported _ next_eq =>
      rw [next_eq]
      rfl

/-- A round without a reason to end has taken a transaction. -/
theorem pending_lt_of_applyRound
    {sub : SubBlock ε}
    {state next : Applying Tx Hash ε}
    (goesOn : proposer.applyRound sub state = (next, none)) :
    next.ready.pending.length < state.ready.pending.length := by
  rcases handled_of_applyRound goesOn with ⟨_, ends⟩ | ⟨tx, rest, pending,
    handled⟩
  · cases ends
  · rw [pending]
    cases handled with
    | dropped _ ends _ =>
        cases ends
    | reported _ next_eq =>
        rw [next_eq]
        exact Nat.lt_succ_of_le (List.length_filter_le ..)
    | pushed _ next_eq =>
        rw [next_eq]
        exact Nat.lt_succ_self _

variable (proposer)

/-- The loop of `apply_extrinsics`. -/
def applyLoop
    (sub : SubBlock ε)
    (state : Applying Tx Hash ε) :
    EndProposingReason × Applying Tx Hash ε :=
  match _ : proposer.applyRound sub state with
  | (next, some reason) => (reason, next)
  | (next, none) => applyLoop sub next
termination_by state.ready.pending.length
decreasing_by exact pending_lt_of_applyRound ‹_›

/-- Push ready transactions until there is a reason to end. -/
def applyExtrinsics
    (sub : SubBlock ε)
    (ready : ReadyTxs Tx)
    (block : List Tx) : EndProposingReason × Applying Tx Hash ε :=
  proposer.applyLoop sub ⟨ready, block, 0, [], [], [], 0⟩

/-- What is published of a sub-block: nothing if it has no transactions. -/
def subBlockPayload
    (index : Nat)
    (base : Option (PreConfBlockBase BlockHash))
    (applied : EndProposingReason × Applying Tx Hash ε) :
    Option (PreConfBlockPayload Tx Hash BlockHash) :=
  if applied.2.extrinsics.length > 0 then
    some ⟨index, base, applied.2.extrinsics, applied.2.extrinsicsHashes,
      applied.1, applied.2.extrinsics.length⟩
  else
    none

/-- Build the next sub-block and publish it. -/
def buildSubBlock
    (sub : SubBlock ε)
    (state : Proposal Tx Hash BlockHash ε) : Proposal Tx Hash BlockHash ε :=
  let applied := proposer.applyExtrinsics sub state.ready state.block
  -- only the first sub-block has a base
  let base :=
    if state.subBlockCount = 0 then
      some ⟨proposer.parentHash, proposer.parentNumber + 1,
        proposer.blockSizeLimit, sub.timestamp⟩
    else
      none
  { ready := applied.2.ready
    block := applied.2.block
    subBlockCount := state.subBlockCount + 1
    sent := state.sent ++
      (subBlockPayload state.subBlockCount base applied).toList
    unqueued := state.unqueued ++ [applied.2.unqueueInvalid] }

/-- Build sub-blocks on a signal each. -/
def buildSubBlocks
    (subs : List (SubBlock ε))
    (state : Proposal Tx Hash BlockHash ε) : Proposal Tx Hash BlockHash ε :=
  subs.foldl (fun state sub => proposer.buildSubBlock sub state) state

end Proposer

/-- A proposal before its first sub-block. -/
def Proposal.new (pending : List Tx) : Proposal Tx Hash BlockHash ε :=
  ⟨⟨pending, [], []⟩, [], 0, [], []⟩

section Accounting

variable {proposer : Proposer Tx Hash BlockHash ε}

/-- Every transaction is yielded once; pushed and reported ones were. -/
structure Consistent (ready : ReadyTxs Tx) (block : List Tx) : Prop where
  distinct : (ready.yielded ++ ready.pending).Nodup
  pushed : ∀ tx ∈ block, tx ∈ ready.yielded
  reported : ∀ tx ∈ ready.reported, tx ∈ ready.yielded

/-- A transaction is in the block, or it was reported to the iterator. -/
def Settled (ready : ReadyTxs Tx) (block : List Tx) (tx : Tx) : Prop :=
  tx ∈ block ∨ tx ∈ ready.reported

/--
From one state to a later one, the given transactions were taken, and nothing
became of those that were taken earlier.
-/
structure Takes
    (ready : ReadyTxs Tx)
    (block : List Tx)
    (nextReady : ReadyTxs Tx)
    (nextBlock taken : List Tx) : Prop where
  consistent : Consistent nextReady nextBlock
  yielded : nextReady.yielded = ready.yielded ++ taken
  earlier :
    ∀ tx ∈ ready.yielded,
      Settled nextReady nextBlock tx ↔ Settled ready block tx

variable {ready middle nextReady : ReadyTxs Tx}
  {block middleBlock nextBlock taken later : List Tx}

theorem Takes.refl (consistent : Consistent ready block) :
    Takes ready block ready block [] :=
  ⟨consistent, by rw [List.append_nil], fun _ _ => Iff.rfl⟩

theorem Takes.trans
    (first : Takes ready block middle middleBlock taken)
    (second : Takes middle middleBlock nextReady nextBlock later) :
    Takes ready block nextReady nextBlock (taken ++ later) where
  consistent := second.consistent
  yielded := by rw [second.yielded, first.yielded, List.append_assoc]
  earlier tx member := by
    have stillYielded : tx ∈ middle.yielded := by
      rw [first.yielded]
      exact List.mem_append_left _ member
    exact (second.earlier tx stillYielded).trans (first.earlier tx member)

/-- What was taken is told apart by when it was yielded. -/
theorem Takes.mem_iff
    (takes : Takes ready block nextReady nextBlock taken)
    (tx : Tx) :
    tx ∈ taken ↔ tx ∈ nextReady.yielded ∧ tx ∉ ready.yielded := by
  have distinct := takes.consistent.distinct
  rw [takes.yielded, List.append_assoc, List.nodup_append] at distinct
  rw [takes.yielded, List.mem_append]
  constructor
  · intro member
    exact ⟨.inr member, fun again => distinct.2.2 tx again tx
      (List.mem_append_left _ member) rfl⟩
  · rintro ⟨member | member, new⟩
    · exact absurd member new
    · exact member

/-- One round: a transaction is settled unless the deadline has passed. -/
theorem takes_of_handled
    {sub : SubBlock ε}
    {tx : Tx}
    {rest : List Tx}
    {state next : Applying Tx Hash ε}
    {reason : Option EndProposingReason}
    (consistent : Consistent state.ready state.block)
    (pending : state.ready.pending = tx :: rest)
    (handled : proposer.Handled sub tx (state.took tx rest) next reason) :
    Takes state.ready state.block next.ready next.block [tx] ∧
      (Settled next.ready next.block tx ↔
        (sub.readings state.rounds).now ≤ sub.deadline) := by
  have distinct : ((state.ready.yielded ++ [tx]) ++ rest).Nodup := by
    simpa [pending] using consistent.distinct
  have new : tx ∉ state.ready.yielded := fun again =>
    (List.nodup_append.mp (List.nodup_append.mp distinct).1).2.2 tx again tx
      (List.mem_singleton_self tx) rfl
  have notPushed : tx ∉ state.block := fun member =>
    new (consistent.pushed tx member)
  have notReported : tx ∉ state.ready.reported := fun member =>
    new (consistent.reported tx member)
  have different : ∀ other ∈ state.ready.yielded, other ≠ tx :=
    fun other member same => new (same ▸ member)
  cases handled with
  | dropped late _ next_eq =>
      subst next_eq
      refine ⟨⟨⟨distinct, ?_, ?_⟩, rfl, fun _ _ => Iff.rfl⟩, ?_⟩
      · exact fun other member =>
          List.mem_append_left _ (consistent.pushed other member)
      · exact fun other member =>
          List.mem_append_left _ (consistent.reported other member)
      · refine iff_of_false ?_ (Nat.not_le_of_lt late)
        simp [Settled, Applying.took, notPushed, notReported]
  | reported inTime next_eq =>
      rw [next_eq]
      refine ⟨⟨⟨?_, ?_, ?_⟩, rfl, fun other member => ?_⟩, ?_⟩
      · exact distinct.sublist (List.filter_sublist.append_left _)
      · exact fun other member =>
          List.mem_append_left _ (consistent.pushed other member)
      · intro other member
        rcases List.mem_append.mp member with earlier | here
        · exact List.mem_append_left _ (consistent.reported other earlier)
        · exact List.mem_append_right _ here
      · simp [Settled, Applying.took, Proposer.reportInvalid,
          different other member]
      · refine iff_of_true ?_ inTime
        simp [Settled, Applying.took, Proposer.reportInvalid]
  | pushed inTime next_eq =>
      subst next_eq
      refine ⟨⟨⟨distinct, ?_, ?_⟩, rfl, fun other member => ?_⟩, ?_⟩
      · intro other member
        rcases List.mem_append.mp member with earlier | here
        · exact List.mem_append_left _ (consistent.pushed other earlier)
        · exact List.mem_append_right _ here
      · exact fun other member =>
          List.mem_append_left _ (consistent.reported other member)
      · simp [Settled, Applying.took, different other member]
      · refine iff_of_true ?_ inTime
        simp [Settled]

/-- A sub-block: all it took is settled unless its deadline has passed. -/
theorem takes_of_applyLoop
    (sub : SubBlock ε)
    {state : Applying Tx Hash ε}
    (consistent : Consistent state.ready state.block) :
    ∃ taken,
      Takes state.ready state.block (proposer.applyLoop sub state).2.ready
          (proposer.applyLoop sub state).2.block taken ∧
        ((∀ tx ∈ taken,
          Settled (proposer.applyLoop sub state).2.ready
            (proposer.applyLoop sub state).2.block tx) ↔
          ∀ round < taken.length,
            (sub.readings (state.rounds + round)).now ≤ sub.deadline) := by
  fun_induction proposer.applyLoop sub state with
  | case1 state next reason round =>
      rcases Proposer.handled_of_applyRound round with ⟨rfl, _⟩ | ⟨tx,
        rest, pending, handled⟩
      · exact ⟨[], Takes.refl consistent, by simp⟩
      · obtain ⟨takes, settled⟩ := takes_of_handled consistent pending handled
        exact ⟨[tx], takes, by simpa using settled⟩
  | case2 state next round inductionHypothesis =>
      rcases Proposer.handled_of_applyRound round with ⟨_, ends⟩ | ⟨tx, rest,
        pending, handled⟩
      · cases ends
      · obtain ⟨takes, settled⟩ := takes_of_handled consistent pending handled
        obtain ⟨later, takesLater, settledLater⟩ :=
          inductionHypothesis takes.consistent
        refine ⟨[tx] ++ later, takes.trans takesLater, ?_⟩
        -- nothing becomes of the first one in later rounds
        have first :=
          (takesLater.earlier tx ((takes.mem_iff tx).mp
            (List.mem_singleton_self tx)).1).trans settled
        have rounds : next.rounds = state.rounds + 1 := handled.rounds
        rw [List.forall_mem_append, List.forall_mem_singleton, first,
          settledLater, rounds, List.singleton_append, List.length_cons,
          Nat.forall_lt_succ_left]
        simp only [Nat.add_zero, Nat.add_assoc, Nat.add_comm 1]

/-- The transaction that a sub-block takes in a round. -/
def Proposer.takenIn
    (proposer : Proposer Tx Hash BlockHash ε)
    (sub : SubBlock ε)
    (state : Proposal Tx Hash BlockHash ε)
    (round : Nat) : Option Tx :=
  (proposer.buildSubBlock sub state).ready.yielded[
    state.ready.yielded.length + round]?

theorem takes_of_buildSubBlock
    (proposer : Proposer Tx Hash BlockHash ε)
    (sub : SubBlock ε)
    {state : Proposal Tx Hash BlockHash ε}
    (consistent : Consistent state.ready state.block) :
    ∃ taken,
      Takes state.ready state.block (proposer.buildSubBlock sub state).ready
          (proposer.buildSubBlock sub state).block taken ∧
        ((∀ tx ∈ taken,
          Settled (proposer.buildSubBlock sub state).ready
            (proposer.buildSubBlock sub state).block tx) ↔
          ∀ round tx,
            proposer.takenIn sub state round = some tx →
              (sub.readings round).now ≤ sub.deadline) := by
  have start :
      Consistent
        (⟨state.ready, state.block, 0, [], [], [], 0⟩ :
          Applying Tx Hash ε).ready state.block := consistent
  obtain ⟨taken, takes, settled⟩ := takes_of_applyLoop sub start
  refine ⟨taken, takes, settled.trans (forall_congr' fun round => ?_)⟩
  have yielded :
      (proposer.buildSubBlock sub state).ready.yielded =
        state.ready.yielded ++ taken := takes.yielded
  have takenIn : proposer.takenIn sub state round = taken[round]? := by
    rw [Proposer.takenIn, yielded,
      List.getElem?_append_right (Nat.le_add_right ..), Nat.add_sub_cancel_left]
  rw [takenIn, Nat.zero_add]
  constructor
  · intro inTime tx found
    exact inTime (List.getElem?_eq_some_iff.mp found).1
  · intro inTime within
    exact inTime _ (List.getElem?_eq_getElem within)

theorem takes_of_buildSubBlocks
    (proposer : Proposer Tx Hash BlockHash ε)
    (subs : List (SubBlock ε))
    {state : Proposal Tx Hash BlockHash ε}
    (consistent : Consistent state.ready state.block) :
    ∃ taken,
      Takes state.ready state.block
        (proposer.buildSubBlocks subs state).ready
        (proposer.buildSubBlocks subs state).block taken := by
  induction subs generalizing state with
  | nil =>
      exact ⟨[], Takes.refl consistent⟩
  | cons sub rest inductionHypothesis =>
      obtain ⟨taken, takes, _⟩ :=
        takes_of_buildSubBlock proposer sub consistent
      obtain ⟨later, takesLater⟩ := inductionHypothesis takes.consistent
      exact ⟨taken ++ later, takes.trans takesLater⟩

/-- The sub-blocks take further transactions. -/
def Proposer.TakesMore
    (proposer : Proposer Tx Hash BlockHash ε)
    (subs : List (SubBlock ε))
    (state : Proposal Tx Hash BlockHash ε) : Prop :=
  (proposer.buildSubBlocks subs state).ready.yielded ≠ state.ready.yielded

/--
Whatever a sub-block takes is in the block in the end, or was reported, if
later sub-blocks take further transactions.
-/
def Proposer.AccountsForTaken (proposer : Proposer Tx Hash BlockHash ε) :
    List (SubBlock ε) → Proposal Tx Hash BlockHash ε → Prop
  | [], _ => True
  | sub :: rest, state =>
      let next := proposer.buildSubBlock sub state
      let final := proposer.buildSubBlocks rest next
      (proposer.TakesMore rest next →
        ∀ tx ∈ next.ready.yielded,
          tx ∉ state.ready.yielded → Settled final.ready final.block tx) ∧
        proposer.AccountsForTaken rest next

/--
Whenever a sub-block takes a transaction, the clock is not past its deadline,
if later sub-blocks take further transactions.
-/
def Proposer.TakesInTime (proposer : Proposer Tx Hash BlockHash ε) :
    List (SubBlock ε) → Proposal Tx Hash BlockHash ε → Prop
  | [], _ => True
  | sub :: rest, state =>
      let next := proposer.buildSubBlock sub state
      (proposer.TakesMore rest next →
        ∀ round tx,
          proposer.takenIn sub state round = some tx →
            (sub.readings round).now ≤ sub.deadline) ∧
        proposer.TakesInTime rest next

theorem accountsForTaken_iff_takesInTime
    (proposer : Proposer Tx Hash BlockHash ε)
    (subs : List (SubBlock ε))
    {state : Proposal Tx Hash BlockHash ε}
    (consistent : Consistent state.ready state.block) :
    proposer.AccountsForTaken subs state ↔
      proposer.TakesInTime subs state := by
  induction subs generalizing state with
  | nil =>
      exact Iff.rfl
  | cons sub rest inductionHypothesis =>
      obtain ⟨taken, takes, settled⟩ :=
        takes_of_buildSubBlock proposer sub consistent
      obtain ⟨later, takesLater⟩ :=
        takes_of_buildSubBlocks proposer rest takes.consistent
      refine and_congr (imp_congr_right fun _ => ?_)
        (inductionHypothesis takes.consistent)
      rw [← settled]
      constructor
      · intro accounts tx member
        obtain ⟨yielded, new⟩ := (takes.mem_iff tx).mp member
        exact (takesLater.earlier tx yielded).mp (accounts tx yielded new)
      · intro settledHere tx yielded new
        exact (takesLater.earlier tx yielded).mpr
          (settledHere tx ((takes.mem_iff tx).mpr ⟨yielded, new⟩))

/--
In a block proposal, all transactions that sub-blocks take before later ones
take more are pushed or reported, if and only if those sub-blocks take none
when the clock is past their deadline.
-/
theorem takenTransactions_accounted_iff
    (proposer : Proposer Tx Hash BlockHash ε)
    (pending : List Tx)
    (distinct : pending.Nodup)
    (subs : List (SubBlock ε)) :
    proposer.AccountsForTaken subs (Proposal.new pending) ↔
      proposer.TakesInTime subs (Proposal.new pending) :=
  accountsForTaken_iff_takesInTime proposer subs
    ⟨by simpa [Proposal.new] using distinct, nofun, nofun⟩

end Accounting

section Deadlines

/-- A proposer with sub-blocks of 100 ms, and transactions of size one. -/
def Proposer.mock : Proposer Nat Nat Nat Unit where
  hash tx := tx
  encodedSize _ := 1
  dependsOn _ _ := false
  exhaustedResources _ := true
  parentHash := 0
  parentNumber := 0
  blockSizeLimit := 10
  softDeadlinePercent := 50
  preconfBlockTime := 100

/--
A sub-block of a proposal with two seconds of time.  All its transactions are
valid; the clock advances by 60 ms for each.
-/
def SubBlock.mock (now : Nat) : SubBlock Unit where
  now := now
  deadline := Proposer.mock.effectiveDeadline now 2000000
  timestamp := 0
  readings round := ⟨now + (round + 1) * 60000, 0, .ok (), 0⟩

/--
Transaction 2 is taken 20 ms after the deadline of the first sub-block, and
lost: the second one goes on with transaction 3.
-/
theorem deadline_loses_transaction :
    (Proposer.mock.buildSubBlocks [.mock 0, .mock 150000]
        (Proposal.new [1, 2, 3])).ready = ⟨[], [1, 2, 3], []⟩ ∧
      (Proposer.mock.buildSubBlocks [.mock 0, .mock 150000]
        (Proposal.new [1, 2, 3])).block = [1, 3] ∧
      ¬ Proposer.mock.AccountsForTaken [.mock 0, .mock 150000]
        (Proposal.new [1, 2, 3]) := by
  refine ⟨by decide +kernel, by decide +kernel, ?_⟩
  rintro ⟨accounts, _⟩
  have goesOn :
      Proposer.mock.TakesMore [.mock 150000]
        (Proposer.mock.buildSubBlock (.mock 0)
          (Proposal.new [1, 2, 3])) := by
    unfold Proposer.TakesMore
    decide +kernel
  have settled := accounts goesOn 2 (by decide +kernel) (by decide +kernel)
  unfold Settled at settled
  revert settled
  decide +kernel

/-- A sub-block in which every transaction exceeds the weight of the block. -/
def SubBlock.overweight : SubBlock Unit where
  now := 0
  deadline := Proposer.mock.effectiveDeadline 0 2000000
  timestamp := 0
  readings _ := ⟨0, 0, .error (.validity ()), 60000⟩

/--
The first sub-block gives up after nine transactions that it reports, and the
second one takes the tenth.
-/
theorem takenTransactions_accounted_overweight :
    Proposer.mock.TakesMore [.mock 150000]
        (Proposer.mock.buildSubBlock .overweight
          (Proposal.new (List.range 10))) ∧
      Proposer.mock.AccountsForTaken [.overweight, .mock 150000]
        (Proposal.new (List.range 10)) := by
  constructor
  · unfold Proposer.TakesMore
    decide +kernel
  · refine (takenTransactions_accounted_iff Proposer.mock (List.range 10)
      (by decide) _).mpr ⟨fun _ _ _ _ => Nat.zero_le _, fun more => ?_, trivial⟩
    exact absurd rfl more

end Deadlines

end HybridOrderbook.Preconf
