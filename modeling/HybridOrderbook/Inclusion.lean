import HybridOrderbook.Tasks

namespace HybridOrderbook.Preconf

open Library
open scoped List

/-!
# What a block includes

The transaction pool lists the ready transactions in an order in which none
comes before one that it depends on.  Transactions are taken from it one by
one, over all sub-blocks, and each is pushed, reported, or dropped because the
deadline of its sub-block has passed.  The block then has, in the order of the
pool, transactions that need none of the reported ones.

The second half bounds the size of the block.
-/

variable {Tx Hash BlockHash ε : Type}
  {proposer : Proposer Tx Hash BlockHash ε}

/-- What became of the listed transactions. -/
structure Includes
    (proposer : Proposer Tx Hash BlockHash ε)
    (listed : List Tx)
    (ready : ReadyTxs Tx)
    (included dropped : List Tx) : Prop where
  order : (ready.yielded ++ ready.pending).Sublist listed
  taken : included.Sublist ready.yielded
  accounted :
    ready.yielded.Perm (included ++ (ready.reported ++ dropped))
  independent :
    ∀ reported ∈ ready.reported, ∀ tx ∈ included ++ ready.pending,
      proposer.dependsOn tx reported = false
  skipped :
    ∀ tx ∈ listed,
      tx ∈ ready.yielded ++ ready.pending ∨
        ∃ reported ∈ ready.reported, proposer.dependsOn tx reported = true

namespace Includes

variable {listed included dropped rest : List Tx} {ready : ReadyTxs Tx}
  {tx : Tx}

theorem start (listed : List Tx) :
    Includes proposer listed ⟨listed, [], []⟩ [] [] where
  order := List.Sublist.refl _
  taken := .slnil
  accounted := .nil
  independent := nofun
  skipped _ member := .inl member

section Round

variable (includes : Includes proposer listed ready included dropped)
  (pending : ready.pending = tx :: rest)
include includes pending

theorem order_cons : (ready.yielded ++ [tx] ++ rest).Sublist listed := by
  have order := includes.order
  rwa [pending, List.append_cons] at order

theorem skipped_cons :
    ∀ other ∈ listed,
      other ∈ ready.yielded ++ [tx] ++ rest ∨
        ∃ reported ∈ ready.reported,
          proposer.dependsOn other reported = true := by
  have skipped := includes.skipped
  rwa [pending, List.append_cons] at skipped

theorem independent_cons :
    ∀ reported ∈ ready.reported, ∀ other ∈ included ++ [tx] ++ rest,
      proposer.dependsOn other reported = false := by
  have independent := includes.independent
  rwa [pending, List.append_cons] at independent

/-- The deadline has passed. -/
theorem drop :
    Includes proposer listed
      { ready with pending := rest, yielded := ready.yielded ++ [tx] }
      included (dropped ++ [tx]) where
  order := includes.order_cons pending
  taken := includes.taken.trans (List.sublist_append_left ..)
  accounted := by
    simp only [← List.append_assoc]
    refine List.Perm.append_right _ ?_
    rw [List.append_assoc]
    exact includes.accounted
  independent reported isReported other member := by
    refine includes.independent_cons pending reported isReported other ?_
    rw [List.append_assoc]
    rcases List.mem_append.mp member with isIncluded | inRest
    · exact List.mem_append_left _ isIncluded
    · exact List.mem_append_right _ (List.mem_cons_of_mem _ inRest)
  skipped := includes.skipped_cons pending

theorem push :
    Includes proposer listed
      { ready with pending := rest, yielded := ready.yielded ++ [tx] }
      (included ++ [tx]) dropped where
  order := includes.order_cons pending
  taken := includes.taken.append (.refl _)
  accounted := by
    calc ready.yielded ++ [tx]
        _ ~ included ++ (ready.reported ++ dropped) ++ [tx] :=
          includes.accounted.append_right _
        _ ~ included ++ ([tx] ++ (ready.reported ++ dropped)) := by
          rw [List.append_assoc]
          exact List.perm_append_comm.append_left _
        _ = included ++ [tx] ++ (ready.reported ++ dropped) :=
          (List.append_assoc ..).symm
  independent := includes.independent_cons pending
  skipped := includes.skipped_cons pending

/--
What depends on a reported transaction is not yielded; what was included
before it does not depend on it.
-/
theorem report
    (ordered :
      listed.Pairwise fun earlier later =>
        proposer.dependsOn earlier later = false) :
    Includes proposer listed
      (proposer.reportInvalid tx
        { ready with pending := rest, yielded := ready.yielded ++ [tx] })
      included dropped := by
  have order := includes.order_cons pending
  constructor
  · exact (List.filter_sublist.append_left _).trans order
  · exact includes.taken.trans (List.sublist_append_left ..)
  · calc ready.yielded ++ [tx]
        _ ~ included ++ (ready.reported ++ dropped) ++ [tx] :=
          includes.accounted.append_right _
        _ = included ++ (ready.reported ++ (dropped ++ [tx])) := by
          rw [List.append_assoc, List.append_assoc]
        _ ~ included ++ (ready.reported ++ ([tx] ++ dropped)) :=
          (List.perm_append_comm.append_left _).append_left _
        _ = included ++ (ready.reported ++ [tx] ++ dropped) := by
          rw [List.append_assoc]
  · intro reported isReported other member
    rcases List.mem_append.mp isReported with earlier | here
    · refine includes.independent_cons pending reported earlier other ?_
      rw [List.append_assoc]
      rcases List.mem_append.mp member with isIncluded | inRest
      · exact List.mem_append_left _ isIncluded
      · exact List.mem_append_right _
          (List.mem_cons_of_mem _ (List.mem_of_mem_filter inRest))
    · rw [List.mem_singleton.mp here]
      rcases List.mem_append.mp member with isIncluded | inRest
      · have before := (List.pairwise_append.mp
          (ordered.sublist ((List.sublist_append_left ..).trans order))).2.2
        exact before other (includes.taken.subset isIncluded) tx
          (List.mem_singleton_self tx)
      · simpa using (List.mem_filter.mp inRest).2
  · intro other isListed
    rcases includes.skipped_cons pending other isListed with isThere | ⟨
      reported, isReported, depends⟩
    · by_cases depends : proposer.dependsOn other tx = true
      · exact .inr ⟨tx, List.mem_append_right _ (List.mem_singleton_self tx),
          depends⟩
      · refine .inl ?_
        rcases List.mem_append.mp isThere with isYielded | inRest
        · exact List.mem_append_left _ isYielded
        · exact List.mem_append_right _
            (List.mem_filter.mpr ⟨inRest, by simpa using depends⟩)
    · exact .inr ⟨reported, List.mem_append_left _ isReported, depends⟩

end Round

/-- What an included transaction needs is included, or was dropped. -/
theorem needed
    (includes : Includes proposer listed ready included dropped)
    (ordered :
      listed.Pairwise fun earlier later =>
        proposer.dependsOn earlier later = false)
    (transitive :
      ∀ first second third,
        proposer.dependsOn first second = true →
          proposer.dependsOn second third = true →
            proposer.dependsOn first third = true)
    (isIncluded : tx ∈ included)
    {other : Tx}
    (isListed : other ∈ listed)
    (depends : proposer.dependsOn tx other = true) :
    other ∈ included ∨ other ∈ dropped := by
  have notReported :
      ∀ reported ∈ ready.reported,
        proposer.dependsOn tx reported ≠ true := by
    intro reported isReported dependsOnReported
    have independent := includes.independent reported isReported tx
      (List.mem_append_left _ isIncluded)
    rw [dependsOnReported] at independent
    cases independent
  have isThere : other ∈ ready.yielded ++ ready.pending := by
    rcases includes.skipped other isListed with isThere | ⟨reported,
      isReported, needs⟩
    · exact isThere
    · exact absurd (transitive tx other reported depends needs)
        (notReported reported isReported)
  rcases List.mem_append.mp isThere with isYielded | isPending
  · rcases List.mem_append.mp (includes.accounted.subset isYielded) with
      here | elsewhere
    · exact .inl here
    · rcases List.mem_append.mp elsewhere with isReported | isDropped
      · exact absurd depends (notReported other isReported)
      · exact .inr isDropped
  · -- what is still pending is listed after what was taken
    have before :=
      (List.pairwise_append.mp (ordered.sublist includes.order)).2.2
    have independent :=
      before tx (includes.taken.subset isIncluded) other isPending
    rw [depends] at independent
    cases independent

end Includes

/-- The block has its inherents and then what is included. -/
def Builds
    (proposer : Proposer Tx Hash BlockHash ε)
    (listed inherents dropped : List Tx)
    (ready : ReadyTxs Tx)
    (block : List Tx) : Prop :=
  ∃ included,
    block = inherents ++ included ∧
      Includes proposer listed ready included dropped

/-- A round that does not end the sub-block takes one transaction. -/
theorem taken_of_applyRound
    {sub : SubBlock ε}
    {state next : Applying Tx Hash ε}
    (goesOn : proposer.applyRound sub state = (next, none)) :
    next.rounds = state.rounds + 1 ∧
      next.ready.yielded.length = state.ready.yielded.length + 1 := by
  rcases Proposer.handled_of_applyRound goesOn with ⟨_, ends⟩ | ⟨tx, rest, _,
    handled⟩
  · cases ends
  · refine ⟨handled.rounds, ?_⟩
    rw [handled.yielded]
    exact List.length_append

namespace Builds

variable {listed inherents dropped : List Tx}
  (ordered :
    listed.Pairwise fun earlier later =>
      proposer.dependsOn earlier later = false)
include ordered

/-- Only a round that reads a clock past the deadline drops a transaction. -/
theorem round
    {sub : SubBlock ε}
    {state next : Applying Tx Hash ε}
    {reason : Option EndProposingReason}
    (builds :
      Builds proposer listed inherents dropped state.ready state.block)
    (round : proposer.applyRound sub state = (next, reason)) :
    Builds proposer listed inherents dropped next.ready next.block ∨
      reason = some .hitDeadline ∧
        sub.deadline < (sub.readings state.rounds).now ∧
          ∃ tx,
            next.ready.yielded = state.ready.yielded ++ [tx] ∧
              Builds proposer listed inherents (dropped ++ [tx]) next.ready
                next.block := by
  obtain ⟨included, block_eq, includes⟩ := builds
  rcases Proposer.handled_of_applyRound round with ⟨rfl, _⟩ | ⟨tx, rest,
    pending, handled⟩
  · exact .inl ⟨included, block_eq, includes⟩
  · cases handled with
    | dropped late ends next_eq =>
        subst next_eq
        exact .inr ⟨ends, late, tx, rfl, included, block_eq,
          includes.drop pending⟩
    | reported _ next_eq =>
        rw [next_eq]
        exact .inl ⟨included, block_eq, includes.report pending ordered⟩
    | pushed _ next_eq =>
        subst next_eq
        refine .inl ⟨included ++ [tx], ?_, includes.push pending⟩
        rw [← List.append_assoc, ← block_eq]
        rfl

/-- A sub-block drops no transaction, or the last one that it takes. -/
theorem applyLoop
    (sub : SubBlock ε)
    {state : Applying Tx Hash ε}
    (builds :
      Builds proposer listed inherents dropped state.ready state.block) :
    Builds proposer listed inherents dropped
        (proposer.applyLoop sub state).2.ready
        (proposer.applyLoop sub state).2.block ∨
      ∃ round tx,
        (proposer.applyLoop sub state).2.ready.yielded[
              state.ready.yielded.length + round]? =
            some tx ∧
          sub.deadline < (sub.readings (state.rounds + round)).now ∧
          Builds proposer listed inherents (dropped ++ [tx])
            (proposer.applyLoop sub state).2.ready
            (proposer.applyLoop sub state).2.block := by
  fun_induction proposer.applyLoop sub state with
  | case1 state next reason round =>
      refine (builds.round ordered round).imp_right ?_
      rintro ⟨_, late, tx, yielded, reached⟩
      exact ⟨0, tx, by simp [yielded], late, reached⟩
  | case2 state next round inductionHypothesis =>
      obtain ⟨rounds, length⟩ := taken_of_applyRound round
      rcases builds.round ordered round with reached | ⟨ends, _⟩
      · refine (inductionHypothesis reached).imp_right ?_
        rintro ⟨later, tx, found, late, final⟩
        rw [length, Nat.add_assoc, Nat.add_comm 1] at found
        rw [rounds, Nat.add_assoc, Nat.add_comm 1] at late
        exact ⟨later + 1, tx, found, late, final⟩
      · cases ends

theorem onSignal
    {sub : SubBlock ε}
    {state : Proposal Tx Hash BlockHash ε}
    (builds :
      Builds proposer listed inherents dropped state.ready state.block)
    (channelOpen : Bool) :
    Builds proposer listed inherents dropped
        (proposer.onSignal sub channelOpen state).2.ready
        (proposer.onSignal sub channelOpen state).2.block ∨
      ∃ round tx,
        proposer.takenIn sub state round = some tx ∧
          sub.deadline < (sub.readings round).now ∧
          Builds proposer listed inherents (dropped ++ [tx])
            (proposer.onSignal sub channelOpen state).2.ready
            (proposer.onSignal sub channelOpen state).2.block := by
  have start :
      Builds proposer listed inherents dropped
        (⟨state.ready, state.block, 0, [], [], [], 0⟩ :
          Applying Tx Hash ε).ready state.block := builds
  have built := applyLoop ordered sub start
  simp only [Nat.zero_add] at built
  unfold Proposer.onSignal
  split
  · exact built
  · exact built

end Builds

def Selected.isSignal : Selected ε → Bool
  | .signal .. => true
  | _ => false

/--
One of the sub-blocks took a transaction when the clock was past the deadline
of the sub-block.
-/
def Proposer.TookLate
    (proposer : Proposer Tx Hash BlockHash ε)
    (deadline : Nat)
    (start : Proposal Tx Hash BlockHash ε)
    (selected : List (Selected ε))
    (tx : Tx) : Prop :=
  ∃ before now sub channelOpen round,
    before ++ [.signal now sub channelOpen] <+: selected ∧
      proposer.takenIn (proposer.timed deadline now sub)
          (proposer.proposeLoop deadline before start).2 round =
        some tx ∧
      proposer.effectiveDeadline now deadline < (sub.readings round).now

/-- What the loop has dropped. -/
structure Proposer.Drops
    (proposer : Proposer Tx Hash BlockHash ε)
    (deadline : Nat)
    (start : Proposal Tx Hash BlockHash ε)
    (selected : List (Selected ε))
    (dropped : List Tx) : Prop where
  count : dropped.length ≤ selected.countP Selected.isSignal
  late : ∀ tx ∈ dropped, proposer.TookLate deadline start selected tx

namespace Proposer.Drops

variable {deadline : Nat} {start : Proposal Tx Hash BlockHash ε}
  {selected : List (Selected ε)} {dropped : List Tx}
  (drops : proposer.Drops deadline start selected dropped)
include drops

theorem append (more : List (Selected ε)) :
    proposer.Drops deadline start (selected ++ more) dropped where
  count := by
    rw [List.countP_append]
    exact drops.count.trans (Nat.le_add_right ..)
  late tx member := by
    obtain ⟨before, now, sub, channelOpen, round, isThere, took⟩ :=
      drops.late tx member
    exact ⟨before, now, sub, channelOpen, round,
      isThere.trans (List.prefix_append ..), took⟩

theorem signal
    {now round : Nat}
    {sub : SubBlock ε}
    {tx : Tx}
    (channelOpen : Bool)
    (taken :
      proposer.takenIn (proposer.timed deadline now sub)
          (proposer.proposeLoop deadline selected start).2 round =
        some tx)
    (late :
      proposer.effectiveDeadline now deadline < (sub.readings round).now) :
    proposer.Drops deadline start
      (selected ++ [.signal now sub channelOpen]) (dropped ++ [tx]) where
  count := by
    rw [List.countP_append, List.length_append]
    exact Nat.succ_le_succ drops.count
  late := by
    rw [List.forall_mem_append, List.forall_mem_singleton]
    exact ⟨(drops.append _).late, selected, now, sub, channelOpen, round,
      List.prefix_rfl, taken, late⟩

end Proposer.Drops

/-- What the block has, and what was dropped, at every moment. -/
structure Tasks.Accounts
    (proposer : Proposer Tx Hash BlockHash ε)
    (deadline : Nat)
    (listed : List Tx)
    (start : Proposal Tx Hash BlockHash ε)
    (tasks : Tasks Tx Hash BlockHash ε) : Prop where
  follows : tasks.Follows proposer deadline start
  builds :
    ∃ dropped,
      Builds proposer listed start.block dropped tasks.proposal.ready
          tasks.proposal.block ∧
        proposer.Drops deadline start tasks.selected dropped

theorem Tasks.Accounts.step
    {deadline : Nat}
    {listed : List Tx}
    {start : Proposal Tx Hash BlockHash ε}
    {tasks next : Tasks Tx Hash BlockHash ε}
    {event : TaskEvent ε}
    (ordered :
      listed.Pairwise fun earlier later =>
        proposer.dependsOn earlier later = false)
    (accounts : tasks.Accounts proposer deadline listed start)
    (stepped : tasks.step proposer deadline event = some next) :
    next.Accounts proposer deadline listed start := by
  have effect := Tasks.effect_of_step stepped
  refine ⟨accounts.follows.step effect, ?_⟩
  obtain ⟨dropped, builds, drops⟩ := accounts.builds
  cases effect with
  | @builds now sub channelOpen _ _ =>
      have reached :
          (proposer.proposeLoop deadline tasks.selected start).2 =
            tasks.proposal := by
        rw [accounts.follows.loop]
      rcases builds.onSignal ordered channelOpen with built | ⟨round, tx,
        taken, late, built⟩
      · exact ⟨dropped, built, drops.append _⟩
      · rw [← reached] at taken
        exact ⟨dropped ++ [tx], built, drops.signal channelOpen taken late⟩
  | leaves | closes =>
      exact ⟨dropped, builds, drops.append _⟩
  | _ =>
      exact ⟨dropped, builds, drops⟩

/--
In whatever order the tasks run, the block has after its inherents some of the
ready transactions, in the order of the pool.  All transactions that were
taken are there or were reported, up to one for each signal, which its
sub-block took past its deadline.  Those that an included transaction needs
are there if they were not dropped.
-/
theorem Tasks.included_of_run
    (proposer : Proposer Tx Hash BlockHash ε)
    (authoring : Authoring Tx ε)
    (ordered :
      authoring.ready.Pairwise fun earlier later =>
        proposer.dependsOn earlier later = false)
    (transitive :
      ∀ first second third,
        proposer.dependsOn first second = true →
          proposer.dependsOn second third = true →
            proposer.dependsOn first third = true)
    {start : Proposal Tx Hash BlockHash ε}
    (started : proposer.startProposal authoring = .ok start)
    {clock : Nat}
    {events : List (TaskEvent ε)}
    {tasks : Tasks Tx Hash BlockHash ε}
    (ran :
      Run.run (Tasks.step proposer authoring.deadline) events
        (.spawn clock start) = some tasks) :
    ∃ included dropped,
      tasks.proposal.block = start.block ++ included ∧
        included.Sublist authoring.ready ∧
        tasks.proposal.ready.yielded.Perm
          (included ++ (tasks.proposal.ready.reported ++ dropped)) ∧
        dropped.length ≤ tasks.selected.countP Selected.isSignal ∧
        (∀ tx ∈ dropped,
          proposer.TookLate authoring.deadline start tasks.selected tx) ∧
        ∀ tx ∈ included, ∀ needed ∈ authoring.ready,
          proposer.dependsOn tx needed = true →
            needed ∈ included ∨ needed ∈ dropped := by
  have initial :
      (Tasks.spawn clock start).Accounts proposer authoring.deadline
        authoring.ready start := by
    obtain ⟨_, _, _, _, start_eq⟩ := startProposal_eq_ok started
    refine ⟨.spawn clock, [], ⟨[], (List.append_nil _).symm, ?_⟩,
      ⟨le_rfl, List.forall_mem_nil _⟩⟩
    rw [start_eq]
    exact .start _
  obtain ⟨_, dropped, ⟨included, block, includes⟩, drops⟩ :=
    Run.run_invariant
      (fun _ _ _ accounts stepped => accounts.step ordered stepped) initial
      ran
  refine ⟨included, dropped, block, ?_, includes.accounted, drops.count,
    drops.late, ?_⟩
  · exact includes.taken.trans ((List.sublist_append_left ..).trans
      includes.order)
  · intro tx isIncluded needed isListed depends
    exact includes.needed ordered transitive isIncluded isListed depends

/-- A proposer whose transactions need all those with lower numbers. -/
def Proposer.chained : Proposer Nat Nat Nat Unit :=
  { Proposer.mock with dependsOn := fun tx needed => decide (needed < tx) }

/-- Transaction 3 is included without transaction 2, which was dropped. -/
theorem Tasks.included_of_run_chained :
    ∃ (tasks : Tasks Nat Nat Nat Unit) (dropped : List Nat),
      Run.run (Tasks.step Proposer.chained 2000000) TaskEvent.mock
          (.spawn 0 Proposal.mock) = some tasks ∧
        tasks.proposal.block = [100, 1, 3] ∧
        dropped.length ≤ tasks.selected.countP Selected.isSignal ∧
        2 ∈ dropped ∧
        Proposer.chained.TookLate 2000000 Proposal.mock tasks.selected 2 := by
  have succeeds :
      (Run.run (Tasks.step Proposer.chained 2000000) TaskEvent.mock
          (.spawn 0 Proposal.mock)).map (fun tasks => tasks.proposal.block) =
        some [100, 1, 3] := by
    decide +kernel
  obtain ⟨tasks, ran, block⟩ := Option.map_eq_some_iff.mp succeeds
  obtain ⟨included, dropped, block_eq, _, _, bound, late, needed⟩ :=
    Tasks.included_of_run Proposer.chained (.mock [1, 2, 3] []) (by decide)
      (by simp only [Proposer.chained, decide_eq_true_eq]; omega) rfl ran
  have included_eq : included = [1, 3] :=
    List.append_cancel_left (block_eq.symm.trans block)
  subst included_eq
  rcases needed 3 (by decide) 2 (by decide) (by decide) with there | isDropped
  · exact absurd there (by decide)
  · exact ⟨tasks, dropped, ran, block, bound, isDropped, late 2 isDropped⟩

/-! ## The size of the block -/

/-- The size of transactions. -/
def Proposer.size
    (proposer : Proposer Tx Hash BlockHash ε)
    (txs : List Tx) : Nat :=
  (txs.map proposer.encodedSize).sum

/-- The states of the loop of `apply_extrinsics`, from a given one on. -/
inductive Proposer.RoundsTo
    (proposer : Proposer Tx Hash BlockHash ε)
    (sub : SubBlock ε)
    (start : Applying Tx Hash ε) : Applying Tx Hash ε → Prop where
  | refl : RoundsTo proposer sub start start
  | round
      {state next : Applying Tx Hash ε}
      (reached : RoundsTo proposer sub start state)
      (goesOn : proposer.applyRound sub state = (next, none)) :
      RoundsTo proposer sub start next

/-- The block builder estimates no less than the transactions it has. -/
def Proposer.EstimatesSize
    (proposer : Proposer Tx Hash BlockHash ε)
    (sub : SubBlock ε)
    (state : Proposal Tx Hash BlockHash ε) : Prop :=
  ∀ reached,
    proposer.RoundsTo sub ⟨state.ready, state.block, 0, [], [], [], 0⟩
        reached →
      proposer.size reached.block ≤ (sub.readings reached.rounds).blockSize

section Size

variable {sub : SubBlock ε} {state next : Applying Tx Hash ε}
  {reason : Option EndProposingReason}

/-- A transaction is only pushed if the estimate leaves space for it. -/
theorem fits_of_applyRound
    (round : proposer.applyRound sub state = (next, reason)) :
    next.block = state.block ∨
      ∃ tx,
        next.block = state.block ++ [tx] ∧
          (sub.readings state.rounds).blockSize + proposer.encodedSize tx ≤
            proposer.blockSizeLimit := by
  unfold Proposer.applyRound at round
  split at round
  · cases round
    exact .inl rfl
  · rename_i tx ready _
    -- every branch but that of a successful push leaves the block as it is
    unfold Proposer.tryTransaction at round
    dsimp only at round
    repeat' split at round
    all_goals cases round
    all_goals first
      | exact .inl rfl
      | exact .inr ⟨tx, rfl, Nat.le_of_not_lt ‹_›⟩

theorem size_le_of_applyRound
    {bound : Nat}
    (limit : proposer.blockSizeLimit ≤ bound)
    (estimated :
      proposer.size state.block ≤ (sub.readings state.rounds).blockSize)
    (within : proposer.size state.block ≤ bound)
    (round : proposer.applyRound sub state = (next, reason)) :
    proposer.size next.block ≤ bound := by
  rcases fits_of_applyRound round with same | ⟨tx, pushed, fits⟩
  · rw [same]
    exact within
  · have size :
        proposer.size next.block =
          proposer.size state.block + proposer.encodedSize tx := by
      simp [Proposer.size, pushed]
    omega

theorem size_le_of_applyLoop
    {bound : Nat}
    (limit : proposer.blockSizeLimit ≤ bound)
    {start : Applying Tx Hash ε}
    (estimates :
      ∀ reached, proposer.RoundsTo sub start reached →
        proposer.size reached.block ≤
          (sub.readings reached.rounds).blockSize)
    (reached : proposer.RoundsTo sub start state)
    (within : proposer.size state.block ≤ bound) :
    proposer.size (proposer.applyLoop sub state).2.block ≤ bound := by
  fun_induction proposer.applyLoop sub state with
  | case1 state next reason round =>
      exact size_le_of_applyRound limit (estimates state reached) within round
  | case2 state next round inductionHypothesis =>
      exact inductionHypothesis (reached.round round)
        (size_le_of_applyRound limit (estimates state reached) within round)

theorem size_le_of_onSignal
    {bound : Nat}
    (limit : proposer.blockSizeLimit ≤ bound)
    {proposal : Proposal Tx Hash BlockHash ε}
    (estimates : proposer.EstimatesSize sub proposal)
    (channelOpen : Bool)
    (within : proposer.size proposal.block ≤ bound) :
    proposer.size (proposer.onSignal sub channelOpen proposal).2.block ≤
      bound := by
  have built := size_le_of_applyLoop limit estimates .refl within
  unfold Proposer.onSignal
  split
  · exact built
  · exact built

end Size

/-- The sizes are estimated in a sub-block that was begun. -/
def Tasks.EstimatesSize
    (proposer : Proposer Tx Hash BlockHash ε)
    (deadline : Nat)
    (tasks : Tasks Tx Hash BlockHash ε) : Prop :=
  ∀ now sub channelOpen,
    tasks.main = .building now sub channelOpen →
      proposer.EstimatesSize (proposer.timed deadline now sub) tasks.proposal

/--
In whatever order the tasks run, if the block builder never estimates less
than the transactions it has, the block stays within the size limit, unless
already the inherents exceed it.
-/
theorem Tasks.withinLimit_of_run
    (proposer : Proposer Tx Hash BlockHash ε)
    (deadline clock : Nat)
    (start : Proposal Tx Hash BlockHash ε)
    {events : List (TaskEvent ε)}
    (estimates :
      Run.Along (Tasks.step proposer deadline)
        (fun _ tasks => tasks.EstimatesSize proposer deadline) events
        (.spawn clock start))
    {tasks : Tasks Tx Hash BlockHash ε}
    (ran :
      Run.run (Tasks.step proposer deadline) events (.spawn clock start) =
        some tasks) :
    proposer.size tasks.proposal.block ≤
      max proposer.blockSizeLimit (proposer.size start.block) := by
  have preserved
      (event : TaskEvent ε)
      (tasks next : Tasks Tx Hash BlockHash ε)
      (within :
        proposer.size tasks.proposal.block ≤
          max proposer.blockSizeLimit (proposer.size start.block))
      (estimates : tasks.EstimatesSize proposer deadline)
      (stepped : tasks.step proposer deadline event = some next) :
      proposer.size next.proposal.block ≤
        max proposer.blockSizeLimit (proposer.size start.block) := by
    cases Tasks.effect_of_step stepped with
    | builds _ building =>
        exact size_le_of_onSignal (le_max_left ..)
          (estimates _ _ _ building) _ within
    | _ =>
        exact within
  have initial :
      proposer.size (Tasks.spawn clock start).proposal.block ≤
        max proposer.blockSizeLimit (proposer.size start.block) :=
    le_max_right ..
  exact Run.run_invariant_along preserved initial estimates ran

/-- The block builder estimates eight more than the rounds it has had. -/
def SubBlock.estimated : SubBlock Unit where
  now := 0
  deadline := 100000
  timestamp := 0
  readings round := ⟨(round + 1) * 10000, round + 8, .ok (), 0⟩

/-- The third transaction does not fit. -/
theorem Tasks.withinLimit_of_run_mock :
    ∃ tasks : Tasks Nat Nat Nat Unit,
      Run.run (Tasks.step Proposer.mock 2000000)
          [.interval false, .interval false, .interval false, .fetch,
            .receive, .begin .estimated true, .build]
          (.spawn 0 Proposal.mock) = some tasks ∧
        tasks.proposal.block = [100, 1, 2] ∧
        tasks.proposal.ready.reported = [3] ∧
        Proposer.mock.size tasks.proposal.block ≤ 10 := by
  -- a round adds no more to the block than it takes from the pool
  have bounded :
      ∀ (sub : SubBlock Unit) (reached : Applying Nat Nat Unit),
        Proposer.mock.RoundsTo sub
            ⟨⟨[1, 2, 3], [], []⟩, [100], 0, [], [], [], 0⟩ reached →
          reached.block.length + reached.ready.pending.length ≤ 4 := by
    intro sub reached rounds
    induction rounds with
    | refl =>
        exact le_rfl
    | round _ goesOn inductionHypothesis =>
        have fewer := Proposer.pending_lt_of_applyRound goesOn
        rcases fits_of_applyRound goesOn with same | ⟨tx, pushed, _⟩
        · rw [same]
          omega
        · rw [pushed, List.length_append, List.length_singleton]
          omega
  have estimates :
      Proposer.mock.EstimatesSize
        (Proposer.mock.timed 2000000 0 .estimated) Proposal.mock := by
    intro reached rounds
    have size : Proposer.mock.size reached.block = reached.block.length := by
      simp [Proposer.size, Proposer.mock]
    have enough := bounded _ reached rounds
    change _ ≤ reached.rounds + 8
    omega
  have along :
      Run.Along (Tasks.step Proposer.mock 2000000)
        (fun _ tasks => tasks.EstimatesSize Proposer.mock 2000000)
        [.interval false, .interval false, .interval false, .fetch,
          .receive, .begin .estimated true, .build]
        (.spawn 0 Proposal.mock) := by
    have starts :
        (Tasks.spawn 0 Proposal.mock).step Proposer.mock 2000000
            (.interval false) =
          some { Tasks.spawn 0 Proposal.mock with interval := .waiting 0 } := by
      simp [Tasks.step, Tasks.stepInterval, Tasks.spawn, Proposer.period,
        Proposer.mock]
    have idle
        {tasks : Tasks Nat Nat Nat Unit}
        (main :
          tasks.main = .fetching ∨ tasks.main = .selecting ∨
            tasks.main = .received) :
        tasks.EstimatesSize Proposer.mock 2000000 := by
      rintro now sub channelOpen building
      simp [building] at main
    refine .cons (idle (.inl rfl)) starts
      (.cons (idle (.inl rfl)) rfl
        (.cons (idle (.inl rfl)) rfl
          (.cons (idle (.inl rfl)) rfl
            (.cons (idle (.inr (.inl rfl))) rfl
              (.cons (idle (.inr (.inr rfl))) rfl
                ⟨?_, fun _ _ => trivial⟩)))))
    rintro now sub channelOpen building
    cases building
    exact estimates
  have succeeds :
      (Run.run (Tasks.step Proposer.mock 2000000)
          [.interval false, .interval false, .interval false, .fetch,
            .receive, .begin .estimated true, .build]
          (.spawn 0 Proposal.mock)).map (fun tasks =>
            (tasks.proposal.block, tasks.proposal.ready.reported)) =
        some ([100, 1, 2], [3]) := by
    decide +kernel
  obtain ⟨tasks, ran, reached⟩ := Option.map_eq_some_iff.mp succeeds
  obtain ⟨block, reported⟩ := Prod.mk.inj reached
  exact ⟨tasks, ran, block, reported,
    Tasks.withinLimit_of_run Proposer.mock 2000000 0 Proposal.mock along ran⟩

end HybridOrderbook.Preconf
