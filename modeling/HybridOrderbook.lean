import HybridOrderbook.Library.TreeMap
import HybridOrderbook.Library.Fallible
import HybridOrderbook.Library.Run
import HybridOrderbook.Library.TrieContext
import HybridOrderbook.Library.Stake
import HybridOrderbook.Library.Approximation
import HybridOrderbook.Library.ConstantProduct
import HybridOrderbook.Library.Bisection
import HybridOrderbook.Library.BisectionLoop
import HybridOrderbook.Critbit.Tree
import HybridOrderbook.Critbit.Representation
import HybridOrderbook.Critbit.Navigation
import HybridOrderbook.Critbit.Relink
import HybridOrderbook.Critbit.Splice
import HybridOrderbook.Critbit.Insert
import HybridOrderbook.Critbit.Remove
import HybridOrderbook.Critbit.Contents
import HybridOrderbook.Critbit.Invariant
import HybridOrderbook.Critbit.SortedMap
import HybridOrderbook.Tick
import HybridOrderbook.OrderBook
import HybridOrderbook.Levels
import HybridOrderbook.Pool
import HybridOrderbook.Ledger
import HybridOrderbook.Pricing
import HybridOrderbook.Amounts
import HybridOrderbook.Swap
import HybridOrderbook.Search
import HybridOrderbook.ExactSearch
import HybridOrderbook.Matching
import HybridOrderbook.Books
import HybridOrderbook.Calls
import HybridOrderbook.SearchRange
import HybridOrderbook.BestExecution
import HybridOrderbook.Checked
import HybridOrderbook.Settlement
import HybridOrderbook.QuoteAmounts
import HybridOrderbook.Effects
import HybridOrderbook.Collateral
import HybridOrderbook.Cancelling
import HybridOrderbook.PoolRuns
import HybridOrderbook.GhostLevels
import HybridOrderbook.Fulfilment
import HybridOrderbook.Priority
import HybridOrderbook.Orientation
import HybridOrderbook.Credits
import HybridOrderbook.Hops
import HybridOrderbook.Shares
import HybridOrderbook.Preconf
import HybridOrderbook.Publishing
import HybridOrderbook.LimitPrice
import HybridOrderbook.Spread
import HybridOrderbook.Sizes
import HybridOrderbook.Critbit.Iteration
import HybridOrderbook.Critbit.Allocation
import HybridOrderbook.Queue
import HybridOrderbook.Deposits
import HybridOrderbook.PriceRange
import HybridOrderbook.Library.Rounds
import HybridOrderbook.SearchEnds
import HybridOrderbook.MatchingEnds
import HybridOrderbook.LargeBids
import HybridOrderbook.Creation
import HybridOrderbook.Frames
import HybridOrderbook.Library.Simulation
import HybridOrderbook.Registry
import HybridOrderbook.Isolation
import HybridOrderbook.Exchange
import HybridOrderbook.Refinement
import HybridOrderbook.Tasks
import HybridOrderbook.Node
import HybridOrderbook.Inclusion
import HybridOrderbook.Critbit.Depth
import HybridOrderbook.Solvency
import HybridOrderbook.ExactMatching
