import ColumbusCore.Lib.Outcome
import ColumbusCore.Lib.HalfEven
import ColumbusCore.Lib.Fixed
import ColumbusCore.Lib.Coins
import ColumbusCore.Lib.Maps
import ColumbusCore.Lib.WeightedMedian
import ColumbusCore.Sdk
import ColumbusCore.Oracle.Types
import ColumbusCore.Oracle.Ballot
import ColumbusCore.Oracle.EndBlocker
import ColumbusCore.Oracle.Messages
import ColumbusCore.Oracle.Reference
import ColumbusCore.Oracle.Rates
import ColumbusCore.Oracle.Settlement
import ColumbusCore.Oracle.StaticChain
import ColumbusCore.Oracle.Positivity
import ColumbusCore.Oracle.Overflow
import ColumbusCore.Oracle.Whitelist
import ColumbusCore.Treasury.Types
import ColumbusCore.Tax.Types
import ColumbusCore.Tax.Exemption
import ColumbusCore.Tax.Keeper
import ColumbusCore.Tax.Ledger
import ColumbusCore.Tax.Split
import ColumbusCore.Tax.Handlers
import ColumbusCore.Ante.FeeTax
import ColumbusCore.Ante.Fee
import ColumbusCore.Tx.Execution
import ColumbusCore.Tx.Charges
import ColumbusCore.Oracle.Robustness
import ColumbusCore.Oracle.Slashing
import ColumbusCore.Oracle.Determinism
import ColumbusCore.Oracle.FairSlashing
import ColumbusCore.Oracle.Rewards
import ColumbusCore.Oracle.CommitReveal
import ColumbusCore.Vesting.Schedule
import ColumbusCore.Vesting.Account
import ColumbusCore.Vesting.Rounding
import ColumbusCore.Market.Swap
import ColumbusCore.Market.Ledger
import ColumbusCore.Market.PoolRuns
import ColumbusCore.Market.BoundedRuns
import ColumbusCore.Tax.Services
import ColumbusCore.Tax.Zones
import ColumbusCore.Tax.Spellings
import ColumbusCore.Market.RoundTrip
import ColumbusCore.Market.Accounting
import ColumbusCore.Ante.Restrictions
import ColumbusCore.Dyncomm.Handlers
import ColumbusCore.Lib.IndexedQueue
import ColumbusCore.Mempool.Fifo
import ColumbusCore.Mempool.Iterator
import ColumbusCore.Tax.Genesis
import ColumbusCore.Dyncomm.Genesis
import ColumbusCore.Dyncomm.Runs
import ColumbusCore.Oracle.Binding
import ColumbusCore.Oracle.MissCounting
import ColumbusCore.Treasury.EndBlocker
import ColumbusCore.Treasury.Levers
import ColumbusCore.Treasury.Burden
import ColumbusCore.Staking.Hooks
import ColumbusCore.Ante.TaxService
import ColumbusCore.Wasm.SwapSend
import ColumbusCore.Oracle.Prices
import ColumbusCore.Oracle.Clearing
import ColumbusCore.Oracle.Metadata
import ColumbusCore.Market.Spread
import ColumbusCore.Market.Query
import ColumbusCore.Tax.CommunityTax
import ColumbusCore.Oracle.Genesis
import ColumbusCore.Treasury.Genesis
import ColumbusCore.Ante.Flattening
import ColumbusCore.Client.FeeUtils
import ColumbusCore.Ante.Simulation
import ColumbusCore.Tax.Migration
import ColumbusCore.Tx.Proceeds
import ColumbusCore.Dyncomm.Curve
import ColumbusCore.Treasury.Indicators
import ColumbusCore.Ante.Spamming
import ColumbusCore.Ante.Priority
import ColumbusCore.Oracle.RateTexts
import ColumbusCore.Lib.Threads
import ColumbusCore.Mempool.Interleaving
import ColumbusCore.Lib.Wire
import ColumbusCore.Oracle.Proto
import ColumbusCore.Lib.KVStore
import ColumbusCore.Oracle.KeyStore
import ColumbusCore.Vesting.Tracking
import ColumbusCore.Wasm.Stargate
import ColumbusCore.Oracle.Authority
