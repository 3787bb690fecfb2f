import RewardVesting.Action
import RewardVesting.ActorKind
import RewardVesting.Address
import RewardVesting.AddressMap
import RewardVesting.AddressMap.Lemmas
import RewardVesting.Amount
import RewardVesting.Bytes
import RewardVesting.Catalogue
import RewardVesting.Epoch
import RewardVesting.ExpertFund.Actor
import RewardVesting.ExpertFund.Audit
import RewardVesting.ExpertFund.Expert
import RewardVesting.ExpertFund.Fund
import RewardVesting.ExpertFund.Message
import RewardVesting.Failure
import RewardVesting.Fault
import RewardVesting.Host.Basic
import RewardVesting.Host.Call
import RewardVesting.Host.Caller
import RewardVesting.Host.Message
import RewardVesting.Host.Probe
import RewardVesting.Host.State
import RewardVesting.Key
import RewardVesting.Ledger.Basic
import RewardVesting.Ledger.Release
import RewardVesting.Ledger.Schedule
import RewardVesting.Minting
import RewardVesting.Network
import RewardVesting.Policy
import RewardVesting.Policy.Toml
import RewardVesting.Proofs.Access
import RewardVesting.Proofs.Action
import RewardVesting.Proofs.Epoch
import RewardVesting.Proofs.Epoch.Rounding
import RewardVesting.Proofs.ExpertFund.Audit
import RewardVesting.Proofs.ExpertFund.Capacity
import RewardVesting.Proofs.ExpertFund.Commutation
import RewardVesting.Proofs.ExpertFund.Consistency
import RewardVesting.Proofs.ExpertFund.Effect
import RewardVesting.Proofs.ExpertFund.Entitlement
import RewardVesting.Proofs.ExpertFund.Holdings
import RewardVesting.Proofs.ExpertFund.Integrity
import RewardVesting.Proofs.ExpertFund.Resettling
import RewardVesting.Proofs.ExpertFund.Retroactivity
import RewardVesting.Proofs.ExpertFund.Service
import RewardVesting.Proofs.ExpertFund.Serviceability
import RewardVesting.Proofs.ExpertFund.Settlement
import RewardVesting.Proofs.ExpertFund.Solvency
import RewardVesting.Proofs.ExpertFund.TimeLock
import RewardVesting.Proofs.ExpertFund.Votes
import RewardVesting.Proofs.Host.Abort
import RewardVesting.Proofs.Host.Effect
import RewardVesting.Proofs.Host.Frame
import RewardVesting.Proofs.Host.History
import RewardVesting.Proofs.Host.Refusal
import RewardVesting.Proofs.Host.Reply
import RewardVesting.Proofs.Host.Serving
import RewardVesting.Proofs.Ledger.Availability
import RewardVesting.Proofs.Ledger.Compact
import RewardVesting.Proofs.Ledger.Conservation
import RewardVesting.Proofs.Ledger.Forfeiture
import RewardVesting.Proofs.Ledger.Interchange
import RewardVesting.Proofs.Ledger.Linear
import RewardVesting.Proofs.Ledger.Lock
import RewardVesting.Proofs.Ledger.Merge
import RewardVesting.Proofs.Ledger.Order
import RewardVesting.Proofs.Ledger.Reach
import RewardVesting.Proofs.Ledger.Schedule
import RewardVesting.Proofs.Ledger.Sweeping
import RewardVesting.Proofs.Ledger.Unrolling
import RewardVesting.Proofs.Ledger.Vested
import RewardVesting.Proofs.Ledger.WellFormed
import RewardVesting.Proofs.Ledger.Withdrawal
import RewardVesting.Proofs.Minting.Coefficients
import RewardVesting.Proofs.Minting.Decay
import RewardVesting.Proofs.Minting.Series
import RewardVesting.Proofs.Minting.SupplyCap
import RewardVesting.Proofs.Minting.Turning
import RewardVesting.Proofs.Parameter
import RewardVesting.Proofs.Payment
import RewardVesting.Proofs.Reward.Accounts
import RewardVesting.Proofs.Reward.Bookkeeping
import RewardVesting.Proofs.Reward.Effect
import RewardVesting.Proofs.Reward.Payout
import RewardVesting.Proofs.Reward.Slope
import RewardVesting.Proofs.Reward.Split
import RewardVesting.Proofs.Reward.Turning
import RewardVesting.Proofs.Tally
import RewardVesting.Proofs.Tally.Entries
import RewardVesting.Proofs.Vesting.Book
import RewardVesting.Proofs.Vesting.Conservation
import RewardVesting.Proofs.Vesting.Effect
import RewardVesting.Proofs.Vesting.Withdrawal
import RewardVesting.Proofs.Wire.Canonical
import RewardVesting.Proofs.Wire.Condensing
import RewardVesting.Proofs.Wire.Delimited
import RewardVesting.Proofs.Wire.Records
import RewardVesting.Proofs.Wire.RoundTrip
import RewardVesting.Proofs.Wire.Writable
import RewardVesting.Report
import RewardVesting.Report.Pattern
import RewardVesting.Reward.Actor
import RewardVesting.Reward.Award
import RewardVesting.Reward.Message
import RewardVesting.Reward.State
import RewardVesting.RewardSplit
import RewardVesting.Tally
import RewardVesting.Toml.Document
import RewardVesting.Toml.Moment
import RewardVesting.Toml.Number
import RewardVesting.Toml.Quoted
import RewardVesting.Toml.Reader
import RewardVesting.Toml.Text
import RewardVesting.Varint
import RewardVesting.Vesting.Actor
import RewardVesting.Vesting.Audit
import RewardVesting.Vesting.Book
import RewardVesting.Vesting.Message
import RewardVesting.Wire.Format
import RewardVesting.Wire.Head
