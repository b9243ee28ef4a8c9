import EpochRewards.Chain.Edit
import EpochRewards.CommandLine.Run
import EpochRewards.Main
import EpochRewards.Proofs.Accounts
import EpochRewards.Proofs.Accumulation
import EpochRewards.Proofs.Attainability
import EpochRewards.Proofs.Attribution
import EpochRewards.Proofs.Balances
import EpochRewards.Proofs.Batches
import EpochRewards.Proofs.Books
import EpochRewards.Proofs.Buffering
import EpochRewards.Proofs.Ceilings
import EpochRewards.Proofs.Changes
import EpochRewards.Proofs.Clearings
import EpochRewards.Proofs.Closings
import EpochRewards.Proofs.Codecs
import EpochRewards.Proofs.Completeness
import EpochRewards.Proofs.Components
import EpochRewards.Proofs.Conservation
import EpochRewards.Proofs.Contents
import EpochRewards.Proofs.Contracts
import EpochRewards.Proofs.Counts
import EpochRewards.Proofs.Coverage
import EpochRewards.Proofs.Crews
import EpochRewards.Proofs.Delays
import EpochRewards.Proofs.Deliveries
import EpochRewards.Proofs.Dimensions
import EpochRewards.Proofs.Downloads
import EpochRewards.Proofs.Dumps
import EpochRewards.Proofs.Duplicates
import EpochRewards.Proofs.Ends
import EpochRewards.Proofs.Failures
import EpochRewards.Proofs.Faults
import EpochRewards.Proofs.Fetches
import EpochRewards.Proofs.FirstInclusions
import EpochRewards.Proofs.FirstOccurrence
import EpochRewards.Proofs.Flaws
import EpochRewards.Proofs.Folders
import EpochRewards.Proofs.Forks
import EpochRewards.Proofs.Frames
import EpochRewards.Proofs.Gating
import EpochRewards.Proofs.Handover
import EpochRewards.Proofs.Headroom
import EpochRewards.Proofs.Hierarchies
import EpochRewards.Proofs.Histories
import EpochRewards.Proofs.Inclusion
import EpochRewards.Proofs.Incomes
import EpochRewards.Proofs.Interleaving
import EpochRewards.Proofs.Journals
import EpochRewards.Proofs.Kinds
import EpochRewards.Proofs.Laws
import EpochRewards.Proofs.Ledgers
import EpochRewards.Proofs.Lines
import EpochRewards.Proofs.Liveness
import EpochRewards.Proofs.Losses
import EpochRewards.Proofs.Magnitudes
import EpochRewards.Proofs.Maxima
import EpochRewards.Proofs.Merits
import EpochRewards.Proofs.Numerators
import EpochRewards.Proofs.Openings
import EpochRewards.Proofs.Outcomes
import EpochRewards.Proofs.Overflows
import EpochRewards.Proofs.Participation
import EpochRewards.Proofs.Pass
import EpochRewards.Proofs.Payments
import EpochRewards.Proofs.PerfectChains
import EpochRewards.Proofs.PerfectWindows
import EpochRewards.Proofs.Persistence
import EpochRewards.Proofs.Polls
import EpochRewards.Proofs.Promises
import EpochRewards.Proofs.Reassembly
import EpochRewards.Proofs.Records
import EpochRewards.Proofs.Removals
import EpochRewards.Proofs.Repeats
import EpochRewards.Proofs.Replacements
import EpochRewards.Proofs.Reports
import EpochRewards.Proofs.Rings
import EpochRewards.Proofs.Runs
import EpochRewards.Proofs.Scale
import EpochRewards.Proofs.Scheduling
import EpochRewards.Proofs.Seats
import EpochRewards.Proofs.Settings
import EpochRewards.Proofs.Settlements
import EpochRewards.Proofs.Shares
import EpochRewards.Proofs.Shifts
import EpochRewards.Proofs.Slashings
import EpochRewards.Proofs.Stores
import EpochRewards.Proofs.Supplies
import EpochRewards.Proofs.Texts
import EpochRewards.Proofs.Tickets
import EpochRewards.Proofs.Totals
import EpochRewards.Proofs.Traces
import EpochRewards.Proofs.Traffic
import EpochRewards.Proofs.Turnouts
import EpochRewards.Proofs.Upkeep
import EpochRewards.Proofs.Views
import EpochRewards.Proofs.Windows
import EpochRewards.Proofs.Words
import EpochRewards.Proofs.Yields
import EpochRewards.Source.Outage
import EpochRewards.Store.Journal
import EpochRewards.Store.Memory
