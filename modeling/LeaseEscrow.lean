import LeaseEscrow.Binary64.Basic
import LeaseEscrow.Binary64.Shortest
import LeaseEscrow.Block
import LeaseEscrow.Codec.Amounts
import LeaseEscrow.Codec.Events
import LeaseEscrow.Codec.Messages
import LeaseEscrow.Codec.Records
import LeaseEscrow.Codec.State
import LeaseEscrow.Coin
import LeaseEscrow.Decimal.Arithmetic
import LeaseEscrow.Decimal.Basic
import LeaseEscrow.Decimal.Text
import LeaseEscrow.Digest.Sha256
import LeaseEscrow.Event
import LeaseEscrow.Genesis
import LeaseEscrow.Ident.Account
import LeaseEscrow.Ident.Parse
import LeaseEscrow.Ident.ResourceId
import LeaseEscrow.Json.Amount
import LeaseEscrow.Json.Basic
import LeaseEscrow.Json.Printer
import LeaseEscrow.Json.Reader
import LeaseEscrow.Json.Record
import LeaseEscrow.Json.Token
import LeaseEscrow.Keeper.Basic
import LeaseEscrow.Keeper.Config
import LeaseEscrow.Keeper.Genesis
import LeaseEscrow.Keeper.Handlers
import LeaseEscrow.Keeper.Invariants
import LeaseEscrow.Keeper.Settlement
import LeaseEscrow.Lease
import LeaseEscrow.Ledger.Bank
import LeaseEscrow.Ledger.Basic
import LeaseEscrow.Ledger.Gated
import LeaseEscrow.Ledger.Supply
import LeaseEscrow.Message
import LeaseEscrow.Params
import LeaseEscrow.Power
import LeaseEscrow.Query
import LeaseEscrow.Refusal
import LeaseEscrow.Registry
import LeaseEscrow.Resource
import LeaseEscrow.Settlement.Engine
import LeaseEscrow.Settlement.Lock
import LeaseEscrow.Settlement.Report
import LeaseEscrow.Status
import LeaseEscrow.Store.Basic
import LeaseEscrow.Store.Journaled
import LeaseEscrow.Store.Key
import LeaseEscrow.Store.OrderedMap
import LeaseEscrow.Store.OrderedMap.Lookup
import LeaseEscrow.Text.Blank
import LeaseEscrow.Text.Bytes
import LeaseEscrow.Text.CombiningMarks
import LeaseEscrow.Text.Quoted
import LeaseEscrow.Text.Unassigned
import LeaseEscrow.Time.Calendar
import LeaseEscrow.Time.Instant
import LeaseEscrow.Time.Text
import LeaseEscrow.Word
import LeaseEscrow.Proofs.Decimal.Exact
import LeaseEscrow.Proofs.Decimal.Rounding
import LeaseEscrow.Proofs.Keeper.Run
import LeaseEscrow.Proofs.Store.Undo
import LeaseEscrow.Proofs.Ledger.Undo
import LeaseEscrow.Proofs.Keeper.Contents
import LeaseEscrow.Proofs.Keeper.Request
import LeaseEscrow.Proofs.Keeper.Built
import LeaseEscrow.Proofs.Keeper.Kept
import LeaseEscrow.Proofs.Keeper.Transaction
import LeaseEscrow.Proofs.Ident.Bytes
import LeaseEscrow.Proofs.Registry.Market
import LeaseEscrow.Proofs.Store.Copies
import LeaseEscrow.Proofs.Store.Scan
import LeaseEscrow.Proofs.Store.Table
import LeaseEscrow.Proofs.Registry.Tables
import LeaseEscrow.Proofs.Coin
import LeaseEscrow.Proofs.Records
import LeaseEscrow.Proofs.Lease
import LeaseEscrow.Proofs.Keeper.Performed
import LeaseEscrow.Proofs.Registry.Sound
import LeaseEscrow.Proofs.Registry.Owed
import LeaseEscrow.Proofs.Keeper.Steps
import LeaseEscrow.Proofs.Keeper.Sound
import LeaseEscrow.Proofs.Genesis
import LeaseEscrow.Proofs.Registry.Import
import LeaseEscrow.Proofs.Registry.Index
import LeaseEscrow.Proofs.Registry.Listing
import LeaseEscrow.Proofs.Registry.History
import LeaseEscrow.Proofs.Keeper.History
import LeaseEscrow.Proofs.Registry.Alike
import LeaseEscrow.Proofs.Keeper.Mirror
import LeaseEscrow.Proofs.Keeper.Calls
import LeaseEscrow.Proofs.Keeper.Restart
import LeaseEscrow.Proofs.Keeper.Resettlement
import LeaseEscrow.Proofs.Keeper.Export
import LeaseEscrow.Proofs.Ledger.Balance
import LeaseEscrow.Proofs.Ledger.Conservation
import LeaseEscrow.Proofs.Ledger.Copies
import LeaseEscrow.Proofs.Ledger.Operations
import LeaseEscrow.Proofs.Keeper.Accounts
import LeaseEscrow.Proofs.Keeper.Escrow
import LeaseEscrow.Proofs.Keeper.Solvency
import LeaseEscrow.Proofs.Charge
import LeaseEscrow.Proofs.Keeper.Settlements
import LeaseEscrow.Proofs.Keeper.Standing
import LeaseEscrow.Proofs.Keeper.Progress
import LeaseEscrow.Proofs.Keeper.Schedule
import LeaseEscrow.Proofs.Keeper.Payouts
import LeaseEscrow.Proofs.Keeper.Blocks
import LeaseEscrow.Proofs.Keeper.Origin
import LeaseEscrow.Proofs.Keeper.Obligations
import LeaseEscrow.Proofs.Keeper.Pace
import LeaseEscrow.Proofs.Keeper.Chain
import LeaseEscrow.Proofs.Lock
import LeaseEscrow.Proofs.Keeper.Releases
import LeaseEscrow.Proofs.Keeper.Custody
import LeaseEscrow.Proofs.Keeper.Deposits
import LeaseEscrow.Proofs.Keeper.Orderly
import LeaseEscrow.Proofs.Registry.Frame
import LeaseEscrow.Proofs.Keeper.Frame
import LeaseEscrow.Proofs.Keeper.Authority
import LeaseEscrow.Proofs.Keeper.Log
import LeaseEscrow.Proofs.Keeper.Faults
import LeaseEscrow.Proofs.Keeper.Passes
import LeaseEscrow.Proofs.Keeper.Range
import LeaseEscrow.Proofs.Json.Scan
import LeaseEscrow.Proofs.Json.Read
import LeaseEscrow.Proofs.Decimal.Digits
import LeaseEscrow.Proofs.Decimal.Text
import LeaseEscrow.Proofs.Time.Calendar
import LeaseEscrow.Proofs.Time.Text
import LeaseEscrow.Proofs.Codec.Basic
import LeaseEscrow.Proofs.Codec.Genesis
import LeaseEscrow.Proofs.Keeper.Funding
import LeaseEscrow.Proofs.Keeper.Gate
import LeaseEscrow.Proofs.Keeper.Restoration
import LeaseEscrow.Proofs.Decimal.Quotient
import LeaseEscrow.Proofs.Remainder
import LeaseEscrow.Proofs.Decimal.Places
import LeaseEscrow.Proofs.Decimal.Share
import LeaseEscrow.Proofs.Commission
import LeaseEscrow.Proofs.Keeper.InitialDeposit
import LeaseEscrow.Proofs.Refusals
import LeaseEscrow.Proofs.Keeper.Checks
import LeaseEscrow.Proofs.Keeper.Receipts
import LeaseEscrow.Proofs.Keeper.Local
import LeaseEscrow.Proofs.Keeper.Turns
import LeaseEscrow.Proofs.Keeper.Order
import LeaseEscrow.Proofs.Keeper.Tally
import LeaseEscrow.Proofs.Amounts
import LeaseEscrow.Proofs.Keeper.Coverage
import LeaseEscrow.Proofs.Keeper.RoundTrip
import LeaseEscrow.Proofs.Keeper.Numbering
import LeaseEscrow.Proofs.Registry.Paging
import LeaseEscrow.Proofs.Registry.Layout
