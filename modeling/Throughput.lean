import Throughput.Balance.Check
import Throughput.Balance.Reading
import Throughput.Bounds
import Throughput.CommandLine.Execution
import Throughput.CommandLine.Grammar
import Throughput.CommandLine.Invocation
import Throughput.CommandLine.Settings
import Throughput.CommandLine.SocketAddress
import Throughput.CommandLine.Target
import Throughput.Error
import Throughput.Figure.BlockTime
import Throughput.Figure.Cadence
import Throughput.Figure.Latency
import Throughput.Figure.Measurement
import Throughput.Figure.Metrics
import Throughput.Hash.Keccak
import Throughput.Hash.Sha256
import Throughput.Json.Basic
import Throughput.Json.Printer
import Throughput.Json.Reader
import Throughput.Key.Basic
import Throughput.Key.Curve
import Throughput.Key.File
import Throughput.Key.Signature
import Throughput.Ledger.Await
import Throughput.Ledger.Basic
import Throughput.Ledger.Error
import Throughput.Ledger.Scripted
import Throughput.Ledger.Simulated
import Throughput.Main
import Throughput.Node.Client
import Throughput.Node.Endpoint
import Throughput.Node.Rlp
import Throughput.Node.Transaction
import Throughput.Node.Url
import Throughput.Number.Binary64
import Throughput.Number.Decimal
import Throughput.Number.Whole
import Throughput.Poll.Estimate
import Throughput.Poll.Phase
import Throughput.Poll.Round
import Throughput.Proofs.Send.Books
import Throughput.Proofs.Send.Bounds
import Throughput.Proofs.Send.Course
import Throughput.Proofs.Send.Dispatch
import Throughput.Proofs.Send.Journal
import Throughput.Proofs.Send.Launch
import Throughput.Proofs.Send.Move
import Throughput.Proofs.Send.Order
import Throughput.Proofs.Send.Outcomes
import Throughput.Proofs.Send.Progress
import Throughput.Proofs.Send.RoundRobin
import Throughput.Proofs.Send.Shape
import Throughput.Proofs.Send.Stop
import Throughput.Proofs.Send.StopFlag
import Throughput.Proofs.Send.Unseen
import Throughput.Proofs.Tracker
import Throughput.Random.Sample
import Throughput.Random.Words
import Throughput.Run.Benchmark
import Throughput.Run.Bounds
import Throughput.Run.Config
import Throughput.Run.Delivery
import Throughput.Run.Report
import Throughput.Run.ReportJson
import Throughput.Scenario.Ledger
import Throughput.Scenario.Part
import Throughput.Scenario.Run
import Throughput.Scenario.Value
import Throughput.Send.Backlog
import Throughput.Send.Bounds
import Throughput.Send.Flight
import Throughput.Send.Generator
import Throughput.Send.Phase
import Throughput.Send.Strategy
import Throughput.Send.Summary
import Throughput.Sequence
import Throughput.Shutdown
import Throughput.Text.Blank
import Throughput.Text.Clip
import Throughput.Text.Hex
import Throughput.Text.IpAddress
import Throughput.Text.Quoted
import Throughput.Text.Span
import Throughput.Ticker
import Throughput.Tracker
import Throughput.Word
import Throughput.Proofs.Simulated.Executed
import Throughput.Proofs.Simulated.History
import Throughput.Proofs.Simulated.Books
import Throughput.Proofs.Simulated.Nonces
import Throughput.Proofs.Simulated.Blocks
import Throughput.Proofs.Simulated.Receipts
import Throughput.Proofs.Simulated.Conservation
import Throughput.Proofs.Simulated.Punctual
import Throughput.Proofs.Ledger.Keeps
import Throughput.Proofs.Send.Account
import Throughput.Proofs.Poll.Later
import Throughput.Proofs.Run.Account
import Throughput.Proofs.Simulated.Shared
import Throughput.Proofs.Run.Inclusion
import Throughput.Proofs.Simulated.Credit
import Throughput.Proofs.Simulated.Value
import Throughput.Proofs.Schedule
import Throughput.Proofs.Number.Rounding
import Throughput.Proofs.Number.Packing
import Throughput.Proofs.Number.Arithmetic
import Throughput.Proofs.Poll.Attempts
import Throughput.Proofs.Poll.Records
import Throughput.Proofs.Poll.Report
import Throughput.Proofs.Poll.Verdict
import Throughput.Proofs.Poll.Live
import Throughput.Proofs.Send.Settled
import Throughput.Proofs.Run.Coverage
import Throughput.Proofs.Poll.Estimated
import Throughput.Proofs.Send.Extends
import Throughput.Proofs.Run.Footing
import Throughput.Proofs.Run.Figures
import Throughput.Proofs.Run.Latencies
import Throughput.Proofs.Run.Bounds
import Throughput.Proofs.Run.Failure
import Throughput.Proofs.Simulated.Order
import Throughput.Proofs.Simulated.Shares
import Throughput.Proofs.Balance.Checks
import Throughput.Proofs.Simulated.Reads
import Throughput.Proofs.Run.Ratio
import Throughput.Proofs.Send.Trace
import Throughput.Proofs.Sequence
import Throughput.Proofs.Send.Duration
import Throughput.Proofs.Send.Batches
import Throughput.Proofs.Send.Refills
import Throughput.Proofs.Simulated.Filling
import Throughput.Proofs.Simulated.Fairness
import Throughput.Proofs.Simulated.Solvency
import Throughput.Proofs.Simulated.Refusals
import Throughput.Proofs.Simulated.Overlap
import Throughput.Proofs.Simulated.Batches
import Throughput.Proofs.Run.Peak
import Throughput.Proofs.Estimate.Calls
import Throughput.Proofs.Estimate.Content
import Throughput.Proofs.Simulated.Timestamps
import Throughput.Proofs.Estimate.Heights
import Throughput.Proofs.Random.Sample
import Throughput.Proofs.Poll.Log
import Throughput.Proofs.Poll.Queries
import Throughput.Proofs.Poll.Rounds
import Throughput.Proofs.Poll.Pace
import Throughput.Proofs.Poll.Signal
import Throughput.Proofs.Poll.Budget
import Throughput.Proofs.Poll.Sampled
import Throughput.Proofs.Poll.Repeats
import Throughput.Proofs.Poll.Band
import Throughput.Proofs.Poll.Brackets
import Throughput.Proofs.Figure.Steps
import Throughput.Proofs.Number.Order
import Throughput.Proofs.Figure.Finite
import Throughput.Proofs.Balance.Isolation
import Throughput.Proofs.Run.Balances
import Throughput.Proofs.Number.Grid
import Throughput.Proofs.Number.Quotient
import Throughput.Proofs.Number.Scientific
import Throughput.Proofs.Balance.Delta
import Throughput.Proofs.Balance.Quotient
import Throughput.Proofs.Balance.Band
import Throughput.Proofs.Number.Shortest
import Throughput.Proofs.Number.Plain
import Throughput.Proofs.CommandLine.Address
import Throughput.Proofs.CommandLine.Ratio
import Throughput.Proofs.Text.Clip
import Throughput.Proofs.Run.Reasons
