import CacheCoherence.Address
import CacheCoherence.Backlog
import CacheCoherence.CommandLine.Directory
import CacheCoherence.CommandLine.Execute
import CacheCoherence.CommandLine.Options
import CacheCoherence.Config
import CacheCoherence.Config.Json
import CacheCoherence.Counters
import CacheCoherence.Decimal
import CacheCoherence.Fault
import CacheCoherence.Hierarchy.Basic
import CacheCoherence.Hierarchy.Processor
import CacheCoherence.Hierarchy.Report
import CacheCoherence.Hierarchy.Step
import CacheCoherence.Json.Basic
import CacheCoherence.Json.Printer
import CacheCoherence.Json.Reader
import CacheCoherence.Json.Token
import CacheCoherence.Main
import CacheCoherence.Memory.Node
import CacheCoherence.Memory.Timing
import CacheCoherence.Packet
import CacheCoherence.Packet.Json
import CacheCoherence.Parking
import CacheCoherence.Parking.LineCounts
import CacheCoherence.PrivateCache.Admission
import CacheCoherence.PrivateCache.Basic
import CacheCoherence.PrivateCache.Messages
import CacheCoherence.PrivateCache.Replacement
import CacheCoherence.PrivateCache.Tick
import CacheCoherence.Proofs.Backlog.Arrivals
import CacheCoherence.Proofs.Backlog.Blocked
import CacheCoherence.Proofs.Backlog.Guarded
import CacheCoherence.Proofs.Backlog.Held
import CacheCoherence.Proofs.Backlog.Mapped
import CacheCoherence.Proofs.Driven
import CacheCoherence.Proofs.Driven.Answers
import CacheCoherence.Proofs.Driven.Deferral
import CacheCoherence.Proofs.Driven.Discipline
import CacheCoherence.Proofs.Driven.Records
import CacheCoherence.Proofs.Driven.Resolved
import CacheCoherence.Proofs.Driven.Retries
import CacheCoherence.Proofs.Driven.Runs
import CacheCoherence.Proofs.Driven.Wakeups
import CacheCoherence.Proofs.Driven.Ways
import CacheCoherence.Proofs.Hierarchy.Aligned
import CacheCoherence.Proofs.Hierarchy.Balance
import CacheCoherence.Proofs.Hierarchy.Blueprint
import CacheCoherence.Proofs.Hierarchy.Channels
import CacheCoherence.Proofs.Hierarchy.Credits
import CacheCoherence.Proofs.Hierarchy.Holders
import CacheCoherence.Proofs.Hierarchy.Permission
import CacheCoherence.Proofs.Hierarchy.Picture
import CacheCoherence.Proofs.Hierarchy.Ports
import CacheCoherence.Proofs.Hierarchy.Reached
import CacheCoherence.Proofs.Hierarchy.Rounds
import CacheCoherence.Proofs.Hierarchy.Silence
import CacheCoherence.Proofs.Json.Packets
import CacheCoherence.Proofs.Json.Settings
import CacheCoherence.Proofs.Json.Spelled
import CacheCoherence.Proofs.Json.Written
import CacheCoherence.Proofs.Memory.Cycle
import CacheCoherence.Proofs.Memory.Posts
import CacheCoherence.Proofs.Memory.Replies
import CacheCoherence.Proofs.Mirrors
import CacheCoherence.Proofs.PrivateCache.Accesses
import CacheCoherence.Proofs.PrivateCache.Account
import CacheCoherence.Proofs.PrivateCache.Aligned
import CacheCoherence.Proofs.PrivateCache.Cycle
import CacheCoherence.Proofs.PrivateCache.Events
import CacheCoherence.Proofs.PrivateCache.Filed
import CacheCoherence.Proofs.PrivateCache.Permission
import CacheCoherence.Proofs.PrivateCache.Posts
import CacheCoherence.Proofs.PrivateCache.Receipt
import CacheCoherence.Proofs.PrivateCache.Turns
import CacheCoherence.Proofs.PrivateCache.Wants
import CacheCoherence.Proofs.Protocol.Acceptance
import CacheCoherence.Proofs.Protocol.Agreement
import CacheCoherence.Proofs.Protocol.Bookkeeping
import CacheCoherence.Proofs.Protocol.ClientSteps
import CacheCoherence.Proofs.Protocol.Exchange
import CacheCoherence.Proofs.Protocol.ExchangeSound
import CacheCoherence.Proofs.Protocol.ManagerSteps
import CacheCoherence.Proofs.Protocol.Membership
import CacheCoherence.Proofs.Protocol.Naming
import CacheCoherence.Proofs.Protocol.Notes
import CacheCoherence.Proofs.Protocol.Order
import CacheCoherence.Proofs.Protocol.Phase
import CacheCoherence.Proofs.Protocol.Sharing
import CacheCoherence.Proofs.Scene.Accepted
import CacheCoherence.Proofs.Scene.Basic
import CacheCoherence.Proofs.Scene.Fits
import CacheCoherence.Proofs.Scene.Plan
import CacheCoherence.Proofs.Scene.Shares
import CacheCoherence.Proofs.Scene.Silent
import CacheCoherence.Proofs.Scene.Sound
import CacheCoherence.Proofs.Scene.Station
import CacheCoherence.Proofs.Scene.Wiring
import CacheCoherence.Proofs.SharedBank.Cycle
import CacheCoherence.Proofs.SharedBank.Deeds
import CacheCoherence.Proofs.SharedBank.Events
import CacheCoherence.Proofs.SharedBank.Filed
import CacheCoherence.Proofs.SharedBank.Lifecycle
import CacheCoherence.Proofs.SharedBank.Misses
import CacheCoherence.Proofs.SharedBank.Orderly
import CacheCoherence.Proofs.SharedBank.Posts
import CacheCoherence.Proofs.SharedBank.Refusals
import CacheCoherence.Proofs.SharedBank.Replies
import CacheCoherence.Proofs.SharedBank.Requests
import CacheCoherence.Proofs.SharedBank.Resolution
import CacheCoherence.Proofs.SharedBank.Turns
import CacheCoherence.Proofs.Table.Bounds
import CacheCoherence.Proofs.Table.Calls
import CacheCoherence.Proofs.Table.Claims
import CacheCoherence.Proofs.Table.Entries
import CacheCoherence.Proofs.Table.Fields
import CacheCoherence.Proofs.Table.Handles
import CacheCoherence.Proofs.Table.LeastRecent
import CacheCoherence.Proofs.Table.Ledger
import CacheCoherence.Proofs.Table.LedgerSteps
import CacheCoherence.Proofs.Table.Lines
import CacheCoherence.Proofs.Table.Registers
import CacheCoherence.Proofs.Table.Slots
import CacheCoherence.Proofs.Text.Numerals
import CacheCoherence.Proofs.Text.Pieces
import CacheCoherence.Proofs.Trace.Grammar
import CacheCoherence.Proofs.Traffic.Calls
import CacheCoherence.Proofs.Traffic.Metering
import CacheCoherence.Proofs.Traffic.Passage
import CacheCoherence.Proofs.Traffic.Schedule
import CacheCoherence.Protocol.BitWords
import CacheCoherence.Protocol.Client
import CacheCoherence.Protocol.Manager
import CacheCoherence.Protocol.Sharers
import CacheCoherence.Request
import CacheCoherence.Routing
import CacheCoherence.SharedBank.Admission
import CacheCoherence.SharedBank.Basic
import CacheCoherence.SharedBank.Messages
import CacheCoherence.SharedBank.Replacement
import CacheCoherence.SharedBank.Tick
import CacheCoherence.Table.Geometry
import CacheCoherence.Table.Lines
import CacheCoherence.Table.Mshr
import CacheCoherence.Table.Recency
import CacheCoherence.Table.Slots
import CacheCoherence.Text.Blank
import CacheCoherence.Text.Numeral
import CacheCoherence.Trace
import CacheCoherence.Traffic.CreditLink
import CacheCoherence.Traffic.DelayLine
import CacheCoherence.Traffic.Interconnect
import CacheCoherence.Traffic.Outlet
import CacheCoherence.Work
