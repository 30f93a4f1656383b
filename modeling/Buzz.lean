import Buzz.Acp.Budget
import Buzz.Acp.BudgetRun
import Buzz.Acp.Circuit
import Buzz.Acp.Conserve
import Buzz.Acp.Custody
import Buzz.Acp.Fairness
import Buzz.Acp.FairnessRun
import Buzz.Acp.ObserverRun
import Buzz.Acp.Usage
import Buzz.Agent.HandoffGate
import Buzz.Agent.HandoffPrompt
import Buzz.Agent.History
import Buzz.Agent.Steers
import Buzz.Agent.ToolResult
import Buzz.Agent.ToolUpdates
import Buzz.Agent.Turn
import Buzz.Agent.TurnRun
import Buzz.Audio.Control
import Buzz.Audio.ControlRun
import Buzz.Audio.Media
import Buzz.Audio.MediaRun
import Buzz.Audio.OwnerControl
import Buzz.Audio.Owners
import Buzz.Audio.OwnersRun
import Buzz.Audio.Refusal
import Buzz.Audio.Room
import Buzz.Audio.Rooms
import Buzz.Audio.RoomsRun
import Buzz.Audio.RosterRun
import Buzz.Audit.Chain
import Buzz.Audit.Service
import Buzz.Audit.Tamper
import Buzz.Audit.Verify
import Buzz.Channel.Admin
import Buzz.Channel.Decisions
import Buzz.Channel.Owners
import Buzz.Channel.RoleChange
import Buzz.Core.GitPolicy
import Buzz.Db.Converge
import Buzz.Db.DTag
import Buzz.Db.Membership
import Buzz.Db.MembershipRun
import Buzz.Db.PagingWalk
import Buzz.Db.Query
import Buzz.Db.ReactionRun
import Buzz.Db.Replace
import Buzz.Db.ReplaceSpec
import Buzz.Db.ReplicaFence
import Buzz.Db.ReplicaRun
import Buzz.Db.Resurrect
import Buzz.Db.Thread
import Buzz.Db.ThreadCount
import Buzz.Db.ThreadRun
import Buzz.Desktop.ReadStore
import Buzz.Engram.Body
import Buzz.Engram.Head
import Buzz.Engram.Refs
import Buzz.Gateway.Admission
import Buzz.Gateway.Authority
import Buzz.Gateway.Conform
import Buzz.Gateway.ConformDelivery
import Buzz.Gateway.Fencing
import Buzz.Gateway.FencingInv
import Buzz.Gateway.FencingRun
import Buzz.Gateway.HandlersRun
import Buzz.Gateway.HandlersSpec
import Buzz.Gateway.Memory
import Buzz.Gateway.Postgres
import Buzz.Gateway.PostgresSpec
import Buzz.Gateway.Quota
import Buzz.Git.Envelope
import Buzz.Git.Hook
import Buzz.Git.Manifest
import Buzz.Git.Materialize
import Buzz.Git.PackCache
import Buzz.Git.Policy
import Buzz.Git.PublishedHead
import Buzz.Git.PushRun
import Buzz.Git.RefFormat
import Buzz.Git.Signature
import Buzz.Lib.AntiEntropy
import Buzz.Lib.ClaimLedger
import Buzz.Lib.Decimal
import Buzz.Lib.Fence
import Buzz.Lib.Framing
import Buzz.Lib.JsonNormal
import Buzz.Lib.Jsonb
import Buzz.Lib.LastWriterWins
import Buzz.Lib.PercentEncoding
import Buzz.Lib.Redis
import Buzz.Lib.Shell
import Buzz.Lib.Spans
import Buzz.Mesh.Converge
import Buzz.Mesh.Dial
import Buzz.Mesh.DialRun
import Buzz.Mesh.Gossip
import Buzz.Mesh.Membership
import Buzz.Mesh.Network
import Buzz.PairRelay.Dedup
import Buzz.PairRelay.Limits
import Buzz.PairRelay.Moves
import Buzz.PairRelay.Once
import Buzz.PairRelay.Server
import Buzz.PairRelay.Validate
import Buzz.Pairing.Agreement
import Buzz.Pairing.Atomic
import Buzz.Pairing.Honest
import Buzz.Pairing.Moves
import Buzz.Pairing.Qr
import Buzz.Pairing.Run
import Buzz.Pairing.Session
import Buzz.Pairing.Types
import Buzz.Pairing.Wire
import Buzz.Pubsub.Nip98Replay
import Buzz.Pubsub.RateLimiterRun
import Buzz.Pubsub.Subscriber
import Buzz.Pubsub.SubscriberRun
import Buzz.Push.DeliveryRun
import Buzz.Push.EnqueueBatch
import Buzz.Push.Expiry
import Buzz.Push.Fenced
import Buzz.Push.FencedRun
import Buzz.Push.LeaseRun
import Buzz.Push.LeaseSpec
import Buzz.Push.RetryTime
import Buzz.Relay.Commands
import Buzz.Relay.Deletions
import Buzz.Relay.Directory
import Buzz.Relay.DirectoryRun
import Buzz.Relay.FanOut
import Buzz.Relay.Freshness
import Buzz.Relay.Historical
import Buzz.Relay.Ingest
import Buzz.Relay.Mentions
import Buzz.Relay.ReactionIngest
import Buzz.Relay.RegistryDeadlock
import Buzz.Relay.ReliableRun
import Buzz.Relay.ReliableStream
import Buzz.Relay.SubscriptionBooks
import Buzz.Relay.WriteBlock
import Buzz.Workflow.EvalContext
import Buzz.Workflow.ScheduleLive
import Buzz.Workflow.Template
