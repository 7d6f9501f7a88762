import Onde.Lib.Bytes
import Onde.Lib.Chunks
import Onde.Lib.Except
import Onde.Lib.Fields
import Onde.Lib.Fifo
import Onde.Lib.HashMap
import Onde.Lib.Json
import Onde.Lib.Reader
import Onde.Lib.Run
import Onde.Lib.Text
import Onde.Lib.Window
import Onde.Crypto.Primitives
import Onde.Protocol.Event
import Onde.Protocol.Wire
import Onde.Reputation.Spam
import Onde.Reputation.SlidingWindow
import Onde.Reputation.System
import Onde.Reputation.Laundering
import Onde.Reputation.Trust
import Onde.Protocol.Gossip
import Onde.Protocol.Delivery
import Onde.Network.Frame
import Onde.Network.Transport
import Onde.Network.Outbound
import Onde.Social.Payload
import Onde.Storage.MessageStore
import Onde.Node.State
import Onde.Node.Handlers
import Onde.Node.SocialHandlers
import Onde.Node.Receive
import Onde.Node.Verdict
import Onde.Node.Authenticated
import Onde.Node.Relay
import Onde.Node.Receptions
import Onde.Node.HealGrace
import Onde.Node.Framing
import Onde.Node.Redelivery
import Onde.Node.Publish
import Onde.Node.Honest
import Onde.Update.Wire
import Onde.Update.Protocol
import Onde.Update.Transfer
import Onde.Update.Authentic
import Onde.Node.Update
import Onde.Crypto.TxPool
import Onde.Dtn.Conservation
import Onde.Dtn.Paths
import Onde.Protocol.Admission
import Onde.Lib.Drain
import Onde.Lib.Table
import Onde.Lib.Reorder
import Onde.Node.Authors
import Onde.Node.Ownership
import Onde.Node.SocialReplay
import Onde.Node.Convergence
import Onde.Social.Orphans
import Onde.Social.Scores
import Onde.Social.ForeignKeys
import Onde.Social.Reactions
import Onde.Node.Rotation
import Onde.Crypto.Rotation
import Onde.Node.Announcer
import Onde.Storage.Accounting
import Onde.Storage.Persistence
import Onde.Node.Restore
import Onde.Lib.Utf8
import Onde.Lib.Outcome
import Onde.Lib.Located
import Onde.Lib.Lz4
import Onde.Zim.Parser
import Onde.Zim.Safety
import Onde.Zim.Layout
import Onde.Network.Connections
import Onde.Lib.Grid
import Onde.Simulation.Encounters
import Onde.Lib.IeeeOrder
import Onde.Reputation.Scores
import Onde.Reputation.Activity
import Onde.Lib.Mirror
import Onde.Protocol.WireSafety
import Onde.Protocol.Sending
import Onde.Network.Queues
import Onde.Reputation.Folding
import Onde.Reputation.Confluence
import Onde.Node.ChunkRequests
import Onde.Update.Downgrade
import Onde.Update.Codecs
import Onde.Node.Ignored
import Onde.Node.Classification
import Onde.Simulation.Accounting
import Onde.Node.Endorse
import Onde.Reputation.Difficulty
import Onde.Reputation.Reports
import Onde.Node.Presence
import Onde.Node.Throttle
import Onde.Node.Sweeps
import Onde.Lib.Smallest
import Onde.Lib.Joined
import Onde.Lib.HashChain
import Onde.Dtn.Urgency
import Onde.Dtn.Symmetry
import Onde.Crypto.Binding
import Onde.Crypto.StateRoot
import Onde.Lib.JsonText
import Onde.Protocol.EventId
import Onde.Crypto.Padding
import Onde.Lib.LeadingZeros
import Onde.Network.Yggdrasil
import Onde.Lib.Crlf
import Onde.Health.RequestHead
import Onde.Lib.Cells
import Onde.Storage.Geohash
import Onde.Stt.Wav
import Onde.Stt.WavFile
import Onde.Lib.Sql
import Onde.Mbtiles.Reader
import Onde.Mbtiles.Zooms
import Onde.Zim.Reload
import Onde.Zim.Measure
import Onde.Zim.Grammar
import Onde.Mbtiles.Tiles
import Onde.Network.Inbound
import Onde.Node.Signing
import Onde.Network.Mesh
import Onde.Network.Flood
import Onde.Network.Draining
import Onde.Node.HealBatch
import Onde.Network.Exchange
import Onde.Lib.Base64
import Onde.Update.Release
import Onde.Node.Replies
import Onde.Node.Distribution
import Onde.Node.Rollout
import Onde.Node.Reporting
import Onde.Lib.Contacts
import Onde.Dtn.Spread
import Onde.Reputation.Collusion
import Onde.Network.Quiet
import Onde.Llm.Generate
import Onde.Lib.LockFree
import Onde.Metrics.Registry
import Onde.Crypto.GracePeriod
import Onde.Lib.Http
import Onde.Lib.Template
import Onde.Metrics.Snapshot
import Onde.Health.Server
import Onde.Crypto.Senders
import Onde.Social.Deletion
import Onde.Node.Seed
