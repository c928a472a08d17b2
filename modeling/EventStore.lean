import EventStore.Api.Answer
import EventStore.Api.Cli
import EventStore.Api.Codecs
import EventStore.Api.Commit
import EventStore.Api.Controller
import EventStore.Api.ElectionCluster
import EventStore.Api.Elections
import EventStore.Api.Forwarding
import EventStore.Api.Gossip
import EventStore.Api.Node
import EventStore.Api.Replica
import EventStore.Api.Session
import EventStore.Api.Storage
import EventStore.Api.Traffic
import EventStore.Bench.Node
import EventStore.Bus.Message
import EventStore.Bytes
import EventStore.Chunk.FileName
import EventStore.Chunk.Header
import EventStore.Cli.Number
import EventStore.Cli.Options
import EventStore.Cli.Report
import EventStore.Cluster.Controller
import EventStore.Cluster.Gossip
import EventStore.Cluster.Member
import EventStore.Cluster.Node
import EventStore.Cluster.NodeState
import EventStore.Codec.Decoder
import EventStore.Disk
import EventStore.Doc
import EventStore.Doc.Bus
import EventStore.Doc.Forms
import EventStore.Doc.Peer
import EventStore.Doc.Read
import EventStore.Doc.Render
import EventStore.Election.Candidate
import EventStore.Election.Cluster
import EventStore.Election.Service
import EventStore.Hash.Sha256
import EventStore.Log.Epoch
import EventStore.Log.Record
import EventStore.Main
import EventStore.Net.Addr
import EventStore.Peer.Message
import EventStore.Peer.Stream
import EventStore.Proofs.Controller.Roles
import EventStore.Proofs.Controller.Steps
import EventStore.Proofs.Controller.Subscription
import EventStore.Proofs.Controller.Trace
import EventStore.Proofs.Controller.Quiescence
import EventStore.Proofs.Controller.ForwardingTable
import EventStore.Proofs.Controller.ForwardedWrites
import EventStore.Proofs.Election.Agreement
import EventStore.Proofs.Election.Net
import EventStore.Proofs.Election.Quorum
import EventStore.Proofs.Election.Rounds
import EventStore.Proofs.Replication.Bookkeeping
import EventStore.Proofs.Replication.Detector
import EventStore.Proofs.Replication.Heartbeats
import EventStore.Proofs.Replication.Quorum
import EventStore.Proofs.Replication.Steps
import EventStore.Proofs.Replication.Subscription
import EventStore.Proofs.Replication.Tracker
import EventStore.Proofs.Service.Hoare
import EventStore.Proofs.Service.Writer
import EventStore.Proofs.Store.Reads
import EventStore.Replication.Commit
import EventStore.Replication.Master
import EventStore.Replication.Replica
import EventStore.Server.Basic
import EventStore.Server.Run
import EventStore.Service.Actor
import EventStore.Service.Forwarding
import EventStore.Service.StorageChaser
import EventStore.Service.StorageWriter
import EventStore.Store.Basic
import EventStore.Store.BulkRead
import EventStore.Store.Checkpoint
import EventStore.Store.Chunk
import EventStore.Store.Config
import EventStore.Store.Db
import EventStore.Store.Epochs
import EventStore.Store.Error
import EventStore.Store.Scavenging
import EventStore.Store.Truncation
import EventStore.Store.World
import EventStore.Store.Writer
import EventStore.Uuid
import EventStore.Word
import EventStore.Proofs.Disk.Bytes
import EventStore.Proofs.Log.Frame
import EventStore.Proofs.Store.Layout
import EventStore.Proofs.Store.Runs
import EventStore.Proofs.Store.Writes
import EventStore.Proofs.Store.ReadBack
import EventStore.Proofs.Store.Truncation
import EventStore.Proofs.Wire.Fields
import EventStore.Proofs.Peer.Frames
import EventStore.Proofs.Log.RoundTrip
import EventStore.Proofs.Cluster.Membership
import EventStore.Proofs.Hash.Sha256
import EventStore.Proofs.Store.ChunkFile
import EventStore.Proofs.Election.Views
import EventStore.Proofs.Election.Results
import EventStore.Proofs.Election.Ranking
import EventStore.Proofs.Store.FailedTruncation
import EventStore.Proofs.Store.Walks
import EventStore.Proofs.Store.WriterPosition
import EventStore.Proofs.Service.WriteRanges
import EventStore.Proofs.Store.ScavengedReads
import EventStore.Proofs.Store.WriterSync
import EventStore.Proofs.Service.ChaserBound
import EventStore.Proofs.Store.EpochChain
import EventStore.Proofs.Store.EpochCache
import EventStore.Proofs.Store.Faults
import EventStore.Proofs.Cli.Values
import EventStore.Proofs.Store.ChunkSize
import EventStore.Proofs.Chunk.FileNames
import EventStore.Proofs.Store.ChunkRanges
import EventStore.Proofs.Store.Durable
import EventStore.Proofs.Store.DurableWrites
import EventStore.Proofs.Store.Reopening
