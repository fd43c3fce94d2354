import Zway.Lib.Bytes
import Zway.Lib.OrdMap
import Zway.Lib.Search
import Zway.Lib.Chunk
import Zway.Lib.Ctr
import Zway.Lib.Transfer
import Zway.Lib.VirtualTable
import Zway.Lib.Sql
import Zway.Lib.Sqlite
import Zway.Ubj.Value
import Zway.Ubj.Writer
import Zway.Ubj.Wire
import Zway.Ubj.WriterProof
import Zway.Ubj.Reader
import Zway.Ubj.ReaderProof
import Zway.Ubj.RoundTrip
import Zway.Stream.Packet
import Zway.Stream.Sender
import Zway.Stream.Receiver
import Zway.Stream.Engine
import Zway.Stream.Reassembly
import Zway.Stream.Delivery
import Zway.Stream.Bounds
import Zway.Stream.Integrity
import Zway.Stream.Framing
import Zway.Stream.Partial
import Zway.Crypto.Aes
import Zway.Stream.Resource
import Zway.Stream.Transfer
import Zway.Crypto.Counters
import Zway.Store.Action
import Zway.Store.ActionProof
import Zway.Store.Blob
import Zway.Store.BlobProof
import Zway.Store.BlobUpdate
import Zway.Store.BlobRoundTrip
import Zway.Store.Where
import Zway.Store.Terms
import Zway.Lib.Run
import Zway.Client.Outcomes
import Zway.Client.Kept
import Zway.Client.Streams
import Zway.Client.Session
import Zway.Client.Login
import Zway.Thread.Handler
import Zway.Thread.Sender
import Zway.Thread.Control
import Zway.Store.Wait
import Zway.Client.Records
import Zway.Client.Sending
import Zway.Client.Sent
import Zway.Client.Incoming
import Zway.Client.Transmission
import Zway.Client.Receiving
import Zway.Client.Completion
import Zway.Client.Received
import Zway.Client.Retransmission
import Zway.Client.Stored
import Zway.Client.Files
import Zway.Client.Dangling
import Zway.Client.Contacts
import Zway.Client.Redelivery
import Zway.Client.Outgoing
import Zway.Client.Connections
import Zway.Client.Receipts
import Zway.Store.VirtualTable
import Zway.Store.VirtualScan
import Zway.Store.VirtualRows
import Zway.Store.Isolation
import Zway.Store.AllOrNothing
import Zway.Store.Open
import Zway.Store.VirtualInsert
import Zway.Store.RandomAccess
import Zway.Store.Binding
import Zway.Store.Placeholders
import Zway.Store.Selection
import Zway.Ubj.ContainerStack
import Zway.Stream.Calls
import Zway.Stream.Refusal
import Zway.Client.Refusals
import Zway.Ubj.Siblings
import Zway.Ubj.Document
import Zway.Ubj.DocumentProof
import Zway.Ubj.DocumentRead
import Zway.Stream.Sizes
import Zway.Crypto.SecMem
import Zway.Crypto.SecMemThreads
import Zway.Client.Inbox
import Zway.Stream.Closing
import Zway.Client.Cascade
import Zway.Client.Vfs
import Zway.Client.Pushed
import Zway.Client.Posted
import Zway.Client.Nodes
import Zway.Client.UniqueNodes
import Zway.Crypto.Chunks
import Zway.Store.Indexes
import Zway.Store.IndexScan
import Zway.Store.Creation
import Zway.Client.NewStore
import Zway.Lib.Hex
import Zway.Ubj.Terminated
import Zway.Crypto.Rsa
import Zway.Store.VirtualRoundTrip
import Zway.Ubj.Locality
import Zway.Ubj.Received
import Zway.Lib.Records
import Zway.Store.Documents
import Zway.Store.Neighbours
import Zway.Store.InsertUpdate
import Zway.Client.Envelope
import Zway.Client.Schedule
import Zway.Stream.Interleaving
import Zway.Client.Account
import Zway.Client.Folders
