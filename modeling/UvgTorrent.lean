import UvgTorrent.Library.Program
import UvgTorrent.Library.Depth
import UvgTorrent.Library.MachineInt
import UvgTorrent.Library.ByteOrder
import UvgTorrent.Library.CString
import UvgTorrent.Library.Buffer
import UvgTorrent.Library.Fields
import UvgTorrent.Library.WriteHistory
import UvgTorrent.Library.Bencode
import UvgTorrent.Library.BencodeTree
import UvgTorrent.Library.ByteStream
import UvgTorrent.Library.EventLog
import UvgTorrent.Library.OwnershipLog
import UvgTorrent.Library.Transition
import UvgTorrent.Library.Chain
import UvgTorrent.Library.Heap
import UvgTorrent.Library.Fifo
import UvgTorrent.Library.JobLedger
import UvgTorrent.Library.DottedQuad
import UvgTorrent.Library.Retry
import UvgTorrent.Library.BitPlaces
import UvgTorrent.Library.Search
import UvgTorrent.Library.FormCoding
import UvgTorrent.Library.Pieces
import UvgTorrent.Library.Allocation
import UvgTorrent.Surroundings
import UvgTorrent.DataStructures.Linkedlist
import UvgTorrent.DataStructures.LinkedlistMemory
import UvgTorrent.DataStructures.LinkedlistAccess
import UvgTorrent.DataStructures.Bucket
import UvgTorrent.DataStructures.Hashmap
import UvgTorrent.DataStructures.HashmapHistory
import UvgTorrent.DataStructures.HashmapFill
import UvgTorrent.DataStructures.HashmapMemory
import UvgTorrent.DataStructures.HashmapDestroy
import UvgTorrent.DataStructures.HashmapAllocation
import UvgTorrent.DataStructures.HashmapLookup
import UvgTorrent.DataStructures.FailedUpdates
import UvgTorrent.Utils.UrlCoding
import UvgTorrent.Utils.UrlScan
import UvgTorrent.Utils.Split
import UvgTorrent.Utils.SplitPieces
import UvgTorrent.Utils.NetUtils
import UvgTorrent.Utils.Descriptors
import UvgTorrent.Utils.ThreadPool
import UvgTorrent.Utils.RandUtils
import UvgTorrent.Bencode.Cursor
import UvgTorrent.Bencode.Grammar
import UvgTorrent.Bencode.ReaderSpec
import UvgTorrent.Bencode.Convert
import UvgTorrent.Bencode.Soundness
import UvgTorrent.Bencode.Completeness
import UvgTorrent.Bencode.Survival
import UvgTorrent.Bencode.Faithful
import UvgTorrent.Bencode.TreeReader
import UvgTorrent.Bencode.TreeConversion
import UvgTorrent.Torrent.Magnet
import UvgTorrent.Torrent.MagnetInverse
import UvgTorrent.Torrent.Parse
import UvgTorrent.Torrent.ParseEnds
import UvgTorrent.Torrent.Teardown
import UvgTorrent.Peer.Socket
import UvgTorrent.Peer.FrameReceive
import UvgTorrent.Peer.FrameRounds
import UvgTorrent.Peer.Packets
import UvgTorrent.Peer.Segmentation
import UvgTorrent.Peer.BrokenConnection
import UvgTorrent.Peer.State
import UvgTorrent.Peer.Metadata
import UvgTorrent.Peer.MetadataRounds
import UvgTorrent.Peer.MetadataBounds
import UvgTorrent.Peer.MetadataReassembly
import UvgTorrent.Peer.Handshake
import UvgTorrent.Utils.HexBytes
import UvgTorrent.Peer.ExtendedHandshake
import UvgTorrent.Peer.Conversation
import UvgTorrent.Peer.NumberScan
import UvgTorrent.Peer.KeyLookup
import UvgTorrent.Peer.DictionaryLookup
import UvgTorrent.Peer.HandshakeParameters
import UvgTorrent.Peer.CollectedReplies
import UvgTorrent.Peer.RequestedPieces
import UvgTorrent.Peer.MetadataRequests
import UvgTorrent.Peer.MetadataPayload
import UvgTorrent.Peer.AcceptedPieces
import UvgTorrent.Peer.InfoWalk
import UvgTorrent.Peer.InfoDictionary
import UvgTorrent.Peer.PieceRequests
import UvgTorrent.Peer.HandshakeLayout
import UvgTorrent.Torrent.HashText
import UvgTorrent.Tracker.PeerLoop
import UvgTorrent.Tracker.PeerOrder
import UvgTorrent.Tracker.Packets
import UvgTorrent.Tracker.RequestLayout
import UvgTorrent.Tracker.AnnounceRecords
import UvgTorrent.Tracker.Exchange
import UvgTorrent.Tracker.ExchangeSpec
import UvgTorrent.Tracker.ExchangeIds
import UvgTorrent.Tracker.ExchangeHash
import UvgTorrent.Tracker.Attempts
import UvgTorrent.Tracker.ConnectRetries
import UvgTorrent.Tracker.VisitEnds
import UvgTorrent.Tracker.AnnounceRetries
import UvgTorrent.Torrent.Trackers
import UvgTorrent.Torrent.ConnectedTrackers
import UvgTorrent.Torrent.MagnetText
import UvgTorrent.Torrent.MagnetBounds
import UvgTorrent.Torrent.MagnetRuns
import UvgTorrent.Torrent.MagnetSeparators
import UvgTorrent.Torrent.IncompleteMagnet
import UvgTorrent.Tracker.HashShape
import UvgTorrent.Tracker.Address
import UvgTorrent.Tracker.AddressShape
import UvgTorrent.ReceivedBytes
import UvgTorrent.Library.Progress
import UvgTorrent.Library.Shuffle
import UvgTorrent.DataStructures.LinkedlistDestroy
import UvgTorrent.Utils.PoolShutdown
import UvgTorrent.Utils.PoolMemory
import UvgTorrent.Utils.ShuffleFairness
import UvgTorrent.Torrent.Session
import UvgTorrent.Torrent.SessionLink
import UvgTorrent.Bencode.Validate
import UvgTorrent.Bencode.AcceptedTexts
import UvgTorrent.Library.WordMixing
import UvgTorrent.DataStructures.HashCollisions
import UvgTorrent.Library.Blocks
import UvgTorrent.Library.Ledger
import UvgTorrent.Objects.Packets
import UvgTorrent.Objects.Constructors
import UvgTorrent.Objects.Lifetimes
import UvgTorrent.Objects.PeerLists
import UvgTorrent.Peer.PacketMemory
import UvgTorrent.Peer.PacketLeaks
import UvgTorrent.Tracker.ConnectMemory
import UvgTorrent.Tracker.AnnounceMemory
import UvgTorrent.Tracker.Lifetime
