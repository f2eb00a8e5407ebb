import ChainTable.Base.Transition
import ChainTable.Base.Prog
import ChainTable.Base.Relay
import ChainTable.Base.CString
import ChainTable.Base.HashedMap
import ChainTable.Store.Refinement
import ChainTable.Store.Listing
import ChainTable.Wire.Streams
import ChainTable.Wire.Sending
import ChainTable.Wire.Serialization
import ChainTable.Server.Forward
import ChainTable.Server.Remote
import ChainTable.Server.Interleaving
import ChainTable.Sync.Mutex
import ChainTable.Chain.Agreement
import ChainTable.Sync.Waiting
import ChainTable.Server.Guarantees
import ChainTable.Server.Conversation
import ChainTable.Server.Descriptors
import ChainTable.Server.Slots
import ChainTable.Server.Address
import ChainTable.Server.Sockets
import ChainTable.Server.Successor
import ChainTable.Server.Replies
import ChainTable.Server.Timing
import ChainTable.Zoo.Client
import ChainTable.Zoo.Selection
import ChainTable.Zoo.Commands
import ChainTable.Chain.Direction
import ChainTable.Chain.Joining
import ChainTable.Chain.Copy
import ChainTable.Memory.Session
import ChainTable.Server.Serving
import ChainTable.Zoo.Wired
