import RdmaWiki.Protocol
import RdmaWiki.Release
import RdmaWiki.Grants
import RdmaWiki.Progress
import RdmaWiki.Contents
import RdmaWiki.Exclusion
import RdmaWiki.Ownership
import RdmaWiki.Commute
import RdmaWiki.Lib.AtomicObject
import RdmaWiki.Register
import RdmaWiki.Solo
import RdmaWiki.Store
import RdmaWiki.Crashes
import RdmaWiki.Failures
import RdmaWiki.Frames
import RdmaWiki.Uninitialised
import RdmaWiki.FiniteMap
import RdmaWiki.Codec
import RdmaWiki.Completions
import RdmaWiki.ServerLoop
import RdmaWiki.ExactlyOnce
import RdmaWiki.RequestBytes
import RdmaWiki.ClientLoop
import RdmaWiki.ClientWaits
import RdmaWiki.ReplyBytes
import RdmaWiki.Credits
import RdmaWiki.Lib.LibraryCalls
import RdmaWiki.Api
import RdmaWiki.Truthful
import RdmaWiki.ServerGrants
import RdmaWiki.Polling
import RdmaWiki.RoundRobin
import RdmaWiki.TextBounds
import RdmaWiki.WholeValue
import RdmaWiki.ReplyBounds
import RdmaWiki.ValueOwners
import RdmaWiki.Lib.Scanf
import RdmaWiki.Queries
import RdmaWiki.WorkRequests
import RdmaWiki.Descriptors
import RdmaWiki.Lib.HexText
import RdmaWiki.Destinations
import RdmaWiki.Setup
import RdmaWiki.Lib.Interference
import RdmaWiki.Handshake
import RdmaWiki.Promises
import RdmaWiki.Opening
import RdmaWiki.Joining
import RdmaWiki.Lib.Ledger
import RdmaWiki.Resources
import RdmaWiki.Lib.Simulation
import RdmaWiki.System
import RdmaWiki.SystemParts
import RdmaWiki.SystemClients
import RdmaWiki.SystemRefinement
import RdmaWiki.Deliveries
import RdmaWiki.SystemRegister
import RdmaWiki.Lib.Termination
import RdmaWiki.Returning
import RdmaWiki.OwnedMemory
import RdmaWiki.Refusals
import RdmaWiki.Accesses
import RdmaWiki.Lib.Prefixes
import RdmaWiki.ClientProgram
import RdmaWiki.SystemPrograms
import RdmaWiki.SystemProgress
import RdmaWiki.SystemReturns
