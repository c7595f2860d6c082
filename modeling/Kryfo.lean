import Kryfo.Catchup.Gap
import Kryfo.Catchup.Twins
import Kryfo.Catchup.Resume
import Kryfo.Library.Dict
import Kryfo.Library.Ledger
import Kryfo.Library.Run
import Kryfo.Relay.Asking
import Kryfo.Seen.Compact
import Kryfo.Poll.Conserve
import Kryfo.Seen.Restart
import Kryfo.Catchup.Walk
import Kryfo.Catchup.Coverage
import Kryfo.Helper.Room
import Kryfo.Backup.Whole
import Kryfo.Auto.NoDirect
import Kryfo.Pin.Isolation
import Kryfo.Door.InOrder
import Kryfo.Door.Limits
import Kryfo.Handle.Registry
import Kryfo.Handle.Requests
import Kryfo.Handle.Owner
import Kryfo.Handle.Order
import Kryfo.Handle.Saving
import Kryfo.Vault.Inbox
import Kryfo.Vault.Trim
import Kryfo.Vault.Pad
import Kryfo.Library.JsonText
import Kryfo.Frame.Envelope
import Kryfo.Frame.Rewrite
import Kryfo.Frame.Blind
import Kryfo.Unsend.Filing
import Kryfo.Unsend.Away
import Kryfo.Burn.Clocks
import Kryfo.Burn.Sweep
import Kryfo.Burn.Trace
import Kryfo.Roster.Group
import Kryfo.Roster.Converge
import Kryfo.Room.Frames
import Kryfo.Room.Out
import Kryfo.Lock.Counters
import Kryfo.Lock.Pad
import Kryfo.Lock.Acts
import Kryfo.Lock.Held
import Kryfo.Moat.Calls
import Kryfo.Moat.Ends
import Kryfo.Moat.Dials
import Kryfo.Library.Utf16
import Kryfo.Wire.Laws
import Kryfo.Picture.JpegClean
import Kryfo.Picture.ChunkKinds
import Kryfo.Ballot.Converge
import Kryfo.Ballot.Close
import Kryfo.Catchup.Stream
import Kryfo.Catchup.Progress
import Kryfo.Catchup.SendOrder
import Kryfo.Export.ZipReads
import Kryfo.Route.Watch
import Kryfo.Route.BackOff
import Kryfo.Route.OneAtATime
import Kryfo.Bridges.NormalForm
import Kryfo.Bridges.Reviewed
import Kryfo.Bridges.Cache
import Kryfo.Media.Record
import Kryfo.Arrival.Spans
import Kryfo.Media.Unfinished
import Kryfo.Knock.Lanes
import Kryfo.Seen.Bounds
import Kryfo.Seen.IdRing
import Kryfo.Wake.FirstTurn
import Kryfo.Arrival.FrameOrder
import Kryfo.Media.Packed
import Kryfo.Shots
