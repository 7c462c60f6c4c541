import MultipathTools.Alias.FreeName
import MultipathTools.Alias.Repaired
import MultipathTools.Alias.Safety
import MultipathTools.Alias.Uniqueness
import MultipathTools.Alua.Lookup
import MultipathTools.Base.Lfsr
import MultipathTools.Base.Numeral
import MultipathTools.Blacklist.Rules
import MultipathTools.Checkers.DirectioAccounting
import MultipathTools.Checkers.TurProtocol
import MultipathTools.Cli.Authorisation
import MultipathTools.Cli.ShowPaths
import MultipathTools.Config.Effective
import MultipathTools.Config.Factorized
import MultipathTools.Config.Incomplete
import MultipathTools.Config.Sections
import MultipathTools.Configure.CoalesceOrder
import MultipathTools.Configure.PathOrderKept
import MultipathTools.Configure.Reload
import MultipathTools.Daemon.Agreement
import MultipathTools.Daemon.DmeventRounds
import MultipathTools.Daemon.Dmevents
import MultipathTools.Daemon.Failback
import MultipathTools.Daemon.Failures
import MultipathTools.Daemon.Recovery
import MultipathTools.Daemon.ReinstateLaw
import MultipathTools.Daemon.State
import MultipathTools.Dict.Document
import MultipathTools.Dict.DocumentRoundTrip
import MultipathTools.Dict.PrintStr
import MultipathTools.Dict.RoundTrip
import MultipathTools.Discovery.Inside
import MultipathTools.Discovery.Timeouts
import MultipathTools.Discovery.Wwid
import MultipathTools.Dmparser.Complete
import MultipathTools.Dmparser.RoundTrip
import MultipathTools.Features.Queueing
import MultipathTools.Features.Removal
import MultipathTools.Foreign.Nvme
import MultipathTools.IoErr.Locks
import MultipathTools.IoErr.Marks
import MultipathTools.Kpartx.Contained
import MultipathTools.Kpartx.Crc
import MultipathTools.Kpartx.DosExact
import MultipathTools.Kpartx.GptInside
import MultipathTools.Kpartx.Influence
import MultipathTools.Kpartx.Partmaps
import MultipathTools.Kpartx.Resolve
import MultipathTools.Log.Fifo
import MultipathTools.Log.Flushed
import MultipathTools.MpathCmd.Framing
import MultipathTools.Parser.PrintedLine
import MultipathTools.Parser.Quoting
import MultipathTools.Parser.Stream
import MultipathTools.Persist.FullStatus
import MultipathTools.Persist.Register
import MultipathTools.Persist.Restore
import MultipathTools.Persist.RoundTrip
import MultipathTools.Pgpolicies.Best
import MultipathTools.Pgpolicies.Partition
import MultipathTools.Pgpolicies.Switchgroup
import MultipathTools.Print.Blacklist
import MultipathTools.Print.JsonDocument
import MultipathTools.Print.Progress
import MultipathTools.Prkey.History
import MultipathTools.StructsVec.Adopted
import MultipathTools.StructsVec.Synced
import MultipathTools.Uevents.Conservation
import MultipathTools.Uevents.Order
import MultipathTools.Uevents.Serviced
import MultipathTools.Util.Strlcat
import MultipathTools.Valid.Uevents
import MultipathTools.Vecs.Handlers
import MultipathTools.Vector.Lists
import MultipathTools.Wwids.Lookup
import MultipathTools.Wwids.Membership
