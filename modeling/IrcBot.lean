import IrcBot.BanSafety
import IrcBot.Election
import IrcBot.Commands
import IrcBot.ChanRecord
import IrcBot.IrcParser
import IrcBot.OpSafety
import IrcBot.RequestNames
import IrcBot.ChannelMerge
import IrcBot.TrustList
import IrcBot.NoUpdate
import IrcBot.LocalPush
import IrcBot.BanDelivery
import IrcBot.UserTable
import IrcBot.NameTable
import IrcBot.Chancmd
import IrcBot.QueuedModes
import IrcBot.SendLine
import IrcBot.BanTable
import IrcBot.NickRuns
import IrcBot.TrailingColon
import IrcBot.Upgrade
import IrcBot.BanClash
import IrcBot.BanSpare
import IrcBot.ActSafety
import IrcBot.AuthCache
import IrcBot.ModeSync
import IrcBot.LiveTracking
import IrcBot.HubSession
import IrcBot.Purge
import IrcBot.Versions
import IrcBot.EventLimits
import IrcBot.HubFraming
import IrcBot.IrcRead
import IrcBot.UnbanWalks
import IrcBot.Chanset
import IrcBot.Stamps
import IrcBot.FloodWindows
import IrcBot.Botflood
import IrcBot.FloodHosts
import IrcBot.IgnoreTable
import IrcBot.BanMasks
import IrcBot.Offences
import IrcBot.UsermaskEdits
import IrcBot.Dcc
import IrcBot.ActivityQueries
import IrcBot.LastSeen
import IrcBot.RosterEvents
import IrcBot.StoredModes
import IrcBot.Refusals
import IrcBot.Servers
import IrcBot.Reports
import IrcBot.PinFile
import IrcBot.Irckey
import IrcBot.SealedReply
import IrcBot.Wildcard
import IrcBot.ServerTokens
import IrcBot.UpgradeChecks
import IrcBot.Marker
import IrcBot.PendingJobs
import IrcBot.DccReads
import IrcBot.DccTicks
import IrcBot.ConfigDisk
