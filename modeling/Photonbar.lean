import Photonbar.Run
import Photonbar.ProcessManager
import Photonbar.Instances
import Photonbar.SingleInstance
import Photonbar.BarElement
import Photonbar.PauseClock
import Photonbar.Clock
import Photonbar.Stopwatch
import Photonbar.Timer
import Photonbar.Elapsed
import Photonbar.Loops
import Photonbar.Weather
import Photonbar.Workspace
import Photonbar.WorkspaceRuns
import Photonbar.Chunks
import Photonbar.I3Events
import Photonbar.Bar
import Photonbar.Render
import Photonbar.Widths
import Photonbar.Parse
import Photonbar.Painting
import Photonbar.BarRuns
import Photonbar.ElementCells
import Photonbar.FrameLayout
import Photonbar.ButtonPress
import Photonbar.Clicks
import Photonbar.Schedule
import Photonbar.WeatherRequests
import Photonbar.Handshake
import Photonbar.LockRace
import Photonbar.KillPaths
import Photonbar.FontUse
import Photonbar.ColorSync
import Photonbar.Alike
import Photonbar.FrameColours
import Photonbar.FeedTwice
import Photonbar.Audio
import Photonbar.AudioRuns
import Photonbar.BarManager
import Photonbar.Ping
import Photonbar.Signals
import Photonbar.Volume
import Photonbar.PingRates
import Photonbar.Resources
import Photonbar.CpuUsage
import Photonbar.TextParse
import Photonbar.ParseBounds
import Photonbar.DateTime
import Photonbar.DateTimeRuns
import Photonbar.Underlines
import Photonbar.Battery
import Photonbar.Indicators
import Photonbar.Dirty
import Photonbar.Modules
import Photonbar.Panel
import Photonbar.ParseColor
import Photonbar.BatteryTime
import Photonbar.WidthCache
import Photonbar.NetDev
import Photonbar.NetDevParse
import Photonbar.NetDevTable
import Photonbar.PingReads
import Photonbar.Monitors
import Photonbar.Elimination
import Photonbar.Clones
import Photonbar.Sorting
import Photonbar.RectOrder
import Photonbar.Chain
import Photonbar.InPlace
import Photonbar.JsonScan
import Photonbar.I3Types
import Photonbar.I3Parse
import Photonbar.I3ParseEnds
import Photonbar.I3Passes
import Photonbar.I3Memory
import Photonbar.JsonTree
import Photonbar.JsonRead
import Photonbar.I3Values
import Photonbar.I3Holds
import Photonbar.I3Decodes
import Photonbar.JsonText
import Photonbar.I3Reply
import Photonbar.I3Socket
import Photonbar.I3Message
import Photonbar.Mailbox
import Photonbar.I3Reorder
import Photonbar.I3Session
import Photonbar.I3SessionRuns
import Photonbar.I3Workspaces
import Photonbar.I3Wire
import Photonbar.I3Subscribe
import Photonbar.BarStart
