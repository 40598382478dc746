import Gnuais.Lib.Buffer
import Gnuais.Lib.Bits
import Gnuais.Lib.Hdlc
import Gnuais.Lib.Crc
import Gnuais.RoundTrip
import Gnuais.Reachable
import Gnuais.Acceptance
import Gnuais.Abort
import Gnuais.NoLeakage
import Gnuais.Sentences
import Gnuais.Bounds
import Gnuais.Export
import Gnuais.Transport
import Gnuais.Lib.LinkTree
import Gnuais.SplayForest
import Gnuais.Lib.Records
import Gnuais.CacheMap
import Gnuais.Detection
import Gnuais.Receiver
import Gnuais.RadioLink
import Gnuais.Positions
import Gnuais.Clients
import Gnuais.Print
import Gnuais.MySql
import Gnuais.Lib.Numeral
import Gnuais.Lib.Sql
import Gnuais.Lib.Statement
import Gnuais.Lib.Tables
import Gnuais.Lib.Upsert
import Gnuais.Database
import Gnuais.Lib.Layout
import Gnuais.Received
import Gnuais.PositionReports
import Gnuais.Letters
import Gnuais.StaticReports
import Gnuais.Weather
import Gnuais.ClockRecovery
import Gnuais.Lib.Window
import Gnuais.Filter
import Gnuais.Lib.Footprint
import Gnuais.SplayDelete
import Gnuais.SplayFootprint
import Gnuais.Drain
import Gnuais.OutJson
import Gnuais.Exported
import Gnuais.AirExport
import Gnuais.Cfg
import Gnuais.CmdParse
import Gnuais.ConfigLine
import Gnuais.Escapes
import Gnuais.GuiBounds
import Gnuais.GuiHistory
import Gnuais.Hlog
import Gnuais.Lib.Json
import Gnuais.Lib.JsonWriter
import Gnuais.JsonText
import Gnuais.JsonExport
import Gnuais.RepeatedRecords
import Gnuais.Segments
import Gnuais.Lib.Threads
import Gnuais.Lib.Rwlocks
import Gnuais.LogLocks
import Gnuais.Lib.Registry
import Gnuais.ShipTable
import Gnuais.AirWindow
import Gnuais.Lib.Lines
import Gnuais.ReadCfgfile
import Gnuais.Settings
import Gnuais.Startup
import Gnuais.Configured
import Gnuais.Jitter
import Gnuais.Waveform
import Gnuais.SoundLink
import Gnuais.MainLoop
import Gnuais.AirJson
