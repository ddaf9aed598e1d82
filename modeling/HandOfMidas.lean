import HandOfMidas.Broker.SimExecutes
import HandOfMidas.Broker.SimOca
import HandOfMidas.Broker.SimCancel
import HandOfMidas.Broker.SimStatus
import HandOfMidas.Broker.SimLive
import HandOfMidas.Broker.SimConserved
import HandOfMidas.Broker.SimSettled
import HandOfMidas.Broker.BracketSubmitter
import HandOfMidas.Broker.BracketOnSim
import HandOfMidas.IbSim.Delivery
import HandOfMidas.IbSim.AccountsAgree
import HandOfMidas.Persist.Atomic
import HandOfMidas.Persist.AuditTrail
import HandOfMidas.Protocol.Incoming
import HandOfMidas.Engine.Conserved
import HandOfMidas.Engine.Routing
import HandOfMidas.IbSim.Books
import HandOfMidas.IbSim.Looks
import HandOfMidas.IbSim.Shares
import HandOfMidas.IbSim.Snapshots
import HandOfMidas.IbSim.Lifecycle
import HandOfMidas.IbSim.Siblings
import HandOfMidas.IbSim.Statuses
import HandOfMidas.Ib.Paced
import HandOfMidas.MarketData.Orphans
import HandOfMidas.MarketData.Aggregator
import HandOfMidas.MarketData.HistorySeam
import HandOfMidas.MarketData.AtWork
import HandOfMidas.Scenario.Timeline
import HandOfMidas.Calendar.Queries
import HandOfMidas.Calendar.Tiles
import HandOfMidas.BarsAdapter.Segments
import HandOfMidas.BarsAdapter.Closing
import HandOfMidas.BarsAdapter.Stored
import HandOfMidas.BarsAdapter.Composite
import HandOfMidas.Axis.Fits
import HandOfMidas.Ticker.Submitted
import HandOfMidas.Ticker.Mirror
import HandOfMidas.Ticker.Persisted
import HandOfMidas.Ticker.Snap
import HandOfMidas.Config.Kept
import HandOfMidas.Candles.Sorted
import HandOfMidas.Candles.Stores
import HandOfMidas.Quirks.Regimes
import HandOfMidas.Session.Boundaries
import HandOfMidas.Engine.Refusals
import HandOfMidas.Engine.Sleepers
import HandOfMidas.Ib.Rejections
import HandOfMidas.Candles.AnyFile
import HandOfMidas.SessionChart.Panels
import HandOfMidas.Annotations.Acts
import HandOfMidas.Blotter.Clean
import HandOfMidas.CandleDb.Runs
import HandOfMidas.MarketReplay.StepSize
import HandOfMidas.MarketReplay.Jumps
import HandOfMidas.TickerDb.Restart
import HandOfMidas.Quirks.MsgRate
import HandOfMidas.Session.Replayed
import HandOfMidas.IbSim.Prices
import HandOfMidas.IbSim.FillMessages
import HandOfMidas.Lod.MinMax
import HandOfMidas.Lod.Lttb
import HandOfMidas.Chart.VolumeProfile
import HandOfMidas.Persist.Conversion
import HandOfMidas.Lib.Ladder
import HandOfMidas.Axis.Ticks
import HandOfMidas.Scene.ChartScene
import HandOfMidas.Scene.BracketTool
import HandOfMidas.Scene.Drafts
import HandOfMidas.Scene.Annotations
import HandOfMidas.Scene.Drags
import HandOfMidas.Scene.TimeWindow
import HandOfMidas.Scene.Decorators
import HandOfMidas.Thumbnails.Store
import HandOfMidas.Thumbnails.Loads
import HandOfMidas.Thumbnails.Fresh
import HandOfMidas.Feed.Csv
import HandOfMidas.Scenario.Expression
import HandOfMidas.Scenario.Printed
import HandOfMidas.Scenario.ReadBack
import HandOfMidas.Scenario.RoundTrip
import HandOfMidas.Scenario.Duration
import HandOfMidas.Scenario.Typed
import HandOfMidas.Scenario.Includes
import HandOfMidas.CandleDb.Handle
import HandOfMidas.Workspace.Restored
