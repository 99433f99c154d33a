import RunLog.Closeness
import RunLog.Command.Arguments
import RunLog.Command.Failure
import RunLog.Command.Folder
import RunLog.Command.Plan
import RunLog.Counts
import RunLog.Decimal.Binary
import RunLog.Decimal.Layout
import RunLog.Decimal.Natural
import RunLog.Decimal.Reading
import RunLog.Decimal.Rounding
import RunLog.Decimal.Shortest
import RunLog.Dictionary
import RunLog.Groups
import RunLog.Kind
import RunLog.Log.Cursor
import RunLog.Log.Outcome
import RunLog.Log.Reader
import RunLog.Log.Source
import RunLog.Main
import RunLog.Marker
import RunLog.Metric
import RunLog.Proofs.AsciiOctets
import RunLog.Proofs.BestCharts
import RunLog.Proofs.BinaryGrid
import RunLog.Proofs.ChartFiles
import RunLog.Proofs.ClosenessLaw
import RunLog.Proofs.ClosenessRange
import RunLog.Proofs.ComponentNames
import RunLog.Proofs.CsvRows
import RunLog.Proofs.DecimalTexts
import RunLog.Proofs.DecimalValues
import RunLog.Proofs.Dialects
import RunLog.Proofs.DoubleBits
import RunLog.Proofs.DoubleWorth
import RunLog.Proofs.DraftHistory
import RunLog.Proofs.DraftSettings
import RunLog.Proofs.FaultPlaces
import RunLog.Proofs.FileLoading
import RunLog.Proofs.FiveNumberLaws
import RunLog.Proofs.FloatOrder
import RunLog.Proofs.FolderWrites
import RunLog.Proofs.Groupings
import RunLog.Proofs.Interpolations
import RunLog.Proofs.JsonTexts
import RunLog.Proofs.Leaderboards
import RunLog.Proofs.LineCuts
import RunLog.Proofs.LineEndings
import RunLog.Proofs.LineFeeds
import RunLog.Proofs.Lookups
import RunLog.Proofs.MarkerLines
import RunLog.Proofs.MarkerReadings
import RunLog.Proofs.MicroLines
import RunLog.Proofs.MicroSamples
import RunLog.Proofs.NearestDoubles
import RunLog.Proofs.NumericRankings
import RunLog.Proofs.PassedOver
import RunLog.Proofs.Rankings
import RunLog.Proofs.ReaderMoves
import RunLog.Proofs.ReaderStates
import RunLog.Proofs.RecordNodes
import RunLog.Proofs.RecordValidity
import RunLog.Proofs.ReportLines
import RunLog.Proofs.Requirements
import RunLog.Proofs.RoundedQuotients
import RunLog.Proofs.RoundedSums
import RunLog.Proofs.Roundings
import RunLog.Proofs.RunConservation
import RunLog.Proofs.RunCounts
import RunLog.Proofs.RunIsolation
import RunLog.Proofs.RunMeaning
import RunLog.Proofs.RunReading
import RunLog.Proofs.SampleLines
import RunLog.Proofs.ShortestDecimals
import RunLog.Proofs.Signatures
import RunLog.Proofs.Spellings
import RunLog.Proofs.SpreadCounts
import RunLog.Proofs.SpreadQuartiles
import RunLog.Proofs.StoreHistory
import RunLog.Proofs.Strictness
import RunLog.Proofs.SummaryEntries
import RunLog.Proofs.SummaryGrammar
import RunLog.Proofs.SummaryPairs
import RunLog.Proofs.VariantLabels
import RunLog.Proofs.WorkloadSamples
import RunLog.Proofs.WrittenTexts
import RunLog.Ranking
import RunLog.Report.Csv
import RunLog.Report.Export
import RunLog.Report.Json
import RunLog.Report.Node
import RunLog.Report.Scalar
import RunLog.Report.Table
import RunLog.Report.Yaml
import RunLog.Run.Draft
import RunLog.Run.Fault
import RunLog.Run.Record
import RunLog.Sample.Logs
import RunLog.Sample.Micro
import RunLog.Sample.Workload
import RunLog.Series
import RunLog.Spread
import RunLog.Store
import RunLog.Text.Blank
import RunLog.Text.Hidden
import RunLog.Text.Quoted
import RunLog.Text.Search
import RunLog.Text.Utf8
import RunLog.Variant
