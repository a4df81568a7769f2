import ProcessAnalyzer.Proofs.Instances
import ProcessAnalyzer.Proofs.Rankings
import ProcessAnalyzer.Proofs.Averages
import ProcessAnalyzer.Proofs.MainLoop
import ProcessAnalyzer.Proofs.Interval
import ProcessAnalyzer.Proofs.Retention
import ProcessAnalyzer.Proofs.Startup
import ProcessAnalyzer.Proofs.Filtering
import ProcessAnalyzer.Proofs.JsonRecords
import ProcessAnalyzer.Proofs.SnapshotIsolation
import ProcessAnalyzer.Proofs.PidReuse
import ProcessAnalyzer.Proofs.WallClock
import ProcessAnalyzer.Proofs.MetricsJson
import ProcessAnalyzer.Proofs.RotationSteps
import ProcessAnalyzer.Proofs.Compression
import ProcessAnalyzer.Proofs.MixedRotation
import ProcessAnalyzer.Proofs.JobQueue
import ProcessAnalyzer.Proofs.ConfigInit
import ProcessAnalyzer.Proofs.TimeBase
import ProcessAnalyzer.Proofs.SizeOption
import ProcessAnalyzer.Proofs.FilterGrammar
import ProcessAnalyzer.Proofs.ConfigPieces
import ProcessAnalyzer.Proofs.IoValidity
import ProcessAnalyzer.Proofs.StatFormat
import ProcessAnalyzer.Proofs.ReportedIntegers
import ProcessAnalyzer.Proofs.FailureSafety
import ProcessAnalyzer.Proofs.Markers
import ProcessAnalyzer.Proofs.CurrentValues
import ProcessAnalyzer.Proofs.OldFiles
import ProcessAnalyzer.Proofs.ChunkedLines
import ProcessAnalyzer.Proofs.Timeline
import ProcessAnalyzer.Proofs.StatBounds
import ProcessAnalyzer.Proofs.OutputDirectory
import ProcessAnalyzer.Proofs.JobNames
import ProcessAnalyzer.Proofs.ProcessTable
import ProcessAnalyzer.Proofs.FileShare
import ProcessAnalyzer.Proofs.ReportTimeline
import ProcessAnalyzer.Proofs.MetricsPage
