import BengaliTts.Lib.Machine
import BengaliTts.Lib.Potential
import BengaliTts.Lib.ProcessPool
import BengaliTts.Lib.RowTable
import BengaliTts.Lib.Paging
import BengaliTts.Lib.TokenBucket
import BengaliTts.Lib.Watermark
import BengaliTts.Lib.BinaryFloat
import BengaliTts.Lib.Riff
import BengaliTts.Lib.Calendar
import BengaliTts.Lib.JsonText
import BengaliTts.JsString
import BengaliTts.Errors
import BengaliTts.TtsText
import BengaliTts.CodePoints
import BengaliTts.TextLanguage
import BengaliTts.Validation
import BengaliTts.Jobs
import BengaliTts.World
import BengaliTts.Processor
import BengaliTts.Submission
import BengaliTts.Service
import BengaliTts.RowConsistency
import BengaliTts.Reprocessing
import BengaliTts.PendingCap
import BengaliTts.Answers
import BengaliTts.Admission
import BengaliTts.SameKeyRace
import BengaliTts.Orphans
import BengaliTts.Acknowledgement
import BengaliTts.KeyedRetry
import BengaliTts.DeliveryOutcome
import BengaliTts.RetryProtocol
import BengaliTts.JobReads
import BengaliTts.RateLimit
import BengaliTts.RetryAfter
import BengaliTts.ClockSteps
import BengaliTts.EventStream
import BengaliTts.HistoryWalk
import BengaliTts.WorkerThreads
import BengaliTts.TimeoutVerdict
import BengaliTts.Recordings
import BengaliTts.ApiKeys
import BengaliTts.Accounts
import BengaliTts.Registration
import BengaliTts.BasicAuth
import BengaliTts.StreamHub
import BengaliTts.RequestAlone
import BengaliTts.HttpApi
import BengaliTts.Platform
import BengaliTts.Provenance
import BengaliTts.JobLinks
import BengaliTts.ClientMistakes
import BengaliTts.ConnectionPool
import BengaliTts.SubmissionProgress
import BengaliTts.DurationHistogram
import BengaliTts.WavFiles
import BengaliTts.Engines
import BengaliTts.BasicHeader
import BengaliTts.Login
import BengaliTts.Lib.Decoder
import BengaliTts.JobJson
import BengaliTts.EventWire
import BengaliTts.Subscriber
import BengaliTts.Lib.Solo
import BengaliTts.SmokeTest
import BengaliTts.JobBoard
import BengaliTts.Linearization
