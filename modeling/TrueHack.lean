import TrueHack.Base.Runs
import TrueHack.Base.Interleave
import TrueHack.Base.History
import TrueHack.Base.Guard
import TrueHack.Base.GoMap
import TrueHack.Base.Buckets
import TrueHack.Base.Expiry
import TrueHack.Base.Calendar
import TrueHack.Base.Decimal
import TrueHack.Base.Utf8
import TrueHack.Base.Regex
import TrueHack.Base.Budget
import TrueHack.Base.Promotion
import TrueHack.Base.Fields
import TrueHack.Contest.Storage
import TrueHack.Contest.Methods
import TrueHack.Contest.Service
import TrueHack.Contest.Sections
import TrueHack.Contest.Invariant
import TrueHack.Contest.Provenance
import TrueHack.Contest.Registration
import TrueHack.Contest.Linearizable
import TrueHack.Contest.Control
import TrueHack.Contest.Intercept
import TrueHack.Contest.Faults
import TrueHack.Contest.Flags
import TrueHack.Contest.Worker
import TrueHack.Contest.Deployment
import TrueHack.Go.Time
import TrueHack.Go.TimeText
import TrueHack.Go.Json
import TrueHack.Go.JsonDepth
import TrueHack.Go.JsonPieces
import TrueHack.Go.Print
import TrueHack.Go.Decode
import TrueHack.Go.Slices
import TrueHack.Chain.CacheKey
import TrueHack.Chain.Cache
import TrueHack.Chain.CacheSections
import TrueHack.Chain.LiveEntries
import TrueHack.Chain.EqualKeys
import TrueHack.Chain.Parser
import TrueHack.Chain.Fallback
import TrueHack.Chain.LineFormat
import TrueHack.Collector.Prometheus
import TrueHack.Collector.LabelOrder
import TrueHack.Collector.Labels
import TrueHack.Collector.Jaeger
import TrueHack.Collector.SharedTraces
import TrueHack.Chain.Collect
import TrueHack.Chain.Selection
import TrueHack.Chain.PlainCollect
import TrueHack.Chain.Positions
import TrueHack.Chain.MapOrder
import TrueHack.Chain.EscapedNames
import TrueHack.Chain.BestMatch
import TrueHack.Chain.Analyzer
import TrueHack.Chain.AnalyzerRuns
import TrueHack.Chain.GitInfo
import TrueHack.Chain.CrossTalk
import TrueHack.Chain.Failures
import TrueHack.Chain.ReplyFields
import TrueHack.Server.Handle
import TrueHack.Server.Threads
import TrueHack.Server.Answers
import TrueHack.Server.Schema
import TrueHack.Server.ApiDoc
import TrueHack.Server.Selectors
import TrueHack.Server.ReplyBody
import TrueHack.Page.Stringify
import TrueHack.Server.Encode
import TrueHack.Page.Click
import TrueHack.Page.Panel
import TrueHack.Page.Session
import TrueHack.Page.DateText
import TrueHack.Page.LocalTime
import TrueHack.Page.DefaultRange
