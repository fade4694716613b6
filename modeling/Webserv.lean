import Webserv.Cxx.Search
import Webserv.Cxx.Text
import Webserv.Cxx.Stream
import Webserv.Coding.Chunks
import Webserv.Coding.Lines
import Webserv.Coding.Runs
import Webserv.ServerBlock
import Webserv.Client
import Webserv.Response
import Webserv.RequestPath
import Webserv.ParseRequest
import Webserv.Process
import Webserv.Upload
import Webserv.Cgi
import Webserv.CheckRequest
import Webserv.Lexical
import Webserv.Disk
import Webserv.Confinement
import Webserv.Routing
import Webserv.Served
import Webserv.Machine.Run
import Webserv.Session
import Webserv.DeleteSafety
import Webserv.UploadConfinement
import Webserv.Server
import Webserv.Aligned
import Webserv.SendIsolation
import Webserv.Delivery
import Webserv.Multipart
import Webserv.Decoding
import Webserv.RoundTrip
import Webserv.BodyLimit
import Webserv.Descriptors
import Webserv.ChunkedCgi
import Webserv.Buffers
import Webserv.HeadCuts
import Webserv.CgiBody
import Webserv.Coding.Message
import Webserv.Answers
import Webserv.ClientRules
import Webserv.AnswerRuns
import Webserv.PlainUpload
import Webserv.ChunkLoop
import Webserv.ChunkFraming
import Webserv.ChunkedUpload
import Webserv.ChunkedRuns
import Webserv.Detours
import Webserv.HeadFields
import Webserv.Recoding
import Webserv.Machine.Halting
import Webserv.Machine.Turns
import Webserv.Config.Values
import Webserv.Config.Blocks
import Webserv.Coding.Words
import Webserv.Config.Syntax
import Webserv.Config.Accepted
import Webserv.Config.Numbers
import Webserv.Config.Reader
import Webserv.Config.Refinement
import Webserv.Config.Validity
import Webserv.Config.Parts
import Webserv.Config.Bounds
import Webserv.Config.Listeners
import Webserv.Config.Rendering
import Webserv.Config.RoundTrip
import Webserv.Config.Fronts
import Webserv.Config.Alike
import Webserv.Config.Tokens
import Webserv.Config.Layout
import Webserv.Machine.Pipe
import Webserv.CgiPipes
import Webserv.ParseGate
import Webserv.Redirections
import Webserv.CgiTranslation
import Webserv.Files.Tree
import Webserv.DeleteSubtree
import Webserv.BodyParts
import Webserv.Machine.Cancel
import Webserv.DotSegments
import Webserv.RequestLine
import Webserv.ContentLength
import Webserv.HeaderSection
import Webserv.ChunkSize
import Webserv.UploadBounds
import Webserv.IndexResolution
import Webserv.PartRounds
import Webserv.PartRuns
import Webserv.Splitter
import Webserv.Config.Termination
import Webserv.Config.BodySizes
import Webserv.Config.Hosts
import Webserv.PostStatics
import Webserv.IdleStatics
import Webserv.ScriptStatics
import Webserv.IdleRuns
import Webserv.Machine.Simulation
import Webserv.LoopSteps
import Webserv.LoopRefinement
import Webserv.LoopRounds
import Webserv.Wire
import Webserv.RequestRules
import Webserv.Provenance
import Webserv.WireMessages
import Webserv.Machine.Purge
import Webserv.ReadOnly
import Webserv.StaticFiles
import Webserv.Availability
import Webserv.Program
import Webserv.Hosting
import Webserv.HandlerRules
import Webserv.Files.Journal
import Webserv.Record
import Webserv.Stored
import Webserv.ReadBack
import Webserv.Machine.Progress
import Webserv.Progress
import Webserv.Traces
import Webserv.Authority
import Webserv.FreshNames
