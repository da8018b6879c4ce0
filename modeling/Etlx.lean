import Etlx.Conf.Cli
import Etlx.Conf.CliHelp
import Etlx.Conf.CliRoundTrip
import Etlx.Core.Result
import Etlx.Crypto.HashStream
import Etlx.Crypto.Hasher
import Etlx.Crypto.Hmac
import Etlx.Crypto.HmacCorrect
import Etlx.Crypto.Sha2
import Etlx.Crypto.Sha256
import Etlx.Crypto.Sha256Correct
import Etlx.Crypto.Sha256Refines
import Etlx.Democli.Actions
import Etlx.Democli.Cli
import Etlx.Democli.History
import Etlx.Democli.Parse
import Etlx.Events.Conservation
import Etlx.Events.Deadline
import Etlx.Events.DueOrder
import Etlx.Events.HostClock
import Etlx.Events.Loop
import Etlx.Events.PassBound
import Etlx.Events.StopOrder
import Etlx.Http.Client
import Etlx.Http.ClientChunks
import Etlx.Http.ContentLength
import Etlx.Http.Head
import Etlx.Http.HeaderLines
import Etlx.Http.Lines
import Etlx.Http.OverWire
import Etlx.Http.Request
import Etlx.Http.RequestExact
import Etlx.Http.RequestLines
import Etlx.Http.Response
import Etlx.Http.ResponseRoundTrip
import Etlx.Http.ResponseViews
import Etlx.Io.CopyBounded
import Etlx.Io.Io
import Etlx.Json.AsInt
import Etlx.Json.ChildCounts
import Etlx.Json.Containment
import Etlx.Json.Document
import Etlx.Json.Grammar
import Etlx.Json.GrammarCorrect
import Etlx.Json.Lookup
import Etlx.Json.Navigation
import Etlx.Json.Nesting
import Etlx.Json.Stretches
import Etlx.Json.Tokenizer
import Etlx.Json.TokenizerCorrect
import Etlx.Json.View
import Etlx.Lib.Automaton
import Etlx.Lib.BlockStream
import Etlx.Lib.Bounded
import Etlx.Lib.Brackets
import Etlx.Lib.Cursor
import Etlx.Lib.Der
import Etlx.Lib.Duplex
import Etlx.Lib.FlatMap
import Etlx.Lib.Framing
import Etlx.Lib.Hex
import Etlx.Lib.Machine
import Etlx.Lib.Memory
import Etlx.Lib.Push
import Etlx.Lib.Search
import Etlx.Lib.Stdio
import Etlx.Lib.Stream
import Etlx.Lib.Transition
import Etlx.Net.Send
import Etlx.Net.Sockets
import Etlx.Net.TcpSocket
import Etlx.Net.Tls
import Etlx.Se.Csr
import Etlx.Se.Factory
import Etlx.Se.FactoryHelp
import Etlx.Se.FactoryProvision
import Etlx.Se.FactoryRotate
import Etlx.Se.FactoryRuns
import Etlx.Se.FactoryWrite
import Etlx.Se.KeyFile
import Etlx.Se.KeyFileRead
import Etlx.Se.KeyFileWrite
import Etlx.Se.KeySizes
import Etlx.Se.ObjectStore
import Etlx.Se.RotationRuns
import Etlx.Se.Scp03
import Etlx.Se.Scp03Correct
import Etlx.Se.Simulator
import Etlx.Se.SimulatorOrder
import Etlx.Se.SmComSession
import Etlx.Se.SmComSocket
import Etlx.Sm.UpdateFsm
import Etlx.Sm.UpdateOrder
import Etlx.Storage.BoundedMap
import Etlx.Storage.HostKv
import Etlx.Storage.HostKvCorrect
import Etlx.Storage.HostKvLoad
import Etlx.Storage.Kv
