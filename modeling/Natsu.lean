import Natsu.App.Serving
import Natsu.Ggicci.Printing
import Natsu.Http.BodyFraming
import Natsu.Http.ChunkGrammar
import Natsu.Http.Faults
import Natsu.Http.FormData
import Natsu.Http.MapResponse
import Natsu.Http.Patterns
import Natsu.Http.Tokens
import Natsu.Libgo.Progress
import Natsu.Libgo.ReadWrite
import Natsu.Libgo.SharedChannel
import Natsu.Libgo.Timers
import Natsu.Redis.Pairing
import Natsu.Redis.Registration
import Natsu.Redis.Release
import Natsu.Redis.Reports
import Natsu.Redis.Retry
import Natsu.Rpc.Delivery
import Natsu.Rpc.Discovery
import Natsu.Rpc.Output
import Natsu.Rpc.Provider
import Natsu.Rpc.Timeouts
import Natsu.Rpc.TimerCallbacks
