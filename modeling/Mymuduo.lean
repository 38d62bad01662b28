import Mymuduo.BufferRefinement
import Mymuduo.CodecStream
import Mymuduo.OutputStream
import Mymuduo.SendValue
import Mymuduo.GracefulShutdown
import Mymuduo.ConnectorSockets
import Mymuduo.Wakeup
import Mymuduo.QuitLoop
import Mymuduo.FunctorOrder
import Mymuduo.QuitHandover
import Mymuduo.PollerAgreement
import Mymuduo.DestroyedConnection
import Mymuduo.ClientReferences
import Mymuduo.ServerTeardown
import Mymuduo.CodecInput
import Mymuduo.NestedSend
import Mymuduo.WatchedChannel
import Mymuduo.ConnectorBackOff
import Mymuduo.BufferSpace
import Mymuduo.Notifications
import Mymuduo.EchoServer
import Mymuduo.LoopIteration
import Mymuduo.Delivery
import Mymuduo.ServerStart
import Mymuduo.ServerCleanup
import Mymuduo.LoopProgress
import Mymuduo.ServerReports
