import MyWarehouse.Lib.OrdMap
import MyWarehouse.Lib.Transition
import MyWarehouse.Lib.Segment
import MyWarehouse.Base
import MyWarehouse.Response
import MyWarehouse.Client
import MyWarehouse.ClientManager
import MyWarehouse.Dispatch
import MyWarehouse.ClientRuns
import MyWarehouse.Login
import MyWarehouse.Eviction
import MyWarehouse.Threads
import MyWarehouse.ConcurrentLogin
import MyWarehouse.LateExpiry
import MyWarehouse.HttpSession
import MyWarehouse.HttpMessage
import MyWarehouse.OneResponse
import MyWarehouse.BodyReassembly
import MyWarehouse.Contamination
import MyWarehouse.Conversation
import MyWarehouse.HttpServer
import MyWarehouse.Accepting
import MyWarehouse.ConnectionLimit
import MyWarehouse.ReceiveBuffer
import MyWarehouse.RejectedRequest
import MyWarehouse.SessionSet
import MyWarehouse.ClosedSession
import MyWarehouse.Decoding
import MyWarehouse.ContentLength
import MyWarehouse.Writing
import MyWarehouse.Conservation
import MyWarehouse.WakeUp
import MyWarehouse.IoServicePool
import MyWarehouse.FairAssignment
import MyWarehouse.HttpUrl
import MyWarehouse.UrlFields
import MyWarehouse.UrlObj
import MyWarehouse.HeaderNames
import MyWarehouse.ParserCalls
import MyWarehouse.BodySeen
import MyWarehouse.Base64
