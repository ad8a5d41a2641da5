import PyAgent.PaServer
import PyAgent.SharedPool
import PyAgent.XMalloc
import PyAgent.EtcdLb
import PyAgent.Exchange
import PyAgent.DubboClient
import PyAgent.Routing
import PyAgent.ClientRuns
import PyAgent.ResponsePath
import PyAgent.ReadLoops
import PyAgent.ConsumerAgent
import PyAgent.Form
import PyAgent.Bounds
import PyAgent.Unexpected
import PyAgent.DubboEncode
import PyAgent.Window
import PyAgent.FrameParser
import PyAgent.HttpResponse
import PyAgent.HttpServerVerticle
import PyAgent.ProviderAgents
import PyAgent.FormReaders
import PyAgent.FormScan
import PyAgent.RequestIds
import PyAgent.PythonConsumer
import PyAgent.HttpReceive
import PyAgent.Closing
import PyAgent.FailedWrites
import PyAgent.BlockClients
import PyAgent.Answers
import PyAgent.MeshProgress
import PyAgent.PythonRemote
import PyAgent.GatewayHttp
import PyAgent.PythonPosts
