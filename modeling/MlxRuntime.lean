import MlxRuntime.Benchmark.Trial
import MlxRuntime.Cache.ConvState
import MlxRuntime.Cache.Leak
import MlxRuntime.Cache.Refinement
import MlxRuntime.Executor.Attention
import MlxRuntime.Executor.Transaction
import MlxRuntime.Prefix.Accounting
import MlxRuntime.Gateway.ActiveRequests
import MlxRuntime.Gateway.Bootstrap
import MlxRuntime.Gateway.Handlers
import MlxRuntime.Gateway.Inflight
import MlxRuntime.Gateway.Instances
import MlxRuntime.Gateway.ModelPath
import MlxRuntime.Gateway.Prometheus
import MlxRuntime.Gateway.WorkerTotals
import MlxRuntime.Gateway.ConfigText
import MlxRuntime.Gateway.Supervisor
import MlxRuntime.Protocol.BootstrapRoundTrip
import MlxRuntime.Protocol.GatewayCommands
import MlxRuntime.Protocol.ImageSource
import MlxRuntime.Protocol.RoundTrip
import MlxRuntime.Runtime.Draining
import MlxRuntime.Runtime.Streaming
import MlxRuntime.Scheduler.Caller
import MlxRuntime.Worker.Native
import MlxRuntime.V1.CacheBudget
import MlxRuntime.V1.Rendering
import MlxRuntime.V1.TrimmedCaches
import MlxRuntime.V1.VlmIsolation
import MlxRuntime.Worker.Framing
import MlxRuntime.Worker.Startup
import MlxRuntime.Benchmark.Pool
