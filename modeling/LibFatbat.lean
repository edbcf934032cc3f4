import LibFatbat.Concurrent.ThreadSystem
import LibFatbat.Memory.Region
import LibFatbat.Memory.RmaAddress
import LibFatbat.Memory.ExportedBuffers
import LibFatbat.Bits.Stream
import LibFatbat.Bits.Flags
import LibFatbat.Base64
import LibFatbat.Base64.RoundTrip
import LibFatbat.Bootstrap.AddressVector
import LibFatbat.Bootstrap.Protocol
import LibFatbat.Endpoint.Model
import LibFatbat.Endpoint.Invariants
import LibFatbat.Endpoint.Pool
import LibFatbat.Endpoint.Lifetime
import LibFatbat.Concurrent.TokenSystem
import LibFatbat.Communicator.Operation
import LibFatbat.Communicator.Lifecycle
import LibFatbat.Communicator.Machine
import LibFatbat.Communicator.Frames
import LibFatbat.Communicator.Refinement
import LibFatbat.Communicator.Accounting
import LibFatbat.Communicator.Contexts
import LibFatbat.Communicator.Callbacks
import LibFatbat.Communicator.Posting
import LibFatbat.Communicator.Locks
import LibFatbat.Communicator.Waiting
import LibFatbat.Controller.Polling
import LibFatbat.Controller.Progress
import LibFatbat.Controller.Classification
import LibFatbat.Memory.Keys
import LibFatbat.Memory.Ownership
import LibFatbat.Endpoint.Handles
import LibFatbat.Endpoint.Closing
import LibFatbat.Endpoint.Teardown
import LibFatbat.Collective.Buffers
import LibFatbat.Collective.KeyExchange
import LibFatbat.Collective.IterationLoop
import LibFatbat.Collective.IterationEvents
import LibFatbat.Collective.SemaphoreRounds
import LibFatbat.Controller.RemoteData
import LibFatbat.Endpoint.Bringup
import LibFatbat.Memory.Registration
import LibFatbat.Endpoint.Usable
import LibFatbat.Endpoint.RegionBinding
import LibFatbat.Controller.Capabilities
import LibFatbat.Communicator.Tags
import LibFatbat.Concurrent.History
import LibFatbat.Bits.Counter
import LibFatbat.Communicator.Throttle
import LibFatbat.Communicator.WrapAround
import LibFatbat.Bootstrap.ReceiveBuffer
import LibFatbat.Controller.SimpleCounter
import LibFatbat.Controller.BatchSize
import LibFatbat.Lists.Parts
import LibFatbat.Controller.ThrowingCallbacks
import LibFatbat.Text.Lines
import LibFatbat.Number
import LibFatbat.Scripts.CpuList
import LibFatbat.Scripts.CpuSlices
import LibFatbat.Text.Regex
import LibFatbat.Scripts.BenchmarkLog
import LibFatbat.Scripts.PlotResults
import LibFatbat.Scripts.ReadBack
import LibFatbat.Concurrent.Workers
import LibFatbat.Communicator.PollerGuard
import LibFatbat.Communicator.Finishing
import LibFatbat.Collective.SendRecvTest
import LibFatbat.Collective.SendRecvTestProgress
import LibFatbat.Communicator.Benchmark
import LibFatbat.Communicator.BenchmarkWindow
import LibFatbat.Scripts.MessageSize
import LibFatbat.Lists.Groups
import LibFatbat.Scripts.NodeCounts
import LibFatbat.Scripts.Aggregate
import LibFatbat.Scripts.Sweep
import LibFatbat.Concurrent.Progress
import LibFatbat.Collective.ReadTest
import LibFatbat.Collective.ReadTestProgress
import LibFatbat.Bootstrap.BootProgress
import LibFatbat.Collective.SemaphoreProgress
import LibFatbat.Collective.SemaphoreOverwrite
import LibFatbat.Collective.SemaphoreAddresses
