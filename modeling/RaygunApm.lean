import RaygunApm.Library.LittleEndian
import RaygunApm.Library.ByteMemory
import RaygunApm.Library.Mealy
import RaygunApm.Ring.Bipbuffer
import RaygunApm.Ring.Fifo
import RaygunApm.Wire.Scalar
import RaygunApm.Sink.BatchedSink
import RaygunApm.Sink.Batcher
import RaygunApm.Sink.Refinement
import RaygunApm.Sink.Delivery
import RaygunApm.Sink.Bounds
import RaygunApm.Sink.Frames
import RaygunApm.Ring.Messages
import RaygunApm.Dispatch.Thread
import RaygunApm.Dispatch.Accounting
import RaygunApm.Dispatch.Tcp
import RaygunApm.Dispatch.Udp
import RaygunApm.Library.PrefixCode
import RaygunApm.Wire.Event
import RaygunApm.Wire.Lossless
import RaygunApm.Wire.RubyEvent
import RaygunApm.Sink.Closing
import RaygunApm.Shutdown.Threads
import RaygunApm.Shutdown.History
import RaygunApm.Shutdown.Delivery
import RaygunApm.Hook.Tracing
import RaygunApm.Hook.Brackets
import RaygunApm.Library.OrderedKeys
import RaygunApm.Rax.Tree
import RaygunApm.Rax.Walk
import RaygunApm.Rax.Insert
import RaygunApm.Rax.Iterator
import RaygunApm.Rax.Seek
import RaygunApm.Rules.Rule
import RaygunApm.Rules.Classifier
import RaygunApm.Rules.Decision
import RaygunApm.Rules.Documented
import RaygunApm.Rules.Interference
import RaygunApm.Hook.Accesses
import RaygunApm.Hook.Truncation
import RaygunApm.Hook.Discovery
import RaygunApm.Hook.Lookups
import RaygunApm.Hook.Cache
import RaygunApm.Library.PartialMap
import RaygunApm.Trace.Contexts
import RaygunApm.Trace.Isolation
import RaygunApm.Trace.ShadowThreads
import RaygunApm.Trace.Ancestry
import RaygunApm.Filters.Parser
import RaygunApm.Filters.Paths
import RaygunApm.Filters.Translator
import RaygunApm.Filters.Authority
import RaygunApm.Hook.Resync
import RaygunApm.Hook.DeclaredIds
import RaygunApm.Rules.Prefixes
import RaygunApm.Sink.EmptyBatch
import RaygunApm.Ring.Ringbuf
import RaygunApm.Library.Numerals
import RaygunApm.Agent.Diagnostics
import RaygunApm.Library.EndPattern
import RaygunApm.Filters.Syntaxes
import RaygunApm.Filters.Naming
import RaygunApm.Wire.Variable
import RaygunApm.Wire.Coercion
import RaygunApm.Wire.EventMemory
import RaygunApm.Wire.Overlays
import RaygunApm.Trace.ThreadIds
import RaygunApm.Trace.OneTid
import RaygunApm.Hook.Interleaving
import RaygunApm.Rax.Dictionary
import RaygunApm.Dispatch.Reconnect
import RaygunApm.Agent.Reader
import RaygunApm.Agent.Room
import RaygunApm.Shutdown.Timer
import RaygunApm.Hook.Sources
import RaygunApm.Wire.Getters
import RaygunApm.Hooks.Requests
import RaygunApm.Hooks.Connection
import RaygunApm.Ring.Capacity
import RaygunApm.Hook.CallTree
import RaygunApm.Hook.CallStack
import RaygunApm.Agent.CallTree
import RaygunApm.Dispatch.Pacing
import RaygunApm.Trace.Membership
import RaygunApm.Setup.Sinks
