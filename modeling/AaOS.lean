import AaOS.Core.ConcurrentBudget
import AaOS.Core.Delegation
import AaOS.Registry.Interleaved
import AaOS.Registry.Budget
import AaOS.Runtime.Admission
import AaOS.Runtime.Wiring
import AaOS.Worker.Revocation
import AaOS.Plan.Manifest
import AaOS.Plan.ReplanBudget
import AaOS.Plan.Tiers
import AaOS.Daemon.SubtaskRunner
import AaOS.Broker.Stranding
import AaOS.Broker.Launch
import AaOS.Tools.Routing
import AaOS.Persistent.Release
import AaOS.Persistent.Conservation
import AaOS.Persistent.SessionRefinement
import AaOS.Daemon.ApprovalQueue
import AaOS.Runtime.Usage
import AaOS.Executor.UsageAudit
import AaOS.Broker.Roots
import AaOS.Daemon.StreamIsolation
import AaOS.Daemon.LogStream
import AaOS.Mcp.Session
import AaOS.Runtime.SchedulerProgress
import AaOS.Persistent.Boundary
import AaOS.Persistent.Handed
import AaOS.Persistent.Throttle
import AaOS.Executor.LoopsAgree
import AaOS.Tools.Subprocess
import AaOS.Tools.Denial
import AaOS.Plan.OwnOutputs
import AaOS.Core.GlobComplete
import AaOS.Core.TokenBudget
import AaOS.Daemon.ParsersAgree
import AaOS.Daemon.SpawnAndRun
import AaOS.Plan.Extraction
import AaOS.Daemon.Handoff
import AaOS.Broker.Cleanup
import AaOS.Plan.Expansion
import AaOS.Plan.Substitution
import AaOS.Mcp.Names
import AaOS.Mcp.Health
import AaOS.Daemon.FinalText
import AaOS.Tools.RepeatGuard
import AaOS.Memory.InMemory
import AaOS.Runtime.Requests
import AaOS.Tools.FileRead
import AaOS.Runtime.ModelLatency
import AaOS.Tools.Grep
import AaOS.Executor.WireFormat
import AaOS.Core.Ancestors
import AaOS.Executor.Scheduled
