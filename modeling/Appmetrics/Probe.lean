/-
lib/probe.js and the switches of index.js.  A probe's four hooks are its own
functions or stubs; the module's flags are shared by all probes.
-/
import Appmetrics.Machine

namespace Appmetrics

/-- What a hook property holds: an empty function, or the probe's own. -/
inductive Hook
  | stub
  | live
deriving Repr, DecidableEq

structure Probe where
  name : String
  metricsProbeStart : Hook
  metricsProbeEnd : Hook
  requestProbeStart : Hook
  requestProbeEnd : Hook
deriving Repr, DecidableEq

/-- The variables `_enabled`, `_requestsEnabled` and `_started`. -/
structure ProbeFlags where
  enabled : Bool
  requestsEnabled : Bool
  started : Bool
deriving Repr, DecidableEq

namespace Probe

/-- `new Probe(name)`: metrics and requests are off until started. -/
def create (name : String) : Probe := ⟨name, .stub, .stub, .stub, .stub⟩

def setMetrics (p : Probe) (hook : Hook) : Probe :=
  { p with metricsProbeStart := hook, metricsProbeEnd := hook }

def setRequests (p : Probe) (hook : Hook) : Probe :=
  { p with requestProbeStart := hook, requestProbeEnd := hook }

/-- The trace probe overrides `enable` and `enableRequests` with empty
functions. -/
def isTrace (p : Probe) : Bool := p.name == "trace"

def enableRequests (f : ProbeFlags) (p : Probe) : ProbeFlags × Probe :=
  if p.isTrace then (f, p)
  else
    ({ f with requestsEnabled := true },
      if f.started then p.setRequests .live else p)

def disableRequests (f : ProbeFlags) (p : Probe) : ProbeFlags × Probe :=
  ({ f with requestsEnabled := false }, p.setRequests .stub)

def enable (f : ProbeFlags) (p : Probe) : ProbeFlags × Probe :=
  if p.isTrace then (f, p)
  else
    ({ f with enabled := true },
      if f.started then p.setMetrics .live else p)

def disable (f : ProbeFlags) (p : Probe) : ProbeFlags × Probe :=
  (f, p.setMetrics .stub)

def start (f : ProbeFlags) (p : Probe) : ProbeFlags × Probe :=
  let p := if f.enabled then p.setMetrics .live else p
  let p := if f.requestsEnabled then p.setRequests .live else p
  ({ f with started := true }, p)

def stop (f : ProbeFlags) (p : Probe) : ProbeFlags × Probe :=
  ({ f with started := false },
    (p.setMetrics .stub).setRequests .stub)

end Probe

/-- `probes.forEach(..)`: the flags are threaded through the calls. -/
def forEachProbe (g : ProbeFlags → Probe → ProbeFlags × Probe) :
    ProbeFlags → List Probe → ProbeFlags × List Probe
  | f, [] => (f, [])
  | f, p :: ps =>
      let (f, p) := g f p
      let (f, ps) := forEachProbe g f ps
      (f, p :: ps)

/-- `if (probe.name == data) { .. }`. -/
def ifNamed (data : String) (g : ProbeFlags → Probe → ProbeFlags × Probe)
    (f : ProbeFlags) (p : Probe) : ProbeFlags × Probe :=
  if p.name = data then g f p else (f, p)

/-- The module state of index.js that its switches read and write; `api`
says whether `monitor` has made its client. -/
structure Agent where
  flags : ProbeFlags
  probes : List Probe
  api : Bool
  latencyRunning : Bool
deriving Repr, DecidableEq

inductive AgentCall
  | start
  | monitor
  | enable (data : String)
  | disable (data : String)
deriving Repr, DecidableEq

/-- The part of a `requests` config that the probes see; `none` is
`undefined`. -/
structure RequestsConfig where
  excludeModules : Option (List String)
deriving Repr, DecidableEq

/-- The calls that switch request tracking on and off. -/
inductive RequestSwitch
  | start
  | enable (config : Option RequestsConfig)
  | disable
  | setConfig (config : RequestsConfig)
deriving Repr, DecidableEq

namespace Agent

/-- `require('appmetrics')` with these probes. -/
def load (names : List String) : Agent where
  flags := ⟨true, false, false⟩
  probes := names.map Probe.create
  api := false
  latencyRunning := true

def forEach (a : Agent) (g : ProbeFlags → Probe → ProbeFlags × Probe) :
    Agent :=
  let (flags, probes) := forEachProbe g a.flags a.probes
  { a with flags := flags, probes := probes }

/-- `probes.push(traceProbe)` unless it is there. -/
def pushTrace (a : Agent) : Agent :=
  if a.probes.any Probe.isTrace then a
  else { a with probes := a.probes ++ [Probe.create "trace"] }

def start (a : Agent) : Agent := a.forEach Probe.start

def monitor (a : Agent) : Agent :=
  if a.api then a else { a.start with api := true }

/-- `profiling` only sends a command to the native agent. -/
def enable (a : Agent) (data : String) : Agent :=
  if data = "profiling" then a
  else if data = "requests" then a.forEach Probe.enableRequests
  else if data = "trace" then a.pushTrace
  else if data = "eventloop" then { a with latencyRunning := true }
  else a.forEach (ifNamed data Probe.enable)

def disable (a : Agent) (data : String) : Agent :=
  if data = "profiling" then a
  else if data = "requests" then a.forEach Probe.disableRequests
  else if data = "eventloop" then { a with latencyRunning := false }
  else a.forEach (ifNamed data Probe.disable)

def call (a : Agent) : AgentCall → Agent
  | .start => a.start
  | .monitor => a.monitor
  | .enable data => a.enable data
  | .disable data => a.disable data

/-- `config.excludeModules.forEach(..)`: one loop over the probes for each
module. -/
def excludeModules (a : Agent) (modules : List String) : Agent :=
  modules.foldl
    (fun a module => a.forEach (ifNamed module Probe.disableRequests)) a

/-- What `setConfig('requests', config)` does to the probes; `none` is a
config without `excludeModules`. -/
def setRequestsConfig (a : Agent) : Option (List String) → Agent
  | none => a
  | some modules => a.excludeModules modules

/-- `enable('requests', config)` is `enable` and then `setConfig`. -/
def switchRequests (a : Agent) : RequestSwitch → Agent
  | .start => a.start
  | .enable none => a.enable "requests"
  | .enable (some config) =>
      (a.enable "requests").setRequestsConfig config.excludeModules
  | .disable => a.disable "requests"
  | .setConfig config => a.setRequestsConfig config.excludeModules

/-- Whether the call runs `start`. -/
def starts (a : Agent) : AgentCall → Bool
  | .start => true
  | .monitor => !a.api
  | _ => false

end Agent

end Appmetrics
