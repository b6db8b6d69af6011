/-
The require hook of index.js and every probe's `attach`: which marker it
checks and sets, which methods it wraps, and what it returns.  A layer that
starts stands for a wrapper whose hook calls `that.metricsProbeStart` and
`that.requestProbeStart`, once each; a layer that advises stands for one that
instruments the object it is given or hands out.
-/
import Appmetrics.Probes
import Appmetrics.Wrapping

namespace Appmetrics

open Wrapping

/-- A method is named with the object it is on; a layer looks at the first
argument of the call. -/
abbrev Method := String × String

abbrev Wrapper := Layer Method String String

/-- A module object, its prototypes included. -/
abbrev Module := Handle Method String String

/-- A value that `attach` or the require hook returns. -/
inductive Returned
  | undefined
  /-- the module object that node caches -/
  | cached
  /-- a function over it, with properties and wrappers of its own -/
  | wrapper (own : Module)

namespace Attach

/-- A hook that starts an operation whatever the first argument is. -/
def starting : Wrapper := .start fun _ => true

/-- A hook that wraps the listener of one event. -/
def startingOn (event : String) : Wrapper := .start fun a => a = event

/-- `aspect.before` or `aspect.around` on these methods of `target`. -/
def on (target : String) (meths : List String) (l : Wrapper) :
    List (Method × Wrapper) :=
  meths.map fun m => ((target, m), l)

/-- A hook that instruments the object it receives or hands out. -/
def advising (methods : List (Method × Wrapper)) : Wrapper :=
  .advise fun _ => (none, methods)

/-- The same, unless the object has the marker, which it then gets. -/
def advisingNew (marker : String) (methods : List (Method × Wrapper)) :
    Wrapper :=
  .advise fun _ => (some marker, methods)

/-- The same, for one event only. -/
def advisingOn (event marker : String) (methods : List (Method × Wrapper)) :
    Wrapper :=
  .advise fun a => if a = event then (some marker, methods) else (none, [])

/-- `aspect.afterConstructor(target, ..)` of a function: its own properties
are copied, its prototype is shared. -/
def afterConstructor (target : Module) (methods : List (Method × Wrapper)) :
    Module :=
  { (Handle.blank : Module) with marks := target.marks }.aspect
    [(("", "()"), advising methods)]

/-! ## axon -/

/-- `sendTypeToMethod`. -/
def sendTypeToMethod (socketType : String) : Option String :=
  if socketType ∈ ["push", "pub", "req"] then some "send"
  else if socketType = "pub-emitter" then some "emit"
  else none

def axon (name : String) (target : Module) : Returned × Module :=
  if name != "axon" then (.cached, target)
  else
    (.cached, (target.mark "__ddProbeAttached__").aspect
      (on "axon" ["socket"] (.advise fun socketType =>
        match sendTypeToMethod socketType with
        | some method => (none, on "client" [method] starting)
        | none => (none, on "client" listenMethods starting))))

/-! ## Probes that mark the module -/

def riak (name : String) (target : Module) : Returned × Module :=
  if name != "basho-riak-client" then (.cached, target)
  else if target.marks "__ddProbeAttached__" then (.cached, target)
  else
    (.cached, (target.mark "__ddProbeAttached__").aspect
      (on "basho-riak-client" ["Client"]
        (advising (on "Client" Riak.methods starting))))

/-- From node's major version `own` on, `get` does not call `request`. -/
def outboundMethods (node own : Nat) : List String :=
  if node < own then ["request"] else ["request", "get"]

/-- http-outbound and https-outbound. -/
def outbound (module : String) (methods : List String) (name : String)
    (target : Module) : Returned × Module :=
  if name = module then
    if target.marks "__outboundProbeAttached__" then (.cached, target)
    else
      (.cached, (target.mark "__outboundProbeAttached__").aspect
        (on module methods starting))
  else (.cached, target)

/-- http and https: the first listener of a server for `request` is wrapped,
and `marker` keeps the others as they are. -/
def server (module marker : String) (name : String) (target : Module) :
    Returned × Module :=
  if name = module then
    if target.marks "__probeAttached__" then (.cached, target)
    else
      (.cached, (target.mark "__probeAttached__").aspect
        (on "Server.prototype" listenMethods
          (advisingOn "request" marker (on "server" ["request"] starting))))
  else (.cached, target)

def memcached (name : String) (target : Module) : Returned × Module :=
  if name != "memcached" then (.cached, target)
  else
    (.cached, (target.mark "__ddProbeAttached__").aspect
      (on "memcached.prototype" Memcached.methods starting))

def mongo (name : String) (target : Module) : Returned × Module :=
  if name != "mongodb" then (.cached, target)
  else if target.marks "__ddProbeAttached__" then (.cached, target)
  else
    (.cached, ((target.mark "__ddProbeAttached__").aspect
      (on "Collection.prototype" ["find"] starting)).aspect
        (on "Collection.prototype" Mongo.collectionMethods starting))

def mqtt (name : String) (target : Module) : Returned × Module :=
  if name != "mqtt" then (.cached, target)
  else
    (.cached, (target.mark "__ddProbeAttached__").aspect
      (on "mqtt" ["connect"] (advising
        (on "client" ["publish"] starting ++
          on "client" listenMethods (startingOn "message")))))

def mysql (name : String) (target : Module) : Returned × Module :=
  if name != "mysql" then (.cached, target)
  else
    (.cached, (target.mark "__ddProbeAttached__").aspect
      (on "mysql" ["createConnection"]
        (advising (on "connection" ["query"] starting))))

def postgres (name : String) (target : Module) : Returned × Module :=
  if name != "pg" then (.cached, target)
  else if target.marks "__ddProbeAttached__" then (.cached, target)
  else
    (.cached, (target.mark "__ddProbeAttached__").aspect
      (on "pg" ["connect"] (advisingNew "__appmetricsProbeAttached__"
          (on "client" ["query"] starting)) ++
        on "pg" ["Client"] (advising (on "client" ["connect"]
          (advising (on "client" ["query"] starting))))))

/-- `target.RedisClient.prototype`: the commands, and the object that `multi`
and `batch` return. -/
def redis (name : String) (target : Module) : Returned × Module :=
  if name != "redis" then (.undefined, target)
  else if target.marks "__probeAttached__" then (.cached, target)
  else
    (.cached, ((target.mark "__probeAttached__").aspect
      (on "RedisClient.prototype" Redis.methods starting)).aspect
        (on "RedisClient.prototype" Redis.multiMethods
          (advising (on "multi" Redis.execMethods starting))))

/-- Only `onRecord` is called; no method is wrapped. -/
def strongExpressMetrics (name : String) (target : Module) :
    Returned × Module :=
  if name != "strong-express-metrics" then (.cached, target)
  else if target.marks "__ddProbeAttached__" then (.cached, target)
  else (.cached, target.mark "__ddProbeAttached__")

def strongMq (name : String) (target : Module) : Returned × Module :=
  if name != "strong-mq" then (.cached, target)
  else
    (.cached, (target.mark "__ddProbeAttached__").aspect
      (on "strong-mq" ["create"] (advising
        (on "connection" ["createPushQueue", "createPubQueue"]
            (advising (on "queue" ["publish"] starting)) ++
          on "connection" ["createPullQueue", "createSubQueue"]
            (advising (on "queue" listenMethods starting))))))

def oracledb (name : String) (target : Module) : Returned × Module :=
  if name != "oracledb" then (.cached, target)
  else if target.marks "__probeAttached__" then (.cached, target)
  else
    (.cached, (target.mark "__probeAttached__").aspect
      (on "oracledb" ["getConnection"]
          (advising (on "connection" ["execute"] starting)) ++
        on "oracledb" ["createPool"] (advising (on "pool" ["getConnection"]
          (advisingNew "__appmetricsProbeAttached__"
            (on "connection" ["execute"] starting))))))

/-! ## Probes that wrap the constructor and return the wrapper -/

/-- `__ddProbeAttached__` is checked and never set; every call returns a new
function whose databases are instrumented. -/
def leveldown (name : String) (target : Module) : Returned × Module :=
  if name != "leveldown" then (.cached, target)
  else if target.marks "__ddProbeAttached__" then (.cached, target)
  else
    (.wrapper ((Handle.blank : Module).aspect
      [(("", "()"), advising (on "db" Leveldown.methods starting))]), target)

/-- `server.sockets.emit`, on the server that the constructor returns. -/
def sockets : List (Method × Wrapper) := on "sockets" ["emit"] starting

/-- The listener of `connection` gets an instrumented socket. -/
def onConnection : Wrapper :=
  .advise fun event =>
    if event = "connection" then
      (none, on "socket" ["emit"] starting ++
        on "socket" listenMethods starting)
    else (none, [])

/-- The constructor, which is also `listen`, is wrapped every time and the
prototype once. -/
def socketio (name : String) (target : Module) : Returned × Module :=
  if name != "socket.io" then (.cached, target)
  else
    let newtarget := (afterConstructor target sockets).aspect
      [(("", "listen"), advising sockets)]
    if target.marks "__prototypeProbeAttached__" then
      (.wrapper newtarget, target)
    else
      (.wrapper newtarget,
        (target.mark "__prototypeProbeAttached__").aspect
          (on "socket.io.prototype" listenMethods onConnection))

/-! ## Probes that return nothing the second time -/

def mqlight (name : String) (target : Module) : Returned × Module :=
  if name != "mqlight" then (.cached, target)
  else if target.marks "__probeAttached__" then (.undefined, target)
  else
    (.cached, (target.mark "__probeAttached__").aspect
      (on "mqlight" ["createClient"] (advising
        (on "client" ["send"] starting ++
          on "client" ["on"] (startingOn "message")))))

/-- `prepare` of a connection is wrapped as well, by an advice whose hook is
missing; it starts nothing. -/
def oracle (name : String) (target : Module) : Returned × Module :=
  if name != "oracle" then (.cached, target)
  else if target.marks "__probeAttached__" then (.undefined, target)
  else
    (.cached, (target.mark "__probeAttached__").aspect
      (on "oracle" ["connect"]
        (advising (on "connection" ["execute"] starting))))

def strongOracle (name : String) (target : Module) : Returned × Module :=
  if name != "strong-oracle" then (.cached, target)
  else if target.marks "__probeAttached__" then (.undefined, target)
  else
    let target := target.mark "__probeAttached__"
    (.wrapper (afterConstructor target
      (on "oracle" ["connect"] (advisingNew "__appmetricsProbeAttached__"
        (on "connection" ["execute"] starting)))), target)

/-! ## The probe that leaves no mark -/

/-- `__ddProbeAttached__` is checked and never set. -/
def loopback (name : String) (target : Module) : Returned × Module :=
  if name != "loopback-datasource-juggler" then (.cached, target)
  else if target.marks "__ddProbeAttached__" then (.cached, target)
  else
    (.cached, (target.aspect
      (on "DataAccessObject" Loopback.commands starting)).aspect
        (on "DataAccessObject.prototype" Loopback.instanceCommands starting))

end Attach

/-- `probe.attach(name, target)`, for node's major version `node`. -/
def ProbeKind.attach (node : Nat) :
    ProbeKind → String → Module → Returned × Module
  | axon => Attach.axon
  | riak => Attach.riak
  | httpOutbound => Attach.outbound "http" (Attach.outboundMethods node 8)
  | http => Attach.server "http" "__httpProbe__"
  | httpsOutbound => Attach.outbound "https" (Attach.outboundMethods node 9)
  | https => Attach.server "https" "__httpsProbe__"
  | leveldown => Attach.leveldown
  | loopback => Attach.loopback
  | memcached => Attach.memcached
  | mongo => Attach.mongo
  | mqlight => Attach.mqlight
  | mqtt => Attach.mqtt
  | mysql => Attach.mysql
  | oracle => Attach.oracle
  | oracledb => Attach.oracledb
  | postgres => Attach.postgres
  | redis => Attach.redis
  | socketio => Attach.socketio
  | strongExpressMetrics => Attach.strongExpressMetrics
  | strongMq => Attach.strongMq
  | strongOracle => Attach.strongOracle

namespace Module

/-- `attach` of every probe with this name.  Probes that share a name return
the module object they are given; any other result is final. -/
def attachAll (node : Nat) (name : String) :
    List ProbeKind → Module → Returned × Module
  | [], target => (.cached, target)
  | p :: probes, target =>
      if p.name = name then
        match p.attach node name target with
        | (.cached, target) => attachAll node name probes target
        | ret => ret
      else attachAll node name probes target

/-- `require(name)` of a module that node has cached as `target`. -/
def require (node : Nat) (name : String) (target : Module) :
    Returned × Module :=
  if target.marks "__ddProbeAttached__" then (.cached, target)
  else attachAll node name ProbeKind.all target

/-- `n` calls of `require(name)`: what they returned, in order. -/
def requires (node : Nat) (name : String) :
    Nat → Module → List Returned × Module
  | 0, target => ([], target)
  | n + 1, target =>
      let (ret, target) := require node name target
      let (rets, target) := requires node name n target
      (ret :: rets, target)

/-- A module returned by `require`, as its user sees it: a wrapper calls the
cached module object and shares its prototypes. -/
def view (target : Module) : Returned → Option Module
  | .undefined => none
  | .cached => some target
  | .wrapper own =>
      some { own with layers := fun n => own.layers n ++ target.layers n }

end Module

end Appmetrics
