/-
The methods that the probes instrument, and what they put around each.
-/
import Appmetrics.Instruments
import Appmetrics.Trace

namespace Appmetrics

open Effect

namespace Advice

/-- A hook that does nothing. -/
def idle : Js Unit := pure ()

/-- End here unless the callback will. -/
def endWithoutCallback (c : Call) (ends : Js Unit) : Js Unit :=
  if Aspect.findCallbackArg c.methodArgs = none then ends else idle

/-- Start before the call; end in the callback or, if there is none and the
method is advised with `around`, after it.  `reads` is what the hooks read
first, `extra` what the end hooks are given besides the call: `args` are the
callback's arguments. -/
def operation (i : Instrument) (around passes : Bool)
    (reads : Call → Except JsError Unit)
    (extra : Call → Option (List JsValue) → Except JsError (List JsValue)) :
    Advice where
  fresh := true
  before c clock := do
    Comp.eval (reads c)
    i.startHooks c clock
  callback c := Aspect.findCallbackArg c.methodArgs
  hookBefore c _ args clock := do
    let more ← Comp.eval (extra c.advised (some args))
    i.endHooks c.advised more clock
  hookAfter _ _ _ _ := idle
  after :=
    if around then some fun c rc clock => do
      Comp.eval (reads c)
      endWithoutCallback c do
        let more ← Comp.eval (extra c none)
        i.endHooks c more clock
      return if passes then rc else .undefined
    else none

/-- Nothing is read first, and nothing is given besides the call. -/
def plain (i : Instrument) (around passes : Bool) : Advice :=
  operation i around passes (fun _ => .ok ()) fun _ _ => .ok []

/-- A listener is wrapped when `applies`: start before and end after each of
its invocations.  The hooks are told of the calls `started` and `ended`. -/
def listener (i : Instrument) (applies : Call → Bool)
    (reads : Call → Except JsError Unit)
    (started ended : Call → List JsValue → Call) (extra : List JsValue) :
    Advice where
  fresh := true
  before _ _ := idle
  callback c :=
    if applies c then Aspect.findCallbackArg c.methodArgs else none
  hookBefore c _ args clock := do
    Comp.eval (reads c.advised)
    i.startHooks (started c.advised args) clock
  hookAfter c _ args clock :=
    i.endHooks (ended c.advised args) extra clock
  after := none

/-- Start before the call and end after it, whatever its arguments are. -/
def enclosing (i : Instrument) (passes : Bool) (told : Call → Call) :
    Advice where
  fresh := true
  before c clock := i.startHooks (told c) clock
  callback _ := none
  hookBefore _ _ _ _ := idle
  hookAfter _ _ _ _ := idle
  after := some fun c rc clock => do
    i.endHooks (told c) [] clock
    return if passes then rc else .undefined

/-- A method that hands out an object: these methods of the object are
instrumented after the call. -/
def product (meths : Call → List String) : Advice where
  fresh := true
  before _ _ := idle
  callback _ := none
  hookBefore _ _ _ _ := idle
  hookAfter _ _ _ _ := idle
  after := some fun c rc _ => do
    Comp.eval (Aspect.attach rc (meths c))
    return rc

/-- The object comes as an argument of the callback, which `attaches`. -/
def handed (applies : Call → Bool)
    (attaches : List JsValue → Except JsError Unit) : Advice where
  fresh := true
  before _ _ := idle
  callback c :=
    if applies c then Aspect.findCallbackArg c.methodArgs else none
  hookBefore _ _ args _ := Comp.eval (attaches args)
  hookAfter _ _ _ _ := idle
  after := none

end Advice

/-- A method that a probe instruments.  Those at the end have no start or
end hooks: they hand out the objects whose methods have them. -/
inductive Site
  | axonSend (socketType : JsValue)
  | axonListen (socketType : JsValue)
  | riak
  | outbound (https : Bool) (urlParses : String → Bool)
  | serverListen (https : Bool) (filters : List Server.Filter)
  | serverEnd (https : Bool) (traceUrl res httpReq : JsValue)
  | leveldown
  | loopback
  | memcached
  | mongoFind
  | mongoToArray (find : Call)
  | mongoCollection
  | mqlightSend (client : JsValue)
  | mqlightListen (client : JsValue)
  | mqttPublish
  | mqttListen
  | mysqlQuery
  | oracleExecute
  | oracledbExecute
  | strongOracleExecute
  | postgresQuery
  | redisCommand
  | redisExec (eventName : String)
  | socketioBroadcast
  | socketioEmit
  | socketioListen
  | strongMqPublish (socketType : String)
  | strongMqListen (socketType : String)
  | traceMethod (fullName methodString : String)
  | traceRespond (args : List JsValue)
  | axonSocket
  | mqlightCreateClient
  | mqttConnect
  | mysqlCreateConnection
  | oracleConnect
  | oraclePrepare
  | oracledbGetConnection
  | oracledbCreatePool
  | oracledbPoolGetConnection
  | strongOracleConnect
  | postgresConnect
  | postgresClientConnect
  | redisMulti
  | socketioOn
  | strongMqCreate
  | strongMqCreateQueue (listens : Bool)

namespace Call

/-- The same arguments under another name. -/
def renamed (c : Call) (name : String) : Call :=
  { c with methodName := .string name }

/-- The arguments of an invocation of the listener, under a name. -/
def event (c : Call) (name : JsValue) (args : List JsValue) : Call :=
  { c with methodName := name, methodArgs := args }

end Call

namespace Axon

/-- `client.send` or `client.emit`. -/
def send (socketType : JsValue) : Advice :=
  .operation instrument true true (fun _ => .ok ())
    fun _ _ => .ok [socketType]

/-- `client.on`; the transaction link is named after the event. -/
def listen (socketType : JsValue) : Advice :=
  .listener instrument (fun _ => true)
    (fun c => do
      let _ ← (JsValue.string "axon: ").plus (c.arg 0)
      return ())
    (fun c _ => { c with methodName := c.arg 0 })
    (fun c args => c.event (c.arg 0) args) [socketType]

/-- The methods of a socket of this type. -/
def methods (socketType : JsValue) : List String :=
  if isSendMethod socketType then
    (Attach.sendTypeToMethod socketType.asName).toList
  else ["on", "addListener"]

def socket : Advice := .product fun c => methods (c.arg 0)

end Axon

namespace Outbound

def topic (https : Bool) : String :=
  if https then "https-outbound" else "http-outbound"

def protocol (https : Bool) : String := if https then "https:" else "http:"

/-- `http.request` and `http.get`; without a callback there is no response,
and an empty object stands for it. -/
def request (https : Bool) (urlParses : String → Bool) : Advice :=
  .operation (instrument (topic https)) true true (fun _ => .ok ())
    fun c args => do
      let (method, url, headers) ←
        getRequestItems (protocol https) urlParses (c.arg 0)
      let res := match args with
        | some args => args.getD 0 .undefined
        | none => .object [] true true
      return [method, url, res, headers]

end Outbound

namespace Server

def topic (https : Bool) : String := if https then "https" else "http"

def marker (https : Bool) : String :=
  if https then "__httpsProbe__" else "__httpProbe__"

/-- What the hooks are told of a request. -/
def told (c : Call) (method traceUrl : JsValue) : Call :=
  { c with methodName := method, methodArgs := [traceUrl] }

/-- Whether `server.on` wraps the listener: it is the first one for requests
that this server gets. -/
def applies (https : Bool) (c : Call) : Bool :=
  (c.arg 0).isText "request" &&
    !((c.target.ownProperty (marker https)).getD .undefined).truthy

/-- Mark the server, at its first listener for requests. -/
def mark (https : Bool) (target : JsValue) : Except JsError Unit := do
  if (← target.get (marker https)).truthy then return () else target.put

/-- Each request gets a context object of its own, which the advice on
`res.end` keeps. -/
def trace (https : Bool) (c : Call) (httpReq res traceUrl : JsValue)
    (clock : Clock) : Js Unit := do
  let method ← Comp.eval (httpReq.get "method")
  Comp.modify fun s => { s with probeData := .empty }
  (instrument (topic https)).startHooks (told c method traceUrl) clock
  let _ ← Comp.eval (res.get "end")

/-- `Server.prototype.on`. -/
def listen (https : Bool) (filters : List Filter) : Advice where
  fresh := true
  before c _ :=
    if (c.arg 0).isText "request" then Comp.eval (mark https c.target)
    else Advice.idle
  callback c :=
    if applies https c then Aspect.findCallbackArg c.methodArgs else none
  hookBefore c _ args clock := do
    let httpReq := args.getD 0 .undefined
    let traceUrl ← Comp.eval (filterUrl filters httpReq)
    if traceUrl.isText "" then Advice.idle
    else trace https c httpReq (args.getD 1 .undefined) traceUrl clock
  hookAfter _ _ _ _ := Advice.idle
  after := none

/-- `res.end` of one request, with the context object of its start. -/
def finish (https : Bool) (traceUrl res httpReq : JsValue) : Advice where
  fresh := false
  before _ _ := Advice.idle
  callback _ := none
  hookBefore _ _ _ _ := Advice.idle
  hookAfter _ _ _ _ := Advice.idle
  after := some fun c _ clock => do
    let method ← Comp.eval (httpReq.get "method")
    (instrument (topic https)).endHooks (told c method traceUrl)
      [res, httpReq] clock
    return .undefined

end Server

namespace Mongo

/-- `target.collectionName`, which every hook reads first. -/
def readsName (c : Call) : Except JsError Unit := do
  let _ ← c.target.get "collectionName"
  return ()

/-- Without a callback nothing is counted. -/
def count (c : Call) : Option (List JsValue) → Except JsError JsValue
  | some args => collectionCount c args
  | none => .ok .undefined

/-- `aspectCollectionMethod`. -/
def collectionMethod : Advice :=
  .operation instrument true true readsName fun c args => do
    let name ← c.target.get "collectionName"
    let count ← count c args
    return [name, count]

/-- A cursor is left to `toArray`. -/
def endUnlessCursor (c : Call) (rc name : JsValue) (clock : Clock) :
    Js Unit :=
  if rc.nullish then instrument.endHooks c [name, .undefined] clock
  else Advice.idle

/-- `Collection.prototype.find`. -/
def find : Advice where
  fresh := true
  before c clock := instrument.startHooks c clock
  callback _ := none
  hookBefore _ _ _ _ := Advice.idle
  hookAfter _ _ _ _ := Advice.idle
  after := some fun c rc clock => do
    let name ← Comp.eval (c.target.get "collectionName")
    endUnlessCursor c rc name clock
    return rc

/-- `cursor.toArray`, with the call and the context object of the `find` that
returned the cursor. -/
def toArray (find : Call) : Advice where
  fresh := false
  before _ _ := Advice.idle
  callback c := Aspect.findCallbackArg c.methodArgs
  hookBefore _ _ args clock := do
    let count ← Comp.eval (arrayCount args)
    let name := (find.target.ownProperty "collectionName").getD .undefined
    instrument.endHooks find [name, count] clock
  hookAfter _ _ _ _ := Advice.idle
  after := none

end Mongo

namespace Mqlight

def send (client : JsValue) : Advice :=
  .operation instrument true true (fun _ => .ok ()) fun _ _ => .ok [client]

/-- `client.on('message', ..)`. -/
def listen (client : JsValue) : Advice :=
  .listener instrument (fun c => (c.arg 0).isText "message")
    (fun _ => .ok ()) (fun c args => c.event (.string "message") args)
    (fun c args => c.event (.string "message") args) [client]

def createClient : Advice := .product fun _ => ["send", "on"]

end Mqlight

namespace Mqtt

/-- `client.on('message', ..)`: the end hooks get the arguments of the
listener. -/
def listen : Advice :=
  .listener instrument (fun c => (c.arg 0).isText "message")
    (fun _ => .ok ()) (fun c _ => c.renamed "message")
    (fun c args => c.event (.string "message") args) []

def connect : Advice :=
  .product fun _ => ["publish", "on", "addListener"]

end Mqtt

namespace Mysql

def createConnection : Advice := .product fun _ => ["query"]

end Mysql

/-- The marker of a connection that has been seen before. -/
def seenBefore : String := "__appmetricsProbeAttached__"

/-- Instrument a connection unless it was seen before. -/
def attachOnce (connection : JsValue) (meths : List String) :
    Except JsError Unit := do
  if (← connection.get seenBefore).truthy then return ()
  else do
    connection.put
    Aspect.attach connection meths

/-- What a callback `(err, object)` does with its object. -/
def unlessFailed (attaches : JsValue → Except JsError Unit)
    (args : List JsValue) : Except JsError Unit :=
  if (args.getD 0 .undefined).truthy then .ok ()
  else attaches (args.getD 1 .undefined)

namespace Oracle

def connect : Advice :=
  .handed (fun _ => true)
    (unlessFailed (Aspect.attach · ["execute", "prepare"]))

/-- `aspect.after` gets the hook in the place of its context, so there is no
function to call. -/
def prepare : Advice :=
  { Advice.product fun _ => [] with
    after := some fun _ _ _ =>
      Comp.throw (.typeError "hookAfter is not a function") }

end Oracle

namespace Oracledb

def getConnection : Advice :=
  .handed (fun _ => true) (unlessFailed (Aspect.attach · ["execute"]))

def createPool : Advice :=
  .handed (fun _ => true) (unlessFailed (Aspect.attach · ["getConnection"]))

/-- `pool.getConnection`; strong-oracle's `connect` is the same. -/
def pooled : Advice :=
  .handed (fun _ => true) (unlessFailed (attachOnce · ["execute"]))

end Oracledb

namespace Postgres

/-- The callback is not asked whether it failed. -/
def connect : Advice :=
  .handed (fun _ => true) fun args =>
    attachOnce (args.getD 1 .undefined) ["query"]

/-- `client.connect` of an instance: the methods are the receiver's. -/
def clientConnect : Advice :=
  { Advice.product fun _ => [] with
    after := some fun c rc _ => do
      Comp.eval (Aspect.attach c.target ["query"])
      return rc }

end Postgres

namespace Redis

/-- A command or a batch of them, under the name that its event carries; the
result is dropped. -/
def operation (told : Call → Call) : Advice :=
  { Advice.plain instrument true false with
    before := fun c clock => instrument.startHooks (told c) clock
    hookBefore := fun c _ _ clock =>
      instrument.endHooks (told c.advised) [] clock
    after := some fun c _ clock => do
      Advice.endWithoutCallback c (instrument.endHooks (told c) [] clock)
      return .undefined }

/-- Events carry the command in lower case. -/
def command : Advice :=
  operation fun c => c.renamed c.methodName.asName.toLower

/-- `exec` of the object that `multi` or `batch` returned. -/
def exec (eventName : String) : Advice := operation (·.renamed eventName)

def multi : Advice := .product fun _ => ["exec", "EXEC"]

end Redis

namespace Socketio

/-- `server.sockets.emit`, whose result is dropped. -/
def broadcast : Advice :=
  .enclosing instrument false (·.renamed "broadcast")

/-- `socket.emit`. -/
def emit : Advice := .enclosing instrument true id

/-- `socket.on`. -/
def listen : Advice :=
  .listener instrument (fun _ => true) (fun _ => .ok ())
    (fun c _ => c.renamed "receive") (fun c _ => c.renamed "receive") []

/-- `io.on('connection', ..)`. -/
def on : Advice :=
  .handed (fun c => (c.arg 0).isText "connection") fun args =>
    Aspect.attach (args.getD 0 .undefined) ["emit", "on", "addListener"]

end Socketio

namespace StrongMq

/-- `queue.publish`: the end hooks are told of the event type only without a
callback. -/
def publish (socketType : String) : Advice :=
  .operation instrument true true (fun _ => .ok ()) fun _ args =>
    .ok (if args.isNone then [typeToEventType socketType] else [])

/-- `queue.on`: the end hooks get the arguments of the listener. -/
def listen (socketType : String) : Advice :=
  .listener instrument (fun _ => true) (fun _ => .ok ())
    (fun c _ => c.renamed "message")
    (fun c args => c.event (.string "message") args)
    [typeToEventType socketType]

def create : Advice :=
  .product fun _ => ["createPushQueue", "createPubQueue",
    "createPullQueue", "createSubQueue"]

def createQueue (listens : Bool) : Advice :=
  .product fun _ => if listens then ["on", "addListener"] else ["publish"]

end StrongMq

namespace Site

def advice : Site → Advice
  | axonSend socketType => Axon.send socketType
  | axonListen socketType => Axon.listen socketType
  | riak => .plain Riak.instrument true true
  | outbound https urlParses => Outbound.request https urlParses
  | serverListen https filters => Server.listen https filters
  | serverEnd https traceUrl res httpReq =>
      Server.finish https traceUrl res httpReq
  | leveldown => .plain Leveldown.instrument false true
  | loopback => .plain Loopback.instrument false true
  | memcached => .plain Memcached.instrument true true
  | mongoFind => Mongo.find
  | mongoToArray find => Mongo.toArray find
  | mongoCollection => Mongo.collectionMethod
  | mqlightSend client => Mqlight.send client
  | mqlightListen client => Mqlight.listen client
  | mqttPublish => .plain Mqtt.instrument true true
  | mqttListen => Mqtt.listen
  | mysqlQuery => .plain Mysql.instrument false true
  | oracleExecute => .plain Oracle.instrument true true
  | oracledbExecute => .plain (Oracledb.instrument "oracledb") true true
  | strongOracleExecute =>
      .plain (Oracledb.instrument "strong-oracle") true true
  | postgresQuery => .plain Postgres.instrument false true
  | redisCommand => Redis.command
  | redisExec eventName => Redis.exec eventName
  | socketioBroadcast => Socketio.broadcast
  | socketioEmit => Socketio.emit
  | socketioListen => Socketio.listen
  | strongMqPublish socketType => StrongMq.publish socketType
  | strongMqListen socketType => StrongMq.listen socketType
  | traceMethod fullName methodString => Trace.method fullName methodString
  | traceRespond args => Trace.respond args
  | axonSocket => Axon.socket
  | mqlightCreateClient => Mqlight.createClient
  | mqttConnect => Mqtt.connect
  | mysqlCreateConnection => Mysql.createConnection
  | oracleConnect => Oracle.connect
  | oraclePrepare => Oracle.prepare
  | oracledbGetConnection => Oracledb.getConnection
  | oracledbCreatePool => Oracledb.createPool
  | oracledbPoolGetConnection => Oracledb.pooled
  | strongOracleConnect => Oracledb.pooled
  | postgresConnect => Postgres.connect
  | postgresClientConnect => Postgres.clientConnect
  | redisMulti => Redis.multi
  | socketioOn => Socketio.on
  | strongMqCreate => StrongMq.create
  | strongMqCreateQueue listens => StrongMq.createQueue listens

end Site

end Appmetrics
