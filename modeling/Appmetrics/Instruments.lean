/-
How each probe fills in `requestStart`, `metricsEnd` and `requestEnd`.
-/
import Appmetrics.Attach
import Appmetrics.Hooks
import Mathlib.Data.List.Infix

namespace Appmetrics

/-- A property whose value is passed on as it is. -/
def given (name : String) (v : JsValue) : String × Field := (name, .value v)

namespace Instrument

/-- Most probes read nothing of the values they pass on, and name the request
after the method. -/
def plain (topic type : String) (root : Call → Bool)
    (metrics context : Call → List JsValue → Fields) : Instrument where
  topic := topic
  request c := .ok ⟨type, c.methodName, root c, true⟩
  assigns := true
  metrics c extra := .ok (some (metrics c extra))
  context c extra := .ok (context c extra)
  tests := true

end Instrument

/-! ## Probes that only pass values on -/

namespace Axon

/-- `isSendMethod(type)`. -/
def isSendMethod : JsValue → Bool
  | .string socketType => (Attach.sendTypeToMethod socketType).isSome
  | _ => false

/-- The end hooks are also given `socketType`. -/
def instrument : Instrument :=
  .plain "axon" "axon" (·.named "message")
    (fun c extra =>
      let socketType := extra.getD 0 .undefined
      [given (if isSendMethod socketType then "method" else "event")
          c.methodName,
        given "type" socketType])
    fun c _ => [given "topic" (c.arg 0)]

end Axon

namespace Riak

/-- The property that shows the first argument. -/
def key (method : String) : String :=
  if method ∈ optionsAndCallbackMethods then "options"
  else if method ∈ commandMethods then "command"
  else if method ∈ queryMethods then "query"
  else ""

def instrument : Instrument :=
  { Instrument.plain "riak" "basho-riak-client" (fun _ => false)
      (fun c _ =>
        let key := key c.methodName.asName
        given "method" c.methodName ::
          if key != "" then [given key (c.arg 0)] else [])
      fun c _ => [given "method" c.methodName] with
    request := fun _ =>
      .ok ⟨"basho-riak-client", .string "query", false, true⟩ }

end Riak

namespace Memcached

def instrument : Instrument :=
  .plain "memcached" "memcached" (fun _ => false)
    (fun c _ => [given "method" c.methodName, given "key" (c.arg 0)])
    fun c _ => [given "key" (c.arg 0)]

end Memcached

namespace Mqtt

/-- `methodArgs[2].qos`, unless there are no options. -/
def qos (c : Call) : Except JsError JsValue :=
  if (c.arg 2).truthy && !(c.arg 2).isFunction then (c.arg 2).get "qos"
  else .ok (.number 0)

def instrument : Instrument :=
  { Instrument.plain "mqtt" "mqtt" (·.named "message") (fun _ _ => [])
      fun _ _ => [] with
    metrics := fun c _ => do
      return some [given "method" c.methodName, given "topic" (c.arg 0),
        given "qos" (← qos c)]
    context := fun c _ => do
      return [given "topic" (c.arg 0), given "qos" (← qos c)] }

end Mqtt

namespace Oracledb

/-- oracledb and strong-oracle differ in their names only. -/
def instrument (name : String) : Instrument :=
  .plain name name (fun _ => false)
    (fun c _ => [given "query" (c.arg 0)])
    fun c _ => [given "query" (c.arg 0)]

end Oracledb

namespace Postgres

def instrument : Instrument :=
  { Instrument.plain "postgres" "postgres" (fun _ => false)
      (fun c _ => [given "query" (c.arg 0)])
      fun c _ => [given "sql" (c.arg 0)] with
    request := fun _ => .ok ⟨"postgres", .string "query", false, true⟩ }

end Postgres

namespace Redis

def instrument : Instrument :=
  .plain "redis" "redis" (fun _ => false)
    (fun c _ => [given "cmd" c.methodName])
    fun c _ => [given "cmd" c.methodName]

end Redis

namespace Socketio

def instrument : Instrument :=
  .plain "socketio" "socketio" (·.named "receive")
    (fun c _ => [given "method" c.methodName, given "event" (c.arg 0)])
    fun c _ => [given "method" c.methodName, given "event" (c.arg 0)]

end Socketio

namespace StrongMq

/-- `typeToEventType[socketType]`. -/
def typeToEventType (socketType : String) : JsValue :=
  match socketType with
  | "createPushQueue" => .string "push"
  | "createPullQueue" => .string "pull"
  | "createPubQueue" => .string "pub"
  | "createSubQueue" => .string "sub"
  | _ => .undefined

/-- Received messages mark the start of requests. -/
def instrument : Instrument :=
  { Instrument.plain "strong-mq" "strong-mq" (fun c => !c.named "publish")
      (fun c extra =>
        [given "type" (extra.getD 0 .undefined),
          if c.named "publish" then given "method" c.methodName
          else given "event" (.string "message")])
      fun c _ => [given "topic" (c.arg 0)] with
    request := fun c =>
      if c.named "publish" then
        .ok ⟨"strong-mq", c.methodName, false, true⟩
      else .ok ⟨"strong-mq", .string "message", true, true⟩ }

end StrongMq

namespace Loopback

/-- The request gets a timer of its own. -/
def instrument : Instrument :=
  { Instrument.plain "loopback-datasource-juggler"
      "loopback-datasource-juggler" (fun _ => false)
      (fun c _ => [given "method" c.methodName])
      fun c _ => [given "loopbackDJProbe" (c.arg 0)] with
    request := fun _ =>
      .ok ⟨"loopback-datasource-juggler", .string "query", false, false⟩ }

end Loopback

/-! ## Probes whose hooks can throw -/

namespace Oracle

/-- `requestEnd` lacks the braces of its siblings: only the query is guarded
by the test of `probeData.req`. -/
def instrument : Instrument :=
  { Oracledb.instrument "oracle" with tests := false }

end Oracle

namespace Leveldown

/-- The request is assigned to an undeclared variable, which strict mode
refuses. -/
def instrument : Instrument where
  topic := "leveldown"
  request _ := .ok ⟨"leveldown", .string "query", false, false⟩
  assigns := false
  metrics c _ :=
    if c.named "put" then
      .ok (some [given "method" c.methodName, given "key" (c.arg 0),
        given "value" (c.arg 1)])
    else if c.named "del" || c.named "get" then
      .ok (some [given "method" c.methodName, given "key" (c.arg 0)])
    else if c.named "batch" then do
      return some [given "method" c.methodName,
        given "opCount" (← (c.arg 0).get "length")]
    else .ok none
  context c _ := .ok [given "leveldown" (c.arg 0)]
  tests := true

end Leveldown

namespace Mysql

def instrument : Instrument where
  topic := "mysql"
  request _ := .ok ⟨"mysql", .string "query", false, true⟩
  assigns := true
  metrics c _ := do return some [("query", ← jsonField (c.arg 0))]
  context c _ := do return [("sql", ← jsonField (c.arg 0))]
  tests := true

end Mysql

namespace Mongo

/-- `method + '(' + target.collectionName + ')'`. -/
def requestName (c : Call) : Except JsError JsValue := do
  let name ← c.methodName.plus (.string "(")
  let name ← name.plus (← c.target.get "collectionName")
  name.plus (.string ")")

/-- The end hooks are also given the collection's name and a count. -/
def instrument : Instrument where
  topic := "mongo"
  request c := do return ⟨"mongo", ← requestName c, false, true⟩
  assigns := true
  metrics c extra := do
    return some [("query", ← jsonField (c.arg 0)),
      given "method" c.methodName,
      given "collection" (extra.getD 0 .undefined),
      given "count" (extra.getD 1 .undefined)]
  context c _ := do return [("query", ← jsonField (c.arg 0))]
  tests := true

/-- The first of these properties that the result has. -/
def firstCount (res : JsValue) : List String → Except JsError JsValue
  | [] =>
      match res with
      | .number n => .ok (.number n)
      | .nan => .ok .nan
      | _ => .ok .undefined
  | p :: ps => do
      if ← res.hasOwnProperty p then res.get p else firstCount res ps

/-- The counts of a bulk write are added up. -/
def bulkCount (res : JsValue) : Except JsError JsValue := do
  let count ← (← res.get "modifiedCount").plus (← res.get "insertedCount")
  let count ← count.plus (← res.get "deletedCount")
  count.plus (← res.get "upsertedCount")

/-- The properties that may hold the count, in the order they are tried. -/
def countNames : List String :=
  ["matchedCount", "modifiedCount", "insertedCount", "upsertedCount",
    "deletedCount", "length"]

/-- How many documents the driver reports to the callback. -/
def collectionCount (c : Call) (args : List JsValue) :
    Except JsError JsValue :=
  let res := args.getD 1 .undefined
  if 1 < args.length && res.truthy then do
    let count ← firstCount res countNames
    if c.named "bulkWrite" then bulkCount res else return count
  else .ok .undefined

/-- The same for the callback of `toArray`. -/
def arrayCount (args : List JsValue) : Except JsError JsValue :=
  let res := args.getD 1 .undefined
  if 1 < args.length && res.truthy then do
    if ← res.hasOwnProperty "length" then res.get "length"
    else return .undefined
  else .ok .undefined

end Mongo

namespace Mqlight

/-- `data.substring(0, 22) + '...'`; a method `substring` of the
application's own is taken to return nothing. -/
def cut : JsValue → Except JsError JsValue
  | .string s =>
      .ok (.string (String.ofList (JsValue.takeUnits 22 s.toList) ++ "..."))
  | data => do
      data.method "substring"
      return .string "undefined..."

/-- Long messages are cut. -/
def clip (data : JsValue) : Except JsError JsValue := do
  if ← (← data.get "length").exceeds 25 then cut data else return data

/-- `options[0]`, if there are more than three arguments. -/
def sendQos (c : Call) : Except JsError JsValue :=
  if 3 < c.methodArgs.length then (c.arg 2).get "0" else .ok .undefined

/-- The end hooks are also given the client. -/
def instrument : Instrument where
  topic := "mqlight"
  request c := .ok ⟨"mqlight", c.methodName, c.named "message", true⟩
  assigns := true
  metrics c extra :=
    let client := extra.getD 0 .undefined
    if c.named "message" then do
      let data ← clip (c.arg 0)
      let topic ← (← (c.arg 1).get "message").get "topic"
      return some [given "clientid" (← client.get "id"), given "data" data,
        given "method" c.methodName, given "topic" topic]
    else if c.named "send" then do
      let data ← clip (c.arg 1)
      let qos ← sendQos c
      return some [given "clientid" (← client.get "id"), given "data" data,
        given "method" c.methodName, given "topic" (c.arg 0),
        given "qos" qos]
    else .ok none
  context c extra :=
    let client := extra.getD 0 .undefined
    if c.named "message" then do
      let data ← clip (c.arg 0)
      return [given "clientid" (← client.get "id"), given "data" data,
        given "method" c.methodName, given "topic" (c.arg 0)]
    else if c.named "send" then do
      let data ← clip (c.arg 1)
      let qos ← sendQos c
      return [given "clientid" (← client.get "id"), given "data" data,
        given "method" c.methodName, given "topic" (c.arg 0),
        given "qos" qos]
    else .ok []
  tests := true

end Mqlight

namespace Outbound

/-- `if (auth) url += auth + '@'`. -/
def addAuth (url auth : JsValue) : Except JsError JsValue :=
  if auth.truthy then do url.plus (← auth.plus (.string "@")) else .ok url

/-- The port is left out if the URL has it already. -/
def addPort (url port : JsValue) : Except JsError JsValue :=
  if port.truthy then do
    let suffix ← (JsValue.string ":").plus port
    if suffix.asName.toList <:+: url.asName.toList then return url
    else url.plus suffix
  else .ok url

/-- `formatURL(options)`, for `http:` or `https:`. -/
def formatURL (protocol : String) (options : JsValue) :
    Except JsError JsValue := do
  let own ← options.get "protocol"
  let url ← (if own.truthy then own else .string protocol).plus (.string "//")
  let url ← addAuth url (← options.get "auth")
  let host ← options.get "host"
  let hostname ← options.get "hostname"
  let url ← url.plus (if host.truthy then host
    else if hostname.truthy then hostname else .string "localhost")
  let url ← addPort url (← options.get "port")
  let path ← options.get "path"
  url.plus (if path.truthy then path else .string "/")

/-- `getRequestItems(options)`: method, URL and headers.  `urlParses` says on
which strings node's `url.parse` returns; what it returns has neither method
nor headers. -/
def getRequestItems (protocol : String) (urlParses : String → Bool)
    (options : JsValue) : Except JsError (JsValue × JsValue × JsValue) :=
  match options with
  | .null => .ok (.string "GET", .string "", .string "")
  | .object own inherits json => do
      let options := JsValue.object own inherits json
      let url ← formatURL protocol options
      let method ← options.get "method"
      let headers ← options.get "headers"
      return (if method.truthy then method else .string "GET", url,
        if headers.truthy then headers else .string "")
  | .string s =>
      if urlParses s then .ok (.string "GET", .string s, .string "")
      else .error .uriError
  | _ => .error (.typeError "cannot read property of a nullish value")

/-- `res.headers ? res.headers['content-type'] : undefined`. -/
def contentType (res : JsValue) : Except JsError JsValue := do
  let headers ← res.get "headers"
  if headers.truthy then headers.get "content-type" else return .undefined

/-- The end hooks are also given method, URL, response and headers; the
request is started without a name. -/
def instrument (topic : String) : Instrument where
  topic := topic
  request _ := .ok ⟨topic, .undefined, false, true⟩
  assigns := true
  metrics _ extra := do
    let res := extra.getD 2 .undefined
    return some [given "method" (extra.getD 0 .undefined),
      given "url" (extra.getD 1 .undefined),
      given "statusCode" (← res.get "statusCode"),
      given "contentType" (← contentType res),
      given "requestHeaders" (extra.getD 3 .undefined)]
  context _ extra := do
    let res := extra.getD 2 .undefined
    return [given "url" (extra.getD 1 .undefined),
      given "statusCode" (← res.get "statusCode"),
      given "contentType" (← contentType res),
      given "requestHeaders" (extra.getD 3 .undefined)]
  tests := true

end Outbound

namespace Server

/-- A filter of the configuration: its compiled expression and `to`. -/
structure Filter where
  regex : String → Bool
  toUrl : JsValue

/-- `parse(url)`: what precedes any query and fragment. -/
def parse (url : String) : String :=
  let url := url.toList.takeWhile (· != '?')
  String.ofList (url.takeWhile (· != '#'))

/-- `filterUrl(req)`. -/
def filterUrl (filters : List Filter) (req : JsValue) :
    Except JsError JsValue := do
  match ← req.get "url" with
  | .string url =>
      let resultUrl := JsValue.string (parse url)
      if filters.isEmpty then return resultUrl
      else
        let identifier ← (← req.get "method").plus (.string " ")
        let identifier ← identifier.plus resultUrl
        match filters.find? (·.regex identifier.asName) with
        | some filter => return filter.toUrl
        | none => return resultUrl
  | _ => .error (.typeError "not a function")

/-- `res.getHeader('content-type')`; the header is looked up among the
properties. -/
def getHeader (res : JsValue) : Except JsError JsValue := do
  res.method "getHeader"
  res.get "content-type"

/-- The hooks are given method and URL, the end hooks also the response and
the request. -/
def instrument (topic : String) : Instrument where
  topic := topic
  request c := .ok ⟨topic, c.arg 0, true, true⟩
  assigns := true
  metrics c extra := do
    let res := extra.getD 0 .undefined
    let httpReq := extra.getD 1 .undefined
    return some [given "method" c.methodName, given "url" (c.arg 0),
      given "header" (← res.get "_header"),
      given "statusCode" (← res.get "statusCode"),
      given "contentType" (← getHeader res),
      given "requestHeader" (← httpReq.get "headers")]
  context c extra := do
    let res := extra.getD 0 .undefined
    let httpReq := extra.getD 1 .undefined
    return [given "url" (c.arg 0), given "method" c.methodName,
      given "requestHeader" (← httpReq.get "headers"),
      given "statusCode" (← res.get "statusCode"),
      given "header" (← res.get "_header"),
      given "contentType" (← getHeader res)]
  tests := true

end Server

end Appmetrics
