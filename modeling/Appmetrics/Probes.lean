/-
The probes of probes/ and the methods they instrument.
-/
import Mathlib.Data.List.Nodup

namespace Appmetrics

/-- The files of probes/ in the order of the directory, without the trace
probe. -/
inductive ProbeKind
  | axon
  | riak
  | httpOutbound
  | http
  | httpsOutbound
  | https
  | leveldown
  | loopback
  | memcached
  | mongo
  | mqlight
  | mqtt
  | mysql
  | oracle
  | oracledb
  | postgres
  | redis
  | socketio
  | strongExpressMetrics
  | strongMq
  | strongOracle
deriving Repr, DecidableEq

namespace ProbeKind

def all : List ProbeKind :=
  [axon, riak, httpOutbound, http, httpsOutbound, https, leveldown, loopback,
    memcached, mongo, mqlight, mqtt, mysql, oracle, oracledb, postgres, redis,
    socketio, strongExpressMetrics, strongMq, strongOracle]

/-- `Probe.call(this, name)`: the module that the probe is for. -/
def name : ProbeKind → String
  | axon => "axon"
  | riak => "basho-riak-client"
  | httpOutbound => "http"
  | http => "http"
  | httpsOutbound => "https"
  | https => "https"
  | leveldown => "leveldown"
  | loopback => "loopback-datasource-juggler"
  | memcached => "memcached"
  | mongo => "mongodb"
  | mqlight => "mqlight"
  | mqtt => "mqtt"
  | mysql => "mysql"
  | oracle => "oracle"
  | oracledb => "oracledb"
  | postgres => "pg"
  | redis => "redis"
  | socketio => "socket.io"
  | strongExpressMetrics => "strong-express-metrics"
  | strongMq => "strong-mq"
  | strongOracle => "strong-oracle"

end ProbeKind

/-! ## Methods -/

namespace Riak

def callbackOnlyMethods : List String := ["ping", "shutdown", "stop"]

def optionsAndCallbackMethods : List String :=
   ["deleteValue", "deleteIndex", "fetchBucketProps", "fetchBucketTypeProps",
    "fetchCounter", "fetchIndex", "fetchMap", "fetchPreflist", "fetchSchema",
    "fetchSet", "fetchValue", "listBuckets", "listKeys", "search",
    "secondaryIndexQuery", "storeBucketProps", "storeBucketTypeProps",
    "storeIndex", "storeSchema", "storeValue", "tsDelete", "tsDescribe",
    "tsGet", "tsListKeys", "tsQuery", "tsStore", "updateCounter",
    "updateMap", "updateSet"]

def commandMethods : List String := ["execute"]
def queryMethods : List String := ["mapReduce"]
def noParameterMethods : List String := ["getRiakCluster"]

def methods : List String :=
  callbackOnlyMethods ++ (optionsAndCallbackMethods ++ commandMethods ++
    queryMethods ++ noParameterMethods)

end Riak

namespace Leveldown

def methods : List String := ["put", "get", "del", "batch"]

end Leveldown

namespace Loopback

def commands : List String :=
  ["create", "findOrCreate", "exists", "find", "findById", "remove",
    "removeById", "count"]

def instanceCommands : List String :=
  ["save", "remove", "updateAttribute", "updateAttributes", "reload"]

end Loopback

namespace Memcached

def methods : List String :=
   ["get", "gets", "getMulti", "set", "replace", "add", "cas", "append",
    "prepend", "increment", "decrement", "incr", "decr", "touch", "del",
    "delete"]

end Memcached

namespace Mongo

/-- The methods given to `aspectCollectionMethod`; `find` is advised apart. -/
def collectionMethods : List String :=
   ["aggregate", "bulkWrite", "count", "createIndex", "createIndexes",
    "deleteMany", "deleteOne", "distinct", "drop", "dropIndex",
    "dropIndexes", "findOne", "findOneAndDelete", "findOneAndReplace",
    "findOneAndUpdate", "geoHaystackSearch", "geoNear", "group", "indexes",
    "indexExists", "indexInformation", "insertMany", "insertOne",
    "mapReduce", "reIndex", "rename", "replaceOne", "updateMany",
    "updateOne"]

end Mongo

namespace Redis

def commands : List String :=
   ["APPEND", "AUTH", "BGREWRITEAOF", "BGSAVE", "BITCOUNT", "BITOP",
    "BITPOS", "BLPOP", "BRPOP", "BRPOPLPUSH", "CLIENT", "CLUSTER", "COMMAND",
    "CONFIG", "DBSIZE", "DEBUG", "DECR", "DECRBY", "DEL", "DISCARD", "DUMP",
    "ECHO", "EVAL", "EVALSHA", "EXISTS", "EXPIRE", "EXPIREAT", "FLUSHALL",
    "FLUSHDB", "GEOADD", "GEOHASH", "GEOPOS", "GEODIST", "GEORADIUS",
    "GEORADIUSBYMEMBER", "GET", "GETBIT", "GETRANGE", "GETSET", "HDEL",
    "HEXISTS", "HGET", "HGETALL", "HINCRBY", "HINCRBYFLOAT", "HKEYS", "HLEN",
    "HMGET", "HMSET", "HSET", "HSETNX", "HSTRLEN", "HVALS", "INCR", "INCRBY",
    "INCRBYFLOAT", "INFO", "KEYS", "LASTSAVE", "LINDEX", "LINSERT", "LLEN",
    "LPOP", "LPUSH", "LPUSHX", "LRANGE", "LREM", "LSET", "LTRIM", "MGET",
    "MIGRATE", "MONITOR", "MOVE", "MSET", "MSETNX", "OBJECT", "PERSIST",
    "PEXPIRE", "PEXPIREAT", "PFADD", "PFCOUNT", "PFMERGE", "PING", "PSETEX",
    "PSUBSCRIBE", "PUBSUB", "PTTL", "PUBLISH", "PUNSUBSCRIBE", "QUIT",
    "RANDOMKEY", "RENAME", "RENAMENX", "RESTORE", "ROLE", "RPOP",
    "RPOPLPUSH", "RPUSH", "RPUSHX", "SADD", "SAVE", "SCARD", "SCRIPT",
    "SDIFF", "SDIFFSTORE", "SELECT", "SET", "SETBIT", "SETEX", "SETNX",
    "SETRANGE", "SHUTDOWN", "SINTER", "SINTERSTORE", "SISMEMBER", "SLAVEOF",
    "SLOWLOG", "SMEMBERS", "SMOVE", "SORT", "SPOP", "SRANDMEMBER", "SREM",
    "STRLEN", "SUBSCRIBE", "SUNION", "SUNIONSTORE", "SYNC", "TIME", "TTL",
    "TYPE", "UNSUBSCRIBE", "UNWATCH", "WAIT", "WATCH", "ZADD", "ZCARD",
    "ZCOUNT", "ZINCRBY", "ZINTERSTORE", "ZLEXCOUNT", "ZRANGE", "ZRANGEBYLEX",
    "ZREVRANGEBYLEX", "ZRANGEBYSCORE", "ZRANK", "ZREM", "ZREMRANGEBYLEX",
    "ZREMRANGEBYRANK", "ZREMRANGEBYSCORE", "ZREVRANGE", "ZREVRANGEBYSCORE",
    "ZREVRANK", "ZSCORE", "ZUNIONSTORE", "SCAN", "SSCAN", "HSCAN", "ZSCAN"]

/-- Every command in upper and in lower case. -/
def methods : List String := commands.flatMap fun m => [m, m.toLower]

def multiMethods : List String := ["multi", "batch", "MULTI", "BATCH"]

def execMethods : List String := ["exec", "EXEC"]

end Redis

/-- The names under which an event emitter takes listeners. -/
def listenMethods : List String := ["on", "addListener"]

end Appmetrics
