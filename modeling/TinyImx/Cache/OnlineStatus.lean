import Mathlib.Data.List.Basic
import TinyImx.Lib.Positions

/-!
# Presence in Redis

The presence of a user is a JSON record under a key of Redis.  `OnlineStatusCache` reads and refreshes
presence for one user by a command or a script, and for many users by one script for all of them.
The batch of refreshes runs the text of the single script as the body of a Lua function, in which the
keys and arguments are replaced by parameters.

What Redis does with JSON in Lua and what the JSON library makes of a value are parameters: both
paths use the same ones.
-/

namespace TinyImx.Cache

/-! ## Redis -/

/-- A value of Redis: a string, or something that `GET` refuses. -/
inductive Value
  | string (text : String)
  | other

structure Entry where
  value : Value
  expireAt : Option ℕ

abbrev Redis := String → Option Entry

inductive Reply (α : Type)
  | ok (a : α)
  | error

def Redis.get (db : Redis) (key : String) : Reply (Option String) :=
  match db key with
  | none => .ok none
  | some ⟨.string text, _⟩ => .ok (some text)
  | some ⟨.other, _⟩ => .error

def Redis.expire (db : Redis) (now : ℕ) (key : String) (ttl : ℕ) : ℕ × Redis :=
  match db key with
  | none => (0, db)
  | some e => (1, Function.update db key (some { e with expireAt := some (now + ttl) }))

inductive LuaValue
  | string (text : String)
  | other
  deriving DecidableEq

/-- What is not part of the program: `cjson.decode` followed by the check for a table, which gives the
fields `gateway_id` and `connection_name`, and the typed access to a parsed JSON value, which gives
the four fields of a record or the text of an exception. -/
structure Json (Record : Type) where
  decode : String → Option (LuaValue × LuaValue)
  parse : String → Except String Record

/-! ## One user -/

structure OnlineStatusRecord where
  userId : ℕ
  gatewayId : String
  connectionName : String
  loginTime : ℤ

inductive GetOnlineStatusStatus
  | found
  | notFound
  | invalidRecord
  | invalidArgument
  | redisError
  deriving DecidableEq

structure GetOnlineStatusResult where
  status : GetOnlineStatusStatus := .redisError
  record : Option OnlineStatusRecord := none
  errorMessage : String := ""

structure OnlineStatusCache where
  json : Json OnlineStatusRecord
  unavailable : Option String
  evalError : String
  keyPrefix : String

namespace OnlineStatusCache

variable (c : OnlineStatusCache)

def buildKey (userId : ℕ) : String := c.keyPrefix ++ toString userId

def deserialize (expectedUserId : ℕ) (value : String) : GetOnlineStatusResult :=
  match c.json.parse value with
  | .error e => ⟨.invalidRecord, none, "online status deserialize failed: " ++ e⟩
  | .ok record =>
    if record.userId ≠ expectedUserId then
      ⟨.invalidRecord, none, "online status record user_id mismatch, expected=" ++
        toString expectedUserId ++ ", actual=" ++ toString record.userId⟩
    else if record.gatewayId = "" then
      ⟨.invalidRecord, none, "online status record gateway_id is empty"⟩
    else if record.connectionName = "" then
      ⟨.invalidRecord, none, "online status record connection_name is empty"⟩
    else if record.loginTime ≤ 0 then
      ⟨.invalidRecord, none, "online status record login_time is invalid"⟩
    else ⟨.found, some record, ""⟩

def invalidUser : GetOnlineStatusResult :=
  ⟨.invalidArgument, none, "online status get failed: invalid user_id"⟩

def getOnlineStatus (db : Redis) (userId : ℕ) : GetOnlineStatusResult :=
  if userId = 0 then invalidUser
  else match c.unavailable with
    | some reason => ⟨.redisError, none, "online status get failed: " ++ reason⟩
    | none =>
      match db.get (c.buildKey userId) with
      | .error => ⟨.redisError, none, "redis get failed: invalid reply type"⟩
      | .ok none => ⟨.notFound, none, ""⟩
      | .ok (some value) => c.deserialize userId value

inductive RefreshOnlineIfMatchStatus
  | refreshed
  | notFound
  | mismatch
  | invalidRecord
  | invalidArgument
  | redisError
  deriving DecidableEq

structure RefreshOnlineIfMatchResult where
  status : RefreshOnlineIfMatchStatus := .redisError
  errorMessage : String := ""

structure OnlineStatusRefreshRequest where
  userId : ℕ
  gatewayId : String
  connectionName : String
  ttlSeconds : ℤ

/-- What a call of the Lua body does: it returns a number, or raises an error of Redis.  A refresh is
the last thing that it does, so an error leaves the keys alone. -/
def refreshOne (db : Redis) (now : ℕ) (key gateway connection : String) (ttl : ℤ) :
    Reply ℕ × Redis :=
  match db.get key with
  | .error => (.error, db)
  | .ok none => (.ok 0, db)
  | .ok (some value) =>
    match c.json.decode value with
    | none => (.ok 3, db)
    | some (gatewayId, connectionName) =>
      if gatewayId ≠ .string gateway ∨ connectionName ≠ .string connection then (.ok 2, db)
      else if ttl ≤ 0 then (.ok 4, db)
      else
        let (expireResult, db') := db.expire now key ttl.toNat
        if expireResult ≠ 1 then (.ok 5, db') else (.ok 1, db')

def invalid (request : OnlineStatusRefreshRequest) : Option String :=
  if request.userId = 0 then some "invalid user_id"
  else if request.gatewayId = "" then some "gateway_id is empty"
  else if request.connectionName = "" then some "connection_name is empty"
  else if request.ttlSeconds ≤ 0 then some "invalid ttl_seconds"
  else none

def refreshFailed (reason : String) : String := "online status conditional refresh failed: " ++ reason

def invalidRequest (request : OnlineStatusRefreshRequest) : RefreshOnlineIfMatchResult :=
  match invalid request with
  | some reason => ⟨.invalidArgument, refreshFailed reason⟩
  | none => {}

def refreshResult : ℕ → RefreshOnlineIfMatchResult
  | 0 => ⟨.notFound, ""⟩
  | 1 => ⟨.refreshed, ""⟩
  | 2 => ⟨.mismatch, ""⟩
  | 3 => ⟨.invalidRecord, refreshFailed "stored record is invalid"⟩
  | 4 => ⟨.invalidArgument, refreshFailed "script rejected ttl_seconds"⟩
  | 5 => ⟨.redisError, refreshFailed "EXPIRE returned unexpected result"⟩
  | n => ⟨.redisError, refreshFailed "unexpected script result=" ++ toString n⟩

def refreshOnlineIfMatch (now : ℕ) (request : OnlineStatusRefreshRequest) (db : Redis) :
    RefreshOnlineIfMatchResult × Redis :=
  if (invalid request).isSome then (invalidRequest request, db)
  else match c.unavailable with
    | some reason => (⟨.redisError, refreshFailed reason⟩, db)
    | none =>
      match c.refreshOne db now (c.buildKey request.userId) request.gatewayId
          request.connectionName request.ttlSeconds with
      | (.error, db) => (⟨.redisError, "redis eval failed: " ++ c.evalError⟩, db)
      | (.ok n, db) => (refreshResult n, db)

def refreshEach (now : ℕ) : List OnlineStatusRefreshRequest → Redis →
    List RefreshOnlineIfMatchResult × Redis
  | [], db => ([], db)
  | request :: requests, db =>
    let (result, db) := c.refreshOnlineIfMatch now request db
    let (results, db) := refreshEach now requests db
    (result :: results, db)

/-! ## Many users -/

def kMaxGetBatchSize : ℕ := 256
def kMaxRefreshBatchSize : ℕ := 16

def getScript (db : Redis) : List String → List String
  | [] => []
  | key :: keys =>
    (match db.get key with
    | .error => ["error", ""]
    | .ok none => ["missing", ""]
    | .ok (some value) => ["value", value]) ++ getScript db keys

def pairs : List String → List (String × String)
  | [] => []
  | [_] => []
  | tag :: value :: rest => (tag, value) :: pairs rest

def knownTag (tag : String) : Bool := tag = "value" || tag = "missing" || tag = "error"

def tagged (userId : ℕ) (tag value : String) : GetOnlineStatusResult :=
  if tag = "missing" then ⟨.notFound, none, ""⟩
  else if tag = "error" then ⟨.redisError, none, "redis get failed: invalid reply type"⟩
  else c.deserialize userId value

/-- The results before any reply: users without an id are refused, the others are not yet known. -/
def beforeReply (userId : ℕ) : GetOnlineStatusResult := if userId = 0 then invalidUser else {}

/-- What is made of the reply to the batch of reads; without a reply its text is that of the last
error. -/
def assignStatuses (userIds : List ℕ) (reply : Except String (List String)) :
    List GetOnlineStatusResult :=
  let results := userIds.map beforeReply
  let positions := Positions.indices (· ≠ 0) 0 userIds
  let failValid := fun reason =>
    Positions.write results positions (List.replicate positions.length ⟨.redisError, none, reason⟩)
  match reply with
  | .error e => failValid e
  | .ok values =>
    if values.length ≠ positions.length * 2 then
      failValid "online status batch failed: unexpected result cardinality"
    else if (pairs values).any fun answer => !knownTag answer.1 then
      failValid "online status batch failed: invalid result tag"
    else Positions.write results positions
      (List.zipWith (fun userId answer => c.tagged userId answer.1 answer.2)
        (userIds.filter (· ≠ 0)) (pairs values))

def getOnlineStatusBatch (db : Redis) (userIds : List ℕ) : List GetOnlineStatusResult :=
  if kMaxGetBatchSize < userIds.length then
    userIds.map fun _ => ⟨.invalidArgument, none, "online status batch failed: batch exceeds 256 users"⟩
  else
    let keys := (userIds.filter (· ≠ 0)).map c.buildKey
    if keys = [] then userIds.map beforeReply
    else match c.unavailable with
      | some reason => c.assignStatuses userIds (.error ("online status get failed: " ++ reason))
      | none => c.assignStatuses userIds (.ok (getScript db keys))

def kRefreshOnlineIfMatchScript : String :=
  "\n    local value = redis.call('GET', KEYS[1])\n\n    if not value then\n        return 0\n" ++
  "    end\n\n    local decode_ok, record =\n        pcall(cjson.decode, value)\n\n" ++
  "    if not decode_ok or\n    type(record) ~= 'table' then\n        return 3\n    end\n\n" ++
  "    if record['gateway_id'] ~= ARGV[1] or\n    record['connection_name'] ~= ARGV[2] then\n" ++
  "        return 2\n    end\n\n    local ttl_seconds =\n        tonumber(ARGV[3])\n\n" ++
  "    if not ttl_seconds or\n    ttl_seconds <= 0 then\n        return 4\n    end\n\n" ++
  "    local expire_result =\n        redis.call(\n            'EXPIRE',\n            KEYS[1],\n" ++
  "            ttl_seconds\n        )\n\n    if expire_result ~= 1 then\n        return 5\n" ++
  "    end\n\n    return 1\n"

/-- Every occurrence of a text replaced, from left to right; the search goes on after what was put in.
The second argument is enough steps for the text. -/
def replaceAll (old new : List Char) : ℕ → List Char → List Char
  | 0, text => text
  | _ + 1, [] => []
  | steps + 1, c :: text =>
    if old.isPrefixOf (c :: text) then
      new ++ replaceAll old new steps ((c :: text).drop old.length)
    else c :: replaceAll old new steps text

def replacements : List (String × String) :=
  [("KEYS[1]", "key"), ("ARGV[1]", "gateway"), ("ARGV[2]", "connection"), ("ARGV[3]", "ttl")]

def refreshOnlineBatchScript : List Char :=
  let body := replacements.foldl
    (fun body replacement =>
      replaceAll replacement.1.toList replacement.2.toList body.length body)
    kRefreshOnlineIfMatchScript.toList
  "local function refresh_one(key,gateway,connection,ttl)\n".toList ++ body ++
    ("\nend\nlocal results=\x7b\x7d\nfor i=1,#KEYS do\n" ++
      "local ok,result=pcall(refresh_one,KEYS[i],ARGV[3*i-2]," ++
      "ARGV[3*i-1],ARGV[3*i])\n" ++
      "if ok then results[i]=tostring(result) " ++
      "else results[i]='redis_error' end\nend\nreturn results").toList

/-- The script of the batch of refreshes: the body for each key, and what it returned as text. -/
def refreshScript (now : ℕ) : List OnlineStatusRefreshRequest → Redis → List String × Redis
  | [], db => ([], db)
  | request :: requests, db =>
    let (result, db) := c.refreshOne db now (c.buildKey request.userId) request.gatewayId
      request.connectionName request.ttlSeconds
    let code := match result with
      | .ok n => toString n
      | .error => "redis_error"
    let (codes, db) := refreshScript now requests db
    (code :: codes, db)

def coded (code : String) : RefreshOnlineIfMatchResult :=
  if code = "0" then ⟨.notFound, ""⟩
  else if code = "1" then ⟨.refreshed, ""⟩
  else if code = "2" then ⟨.mismatch, ""⟩
  else if code = "3" then ⟨.invalidRecord, refreshFailed "stored record is invalid"⟩
  else if code = "4" then ⟨.invalidArgument, refreshFailed "script rejected ttl_seconds"⟩
  else ⟨.redisError, if code = "5" then refreshFailed "EXPIRE returned unexpected result"
    else refreshFailed "per-key Redis script error"⟩

def assignRefreshes (requests : List OnlineStatusRefreshRequest) (reply : Except String (List String)) :
    List RefreshOnlineIfMatchResult :=
  let results := requests.map invalidRequest
  let positions := Positions.indices (fun request => (invalid request).isNone) 0 requests
  let failValid := fun reason =>
    Positions.write results positions (List.replicate positions.length ⟨.redisError, reason⟩)
  match reply with
  | .error e => failValid e
  | .ok codes =>
    if codes.length ≠ positions.length then failValid (refreshFailed "invalid batch EVAL reply")
    else Positions.write results positions (codes.map coded)

def refreshOnlineIfMatchBatch (now : ℕ) (requests : List OnlineStatusRefreshRequest) (db : Redis) :
    List RefreshOnlineIfMatchResult × Redis :=
  if requests = [] then ([], db)
  else if kMaxRefreshBatchSize < requests.length then
    (requests.map fun _ => ⟨.invalidArgument, "online refresh batch exceeds maximum size16"⟩, db)
  else
    let sent := requests.filter fun request => (invalid request).isNone
    if sent = [] then (requests.map invalidRequest, db)
    else match c.unavailable with
      | some reason => (assignRefreshes requests (.error (refreshFailed reason)), db)
      | none =>
        let (codes, db) := c.refreshScript now sent db
        (assignRefreshes requests (.ok codes), db)

end OnlineStatusCache

end TinyImx.Cache
