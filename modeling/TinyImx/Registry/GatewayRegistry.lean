import Mathlib.Data.Finset.Basic
import Mathlib.Order.Lex
import TinyImx.Lib.Run
import TinyImx.Local.Types

/-!
# The gateway registry

A gateway's lease is a string in Redis with a time to live, under a key made of the gateway's id; the
ids are members of one index set.  `Register`, `RefreshIfMatch`, `UnregisterIfMatch` and
`ListActiveGateways` are sequences of Redis commands and scripts, each of them atomic; commands of
other calls and the expiry of leases come between any two of them.  Any command may fail, with or
without having taken effect.
-/

namespace TinyImx.Registry

open TinyImx.Local (Bytes)

/-! ## Records -/

structure GatewayInstanceRecord where
  gatewayId : Bytes
  leaseToken : Bytes
  listenHost : Bytes
  listenPort : UInt16
  startedAt : ℤ

def IsValidGatewayRecord (record : GatewayInstanceRecord) : Bool :=
  record.gatewayId ≠ [] && record.leaseToken ≠ [] && record.listenHost ≠ [] &&
    record.listenPort ≠ 0 && 0 < record.startedAt

/-- The JSON libraries: the one that writes records and parses them, and the one of the scripts. -/
structure Json (Value : Type) where
  /-- The text of a record; none where a string is not valid UTF-8 and `dump` throws. -/
  dump : GatewayInstanceRecord → Option Value
  parse : Value → Option GatewayInstanceRecord
  /-- `gateway_id` and `lease_token`, where `cjson` decodes a table in which both are strings. -/
  decode : Value → Option (Bytes × Bytes)
  parse_dump : ∀ record value, dump record = some value → parse value = some record
  decode_dump : ∀ record value, dump record = some value →
    decode value = some (record.gatewayId, record.leaseToken)

variable {Value : Type}

def Json.deserialize (json : Json Value) (value : Value) : Option GatewayInstanceRecord :=
  match json.parse value with
  | none => none
  | some record => if IsValidGatewayRecord record then some record else none

/-! ## Redis -/

structure Entry (Value : Type) where
  value : Value
  ttl : ℤ

/-- The keys of the registry: `key_prefix_ + gateway_id` for each gateway, and the index, whose key no
gateway has as long as `__index__` is nobody's id. -/
structure Redis (Value : Type) where
  lease : Bytes → Option (Entry Value)
  index : Finset Bytes

def kIndexSuffix : Bytes := [95, 95, 105, 110, 100, 101, 120, 95, 95]

namespace Redis

def set (r : Redis Value) (id : Bytes) (value : Value) (ttl : ℤ) : Redis Value :=
  { r with lease := Function.update r.lease id (some ⟨value, ttl⟩) }

def del (r : Redis Value) (id : Bytes) : Redis Value :=
  { r with lease := Function.update r.lease id none }

def expire (r : Redis Value) (id : Bytes) (ttl : ℤ) : Redis Value × ℕ :=
  match r.lease id with
  | none => (r, 0)
  | some entry => (r.set id entry.value ttl, 1)

def sadd (r : Redis Value) (id : Bytes) : Redis Value := { r with index := insert id r.index }

def srem (r : Redis Value) (id : Bytes) : Redis Value := { r with index := r.index.erase id }

end Redis

/-! ## Scripts -/

/-- What a script finds in a stored text: a record of the gateway, with its token, or none. -/
def Json.tokenOf (json : Json Value) (id : Bytes) (value : Value) : Option Bytes :=
  match json.decode value with
  | none => none
  | some (storedId, storedToken) => if storedId ≠ id then none else some storedToken

def registerScript (json : Json Value) (id : Bytes) (value : Value) (ttl : ℤ) (token : Bytes)
    (r : Redis Value) : Redis Value × ℕ :=
  match r.lease id with
  | none => ((r.set id value ttl).sadd id, 1)
  | some entry =>
    match json.tokenOf id entry.value with
    | none => (r, 4)
    | some stored => if stored ≠ token then (r, 3) else ((r.set id value ttl).sadd id, 2)

def refreshScript (json : Json Value) (id token : Bytes) (ttl : ℤ) (r : Redis Value) :
    Redis Value × ℕ :=
  match r.lease id with
  | none => (r, 0)
  | some entry =>
    match json.tokenOf id entry.value with
    | none => (r, 3)
    | some stored =>
      if stored ≠ token then (r, 2)
      else
        let expired := r.expire id ttl
        if expired.2 = 1 then (expired.1.sadd id, 1) else (expired.1, 0)

def unregisterScript (json : Json Value) (id token : Bytes) (r : Redis Value) : Redis Value × ℕ :=
  match r.lease id with
  | none => (r.srem id, 0)
  | some entry =>
    match json.tokenOf id entry.value with
    | none => (r, 3)
    | some stored => if stored ≠ token then (r, 2) else ((r.del id).srem id, 1)

/-! ## Results -/

inductive RegisterGatewayStatus where
  | registered | renewed | conflict | invalidRecord | invalidArgument | redisError

inductive RefreshGatewayLeaseStatus where
  | refreshed | notFound | mismatch | invalidRecord | invalidArgument | redisError

inductive UnregisterGatewayStatus where
  | deleted | notFound | mismatch | invalidRecord | invalidArgument | redisError

inductive ListGatewayStatus where
  | ok | invalidArgument | redisError

inductive Result where
  | register (status : RegisterGatewayStatus) (errorMessage : String)
  | refresh (status : RefreshGatewayLeaseStatus) (errorMessage : String)
  | unregister (status : UnregisterGatewayStatus) (errorMessage : String)
  | list (status : ListGatewayStatus) (instances : List GatewayInstanceRecord)
      (errorMessage : String)
  /-- The exception of `dump`. -/
  | threw

/-- What `Register` returns once its `SADD` succeeded, which has cleared the connection's error. -/
def registerResult : Option ℕ → Result
  | none => .register .redisError ""
  | some 1 => .register .registered ""
  | some 2 => .register .renewed ""
  | some 3 => .register .conflict ""
  | some 4 =>
    .register .invalidRecord "gateway registry register failed: stored gateway record is invalid"
  | some n =>
    .register .redisError ("gateway registry register failed: unexpected script result=" ++ toString n)

def refreshResult (error : String) : Option ℕ → Result
  | none => .refresh .redisError error
  | some 1 => .refresh .refreshed ""
  | some 0 => .refresh .notFound ""
  | some 2 => .refresh .mismatch ""
  | some 3 =>
    .refresh .invalidRecord "gateway registry refresh failed: stored gateway record is invalid"
  | some n =>
    .refresh .redisError ("gateway registry refresh failed: unexpected script result=" ++ toString n)

def unregisterResult : ℕ → Result
  | 1 => .unregister .deleted ""
  | 0 => .unregister .notFound ""
  | 2 => .unregister .mismatch ""
  | 3 =>
    .unregister .invalidRecord "gateway registry unregister failed: stored gateway record is invalid"
  | n =>
    .unregister .redisError
      ("gateway registry unregister failed: unexpected script result=" ++ toString n)

def sortInstances (instances : List GatewayInstanceRecord) : List GatewayInstanceRecord :=
  instances.mergeSort fun a b => !decide (b.gatewayId < a.gatewayId)

/-! ## Calls -/

inductive Request where
  | register (record : GatewayInstanceRecord) (ttl : ℤ)
  | refresh (id token : Bytes) (ttl : ℤ)
  | unregister (id token : Bytes)
  | list

def Request.token : Request → Option Bytes
  | .register record _ => some record.leaseToken
  | .refresh _ token _ | .unregister _ token => some token
  | .list => none

inductive Phase (Value : Type) where
  | registerScript (value : Value)
  | registerSadd (connected : Bool) (reply : Option ℕ)
  | registerDel (connected : Bool) (error : String)
  | refreshScript
  | unregisterScript
  | unregisterSrem (reply : ℕ)
  | listMembers
  /-- `Get` of the first of the ids that remain. -/
  | listGet (rest : List Bytes) (instances : List GatewayInstanceRecord)
  /-- The `SREM` of an id whose lease was not found, or not valid. -/
  | listSrem (id : Bytes) (rest : List Bytes) (instances : List GatewayInstanceRecord)
  | returned (result : Result)

def Request.arguments (json : Json Value) : Request → Except Result (Phase Value)
  | .register record ttl =>
    if !IsValidGatewayRecord record then
      .error (.register .invalidArgument "gateway registry register failed: invalid gateway record")
    else if ttl ≤ 0 then
      .error (.register .invalidArgument
        "gateway registry register failed: ttl_seconds must be positive")
    else
      match json.dump record with
      | none => .error .threw
      | some value => .ok (.registerScript value)
  | .refresh id token ttl =>
    if id = [] ∨ token = [] ∨ ttl ≤ 0 then
      .error (.refresh .invalidArgument "gateway registry refresh failed: invalid argument")
    else .ok .refreshScript
  | .unregister id token =>
    if id = [] ∨ token = [] then
      .error (.unregister .invalidArgument "gateway registry unregister failed: invalid argument")
    else .ok .unregisterScript
  | .list => .ok .listMembers

def Request.acquireFailed : Request → Result
  | .register _ _ =>
    .register .redisError "gateway registry register failed: acquire redis connection failed"
  | .refresh _ _ _ =>
    .refresh .redisError "gateway registry refresh failed: acquire redis connection failed"
  | .unregister _ _ =>
    .unregister .redisError "gateway registry unregister failed: acquire redis connection failed"
  | .list => .list .redisError [] "gateway registry list failed: acquire redis connection failed"

def Request.Unreserved : Request → Prop
  | .register record _ => record.gatewayId ≠ kIndexSuffix
  | .refresh id _ _ | .unregister id _ => id ≠ kIndexSuffix
  | .list => True

structure Call (Value : Type) where
  request : Request
  phase : Phase Value

structure State (Value : Type) where
  redis : Redis Value
  calls : ℕ → Option (Call Value)

def State.start (redis : Redis Value) : State Value := ⟨redis, fun _ => none⟩

def State.go (s : State Value) (c : ℕ) (redis : Redis Value) (req : Request) (phase : Phase Value) :
    State Value :=
  ⟨redis, Function.update s.calls c (some ⟨req, phase⟩)⟩

/-! ## Commands -/

inductive Outcome where
  | done
  | rejected
  | lost
  | broken

def Outcome.connected : Outcome → Bool
  | .done | .rejected => true
  | .lost | .broken => false

def Outcome.effective : Outcome → Bool
  | .done | .lost => true
  | .rejected | .broken => false

def Redis.exec {α : Type} (r : Redis Value) (command : Redis Value → Redis Value × α) :
    Outcome → Redis Value × Option α
  | .done => ((command r).1, some (command r).2)
  | .lost => ((command r).1, none)
  | .rejected | .broken => (r, none)

def afterRegisterSadd (connected : Bool) (reply : Option ℕ) (error : String) :
    Option Unit → Phase Value
  | none => .registerDel connected error
  | some () => .returned (registerResult reply)

def afterUnregisterScript (error : String) : Option ℕ → Phase Value
  | none => .returned (.unregister .redisError error)
  | some n => .unregisterSrem n

def Json.found (json : Json Value) (id : Bytes) (entry : Option (Entry Value)) :
    Option GatewayInstanceRecord :=
  match entry with
  | none => none
  | some entry =>
    match json.deserialize entry.value with
    | none => none
    | some record => if record.gatewayId ≠ id then none else some record

def afterListGet (json : Json Value) (id : Bytes) (rest : List Bytes)
    (instances : List GatewayInstanceRecord) (error : String) :
    Option (Option (Entry Value)) → Phase Value
  | none => .returned (.list .redisError instances error)
  | some entry =>
    match json.found id entry with
    | some record => .listGet rest (instances ++ [record])
    | none => .listSrem id rest instances

inductive Label where
  | silent
  | expire (id : Bytes)
  | command (call : ℕ) (request : Request) (outcome : Outcome)

inductive Step (json : Json Value) : State Value → Label → State Value → Prop
  | arrive {s : State Value} {c : ℕ} {req : Request} {phase : Phase Value} : s.calls c = none →
      req.Unreserved → req.arguments json = .ok phase →
      Step json s .silent (s.go c s.redis req phase)
  | refuse {s : State Value} {c : ℕ} {req : Request} {result : Result} : s.calls c = none →
      req.arguments json = .error result →
      Step json s .silent (s.go c s.redis req (.returned result))
  -- The record is dumped only when there is a connection.
  | unavailable {s : State Value} {c : ℕ} {req : Request} : s.calls c = none →
      (∀ result, req.arguments json = .error result → result = .threw) →
      Step json s .silent (s.go c s.redis req (.returned req.acquireFailed))
  | expire {s : State Value} {id : Bytes} :
      Step json s (.expire id) { s with redis := s.redis.del id }
  | registerScript {s : State Value} {c : ℕ} {record : GatewayInstanceRecord} {ttl : ℤ}
      {value : Value} {o : Outcome} {out : Redis Value × Option ℕ} :
      s.calls c = some ⟨.register record ttl, .registerScript value⟩ →
      out = s.redis.exec (Registry.registerScript json record.gatewayId value ttl
        record.leaseToken) o →
      Step json s (.command c (.register record ttl) o)
        (s.go c out.1 (.register record ttl) (.registerSadd o.connected out.2))
  | registerSadd {s : State Value} {c : ℕ} {record : GatewayInstanceRecord} {ttl : ℤ}
      {connected : Bool} {reply : Option ℕ} {error : String} {o : Outcome}
      {out : Redis Value × Option Unit} :
      s.calls c = some ⟨.register record ttl, .registerSadd connected reply⟩ →
      (connected = false → o = .broken) →
      out = s.redis.exec (fun r => (r.sadd record.gatewayId, ())) o →
      Step json s (.command c (.register record ttl) o)
        (s.go c out.1 (.register record ttl) (afterRegisterSadd o.connected reply error out.2))
  | registerDel {s : State Value} {c : ℕ} {record : GatewayInstanceRecord} {ttl : ℤ}
      {connected : Bool} {error : String} {o : Outcome} {out : Redis Value × Option Unit} :
      s.calls c = some ⟨.register record ttl, .registerDel connected error⟩ →
      (connected = false → o = .broken) →
      out = s.redis.exec (fun r => (r.del record.gatewayId, ())) o →
      Step json s (.command c (.register record ttl) o)
        (s.go c out.1 (.register record ttl) (.returned (.register .redisError error)))
  | refreshScript {s : State Value} {c : ℕ} {id token : Bytes} {ttl : ℤ} {o : Outcome}
      {error : String} {out : Redis Value × Option ℕ} :
      s.calls c = some ⟨.refresh id token ttl, .refreshScript⟩ →
      out = s.redis.exec (Registry.refreshScript json id token ttl) o →
      Step json s (.command c (.refresh id token ttl) o)
        (s.go c out.1 (.refresh id token ttl) (.returned (refreshResult error out.2)))
  | unregisterScript {s : State Value} {c : ℕ} {id token : Bytes} {o : Outcome} {error : String}
      {out : Redis Value × Option ℕ} :
      s.calls c = some ⟨.unregister id token, .unregisterScript⟩ →
      out = s.redis.exec (Registry.unregisterScript json id token) o →
      Step json s (.command c (.unregister id token) o)
        (s.go c out.1 (.unregister id token) (afterUnregisterScript error out.2))
  | unregisterSrem {s : State Value} {c : ℕ} {id token : Bytes} {reply : ℕ} {o : Outcome}
      {out : Redis Value × Option Unit} :
      s.calls c = some ⟨.unregister id token, .unregisterSrem reply⟩ →
      out = s.redis.exec (fun r => (r.srem id, ())) o →
      Step json s (.command c (.unregister id token) o)
        (s.go c out.1 (.unregister id token) (.returned (unregisterResult reply)))
  | listMembers {s : State Value} {c : ℕ} {ids : List Bytes} :
      s.calls c = some ⟨.list, .listMembers⟩ → ids.Nodup → (∀ id, id ∈ ids ↔ id ∈ s.redis.index) →
      Step json s (.command c .list .done) (s.go c s.redis .list (.listGet ids []))
  | listMembersFailed {s : State Value} {c : ℕ} {error : String} {o : Outcome} :
      s.calls c = some ⟨.list, .listMembers⟩ → o ≠ .done →
      Step json s (.command c .list o)
        (s.go c s.redis .list (.returned (.list .redisError [] error)))
  -- `Get` refuses an empty id before it asks Redis.
  | listGetEmpty {s : State Value} {c : ℕ} {rest : List Bytes}
      {instances : List GatewayInstanceRecord} :
      s.calls c = some ⟨.list, .listGet ([] :: rest) instances⟩ →
      Step json s .silent (s.go c s.redis .list (.listSrem [] rest instances))
  | listGet {s : State Value} {c : ℕ} {id : Bytes} {rest : List Bytes}
      {instances : List GatewayInstanceRecord} {o : Outcome} {error : String}
      {out : Redis Value × Option (Option (Entry Value))} :
      s.calls c = some ⟨.list, .listGet (id :: rest) instances⟩ → id ≠ [] →
      out = s.redis.exec (fun r => (r, r.lease id)) o →
      Step json s (.command c .list o)
        (s.go c out.1 .list (afterListGet json id rest instances error out.2))
  | listSrem {s : State Value} {c : ℕ} {id : Bytes} {rest : List Bytes}
      {instances : List GatewayInstanceRecord} {o : Outcome} {out : Redis Value × Option Unit} :
      s.calls c = some ⟨.list, .listSrem id rest instances⟩ →
      out = s.redis.exec (fun r => (r.srem id, ())) o →
      Step json s (.command c .list o) (s.go c out.1 .list (.listGet rest instances))
  | listDone {s : State Value} {c : ℕ} {instances : List GatewayInstanceRecord} :
      s.calls c = some ⟨.list, .listGet [] instances⟩ →
      Step json s .silent
        (s.go c s.redis .list (.returned (.list .ok (sortInstances instances) "")))

end TinyImx.Registry
