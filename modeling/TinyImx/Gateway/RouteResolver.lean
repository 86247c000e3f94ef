import TinyImx.Cache.OnlineStatusBatch

/-!
# Routes of users

The route of a user follows from its presence: it is offline, at this gateway, or at another gateway
that the discovery may know.  `ResolveBatch` reads the presences in one batch.
-/

namespace TinyImx.Gateway

open TinyImx.Cache

inductive GatewayRouteStatus
  | isLocal
  | remote
  | offline
  | gatewayUnavailable
  | invalidArgument
  | dependencyUnavailable
  | onlineStatusError

/-- `GatewayRouteResult`, where `γ` are the records of gateways. -/
structure GatewayRouteResult (γ : Type) where
  status : GatewayRouteStatus := .dependencyUnavailable
  onlineStatus : Option OnlineStatusRecord := none
  remoteGateway : Option γ := none
  errorMessage : String := ""

/-- The resolver; `discovery` finds a gateway in the snapshot by its id. -/
structure GatewayRouteResolver (γ : Type) where
  localGatewayId : String
  onlineStatusCache : Option OnlineStatusCache
  discovery : Option (String → Option γ)

namespace GatewayRouteResolver

variable {γ : Type} (r : GatewayRouteResolver γ)

def resolveOnlineStatus (findById : String → Option γ) (online : GetOnlineStatusResult) :
    GatewayRouteResult γ :=
  if online.status = .notFound then { status := .offline }
  else match online.status, online.record with
    | .found, some record =>
      if record.gatewayId = r.localGatewayId then
        { status := .isLocal, onlineStatus := some record }
      else match findById record.gatewayId with
        | none =>
          { status := .gatewayUnavailable
            onlineStatus := some record
            errorMessage := "online status points to an unavailable gateway: " ++ record.gatewayId }
        | some gateway =>
          { status := .remote, onlineStatus := some record, remoteGateway := some gateway }
    | _, _ => { status := .onlineStatusError, errorMessage := online.errorMessage }

def resolve (db : Redis) (userId : ℕ) : GatewayRouteResult γ :=
  if userId = 0 then
    { status := .invalidArgument, errorMessage := "route resolve failed: user_id is zero" }
  else if r.localGatewayId = "" then
    { status := .dependencyUnavailable
      errorMessage := "route resolve failed: local gateway id is empty" }
  else match r.onlineStatusCache, r.discovery with
    | none, _ =>
      { status := .dependencyUnavailable
        errorMessage := "route resolve failed: online status cache is null" }
    | some _, none =>
      { status := .dependencyUnavailable
        errorMessage := "route resolve failed: gateway discovery is null" }
    | some cache, some findById => r.resolveOnlineStatus findById (cache.getOnlineStatus db userId)

def resolveBatch (db : Redis) (userIds : List ℕ) : List (GatewayRouteResult γ) :=
  if OnlineStatusCache.kMaxGetBatchSize < userIds.length then
    userIds.map fun _ =>
      { status := .invalidArgument, errorMessage := "route batch failed: batch exceeds 256 users" }
  else if userIds = [] then []
  else match r.onlineStatusCache, r.discovery with
    | some cache, some findById =>
      if r.localGatewayId = "" then userIds.map (r.resolve db)
      else
        let online := cache.getOnlineStatusBatch db userIds
        if online.length ≠ userIds.length then
          userIds.map fun _ =>
            { status := .onlineStatusError
              errorMessage := "route batch failed: unexpected result cardinality" }
        else
          List.zipWith (fun userId status =>
            if userId = 0 then r.resolve db 0 else r.resolveOnlineStatus findById status)
            userIds online
    | _, _ => userIds.map (r.resolve db)

theorem resolveBatch_eq (db : Redis) {userIds : List ℕ}
    (hlen : userIds.length ≤ OnlineStatusCache.kMaxGetBatchSize) :
    r.resolveBatch db userIds = userIds.map (r.resolve db) := by
  rw [resolveBatch, if_neg (Nat.not_lt.2 hlen)]
  split
  · next hnil => rw [hnil, List.map_nil]
  · split
    · next cache findById hcache hdiscovery =>
      split
      · rfl
      · next hlocal =>
        simp only [cache.getOnlineStatusBatch_eq db hlen, List.length_map, ne_eq, not_true_eq_false,
          if_false]
        rw [List.zipWith_map_right, List.zipWith_self]
        refine List.map_congr_left fun userId _ => ?_
        split
        · next hzero => rw [hzero]
        · next hzero => simp [resolve, hzero, hlocal, hcache, hdiscovery]
    · rfl

end GatewayRouteResolver

open OnlineStatusCache in
/-- Batches of presences, routes and refreshes answer at every position as the single calls do, and
batches of refreshes leave the same keys and expiries.  A reply of another length, or with an unknown
tag, fails every item that was sent, and no reply gives a user the record of another.  The batch of
refreshes runs the text of the single script. -/
theorem presence_batches_agree (c : OnlineStatusCache) :
    (∀ (db : Redis) (userIds : List ℕ), userIds.length ≤ 256 →
      c.getOnlineStatusBatch db userIds = userIds.map (c.getOnlineStatus db)) ∧
    (∀ (γ : Type) (r : GatewayRouteResolver γ) (db : Redis) (userIds : List ℕ),
      userIds.length ≤ 256 → r.resolveBatch db userIds = userIds.map (r.resolve db)) ∧
    (∀ (now : ℕ) (requests : List OnlineStatusRefreshRequest) (db : Redis), requests.length ≤ 16 →
      (c.refreshOnlineIfMatchBatch now requests db).1.map RefreshOnlineIfMatchResult.status =
          (c.refreshEach now requests db).1.map RefreshOnlineIfMatchResult.status ∧
        (c.refreshOnlineIfMatchBatch now requests db).2 = (c.refreshEach now requests db).2) ∧
    (∀ (userIds : List ℕ) (values : List String),
      (values.length ≠ (userIds.filter (· ≠ 0)).length * 2 ∨
        ∃ answer ∈ pairs values, knownTag answer.1 = false) →
      ∃ reason, c.assignStatuses userIds (.ok values) = userIds.map fun userId =>
        if userId = 0 then invalidUser else ⟨.redisError, none, reason⟩) ∧
    (∀ (userIds : List ℕ) (reply : Except String (List String)),
      List.Forall₂ (fun userId result => ∀ record, result.record = some record →
        record.userId = userId) userIds (c.assignStatuses userIds reply)) ∧
    (∀ (requests : List OnlineStatusRefreshRequest) (codes : List String),
      codes.length ≠ (requests.filter fun request => (invalid request).isNone).length →
      ∃ reason, assignRefreshes requests (.ok codes) = requests.map fun request =>
        if (invalid request).isNone then ⟨.redisError, reason⟩ else invalidRequest request) ∧
    kRefreshOnlineIfMatchScript.toList = scriptBody "KEYS[1]" "ARGV[1]" "ARGV[2]" "ARGV[3]" ∧
    refreshOnlineBatchScript =
      "local function refresh_one(key,gateway,connection,ttl)\n".toList ++
        scriptBody "key" "gateway" "connection" "ttl" ++
      ("\nend\nlocal results=\x7b\x7d\nfor i=1,#KEYS do\n" ++
        "local ok,result=pcall(refresh_one,KEYS[i],ARGV[3*i-2],ARGV[3*i-1],ARGV[3*i])\n" ++
        "if ok then results[i]=tostring(result) else results[i]='redis_error' end\nend\n" ++
        "return results").toList :=
  ⟨fun db _ hlen => c.getOnlineStatusBatch_eq db hlen, fun _ r db _ hlen => r.resolveBatch_eq db hlen,
    fun now _ db hlen => c.refreshOnlineIfMatchBatch_eq now hlen db,
    fun _ _ h => c.assignStatuses_malformed h, c.assignStatuses_own,
    fun _ _ h => assignRefreshes_malformed h, single_script_body, batch_script_body⟩

def sampleText : String :=
  "\x7b\"connection_name\":\"c\",\"gateway_id\":\"g\",\"login_time\":5,\"user_id\":1\x7d"

def sampleCache : OnlineStatusCache where
  json :=
    { decode := fun text => if text = sampleText then some (.string "g", .string "c") else none
      parse := fun text => if text = sampleText then .ok ⟨1, "g", "c", 5⟩ else .error "parse error" }
  unavailable := none
  evalError := "WRONGTYPE"
  keyPrefix := "tinyimx:online:"

def sampleDb : Redis := fun key =>
  if key = "tinyimx:online:1" then some ⟨.string sampleText, some 10⟩
  else if key = "tinyimx:online:3" then some ⟨.other, none⟩
  else none

theorem presence_batches_agree_sample :
    (sampleCache.getOnlineStatusBatch sampleDb [1, 0, 2, 3, 1] =
        [1, 0, 2, 3, 1].map (sampleCache.getOnlineStatus sampleDb) ∧
      (sampleCache.getOnlineStatusBatch sampleDb [1, 0, 2, 3, 1]).map GetOnlineStatusResult.status =
        [.found, .invalidArgument, .notFound, .redisError, .found]) ∧
    (sampleCache.refreshOnlineIfMatchBatch 20 [⟨1, "g", "c", 5⟩, ⟨3, "g", "", 5⟩, ⟨1, "h", "c", 7⟩]
        sampleDb).1.map OnlineStatusCache.RefreshOnlineIfMatchResult.status =
      (sampleCache.refreshEach 20 [⟨1, "g", "c", 5⟩, ⟨3, "g", "", 5⟩, ⟨1, "h", "c", 7⟩]
        sampleDb).1.map OnlineStatusCache.RefreshOnlineIfMatchResult.status ∧
    ∃ reason, sampleCache.assignStatuses [0, 2] (.ok ["lost", ""]) =
      [0, 2].map fun userId =>
        if userId = 0 then OnlineStatusCache.invalidUser else ⟨.redisError, none, reason⟩ := by
  refine ⟨⟨(presence_batches_agree sampleCache).1 sampleDb _ (by decide), by decide +kernel⟩, ?_, ?_⟩
  · exact ((presence_batches_agree sampleCache).2.2.1 20 _ sampleDb (by decide)).1
  · exact (presence_batches_agree sampleCache).2.2.2.1 [0, 2] ["lost", ""]
      (.inr ⟨("lost", ""), by decide, by decide⟩)

end TinyImx.Gateway
