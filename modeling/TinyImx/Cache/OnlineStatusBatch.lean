import TinyImx.Cache.OnlineStatus

/-!
# A batch of presences is the presences one by one

Each batch sends the items that pass their checks, and its script does for each key what the single
call does for it.  The answers are matched to the items by `Positions`.
-/

namespace TinyImx.Cache.OnlineStatusCache

open Positions (indices write fill)

variable (c : OnlineStatusCache)

/-! ## Reads -/

def answer (db : Redis) (key : String) : String × String :=
  match db.get key with
  | .error => ("error", "")
  | .ok none => ("missing", "")
  | .ok (some value) => ("value", value)

theorem getScript_cons (db : Redis) (key : String) (keys : List String) :
    getScript db (key :: keys) = (answer db key).1 :: (answer db key).2 :: getScript db keys := by
  rw [getScript, answer]
  cases db.get key with
  | error => rfl
  | ok value => cases value <;> rfl

theorem pairs_getScript (db : Redis) (keys : List String) :
    pairs (getScript db keys) = keys.map (answer db) := by
  induction keys with
  | nil => rfl
  | cons key keys ih => rw [getScript_cons, pairs, ih, List.map_cons]

theorem length_getScript (db : Redis) (keys : List String) :
    (getScript db keys).length = keys.length * 2 := by
  induction keys with
  | nil => rfl
  | cons key keys ih =>
    rw [getScript_cons, List.length_cons, List.length_cons, ih, List.length_cons]
    omega

theorem knownTag_answer (db : Redis) (key : String) : knownTag (answer db key).1 = true := by
  rw [answer]
  split <;> rfl

theorem tagged_answer {userId : ℕ} (db : Redis) (huser : userId ≠ 0) (hpool : c.unavailable = none) :
    c.tagged userId (answer db (c.buildKey userId)).1 (answer db (c.buildKey userId)).2 =
      c.getOnlineStatus db userId := by
  rw [getOnlineStatus, if_neg huser, hpool, answer]
  cases db.get (c.buildKey userId) with
  | error => rfl
  | ok value =>
    cases value with
    | none => rfl
    | some value => rfl

theorem assignStatuses_fail (userIds : List ℕ) (reason : String) :
    write (userIds.map beforeReply) (indices (· ≠ 0) 0 userIds)
        (List.replicate (indices (· ≠ 0) 0 userIds).length ⟨.redisError, none, reason⟩) =
      userIds.map fun userId => if userId = 0 then invalidUser else ⟨.redisError, none, reason⟩ := by
  rw [Positions.write_replicate]
  refine List.map_congr_left fun userId _ => ?_
  by_cases h : userId = 0
  · simp [h, beforeReply]
  · simp [h]

theorem getOnlineStatusBatch_eq (db : Redis) {userIds : List ℕ}
    (hlen : userIds.length ≤ kMaxGetBatchSize) :
    c.getOnlineStatusBatch db userIds = userIds.map (c.getOnlineStatus db) := by
  rw [getOnlineStatusBatch, if_neg (Nat.not_lt.2 hlen)]
  by_cases hempty : (userIds.filter (· ≠ 0)).map c.buildKey = []
  · rw [if_pos hempty]
    refine List.map_congr_left fun userId hmem => ?_
    have hzero : userId = 0 := by
      by_contra hne
      rw [List.map_eq_nil_iff, List.filter_eq_nil_iff] at hempty
      exact hempty userId hmem (by simpa using hne)
    simp [hzero, beforeReply, getOnlineStatus]
  · rw [if_neg hempty]
    cases hpool : c.unavailable with
    | some reason =>
      simp only [assignStatuses]
      rw [assignStatuses_fail]
      refine List.map_congr_left fun userId _ => ?_
      simp [getOnlineStatus, hpool]
    | none =>
      simp only [assignStatuses]
      rw [if_neg, if_neg, Positions.write_indices, pairs_getScript, List.map_map]
      · have hzip : List.zipWith (fun userId answer => c.tagged userId answer.1 answer.2)
            (userIds.filter (· ≠ 0)) ((userIds.filter (· ≠ 0)).map (answer db ∘ c.buildKey)) =
            (userIds.filter (· ≠ 0)).map (c.getOnlineStatus db) := by
          rw [List.zipWith_map_right, List.zipWith_self]
          refine List.map_congr_left fun userId hmem => ?_
          have huser : userId ≠ 0 := by simpa using (List.mem_filter.1 hmem).2
          exact c.tagged_answer db huser hpool
        rw [hzip, Positions.fill_map]
        refine List.map_congr_left fun userId _ => ?_
        by_cases h : userId = 0
        · simp [h, beforeReply, getOnlineStatus]
        · simp [h]
      · rw [pairs_getScript]
        simp [knownTag_answer]
      · rw [length_getScript, List.length_map, Positions.length_indices]
        simp

theorem assignStatuses_malformed {userIds : List ℕ} {values : List String}
    (h : values.length ≠ (userIds.filter (· ≠ 0)).length * 2 ∨
      ∃ answer ∈ pairs values, knownTag answer.1 = false) :
    ∃ reason, c.assignStatuses userIds (.ok values) = userIds.map fun userId =>
      if userId = 0 then invalidUser else ⟨.redisError, none, reason⟩ := by
  simp only [assignStatuses, Positions.length_indices]
  by_cases hlen : values.length = (userIds.filter (· ≠ 0)).length * 2
  · have htag := h.resolve_left fun hne => hne hlen
    rw [if_neg (fun hne => hne hlen), if_pos (by simpa using htag)]
    exact ⟨_, by rw [← Positions.length_indices _ 0, assignStatuses_fail]⟩
  · rw [if_pos hlen]
    exact ⟨_, by rw [← Positions.length_indices _ 0, assignStatuses_fail]⟩

theorem deserialize_record {userId : ℕ} {value : String} {r : OnlineStatusRecord}
    (h : (c.deserialize userId value).record = some r) : r.userId = userId := by
  rw [deserialize] at h
  split at h
  · cases h
  · next record _ =>
    grind

theorem assignStatuses_own (userIds : List ℕ) (reply : Except String (List String)) :
    List.Forall₂ (fun userId result => ∀ r, result.record = some r → r.userId = userId) userIds
      (c.assignStatuses userIds reply) := by
  have hbad : ∀ userId r, (beforeReply userId).record = some r → r.userId = userId := by
    intro userId r h
    rw [beforeReply] at h
    split at h <;> cases h
  have hfail : ∀ reason : String, List.Forall₂
      (fun userId result => ∀ r, GetOnlineStatusResult.record result = some r → r.userId = userId) userIds
      (userIds.map fun userId => if userId = 0 then invalidUser else ⟨.redisError, none, reason⟩) := by
    intro reason
    rw [List.forall₂_map_right_iff]
    refine List.forall₂_same.2 fun userId _ r h => ?_
    split at h <;> cases h
  cases reply with
  | error e =>
    simp only [assignStatuses]
    rw [assignStatuses_fail]
    exact hfail e
  | ok values =>
    simp only [assignStatuses]
    split
    · rw [assignStatuses_fail]
      exact hfail _
    · split
      · rw [assignStatuses_fail]
        exact hfail _
      · rw [Positions.write_indices]
        refine Positions.forall₂_fill hbad (fun userId answer r h => ?_) userIds (pairs values)
        rw [tagged] at h
        split at h
        · cases h
        · split at h
          · cases h
          · exact c.deserialize_record h

/-! ## Refreshes -/

variable {c} in
theorem refreshOne_le {db : Redis} {now n : ℕ} {key gateway connection : String} {ttl : ℤ}
    (h : (c.refreshOne db now key gateway connection ttl).1 = .ok n) : n ≤ 5 := by
  rw [refreshOne] at h
  split at h
  · cases h
  · cases h
    decide
  · split at h
    · cases h
      decide
    · split at h
      · cases h
        decide
      · split at h
        · cases h
          decide
        · dsimp only at h
          split at h <;> cases h <;> decide

theorem coded_status {n : ℕ} (h : n ≤ 5) :
    (coded (toString n)).status = (refreshResult n).status := by
  match n, h with
  | 0, _ | 1, _ | 2, _ | 3, _ | 4, _ | 5, _ => rfl

theorem refreshScript_spec (hpool : c.unavailable = none) (now : ℕ)
    (requests : List OnlineStatusRefreshRequest) (db : Redis) :
    (fill (fun request => (invalid request).isNone) invalidRequest requests
        ((c.refreshScript now (requests.filter fun request => (invalid request).isNone) db).1.map
          coded)).map RefreshOnlineIfMatchResult.status =
      (c.refreshEach now requests db).1.map RefreshOnlineIfMatchResult.status ∧
    (c.refreshScript now (requests.filter fun request => (invalid request).isNone) db).2 =
      (c.refreshEach now requests db).2 := by
  induction requests generalizing db with
  | nil => simp [fill, refreshEach, refreshScript]
  | cons request requests ih =>
    cases hinvalid : invalid request with
    | some reason =>
      have hfilter : (request :: requests).filter (fun request => (invalid request).isNone) =
          requests.filter fun request => (invalid request).isNone :=
        List.filter_cons_of_neg (by simp [hinvalid])
      have hsingle : c.refreshOnlineIfMatch now request db = (invalidRequest request, db) := by
        simp [refreshOnlineIfMatch, hinvalid]
      rw [hfilter, Positions.fill_cons_of_not _ (by simp [hinvalid]), refreshEach, hsingle]
      simpa using ih db
    | none =>
      have hfilter : (request :: requests).filter (fun request => (invalid request).isNone) =
          request :: requests.filter fun request => (invalid request).isNone :=
        List.filter_cons_of_pos (by simp [hinvalid])
      rw [hfilter, refreshScript, refreshEach, refreshOnlineIfMatch, hinvalid, hpool]
      cases hone : c.refreshOne db now (c.buildKey request.userId) request.gatewayId
          request.connectionName request.ttlSeconds with
      | mk result db' =>
        cases result with
        | error =>
          simp only [List.map_cons, fill, hinvalid, Option.isNone_none, if_true, Option.isSome_none,
            Bool.false_eq_true, if_false]
          exact ⟨congrArg₂ List.cons (by decide) (ih db').1, (ih db').2⟩
        | ok n =>
          have hn : n ≤ 5 := refreshOne_le (congrArg Prod.fst hone)
          simp only [List.map_cons, fill, hinvalid, Option.isNone_none, if_true, Option.isSome_none,
            Bool.false_eq_true, if_false]
          exact ⟨congrArg₂ List.cons (coded_status hn) (ih db').1, (ih db').2⟩

theorem length_refreshScript (now : ℕ) (requests : List OnlineStatusRefreshRequest) (db : Redis) :
    (c.refreshScript now requests db).1.length = requests.length := by
  induction requests generalizing db with
  | nil => rfl
  | cons request requests ih =>
    rw [refreshScript]
    simp [ih]

theorem assignRefreshes_fail (requests : List OnlineStatusRefreshRequest) (reason : String) :
    write (requests.map invalidRequest)
        (indices (fun request => (invalid request).isNone) 0 requests)
        (List.replicate (indices (fun request => (invalid request).isNone) 0 requests).length
          ⟨.redisError, reason⟩) =
      requests.map fun request =>
        if (invalid request).isNone then ⟨.redisError, reason⟩ else invalidRequest request :=
  Positions.write_replicate _ _ _ _

theorem refreshEach_unavailable {reason : String} (hpool : c.unavailable = some reason) (now : ℕ)
    (requests : List OnlineStatusRefreshRequest) (db : Redis) :
    c.refreshEach now requests db = (requests.map fun request =>
      if (invalid request).isNone then ⟨.redisError, refreshFailed reason⟩
      else invalidRequest request, db) := by
  induction requests with
  | nil => rfl
  | cons request requests ih =>
    rw [refreshEach, refreshOnlineIfMatch, hpool]
    cases hinvalid : invalid request <;> simp [ih, hinvalid]

variable {requests : List OnlineStatusRefreshRequest}

theorem refreshEach_invalid
    (h : ∀ request ∈ requests, (invalid request).isSome = true) (now : ℕ) (db : Redis) :
    c.refreshEach now requests db = (requests.map invalidRequest, db) := by
  induction requests with
  | nil => rfl
  | cons request requests ih =>
    have hrest := ih fun other hmem => h other (List.mem_cons_of_mem request hmem)
    rw [refreshEach, refreshOnlineIfMatch, if_pos (h request List.mem_cons_self)]
    simp only [hrest, List.map_cons]

theorem refreshOnlineIfMatchBatch_eq (now : ℕ)
    (hlen : requests.length ≤ kMaxRefreshBatchSize) (db : Redis) :
    (c.refreshOnlineIfMatchBatch now requests db).1.map RefreshOnlineIfMatchResult.status =
        (c.refreshEach now requests db).1.map RefreshOnlineIfMatchResult.status ∧
      (c.refreshOnlineIfMatchBatch now requests db).2 = (c.refreshEach now requests db).2 := by
  rw [refreshOnlineIfMatchBatch]
  by_cases hnil : requests = []
  · subst hnil
    exact ⟨rfl, rfl⟩
  · rw [if_neg hnil, if_neg (Nat.not_lt.2 hlen)]
    by_cases hempty : requests.filter (fun request => (invalid request).isNone) = []
    · have hall : ∀ request ∈ requests, (invalid request).isSome = true := by
        intro request hmem
        rw [List.filter_eq_nil_iff] at hempty
        simpa [Option.isSome_iff_ne_none] using hempty request hmem
      rw [if_pos hempty, c.refreshEach_invalid hall]
      exact ⟨rfl, rfl⟩
    · rw [if_neg hempty]
      cases hpool : c.unavailable with
      | some reason =>
        simp only [assignRefreshes]
        rw [assignRefreshes_fail, c.refreshEach_unavailable hpool]
        exact ⟨rfl, rfl⟩
      | none =>
        obtain ⟨hstatus, hdb⟩ := c.refreshScript_spec hpool now requests db
        simp only [assignRefreshes, length_refreshScript, Positions.length_indices]
        rw [if_neg (fun h => h rfl), Positions.write_indices]
        exact ⟨hstatus, hdb⟩

theorem assignRefreshes_malformed {codes : List String}
    (h : codes.length ≠ (requests.filter fun request => (invalid request).isNone).length) :
    ∃ reason, assignRefreshes requests (.ok codes) = requests.map fun request =>
      if (invalid request).isNone then ⟨.redisError, reason⟩ else invalidRequest request := by
  simp only [assignRefreshes, Positions.length_indices]
  rw [if_pos h]
  exact ⟨_, by rw [← Positions.length_indices _ 0, assignRefreshes_fail]⟩

/-- The two scripts have one body: the batch runs the text of the single script with its key and
arguments replaced by the parameters of a function. -/
def scriptBody (key gateway connection ttl : String) : List Char :=
  ("\n    local value = redis.call('GET', " ++ key ++ ")\n\n    if not value then\n" ++
  "        return 0\n    end\n\n    local decode_ok, record =\n        pcall(cjson.decode, value)\n" ++
  "\n    if not decode_ok or\n    type(record) ~= 'table' then\n        return 3\n    end\n\n" ++
  "    if record['gateway_id'] ~= " ++ gateway ++ " or\n    record['connection_name'] ~= " ++
  connection ++ " then\n        return 2\n    end\n\n    local ttl_seconds =\n        tonumber(" ++
  ttl ++ ")\n\n    if not ttl_seconds or\n    ttl_seconds <= 0 then\n        return 4\n    end\n" ++
  "\n    local expire_result =\n        redis.call(\n            'EXPIRE',\n            " ++ key ++
  ",\n            ttl_seconds\n        )\n\n    if expire_result ~= 1 then\n        return 5\n" ++
  "    end\n\n    return 1\n").toList

-- The texts become lists of characters first: the kernel is slow on the bytes of a string.
theorem single_script_body :
    kRefreshOnlineIfMatchScript.toList = scriptBody "KEYS[1]" "ARGV[1]" "ARGV[2]" "ARGV[3]" := by
  unfold kRefreshOnlineIfMatchScript scriptBody
  repeat rewrite [String.toList_append]
  repeat rewrite [String.toList_ofList]
  decide +kernel

theorem replaced_body :
    replacements.foldl (fun body replacement =>
        replaceAll replacement.1.toList replacement.2.toList body.length body)
      kRefreshOnlineIfMatchScript.toList = scriptBody "key" "gateway" "connection" "ttl" := by
  unfold replacements kRefreshOnlineIfMatchScript scriptBody
  rewrite [List.foldl_cons, List.foldl_cons, List.foldl_cons, List.foldl_cons, List.foldl_nil]
  repeat rewrite [String.toList_append]
  repeat rewrite [String.toList_ofList]
  decide +kernel

theorem batch_script_body : refreshOnlineBatchScript =
    "local function refresh_one(key,gateway,connection,ttl)\n".toList ++
      scriptBody "key" "gateway" "connection" "ttl" ++
    ("\nend\nlocal results=\x7b\x7d\nfor i=1,#KEYS do\n" ++
      "local ok,result=pcall(refresh_one,KEYS[i],ARGV[3*i-2],ARGV[3*i-1],ARGV[3*i])\n" ++
      "if ok then results[i]=tostring(result) else results[i]='redis_error' end\nend\n" ++
      "return results").toList := by
  have hsuffix : ("\nend\nlocal results=\x7b\x7d\nfor i=1,#KEYS do\n" ++
      "local ok,result=pcall(refresh_one,KEYS[i],ARGV[3*i-2]," ++
      "ARGV[3*i-1],ARGV[3*i])\n" ++
      "if ok then results[i]=tostring(result) " ++
      "else results[i]='redis_error' end\nend\nreturn results").toList =
    ("\nend\nlocal results=\x7b\x7d\nfor i=1,#KEYS do\n" ++
      "local ok,result=pcall(refresh_one,KEYS[i],ARGV[3*i-2],ARGV[3*i-1],ARGV[3*i])\n" ++
      "if ok then results[i]=tostring(result) else results[i]='redis_error' end\nend\n" ++
      "return results").toList := by
    repeat rewrite [String.toList_append]
    repeat rewrite [String.toList_ofList]
    decide +kernel
  rewrite [← hsuffix, ← replaced_body]
  unfold refreshOnlineBatchScript
  exact Eq.refl _

end TinyImx.Cache.OnlineStatusCache
