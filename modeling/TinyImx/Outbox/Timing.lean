import Mathlib.Algebra.Order.Ring.Abs
import Mathlib.Algebra.Order.Ring.Int
import Mathlib.Data.Nat.Cast.Order.Ring
import Mathlib.Tactic.Ring
import TinyImx.Outbox.Relay

/-!
# Timing of the outbox

`ValidateOptions` and `ComputeRetryDelayForTest` on the integers of the machine.  A signed product that
does not fit is what the machine leaves of it, modulo `2 ^ 32`.
-/

namespace TinyImx.Outbox.Timing

/-! ## Options -/

/-- `OutboxRelayOptions`. -/
structure RelayOptions where
  instanceId : String := "outbox-relay-1"
  allowedTopic : String := "tinyimx-message-events"
  batchSize : ℕ := 32
  publishBatchSize : ℕ := 1
  workerThreads : ℕ := 4
  maxInflight : ℕ := 128
  pollIntervalMs : Int32 := 100
  leaseMs : Int32 := 30000
  leaseRenewIntervalMs : Int32 := 5000
  retryBaseMs : Int32 := 200
  retryMaxMs : Int32 := 30000
  publishedRetentionHours : Int32 := 168
  cleanupIntervalMs : Int32 := 60000
  cleanupBatchSize : ℕ := 1000

def kMaxWorkers : ℕ := 64

def kMaxBatchSize : ℕ := 1024

def kMaxInflight : ℕ := 8192

def kMaxLeaseMs : Int32 := 10 * 60 * 1000

/-- The checks of `ValidateOptions` in order, with what each one fails with; `store` and `publisher` say
whether there is one. -/
def checks (store publisher : Bool) (o : RelayOptions) : List (Bool × String) :=
  [(!store, "outbox relay requires a store"),
    (!publisher, "outbox relay requires a publisher"),
    (o.instanceId.utf8ByteSize = 0 || 64 < o.instanceId.utf8ByteSize,
      "outbox relay instance_id must be 1-64 characters"),
    (o.allowedTopic.utf8ByteSize = 0 || 128 < o.allowedTopic.utf8ByteSize,
      "outbox relay allowed_topic is invalid"),
    (o.batchSize = 0 || kMaxBatchSize < o.batchSize, "outbox relay batch_size is invalid"),
    (o.workerThreads = 0 || kMaxWorkers < o.workerThreads, "outbox relay worker_threads is invalid"),
    (o.publishBatchSize = 0 || 64 < o.publishBatchSize || o.maxInflight < o.publishBatchSize,
      "outbox relay publish_batch_size is invalid"),
    (o.maxInflight < o.workerThreads || o.maxInflight < o.batchSize || kMaxInflight < o.maxInflight,
      "outbox relay max_inflight must cover workers and batch_size"),
    (o.pollIntervalMs ≤ 0, "outbox relay poll_interval_ms must be positive"),
    (o.leaseMs ≤ 0 || kMaxLeaseMs < o.leaseMs, "outbox relay lease_ms is invalid"),
    (o.leaseRenewIntervalMs ≤ 0 || o.leaseMs ≤ o.leaseRenewIntervalMs * 3,
      "outbox relay lease must be more than 3x renew interval"),
    (o.retryBaseMs ≤ 0 || o.retryMaxMs < o.retryBaseMs, "outbox relay retry window is invalid"),
    (o.publishedRetentionHours ≤ 0 || o.cleanupIntervalMs ≤ 0 || o.cleanupBatchSize = 0,
      "outbox relay cleanup configuration is invalid")]

def validateOptions (store publisher : Bool) (o : RelayOptions) : Except String Unit :=
  match (checks store publisher o).find? Prod.fst with
  | some (_, message) => .error message
  | none => .ok ()

theorem not_failed_of_ok {store publisher : Bool} {o : RelayOptions}
    (h : validateOptions store publisher o = .ok ()) : ∀ c ∈ checks store publisher o, c.1 = false := by
  unfold validateOptions at h
  grind

theorem lease_of_ok {store publisher : Bool} {o : RelayOptions}
    (h : validateOptions store publisher o = .ok ()) :
    o.leaseMs ≤ kMaxLeaseMs ∧ 0 < o.leaseRenewIntervalMs ∧ o.leaseRenewIntervalMs * 3 < o.leaseMs := by
  have hlease := not_failed_of_ok h (o.leaseMs ≤ 0 || kMaxLeaseMs < o.leaseMs,
    "outbox relay lease_ms is invalid") (by simp [checks])
  have hrenew := not_failed_of_ok h (o.leaseRenewIntervalMs ≤ 0 || o.leaseMs ≤ o.leaseRenewIntervalMs * 3,
    "outbox relay lease must be more than 3x renew interval") (by simp [checks])
  simp_all

theorem lease_iff {store publisher : Bool} {o : RelayOptions}
    (h : validateOptions store publisher o = .ok ()) :
    3 * o.leaseRenewIntervalMs.toInt < o.leaseMs.toInt ↔
      o.leaseRenewIntervalMs.toInt ≤ 715827882 := by
  obtain ⟨hmax, hpos, hlt⟩ := lease_of_ok h
  rw [Int32.le_iff_toInt_le] at hmax
  rw [Int32.lt_iff_toInt_lt] at hpos hlt
  rw [Int32.toInt_mul] at hlt
  have hmax' : kMaxLeaseMs.toInt = 600000 := by decide
  have hthree : (3 : Int32).toInt = 3 := by decide
  have hzero : (0 : Int32).toInt = 0 := by decide
  rw [hmax'] at hmax
  rw [hzero] at hpos
  rw [hthree] at hlt
  constructor
  · intro hlease
    omega
  · intro hle
    -- the product fits, so that the check is one of integers
    rw [Int.bmod_eq_of_le (by omega) (by omega)] at hlt
    omega

/-! ## Retry delays -/

def doubled (maxMs : UInt64) : ℕ → UInt64 → UInt64
  | 0, delay => delay
  | n + 1, delay =>
    if maxMs ≤ delay then maxMs
    else doubled maxMs n (if delay * 2 < maxMs then delay * 2 else maxMs)

def clamp (v lo hi : Int64) : Int64 := if v < lo then lo else if hi < v then hi else v

/-- `ComputeRetryDelayForTest`, with the library's hash of a string. -/
def computeRetryDelayForTest (hash : String → UInt64) (eventId : String) (nextAttemptCount : UInt32)
    (baseMs maxMs : Int32) : Int32 :=
  if baseMs ≤ 0 || maxMs < baseMs then 0
  else
    let exponent : UInt32 := if 0 < nextAttemptCount then nextAttemptCount - 1 else 0
    let delay := doubled (UInt64.ofInt maxMs.toInt) (min exponent.toNat 30) (UInt64.ofInt baseMs.toInt)
    let seed := eventId ++ ":" ++ toString nextAttemptCount.toNat
    let bucket : Int32 := Int32.ofInt (hash seed % 401).toNat - 200
    let jittered := Int64.ofInt delay.toNat + Int64.ofInt delay.toNat * Int64.ofInt bucket.toInt / 1000
    Int32.ofInt (clamp jittered 1 (Int64.ofInt maxMs.toInt)).toInt

def uncapped (nextAttemptCount : UInt32) (baseMs maxMs : Int32) : ℤ :=
  min maxMs.toInt (baseMs.toInt * 2 ^ min (nextAttemptCount.toNat - 1) 30)

def bucketOf (hash : String → UInt64) (eventId : String) (nextAttemptCount : UInt32) : ℤ :=
  ((hash (eventId ++ ":" ++ toString nextAttemptCount.toNat)).toNat % 401 : ℕ) - 200

theorem backoff_le {maxMs delay : ℕ} (n : ℕ) (h : delay ≤ maxMs) : backoff maxMs n delay ≤ maxMs := by
  induction n generalizing delay with
  | zero => exact h
  | succ n ih =>
    rw [backoff]
    grind

theorem backoff_eq {maxMs delay : ℕ} (n : ℕ) (h : delay ≤ maxMs) :
    backoff maxMs n delay = min maxMs (delay * 2 ^ n) := by
  induction n generalizing delay with
  | zero => simp [backoff, h]
  | succ n ih =>
    rw [backoff]
    split
    · next hle =>
      have hgrow : delay ≤ delay * 2 ^ (n + 1) := Nat.le_mul_of_pos_right _ (Nat.two_pow_pos _)
      omega
    · rw [ih (Nat.min_le_left _ _)]
      rcases Nat.le_total maxMs (delay * 2) with hcap | hcap
      · have hmax : maxMs ≤ maxMs * 2 ^ n := Nat.le_mul_of_pos_right _ (Nat.two_pow_pos _)
        have hdelay : delay * 2 * 2 ^ n = delay * 2 ^ (n + 1) := by ring
        have hmono : delay * 2 ≤ delay * 2 * 2 ^ n := Nat.le_mul_of_pos_right _ (Nat.two_pow_pos _)
        rw [Nat.min_eq_left hcap]
        omega
      · rw [Nat.min_eq_right hcap, Nat.mul_assoc, ← Nat.pow_succ']

theorem toNat_doubled {maxMs delay : UInt64} (n : ℕ) (h : delay.toNat ≤ maxMs.toNat)
    (hmax : maxMs.toNat < 2147483648) :
    (doubled maxMs n delay).toNat = backoff maxMs.toNat n delay.toNat := by
  induction n generalizing delay with
  | zero => rfl
  | succ n ih =>
    have hdouble : (delay * 2).toNat = delay.toNat * 2 := by
      rw [UInt64.toNat_mul]
      exact Nat.mod_eq_of_lt (by change delay.toNat * 2 < _; omega)
    rw [doubled, backoff]
    by_cases hle : maxMs ≤ delay
    · rw [if_pos hle, if_pos (UInt64.le_iff_toNat_le.1 hle)]
    · rw [if_neg hle, if_neg fun hn => hle (UInt64.le_iff_toNat_le.2 hn)]
      split
      · next hlt =>
        rw [UInt64.lt_iff_toNat_lt, hdouble] at hlt
        rw [ih (by rw [hdouble]; omega), hdouble, Nat.min_eq_right hlt.le]
      · next hlt =>
        rw [UInt64.lt_iff_toNat_lt, hdouble, Nat.not_lt] at hlt
        rw [ih (Nat.le_refl _), Nat.min_eq_left hlt]

theorem jitter_le {delay bucket : ℤ} (hdelay : 0 ≤ delay) (hlo : -200 ≤ bucket) (hhi : bucket ≤ 200) :
    |(delay * bucket).tdiv 1000| ≤ delay / 5 := by
  have habs : (delay * bucket).natAbs ≤ delay.natAbs * 200 := by
    rw [Int.natAbs_mul]
    exact Nat.mul_le_mul_left _ (by omega)
  have hdiv : ((delay * bucket).tdiv 1000).natAbs = (delay * bucket).natAbs / 1000 :=
    Int.natAbs_tdiv _ _
  rw [Int.abs_eq_natAbs, hdiv]
  omega

theorem toNat_ofInt {x : ℤ} (hlo : 0 ≤ x) (hhi : x < 18446744073709551616) :
    (UInt64.ofInt x).toNat = x.toNat := by
  rw [UInt64.ofInt, UInt64.toNat_ofNat']
  grind

theorem toInt_ofInt {x : ℤ} (hlo : -9223372036854775808 ≤ x) (hhi : x < 9223372036854775808) :
    (Int64.ofInt x).toInt = x :=
  Int64.toInt_ofInt_of_le hlo hhi

theorem toInt_clamp {v hi : Int64} (hhi : 1 ≤ hi.toInt) :
    (clamp v 1 hi).toInt = min (max v.toInt 1) hi.toInt := by
  have hone : (1 : Int64).toInt = 1 := by decide
  unfold clamp
  split
  · next hlo =>
    rw [Int64.lt_iff_toInt_lt, hone] at hlo
    rw [hone]
    omega
  · next hlo =>
    rw [Int64.lt_iff_toInt_lt, hone] at hlo
    split
    · next hcap =>
      rw [Int64.lt_iff_toInt_lt] at hcap
      omega
    · next hcap =>
      rw [Int64.lt_iff_toInt_lt] at hcap
      omega

section

variable (hash : String → UInt64) (eventId : String) (nextAttemptCount : UInt32) {baseMs maxMs : Int32}

theorem bucketOf_bounds : -200 ≤ bucketOf hash eventId nextAttemptCount ∧
    bucketOf hash eventId nextAttemptCount ≤ 200 := by
  unfold bucketOf
  omega

theorem toNat_exponent :
    (if 0 < nextAttemptCount then nextAttemptCount - 1 else 0).toNat = nextAttemptCount.toNat - 1 := by
  split
  · next hpos =>
    have hle : (1 : UInt32) ≤ nextAttemptCount := by
      rw [UInt32.le_iff_toNat_le]
      exact UInt32.lt_iff_toNat_lt.1 hpos
    simp_all
  · next hpos =>
    have hzero : ¬ 0 < nextAttemptCount.toNat := fun h => hpos (UInt32.lt_iff_toNat_lt.2 h)
    change 0 = _
    omega

theorem toInt_bucket : (Int32.ofInt (hash (eventId ++ ":" ++ toString nextAttemptCount.toNat) %
    401).toNat - 200).toInt = bucketOf hash eventId nextAttemptCount := by
  have hmod : (hash (eventId ++ ":" ++ toString nextAttemptCount.toNat) % 401).toNat =
      (hash (eventId ++ ":" ++ toString nextAttemptCount.toNat)).toNat % 401 :=
    UInt64.toNat_mod _ _
  have hlt : (hash (eventId ++ ":" ++ toString nextAttemptCount.toNat)).toNat % 401 < 401 :=
    Nat.mod_lt _ (by decide)
  have h200 : (200 : Int32).toInt = 200 := by decide
  rw [Int32.toInt_sub, hmod, h200, Int32.toInt_ofInt_of_le (by omega) (by omega), bucketOf]
  exact Int.bmod_eq_of_le (by omega) (by omega)

theorem backoff_uncapped (hbase : 0 < baseMs.toInt) (hmax : baseMs.toInt ≤ maxMs.toInt) :
    (backoff maxMs.toInt.toNat (min (nextAttemptCount.toNat - 1) 30) baseMs.toInt.toNat : ℤ) =
      uncapped nextAttemptCount baseMs maxMs := by
  rw [backoff_eq _ (Int.toNat_le_toNat hmax)]
  push_cast
  rw [Int.toNat_of_nonneg (by omega), Int.toNat_of_nonneg hbase.le]
  rfl

/-- The delay is computed as with integers, and no product or sum of 64 bits overflows on the way. -/
theorem retry_delay (hbase : 0 < baseMs.toInt) (hmax : baseMs.toInt ≤ maxMs.toInt) :
    let delay := uncapped nextAttemptCount baseMs maxMs
    let bucket := bucketOf hash eventId nextAttemptCount
    let jittered := delay + (delay * bucket).tdiv 1000
    (computeRetryDelayForTest hash eventId nextAttemptCount baseMs maxMs).toInt =
        min (max jittered 1) maxMs.toInt ∧
      |jittered - delay| ≤ delay / 5 ∧
      (∀ n, backoff maxMs.toInt.toNat n baseMs.toInt.toNat * 2 < 18446744073709551616) ∧
      (-9223372036854775808 ≤ delay * bucket ∧ delay * bucket < 9223372036854775808) ∧
      (-9223372036854775808 ≤ jittered ∧ jittered < 9223372036854775808) := by
  intro delay bucket jittered
  have hbound := Int32.toInt_lt maxMs
  obtain ⟨hlo, hhi⟩ := bucketOf_bounds hash eventId nextAttemptCount
  have hmaxNat : (UInt64.ofInt maxMs.toInt).toNat = maxMs.toInt.toNat := toNat_ofInt (by omega) (by omega)
  have hbaseNat : (UInt64.ofInt baseMs.toInt).toNat = baseMs.toInt.toNat :=
    toNat_ofInt (by omega) (by omega)
  have hle : baseMs.toInt.toNat ≤ maxMs.toInt.toNat := Int.toNat_le_toNat hmax
  have hdelay := backoff_uncapped nextAttemptCount hbase hmax
  have hbackoff := fun n => backoff_le n hle
  have hdelayBounds : 0 ≤ delay ∧ delay ≤ maxMs.toInt := by
    have := hbackoff (min (nextAttemptCount.toNat - 1) 30)
    omega
  have hjitter : |(delay * bucket).tdiv 1000| ≤ delay / 5 := jitter_le hdelayBounds.1 hlo hhi
  have habs := abs_le.1 hjitter
  have hproduct : |delay * bucket| ≤ delay * 200 := by
    rw [abs_mul, abs_of_nonneg hdelayBounds.1]
    exact Int.mul_le_mul_of_nonneg_left (abs_le.2 ⟨hlo, hhi⟩) hdelayBounds.1
  have hproductBounds := abs_le.1 hproduct
  have hresult : 1 ≤ min (max jittered 1) maxMs.toInt ∧ min (max jittered 1) maxMs.toInt ≤ maxMs.toInt := by
    omega
  refine ⟨?_, ?_, fun n => ?_, ⟨by omega, by omega⟩, ⟨by omega, by omega⟩⟩
  · have hguard : (baseMs ≤ 0 || maxMs < baseMs) = false := by
      simp only [Bool.or_eq_false_iff, decide_eq_false_iff_not, Int32.le_iff_toInt_le,
        Int32.lt_iff_toInt_lt]
      exact ⟨not_le.2 hbase, not_lt.2 hmax⟩
    have hdoubled : ((doubled (UInt64.ofInt maxMs.toInt) (min (nextAttemptCount.toNat - 1) 30)
        (UInt64.ofInt baseMs.toInt)).toNat : ℤ) = delay := by
      rw [toNat_doubled _ (by rw [hmaxNat, hbaseNat]; exact hle) (by omega), hmaxNat, hbaseNat, hdelay]
    have hmul : (Int64.ofInt delay * Int64.ofInt bucket).toInt = delay * bucket := by
      rw [Int64.toInt_mul, toInt_ofInt (by omega) (by omega), toInt_ofInt (by omega) (by omega)]
      exact Int.bmod_eq_of_le (by omega) (by omega)
    have hdiv : (Int64.ofInt delay * Int64.ofInt bucket / 1000).toInt = (delay * bucket).tdiv 1000 := by
      rw [Int64.toInt_div_of_ne_right _ _ (by decide), hmul]
      rfl
    have hsum : (Int64.ofInt delay + Int64.ofInt delay * Int64.ofInt bucket / 1000).toInt = jittered := by
      rw [Int64.toInt_add, hdiv, toInt_ofInt (by omega) (by omega)]
      exact Int.bmod_eq_of_le (by omega) (by omega)
    have hcap : (Int64.ofInt maxMs.toInt).toInt = maxMs.toInt := toInt_ofInt (by omega) (by omega)
    simp only [computeRetryDelayForTest, hguard, Bool.false_eq_true, if_false, toNat_exponent,
      toInt_bucket, hdoubled]
    rw [toInt_clamp (by omega), hsum, hcap]
    exact Int32.toInt_ofInt_of_le (by omega) (by omega)
  · simpa [jittered] using hjitter
  · have := hbackoff n
    omega

theorem computeRetryDelay_eq {codec : Codec} (hcodec : ∀ seed, codec.hash seed = (hash seed).toNat)
    (hbase : 0 < baseMs.toInt) (hmax : baseMs.toInt ≤ maxMs.toInt) :
    (computeRetryDelay codec eventId nextAttemptCount.toNat baseMs.toInt.toNat maxMs.toInt.toNat : ℤ) =
      (computeRetryDelayForTest hash eventId nextAttemptCount baseMs maxMs).toInt := by
  have hdelay := backoff_uncapped nextAttemptCount hbase hmax
  rw [(retry_delay hash eventId nextAttemptCount hbase hmax).1, computeRetryDelay, hdelay, hcodec]
  simp only [bucketOf]
  omega

end

/-! ## The timing -/

/-- Every delay is in its bounds, within a fifth of the uncapped one, and computed without an overflow;
and an accepted lease is more than three renew intervals exactly if three of them fit in an `int`. -/
theorem outbox_timing {store publisher : Bool} {o : RelayOptions}
    (h : validateOptions store publisher o = .ok ()) :
    (∀ (hash : String → UInt64) (eventId : String) (nextAttemptCount : UInt32) (baseMs maxMs : Int32),
      0 < baseMs.toInt → baseMs.toInt ≤ maxMs.toInt →
      let delay := uncapped nextAttemptCount baseMs maxMs
      let bucket := bucketOf hash eventId nextAttemptCount
      let jittered := delay + (delay * bucket).tdiv 1000
      let out := (computeRetryDelayForTest hash eventId nextAttemptCount baseMs maxMs).toInt
      (1 ≤ out ∧ out ≤ maxMs.toInt) ∧ out = min (max jittered 1) maxMs.toInt ∧
        |jittered - delay| ≤ delay / 5 ∧
        (∀ n, backoff maxMs.toInt.toNat n baseMs.toInt.toNat * 2 < 18446744073709551616) ∧
        (-9223372036854775808 ≤ delay * bucket ∧ delay * bucket < 9223372036854775808) ∧
        (-9223372036854775808 ≤ jittered ∧ jittered < 9223372036854775808)) ∧
    (3 * o.leaseRenewIntervalMs.toInt < o.leaseMs.toInt ↔
      o.leaseRenewIntervalMs.toInt ≤ 715827882) := by
  refine ⟨fun hash eventId nextAttemptCount baseMs maxMs hbase hmax => ?_, lease_iff h⟩
  obtain ⟨hout, hrest⟩ := retry_delay hash eventId nextAttemptCount hbase hmax
  refine ⟨?_, hout, hrest⟩
  rw [hout]
  omega

theorem outbox_timing_default :
    3 * (5000 : Int32).toInt < (30000 : Int32).toInt ∧
      (computeRetryDelayForTest (fun _ => 0) "event-x" 4 200 30000).toInt ≤ 30000 :=
  have h : validateOptions true true {} = .ok () := rfl
  ⟨(outbox_timing h).2.2 (by decide),
    ((outbox_timing h).1 (fun _ => 0) "event-x" 4 200 30000 (by decide) (by decide)).1.2⟩

/-- Three renew intervals that are more than an `int` holds pass the check. -/
theorem lease_overflows : ¬ ∀ (store publisher : Bool) (o : RelayOptions),
    validateOptions store publisher o = .ok () →
      3 * o.leaseRenewIntervalMs.toInt < o.leaseMs.toInt := by
  intro hall
  have hlease := hall true true { leaseRenewIntervalMs := 1431655766 } rfl
  exact absurd hlease (by decide)

end TinyImx.Outbox.Timing
