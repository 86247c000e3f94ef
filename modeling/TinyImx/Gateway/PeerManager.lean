import Mathlib.Order.Defs.LinearOrder
import Mathlib.Data.Int.Order.Basic
import TinyImx.Local.Types

/-!
# Starting a manager of peer transports

`Start` checks the options and sets `running_`.  The delays before a retry and before a reconnect
double from the initial delay to the maximal one, in 64-bit milliseconds.
-/

namespace TinyImx.Gateway.PeerManager

open TinyImx.Local (Bytes)

abbrev IsCount (n : ℤ) : Prop := -2 ^ 63 ≤ n ∧ n < 2 ^ 63

structure Milliseconds where
  count : ℤ
  isCount : IsCount count

namespace Milliseconds

def double (delay : Milliseconds) : Option Milliseconds :=
  if h : IsCount (delay.count * 2) then some ⟨delay.count * 2, h⟩ else none

def min (a b : Milliseconds) : Milliseconds := if b.count < a.count then b else a

end Milliseconds

structure Options where
  localGatewayId : Bytes
  localLeaseToken : Bytes
  maxRequestRetries : ℕ
  requestRetryInitialDelay : Milliseconds
  requestRetryMaxDelay : Milliseconds
  reconnectInitialDelay : Milliseconds
  reconnectMaxDelay : Milliseconds

structure Manager where
  loopValid : Bool
  options : Options
  running : Bool

def invalidDelays (initial max : Milliseconds) : Bool :=
  initial.count ≤ 0 || max.count ≤ 0 || max.count < initial.count

namespace Options

variable (o : Options)

def invalidIdentity : Bool := o.localGatewayId = [] || o.localLeaseToken = []

def invalidReconnect : Bool := invalidDelays o.reconnectInitialDelay o.reconnectMaxDelay

def invalidRequestRetry : Bool :=
  0 < o.maxRequestRetries && invalidDelays o.requestRetryInitialDelay o.requestRetryMaxDelay

end Options

def Manager.start (m : Manager) : Bool × Manager :=
  if !m.loopValid then (false, m)
  else if m.options.invalidIdentity then (false, m)
  else if m.options.invalidReconnect then (false, m)
  -- the exchange comes before the check of the retries
  else if m.running then (true, m)
  else if m.options.invalidRequestRetry then (false, { m with running := true })
  else (true, { m with running := true })

/-- The doubling loop with at most `passes` passes; `none` where a product overflows. -/
def backoff (max : Milliseconds) : ℕ → Milliseconds → Option Milliseconds
  | 0, delay => some delay
  | passes + 1, delay =>
    if delay.count < max.count then
      if max.count.tdiv 2 ≤ delay.count then some max
      else delay.double.bind (backoff max passes)
    else some delay

def Options.requestRetryDelay (o : Options) (retryNumber : ℕ) : Option Milliseconds :=
  (backoff o.requestRetryMaxDelay (retryNumber - 1) o.requestRetryInitialDelay).map
    (·.min o.requestRetryMaxDelay)

def Options.reconnectDelay (o : Options) (attempt : ℕ) : Option Milliseconds :=
  (backoff o.reconnectMaxDelay attempt o.reconnectInitialDelay).map (·.min o.reconnectMaxDelay)

/-- Whether the manager submits again after `retryCount` retries, and then with which number. -/
def Options.nextRetry (o : Options) (retryCount : ℕ) : Option ℕ :=
  if o.maxRequestRetries ≤ retryCount then none else some (retryCount + 1)

/-! ## Backoff -/

/-- What a backoff promises: its delays are counts, they stay between the initial and the maximal
delay, and they never decrease. -/
structure Backs (initial max : Milliseconds) (delay : ℕ → Option Milliseconds) : Prop where
  bounds : ∀ n, ∃ d, delay n = some d ∧ 0 < d.count ∧ initial.count ≤ d.count ∧ d.count ≤ max.count
  mono : ∀ m n, m ≤ n → ∀ d d', delay m = some d → delay n = some d' → d.count ≤ d'.count

variable {initial max delay : Milliseconds}

theorem invalidDelays_eq_false : invalidDelays initial max = false ↔
    0 < initial.count ∧ initial.count ≤ max.count := by
  simp only [invalidDelays, Bool.or_eq_false_iff, decide_eq_false_iff_not]
  omega

theorem double_eq (hpos : 0 < delay.count) (h : delay.count < max.count.tdiv 2)
    (hmax : 0 ≤ max.count) :
    ∃ d, delay.double = some d ∧ d.count = delay.count * 2 ∧ d.count ≤ max.count := by
  obtain ⟨-, hhigh⟩ := max.isCount
  rw [Int.tdiv_eq_ediv_of_nonneg hmax] at h
  have hcount : IsCount (delay.count * 2) := ⟨by omega, by omega⟩
  refine ⟨⟨_, hcount⟩, dif_pos hcount, rfl, ?_⟩
  grind

theorem backoff_bounds (passes : ℕ) (hpos : 0 < delay.count) (hle : delay.count ≤ max.count) :
    ∃ d, backoff max passes delay = some d ∧ delay.count ≤ d.count ∧ d.count ≤ max.count := by
  induction passes generalizing delay with
  | zero => exact ⟨delay, rfl, le_refl _, hle⟩
  | succ passes ih =>
    rw [backoff]
    split
    · next hlt =>
      split
      · exact ⟨max, rfl, hle, le_refl _⟩
      · next hhalf =>
        obtain ⟨d, hd, hcount, hdle⟩ := @double_eq max delay hpos (by omega) (by omega)
        obtain ⟨d', hd', hlow, hhigh⟩ := ih (by omega) hdle
        rw [hd, Option.bind_some]
        exact ⟨d', hd', by omega, hhigh⟩
    · exact ⟨delay, rfl, le_refl _, hle⟩

theorem backoff_mono (m n : ℕ) (hmn : m ≤ n) (hpos : 0 < delay.count)
    (hle : delay.count ≤ max.count) {d d' : Milliseconds} (hd : backoff max m delay = some d)
    (hd' : backoff max n delay = some d') : d.count ≤ d'.count := by
  induction m generalizing n delay with
  | zero =>
    obtain ⟨e, he, hlow, -⟩ := backoff_bounds n hpos hle
    rw [hd'] at he
    cases hd
    cases he
    exact hlow
  | succ m ih =>
    obtain ⟨n, rfl⟩ : ∃ k, n = k + 1 := ⟨n - 1, by omega⟩
    rw [backoff] at hd hd'
    split at hd
    · next hlt =>
      rw [if_pos hlt] at hd'
      split at hd
      · next hhalf =>
        rw [if_pos hhalf] at hd'
        grind
      · next hhalf =>
        rw [if_neg hhalf] at hd'
        obtain ⟨e, he, hcount, hele⟩ := @double_eq max delay hpos (by omega) (by omega)
        rw [he, Option.bind_some] at hd hd'
        exact ih n (by omega) (by omega) hele hd hd'
    · next hlt =>
      rw [if_neg hlt] at hd'
      cases hd
      cases hd'
      exact le_refl _

theorem min_count (a b : Milliseconds) : (a.min b).count = Min.min a.count b.count := by
  unfold Milliseconds.min
  grind

theorem backs_iff {passes : ℕ → ℕ} (hmono : ∀ m n, m ≤ n → passes m ≤ passes n)
    (hzero : passes 0 = 0) :
    Backs initial max (fun n => (backoff max (passes n) initial).map (·.min max)) ↔
      invalidDelays initial max = false := by
  rw [invalidDelays_eq_false]
  constructor
  · intro h
    obtain ⟨d, hd, hpos, hlow, hhigh⟩ := h.bounds 0
    rw [hzero, backoff, Option.map_some] at hd
    cases hd
    rw [min_count] at hpos hlow
    exact ⟨lt_of_lt_of_le hpos (min_le_left _ _), hlow.trans (min_le_right _ _)⟩
  · rintro ⟨hpos, hle⟩
    constructor
    · intro n
      obtain ⟨d, hd, hlow, hhigh⟩ := backoff_bounds (passes n) hpos hle
      refine ⟨d.min max, by rw [hd, Option.map_some], ?_⟩
      rw [min_count, min_eq_left hhigh]
      exact ⟨by omega, hlow, hhigh⟩
    · intro m n hmn d d' hd hd'
      obtain ⟨e, he, rfl⟩ := Option.map_eq_some_iff.1 hd
      obtain ⟨e', he', rfl⟩ := Option.map_eq_some_iff.1 hd'
      rw [min_count, min_count]
      exact min_le_min_right _ (backoff_mono _ _ (hmono m n hmn) hpos hle he he')

theorem backs_requestRetryDelay (o : Options) :
    Backs o.requestRetryInitialDelay o.requestRetryMaxDelay o.requestRetryDelay ↔
      invalidDelays o.requestRetryInitialDelay o.requestRetryMaxDelay = false :=
  @backs_iff _ _ (· - 1) (fun _ _ h => Nat.sub_le_sub_right h 1) rfl

theorem backs_reconnectDelay (o : Options) :
    Backs o.reconnectInitialDelay o.reconnectMaxDelay o.reconnectDelay ↔
      invalidDelays o.reconnectInitialDelay o.reconnectMaxDelay = false :=
  @backs_iff _ _ id (fun _ _ h => h) rfl

/-! ## Start -/

/-- A failed start leaves `running_` as it was.  After a start that succeeds, the delays the manager
computes keep their promise; it computes no retry delay where it never retries. -/
def StartSound (m : Manager) : Prop :=
  (m.start.1 = false → m.start.2.running = m.running) ∧
    (m.start.1 = true →
      ((∃ count n, m.options.nextRetry count = some n) →
        Backs m.options.requestRetryInitialDelay m.options.requestRetryMaxDelay
          m.options.requestRetryDelay) ∧
      Backs m.options.reconnectInitialDelay m.options.reconnectMaxDelay m.options.reconnectDelay)

theorem exists_nextRetry (o : Options) :
    (∃ count n, o.nextRetry count = some n) ↔ 0 < o.maxRequestRetries := by
  constructor
  · rintro ⟨count, n, h⟩
    unfold Options.nextRetry at h
    split at h
    · cases h
    · omega
  · intro h
    exact ⟨0, 1, if_neg (by omega)⟩

theorem invalidRequestRetry_eq_false (o : Options) : o.invalidRequestRetry = false ↔
    (0 < o.maxRequestRetries →
      invalidDelays o.requestRetryInitialDelay o.requestRetryMaxDelay = false) := by
  unfold Options.invalidRequestRetry
  by_cases h : 0 < o.maxRequestRetries <;> simp [h]

/-- `Start` is sound exactly where the check that comes after the exchange of `running_` finds nothing
the earlier ones did not. -/
theorem startSound_iff (m : Manager) : StartSound m ↔
    (m.loopValid = true → m.options.invalidIdentity = false →
      m.options.invalidReconnect = false → m.options.invalidRequestRetry = false) := by
  unfold StartSound
  rw [exists_nextRetry, backs_requestRetryDelay, backs_reconnectDelay,
    ← invalidRequestRetry_eq_false, ← Options.invalidReconnect, Manager.start]
  cases m.loopValid
  · simp
  cases m.options.invalidIdentity
  swap
  · simp
  cases m.options.invalidReconnect
  swap
  · simp
  cases hrunning : m.running <;> cases m.options.invalidRequestRetry <;> simp [hrunning]

theorem isCount_zero : IsCount 0 := by decide

theorem isCount_one : IsCount 1 := by decide

def noDelay : Options where
  localGatewayId := [1]
  localLeaseToken := [1]
  maxRequestRetries := 1
  requestRetryInitialDelay := ⟨0, isCount_zero⟩
  requestRetryMaxDelay := ⟨0, isCount_zero⟩
  reconnectInitialDelay := ⟨1, isCount_one⟩
  reconnectMaxDelay := ⟨1, isCount_one⟩

/-- `Start` fails and the manager runs. -/
theorem start_fails_running : ¬ StartSound ⟨true, noDelay, false⟩ := by
  intro h
  have hrunning := h.1 (by decide)
  revert hrunning
  decide

end TinyImx.Gateway.PeerManager
