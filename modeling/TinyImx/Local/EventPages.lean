import TinyImx.Local.IndexRuns
import TinyImx.Local.Keys

/-!
# Pages of pending events

`ListPendingEventPage` reads a page of events behind a cursor, from the index in memory where it is
on and from the engine's iterator otherwise.  Both go through the same ids in the same order, since
between calls the index holds exactly the stored events.
-/

namespace TinyImx.Local

open Kv Act Ordered

/-- `LocalEventsResult`. -/
structure EventsResult where
  status : Status := .storageError
  events : List PendingLocalEvent := []
  message : String := ""
  examinedEvents : ℕ := 0
  lastExaminedEventId : Bytes := []

/-- What the loops of `ListPendingEventPage` collect. -/
structure EventPage where
  events : List PendingLocalEvent := []
  examinedEvents : ℕ := 0
  lastExaminedEventId : Bytes := []

def EventPage.examine (p : EventPage) (id : Bytes) : EventPage :=
  { p with examinedEvents := p.examinedEvents + 1, lastExaminedEventId := id }

def EventPage.push (p : EventPage) (event : PendingLocalEvent) : EventPage :=
  { p with events := p.events ++ [event] }

/-- Whether `skip` leaves the event out; without a set nothing is held. -/
def skips (held : Option (Finset Bytes)) (id : Bytes) : Bool := held.any fun ids => decide (id ∈ ids)

/-! ## The two paths -/

def readyLoop (index : AList fun _ : Bytes => Bool) (limit : ℕ) : List Bytes → List Bytes → List Bytes
  | [], ids => ids
  | id :: it, ids =>
    if ids.length < limit then
      readyLoop index limit it (if (index.lookup id).any (· = true) then ids ++ [id] else ids)
    else ids

/-- The ids that the index gives a page: from its beginning, or from behind the cursor. -/
def indexedIds (index : AList fun _ : Bytes => Bool) (after : Bytes) (limit : ℕ) : List Bytes :=
  let entries := index.keys.insertionSort fun a b => a ≤ b
  readyLoop index limit (if after = [] then entries else entries.dropWhile fun id => id ≤ after) []

def indexLoop (held : Option (Finset Bytes)) (db : Db) :
    List Bytes → EventPage → Except Failure EventPage
  | [], p => .ok p
  | id :: ids, p =>
    if skips held id then indexLoop held db ids (p.examine id)
    else
      match db.lookup (.E id) with
      | none => indexLoop held db ids (p.examine id)
      | some row => do
        let event ← decodeEvent row id
        indexLoop held db ids ((p.examine id).push event)

def Entry.event (id : Bytes) : Entry → Except Failure PendingLocalEvent
  | ⟨.E _, row⟩ => decodeEvent row id
  | _ => .error ⟨.invalidRecord, "invalid local serialized record"⟩

def scanLoop (held : Option (Finset Bytes)) (limit : ℕ) :
    List Entry → EventPage → Except Failure EventPage
  | [], p => .ok p
  | e :: it, p =>
    if startsWith Entry.key (ascii "E/") e && p.examinedEvents < limit then
      let id := e.key.drop 2
      if skips held id then scanLoop held limit it (p.examine id)
      else do
        let event ← e.event id
        scanLoop held limit it ((p.examine id).push event)
    else .ok p

def scanStart (db : Db) (after : Bytes) : List Entry :=
  let start := ascii "E/" ++ after
  let it := seek Entry.key start (iterator db)
  if after = [] then it else skipAt Entry.key start it

/-- A page through the index: the ids first, then their events from a snapshot taken after it. -/
def indexedPage (held : Option (Finset Bytes)) (after : Bytes) (limit : ℕ)
    (index : AList fun _ : Bytes => Bool) (db : Db) : Except Failure EventPage :=
  indexLoop held db (indexedIds index after limit) {}

def scannedPage (held : Option (Finset Bytes)) (after : Bytes) (limit : ℕ) (db : Db) :
    Except Failure EventPage :=
  scanLoop held limit (scanStart db after) {}

def checkPage (after : Bytes) (limit : ℕ) (held : Option (Finset Bytes)) : Except Failure Unit := do
  require (0 < limit && limit ≤ 256) .invalidArgument "invalid local event limit"
  if after = [] then pure () else eventId after
  require (held.all fun ids => decide (ids.card ≤ 256)) .invalidArgument
    "held event set exceeds relay bound"

/-- The page a store gives; `guard` is `EmptyEventScanGuardEnabled`. -/
def eventPage (guard : Bool) (after : Bytes) (limit : ℕ) (held : Option (Finset Bytes)) (s : Store) :
    Except Failure EventPage :=
  if guard && s.pendingEvents = 0 then .ok {}
  else if s.pendingIndexEnabled then indexedPage held after limit s.pendingIndex s.db
  else scannedPage held after limit s.db

def listPendingEventPage (guard : Bool) (after : Bytes) (limit : ℕ) (held : Option (Finset Bytes)) :
    Store → EventsResult × Store :=
  call (do
    check (checkPage after limit held)
    let page ← .inspect (eventPage guard after limit held)
    return {
      status := .succeeded
      events := page.events
      examinedEvents := page.examinedEvents
      lastExaminedEventId := page.lastExaminedEventId }) id
    fun e => { status := e.status, message := e.message }

/-! ## The ids of a page -/

variable {opts : Options} {s : Store} {db : Db} {index : AList fun _ : Bytes => Bool}
  {held : Option (Finset Bytes)} {after : Bytes} {limit : ℕ} {id : Bytes}

def behind (after id : Bytes) : Bool := after = [] || after < id

def eventsBehind (db : Db) (after : Bytes) : List Bytes :=
  ((eventKeys db).insertionSort fun a b => a ≤ b).filter (behind after)

theorem sorted_of_nodup {ids : List Bytes} (h : ids.Nodup) :
    (ids.insertionSort fun a b => a ≤ b).Pairwise (· < ·) := by
  have hle : (ids.insertionSort fun a b => a ≤ b).Pairwise (· ≤ ·) :=
    List.pairwise_insertionSort _ _
  have hne : (ids.insertionSort fun a b => a ≤ b).Pairwise (· ≠ ·) :=
    (List.perm_insertionSort _ _).nodup_iff.2 h
  exact (hle.and hne).imp fun h => Ordered.lt_iff_le_and_ne.2 h

theorem mem_eventsBehind : id ∈ eventsBehind db after ↔
    (db.lookup (.E id)).isSome = true ∧ behind after id = true := by
  rw [eventsBehind, List.mem_filter, (List.perm_insertionSort _ _).mem_iff, mem_eventKeys]

theorem eventsBehind_sorted (db : Db) (after : Bytes) :
    (eventsBehind db after).Pairwise (· < ·) :=
  (sorted_of_nodup (eventKeys_nodup db)).sublist List.filter_sublist

theorem eq_eventsBehind {ids : List Bytes} (hids : ids.Pairwise (· < ·))
    (hmem : ∀ id, id ∈ ids ↔ (db.lookup (.E id)).isSome = true ∧ behind after id = true) :
    ids = eventsBehind db after :=
  List.Pairwise.eq_of_mem_iff hids (eventsBehind_sorted db after) fun id => by
    rw [hmem id, mem_eventsBehind]

/-! ## The index path -/

theorem readyLoop_eq (index : AList fun _ : Bytes => Bool) (limit : ℕ) (it ids : List Bytes)
    (hids : ids.length ≤ limit) :
    readyLoop index limit it ids =
      ids ++ (it.filter fun id => (index.lookup id).any (· = true)).take (limit - ids.length) := by
  induction it generalizing ids with
  | nil => simp [readyLoop]
  | cons id it ih =>
    rw [readyLoop]
    by_cases hlt : ids.length < limit
    · rw [if_pos hlt]
      by_cases hready : (index.lookup id).any (· = true) = true
      · obtain ⟨n, hn⟩ : ∃ n, limit - ids.length = n + 1 := ⟨limit - ids.length - 1, by omega⟩
        have hn' : limit - (ids ++ [id]).length = n := by
          rw [List.length_append, List.length_singleton]
          omega
        grind
      · rw [if_neg hready, ih _ hids, List.filter_cons_of_neg (by simpa using hready)]
    · simp_all

def readyBehind (index : AList fun _ : Bytes => Bool) (after : Bytes) : List Bytes :=
  ((index.keys.insertionSort fun a b => a ≤ b).filter (behind after)).filter
    fun id => (index.lookup id).any (· = true)

theorem indexedIds_eq (index : AList fun _ : Bytes => Bool) (after : Bytes) (limit : ℕ) :
    indexedIds index after limit = (readyBehind index after).take limit := by
  have hsorted := sorted_of_nodup index.keys_nodup
  have hstart : (if after = [] then index.keys.insertionSort fun a b => a ≤ b
      else (index.keys.insertionSort fun a b => a ≤ b).dropWhile fun id => id ≤ after) =
      (index.keys.insertionSort fun a b => a ≤ b).filter (behind after) := by
    split
    · next hempty =>
      exact (List.filter_eq_self.2 fun id _ => by simp [behind, hempty]).symm
    · next hne =>
      rw [dropWhile_eq_filter (hsorted.imp fun {a b} hab hb => ?_)]
      · refine List.filter_congr fun id _ => ?_
        rw [behind, decide_eq_false hne, Bool.false_or, ← decide_not]
        exact decide_eq_decide.2 List.not_le
      · exact decide_eq_true (List.le_trans (List.le_of_lt hab) (of_decide_eq_true hb))
  rw [indexedIds, readyLoop_eq _ _ _ _ (Nat.zero_le _), hstart]
  rfl

theorem mem_readyBehind : id ∈ readyBehind index after ↔
    index.lookup id = some true ∧ behind after id = true := by
  rw [readyBehind, List.mem_filter, List.mem_filter, (List.perm_insertionSort _ _).mem_iff]
  constructor
  · rintro ⟨⟨-, hb⟩, hready⟩
    refine ⟨?_, hb⟩
    cases hlookup : index.lookup id with
    | none => simp [hlookup] at hready
    | some b => simpa [hlookup] using hready
  · rintro ⟨hready, hb⟩
    have hmem : id ∈ index.keys := AList.lookup_isSome.1 (Option.isSome_of_eq_some hready)
    exact ⟨⟨hmem, hb⟩, by simp [hready]⟩

theorem readyBehind_sorted (index : AList fun _ : Bytes => Bool) (after : Bytes) :
    (readyBehind index after).Pairwise (· < ·) :=
  (sorted_of_nodup index.keys_nodup).sublist (List.filter_sublist.trans List.filter_sublist)

theorem Indexed.readyBehind_eq (h : Indexed s) (hen : s.pendingIndexEnabled = true)
    (after : Bytes) : readyBehind s.pendingIndex after = eventsBehind s.db after := by
  refine eq_eventsBehind (readyBehind_sorted _ _) fun id => ?_
  rw [mem_readyBehind]
  refine and_congr_left fun _ => ⟨fun hready => ?_, h.ready hen id⟩
  by_contra hnone
  rw [h.only hen id (Bool.eq_false_of_not_eq_true hnone)] at hready
  cases hready

/-! ## The iterator path -/

theorem eq_of_event_prefix {k : Key} (h : ascii "E/" <+: k.bytes) : ∃ id, k = .E id := by
  cases k with
  | E id => exact ⟨id, rfl⟩
  | _ => exact absurd (Key.tag_of_prefix (c := 69) h) (by simp [Key.tag])

theorem event_of_startsWith {e : Entry} (h : startsWith Entry.key (ascii "E/") e = true) :
    e.1 = .E (e.key.drop 2) ∧ e.key = ascii "E/" ++ e.key.drop 2 := by
  obtain ⟨id, hid⟩ := eq_of_event_prefix (startsWith_iff.1 h)
  have hkey : e.key = ascii "E/" ++ id := by
    rw [Entry.key, hid]
    rfl
  have hdrop : e.key.drop 2 = id := by
    rw [hkey]
    rfl
  rw [hdrop]
  exact ⟨hid, hkey⟩

theorem events_distinct (db : Db) : Distinct Entry.key (ascii "E/") (iterator db) := by
  refine (Family.keys_nodup db).imp fun {a b} hne hab => hne ?_
  obtain ⟨ha, -⟩ := event_of_startsWith (startsWith_iff.2 hab.1)
  obtain ⟨hb, -⟩ := event_of_startsWith (startsWith_iff.2 (hab.2 ▸ hab.1))
  rw [ha, hb, hab.2]

theorem takeWhile_scanStart (db : Db) (after : Bytes) :
    (scanStart db after).takeWhile (startsWith Entry.key (ascii "E/")) =
      (iterator db).filter fun e => startsWith Entry.key (ascii "E/") e &&
        behind after (e.key.drop 2) := by
  unfold scanStart
  split
  · next hempty =>
    rw [hempty, List.append_nil, up_all (iterator_sorted db)]
    refine List.filter_congr fun e _ => ?_
    simp [behind]
  · next hne =>
    rw [up_after (iterator_sorted db) (events_distinct db)]
    refine List.filter_congr fun e _ => ?_
    cases h : startsWith Entry.key (ascii "E/") e with
    | false => rfl
    | true =>
      rw [Bool.true_and, Bool.true_and, (event_of_startsWith h).2, behind, decide_eq_false hne,
        Bool.false_or]
      exact decide_eq_decide.2 (append_lt_append_iff _)

theorem scanStart_ids (db : Db) (after : Bytes) :
    ((scanStart db after).takeWhile (startsWith Entry.key (ascii "E/"))).map
      (fun e => e.key.drop 2) = eventsBehind db after := by
  rw [takeWhile_scanStart]
  refine eq_eventsBehind ?_ fun id => ?_
  · rw [List.pairwise_map]
    refine (((iterator_sorted db).and (events_distinct db)).sublist List.filter_sublist).imp_of_mem
      fun {a b} ha hb hab => ?_
    have hpa := (Bool.and_eq_true_iff.1 (List.mem_filter.1 ha).2).1
    have hpb := (Bool.and_eq_true_iff.1 (List.mem_filter.1 hb).2).1
    have hlt : a.key < b.key :=
      Ordered.lt_iff_le_and_ne.2 ⟨hab.1, fun heq => hab.2 ⟨startsWith_iff.1 hpa, heq⟩⟩
    rw [(event_of_startsWith hpa).2, (event_of_startsWith hpb).2, append_lt_append_iff] at hlt
    exact hlt
  · rw [List.mem_map]
    constructor
    · rintro ⟨e, he, rfl⟩
      obtain ⟨he, htest⟩ := List.mem_filter.1 he
      obtain ⟨hp, hb⟩ := Bool.and_eq_true_iff.1 htest
      refine ⟨?_, hb⟩
      rw [← (event_of_startsWith hp).1]
      exact Option.isSome_of_eq_some (mem_iterator.1 he)
    · rintro ⟨hstored, hb⟩
      obtain ⟨row, hrow⟩ := Option.isSome_iff_exists.1 hstored
      have hdrop : (Entry.key ⟨.E id, row⟩).drop 2 = id := rfl
      refine ⟨⟨.E id, row⟩, List.mem_filter.2 ⟨mem_iterator.2 hrow, ?_⟩, hdrop⟩
      rw [hdrop, hb, Bool.and_true]
      exact startsWith_iff.2 (List.prefix_append (ascii "E/") id)

theorem scanLoop_eq (held : Option (Finset Bytes)) (limit : ℕ) {it : List Entry} {p : EventPage}
    (hit : ∀ e ∈ it.takeWhile (startsWith Entry.key (ascii "E/")), e ∈ iterator db) :
    scanLoop held limit it p = indexLoop held db
      (((it.takeWhile (startsWith Entry.key (ascii "E/"))).map fun e => e.key.drop 2).take
        (limit - p.examinedEvents)) p := by
  induction it generalizing p with
  | nil => simp [scanLoop, indexLoop]
  | cons e it ih =>
    rw [scanLoop]
    by_cases hp : startsWith Entry.key (ascii "E/") e = true
    · rw [List.takeWhile_cons_of_pos hp] at hit
      have hrest := fun e' he' => hit e' (List.mem_cons_of_mem _ he')
      by_cases hlt : p.examinedEvents < limit
      · obtain ⟨n, hn⟩ : ∃ n, limit - p.examinedEvents = n + 1 :=
          ⟨limit - p.examinedEvents - 1, by omega⟩
        have hn' : limit - (p.examinedEvents + 1) = n := by omega
        have hlookup := mem_iterator.1 (hit e List.mem_cons_self)
        rw [if_pos (by simp [hp, hlt]), List.takeWhile_cons_of_pos hp, hn, List.map_cons,
          List.take_succ_cons, indexLoop]
        obtain ⟨id, hid⟩ := eq_of_event_prefix (startsWith_iff.1 hp)
        obtain ⟨k, row⟩ := e
        obtain rfl : k = .E id := hid
        have hdrop : (Entry.key ⟨.E id, row⟩).drop 2 = id := rfl
        dsimp only at hlookup ⊢
        rw [hdrop, hlookup]
        split
        · rw [ih hrest]
          exact congrArg (fun m => indexLoop held db (List.take m _) _) hn'
        · refine bind_congr fun event => ?_
          rw [ih hrest]
          exact congrArg (fun m => indexLoop held db (List.take m _) _) hn'
      · have hfull : limit - p.examinedEvents = 0 := by omega
        rw [if_neg (by simp [hlt]), hfull, List.take_zero]
        rfl
    · rw [if_neg (by simp [hp]), List.takeWhile_cons_of_neg hp, List.map_nil, List.take_nil]
      rfl

theorem scannedPage_eq (held : Option (Finset Bytes)) (after : Bytes) (limit : ℕ) (db : Db) :
    scannedPage held after limit db = indexLoop held db ((eventsBehind db after).take limit) {} := by
  rw [scannedPage, scanLoop_eq, scanStart_ids]
  · rfl
  · intro e he
    rw [takeWhile_scanStart] at he
    exact (List.mem_filter.1 he).1

/-! ## One page -/

theorem Indexed.eventsBehind_nil (h : Indexed s) (hnone : s.pendingEvents = 0) (after : Bytes) :
    eventsBehind s.db after = [] := by
  have hkeys : eventKeys s.db = [] := by
    have := h.count
    simp_all
  simp [eventsBehind, hkeys]

theorem Indexed.eventPage_eq (h : Indexed s) (guard : Bool) (after : Bytes) (limit : ℕ)
    (held : Option (Finset Bytes)) :
    eventPage guard after limit held s = scannedPage held after limit s.db := by
  unfold eventPage
  split
  · next hguard =>
    have hnone : s.pendingEvents = 0 := by simpa using (Bool.and_eq_true_iff.1 hguard).2
    rw [scannedPage_eq, h.eventsBehind_nil hnone, List.take_nil]
    rfl
  split
  · next hen =>
    rw [indexedPage, indexedIds_eq, h.readyBehind_eq hen, scannedPage_eq]
  · rfl

/-- Between calls a page through the index is the page of the scan, with the empty-scan guard or
without: the same events in the same order, the same number of examined events and the same last one. -/
theorem listPendingEventPage_agree (h : Reachable opts s) (guard : Bool) (after : Bytes) (limit : ℕ)
    (held : Option (Finset Bytes)) :
    (listPendingEventPage guard after limit held s).1 =
      (listPendingEventPage false after limit held { s with pendingIndexEnabled := false }).1 := by
  obtain ⟨t, ht⟩ : ∃ t, t = { s with pendingIndexEnabled := false } := ⟨_, rfl⟩
  have hopen : checkOpen t = checkOpen s := by
    rw [ht]
    rfl
  have hpage : eventPage guard after limit held s = eventPage false after limit held t := by
    rw [h.indexed.eventPage_eq, ht]
    rfl
  rw [← ht]
  unfold listPendingEventPage call
  simp only [bind_apply, inspect_apply, check, hopen]
  cases checkOpen s with
  | error e => rfl
  | ok u =>
    cases checkPage after limit held with
    | error e => rfl
    | ok u =>
      dsimp only
      rw [hpage]
      cases eventPage false after limit held t with
      | error e => rfl
      | ok page => rfl

def indexedOptions : Options := { sampleOptions with pendingEventIndex := true }

def indexedSent : Store :=
  (Op.persist sampleInput).run indexedOptions sampleEnv { sampleStore with pendingIndexEnabled := true }

theorem indexedSent_reachable : Reachable indexedOptions indexedSent :=
  ⟨{ sampleStore with pendingIndexEnabled := true }, _, rfl,
    .single (.call _ sampleEnv (.persist sampleInput))⟩

/-- After one message the index gives its event, and so does the scan. -/
theorem listPendingEventPage_agree_sent :
    (listPendingEventPage true [] 10 none indexedSent).1 =
      (listPendingEventPage false [] 10 none { indexedSent with pendingIndexEnabled := false }).1 ∧
    (listPendingEventPage true [] 10 none indexedSent).1.events.map PendingLocalEvent.eventId =
      [messageEventId 1] ∧
    indexedSent.pendingIndexEnabled = true :=
  ⟨listPendingEventPage_agree indexedSent_reachable true [] 10 none, by decide +kernel,
    by decide +kernel⟩

end TinyImx.Local
