import TinyImx.Local.Listing
import TinyImx.Message.GroupRuns

/-!
# Pages of the message service

`MessageApplicationService` cuts what its repository returns into pages: the pending messages of a
user by their number and by their bytes, the history of a dialog and of a group by their number,
where it asks for one row more than the page holds.  A reader that goes on while a page says
`has_more` reads every message once.
-/

namespace TinyImx.Message

open TinyImx.Local (Bytes Status Failure MessageView PendingResult HistoryResult)

/-! ## The functions of the service -/

def kMaxReadPageLimit : ℕ := 50

def kMaxPendingPageLimit : ℕ := 100

def kMaxPendingPageBytes : ℕ := 2 * 1024 * 1024

def kPendingRecordOverheadBytes : ℕ := 256

structure PageResult (α : Type) where
  status : Status := .storageError
  messages : List α := []
  hasMore : Bool := false
  message : String := ""

abbrev ListPendingAfterApplicationResult := PageResult MessageView

abbrev ListHistoryApplicationResult := PageResult MessageView

/-- `GroupHistoryApplicationResult`; the repository's `ListGroupHistoryResult` is like it. -/
abbrev GroupHistoryApplicationResult := PageResult GroupMessageRecord

def sizeSub (a b : ℕ) : ℕ := (a + 2 ^ 64 - b) % 2 ^ 64

def fields (m : MessageView) : List Bytes :=
  [m.content, m.clientMessageId, m.createdAt, m.receiverConfirmedAt, m.readAt]

/-- The loop over the fields: `record_bytes` at its end, and nothing where a field does not fit. -/
def recordBytes : List Bytes → ℕ → Option ℕ
  | [], bytes => some bytes
  | field :: rest, bytes =>
    if sizeSub kMaxPendingPageBytes bytes < field.length then none
    else recordBytes rest (bytes + field.length)

def takeRecords : List MessageView → ℕ → ℕ → Except Failure ℕ
  | [], _, take => .ok take
  | m :: rest, pageBytes, take =>
    match recordBytes (fields m) kPendingRecordOverheadBytes with
    | some bytes =>
      if sizeSub kMaxPendingPageBytes pageBytes < bytes then
        if take = 0 then .error ⟨.invalidRecord, "pending message exceeds response byte budget"⟩
        else .ok take
      else takeRecords rest (pageBytes + bytes) (take + 1)
    | none =>
      if take = 0 then .error ⟨.invalidRecord, "pending message exceeds response byte budget"⟩
      else .ok take

/-- The loop that checks the order and the identity of a page, where `previous` is the id before. -/
def pendingValid (toUser : ℕ) : ℕ → List MessageView → Bool
  | _, [] => true
  | previous, m :: rest =>
    !(m.messageId = 0 || m.messageId ≤ previous || m.toUserId ≠ toUser ||
      m.deliveryState ≠ .pending) && pendingValid toUser m.messageId rest

def listPendingAfter (repository : Option (ℕ → ℕ → ℕ → PendingResult)) (toUser after limit : ℕ) :
    ListPendingAfterApplicationResult :=
  if toUser = 0 || limit = 0 || kMaxPendingPageLimit < limit then
    { status := .invalidArgument, message := "invalid ListPendingAfter application request" }
  else match repository with
  | none => { status := .storageError, message := "message repository port is unavailable" }
  | some find =>
    let result := find toUser after limit
    if result.status ≠ .succeeded then { status := result.status, message := result.message }
    else if limit < result.records.length then
      { status := .invalidRecord, message := "message repository exceeded pending page count" }
    else if !pendingValid toUser after result.records then
      { status := .invalidRecord, message := "message repository returned invalid pending page" }
    else match takeRecords result.records 0 0 with
      | .error e => { status := e.status, message := e.message }
      | .ok take => {
          status := .succeeded
          messages := result.records.take take
          hasMore := take < result.records.length || result.records.length = limit
          message := "pending messages queried" }

def listHistory (repository : Option (ℕ → ℕ → ℕ → ℕ → HistoryResult)) (actor peer before limit : ℕ) :
    ListHistoryApplicationResult :=
  if actor = 0 || peer = 0 || actor = peer || limit = 0 || kMaxReadPageLimit < limit then
    { status := .invalidArgument, message := "invalid ListHistory application request" }
  else match repository with
  | none => { status := .storageError, message := "message repository port is unavailable" }
  | some find =>
    let result := find actor peer before (limit + 1)
    if result.status ≠ .succeeded then { status := result.status, message := result.message }
    else if limit < result.records.length then
      { status := .succeeded
        messages := result.records.drop 1
        hasMore := true
        message := "message history queried" }
    else
      { status := .succeeded, messages := result.records, message := "message history queried" }

/-- The loop that checks a page of a group, where `previous` is the id before. -/
def groupValid (group : ℕ) : ℕ → List GroupMessageRecord → Bool
  | _, [] => true
  | previous, r :: rest =>
    !(r.message.groupId ≠ group || r.messageId = 0 || (previous ≠ 0 && previous ≤ r.messageId) ||
      r.message.fromUserId = 0 || r.message.content = []) && groupValid group r.messageId rest

def listGroupHistory (repository : Option (ℕ → ℕ → ℕ → ℕ → GroupHistoryApplicationResult))
    (actor group before limit : ℕ) : GroupHistoryApplicationResult :=
  if actor = 0 || group = 0 || limit = 0 || 100 < limit then
    { status := .invalidArgument, message := "invalid group history arguments" }
  else match repository with
  | none => { message := "group history unavailable" }
  | some find =>
    let out := find actor group before (limit + 1)
    if out.status ≠ .succeeded then out
    else if !groupValid group before out.messages then
      { out with
        status := .invalidRecord
        messages := []
        message := "group history identity/order mismatch" }
    else
      { out with
        hasMore := limit < out.messages.length
        messages := if limit < out.messages.length then out.messages.take limit else out.messages }

/-! ## The history of a group in its tables -/

/-- The rows of the query of `ListGroupHistory` before they are ordered: the messages of the group
below the cursor that the user sent or was to receive. -/
def visibleRows (db : Db) (actor group before : ℕ) : List GroupMessageRecord :=
  db.messages.filter fun m => m.message.groupId = group && (before = 0 || m.messageId < before) &&
    (m.message.fromUserId = actor ||
      db.deliveries.any fun d => d.messageId = m.messageId && d.recipientUserId = actor)

/-- `MessageRepository::ListGroupHistory`; `pool` says whether there is one, and `fault` is the text
of a failure of the pool or of the query. -/
def Repository.listGroupHistory (pool : Bool) (fault : Option String) (db : Db)
    (actor group before limit : ℕ) : GroupHistoryApplicationResult :=
  if !pool || actor = 0 || group = 0 || limit = 0 || 101 < limit then
    { status := .invalidArgument, message := "invalid group history query" }
  else match fault with
  | some text => { message := text }
  | none =>
    let rows := ((visibleRows db actor group before).insertionSort
      fun a b => b.messageId ≤ a.messageId).take limit
    if rows.all GroupMessageRecord.built then { status := .succeeded, messages := rows }
    else { messages := rows.takeWhile GroupMessageRecord.built, message := "invalid group history record" }

/-- `MessageRepositoryAdapter::ListGroupHistory`; both enumerations of statuses are `Status`. -/
def Adapter.listGroupHistory (repository : Option (ℕ → ℕ → ℕ → ℕ → GroupHistoryApplicationResult))
    (actor group before limit : ℕ) : GroupHistoryApplicationResult :=
  match repository with
  | none => { message := "group history repository unavailable" }
  | some find =>
    let result := find actor group before limit
    { status := result.status
      message := result.message
      messages := if result.status = .succeeded then result.messages else [] }

/-! ## The byte budget -/

def charge (m : MessageView) : ℕ :=
  kPendingRecordOverheadBytes + ((fields m).map List.length).sum

def pageCharge (ms : List MessageView) : ℕ := (ms.map charge).sum

def recordSubtractions : List Bytes → ℕ → List (ℕ × ℕ)
  | [], _ => []
  | field :: rest, bytes =>
    (kMaxPendingPageBytes, bytes) ::
      if sizeSub kMaxPendingPageBytes bytes < field.length then []
      else recordSubtractions rest (bytes + field.length)

def pageSubtractions : List MessageView → ℕ → List (ℕ × ℕ)
  | [], _ => []
  | m :: rest, pageBytes =>
    recordSubtractions (fields m) kPendingRecordOverheadBytes ++
      match recordBytes (fields m) kPendingRecordOverheadBytes with
      | none => []
      | some bytes =>
        (kMaxPendingPageBytes, pageBytes) ::
          if sizeSub kMaxPendingPageBytes pageBytes < bytes then []
          else pageSubtractions rest (pageBytes + bytes)

theorem sizeSub_of_le {n : ℕ} (h : n ≤ kMaxPendingPageBytes) :
    sizeSub kMaxPendingPageBytes n = kMaxPendingPageBytes - n := by
  simp only [sizeSub, kMaxPendingPageBytes] at h ⊢
  omega

theorem recordBytes_eq (fields : List Bytes) {bytes : ℕ} (h : bytes ≤ kMaxPendingPageBytes) :
    recordBytes fields bytes =
      if bytes + (fields.map List.length).sum ≤ kMaxPendingPageBytes then
        some (bytes + (fields.map List.length).sum)
      else none := by
  induction fields generalizing bytes with
  | nil => simp [recordBytes, h]
  | cons field rest ih =>
    rw [recordBytes, sizeSub_of_le h, List.map_cons, List.sum_cons, ← Nat.add_assoc]
    split
    · rw [if_neg (by omega)]
    · exact ih (by omega)

theorem recordSubtractions_le (fields : List Bytes) {bytes : ℕ} (h : bytes ≤ kMaxPendingPageBytes) :
    ∀ x ∈ recordSubtractions fields bytes, x.2 ≤ x.1 := by
  induction fields generalizing bytes with
  | nil => simp [recordSubtractions]
  | cons field rest ih =>
    intro x hx
    rw [recordSubtractions, sizeSub_of_le h] at hx
    rcases List.mem_cons.1 hx with rfl | hx
    · exact h
    split at hx
    · cases hx
    · exact ih (by omega) x hx

theorem overhead_le : kPendingRecordOverheadBytes ≤ kMaxPendingPageBytes := by decide

theorem recordBytes_message (m : MessageView) :
    recordBytes (fields m) kPendingRecordOverheadBytes =
      if charge m ≤ kMaxPendingPageBytes then some (charge m) else none :=
  recordBytes_eq (fields m) overhead_le

theorem pageSubtractions_le (records : List MessageView) {pageBytes : ℕ}
    (h : pageBytes ≤ kMaxPendingPageBytes) : ∀ x ∈ pageSubtractions records pageBytes, x.2 ≤ x.1 := by
  induction records generalizing pageBytes with
  | nil => simp [pageSubtractions]
  | cons m rest ih =>
    intro x hx
    rw [pageSubtractions, recordBytes_message, sizeSub_of_le h] at hx
    rcases List.mem_append.1 hx with hx | hx
    · exact recordSubtractions_le _ overhead_le x hx
    by_cases hm : charge m ≤ kMaxPendingPageBytes
    · rw [if_pos hm] at hx
      rcases List.mem_cons.1 hx with rfl | hx
      · exact h
      split at hx
      · cases hx
      · exact ih (by omega) x hx
    · rw [if_neg hm] at hx
      cases hx

theorem takeRecords_spec (records : List MessageView) {pageBytes take : ℕ}
    (hbytes : pageBytes ≤ kMaxPendingPageBytes) (hstart : take = 0 → pageBytes = 0)
    (hfit : ∀ m ∈ records, charge m ≤ kMaxPendingPageBytes) :
    ∃ k, takeRecords records pageBytes take = .ok (take + k) ∧ k ≤ records.length ∧
      pageBytes + pageCharge (records.take k) ≤ kMaxPendingPageBytes ∧
      (take = 0 → records ≠ [] → 0 < k) := by
  induction records generalizing pageBytes take with
  | nil => exact ⟨0, rfl, le_rfl, by simpa [pageCharge] using hbytes, fun _ h => absurd rfl h⟩
  | cons m rest ih =>
    have hm := hfit m List.mem_cons_self
    rw [takeRecords, recordBytes_message, if_pos hm, sizeSub_of_le hbytes]
    dsimp only
    by_cases hroom : kMaxPendingPageBytes - pageBytes < charge m
    · have htake : take ≠ 0 := fun h => by
        omega
      rw [if_pos hroom, if_neg htake]
      exact ⟨0, rfl, Nat.zero_le _, by simpa [pageCharge] using hbytes, fun h => absurd h htake⟩
    · rw [if_neg hroom]
      obtain ⟨k, hk, hle, hcharge, -⟩ := @ih (pageBytes + charge m) (take + 1)
        (by omega) (fun h => absurd h (Nat.succ_ne_zero take))
        fun m' hm' => hfit m' (List.mem_cons_of_mem _ hm')
      refine ⟨k + 1, by rw [hk]; congr 1; omega, Nat.succ_le_succ hle, ?_, fun _ _ => Nat.succ_pos k⟩
      rw [List.take_succ_cons]
      simp only [pageCharge, List.map_cons, List.sum_cons] at hcharge ⊢
      omega

/-! ## Pending messages -/

section Pending

open TinyImx.Local (Options Store Contents ContentFits Untouched Rows UsersFit ReachableWith Numbers
  PendingListed HistoryListed actor dialog checkOpen pendingRecords pendingAbove dialogRecords
  recordsBelow newest)
open Paging

variable {opts : Options} {s : Store} {a b r limit : ℕ}

def storePending (opts : Options) (s : Store) : ℕ → ℕ → ℕ → PendingResult :=
  fun r after limit => (Local.Engine.listPendingAfter opts r after limit s).1

/-- Every page and every chain of pages of `ListPendingAfter` for one receiver. -/
structure PendingDrained (opts : Options) (s : Store) (r limit : ℕ) : Prop where
  members : ∀ m, m ∈ pendingRecords s.db r ↔ (∃ mid, s.db.lookup (.M mid) = some m) ∧
    m.toUserId = r ∧ m.deliveryState = .pending
  ascending : (pendingRecords s.db r).Pairwise fun m m' => m.messageId < m'.messageId
  page : ∀ after < 2 ^ 64,
    (listPendingAfter (some (storePending opts s)) r after limit).status = .succeeded ∧
    pageCharge (listPendingAfter (some (storePending opts s)) r after limit).messages ≤
      2 * 1024 * 1024
  subtractions : ∀ after, ∀ x ∈ pageSubtractions (storePending opts s r after limit).records 0,
    x.2 ≤ x.1
  chain : ∃ pages, Drain (fun after => listPendingAfter (some (storePending opts s)) r after limit)
    (fun p => p.hasMore = false) (fun p => (p.messages.getLast?.map MessageView.messageId).getD 0) 0
      pages ∧
    pages.flatMap PageResult.messages = pendingRecords s.db r

theorem charge_pending (hrows : Rows s.db) (hcontent : Contents ContentFits s.db)
    (huntouched : Contents Untouched s.db) {mid : ℕ} {m : MessageView}
    (hm : s.db.lookup (.M mid) = some m) (hp : m.deliveryState = .pending) :
    charge m ≤ kMaxPendingPageBytes := by
  obtain ⟨-, -, -, -, -, -, hcid, -, -, -, hcreated⟩ :=
    Local.decodeRecord_eq_ok.1 (hrows.record hm)
  obtain ⟨hconfirmed, hread⟩ := huntouched mid m hm hp
  have hlen : m.content.length ≤ 65535 := hcontent mid m hm
  simp only [charge, fields, hconfirmed, hread, List.map_cons, List.map_nil, List.sum_cons,
    List.sum_nil, List.length_nil, kPendingRecordOverheadBytes, kMaxPendingPageBytes]
  omega

theorem pendingValid_of_pairwise (r : ℕ) {records : List MessageView} {previous : ℕ}
    (hsorted : records.Pairwise fun m m' => m.messageId < m'.messageId)
    (hmem : ∀ m ∈ records, previous < m.messageId ∧ m.toUserId = r ∧ m.deliveryState = .pending) :
    pendingValid r previous records = true := by
  induction records generalizing previous with
  | nil => rfl
  | cons m rest ih =>
    obtain ⟨hlt, hto, hstate⟩ := hmem m List.mem_cons_self
    rw [List.pairwise_cons] at hsorted
    rw [pendingValid, ih hsorted.2 fun m' hm' =>
      ⟨hsorted.1 m' hm', (hmem m' (List.mem_cons_of_mem _ hm')).2⟩]
    grind

/-- A page is a first part of the messages behind its cursor, and all of them if it says that there
are no more. -/
theorem listPendingAfter_page (hlisted : PendingListed opts s r limit)
    (hfit : ∀ m ∈ pendingRecords s.db r, charge m ≤ kMaxPendingPageBytes) (hr : r ≠ 0)
    (hpos : 0 < limit) (hle : limit ≤ 100) {after : ℕ} (hafter : after < 2 ^ 64) :
    ∃ k more, listPendingAfter (some (storePending opts s)) r after limit =
        { status := .succeeded
          messages := (pendingAbove s.db r after).take k
          hasMore := more
          message := "pending messages queried" } ∧
      pageCharge ((pendingAbove s.db r after).take k) ≤ kMaxPendingPageBytes ∧
      (more = false → (pendingAbove s.db r after).length ≤ k) ∧
      (more = true → (pendingAbove s.db r after).take k ≠ []) := by
  obtain ⟨records, hrecords⟩ : ∃ records, records = (pendingAbove s.db r after).take limit :=
    ⟨_, rfl⟩
  have hfind : storePending opts s r after limit =
      { status := .succeeded, records := records } := by
    rw [hrecords]
    exact hlisted.page after hafter
  have hsub : ∀ m ∈ records, m ∈ pendingRecords s.db r ∧ after < m.messageId := by
    intro m hm
    rw [hrecords] at hm
    have := List.mem_filter.1 (List.mem_of_mem_take hm)
    exact ⟨this.1, by simpa using this.2⟩
  have hvalid : pendingValid r after records = true := by
    refine pendingValid_of_pairwise r ?_ fun m hm => ?_
    · rw [hrecords]
      exact (hlisted.ascending.sublist List.filter_sublist).sublist (List.take_sublist _ _)
    · obtain ⟨hmem, hlt⟩ := hsub m hm
      exact ⟨hlt, ((hlisted.members m).1 hmem).2⟩
  have hlen : records.length = min limit (pendingAbove s.db r after).length := by
    rw [hrecords, List.length_take]
  obtain ⟨k, hk, hkle, hcharge, hfirst⟩ := @takeRecords_spec records 0 0 (Nat.zero_le _)
    (fun _ => rfl) fun m hm => hfit m (hsub m hm).1
  have htake : records.take k = (pendingAbove s.db r after).take k := by
    rw [hrecords, List.take_take, min_eq_left (by omega)]
  refine ⟨k, k < records.length || records.length = limit, ?_, ?_, fun hmore => ?_, fun hmore => ?_⟩
  · unfold listPendingAfter
    have hargs : (r = 0 || limit = 0 || kMaxPendingPageLimit < limit : Bool) = false := by
      simp [hr, hpos.ne', kMaxPendingPageLimit, not_lt.2 hle]
    rw [if_neg (by simp [hargs])]
    dsimp only
    rw [hfind]
    dsimp only
    rw [if_neg (by simp), if_neg (by omega), if_neg (by simp [hvalid]), hk, Nat.zero_add]
    dsimp only
    rw [htake]
  · rw [← htake]
    simpa using hcharge
  · simp only [Bool.or_eq_false_iff, decide_eq_false_iff_not] at hmore
    omega
  · rw [← htake]
    have hne : records ≠ [] := by
      rintro rfl
      simp only [List.length_nil, Nat.not_lt_zero, decide_false, Bool.false_or,
        decide_eq_true_eq] at hmore
      omega
    rw [Ne, List.take_eq_nil_iff, not_or]
    exact ⟨(hfirst rfl hne).ne', hne⟩

theorem pendingDrained (hlisted : PendingListed opts s r limit) (hnum : Numbers s.db)
    (hfit : ∀ m ∈ pendingRecords s.db r, charge m ≤ kMaxPendingPageBytes) (hr : r ≠ 0)
    (hpos : 0 < limit) (hle : limit ≤ 100) : PendingDrained opts s r limit := by
  have hids : ∀ m ∈ pendingRecords s.db r, 0 < m.messageId ∧ m.messageId < 2 ^ 64 := by
    intro m hm
    obtain ⟨⟨mid, hmid⟩, -⟩ := (hlisted.members m).1 hm
    rw [hnum.sound.toRows.messageId hmid]
    exact ⟨Nat.pos_of_ne_zero (Local.decodeRecord_eq_ok.1 (hnum.sound.toRows.record hmid)).2.1,
      hnum.mid_lt hmid⟩
  have hpage := fun {after : ℕ} (hafter : after < 2 ^ 64) =>
    listPendingAfter_page hlisted hfit hr hpos hle hafter
  have hcuts : Cuts (fun after => listPendingAfter (some (storePending opts s)) r after limit)
      (fun p => p.hasMore = false) (fun p => (p.messages.getLast?.map MessageView.messageId).getD 0)
      (· < 2 ^ 64) PageResult.messages (pendingAbove s.db r) := by
    refine .of_take MessageView.messageId (fun c n x _ hx => above_cut hlisted.ascending hx)
      fun c hc => ?_
    obtain ⟨k, more, heq, -, hlast, hmore⟩ := hpage hc
    refine ⟨k, ?_⟩
    rw [heq]
    refine ⟨rfl, hlast, fun hnot => ?_⟩
    have hx := List.getLast?_eq_some_getLast (hmore (by simpa using hnot))
    refine ⟨_, hx, by rw [hx]; rfl, ?_⟩
    exact (hids _ (List.mem_filter.1 (List.mem_of_mem_take (List.mem_of_getLast? hx))).1).2
  refine ⟨hlisted.members, hlisted.ascending, fun after hafter => ?_, fun after x hx => ?_, ?_⟩
  · obtain ⟨k, more, heq, hcharge, -⟩ := hpage hafter
    rw [heq]
    exact ⟨rfl, hcharge⟩
  · exact pageSubtractions_le _ (Nat.zero_le _) x hx
  · obtain ⟨pages, hdrain, hall⟩ := hcuts.drain (c := 0) (by decide)
    refine ⟨pages, hdrain, hall.trans (List.filter_eq_self.2 fun m hm => ?_)⟩
    exact decide_eq_true (hids m hm).1

end Pending

/-! ## The history of a dialog -/

section History

open TinyImx.Local (Options Store Numbers HistoryListed dialogRecords recordsBelow newest)
open Paging

variable {opts : Options} {s : Store} {a b limit : ℕ}

def storeHistory (opts : Options) (s : Store) : ℕ → ℕ → ℕ → ℕ → HistoryResult :=
  fun a b before limit => (Local.listHistory opts a b before limit s).1

/-- Every page and every chain of pages of `ListHistory` for one dialog. -/
structure HistoryDrained (opts : Options) (s : Store) (a b limit : ℕ) : Prop where
  members : ∀ m, m ∈ dialogRecords s.db a b ↔ (∃ mid, s.db.lookup (.M mid) = some m) ∧
    (m.fromUserId = a ∧ m.toUserId = b ∨ m.fromUserId = b ∧ m.toUserId = a)
  ascending : (dialogRecords s.db a b).Pairwise fun m m' => m.messageId < m'.messageId
  page : ∀ before < 2 ^ 64, listHistory (some (storeHistory opts s)) a b before limit =
    { status := .succeeded
      messages := newest limit (recordsBelow s.db a b before)
      hasMore := decide (limit < (recordsBelow s.db a b before).length)
      message := "message history queried" }
  chain : ∃ pages, Drain (fun before => listHistory (some (storeHistory opts s)) a b before limit)
    (fun p => p.hasMore = false) (fun p => (p.messages.head?.map MessageView.messageId).getD 0) 0
      pages ∧
    pages.reverse.flatMap PageResult.messages = dialogRecords s.db a b

theorem drop_newest {α : Type} {n : ℕ} {l : List α} (h : n < l.length) :
    (newest (n + 1) l).drop 1 = newest n l := by
  rw [newest, newest, List.drop_drop]
  congr 1
  omega

theorem listHistory_page (hlisted : HistoryListed opts s a b (limit + 1)) (ha : a ≠ 0) (hb : b ≠ 0)
    (hne : a ≠ b) (hpos : 0 < limit) (hle : limit ≤ 50) {before : ℕ} (hbefore : before < 2 ^ 64) :
    listHistory (some (storeHistory opts s)) a b before limit =
      { status := .succeeded
        messages := newest limit (recordsBelow s.db a b before)
        hasMore := decide (limit < (recordsBelow s.db a b before).length)
        message := "message history queried" } := by
  have hfind : storeHistory opts s a b before (limit + 1) =
      { status := .succeeded, records := newest (limit + 1) (recordsBelow s.db a b before) } :=
    hlisted.page before hbefore
  have hargs : (a = 0 || b = 0 || a = b || limit = 0 || kMaxReadPageLimit < limit : Bool) = false := by
    simp [ha, hb, hne, hpos.ne', kMaxReadPageLimit, not_lt.2 hle]
  have hlen : (newest (limit + 1) (recordsBelow s.db a b before)).length =
      min (limit + 1) (recordsBelow s.db a b before).length := by
    rw [newest, List.length_drop]
    omega
  unfold listHistory
  rw [if_neg (by simp [hargs])]
  dsimp only
  rw [hfind]
  rw [if_neg (by simp), hlen]
  by_cases hmore : limit < (recordsBelow s.db a b before).length
  · rw [if_pos (by omega), drop_newest hmore, decide_eq_true hmore]
  · have hall : ∀ n, limit ≤ n → newest n (recordsBelow s.db a b before) =
        recordsBelow s.db a b before := by
      intro n hn
      rw [newest, Nat.sub_eq_zero_of_le (by omega), List.drop_zero]
    rw [if_neg (by omega), hall _ (Nat.le_succ limit), hall _ le_rfl, decide_eq_false hmore]

theorem historyDrained (hlisted : HistoryListed opts s a b (limit + 1)) (hnum : Numbers s.db)
    (ha : a ≠ 0) (hb : b ≠ 0) (hne : a ≠ b) (hpos : 0 < limit) (hle : limit ≤ 50) :
    HistoryDrained opts s a b limit := by
  have hids : ∀ m ∈ dialogRecords s.db a b, 0 < m.messageId ∧ m.messageId < 2 ^ 64 := by
    intro m hm
    obtain ⟨⟨mid, hmid⟩, -⟩ := (hlisted.members m).1 hm
    rw [hnum.sound.toRows.messageId hmid]
    exact ⟨Nat.pos_of_ne_zero (Local.decodeRecord_eq_ok.1 (hnum.sound.toRows.record hmid)).2.1,
      hnum.mid_lt hmid⟩
  have hpage := fun (before : ℕ) (hbefore : before < 2 ^ 64) =>
    listHistory_page hlisted ha hb hne hpos hle hbefore
  have hcuts : Cuts (fun before => listHistory (some (storeHistory opts s)) a b before limit)
      (fun p => p.hasMore = false) (fun p => (p.messages.head?.map MessageView.messageId).getD 0)
      (· < 2 ^ 64) (fun p => p.messages.reverse) fun c => (recordsBelow s.db a b c).reverse := by
    refine .of_take MessageView.messageId
      (fun c n x _ hx => below_cut hlisted.ascending (fun m hm => (hids m hm).1) hx)
      fun c hc => ⟨limit, ?_⟩
    rw [hpage c hc]
    dsimp only
    refine ⟨by rw [← Local.reverse_take_reverse, List.reverse_reverse], fun hlast => ?_,
      fun hmore => ?_⟩
    · grind
    · have hlong : limit < (recordsBelow s.db a b c).length := by simpa using hmore
      have hsome : newest limit (recordsBelow s.db a b c) ≠ [] := by
        rw [newest, Ne, List.drop_eq_nil_iff]
        omega
      obtain ⟨x, rest, hx⟩ := List.exists_cons_of_ne_nil hsome
      have hmem : x ∈ newest limit (recordsBelow s.db a b c) := by
        rw [hx]
        exact List.mem_cons_self
      refine ⟨x, ?_, ?_, (hids x (List.mem_filter.1 (List.mem_of_mem_drop hmem)).1).2⟩
      · rw [List.getLast?_reverse, hx, List.head?_cons]
      · simp only [hx, List.head?_cons, Option.map_some, Option.getD_some]
  refine ⟨hlisted.members, hlisted.ascending, hpage, ?_⟩
  obtain ⟨pages, hdrain, hall⟩ := hcuts.drain (c := 0) (by decide)
  refine ⟨pages, hdrain, ?_⟩
  have hzero : recordsBelow s.db a b 0 = dialogRecords s.db a b :=
    List.filter_eq_self.2 fun _ _ => rfl
  have hrev := congrArg List.reverse hall
  rw [hzero, List.reverse_reverse, List.reverse_flatMap] at hrev
  simpa [Function.comp_def] using hrev

end History

/-! ## The history of a group -/

section Group

open Paging

variable {κ : Type} [DecidableEq κ] {collate : Bytes → κ} {topic : Bytes} {ls : List Label}
  {st : State} {actor group limit : ℕ}

def groupRecords (db : Db) (actor group : ℕ) : List GroupMessageRecord := visibleRows db actor group 0

def storeGroupHistory (db : Db) : ℕ → ℕ → ℕ → ℕ → GroupHistoryApplicationResult :=
  Adapter.listGroupHistory (some (Repository.listGroupHistory true none db))

/-- Every page and every chain of pages of `ListGroupHistory` for one user and one group. -/
structure GroupDrained (db : Db) (actor group limit : ℕ) : Prop where
  members : ∀ m, m ∈ groupRecords db actor group ↔ m ∈ db.messages ∧ m.message.groupId = group ∧
    (m.message.fromUserId = actor ∨
      ∃ d ∈ db.deliveries, d.messageId = m.messageId ∧ d.recipientUserId = actor)
  ascending : (groupRecords db actor group).Pairwise fun m m' => m.messageId < m'.messageId
  page : ∀ before, listGroupHistory (some (storeGroupHistory db)) actor group before limit =
    { status := .succeeded
      messages := (visibleRows db actor group before).reverse.take limit
      hasMore := decide (limit < (visibleRows db actor group before).length) }
  chain : ∃ pages,
    Drain (fun before => listGroupHistory (some (storeGroupHistory db)) actor group before limit)
      (fun p => p.hasMore = false)
      (fun p => (p.messages.getLast?.map GroupMessageRecord.messageId).getD 0) 0 pages ∧
    pages.flatMap PageResult.messages = (groupRecords db actor group).reverse

theorem visibleRows_eq (db : Db) (actor group before : ℕ) : visibleRows db actor group before =
    (groupRecords db actor group).filter fun m => before = 0 || m.messageId < before := by
  rw [groupRecords, visibleRows, visibleRows, List.filter_filter]
  refine List.filter_congr fun m _ => ?_
  cases decide (m.message.groupId = group) <;> simp

theorem insertionSort_ids {rows : List GroupMessageRecord}
    (h : rows.Pairwise fun a b => a.messageId < b.messageId) :
    rows.insertionSort (fun a b => b.messageId ≤ a.messageId) = rows.reverse := by
  have hperm := (List.perm_insertionSort (fun a b : GroupMessageRecord => b.messageId ≤ a.messageId)
    rows).trans rows.reverse_perm.symm
  refine List.Perm.eq_of_pairwise (fun a b ha hb hab hba => ?_) (List.pairwise_insertionSort _ _)
    ((List.pairwise_reverse.2 h).imp Nat.le_of_lt) hperm
  have hids : (rows.map GroupMessageRecord.messageId).Nodup :=
    List.pairwise_map.2 (h.imp Nat.ne_of_lt)
  exact List.inj_on_of_nodup_map hids (List.mem_reverse.1 (hperm.mem_iff.1 ha))
    (List.mem_reverse.1 hb) (Nat.le_antisymm hba hab)

theorem groupValid_of_pairwise (group : ℕ) {rows : List GroupMessageRecord} {previous : ℕ}
    (hsorted : rows.Pairwise fun a b => b.messageId < a.messageId)
    (hmem : ∀ m ∈ rows, m.message.groupId = group ∧ m.messageId ≠ 0 ∧
      (previous = 0 ∨ m.messageId < previous) ∧ m.message.fromUserId ≠ 0 ∧ m.message.content ≠ []) :
    groupValid group previous rows = true := by
  induction rows generalizing previous with
  | nil => rfl
  | cons m rest ih =>
    obtain ⟨hgroup, hid, hprevious, hfrom, hcontent⟩ := hmem m List.mem_cons_self
    rw [List.pairwise_cons] at hsorted
    rw [groupValid, ih hsorted.2 fun m' hm' => ?_]
    · have hle : previous = 0 ∨ ¬previous ≤ m.messageId := hprevious.imp id not_le.2
      simpa [hgroup, hid, hfrom, hcontent] using hle
    · obtain ⟨hgroup', hid', -, hrest⟩ := hmem m' (List.mem_cons_of_mem _ hm')
      exact ⟨hgroup', hid', .inr (hsorted.1 m' hm'), hrest⟩

omit [DecidableEq κ] in
theorem Kept.row (h : Kept collate topic ls st) {m : GroupMessageRecord}
    (hm : m ∈ st.db.messages) : m.built = true ∧ m.messageId ≠ 0 ∧ m.message.fromUserId ≠ 0 ∧
      m.message.content ≠ [] := by
  obtain ⟨hbuilt, hid, hfrom, -⟩ := h.built hm
  obtain ⟨k, hk, rfl⟩ := h.commit_of_mem hm
  have hidentity := (h.authorized k hk).1.identity
  refine ⟨hbuilt, hid, hfrom, fun hnil => ?_⟩
  simp [validIdentity, hnil] at hidentity

omit [DecidableEq κ] in
theorem Kept.ascending (h : Kept collate topic ls st) :
    st.db.messages.Pairwise fun a b => a.messageId < b.messageId := by
  rw [h.messages]
  exact List.pairwise_map.2 h.ids

omit [DecidableEq κ] in
/-- A page holds the newest messages below its cursor that the user may read. -/
theorem listGroupHistory_page (h : Kept collate topic ls st) (hactor : actor ≠ 0) (hgroup : group ≠ 0)
    (hpos : 0 < limit) (hle : limit ≤ 100) (before : ℕ) :
    listGroupHistory (some (storeGroupHistory st.db)) actor group before limit =
      { status := .succeeded
        messages := (visibleRows st.db actor group before).reverse.take limit
        hasMore := decide (limit < (visibleRows st.db actor group before).length) } := by
  obtain ⟨rows, hrows⟩ : ∃ rows, rows = visibleRows st.db actor group before := ⟨_, rfl⟩
  have hsorted : rows.Pairwise fun a b => a.messageId < b.messageId := by
    rw [hrows]
    exact h.ascending.sublist List.filter_sublist
  have hmem : ∀ m ∈ rows, m ∈ st.db.messages ∧ m.message.groupId = group ∧
      (before = 0 ∨ m.messageId < before) := by
    intro m hm
    rw [hrows] at hm
    obtain ⟨hm, hwhere⟩ := List.mem_filter.1 hm
    simp only [Bool.and_eq_true, Bool.or_eq_true, decide_eq_true_eq] at hwhere
    exact ⟨hm, hwhere.1.1, hwhere.1.2⟩
  have hbuilt : ∀ n, (rows.reverse.take n).all GroupMessageRecord.built = true := by
    refine fun n => List.all_eq_true.2 fun m hm => (h.row (hmem m ?_).1).1
    exact List.mem_reverse.1 (List.mem_of_mem_take hm)
  have hfind : storeGroupHistory st.db actor group before (limit + 1) =
      { status := .succeeded, messages := rows.reverse.take (limit + 1) } := by
    have hargs : (!true || actor = 0 || group = 0 || limit + 1 = 0 || 101 < limit + 1 : Bool) =
        false := by
      simp only [Bool.not_true, Bool.false_or, Bool.or_eq_false_iff, decide_eq_false_iff_not]
      exact ⟨⟨⟨hactor, hgroup⟩, by omega⟩, by omega⟩
    simp only [storeGroupHistory, Adapter.listGroupHistory, Repository.listGroupHistory]
    rw [if_neg (Bool.eq_false_iff.1 hargs), ← hrows, insertionSort_ids hsorted, if_pos (hbuilt _)]
    rfl
  have hvalid : groupValid group before (rows.reverse.take (limit + 1)) = true := by
    refine groupValid_of_pairwise group
      ((List.pairwise_reverse.2 hsorted).sublist (List.take_sublist _ _)) fun m hm => ?_
    obtain ⟨hstored, hin, hlt⟩ := hmem m (List.mem_reverse.1 (List.mem_of_mem_take hm))
    obtain ⟨-, hid, hfrom, hcontent⟩ := h.row hstored
    exact ⟨hin, hid, hlt, hfrom, hcontent⟩
  have hargs : (actor = 0 || group = 0 || limit = 0 || 100 < limit : Bool) = false := by
    simp [hactor, hgroup, hpos.ne', hle]
  have hlen : (rows.reverse.take (limit + 1)).length = min (limit + 1) rows.length := by
    rw [List.length_take, List.length_reverse]
  have hmore : limit < min (limit + 1) rows.length ↔ limit < rows.length := by omega
  unfold listGroupHistory
  rw [if_neg (by simp [hargs])]
  dsimp only
  rw [hfind]
  dsimp only
  rw [if_neg (by simp), if_neg (by simp [hvalid]), hlen, ← hrows]
  simp only [hmore]
  by_cases hlong : limit < rows.length
  · rw [if_pos hlong, List.take_take, Nat.min_eq_left (Nat.le_succ limit)]
  · rw [if_neg hlong, List.take_of_length_le (by rw [List.length_reverse]; omega),
      List.take_of_length_le (by rw [List.length_reverse]; omega)]

omit [DecidableEq κ] in
theorem groupDrained (h : Kept collate topic ls st) (hactor : actor ≠ 0) (hgroup : group ≠ 0)
    (hpos : 0 < limit) (hle : limit ≤ 100) : GroupDrained st.db actor group limit := by
  have hincr : (groupRecords st.db actor group).Pairwise fun a b => a.messageId < b.messageId :=
    h.ascending.sublist List.filter_sublist
  have hids : ∀ m ∈ groupRecords st.db actor group, 0 < m.messageId := fun m hm =>
    Nat.pos_of_ne_zero (h.row (List.mem_filter.1 hm).1).2.1
  have hpage := listGroupHistory_page h hactor hgroup hpos hle
  have hcuts : Cuts
      (fun before => listGroupHistory (some (storeGroupHistory st.db)) actor group before limit)
      (fun p => p.hasMore = false)
      (fun p => (p.messages.getLast?.map GroupMessageRecord.messageId).getD 0) (fun _ => True)
      PageResult.messages fun c => (visibleRows st.db actor group c).reverse := by
    refine .of_take GroupMessageRecord.messageId (fun c n x _ hx => ?_) fun c _ => ⟨limit, ?_⟩
    · rw [visibleRows_eq] at hx ⊢
      rw [visibleRows_eq st.db actor group c]
      exact below_cut hincr hids hx
    · rw [hpage c]
      dsimp only
      refine ⟨rfl, fun hlast => ?_, fun hmore => ?_⟩
      · rw [List.length_reverse]
        exact not_lt.1 (of_decide_eq_false hlast)
      · have hlong : limit < (visibleRows st.db actor group c).length := by simpa using hmore
        have hsome : (visibleRows st.db actor group c).reverse.take limit ≠ [] := by
          rw [Ne, List.take_eq_nil_iff, not_or, List.reverse_eq_nil_iff, ← List.length_eq_zero_iff]
          omega
        have hx := List.getLast?_eq_some_getLast hsome
        exact ⟨_, hx, by rw [hx]; rfl, trivial⟩
  refine ⟨fun m => ?_, hincr, hpage, ?_⟩
  · rw [groupRecords, visibleRows, List.mem_filter]
    simp
  · obtain ⟨pages, hdrain, hall⟩ := hcuts.drain (c := 0) trivial
    exact ⟨pages, hdrain, hall⟩

end Group

/-! ## All of them -/

open TinyImx.Local (Options Store UsersFit ReachableWith checkOpen actor dialog) in
/-- For every limit the service accepts, the pending messages of a receiver, the history of a dialog
and the history of a group are read completely, every message once, and no page is an error. -/
theorem pages_complete {κ : Type} [DecidableEq κ] {collate : Bytes → κ} {topic : Bytes}
    {opts : Options} {s : Store} {ls : List Label} {st : State} (h : ReachableWith UsersFit opts s)
    (hopen : checkOpen s = .ok ()) (hrun : Run (Step collate topic) .initial ls st) :
    (∀ r limit, r < 2 ^ 64 → actor opts r = .ok () → 0 < limit → limit ≤ 100 →
      PendingDrained opts s r limit) ∧
    (∀ a b limit, a < 2 ^ 64 → b < 2 ^ 64 → dialog opts a b = .ok () → 0 < limit → limit ≤ 50 →
      HistoryDrained opts s a b limit) ∧
    ∀ user group limit, user ≠ 0 → group ≠ 0 → 0 < limit → limit ≤ 100 →
      GroupDrained st.db user group limit := by
  have hinv := h.reachable.inv
  have hnum : Local.Numbers s.db := ⟨hinv.sound, h.contents Local.usersFit_stable.lasts⟩
  have hcontent := h.reachable.withContent.contents Local.contentFits_stable.lasts
  have huntouched := h.reachable.withUntouched.contents Local.untouched_lasts
  refine ⟨fun r limit hr hactor hpos hle => ?_, fun a b limit ha hb hdialog hpos hle => ?_,
    fun user group limit huser hgroup hpos hle => groupDrained (kept_of_run hrun) huser hgroup hpos hle⟩
  · have hlisted := Local.pendingListed hnum hopen hactor hr hpos (hle.trans (by decide))
    refine pendingDrained hlisted hnum (fun m hm => ?_) ?_ hpos hle
    · obtain ⟨⟨mid, hmid⟩, -, hstate⟩ := (hlisted.members m).1 hm
      exact charge_pending hinv.sound.toRows hcontent huntouched hmid hstate
    · exact (Local.actor_pos hactor).ne'
  · have hlisted := Local.historyListed hnum hopen hdialog ha hb (Nat.succ_pos limit)
      (Nat.succ_le_succ (hle.trans (by decide)))
    obtain ⟨ha0, hb0, hne⟩ := Local.dialog_ok hdialog
    exact historyDrained hlisted hnum ha0.ne' hb0.ne' hne hpos hle

/-- The small store after one message, and the tables of a group after one message. -/
theorem pages_complete_sent : PendingDrained Local.sampleOptions Local.sampleSent 2 1 ∧
    HistoryDrained Local.sampleOptions Local.sampleSent 1 2 50 ∧
    ∃ db : Db, db.messages = [⟨1, ⟨7, 3, [1], 1, [2]⟩, 1, 1, 1⟩] ∧ GroupDrained db 8 3 100 := by
  have hrun : Run (Step (id : Bytes → Bytes) []) .initial [] .initial := .nil _
  have hrun := hrun.snoc (.begin 0 ⟨⟨7, 3, [1], 1, [2]⟩, .service⟩ rfl)
  have hrun := hrun.snoc (.lookup (c := 0) none rfl)
  have hrun := hrun.snoc (.authorize (c := 0) (.allowed ⟨1, 1, 1, [8, 9]⟩) rfl)
  have hrun := hrun.snoc (.precheck (c := 0) none false rfl)
  have hrun := hrun.snoc (.commitLost (c := 0) { insertId := 1 } "" rfl (by decide) rfl)
  have h := pages_complete Local.sampleSent_users rfl hrun
  exact ⟨h.1 2 1 (by decide) rfl Nat.one_pos (by decide),
    h.2.1 1 2 50 (by decide) (by decide) rfl (by decide) le_rfl,
    _, rfl, h.2.2 8 3 100 (by decide) (by decide) (by decide) le_rfl⟩

end TinyImx.Message
