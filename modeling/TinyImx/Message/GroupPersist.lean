import TinyImx.Local.Types

/-!
# Persistence of group messages

`PersistAuthorizedGroupMessage` and the functions of the repository it calls.  A message is written
in one transaction: the row of `im_group_messages`, one row of `im_group_message_deliveries` for each
recipient, in batches of 256, and one row of `im_event_outbox`.

A lookup compares client message ids as the collation of the column does, and the unique key does
too; `collate` maps an id to what the collation keeps of it.  The times of creation are left out.
-/

namespace TinyImx.Message

open TinyImx.Local (Bytes Status PersistOutcome Failure require ascii decimal)

structure GroupMessage where
  fromUserId : ℕ
  groupId : ℕ
  clientMessageId : Bytes
  messageType : ℕ
  content : Bytes
  deriving DecidableEq

/-- What `PrepareGroupMessageSend` says about a sender who may send. -/
structure Snapshot where
  membershipEpoch : ℕ
  memberVersion : ℕ
  role : ℕ
  recipientUserIds : List ℕ

/-- A row of `im_group_messages`. -/
structure GroupMessageRecord where
  messageId : ℕ
  message : GroupMessage
  membershipEpoch : ℕ
  memberVersion : ℕ
  authorizedRole : ℕ

/-- A row of `im_group_message_deliveries`, with the columns that the insert fixes. -/
structure DeliveryRow where
  messageId : ℕ
  recipientUserId : ℕ
  groupId : ℕ
  deliveryStatus : ℕ
  attemptCount : ℕ

def DeliveryRow.key (row : DeliveryRow) : ℕ × ℕ := (row.messageId, row.recipientUserId)

/-- A row of `im_event_outbox` as `OutboxEventSpec` describes it. -/
structure EventSpec where
  schemaVersion : ℕ
  eventId : Bytes
  eventType : Bytes
  aggregateType : Bytes
  aggregateId : Bytes
  producerService : Bytes
  payload : List (String × ℕ)
  topic : Bytes
  tag : Bytes
  messageKey : Bytes

structure Db where
  messages : List GroupMessageRecord
  deliveries : List DeliveryRow
  outbox : List EventSpec
  /-- A value that `AUTO_INCREMENT` has not given yet, nor any after it. -/
  nextMessage : ℕ

def Db.empty : Db := ⟨[], [], [], 1⟩

/-- `MessageRepositoryGroupPersistResult`. -/
structure GroupPersistResult where
  status : Status := .storageError
  outcome : PersistOutcome := .created
  messageId : ℕ := 0
  record : Option GroupMessageRecord := none
  message : String := ""

def GroupPersistResult.accepted (r : GroupPersistResult) : Bool :=
  r.status = .succeeded && (r.outcome = .created || r.outcome = .reused)

def Failure.result (e : Failure) : GroupPersistResult := { status := e.status, message := e.message }

/-! ## Checks -/

def validIdentity (m : GroupMessage) (snap : Snapshot) : Bool :=
  !(m.fromUserId = 0 || m.groupId = 0 || m.clientMessageId = [] || 64 < m.clientMessageId.length ||
    m.messageType < 1 || 3 < m.messageType || m.content = [] || snap.membershipEpoch = 0 ||
    snap.memberVersion = 0 || snap.role < 1 || 3 < snap.role)

/-- The loop over the recipients, where `previous` is the one before. -/
def recipientsValid (sender : ℕ) (previous : ℕ) : List ℕ → Bool
  | [] => true
  | recipient :: rest =>
    !(recipient = 0 || recipient = sender || recipient ≤ previous) &&
      recipientsValid sender recipient rest

/-- The argument checks of the adapter's `PersistAuthorizedGroupMessage`. -/
def checkAuthorized (m : GroupMessage) (snap : Snapshot) : Except Failure Unit := do
  require (validIdentity m snap) .invalidArgument "invalid authorized group message"
  require (snap.recipientUserIds.length ≤ 5000) .invalidArgument
    "group recipient snapshot exceeds supported size"
  require (recipientsValid m.fromUserId 0 snap.recipientUserIds) .invalidArgument
    "group recipient snapshot must be sorted unique and exclude sender"

def sameIdentity (m : GroupMessage) (record : GroupMessageRecord) : Bool :=
  record.messageId ≠ 0 && record.message = m

def setExisting (m : GroupMessage) (record : GroupMessageRecord) : GroupPersistResult :=
  if sameIdentity m record then
    ⟨.succeeded, .reused, record.messageId, some record, "existing group message reused"⟩
  else
    ⟨.succeeded, .idempotencyConflict, record.messageId, some record,
      "client_message_id already belongs to a different group message"⟩

/-! ## Lookups -/

def GroupMessageRecord.built (r : GroupMessageRecord) : Bool :=
  r.messageId ≠ 0 && r.message.groupId ≠ 0 && r.message.fromUserId ≠ 0 &&
    r.message.clientMessageId ≠ [] && 1 ≤ r.message.messageType && r.message.messageType ≤ 3 &&
    r.membershipEpoch ≠ 0 && r.memberVersion ≠ 0 && 1 ≤ r.authorizedRole && r.authorizedRole ≤ 3

variable {κ : Type} [DecidableEq κ] (collate : Bytes → κ)

def GroupMessage.key (m : GroupMessage) : ℕ × κ := (m.fromUserId, collate m.clientMessageId)

def oneRecord (invalid : String) : List GroupMessageRecord →
    Except Failure (Option GroupMessageRecord)
  | [] => .ok none
  | [record] => if record.built then .ok (some record) else .error ⟨.invalidRecord, invalid⟩
  | _ => .error ⟨.invalidRecord, invalid⟩

/-- `MessageRepository::FindGroupMessageByClientMessageId`; `fault` is the text of a failure of the
pool or of the query. -/
def findGroupMessageByClientMessageId (db : Db) (fault : Option String) (m : GroupMessage) :
    Except Failure (Option GroupMessageRecord) :=
  if m.fromUserId = 0 ∨ m.clientMessageId = [] ∨ 64 < m.clientMessageId.length then
    .error ⟨.invalidArgument,
      "group message idempotency find failed: invalid input or pool unavailable"⟩
  else match fault with
    | some text => .error ⟨.storageError, text⟩
    | none => oneRecord "group message idempotency find returned invalid record"
        (db.messages.filter fun r => r.message.key collate = m.key collate)

/-! ## The transaction -/

structure Faults where
  referencesMissing : Bool := false
  insertFails : Bool := false
  findFails : Bool := false
  deliveryReferencesMissing : Bool := false
  batchFails : ℕ → Bool := fun _ => false
  outboxFails : Bool := false
  /-- What `LastError` says after a statement that failed. -/
  lastError : String := ""
  /-- The next value of `AUTO_INCREMENT`. -/
  insertId : ℕ

/-- `LastError`, or a text of the program's own where MySQL has none. -/
def Faults.error (f : Faults) (otherwise : String) : Failure :=
  ⟨.storageError, if f.lastError = "" then otherwise else f.lastError⟩

def saveGroupMessageOnConnection (f : Faults) (m : GroupMessage) (snap : Snapshot) (db : Db) :
    Except Failure (ℕ × Db) :=
  if !validIdentity m snap then
    .error ⟨.invalidArgument, "group message save failed: invalid durable identity"⟩
  else if f.referencesMissing then
    .error ⟨.storageError, "logical reference missing or storage unavailable"⟩
  else if f.insertFails || db.messages.any (fun r => r.message.key collate = m.key collate) then
    .error (f.error "group message insert failed")
  else if f.insertId = 0 then
    .error ⟨.storageError, "group message insert returned invalid id"⟩
  else .ok (f.insertId, { db with
    messages := db.messages ++
      [⟨f.insertId, m, snap.membershipEpoch, snap.memberVersion, snap.role⟩]
    nextMessage := f.insertId + 1 })

def findGroupMessageByIdOnConnection (f : Faults) (id : ℕ) (db : Db) :
    Except Failure (Option GroupMessageRecord) :=
  if id = 0 then .error ⟨.invalidArgument, "group message find failed: invalid message id"⟩
  else if f.findFails then .error ⟨.storageError, f.lastError⟩
  else oneRecord "group message find returned invalid record"
    (db.messages.filter fun r => r.messageId = id)

def kBatchSize : ℕ := 256

def DeliveryRow.pending (id group recipient : ℕ) : DeliveryRow := ⟨id, recipient, group, 1, 0⟩

/-- One statement of the loop over the recipients: their `i`-th batch. -/
def insertBatch (f : Faults) (id group : ℕ) (recipients : List ℕ) (work : ℕ × Db) (i : ℕ) :
    Except Failure (ℕ × Db) :=
  let batch := (recipients.drop (kBatchSize * i)).take kBatchSize
  let rows := batch.map (DeliveryRow.pending id group)
  if 0 ∈ batch then .error ⟨.invalidArgument, "group delivery recipient is zero"⟩
  else if f.batchFails i || !decide ((work.2.deliveries ++ rows).map DeliveryRow.key).Nodup then
    .error ⟨.storageError, "group delivery batch insert failed: " ++ f.lastError⟩
  else .ok (work.1 + rows.length, { work.2 with deliveries := work.2.deliveries ++ rows })

/-- `InsertGroupMessageDeliveriesOnConnection`, which returns the number of rows it inserted. -/
def insertGroupMessageDeliveriesOnConnection (f : Faults) (id group : ℕ) (recipients : List ℕ)
    (db : Db) : Except Failure (ℕ × Db) :=
  if id = 0 || group = 0 || 5000 < recipients.length then
    .error ⟨.invalidArgument, "invalid group delivery insert arguments"⟩
  else if recipients = [] then .ok (0, db)
  else if f.deliveryReferencesMissing then
    .error ⟨.storageError, "group delivery contains missing or mismatched logical references"⟩
  else (List.range ((recipients.length + (kBatchSize - 1)) / kBatchSize)).foldlM
    (insertBatch f id group recipients) (0, db)

def groupMessageCreated (topic : Bytes) (r : GroupMessageRecord) : EventSpec where
  schemaVersion := 1
  eventId := ascii "group_message.created.v1:" ++ decimal r.messageId
  eventType := ascii "group_message.created.v1"
  aggregateType := ascii "group_message"
  aggregateId := decimal r.messageId
  producerService := ascii "message-service"
  payload := [("message_id", r.messageId), ("group_id", r.message.groupId),
    ("from_user_id", r.message.fromUserId), ("message_type", r.message.messageType),
    ("membership_epoch", r.membershipEpoch), ("member_version", r.memberVersion)]
  topic := topic
  tag := ascii "group_message.created.v1"
  messageKey := ascii "group_message.created.v1:" ++ decimal r.messageId

/-- `OutboxRepository::InsertOnConnection`; `event_id` is a unique key. -/
def insertOutboxOnConnection (f : Faults) (event : EventSpec) (db : Db) : Except Failure Db :=
  if f.outboxFails || db.outbox.any (fun e => e.eventId = event.eventId) then
    .error (f.error "outbox insert failed: execute failed")
  else .ok { db with outbox := db.outbox ++ [event] }

inductive Rollback where
  | insert (error : String)
  | other (failure : Failure)

def verified (m : GroupMessage) (snap : Snapshot) (created : GroupMessageRecord) : Bool :=
  sameIdentity m created && created.membershipEpoch = snap.membershipEpoch &&
    created.memberVersion = snap.memberVersion && created.authorizedRole = snap.role

/-- The statements of `PersistAuthorizedGroupMessage` between `BeginTransaction` and `Commit`. -/
def persistOnConnection (topic : Bytes) (f : Faults) (m : GroupMessage) (snap : Snapshot) (db : Db) :
    Except Rollback (GroupMessageRecord × Db) :=
  match saveGroupMessageOnConnection collate f m snap db with
  | .error e =>
    .error (.insert (if e.message = "" then "group message insert failed" else e.message))
  | .ok (id, db) =>
    match findGroupMessageByIdOnConnection f id db with
    | .error e => .error (.other ⟨e.status, "group message post-insert verification failed"⟩)
    | .ok none =>
      .error (.other ⟨.invalidRecord, "group message post-insert verification failed"⟩)
    | .ok (some created) =>
      if !verified m snap created then
        .error (.other ⟨.invalidRecord, "group message post-insert verification failed"⟩)
      else match insertGroupMessageDeliveriesOnConnection f created.messageId m.groupId
          snap.recipientUserIds db with
        | .error e => .error (.other ⟨e.status, "group delivery insert failed: " ++ e.message⟩)
        | .ok (affected, db) =>
          if affected ≠ snap.recipientUserIds.length then
            .error (.other ⟨.invalidRecord, "group delivery recipient count mismatch"⟩)
          else match insertOutboxOnConnection f (groupMessageCreated topic created) db with
            | .error e =>
              .error (.other ⟨.storageError, "group message outbox insert failed: " ++ e.message⟩)
            | .ok db => .ok (created, db)

/-! ## What the functions do -/

theorem recipientsValid_iff (sender previous : ℕ) (recipients : List ℕ) :
    recipientsValid sender previous recipients = true ↔
      (∀ r ∈ recipients, previous < r) ∧ sender ∉ recipients ∧ recipients.Pairwise (· < ·) := by
  induction recipients generalizing previous with
  | nil => simp [recipientsValid]
  | cons r rest ih =>
    simp only [recipientsValid, Bool.and_eq_true, ih, List.mem_cons, List.pairwise_cons,
      Bool.not_eq_true', Bool.or_eq_false_iff, decide_eq_false_iff_not, not_or]
    constructor
    · grind
    · rintro ⟨hlt, ⟨hsender, hmem⟩, hrest, hpair⟩
      have := hlt r (Or.inl rfl)
      exact ⟨⟨⟨by omega, fun h => hsender h.symm⟩, by omega⟩, hrest, hmem, hpair⟩

structure Authorized (m : GroupMessage) (snap : Snapshot) : Prop where
  identity : validIdentity m snap = true
  length : snap.recipientUserIds.length ≤ 5000
  positive : ∀ r ∈ snap.recipientUserIds, 0 < r
  others : m.fromUserId ∉ snap.recipientUserIds
  sorted : snap.recipientUserIds.Pairwise (· < ·)

theorem checkAuthorized_ok_iff (m : GroupMessage) (snap : Snapshot) :
    checkAuthorized m snap = .ok () ↔ Authorized m snap := by
  have hvalid := recipientsValid_iff m.fromUserId 0 snap.recipientUserIds
  by_cases h₁ : validIdentity m snap = true
  · by_cases h₂ : snap.recipientUserIds.length ≤ 5000
    · by_cases h₃ : recipientsValid m.fromUserId 0 snap.recipientUserIds = true
      · obtain ⟨hpositive, hothers, hsorted⟩ := hvalid.1 h₃
        have hok : checkAuthorized m snap = .ok () := by
          simp [checkAuthorized, require, h₁, h₂, h₃, bind, Except.bind]
        exact ⟨fun _ => ⟨h₁, h₂, hpositive, hothers, hsorted⟩, fun _ => hok⟩
      · refine ⟨fun h => ?_, fun h => absurd (hvalid.2 ⟨h.positive, h.others, h.sorted⟩) h₃⟩
        simp [checkAuthorized, require, h₁, h₂, h₃, bind, Except.bind] at h
    · refine ⟨fun h => ?_, fun h => absurd h.length h₂⟩
      simp [checkAuthorized, require, h₁, h₂, bind, Except.bind] at h
  · refine ⟨fun h => ?_, fun h => absurd h.identity h₁⟩
    simp [checkAuthorized, require, h₁, bind, Except.bind] at h

def deliveryRows (id group : ℕ) (recipients : List ℕ) : List DeliveryRow :=
  recipients.map (DeliveryRow.pending id group)

theorem insertBatch_ok {f : Faults} {id group i : ℕ} {recipients : List ℕ} {work out : ℕ × Db}
    (h : insertBatch f id group recipients work i = .ok out) :
    out = (work.1 + ((recipients.drop (kBatchSize * i)).take kBatchSize).length,
      { work.2 with deliveries := work.2.deliveries ++
          deliveryRows id group ((recipients.drop (kBatchSize * i)).take kBatchSize) }) := by
  simp only [insertBatch] at h
  split at h
  · cases h
  · split at h
    · cases h
    · simpa [deliveryRows] using h.symm

theorem insertBatches_ok {f : Faults} {id group : ℕ} {recipients : List ℕ} {db : Db} {n : ℕ}
    {out : ℕ × Db}
    (h : (List.range n).foldlM (insertBatch f id group recipients) (0, db) = .ok out) :
    out = ((recipients.take (kBatchSize * n)).length,
      { db with
        deliveries := db.deliveries ++ deliveryRows id group (recipients.take (kBatchSize * n)) }) := by
  induction n generalizing out with
  | zero => simpa [deliveryRows, pure, Except.pure] using h.symm
  | succ n ih =>
    rw [List.range_succ, List.foldlM_append] at h
    cases hn : (List.range n).foldlM (insertBatch f id group recipients) (0, db) with
    | error e => simp [hn, bind, Except.bind] at h
    | ok work =>
      have hlast : insertBatch f id group recipients work n = .ok out := by
        rw [hn] at h
        simp only [List.foldlM_cons, List.foldlM_nil, bind_pure] at h
        exact h
      have htake : recipients.take (kBatchSize * (n + 1)) = recipients.take (kBatchSize * n) ++
          (recipients.drop (kBatchSize * n)).take kBatchSize := by
        rw [Nat.mul_succ, List.take_add]
      rw [insertBatch_ok hlast, ih hn, htake]
      simp [deliveryRows, List.append_assoc]

theorem insertDeliveries_ok {f : Faults} {id group n : ℕ} {recipients : List ℕ} {db db' : Db}
    (h : insertGroupMessageDeliveriesOnConnection f id group recipients db = .ok (n, db')) :
    db' = { db with deliveries := db.deliveries ++ deliveryRows id group recipients } := by
  simp only [insertGroupMessageDeliveriesOnConnection] at h
  split at h
  · cases h
  · split at h
    · next hnil =>
      cases h
      simp [hnil, deliveryRows]
    · split at h
      · cases h
      · have hout := congrArg Prod.snd (insertBatches_ok h)
        have hall : recipients.length ≤
            kBatchSize * ((recipients.length + (kBatchSize - 1)) / kBatchSize) := by
          simp only [kBatchSize]
          omega
        rwa [List.take_of_length_le hall] at hout

def Db.write (topic : Bytes) (record : GroupMessageRecord) (recipients : List ℕ) (db : Db) : Db where
  messages := db.messages ++ [record]
  deliveries := db.deliveries ++ deliveryRows record.messageId record.message.groupId recipients
  outbox := db.outbox ++ [groupMessageCreated topic record]
  nextMessage := record.messageId + 1

def recordOf (id : ℕ) (m : GroupMessage) (snap : Snapshot) : GroupMessageRecord :=
  ⟨id, m, snap.membershipEpoch, snap.memberVersion, snap.role⟩

theorem saveGroupMessage_ok {f : Faults} {m : GroupMessage} {snap : Snapshot} {db : Db}
    {out : ℕ × Db} (h : saveGroupMessageOnConnection collate f m snap db = .ok out) :
    (∀ r ∈ db.messages, r.message.key collate ≠ m.key collate) ∧ f.insertId ≠ 0 ∧
      out = (f.insertId, { db with
        messages := db.messages ++ [recordOf f.insertId m snap], nextMessage := f.insertId + 1 }) := by
  simp only [saveGroupMessageOnConnection] at h
  split at h
  · cases h
  · split at h
    · cases h
    · split at h
      · cases h
      · next hkey =>
        split at h
        · cases h
        · next hid =>
          refine ⟨fun r hr hsame => hkey ?_, hid, by simpa [recordOf] using h.symm⟩
          have hany : db.messages.any (fun r => r.message.key collate = m.key collate) = true :=
            List.any_eq_true.2 ⟨r, hr, by simpa using hsame⟩
          simp [hany]

theorem oneRecord_some {invalid : String} {records : List GroupMessageRecord}
    {record : GroupMessageRecord} (h : oneRecord invalid records = .ok (some record)) :
    records = [record] := by
  match records with
  | [] => cases h
  | [r] =>
    simp only [oneRecord] at h
    grind
  | _ :: _ :: _ => cases h

theorem findById_some {f : Faults} {id : ℕ} {db : Db} {record : GroupMessageRecord}
    (h : findGroupMessageByIdOnConnection f id db = .ok (some record)) :
    db.messages.filter (fun r => r.messageId = id) = [record] := by
  simp only [findGroupMessageByIdOnConnection] at h
  split at h
  · cases h
  · split at h
    · cases h
    · exact oneRecord_some h

theorem eq_of_verified {m : GroupMessage} {snap : Snapshot} {id : ℕ} {created : GroupMessageRecord}
    (hid : created.messageId = id) (h : verified m snap created = true) :
    created = recordOf id m snap := by
  simp only [verified, sameIdentity, Bool.and_eq_true, decide_eq_true_eq] at h
  obtain ⟨id', message, epoch, version, role⟩ := created
  simp_all [recordOf]

theorem insertOutbox_ok {f : Faults} {event : EventSpec} {db db' : Db}
    (h : insertOutboxOnConnection f event db = .ok db') :
    db' = { db with outbox := db.outbox ++ [event] } := by
  simp only [insertOutboxOnConnection] at h
  split at h
  · cases h
  · simpa using h.symm

theorem persistOnConnection_ok {topic : Bytes} {f : Faults} {m : GroupMessage} {snap : Snapshot}
    {db db' : Db} {record : GroupMessageRecord}
    (h : persistOnConnection collate topic f m snap db = .ok (record, db')) :
    (∀ r ∈ db.messages, r.message.key collate ≠ m.key collate) ∧ f.insertId ≠ 0 ∧
      record = recordOf f.insertId m snap ∧ db' = db.write topic record snap.recipientUserIds := by
  delta persistOnConnection at h
  split at h
  · cases h
  · next id db₁ hsave =>
    obtain ⟨hkey, hid, hout⟩ := saveGroupMessage_ok collate hsave
    split at h
    · cases h
    · cases h
    · next created hfind =>
      split at h
      · cases h
      · next hverified =>
        split at h
        · cases h
        · next affected db₂ hdeliveries =>
          split at h
          · cases h
          · split at h
            · cases h
            · next db₃ houtbox =>
              obtain ⟨rfl, rfl⟩ := Prod.mk.inj hout
              have hmem : created ∈ [created] := List.mem_singleton_self _
              rw [← findById_some hfind] at hmem
              have hcreated : created = recordOf f.insertId m snap := by
                simp only [List.mem_filter, decide_eq_true_eq] at hmem
                exact eq_of_verified hmem.2 (by simpa using hverified)
              subst hcreated
              rw [insertDeliveries_ok hdeliveries] at houtbox
              obtain ⟨rfl, rfl⟩ := Prod.mk.inj (Except.ok.inj h)
              exact ⟨hkey, hid, rfl, insertOutbox_ok houtbox⟩

/-! ## Failures -/

theorem require_error {value : Bool} {status : Status} {text : String} {e : Failure}
    (h : require value status text = .error e) : e.status = status := by
  simp only [require] at h
  grind

theorem checkAuthorized_error {m : GroupMessage} {snap : Snapshot} {e : Failure}
    (h : checkAuthorized m snap = .error e) : e.status = .invalidArgument := by
  simp only [checkAuthorized, bind, Except.bind] at h
  split at h
  · next h' =>
    cases h
    exact require_error h'
  · split at h
    · next h' =>
      cases h
      exact require_error h'
    · exact require_error h

theorem oneRecord_error {invalid : String} {records : List GroupMessageRecord} {e : Failure}
    (h : oneRecord invalid records = .error e) : e.status = .invalidRecord := by
  match records with
  | [] => cases h
  | [r] =>
    simp only [oneRecord] at h
    grind
  | _ :: _ :: _ =>
    cases h
    rfl

theorem findGroupMessage_error {db : Db} {fault : Option String} {m : GroupMessage} {e : Failure}
    (h : findGroupMessageByClientMessageId collate db fault m = .error e) :
    e.status ≠ .succeeded := by
  simp only [findGroupMessageByClientMessageId] at h
  split at h
  · cases h
    nofun
  · cases fault with
    | some text =>
      cases h
      nofun
    | none =>
      rw [oneRecord_error h]
      nofun

theorem findById_error {f : Faults} {id : ℕ} {db : Db} {e : Failure}
    (h : findGroupMessageByIdOnConnection f id db = .error e) : e.status ≠ .succeeded := by
  simp only [findGroupMessageByIdOnConnection] at h
  split at h
  · cases h
    nofun
  · split at h
    · cases h
      nofun
    · rw [oneRecord_error h]
      nofun

theorem insertBatch_error {f : Faults} {id group i : ℕ} {recipients : List ℕ} {work : ℕ × Db}
    {e : Failure} (h : insertBatch f id group recipients work i = .error e) :
    e.status ≠ .succeeded := by
  simp only [insertBatch] at h
  split at h
  · cases h
    nofun
  · split at h
    · cases h
      nofun
    · cases h

theorem foldlM_insertBatch_error {f : Faults} {id group : ℕ} {recipients : List ℕ} {e : Failure}
    (is : List ℕ) {work : ℕ × Db}
    (h : is.foldlM (insertBatch f id group recipients) work = .error e) : e.status ≠ .succeeded := by
  induction is generalizing work with
  | nil => cases h
  | cons i is ih =>
    rw [List.foldlM_cons] at h
    cases hi : insertBatch f id group recipients work i with
    | error e' =>
      rw [hi] at h
      cases h
      exact insertBatch_error hi
    | ok work' =>
      rw [hi] at h
      exact ih h

theorem insertDeliveries_error {f : Faults} {id group : ℕ} {recipients : List ℕ} {db : Db}
    {e : Failure} (h : insertGroupMessageDeliveriesOnConnection f id group recipients db = .error e) :
    e.status ≠ .succeeded := by
  simp only [insertGroupMessageDeliveriesOnConnection] at h
  split at h
  · cases h
    nofun
  · split at h
    · cases h
    · split at h
      · cases h
        nofun
      · exact foldlM_insertBatch_error _ h

theorem persistOnConnection_other {topic : Bytes} {f : Faults} {m : GroupMessage} {snap : Snapshot}
    {db : Db} {e : Failure}
    (h : persistOnConnection collate topic f m snap db = .error (.other e)) :
    e.status ≠ .succeeded := by
  delta persistOnConnection at h
  split at h
  · cases h
  · split at h
    · next hfind =>
      cases h
      have hstatus := findById_error hfind
      exact hstatus
    · cases h
      nofun
    · split at h
      · cases h
        nofun
      · split at h
        · next hdeliveries =>
          cases h
          have hstatus := insertDeliveries_error hdeliveries
          exact hstatus
        · grind

end TinyImx.Message
