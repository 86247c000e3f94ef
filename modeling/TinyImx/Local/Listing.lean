import Mathlib.Data.List.TakeWhile
import TinyImx.Lib.Paging
import TinyImx.Local.Contents
import TinyImx.Local.Counters
import TinyImx.Local.Keys

/-!
# Listing messages page by page

`ListHistory`, `ListPendingAfter` and `ListPendingRecipientsAfter` over the engine's iterator.  Each
seeks in the bytes of the keys, steps over the cursor, and reads on until the prefix or the limit
ends.  A reader that chains the pages reads the whole family, every message or user once.
-/

namespace TinyImx.Local

open Kv Act Ordered Paging

/-- `MessageRepositoryHistoryResult`. -/
structure HistoryResult where
  status : Status := .storageError
  records : List MessageView := []
  message : String := ""

structure PendingRecipientsResult where
  status : Status := .storageError
  recipientUserIds : List ℕ := []
  hasMore : Bool := false
  message : String := ""

/-! ## History -/

def historyRecord (db : Db) (a b : ℕ) (e : Entry) : Except Failure MessageView := do
  let mid ← unhex (e.key.drop (dialogPrefix a b).length)
  let found ← record db mid
  require (found.Found && ((found.record.fromUserId = a && found.record.toUserId = b) ||
      (found.record.fromUserId = b && found.record.toUserId = a)))
    .invalidRecord "orphan local dialog index"
  return found.record

/-- Where the loop of `ListHistory` starts: below the cursor, or at the end of the dialog. -/
def historyStart (db : Db) (a b before : ℕ) : List Entry :=
  let bound := if before = 0 then dialogPrefix a b ++ ascii "~" else dialogPrefix a b ++ hex before
  let it := seekForPrev Entry.key bound (iterator db)
  if before = 0 then it else skipAt Entry.key bound it

def listHistory (opts : Options) (a b before limit : ℕ) : Store → HistoryResult × Store :=
  call (do
    check (dialog opts a b)
    check (checkLimit limit)
    let records ← .inspect fun s =>
      collect (startsWith Entry.key (dialogPrefix a b)) limit (historyRecord s.db a b)
        (historyStart s.db a b before) []
    return { status := .succeeded, records := records.reverse }) id
    fun e => { status := e.status, message := e.message }

/-! ## Pending messages -/

def pendingEntry (db : Db) (receiver : ℕ) (e : Entry) : Except Failure MessageView := do
  let mid ← unhex (e.key.drop (pendingPrefix receiver).length)
  pendingRecord db receiver mid

/-- Where the loop of `ListPendingAfter` starts: behind the cursor. -/
def pendingStart (db : Db) (receiver after : ℕ) : List Entry :=
  let start := pendingPrefix receiver ++ hex after
  skipAt Entry.key start (seek Entry.key start (iterator db))

def Engine.listPendingAfter (opts : Options) (receiver after limit : ℕ) :
    Store → PendingResult × Store :=
  call (do
    check (actor opts receiver)
    check (checkLimit limit)
    let records ← .inspect fun s =>
      collect (startsWith Entry.key (pendingPrefix receiver)) limit (pendingEntry s.db receiver)
        (pendingStart s.db receiver after) []
    return { status := .succeeded, records := records }) id
    fun e => { status := e.status, message := e.message }

/-! ## Users with pending messages -/

def Entry.count : Entry → Except Failure ℕ
  | ⟨.Q _, n⟩ => .ok n
  | _ => .error ⟨.invalidRecord, "invalid local numeric value"⟩

def recipientsLoop (limit : ℕ) : List Entry → List ℕ → Except Failure (List ℕ × Bool)
  | [], out => .ok (out, false)
  | e :: it, out =>
    if startsWith Entry.key (ascii "Q/") e then do
      let count ← e.count
      require (0 < count) .invalidRecord "zero local pending-recipient index"
      if out.length = limit then return (out, true)
      else do
        let id ← unhex (e.key.drop 2)
        recipientsLoop limit it (out ++ [id])
    else .ok (out, false)

/-- Where the loop of `ListPendingRecipientsAfter` starts: behind the cursor. -/
def recipientsStart (db : Db) (after : ℕ) : List Entry :=
  let start := ascii "Q/" ++ hex after
  skipAt Entry.key start (seek Entry.key start (iterator db))

def listPendingRecipientsAfter (after limit : ℕ) : Store → PendingRecipientsResult × Store :=
  call (do
    check (checkLimit limit)
    let out ← .inspect fun s => recipientsLoop limit (recipientsStart s.db after) []
    return { status := .succeeded, recipientUserIds := out.1, hasMore := out.2 }) id
    fun e => { status := e.status, message := e.message }

/-! ## The three families -/

def historyNumber (a b : ℕ) : Key → Option ℕ
  | .H low high mid => if low = min a b ∧ high = max a b then some mid else none
  | _ => none

def pendingNumber (receiver : ℕ) : Key → Option ℕ
  | .P r mid => if r = receiver then some mid else none
  | _ => none

def recipientNumber : Key → Option ℕ
  | .Q r => some r
  | _ => none

variable {db : Db} {a b r n : ℕ} {k : Key}

theorem eq_of_historyNumber (h : historyNumber a b k = some n) : k = .H (min a b) (max a b) n := by
  cases k with
  | H low high mid =>
    rw [historyNumber] at h
    simp_all
  | _ => cases h

theorem eq_of_pendingNumber (h : pendingNumber r k = some n) : k = .P r n := by
  cases k with
  | P r' mid =>
    rw [pendingNumber] at h
    simp_all
  | _ => cases h

theorem eq_of_recipientNumber (h : recipientNumber k = some n) : k = .Q n := by
  cases k with
  | Q r =>
    cases h
    rfl
  | _ => cases h

theorem hex_prefix {c : Bytes} {m n : ℕ} {x y : Bytes} (hm : m < 2 ^ 64) (hn : n < 2 ^ 64)
    (h : c ++ hex m ++ x = c ++ hex n ++ y) : m = n ∧ x = y := by
  rw [List.append_assoc, List.append_assoc] at h
  obtain ⟨hhex, hrest⟩ := List.append_inj (List.append_cancel_left h) (by simp)
  exact ⟨hex_inj hm hn hhex, hrest⟩

structure Numbers (db : Db) : Prop where
  sound : Sound db
  users : Contents UsersFit db

variable {mid : ℕ}

namespace Numbers

theorem mid_lt (h : Numbers db) {m : MessageView} (hm : db.lookup (.M mid) = some m) :
    mid < 2 ^ 64 := by
  obtain ⟨e, -, hlt, hle⟩ := h.sound.reserved
  have hmax : int64Max < 2 ^ 64 := by decide
  exact (hle mid m hm).trans_lt (hlt.trans hmax)

theorem history_lt (h : Numbers db) {low high : ℕ} (hk : Key.H low high mid ∈ db) :
    low < 2 ^ 64 ∧ high < 2 ^ 64 ∧ mid < 2 ^ 64 := by
  obtain ⟨m, hm, rfl, rfl⟩ := (h.sound.history low high mid).1 (AList.lookup_isSome.2 hk)
  obtain ⟨hfrom, hto⟩ := h.users mid m hm
  exact ⟨(min_le_left _ _).trans_lt hfrom, max_lt hfrom hto, h.mid_lt hm⟩

theorem pending_lt (h : Numbers db) (hk : Key.P r mid ∈ db) : r < 2 ^ 64 ∧ mid < 2 ^ 64 := by
  obtain ⟨m, hm, hp⟩ := (h.sound.pending r mid).1 (AList.lookup_isSome.2 hk)
  simp only [pendingFor, Bool.and_eq_true, decide_eq_true_eq] at hp
  exact ⟨hp.1 ▸ (h.users mid m hm).2, h.mid_lt hm⟩

theorem exists_of_recipient (h : Numbers db) (hk : Key.Q r ∈ db) :
    ∃ mid m, db.lookup (.M mid) = some m ∧ m.toUserId = r := by
  have hsome := AList.lookup_isSome.2 hk
  rw [h.sound.pendingTotal] at hsome
  split at hsome
  · cases hsome
  · next hne =>
    obtain ⟨mid, m, hm, hp⟩ := exists_of_recordCount_pos (Nat.pos_of_ne_zero hne)
    simp only [pendingFor, Bool.and_eq_true, decide_eq_true_eq] at hp
    exact ⟨mid, m, hm, hp.1⟩

theorem recipient_lt (h : Numbers db) (hk : Key.Q r ∈ db) : 0 < r ∧ r < 2 ^ 64 := by
  obtain ⟨mid, m, hm, rfl⟩ := h.exists_of_recipient hk
  exact ⟨Nat.pos_of_ne_zero (decodeRecord_eq_ok.1 (h.sound.record hm)).2.2.2.1,
    (h.users mid m hm).2⟩

theorem historyFamily (h : Numbers db) (ha : a < 2 ^ 64) (hb : b < 2 ^ 64) :
    Family db (dialogPrefix a b) (historyNumber a b) where
  mem k hk hp := by
    cases k with
    | H low high mid =>
      obtain ⟨hlow, hhigh, -⟩ := h.history_lt hk
      obtain ⟨x, hx⟩ := hp
      simp only [dialogPrefix, Key.bytes, List.append_assoc] at hx
      simp only [← List.append_assoc (ascii "H/")] at hx
      obtain ⟨hmin, hx⟩ := hex_prefix ((min_le_left _ _).trans_lt ha) hlow hx
      simp only [← List.append_assoc (ascii "/")] at hx
      obtain ⟨hmax, -⟩ := hex_prefix (max_lt ha hb) hhigh hx
      simp [historyNumber, hmin, hmax]
    | _ => exact absurd (Key.tag_of_prefix (c := 72) hp) (by simp [Key.tag])
  bytes k hk n hn := by
    obtain rfl := eq_of_historyNumber hn
    exact ⟨rfl, (h.history_lt hk).2.2⟩
  inj k k' n hk hk' := (eq_of_historyNumber hk).trans (eq_of_historyNumber hk').symm

theorem pendingFamily (h : Numbers db) (hr : r < 2 ^ 64) :
    Family db (pendingPrefix r) (pendingNumber r) where
  mem k hk hp := by
    cases k with
    | P r' mid =>
      obtain ⟨x, hx⟩ := hp
      simp only [pendingPrefix, Key.bytes, List.append_assoc] at hx
      simp only [← List.append_assoc (ascii "P/")] at hx
      obtain ⟨heq, -⟩ := hex_prefix hr (h.pending_lt hk).1 hx
      simp [pendingNumber, heq]
    | _ => exact absurd (Key.tag_of_prefix (c := 80) hp) (by simp [Key.tag])
  bytes k hk n hn := by
    obtain rfl := eq_of_pendingNumber hn
    exact ⟨rfl, (h.pending_lt hk).2⟩
  inj k k' n hk hk' := (eq_of_pendingNumber hk).trans (eq_of_pendingNumber hk').symm

theorem recipientFamily (h : Numbers db) : Family db (ascii "Q/") recipientNumber where
  mem k _ hp := by
    cases k with
    | Q r => rfl
    | _ => exact absurd (Key.tag_of_prefix (c := 81) hp) (by simp [Key.tag])
  bytes k hk n hn := by
    obtain rfl := eq_of_recipientNumber hn
    exact ⟨rfl, (h.recipient_lt hk).2⟩
  inj k k' n hk hk' := (eq_of_recipientNumber hk).trans (eq_of_recipientNumber hk').symm

end Numbers

/-! ## Pages -/

def storedRecord (db : Db) (mid : ℕ) : MessageView := (db.lookup (.M mid)).getD ({} : MessageView)

def dialogRecords (db : Db) (a b : ℕ) : List MessageView :=
  (dialogMessages db a b).map (storedRecord db)

def pendingRecords (db : Db) (r : ℕ) : List MessageView := (pendingMessages db r).map (storedRecord db)

def pendingRecipients (db : Db) : List ℕ := scan recipientNumber db

variable {f : Key → Option ℕ}

theorem collect_family {p : Bytes} (limit : ℕ) {it : List Entry}
    {body : Entry → Except Failure MessageView} {ids : List ℕ}
    (hids : (it.takeWhile (startsWith Entry.key p)).map (Entry.number f) = ids)
    (hbody : ∀ e ∈ it.takeWhile (startsWith Entry.key p),
      body e = .ok (storedRecord db (e.number f))) :
    collect (startsWith Entry.key p) limit body it [] =
      .ok ((ids.take limit).map (storedRecord db)) := by
  have hvisited : (visited (startsWith Entry.key p) limit it).mapM body =
      .ok ((visited (startsWith Entry.key p) limit it).map fun e => storedRecord db (e.number f)) :=
    mapM_ok fun e he => hbody e (List.mem_of_mem_take he)
  rw [collect_eq _ _ _ _ _ (Nat.zero_le _), List.length_nil, Nat.sub_zero, hvisited, ← hids,
    ← List.map_take, List.map_map]
  rfl

variable {e : Entry}

theorem Family.of_takeWhile {p : Bytes} (hf : Family db p f)
    {it : List Entry} (hit : ∀ e ∈ it, e ∈ iterator db)
    (he : e ∈ it.takeWhile (startsWith Entry.key p)) :
    unhex (e.key.drop p.length) = .ok (e.number f) ∧ e.1 ∈ db ∧ f e.1 = some (e.number f) := by
  have hmem := hit e (List.takeWhile_subset _ he)
  obtain ⟨hnum, hkey, hlt⟩ := hf.entry hmem (startsWith_iff.1 (List.mem_takeWhile_imp he))
  rw [hkey, List.drop_left, unhex_hex hlt]
  exact ⟨rfl, Family.key_mem hmem, hnum⟩

theorem Family.after {p : Bytes} (hf : Family db p f) {after : ℕ} (hafter : after < 2 ^ 64) :
    ((skipAt Entry.key (p ++ hex after) (seek Entry.key (p ++ hex after) (iterator db))).takeWhile
      (startsWith Entry.key p)).map (Entry.number f) = (scan f db).filter (after < ·) := by
  rw [up_after (iterator_sorted db) hf.distinct]
  refine hf.map_filter (c := fun k => decide (p ++ hex after < k)) fun n hn => ?_
  exact decide_eq_decide.2 (by rw [append_lt_append_iff, hex_lt_iff hafter hn])

theorem Family.before {p : Bytes} (hf : Family db p f) {before : ℕ} (hbefore : before < 2 ^ 64) :
    ((skipAt Entry.key (p ++ hex before)
      (seekForPrev Entry.key (p ++ hex before) (iterator db))).takeWhile
        (startsWith Entry.key p)).map (Entry.number f) =
      ((scan f db).filter (· < before)).reverse := by
  rw [down_before (iterator_sorted db) hf.distinct, List.map_reverse]
  congr 1
  refine hf.map_filter (c := fun k => decide (k < p ++ hex before)) fun n hn => ?_
  exact decide_eq_decide.2 (by rw [append_lt_append_iff, hex_lt_iff hn hbefore])

theorem Family.all {p : Bytes} (hf : Family db p f) :
    ((seekForPrev Entry.key (p ++ ascii "~") (iterator db)).takeWhile
      (startsWith Entry.key p)).map (Entry.number f) = (scan f db).reverse := by
  rw [down_from (iterator_sorted db), List.map_reverse]
  congr 1
  rw [hf.map_filter (c := fun k => decide (k ≤ p ++ ascii "~")) (d := fun _ => true)
    fun n _ => ?_]
  · exact List.filter_eq_self.2 fun _ _ => rfl
  · exact decide_eq_true (List.le_of_lt ((append_lt_append_iff p).2 (hex_lt_tilde n)))

/-! ## History pages -/

theorem historyStart_mem {before : ℕ} (he : e ∈ historyStart db a b before) : e ∈ iterator db := by
  unfold historyStart at he
  split at he
  · exact mem_of_mem_seekForPrev he
  · exact mem_of_mem_seekForPrev (mem_of_mem_skipAt he)

theorem dialogMessages_eq (db : Db) (a b : ℕ) : dialogMessages db a b = scan (historyNumber a b) db :=
  rfl

namespace Numbers

variable (h : Numbers db)

include h

theorem historyIds (ha : a < 2 ^ 64) (hb : b < 2 ^ 64) {before : ℕ} (hbefore : before < 2 ^ 64) :
    ((historyStart db a b before).takeWhile (startsWith Entry.key (dialogPrefix a b))).map
      (Entry.number (historyNumber a b)) =
      ((dialogMessages db a b).filter fun mid => before = 0 || mid < before).reverse := by
  have hf := h.historyFamily ha hb
  rw [dialogMessages_eq]
  by_cases hzero : before = 0
  · have hall : (scan (historyNumber a b) db).filter (fun mid => before = 0 || mid < before) =
        scan (historyNumber a b) db := List.filter_eq_self.2 fun _ _ => by simp [hzero]
    rw [hall, historyStart, if_pos hzero, if_pos hzero]
    exact hf.all
  · rw [historyStart, if_neg hzero, if_neg hzero]
    simp only [hzero, decide_false, Bool.false_or]
    exact hf.before hbefore

theorem exists_of_dialog (hmid : mid ∈ dialogMessages db a b) : ∃ m, db.lookup (.M mid) = some m ∧
      (m.fromUserId = a ∧ m.toUserId = b ∨ m.fromUserId = b ∧ m.toUserId = a) := by
  obtain ⟨m, hm, hmin, hmax⟩ := (h.sound.history _ _ _).1 (mem_dialogMessages.1 hmid)
  exact ⟨m, hm, by omega⟩

theorem historyRecord_eq (ha : a < 2 ^ 64) (hb : b < 2 ^ 64) {it : List Entry}
    (hit : ∀ e ∈ it, e ∈ iterator db)
    (he : e ∈ it.takeWhile (startsWith Entry.key (dialogPrefix a b))) :
    historyRecord db a b e = .ok (storedRecord db (e.number (historyNumber a b))) := by
  obtain ⟨hunhex, hmem, hnum⟩ := (h.historyFamily ha hb).of_takeWhile hit he
  have hmid : e.number (historyNumber a b) ∈ dialogMessages db a b := mem_scan.2 ⟨e.1, hmem, hnum⟩
  obtain ⟨m, hm, husers⟩ := h.exists_of_dialog hmid
  have hfound : Local.record db (e.number (historyNumber a b)) =
      .ok { status := .succeeded, found := true, record := m } := by
    rw [h.sound.record_eq, hm]
  have hstored : storedRecord db (e.number (historyNumber a b)) = m := by rw [storedRecord, hm]; rfl
  rw [historyRecord, hunhex, hstored]
  simp [bind, Except.bind, hfound, GetResult.Found, require, husers, pure, Except.pure]

theorem messageId (mid : ℕ) (hmid : ∃ m, db.lookup (.M mid) = some m) :
    (storedRecord db mid).messageId = mid := by
  obtain ⟨m, hm⟩ := hmid
  rw [storedRecord, hm]
  exact h.sound.messageId hm

end Numbers

def newest {α : Type} (n : ℕ) (l : List α) : List α := l.drop (l.length - n)

theorem newest_map {α β : Type} (f : α → β) (n : ℕ) (l : List α) :
    newest n (l.map f) = (newest n l).map f := by
  rw [newest, newest, List.length_map, List.map_drop]

theorem reverse_take_reverse {α : Type} (n : ℕ) (l : List α) :
    (l.reverse.take n).reverse = newest n l := by
  rw [List.take_reverse, List.reverse_reverse, newest]

def recordsBelow (db : Db) (a b before : ℕ) : List MessageView :=
  (dialogRecords db a b).filter fun m => before = 0 || m.messageId < before

theorem call_of_ok {α β : Type} {x : StoreM α} {ok : α → β} {failed : Failure → β} {s s' : Store}
    {v : α} (hopen : checkOpen s = .ok ()) (hx : x s = (.ok v, s')) :
    call x ok failed s = (ok v, s') := by
  have hrun : (do Act.inspect checkOpen; x : StoreM α) s = (.ok v, s') := by
    rw [bind_of_ok (show Act.inspect checkOpen s = (.ok (), s) by rw [inspect_apply, hopen])]
    exact hx
  rw [call, hrun]

theorem check_of_ok {α β : Type} {x : Except Failure α} {f : α → StoreM β} {s : Store} {v : α}
    (hx : x = .ok v) : (check x >>= f) s = f v s :=
  bind_of_ok (show check x s = (.ok v, s) by rw [hx]; rfl)

variable {opts : Options} {s : Store}
variable {limit : ℕ}

theorem checkLimit_ok (hpos : 0 < limit) (hle : limit ≤ 1001) :
    checkLimit limit = .ok () := by simp [checkLimit, require, hpos, hle]

theorem listHistory_page (h : Numbers s.db) (hopen : checkOpen s = .ok ())
    (hdialog : dialog opts a b = .ok ()) (ha : a < 2 ^ 64) (hb : b < 2 ^ 64) {before : ℕ}
    (hbefore : before < 2 ^ 64) (hpos : 0 < limit) (hle : limit ≤ 1001) :
    listHistory opts a b before limit s =
      ({ status := .succeeded, records := newest limit (recordsBelow s.db a b before) }, s) := by
  have hcollect := collect_family limit (h.historyIds ha hb hbefore) fun e he =>
    h.historyRecord_eq ha hb (fun _ => historyStart_mem) he
  have hbelow : recordsBelow s.db a b before =
      ((dialogMessages s.db a b).filter fun mid => before = 0 || mid < before).map
        (storedRecord s.db) := by
    rw [recordsBelow, dialogRecords, List.filter_map]
    congr 1
    refine List.filter_congr fun mid hmid => ?_
    obtain ⟨m, hm, -⟩ := h.exists_of_dialog hmid
    simp [h.messageId mid ⟨m, hm⟩]
  rw [hbelow, newest_map, ← reverse_take_reverse, List.map_reverse]
  refine call_of_ok hopen ?_
  rw [check_of_ok hdialog, check_of_ok (checkLimit_ok hpos hle), bind_apply, inspect_apply, hcollect]
  rfl

/-! ## Pages of pending messages -/

theorem pendingStart_mem {after : ℕ} (he : e ∈ pendingStart db r after) :
    e ∈ iterator db := mem_of_mem_seek (mem_of_mem_skipAt he)

def pendingAbove (db : Db) (r after : ℕ) : List MessageView :=
  (pendingRecords db r).filter fun m => after < m.messageId

namespace Numbers

variable (h : Numbers db)

include h

theorem exists_of_pending (hmid : mid ∈ pendingMessages db r) :
    ∃ m, db.lookup (.M mid) = some m ∧ m.toUserId = r ∧ m.deliveryState = .pending := by
  obtain ⟨m, hm, hp⟩ := (h.sound.pending r mid).1 (mem_pendingMessages.1 hmid)
  simp only [pendingFor, Bool.and_eq_true, decide_eq_true_eq] at hp
  exact ⟨m, hm, hp⟩

theorem pendingRecord_eq (hmid : mid ∈ pendingMessages db r) :
    pendingRecord db r mid = .ok (storedRecord db mid) := by
  obtain ⟨m, hm, hto, hstate⟩ := h.exists_of_pending hmid
  have hstored : storedRecord db mid = m := by rw [storedRecord, hm]; rfl
  rw [hstored]
  simp [pendingRecord, h.sound.record_eq, hm, GetResult.Found, require, hto, hstate, bind,
    Except.bind, pure, Except.pure]

theorem pendingAbove_eq (after : ℕ) : pendingAbove db r after =
    ((pendingMessages db r).filter (after < ·)).map (storedRecord db) := by
  rw [pendingAbove, pendingRecords, List.filter_map]
  congr 1
  refine List.filter_congr fun mid hmid => ?_
  obtain ⟨m, hm, -⟩ := h.exists_of_pending hmid
  simp [h.messageId mid ⟨m, hm⟩]

theorem collect_pending (hr : r < 2 ^ 64) {after : ℕ} (hafter : after < 2 ^ 64) (limit : ℕ) :
    collect (startsWith Entry.key (pendingPrefix r)) limit (pendingEntry db r)
      (pendingStart db r after) [] = .ok ((pendingAbove db r after).take limit) := by
  have hf := h.pendingFamily hr
  have hids : ((pendingStart db r after).takeWhile (startsWith Entry.key (pendingPrefix r))).map
      (Entry.number (pendingNumber r)) = (pendingMessages db r).filter (after < ·) := hf.after hafter
  rw [collect_family limit hids, h.pendingAbove_eq, List.map_take]
  intro e he
  obtain ⟨hunhex, hmem, hnum⟩ := hf.of_takeWhile (fun _ => pendingStart_mem) he
  have hmid : e.number (pendingNumber r) ∈ pendingMessages db r := mem_scan.2 ⟨e.1, hmem, hnum⟩
  rw [pendingEntry, hunhex]
  exact h.pendingRecord_eq hmid

theorem mapM_pending (after limit : ℕ) :
    (((pendingMessages db r).filter (after < ·)).take limit).mapM (pendingRecord db r) =
      .ok ((pendingAbove db r after).take limit) := by
  rw [h.pendingAbove_eq, ← List.map_take]
  refine mapM_ok fun mid hmid => h.pendingRecord_eq ?_
  exact (List.mem_filter.1 (List.mem_of_mem_take hmid)).1

end Numbers

theorem listPendingAfter_refines (h : Numbers s.db) (hr : r < 2 ^ 64) {after : ℕ}
    (hafter : after < 2 ^ 64) (limit : ℕ) :
    Engine.listPendingAfter opts r after limit s = listPendingAfter opts r after limit s := by
  unfold Engine.listPendingAfter listPendingAfter
  simp only [call, bind_apply, inspect_apply, check]
  cases checkOpen s with
  | error e => rfl
  | ok _ =>
    cases actor opts r with
    | error e => rfl
    | ok _ =>
      cases checkLimit limit with
      | error e => rfl
      | ok _ =>
        dsimp only
        rw [h.collect_pending hr hafter, h.mapM_pending]

theorem listPendingAfter_page (h : Numbers s.db) (hopen : checkOpen s = .ok ())
    (hactor : actor opts r = .ok ()) (hr : r < 2 ^ 64) {after : ℕ} (hafter : after < 2 ^ 64)
    (hpos : 0 < limit) (hle : limit ≤ 1001) :
    Engine.listPendingAfter opts r after limit s =
      ({ status := .succeeded, records := (pendingAbove s.db r after).take limit }, s) := by
  refine call_of_ok hopen ?_
  rw [check_of_ok hactor, check_of_ok (checkLimit_ok hpos hle), bind_apply, inspect_apply,
    h.collect_pending hr hafter]
  rfl

/-! ## Pages of recipients -/

theorem recipientsLoop_eq (limit : ℕ) (it : List Entry) (out : List ℕ) (hlen : out.length ≤ limit)
    (hit : ∀ e ∈ it.takeWhile (startsWith Entry.key (ascii "Q/")),
      (∃ n, e.count = .ok n ∧ 0 < n) ∧ unhex (e.key.drop 2) = .ok (e.number recipientNumber)) :
    recipientsLoop limit it out = .ok
      (out ++ ((it.takeWhile (startsWith Entry.key (ascii "Q/"))).map
          (Entry.number recipientNumber)).take (limit - out.length),
        decide (limit - out.length <
          (it.takeWhile (startsWith Entry.key (ascii "Q/"))).length)) := by
  induction it generalizing out with
  | nil => simp [recipientsLoop]
  | cons e it ih =>
    rw [recipientsLoop]
    by_cases hp : startsWith Entry.key (ascii "Q/") e = true
    · rw [List.takeWhile_cons_of_pos hp] at hit ⊢
      obtain ⟨⟨n, hcount, hpos⟩, hunhex⟩ := hit e List.mem_cons_self
      have hrest := fun e' he' => hit e' (List.mem_cons_of_mem _ he')
      rw [if_pos hp, hcount]
      by_cases hfull : out.length = limit
      · simp [require, hpos, hfull, bind, Except.bind, pure, Except.pure]
      · obtain ⟨k, hk⟩ : ∃ k, limit - out.length = k + 1 := ⟨limit - out.length - 1, by omega⟩
        have hk' : limit - (out.length + 1) = k := by omega
        have hnext := ih (out ++ [e.number recipientNumber])
          (by rw [List.length_append, List.length_singleton]; omega) hrest
        rw [List.length_append, List.length_singleton, hk'] at hnext
        simp only [require, hpos, decide_true, if_true, hfull, if_false, hunhex, bind, Except.bind]
        rw [hnext, hk]
        simp
    · rw [if_neg hp, List.takeWhile_cons_of_neg hp]
      simp

def recipientsAbove (db : Db) (after : ℕ) : List ℕ := (pendingRecipients db).filter (after < ·)

theorem recipientsStart_mem {after : ℕ} (he : e ∈ recipientsStart db after) :
    e ∈ iterator db := mem_of_mem_seek (mem_of_mem_skipAt he)

theorem Numbers.recipient_count (h : Numbers db) {it : List Entry} (hit : ∀ e ∈ it, e ∈ iterator db)
    (he : e ∈ it.takeWhile (startsWith Entry.key (ascii "Q/"))) :
    ∃ n, e.count = .ok n ∧ 0 < n := by
  obtain ⟨-, -, hnum⟩ := h.recipientFamily.of_takeWhile hit he
  have hlookup := mem_iterator.1 (hit e (List.takeWhile_subset _ he))
  obtain ⟨k, v⟩ := e
  cases k with
  | Q r =>
    rw [h.sound.pendingTotal] at hlookup
    split at hlookup
    · cases hlookup
    · next hne =>
      cases hlookup
      exact ⟨_, rfl, Nat.pos_of_ne_zero hne⟩
  | _ => cases hnum

theorem listPendingRecipientsAfter_page (h : Numbers s.db) (hopen : checkOpen s = .ok ())
    {after : ℕ} (hafter : after < 2 ^ 64) (hpos : 0 < limit) (hle : limit ≤ 1001) :
    listPendingRecipientsAfter after limit s =
      ({ status := .succeeded
         recipientUserIds := (recipientsAbove s.db after).take limit
         hasMore := decide (limit < (recipientsAbove s.db after).length) }, s) := by
  have hf := h.recipientFamily
  have hids : ((recipientsStart s.db after).takeWhile (startsWith Entry.key (ascii "Q/"))).map
      (Entry.number recipientNumber) = recipientsAbove s.db after := hf.after hafter
  have hloop := recipientsLoop_eq limit (recipientsStart s.db after) [] (Nat.zero_le _)
    fun e he => ⟨h.recipient_count (fun _ => recipientsStart_mem) he,
      (hf.of_takeWhile (fun _ => recipientsStart_mem) he).1⟩
  rw [← List.length_map (f := Entry.number recipientNumber), hids] at hloop
  refine call_of_ok hopen ?_
  rw [check_of_ok (checkLimit_ok hpos hle), bind_apply, inspect_apply, hloop]
  rfl

/-! ## Complete listings -/

/-- Every page and every chain of pages of `ListHistory` for one dialog. -/
structure HistoryListed (opts : Options) (s : Store) (a b limit : ℕ) : Prop where
  members : ∀ m, m ∈ dialogRecords s.db a b ↔ (∃ mid, s.db.lookup (.M mid) = some m) ∧
    (m.fromUserId = a ∧ m.toUserId = b ∨ m.fromUserId = b ∧ m.toUserId = a)
  ascending : (dialogRecords s.db a b).Pairwise fun m m' => m.messageId < m'.messageId
  page : ∀ before < 2 ^ 64, (listHistory opts a b before limit s).1 =
    { status := .succeeded, records := newest limit (recordsBelow s.db a b before) }
  empty : ∀ before < 2 ^ 64, (listHistory opts a b before limit s).1.records = [] ↔
    recordsBelow s.db a b before = []
  chain : ∃ pages, Drain (fun before => (listHistory opts a b before limit s).1)
    (fun p => p.records = []) (fun p => (p.records.head?.map MessageView.messageId).getD 0) 0 pages ∧
    pages.reverse.flatMap HistoryResult.records = dialogRecords s.db a b
  family : ∀ before, ∀ e ∈ visited (startsWith Entry.key (dialogPrefix a b)) limit
    (historyStart s.db a b before), ∃ mid, e.1 = .H (min a b) (max a b) mid

/-- Every page and every chain of pages of `ListPendingAfter` for one receiver. -/
structure PendingListed (opts : Options) (s : Store) (r limit : ℕ) : Prop where
  members : ∀ m, m ∈ pendingRecords s.db r ↔ (∃ mid, s.db.lookup (.M mid) = some m) ∧
    m.toUserId = r ∧ m.deliveryState = .pending
  ascending : (pendingRecords s.db r).Pairwise fun m m' => m.messageId < m'.messageId
  page : ∀ after < 2 ^ 64, (Engine.listPendingAfter opts r after limit s).1 =
    { status := .succeeded, records := (pendingAbove s.db r after).take limit }
  chain : ∃ pages, Drain (fun after => (Engine.listPendingAfter opts r after limit s).1)
    (fun p => p.records = []) (fun p => (p.records.getLast?.map MessageView.messageId).getD 0) 0
      pages ∧
    pages.flatMap PendingResult.records = pendingRecords s.db r
  family : ∀ after, ∀ e ∈ visited (startsWith Entry.key (pendingPrefix r)) limit
    (pendingStart s.db r after), ∃ mid, e.1 = .P r mid

/-- Every page and every chain of pages of `ListPendingRecipientsAfter`. -/
structure RecipientsListed (s : Store) (limit : ℕ) : Prop where
  members : ∀ r, r ∈ pendingRecipients s.db ↔ (s.db.lookup (.Q r)).isSome
  ascending : (pendingRecipients s.db).Pairwise (· < ·)
  page : ∀ after < 2 ^ 64, (listPendingRecipientsAfter after limit s).1 =
    { status := .succeeded
      recipientUserIds := (recipientsAbove s.db after).take limit
      hasMore := decide (limit < (recipientsAbove s.db after).length) }
  chain : ∃ pages, Drain (fun after => (listPendingRecipientsAfter after limit s).1)
    (fun p => p.hasMore = false) (fun p => p.recipientUserIds.getLast?.getD 0) 0 pages ∧
    pages.flatMap PendingRecipientsResult.recipientUserIds = pendingRecipients s.db
  family : ∀ after, ∀ e ∈ (recipientsStart s.db after).takeWhile
    (startsWith Entry.key (ascii "Q/")), ∃ r, e.1 = .Q r

theorem Numbers.pairwise_stored (h : Numbers db) {ids : List ℕ} (hids : ids.Pairwise (· < ·))
    (hstored : ∀ mid ∈ ids, ∃ m, db.lookup (.M mid) = some m) :
    (ids.map (storedRecord db)).Pairwise fun m m' => m.messageId < m'.messageId := by
  refine List.pairwise_map.2 (hids.imp_of_mem fun {i j} hi hj hij => ?_)
  rwa [h.messageId i (hstored i hi), h.messageId j (hstored j hj)]

theorem mem_stored {ids : List ℕ} (hstored : ∀ mid ∈ ids, ∃ m, db.lookup (.M mid) = some m)
    {m : MessageView} : m ∈ ids.map (storedRecord db) ↔
      ∃ mid ∈ ids, db.lookup (.M mid) = some m := by
  rw [List.mem_map]
  refine exists_congr fun mid => and_congr_right fun hmid => ?_
  obtain ⟨m', hm'⟩ := hstored mid hmid
  rw [storedRecord, hm']
  exact ⟨fun heq => congrArg some heq, fun heq => Option.some.inj heq⟩

theorem Numbers.records_lt (h : Numbers db) {ids : List ℕ}
    (hstored : ∀ mid ∈ ids, ∃ m, db.lookup (.M mid) = some m) {m : MessageView}
    (hm : m ∈ ids.map (storedRecord db)) : 0 < m.messageId ∧ m.messageId < 2 ^ 64 := by
  obtain ⟨mid, -, hmid⟩ := (mem_stored hstored).1 hm
  have hvalid := decodeRecord_eq_ok.1 (h.sound.record hmid)
  rw [hvalid.1]
  exact ⟨Nat.pos_of_ne_zero hvalid.2.1, h.mid_lt hmid⟩

theorem historyListed (h : Numbers s.db) (hopen : checkOpen s = .ok ())
    (hdialog : dialog opts a b = .ok ()) (ha : a < 2 ^ 64) (hb : b < 2 ^ 64)
    (hpos : 0 < limit) (hle : limit ≤ 1001) : HistoryListed opts s a b limit := by
  have hstored : ∀ mid ∈ dialogMessages s.db a b, ∃ m, s.db.lookup (.M mid) = some m := by
    intro mid hmid
    obtain ⟨m, hm, -⟩ := h.exists_of_dialog hmid
    exact ⟨m, hm⟩
  have hincr : (dialogRecords s.db a b).Pairwise fun m m' => m.messageId < m'.messageId :=
    h.pairwise_stored (scan_increasing (h.historyFamily ha hb).inj) hstored
  have hids : ∀ m ∈ dialogRecords s.db a b, 0 < m.messageId ∧ m.messageId < 2 ^ 64 :=
    fun m hm => h.records_lt hstored hm
  have hpage : ∀ before < 2 ^ 64, (listHistory opts a b before limit s).1 =
      { status := .succeeded, records := newest limit (recordsBelow s.db a b before) } :=
    fun before hbefore => by rw [listHistory_page h hopen hdialog ha hb hbefore hpos hle]
  have hnil : ∀ l : List MessageView, newest limit l = [] ↔ l = [] := by
    intro l
    rw [newest, List.drop_eq_nil_iff, ← List.length_eq_zero_iff]
    omega
  have hcuts : Cuts (fun before => (listHistory opts a b before limit s).1)
      (fun p => p.records = []) (fun p => (p.records.head?.map MessageView.messageId).getD 0)
      (· < 2 ^ 64) (fun p => p.records.reverse) fun c => (recordsBelow s.db a b c).reverse := by
    refine .of_take MessageView.messageId
      (fun c n x _ hx => below_cut hincr (fun m hm => (hids m hm).1) hx) fun c hc => ⟨limit, ?_⟩
    rw [hpage c hc]
    dsimp only
    refine ⟨by rw [← reverse_take_reverse, List.reverse_reverse], fun hlast => ?_, fun hmore => ?_⟩
    · rw [(hnil _).1 hlast]
      exact Nat.zero_le _
    · obtain ⟨x, rest, hx⟩ := List.exists_cons_of_ne_nil hmore
      have hmem : x ∈ newest limit (recordsBelow s.db a b c) := by
        rw [hx]
        exact List.mem_cons_self
      refine ⟨x, ?_, ?_, (hids x (List.mem_filter.1 (List.mem_of_mem_drop hmem)).1).2⟩
      · rw [List.getLast?_reverse, hx, List.head?_cons]
      · simp only [hx, List.head?_cons, Option.map_some, Option.getD_some]
  refine ⟨fun m => ?_, hincr, hpage, fun before hbefore => ?_, ?_, fun before e he => ?_⟩
  · rw [dialogRecords, mem_stored hstored]
    constructor
    · rintro ⟨mid, hmid, hm⟩
      obtain ⟨m', hm', husers⟩ := h.exists_of_dialog hmid
      rw [hm] at hm'
      cases hm'
      exact ⟨⟨mid, hm⟩, husers⟩
    · rintro ⟨⟨mid, hm⟩, husers⟩
      refine ⟨mid, mem_dialogMessages.2 ((h.sound.history _ _ _).2 ⟨m, hm, ?_⟩), hm⟩
      omega
  · rw [hpage before hbefore]
    exact hnil _
  · obtain ⟨pages, hdrain, hall⟩ := hcuts.drain (c := 0) (by decide)
    refine ⟨pages, hdrain, ?_⟩
    have hzero : recordsBelow s.db a b 0 = dialogRecords s.db a b :=
      List.filter_eq_self.2 fun _ _ => rfl
    have hrev := congrArg List.reverse hall
    rw [hzero, List.reverse_reverse, List.reverse_flatMap] at hrev
    simpa [Function.comp_def] using hrev
  · have hf := h.historyFamily ha hb
    obtain ⟨-, -, hnum⟩ := hf.of_takeWhile (fun _ => historyStart_mem) (List.mem_of_mem_take he)
    exact ⟨_, eq_of_historyNumber hnum⟩

theorem pendingListed (h : Numbers s.db) (hopen : checkOpen s = .ok ())
    (hactor : actor opts r = .ok ()) (hr : r < 2 ^ 64) (hpos : 0 < limit)
    (hle : limit ≤ 1001) : PendingListed opts s r limit := by
  have hstored : ∀ mid ∈ pendingMessages s.db r, ∃ m, s.db.lookup (.M mid) = some m := by
    intro mid hmid
    obtain ⟨m, hm, -⟩ := h.exists_of_pending hmid
    exact ⟨m, hm⟩
  have hf := h.pendingFamily hr
  have hincr : (pendingRecords s.db r).Pairwise fun m m' => m.messageId < m'.messageId :=
    h.pairwise_stored (scan_increasing hf.inj) hstored
  have hids : ∀ m ∈ pendingRecords s.db r, 0 < m.messageId ∧ m.messageId < 2 ^ 64 :=
    fun m hm => h.records_lt hstored hm
  have hpage : ∀ after < 2 ^ 64, (Engine.listPendingAfter opts r after limit s).1 =
      { status := .succeeded, records := (pendingAbove s.db r after).take limit } :=
    fun after hafter => by rw [listPendingAfter_page h hopen hactor hr hafter hpos hle]
  have hcuts : Cuts (fun after => (Engine.listPendingAfter opts r after limit s).1)
      (fun p => p.records = []) (fun p => (p.records.getLast?.map MessageView.messageId).getD 0)
      (· < 2 ^ 64) PendingResult.records (pendingAbove s.db r) := by
    refine .of_take MessageView.messageId
      (fun c n x _ hx => above_cut hincr hx) fun c hc => ⟨limit, ?_⟩
    rw [hpage c hc]
    refine ⟨rfl, fun hlast => ?_, fun hmore => ?_⟩
    · rw [List.take_eq_nil_iff] at hlast
      rw [hlast.resolve_left hpos.ne']
      exact Nat.zero_le _
    · have hx := List.getLast?_eq_some_getLast hmore
      refine ⟨_, hx, by rw [hx]; rfl, ?_⟩
      exact (hids _ (List.mem_filter.1 (List.mem_of_mem_take (List.mem_of_getLast? hx))).1).2
  refine ⟨fun m => ?_, hincr, hpage, ?_, fun after e he => ?_⟩
  · rw [pendingRecords, mem_stored hstored]
    constructor
    · rintro ⟨mid, hmid, hm⟩
      obtain ⟨m', hm', hto⟩ := h.exists_of_pending hmid
      rw [hm] at hm'
      cases hm'
      exact ⟨⟨mid, hm⟩, hto⟩
    · rintro ⟨⟨mid, hm⟩, hto, hstate⟩
      have hp : pendingFor r m = true := by simp [pendingFor, hto, hstate]
      exact ⟨mid, mem_pendingMessages.2 ((h.sound.pending _ _).2 ⟨m, hm, hp⟩), hm⟩
  · obtain ⟨pages, hdrain, hall⟩ := hcuts.drain (c := 0) (by decide)
    refine ⟨pages, hdrain, hall.trans (List.filter_eq_self.2 fun m hm => ?_)⟩
    exact decide_eq_true (hids m hm).1
  · obtain ⟨-, -, hnum⟩ := hf.of_takeWhile (fun _ => pendingStart_mem) (List.mem_of_mem_take he)
    exact ⟨_, eq_of_pendingNumber hnum⟩

theorem recipientsListed (h : Numbers s.db) (hopen : checkOpen s = .ok ())
    (hpos : 0 < limit) (hle : limit ≤ 1001) : RecipientsListed s limit := by
  have hf := h.recipientFamily
  have hincr : (pendingRecipients s.db).Pairwise (· < ·) := scan_increasing hf.inj
  have hmem : ∀ r, r ∈ pendingRecipients s.db ↔ (s.db.lookup (.Q r)).isSome := by
    intro r
    rw [pendingRecipients, mem_scan, AList.lookup_isSome]
    constructor
    · rintro ⟨k, hk, hnum⟩
      obtain rfl := eq_of_recipientNumber hnum
      exact hk
    · exact fun hk => ⟨_, hk, rfl⟩
  have hlt : ∀ r ∈ pendingRecipients s.db, 0 < r ∧ r < 2 ^ 64 := fun r hr =>
    h.recipient_lt (AList.lookup_isSome.1 ((hmem r).1 hr))
  have hpage : ∀ after < 2 ^ 64, (listPendingRecipientsAfter after limit s).1 =
      { status := .succeeded
        recipientUserIds := (recipientsAbove s.db after).take limit
        hasMore := decide (limit < (recipientsAbove s.db after).length) } :=
    fun after hafter => by rw [listPendingRecipientsAfter_page h hopen hafter hpos hle]
  have hcuts : Cuts (fun after => (listPendingRecipientsAfter after limit s).1)
      (fun p => p.hasMore = false) (fun p => p.recipientUserIds.getLast?.getD 0)
      (· < 2 ^ 64) PendingRecipientsResult.recipientUserIds (recipientsAbove s.db) := by
    refine .of_take id (fun c n x _ hx => above_cut (f := id) hincr hx)
      fun c hc => ⟨limit, ?_⟩
    rw [hpage c hc]
    dsimp only
    refine ⟨rfl, fun hlast => ?_, fun hmore => ?_⟩
    · exact not_lt.1 (of_decide_eq_false hlast)
    · have hlong : limit < (recipientsAbove s.db c).length := by simpa using hmore
      have hne : (recipientsAbove s.db c).take limit ≠ [] := by
        rw [Ne, List.take_eq_nil_iff, ← List.length_eq_zero_iff]
        omega
      have hx := List.getLast?_eq_some_getLast hne
      refine ⟨_, hx, by rw [hx]; rfl, ?_⟩
      exact (hlt _ (List.mem_filter.1 (List.mem_of_mem_take (List.mem_of_getLast? hx))).1).2
  refine ⟨hmem, hincr, hpage, ?_, fun after e he => ?_⟩
  · obtain ⟨pages, hdrain, hall⟩ := hcuts.drain (c := 0) (by decide)
    refine ⟨pages, hdrain, hall.trans (List.filter_eq_self.2 fun r hr => ?_)⟩
    exact decide_eq_true (hlt r hr).1
  · obtain ⟨-, -, hnum⟩ := hf.of_takeWhile (fun _ => recipientsStart_mem) he
    exact ⟨_, eq_of_recipientNumber hnum⟩

/-- In every state of a run whose user ids have 64 bits, the three listings of a store that runs are
complete for every limit they accept. -/
theorem listings_complete (h : ReachableWith UsersFit opts s) (hopen : checkOpen s = .ok ())
    {limit : ℕ} (hpos : 0 < limit) (hle : limit ≤ 1001) :
    (∀ a b, a < 2 ^ 64 → b < 2 ^ 64 → dialog opts a b = .ok () → HistoryListed opts s a b limit) ∧
    (∀ r < 2 ^ 64, actor opts r = .ok () → PendingListed opts s r limit) ∧
    RecipientsListed s limit := by
  have hnum : Numbers s.db := ⟨h.reachable.inv.sound, h.contents usersFit_stable.lasts⟩
  exact ⟨fun a b ha hb hdialog => historyListed hnum hopen hdialog ha hb hpos hle,
    fun r hr hactor => pendingListed hnum hopen hactor hr hpos hle,
    recipientsListed hnum hopen hpos hle⟩

theorem sampleSent_users : ReachableWith UsersFit sampleOptions sampleSent := by
  refine ⟨sampleStore, _, sampleStore_opened,
    .single (.call sampleStore sampleEnv (.persist sampleInput)), fun l hl => ?_⟩
  rw [List.mem_singleton.1 hl]
  exact fun _ _ _ => ⟨show 1 < 2 ^ 64 by decide, show 2 < 2 ^ 64 by decide⟩

theorem listings_complete_sent : HistoryListed sampleOptions sampleSent 1 2 1 ∧
    PendingListed sampleOptions sampleSent 2 1 ∧ RecipientsListed sampleSent 1 :=
  have h := listings_complete sampleSent_users rfl Nat.one_pos (by decide)
  ⟨h.1 1 2 (by decide) (by decide) rfl, h.2.1 2 (by decide) rfl, h.2.2⟩

end TinyImx.Local
