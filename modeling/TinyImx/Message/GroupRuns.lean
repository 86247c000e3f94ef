import TinyImx.Lib.Keyed
import TinyImx.Local.EventIds
import TinyImx.Message.GroupCalls
import Mathlib.Data.List.Nodup

/-!
# Group messages are persisted once, with their recipients

The tables hold what the commits of the run have written, each commit everything at once: the row,
its delivery rows and its event.  `Kept` says so, together with what each call relies on; it is an
invariant of the labels and the state.  From a state with a row under a sender and a client message
id, `Retry` says what becomes of later calls under them.
-/

namespace TinyImx.Message

open TinyImx.Local (Bytes Status PersistOutcome Failure ascii decimal)

def Label.commit? : Label → Option Commit
  | .commit k => some k
  | _ => none

def commits (ls : List Label) : List Commit := ls.filterMap Label.commit?

def commitsOf (c : ℕ) (ls : List Label) : List Commit := (commits ls).filter (·.call = c)

def Given (ls : List Label) (c : ℕ) (entry : Entry) (snap : Snapshot) : Prop :=
  match entry with
  | .service => Label.authorized c (.allowed snap) ∈ ls
  | .application s | .adapter s => s = snap

def Result.response : Result → Option GroupPersistResult
  | .rpc reply => reply.response
  | .persist result => if result.status = .succeeded then some result else none

variable {κ : Type} (collate : Bytes → κ)

structure Truthful (ls : List Label) (c : ℕ) (m : GroupMessage) (r : GroupPersistResult) : Prop where
  status : r.status = .succeeded
  commit : ∃ k ∈ commits ls, r.record = some k.record ∧ r.messageId = k.record.messageId ∧
    k.record.message.key collate = m.key collate ∧
    (r.outcome = .created → k.call = c ∧ k.record.message = m) ∧
    (r.outcome = .reused → k.record.message = m) ∧
    (r.outcome = .idempotencyConflict → k.record.message ≠ m)

def Once (ls : List Label) (c : ℕ) (m : GroupMessage) : Prop :=
  commitsOf c ls = [] ∨ ∃ k, commitsOf c ls = [k] ∧ k.record.message = m

/-- A call that committed without a response to show for it says that its commit failed. -/
def CommitFailure (result : Result) (entry : Entry) : Prop :=
  ∃ error, result = entry.finish false
    { status := .storageError
      message := "group message commit failed" ++ (if error = "" then "" else ": " ++ error) }

def Fits (ls : List Label) (c : ℕ) (request : Request) : Phase → Prop
  | .lookup | .authorize => request.entry = .service ∧ commitsOf c ls = []
  | .persist snap => Given ls c request.entry snap ∧ commitsOf c ls = []
  | .transaction snap =>
    Given ls c request.entry snap ∧ Authorized request.message snap ∧ commitsOf c ls = []
  | .recoverInsert _ => commitsOf c ls = []
  | .recoverCommit _ => Once ls c request.message
  | .returned result =>
    Once ls c request.message ∧
    (∀ r, result.response = some r → Truthful collate ls c request.message r) ∧
    (result.response = none → commitsOf c ls = [] ∨ CommitFailure result request.entry)

structure Kept (topic : Bytes) (ls : List Label) (s : State) : Prop where
  messages : s.db.messages = (commits ls).map Commit.record
  deliveries : s.db.deliveries = (commits ls).flatMap fun k =>
    deliveryRows k.record.messageId k.record.message.groupId k.snapshot.recipientUserIds
  outbox : s.db.outbox = (commits ls).map fun k => groupMessageCreated topic k.record
  ids : (commits ls).Pairwise fun a b => a.record.messageId < b.record.messageId
  bound : ∀ k ∈ commits ls, k.record.messageId < s.db.nextMessage
  positive : ∀ k ∈ commits ls, k.record.messageId ≠ 0
  keys : (commits ls).Pairwise fun a b => a.record.message.key collate ≠ b.record.message.key collate
  authorized : ∀ k ∈ commits ls, Authorized k.record.message k.snapshot ∧
    k.record = recordOf k.record.messageId k.record.message k.snapshot
  given : ∀ k ∈ commits ls, ∃ call, s.calls k.call = some call ∧
    call.request.message = k.record.message ∧ Given ls k.call call.request.entry k.snapshot
  calls : ∀ c request phase, s.calls c = some ⟨request, phase⟩ → Fits collate ls c request phase

/-! ## Labels -/

theorem commits_append (ls ms : List Label) : commits (ls ++ ms) = commits ls ++ commits ms :=
  List.filterMap_append

@[simp] theorem commits_commit (k : Commit) : commits [.commit k] = [k] := rfl

variable {l : Label}

theorem commits_quiet (ls : List Label) (h : l.commit? = none) :
    commits (ls ++ [l]) = commits ls := by
  rw [commits_append]
  simp [commits, h]

theorem commitsOf_quiet (ls : List Label) {c : ℕ}
    (h : ∀ k, l.commit? = some k → k.call ≠ c) : commitsOf c (ls ++ [l]) = commitsOf c ls := by
  cases hl : l.commit? with
  | none => rw [commitsOf, commits_quiet ls hl, commitsOf]
  | some k =>
    have hk := h k hl
    simp [commitsOf, commits, hl, hk]

theorem commits_subset (ls : List Label) (l : Label) : commits ls ⊆ commits (ls ++ [l]) := by
  rw [commits_append]
  exact List.subset_append_left _ _

variable {entry : Entry} {snap : Snapshot}

theorem Given.keep {ls : List Label} {c : ℕ}
    (h : Given ls c entry snap) (l : Label) : Given (ls ++ [l]) c entry snap := by
  cases entry with
  | service => exact List.mem_append_left _ h
  | application s => exact h
  | adapter s => exact h

variable {m : GroupMessage} {r : GroupPersistResult}

theorem Truthful.keep {ls : List Label} {c : ℕ}
    (h : Truthful collate ls c m r) (l : Label) : Truthful collate (ls ++ [l]) c m r := by
  obtain ⟨k, hk, hrest⟩ := h.commit
  exact ⟨h.status, k, commits_subset ls l hk, hrest⟩

theorem Fits.keep {ls : List Label} {c : ℕ} {request : Request} {phase : Phase}
    (h : Fits collate ls c request phase) (hl : ∀ k, l.commit? = some k → k.call ≠ c) :
    Fits collate (ls ++ [l]) c request phase := by
  have hof := commitsOf_quiet ls hl
  cases phase with
  | lookup => exact ⟨h.1, hof.trans h.2⟩
  | authorize => exact ⟨h.1, hof.trans h.2⟩
  | persist snap => exact ⟨h.1.keep l, hof.trans h.2⟩
  | transaction snap => exact ⟨h.1.keep l, h.2.1, hof.trans h.2.2⟩
  | recoverInsert error => exact hof.trans h
  | recoverCommit error =>
    simp only [Fits, Once, hof] at h ⊢
    exact h
  | returned result =>
    obtain ⟨hone, htruthful, hnone⟩ := h
    refine ⟨?_, fun r hr => (htruthful r hr).keep collate l, fun hr => ?_⟩
    · simpa only [Once, hof] using hone
    · rw [hof]
      exact hnone hr

/-! ## Results -/

theorem fillExisting_truthful {ls : List Label} {c : ℕ} {k : Commit}
    (hk : k ∈ commits ls) (hkey : k.record.message.key collate = m.key collate) :
    Truthful collate ls c m (fillExisting m k.record) := by
  by_cases hsame : k.record.message = m
  · rw [fillExisting, if_pos hsame]
    exact ⟨rfl, k, hk, rfl, rfl, hkey, nofun, fun _ => hsame, nofun⟩
  · rw [fillExisting, if_neg hsame]
    exact ⟨rfl, k, hk, rfl, rfl, hkey, nofun, nofun, fun _ => hsame⟩

theorem setExisting_eq {record : GroupMessageRecord} (h : record.messageId ≠ 0) :
    setExisting m record = fillExisting m record := by
  simp [setExisting, fillExisting, sameIdentity, h]

theorem Truthful.with_message {ls : List Label} {c : ℕ}
    (h : Truthful collate ls c m r) (message : String) :
    Truthful collate ls c m { r with message := message } :=
  ⟨h.status, h.commit⟩

variable {cancelled : Bool}

theorem response_finish {r' : GroupPersistResult}
    (h : (entry.finish cancelled r).response = some r') : r' = r ∧ r.status = .succeeded := by
  cases entry with
  | service =>
    simp only [Entry.finish] at h
    split at h
    · cases h
    · next hstatus =>
      have hstatus : r.status = .succeeded := by simpa using hstatus
      split at h <;> exact ⟨(Option.some.inj h).symm, hstatus⟩
  | application snap =>
    simp only [Entry.finish, Result.response] at h
    grind
  | adapter snap =>
    simp only [Entry.finish, Result.response] at h
    grind

theorem response_finish_of_succeeded
    (h : r.status = .succeeded) : (entry.finish cancelled r).response = some r := by
  cases entry with
  | service =>
    simp only [Entry.finish, h, ne_eq, not_true_eq_false, if_false]
    split <;> rfl
  | application snap => simp [Entry.finish, Result.response, h]
  | adapter snap => simp [Entry.finish, Result.response, h]

theorem fits_returned {ls : List Label} {c : ℕ} {request : Request} (hquiet : commitsOf c ls = [])
    (h : r.status = .succeeded → Truthful collate ls c request.message r) :
    Fits collate ls c request (.returned (request.entry.finish cancelled r)) := by
  refine ⟨Or.inl hquiet, fun r' hr => ?_, fun _ => Or.inl hquiet⟩
  obtain ⟨rfl, hstatus⟩ := response_finish hr
  exact h hstatus

variable [DecidableEq κ]

/-! ## Lookups -/

variable {fault : Option String}

theorem findGroupMessage_some {db : Db} {record : GroupMessageRecord}
    (h : findGroupMessageByClientMessageId collate db fault m = .ok (some record)) :
    record ∈ db.messages ∧ record.message.key collate = m.key collate := by
  simp only [findGroupMessageByClientMessageId] at h
  split at h
  · cases h
  · cases fault with
    | some text => cases h
    | none =>
      have hmem : record ∈ [record] := List.mem_singleton_self _
      rw [← oneRecord_some h] at hmem
      simpa using hmem

theorem applicationFind_some {db : Db}
    {record : GroupMessageRecord} (h : applicationFind collate db fault m = .ok (some record)) :
    record ∈ db.messages ∧ record.message.key collate = m.key collate := by
  simp only [applicationFind] at h
  split at h
  · cases h
  · exact findGroupMessage_some collate h

/-! ## Steps -/

section Steps

variable {collate} {topic : Bytes} {ls : List Label} {s : State} {c : ℕ} {request : Request}

omit [DecidableEq κ] in
/-- A call goes on without a commit. -/
theorem Kept.go {phase : Phase} (h : Kept collate topic ls s) (hl : l.commit? = none)
    (hc : s.calls c = none ∨ ∃ phase, s.calls c = some ⟨request, phase⟩)
    (hfits : Fits collate (ls ++ [l]) c request phase) :
    Kept collate topic (ls ++ [l]) (s.go c request phase) := by
  have hcommits := commits_quiet ls hl
  refine ⟨?_, ?_, ?_, ?_, ?_, ?_, ?_, ?_, ?_, ?_⟩
  · rw [hcommits]
    exact h.messages
  · rw [hcommits]
    exact h.deliveries
  · rw [hcommits]
    exact h.outbox
  · rw [hcommits]
    exact h.ids
  · rw [hcommits]
    exact h.bound
  · rw [hcommits]
    exact h.positive
  · rw [hcommits]
    exact h.keys
  · rw [hcommits]
    exact h.authorized
  · rw [hcommits]
    intro k hk
    obtain ⟨call, hcall, hmessage, hgiven⟩ := h.given k hk
    by_cases hkc : k.call = c
    · obtain hc | ⟨phase', hc⟩ := hc
      · simp [hkc, hc] at hcall
      · rw [hkc, hc] at hcall
        cases hcall
        exact ⟨⟨request, phase⟩, by simp [State.go, hkc], hmessage, hgiven.keep l⟩
    · exact ⟨call, by simp [State.go, hkc, hcall], hmessage, hgiven.keep l⟩
  · intro c' request' phase' hcall
    by_cases hc' : c' = c
    · subst hc'
      simp only [State.go, Function.update_self, Option.some.injEq, Call.mk.injEq] at hcall
      obtain ⟨rfl, rfl⟩ := hcall
      exact hfits
    · simp only [State.go, Function.update_of_ne hc'] at hcall
      exact (h.calls c' request' phase' hcall).keep collate (by simp [hl])

/-- A commit writes its message, which no row had the key of. -/
theorem Kept.commit {f : Faults} {snap : Snapshot} {record : GroupMessageRecord} {db : Db}
    {phase : Phase} (h : Kept collate topic ls s)
    (hc : s.calls c = some ⟨request, .transaction snap⟩) (hid : s.db.nextMessage ≤ f.insertId)
    (hcommit : persistOnConnection collate topic f request.message snap s.db = .ok (record, db))
    (hfits : Fits collate (ls ++ [.commit ⟨c, record, snap⟩]) c request phase) :
    Kept collate topic (ls ++ [.commit ⟨c, record, snap⟩]) (State.go ⟨db, s.calls⟩ c request phase) := by
  obtain ⟨hkey, hzero, hrecord, hdb⟩ := persistOnConnection_ok collate hcommit
  obtain ⟨hgiven, hauthorized, -⟩ := h.calls c request _ hc
  have hcommits : commits (ls ++ [.commit ⟨c, record, snap⟩]) = commits ls ++ [⟨c, record, snap⟩] := by
    rw [commits_append, commits_commit]
  have hold : ∀ k ∈ commits ls, k.record.messageId < record.messageId := by
    intro k hk
    have := h.bound k hk
    simp only [hrecord, recordOf]
    omega
  have hold_key : ∀ k ∈ commits ls,
      k.record.message.key collate ≠ record.message.key collate := by
    intro k hk
    rw [hrecord]
    refine hkey k.record ?_
    rw [h.messages]
    exact List.mem_map_of_mem hk
  have hnew : (⟨c, record, snap⟩ : Commit) ∈ commits ls ++ [⟨c, record, snap⟩] := by simp
  refine ⟨?_, ?_, ?_, ?_, ?_, ?_, ?_, ?_, ?_, ?_⟩
  · simp [State.go, hdb, Db.write, hcommits, h.messages]
  · simp [State.go, hdb, Db.write, hcommits, h.deliveries]
  · simp [State.go, hdb, Db.write, hcommits, h.outbox]
  · rw [hcommits]
    exact List.pairwise_append.2 ⟨h.ids, List.pairwise_singleton _ _, by simpa using hold⟩
  · rw [hcommits]
    intro k hk
    simp only [State.go, hdb, Db.write]
    rcases List.mem_append.1 hk with hk | hk
    · have := hold k hk
      omega
    · grind
  · rw [hcommits]
    intro k hk
    rcases List.mem_append.1 hk with hk | hk
    · exact h.positive k hk
    · rw [List.mem_singleton.1 hk, hrecord]
      exact hzero
  · rw [hcommits]
    exact List.pairwise_append.2 ⟨h.keys, List.pairwise_singleton _ _, by simpa using hold_key⟩
  · rw [hcommits]
    intro k hk
    rcases List.mem_append.1 hk with hk | hk
    · exact h.authorized k hk
    · rw [List.mem_singleton.1 hk, hrecord]
      exact ⟨hauthorized, rfl⟩
  · rw [hcommits]
    intro k hk
    rcases List.mem_append.1 hk with hk | hk
    · obtain ⟨call, hcall, hmessage, hgiven'⟩ := h.given k hk
      by_cases hkc : k.call = c
      · rw [hkc, hc] at hcall
        cases hcall
        exact ⟨⟨request, phase⟩, by simp [State.go, hkc], hmessage, hgiven'.keep _⟩
      · exact ⟨call, by simp [State.go, hkc, hcall], hmessage, hgiven'.keep _⟩
    · rw [List.mem_singleton.1 hk]
      exact ⟨⟨request, phase⟩, by simp [State.go], by rw [hrecord, recordOf], hgiven.keep _⟩
  · intro c' request' phase' hcall
    by_cases hc' : c' = c
    · subst hc'
      simp only [State.go, Function.update_self, Option.some.injEq, Call.mk.injEq] at hcall
      obtain ⟨rfl, rfl⟩ := hcall
      exact hfits
    · simp only [State.go, Function.update_of_ne hc'] at hcall
      refine (h.calls c' request' phase' hcall).keep collate ?_
      intro k hk
      cases hk
      exact fun h => hc' h.symm

omit [DecidableEq κ] in
theorem Kept.quiet (h : Kept collate topic ls s) (hc : s.calls c = none) : commitsOf c ls = [] := by
  refine List.filter_eq_nil_iff.2 fun k hk => ?_
  obtain ⟨call, hcall, -⟩ := h.given k hk
  intro hkc
  rw [of_decide_eq_true hkc, hc] at hcall
  cases hcall

omit [DecidableEq κ] in
theorem Kept.commit_of_mem (h : Kept collate topic ls s) {record : GroupMessageRecord}
    (hmem : record ∈ s.db.messages) : ∃ k ∈ commits ls, k.record = record := by
  rw [h.messages] at hmem
  exact List.mem_map.1 hmem

omit [DecidableEq κ] in
theorem Kept.existing (h : Kept collate topic ls s) {record : GroupMessageRecord}
    (hfound : record ∈ s.db.messages ∧ record.message.key collate = m.key collate) :
    Truthful collate (ls ++ [.silent]) c m (fillExisting m record) ∧
      setExisting m record = fillExisting m record := by
  obtain ⟨k, hk, rfl⟩ := h.commit_of_mem hfound.1
  exact ⟨fillExisting_truthful collate (commits_subset ls .silent hk) hfound.2,
    setExisting_eq (h.positive k hk)⟩

theorem Kept.lookup (h : Kept collate topic ls s)
    (hservice : request.entry = .service) (hquiet : commitsOf c (ls ++ [.silent]) = []) :
    Fits collate (ls ++ [.silent]) c request
      (afterLookup request.message (applicationFind collate s.db fault request.message)) := by
  match hfind : applicationFind collate s.db fault request.message with
  | .error e => exact ⟨Or.inl hquiet, nofun, fun _ => Or.inl hquiet⟩
  | .ok none => exact ⟨hservice, hquiet⟩
  | .ok (some record) =>
    refine ⟨Or.inl hquiet, fun r hr => ?_, fun _ => Or.inl hquiet⟩
    cases hr
    exact (h.existing (applicationFind_some collate hfind)).1

theorem Entry.check_ok (h : entry.check m snap = .ok ()) : Authorized m snap := by
  rw [← checkAuthorized_ok_iff]
  cases entry with
  | adapter _ => exact h
  | service =>
    by_cases hv : validIdentity m snap = true
    · simpa [Entry.check, TinyImx.Local.require, hv, bind, Except.bind] using h
    · simp [Entry.check, TinyImx.Local.require, hv, bind, Except.bind] at h
  | application _ =>
    by_cases hv : validIdentity m snap = true
    · simpa [Entry.check, TinyImx.Local.require, hv, bind, Except.bind] using h
    · simp [Entry.check, TinyImx.Local.require, hv, bind, Except.bind] at h

theorem Entry.check_error {e : Failure}
    (h : entry.check m snap = .error e) : e.status = .invalidArgument := by
  cases entry with
  | adapter _ => exact checkAuthorized_error h
  | service =>
    simp only [Entry.check, bind, Except.bind] at h
    split at h
    · next hrequire =>
      cases h
      exact require_error hrequire
    · exact checkAuthorized_error h
  | application _ =>
    simp only [Entry.check, bind, Except.bind] at h
    split at h
    · next hrequire =>
      cases h
      exact require_error hrequire
    · exact checkAuthorized_error h

theorem Kept.precheck (h : Kept collate topic ls s)
    (hgiven : Given (ls ++ [.silent]) c request.entry snap)
    (hquiet : commitsOf c (ls ++ [.silent]) = []) :
    Fits collate (ls ++ [.silent]) c request (afterPrecheck request snap cancelled
      (findGroupMessageByClientMessageId collate s.db fault request.message)) := by
  simp only [afterPrecheck]
  split
  · next hcheck =>
    have hstatus := Entry.check_error hcheck
    exact fits_returned collate hquiet fun hs => by simp [Failure.result, hstatus] at hs
  · next hcheck =>
    split
    · next hfind =>
      have hstatus := findGroupMessage_error collate hfind
      exact fits_returned collate hquiet fun hs => absurd hs hstatus
    · next record hfind =>
      obtain ⟨htruthful, heq⟩ := h.existing (c := c) (findGroupMessage_some collate hfind)
      rw [heq]
      exact fits_returned collate hquiet fun _ => htruthful
    · exact ⟨hgiven, Entry.check_ok hcheck, hquiet⟩

theorem Kept.recoverInsert (h : Kept collate topic ls s)
    {error : String} (hquiet : commitsOf c (ls ++ [.silent]) = []) :
    Fits collate (ls ++ [.silent]) c request (.returned (request.entry.finish cancelled
      (afterRecoverInsert request.message error
        (findGroupMessageByClientMessageId collate s.db fault request.message)))) := by
  refine fits_returned collate hquiet ?_
  match hfind : findGroupMessageByClientMessageId collate s.db fault request.message with
  | .error _ => exact nofun
  | .ok none => exact nofun
  | .ok (some record) =>
    intro _
    obtain ⟨htruthful, heq⟩ := h.existing (c := c) (findGroupMessage_some collate hfind)
    rw [afterRecoverInsert, heq]
    exact htruthful

theorem Kept.recoverCommit (h : Kept collate topic ls s)
    {error : String} (honce : Once (ls ++ [.silent]) c request.message) :
    Fits collate (ls ++ [.silent]) c request (.returned (request.entry.finish cancelled
      (afterRecoverCommit request.message error
        (findGroupMessageByClientMessageId collate s.db fault request.message)))) := by
  match hfind : findGroupMessageByClientMessageId collate s.db fault request.message with
  | .error _ | .ok none =>
    refine ⟨honce, fun r hr => ?_, fun _ => Or.inr ⟨error, ?_⟩⟩
    · obtain ⟨rfl, hstatus⟩ := response_finish hr
      cases hstatus
    · cases request.entry <;> rfl
  | .ok (some record) =>
    obtain ⟨htruthful, heq⟩ := h.existing (c := c) (findGroupMessage_some collate hfind)
    rw [afterRecoverCommit, heq]
    refine ⟨honce, fun r hr => ?_, fun hr => ?_⟩
    · obtain ⟨rfl, -⟩ := response_finish hr
      exact htruthful.with_message collate _
    · rw [response_finish_of_succeeded] at hr
      · cases hr
      · exact htruthful.status

theorem Kept.commitsOf_commit (h : Kept collate topic ls s) {f : Faults}
    {record : GroupMessageRecord} {db : Db} (hc : s.calls c = some ⟨request, .transaction snap⟩)
    (hcommit : persistOnConnection collate topic f request.message snap s.db = .ok (record, db)) :
    commitsOf c (ls ++ [.commit ⟨c, record, snap⟩]) = [⟨c, record, snap⟩] ∧
      record.message = request.message := by
  obtain ⟨-, -, hquiet⟩ := h.calls c request _ hc
  obtain ⟨-, -, hrecord, -⟩ := persistOnConnection_ok collate hcommit
  refine ⟨?_, by rw [hrecord, recordOf]⟩
  rw [commitsOf, commits_append, List.filter_append]
  rw [commitsOf] at hquiet
  simp [hquiet]

theorem Kept.step {s' : State} (h : Kept collate topic ls s)
    (hstep : Step collate topic s l s') : Kept collate topic (ls ++ [l]) s' := by
  cases hstep with
  | «begin» c request hc =>
    have hquiet := h.quiet hc
    rw [← commitsOf_quiet ls (l := .silent) nofun] at hquiet
    refine h.go rfl (Or.inl hc) ?_
    match hentry : request.entry with
    | .service => exact ⟨hentry, hquiet⟩
    | .application snap => exact ⟨by simp [hentry, Given], hquiet⟩
    | .adapter snap => exact ⟨by simp [hentry, Given], hquiet⟩
  | cancel hc =>
    obtain ⟨-, hquiet⟩ := (h.calls _ _ _ hc).keep collate (l := .silent) nofun
    exact h.go rfl (Or.inr ⟨_, hc⟩) ⟨Or.inl hquiet, nofun, fun _ => Or.inl hquiet⟩
  | lookup fault hc =>
    obtain ⟨hservice, hquiet⟩ := (h.calls _ _ _ hc).keep collate (l := .silent) nofun
    exact h.go rfl (Or.inr ⟨_, hc⟩) (h.lookup hservice hquiet)
  | @authorize c request answer hc =>
    obtain ⟨hservice, hquiet⟩ :=
      (h.calls _ _ _ hc).keep collate (l := .authorized c answer) nofun
    refine h.go rfl (Or.inr ⟨_, hc⟩) ?_
    cases answer with
    | failed code message => exact ⟨Or.inl hquiet, nofun, fun _ => Or.inl hquiet⟩
    | denied message => exact ⟨Or.inl hquiet, nofun, fun _ => Or.inl hquiet⟩
    | allowed snap => exact ⟨by simp [hservice, Given], hquiet⟩
  | precheck fault cancelled hc =>
    obtain ⟨hgiven, hquiet⟩ := (h.calls _ _ _ hc).keep collate (l := .silent) nofun
    exact h.go rfl (Or.inr ⟨_, hc⟩) (h.precheck hgiven hquiet)
  | acquire message hc =>
    obtain ⟨-, -, hquiet⟩ := (h.calls _ _ _ hc).keep collate (l := .silent) nofun
    exact h.go rfl (Or.inr ⟨_, hc⟩) (fits_returned collate hquiet nofun)
  | @rollback c request snap f rollback hc hid hrollback =>
    obtain ⟨-, -, hquiet⟩ := (h.calls _ _ _ hc).keep collate (l := .silent) nofun
    refine h.go rfl (Or.inr ⟨_, hc⟩) ?_
    cases rollback with
    | insert error => exact hquiet
    | other failure =>
      have hstatus := persistOnConnection_other collate hrollback
      exact fits_returned collate hquiet fun hs => absurd hs hstatus
  | @commit c request snap f record db cancelled hc hid hcommit =>
    obtain ⟨hof, hmessage⟩ := h.commitsOf_commit hc hcommit
    have hmem : (⟨c, record, snap⟩ : Commit) ∈ commits (ls ++ [.commit ⟨c, record, snap⟩]) := by
      simp [commits_append]
    refine h.commit hc hid hcommit ⟨Or.inr ⟨_, hof, hmessage⟩, fun r hr => ?_, fun hr => ?_⟩
    · obtain ⟨rfl, -⟩ := response_finish hr
      refine ⟨rfl, _, hmem, rfl, rfl, by rw [hmessage], fun _ => ⟨rfl, hmessage⟩, nofun, nofun⟩
    · rw [response_finish_of_succeeded rfl] at hr
      cases hr
  | @commitLost c request snap f record db error hc hid hcommit =>
    obtain ⟨hof, hmessage⟩ := h.commitsOf_commit hc hcommit
    exact h.commit hc hid hcommit (Or.inr ⟨_, hof, hmessage⟩)
  | commitFailed error hc =>
    obtain ⟨-, -, hquiet⟩ := (h.calls _ _ _ hc).keep collate (l := .silent) nofun
    exact h.go rfl (Or.inr ⟨_, hc⟩) (Or.inl hquiet)
  | recoverInsert fault cancelled hc =>
    have hquiet := (h.calls _ _ _ hc).keep collate (l := .silent) nofun
    exact h.go rfl (Or.inr ⟨_, hc⟩) (h.recoverInsert hquiet)
  | recoverCommit fault cancelled hc =>
    have honce := (h.calls _ _ _ hc).keep collate (l := .silent) nofun
    exact h.go rfl (Or.inr ⟨_, hc⟩) (h.recoverCommit honce)

theorem kept_of_run (hrun : Run (Step collate topic) .initial ls s) : Kept collate topic ls s := by
  refine hrun.history (I := Kept collate topic) (fun _ _ _ _ h hs => h.step hs) ?_
  refine ⟨rfl, rfl, rfl, .nil, nofun, nofun, .nil, nofun, nofun, fun c request phase hc => ?_⟩
  cases hc

end Steps

/-! ## Retries -/

/-- What a call under the key of a row returns that begins when the row is there.  The RPC answers
from the row without an authorization; the other calls check their arguments first. -/
def RetryResult (record : GroupMessageRecord) (request : Request) (result : Result) : Prop :=
  match request.entry with
  | .service =>
    result = .rpc { code := .ok, response := some (fillExisting request.message record) } ∨
    (∃ message, result = .rpc { code := .unavailable, message := message }) ∨
    result = .rpc {
      code := .cancelled
      message := "PersistGroupMessage RPC cancelled before durable lookup" }
  | .application snap | .adapter snap =>
    result = .persist (fillExisting request.message record) ∨
    (∃ message, result = .persist { status := .storageError, message := message }) ∨
    ∃ e, request.entry.check request.message snap = .error e ∧ result = .persist (Failure.result e)

def Retry (record : GroupMessageRecord) (call : Call) : Prop :=
  match call.phase with
  | .lookup => call.request.entry = .service
  | .persist snap => call.request.entry = .application snap ∨ call.request.entry = .adapter snap
  | .returned result => RetryResult record call.request result
  | _ => False

section Retries

variable {collate} {topic : Bytes} {ls : List Label} {s : State} {c : ℕ} {request : Request}
  {record : GroupMessageRecord}

omit [DecidableEq κ] in
theorem Kept.built (h : Kept collate topic ls s) (hmem : record ∈ s.db.messages) :
    record.built = true ∧ record.messageId ≠ 0 ∧ record.message.fromUserId ≠ 0 ∧
      record.message.clientMessageId ≠ [] ∧ record.message.clientMessageId.length ≤ 64 := by
  obtain ⟨k, hk, rfl⟩ := h.commit_of_mem hmem
  obtain ⟨hauthorized, hrecord⟩ := h.authorized k hk
  have hzero := h.positive k hk
  have hid := hauthorized.identity
  simp only [validIdentity, Bool.not_eq_true', Bool.or_eq_false_iff, decide_eq_false_iff_not] at hid
  rw [hrecord]
  simp only [recordOf, GroupMessageRecord.built, Bool.and_eq_true]
  grind

theorem Kept.find (h : Kept collate topic ls s) (hmem : record ∈ s.db.messages) {m : GroupMessage}
    (hsender : m.fromUserId = record.message.fromUserId)
    (hcid : m.clientMessageId = record.message.clientMessageId) (fault : Option String) :
    findGroupMessageByClientMessageId collate s.db fault m =
      match fault with
      | some text => .error ⟨.storageError, text⟩
      | none => .ok (some record) := by
  obtain ⟨hbuilt, -, hfrom, hne, hlen⟩ := h.built hmem
  have hvalid : ¬ (m.fromUserId = 0 ∨ m.clientMessageId = [] ∨ 64 < m.clientMessageId.length) := by
    simp_all
  have hkeys : s.db.messages.Pairwise fun a b => a.message.key collate ≠ b.message.key collate := by
    rw [h.messages]
    exact List.pairwise_map.2 h.keys
  have hfilter : s.db.messages.filter (fun r => r.message.key collate = m.key collate) = [record] := by
    have hkey : m.key collate = record.message.key collate := by
      rw [GroupMessage.key, GroupMessage.key, hsender, hcid]
    rw [hkey]
    exact Keyed.filter_eq_singleton hkeys hmem
  cases fault with
  | some text => simp [findGroupMessageByClientMessageId, hvalid]
  | none => simp [findGroupMessageByClientMessageId, hvalid, hfilter, oneRecord, hbuilt]

theorem Kept.retry_lookup (h : Kept collate topic ls s) (hmem : record ∈ s.db.messages)
    (hsender : request.message.fromUserId = record.message.fromUserId)
    (hcid : request.message.clientMessageId = record.message.clientMessageId)
    (hservice : request.entry = .service) (fault : Option String) :
    Retry record ⟨request, afterLookup request.message
      (applicationFind collate s.db fault request.message)⟩ := by
  obtain ⟨-, -, hfrom, hne, hlen⟩ := h.built hmem
  have hvalid : ¬ (request.message.fromUserId = 0 ∨ request.message.clientMessageId = [] ∨
      64 < request.message.clientMessageId.length) := by
    simp_all
  rw [applicationFind, if_neg hvalid, h.find hmem hsender hcid fault]
  cases fault with
  | some text =>
    simp only [Retry, afterLookup, RetryResult, hservice]
    exact Or.inr (Or.inl ⟨text, rfl⟩)
  | none =>
    simp [Retry, afterLookup, RetryResult, hservice]

theorem Kept.retry_precheck (h : Kept collate topic ls s) (hmem : record ∈ s.db.messages)
    (hsender : request.message.fromUserId = record.message.fromUserId)
    (hcid : request.message.clientMessageId = record.message.clientMessageId)
    (hentry : request.entry = .application snap ∨ request.entry = .adapter snap)
    (fault : Option String) (cancelled : Bool) :
    Retry record ⟨request, afterPrecheck request snap cancelled
      (findGroupMessageByClientMessageId collate s.db fault request.message)⟩ := by
  obtain ⟨-, hzero, -⟩ := h.built hmem
  have hfinish : ∀ r, request.entry.finish cancelled r = .persist r := by
    intro r
    rcases hentry with hentry | hentry <;> rw [hentry] <;> rfl
  have hresult : ∀ result, (result = .persist (fillExisting request.message record) ∨
      (∃ message, result = .persist { status := .storageError, message := message }) ∨
      ∃ e, request.entry.check request.message snap = .error e ∧
        result = .persist (Failure.result e)) → RetryResult record request result := by
    intro result hresult
    rcases hentry with hentry | hentry <;> simpa [RetryResult, hentry] using hresult
  rw [h.find hmem hsender hcid fault]
  simp only [afterPrecheck, hfinish]
  split
  · next e hcheck => exact hresult _ (Or.inr (Or.inr ⟨e, hcheck, rfl⟩))
  · cases fault with
    | some text => exact hresult _ (Or.inr (Or.inl ⟨_, rfl⟩))
    | none => exact hresult _ (Or.inl (by rw [setExisting_eq hzero]))

theorem Retry.start (record : GroupMessageRecord) (request : Request) :
    Retry record ⟨request, request.entry.start⟩ := by
  match hentry : request.entry with
  | .service => exact hentry
  | .application snap => exact Or.inl hentry
  | .adapter snap => exact Or.inr hentry

/-- A step of a call that began when the row was there. -/
theorem Retry.step {s' : State} (h : Kept collate topic ls s)
    (hmem : record ∈ s.db.messages) (hstep : Step collate topic s l s') {call : Call}
    (hretry : ∀ call, s.calls c = some call →
      call.request.message.fromUserId = record.message.fromUserId →
      call.request.message.clientMessageId = record.message.clientMessageId → Retry record call)
    (hcall : s'.calls c = some call)
    (hsender : call.request.message.fromUserId = record.message.fromUserId)
    (hcid : call.request.message.clientMessageId = record.message.clientMessageId) :
    Retry record call := by
  -- the step is another call's, or this call's own with the phase it comes to
  have hgo : ∀ {t : State} {c' : ℕ} {request : Request} {phase : Phase}, t.calls = s.calls →
      (t.go c' request phase).calls c = some call → (c' = c → call = ⟨request, phase⟩ →
        Retry record ⟨request, phase⟩) → Retry record call := by
    intro t c' request phase ht hcall hown
    by_cases hc : c' = c
    · subst hc
      simp only [State.go, Function.update_self, Option.some.injEq] at hcall
      grind
    · simp only [State.go, Function.update_of_ne (Ne.symm hc), ht] at hcall
      exact hretry call hcall hsender hcid
  cases hstep with
  | «begin» c' request hc => exact hgo rfl hcall fun _ _ => Retry.start record request
  | cancel hc =>
    refine hgo rfl hcall ?_
    rintro rfl rfl
    have hservice : Retry record _ := hretry _ hc hsender hcid
    simp only [Retry] at hservice
    simp [Retry, RetryResult, hservice]
  | lookup fault hc =>
    refine hgo rfl hcall ?_
    rintro rfl rfl
    exact h.retry_lookup hmem hsender hcid (hretry _ hc hsender hcid) fault
  | authorize answer hc =>
    refine hgo rfl hcall ?_
    rintro rfl rfl
    exact absurd (hretry _ hc hsender hcid) id
  | precheck fault cancelled hc =>
    refine hgo rfl hcall ?_
    rintro rfl rfl
    exact h.retry_precheck hmem hsender hcid (hretry _ hc hsender hcid) fault cancelled
  | acquire message hc =>
    refine hgo rfl hcall ?_
    rintro rfl rfl
    exact absurd (hretry _ hc hsender hcid) id
  | rollback f hc hid hrollback =>
    refine hgo rfl hcall ?_
    rintro rfl rfl
    exact absurd (hretry _ hc hsender hcid) id
  | commit f cancelled hc hid hcommit =>
    refine hgo rfl hcall ?_
    rintro rfl rfl
    exact absurd (hretry _ hc hsender hcid) id
  | commitLost f error hc hid hcommit =>
    refine hgo rfl hcall ?_
    rintro rfl rfl
    exact absurd (hretry _ hc hsender hcid) id
  | commitFailed error hc =>
    refine hgo rfl hcall ?_
    rintro rfl rfl
    exact absurd (hretry _ hc hsender hcid) id
  | recoverInsert fault cancelled hc =>
    refine hgo rfl hcall ?_
    rintro rfl rfl
    exact absurd (hretry _ hc hsender hcid) id
  | recoverCommit fault cancelled hc =>
    refine hgo rfl hcall ?_
    rintro rfl rfl
    exact absurd (hretry _ hc hsender hcid) id

end Retries

/-! ## The tables -/

/-- A row with all that was written with it, by one commit of a call for its message: a delivery row
for each recipient of the one snapshot the call was given, and one event. -/
structure Complete (topic : Bytes) (ls : List Label) (s : State) (record : GroupMessageRecord)
    (k : Commit) : Prop where
  commit : (commits ls).filter (fun k' => k'.record.messageId = record.messageId) = [k]
  wrote : k.record = record
  snapshot : record = recordOf record.messageId record.message k.snapshot
  authorized : Authorized record.message k.snapshot
  given : ∃ call, s.calls k.call = some call ∧ call.request.message = record.message ∧
    Given ls k.call call.request.entry k.snapshot
  deliveries : s.db.deliveries.filter (fun row => row.messageId = record.messageId) =
    deliveryRows record.messageId record.message.groupId k.snapshot.recipientUserIds
  outbox : s.db.outbox.filter (fun event => event.aggregateId = decimal record.messageId) =
    [groupMessageCreated topic record]

/-- What a call that returned has said and done.  One that reports a failure has committed nothing,
or its one message, whose commit it could not confirm or whose answer was cancelled. -/
structure Answered (ls : List Label) (s : State) (c : ℕ) (request : Request) (result : Result) :
    Prop where
  truthful : ∀ r, result.response = some r → Truthful collate ls c request.message r
  failure : result.Failed → commitsOf c ls = [] ∨
    ∃ k, commitsOf c ls = [k] ∧ k.record ∈ s.db.messages ∧ k.record.message = request.message ∧
      (CommitFailure result request.entry ∨ result.response ≠ none)

/-- What happens to a row and to the calls under its sender and client message id after it is
there. -/
structure Retried (record : GroupMessageRecord) (s : State) (ls' : List Label) (s' : State) : Prop where
  row : record ∈ s'.db.messages
  unwritten : ∀ k ∈ commits ls', k.record.message.key collate ≠ record.message.key collate
  calls : ∀ c request result, s.calls c = none → s'.calls c = some ⟨request, .returned result⟩ →
    request.message.fromUserId = record.message.fromUserId →
    request.message.clientMessageId = record.message.clientMessageId →
    commitsOf c ls' = [] ∧ RetryResult record request result

section Main

variable {collate} {topic : Bytes} {ls : List Label} {s : State} {record : GroupMessageRecord}

omit [DecidableEq κ] in
theorem Kept.complete (h : Kept collate topic ls s) (hmem : record ∈ s.db.messages) :
    ∃ k, Complete topic ls s record k := by
  obtain ⟨k, hk, rfl⟩ := h.commit_of_mem hmem
  have hids : (commits ls).Pairwise fun a b => a.record.messageId ≠ b.record.messageId :=
    h.ids.imp fun hlt => Nat.ne_of_lt hlt
  obtain ⟨hauthorized, hsnapshot⟩ := h.authorized k hk
  refine ⟨k, Keyed.filter_eq_singleton hids hk, rfl, hsnapshot, hauthorized, h.given k hk, ?_, ?_⟩
  · rw [h.deliveries]
    refine Keyed.filter_flatMap (f := fun k : Commit => k.record.messageId) ?_ hids hk
    intro k' row hrow
    obtain ⟨recipient, -, rfl⟩ := List.mem_map.1 hrow
    rfl
  · rw [h.outbox, List.filter_map]
    have hdecimal : ((fun event : EventSpec => decide (event.aggregateId = decimal k.record.messageId)) ∘
        fun k : Commit => groupMessageCreated topic k.record) =
        fun k' : Commit => decide (k'.record.messageId = k.record.messageId) := by
      funext k'
      refine decide_eq_decide.2 ⟨fun hd => TinyImx.Local.decimal_injective hd, fun hd => ?_⟩
      exact congrArg decimal hd
    rw [hdecimal, Keyed.filter_eq_singleton hids hk]
    rfl

omit [DecidableEq κ] in
theorem Kept.answered (h : Kept collate topic ls s) {c : ℕ} {request : Request} {result : Result}
    (hc : s.calls c = some ⟨request, .returned result⟩) :
    Answered collate ls s c request result := by
  obtain ⟨honce, htruthful, hnone⟩ := h.calls c request _ hc
  refine ⟨htruthful, fun _ => ?_⟩
  rcases honce with hquiet | ⟨k, hof, hmessage⟩
  · exact Or.inl hquiet
  · refine Or.inr ⟨k, hof, ?_, hmessage, ?_⟩
    · have hk : k ∈ commitsOf c ls := by simp [hof]
      rw [h.messages]
      exact List.mem_map_of_mem (List.mem_filter.1 hk).1
    · by_cases hresponse : result.response = none
      · rcases hnone hresponse with hquiet | hfailure
        · simp [hof] at hquiet
        · exact Or.inl hfailure
      · exact Or.inr hresponse

/-- From a state with a row, every run keeps the row and answers later calls from it. -/
theorem Kept.retried (h : Kept collate topic ls s) (hmem : record ∈ s.db.messages)
    {ls' : List Label} {s' : State} (hrun : Run (Step collate topic) s ls' s') :
    Retried collate record s ls' s' := by
  have hall : Kept collate topic (ls ++ ls') s' ∧ record ∈ s'.db.messages ∧
      ∀ c call, s.calls c = none → s'.calls c = some call →
        call.request.message.fromUserId = record.message.fromUserId →
        call.request.message.clientMessageId = record.message.clientMessageId →
        Retry record call := by
    refine hrun.history (I := fun ls' s' => Kept collate topic (ls ++ ls') s' ∧
      record ∈ s'.db.messages ∧ ∀ c call, s.calls c = none → s'.calls c = some call →
        call.request.message.fromUserId = record.message.fromUserId →
        call.request.message.clientMessageId = record.message.clientMessageId →
        Retry record call) ?_ ?_
    · intro ls' t l t' ⟨hkept, hrow, hretry⟩ hstep
      have hkept' := hkept.step hstep
      refine ⟨by rwa [List.append_assoc] at hkept', ?_, ?_⟩
      · rw [hkept.messages] at hrow
        rw [hkept'.messages, commits_append, List.map_append]
        exact List.mem_append_left _ hrow
      · intro c call hc hcall hsender hcid
        exact Retry.step hkept hrow hstep (fun call' => fun hcall' => hretry c call' hc hcall') hcall
          hsender hcid
    · exact ⟨by simpa using h, hmem, fun c call hc hcall => by rw [hc] at hcall; cases hcall⟩
  obtain ⟨hkept, hrow, hretry⟩ := hall
  have hcommits : ∀ k ∈ commits ls', k.record.message.key collate ≠ record.message.key collate := by
    intro k hk
    obtain ⟨k₀, hk₀, rfl⟩ := h.commit_of_mem hmem
    have hkeys := hkept.keys
    rw [commits_append] at hkeys
    exact ((List.pairwise_append.1 hkeys).2.2 k₀ hk₀ k hk).symm
  refine ⟨hrow, hcommits, fun c request result hc hcall hsender hcid => ⟨?_, ?_⟩⟩
  · refine List.filter_eq_nil_iff.2 fun k hk hkc => ?_
    have hk' : k ∈ commits (ls ++ ls') := by
      rw [commits_append]
      exact List.mem_append_right _ hk
    obtain ⟨call', hcall', hmessage, -⟩ := hkept.given k hk'
    rw [of_decide_eq_true hkc, hcall] at hcall'
    cases hcall'
    refine hcommits k hk ?_
    rw [← hmessage, GroupMessage.key, GroupMessage.key, hsender, hcid]
  · exact hretry c _ hc hcall hsender hcid

end Main

/-- Group messages are persisted once and with their recipients.  In every run, with calls in any
order between each other's lookups, authorizations and transactions and with replies of commits that
are lost, there is one row for a sender and a client message id; a row is there with all that belongs
to it and nothing is there without its row; results are true of the rows; and once a row is there no
call under its key writes anything, and those that begin then answer from the row. -/
theorem group_messages_persisted_once {topic : Bytes} {ls : List Label} {s : State}
    (hrun : Run (Step collate topic) .initial ls s) :
    (s.db.messages.Pairwise fun a b => a.message.key collate ≠ b.message.key collate) ∧
    (∀ record ∈ s.db.messages, ∃ k, Complete topic ls s record k) ∧
    (∀ row ∈ s.db.deliveries, ∃ record ∈ s.db.messages, row.messageId = record.messageId) ∧
    (∀ event ∈ s.db.outbox, ∃ record ∈ s.db.messages, event = groupMessageCreated topic record) ∧
    (∀ c request result, s.calls c = some ⟨request, .returned result⟩ →
      Answered collate ls s c request result) ∧
    (∀ record ∈ s.db.messages, ∀ ls' s', Run (Step collate topic) s ls' s' →
      Retried collate record s ls' s') := by
  have h := kept_of_run hrun
  refine ⟨?_, fun record hmem => h.complete hmem, ?_, ?_, fun c request result hc => h.answered hc,
    fun record hmem ls' s' hrun' => h.retried hmem hrun'⟩
  · rw [h.messages]
    exact List.pairwise_map.2 h.keys
  · rw [h.deliveries, h.messages]
    intro row hrow
    obtain ⟨k, hk, hrow⟩ := List.mem_flatMap.1 hrow
    obtain ⟨recipient, -, rfl⟩ := List.mem_map.1 hrow
    exact ⟨k.record, List.mem_map_of_mem hk, rfl⟩
  · rw [h.outbox, h.messages]
    intro event hevent
    obtain ⟨k, hk, rfl⟩ := List.mem_map.1 hevent
    exact ⟨k.record, List.mem_map_of_mem hk, rfl⟩

/-- A message whose commit reply and whose recovering lookup are lost, and its retry. -/
theorem group_messages_persisted_once_retry :
    ∃ (ls : List Label) (s : State) (request : Request) (record : GroupMessageRecord),
      Run (Step (id : Bytes → Bytes) []) .initial ls s ∧
      s.calls 0 = some ⟨request, .returned (.rpc ⟨.unavailable, "group message commit failed", none⟩)⟩ ∧
      s.calls 1 = some ⟨request, .returned (.rpc ⟨.ok, "", some ⟨.succeeded, .reused, 1, some record,
        "existing group message reused"⟩⟩)⟩ ∧
      s.db.messages = [record] ∧ ∃ k, Complete [] ls s record k := by
  have h : Run (Step (id : Bytes → Bytes) []) .initial [] .initial := .nil _
  have h := h.snoc (.begin 0 ⟨⟨7, 3, [1], 1, [2]⟩, .service⟩ rfl)
  have h := h.snoc (.lookup (c := 0) none rfl)
  have h := h.snoc (.authorize (c := 0) (.allowed ⟨1, 1, 1, [8, 9]⟩) rfl)
  have h := h.snoc (.precheck (c := 0) none false rfl)
  have h := h.snoc (.commitLost (c := 0) { insertId := 1 } "" rfl (by decide) rfl)
  have h := h.snoc (.recoverCommit (c := 0) (some "gone") false rfl)
  have h := h.snoc (.begin 1 ⟨⟨7, 3, [1], 1, [2]⟩, .service⟩ rfl)
  have h := h.snoc (.lookup (c := 1) none rfl)
  refine ⟨_, _, _, ⟨1, ⟨7, 3, [1], 1, [2]⟩, 1, 1, 1⟩, h, rfl, rfl, rfl, ?_⟩
  exact (group_messages_persisted_once (id : Bytes → Bytes) h).2.1 _ (List.mem_singleton_self _)

end TinyImx.Message
