import TinyImx.Local.Identity

/-!
# Resolving an uncertain send

`ResolvePrivateMessage` of the message application looks a client message id up and compares what it
finds with what the caller sent; `PersistPrivateMessage` stores the message or answers for the one
that has its identity.  Both see the same record, and they judge it alike as long as the caller
spells the id as the record does.
-/

namespace TinyImx.Local

open Kv Act

/-- `ResolvePrivateMessageOutcome`. -/
inductive ResolveOutcome where
  | notObserved | matchedDurable | idempotencyConflict
  deriving DecidableEq

/-- `ResolvePrivateMessageApplicationResult`. -/
structure ResolveResult where
  status : Status := .storageError
  outcome : ResolveOutcome := .notObserved
  record : Option MessageView := none
  message : String := ""

def validPrivatePersist (inp : PersistInput) : Bool :=
  inp.fromUserId ≠ 0 && inp.toUserId ≠ 0 && inp.fromUserId ≠ inp.toUserId &&
    inp.clientMessageId ≠ [] && inp.clientMessageId.length ≤ 64 && 1 ≤ inp.messageType &&
    inp.messageType ≤ 3 && inp.content ≠ []

/-- The checks of `ResolvePrivateMessage` on the record it was given; the delivery state is in range
by its type. -/
def resolvable (inp : PersistInput) (m : MessageView) : Bool :=
  m.messageId ≠ 0 && m.fromUserId = inp.fromUserId && m.clientMessageId = inp.clientMessageId &&
    m.toUserId ≠ 0 && m.toUserId ≠ inp.fromUserId && 1 ≤ m.messageType && m.messageType ≤ 3 &&
    m.content ≠ []

/-- What `ResolvePrivateMessage` makes of the answer of the repository. -/
def resolveFound (inp : PersistInput) (found : GetResult) : ResolveResult :=
  if found.status ≠ .succeeded then { status := found.status, message := found.message }
  else if !found.found then
    { status := .succeeded, message := "private message not observed in this read" }
  else if !resolvable inp found.record then
    { status := .invalidRecord, message := "identity lookup returned an invalid private message" }
  else if found.record.toUserId ≠ inp.toUserId || found.record.messageType ≠ inp.messageType ||
      found.record.content ≠ inp.content then
    { status := .succeeded, outcome := .idempotencyConflict,
      message := "client_message_id belongs to different immutable content" }
  else
    { status := .succeeded, outcome := .matchedDurable, record := some found.record,
      message := "matching durable private message observed" }

/-- `MessageApplicationService::ResolvePrivateMessage` on the local store. -/
def resolvePrivateMessage (opts : Options) (env : Env) (inp : PersistInput) (s : Store) :
    ResolveResult × Store :=
  if !validPrivatePersist inp then
    ({ status := .invalidArgument, message := "invalid ResolvePrivateMessage application request" },
      s)
  else
    let (found, s') :=
      findPrivateMessageByClientMessageId opts env inp.fromUserId inp.clientMessageId s
    (resolveFound inp found, s')

/-- `MessageApplicationService::PersistPrivateMessage` on the local store. -/
def applyPersistPrivateMessage (opts : Options) (env : Env) (inp : PersistInput) (s : Store) :
    PersistResult × Store :=
  if !validPrivatePersist inp then
    ({ status := .invalidArgument, message := "invalid PersistPrivateMessage application request" },
      s)
  else persistPrivateMessage opts env 0 inp s

variable {opts : Options} {env : Env} {s : Store} {db : Db} {inp : PersistInput} {canonical : Bytes}

/-! ## What both accept -/

theorem valid_of_checkInput (h : checkInput opts env 0 inp = .ok canonical) :
    validPrivatePersist inp = true := by
  obtain ⟨_, hdialog, h⟩ := bind_eq_ok.1 h
  obtain ⟨_, hreq, -⟩ := bind_eq_ok.1 h
  obtain ⟨hfrom, hto, hne⟩ := dialog_ok hdialog
  simp only [require_eq_ok, Bool.and_eq_true, decide_eq_true_eq] at hreq
  obtain ⟨⟨⟨⟨hcid, hlen⟩, hlow⟩, hhigh⟩, hcontent⟩ := hreq
  simp [validPrivatePersist, hfrom.ne', hto.ne', hne, hcid, hlen, hlow, hhigh, hcontent]

theorem actor_of_checkInput (h : checkInput opts env 0 inp = .ok canonical) :
    actor opts inp.fromUserId = .ok () := by
  obtain ⟨_, hdialog, -⟩ := bind_eq_ok.1 h
  obtain ⟨u, hactor, -⟩ := bind_eq_ok.1 hdialog
  exact hactor

theorem findPrivateMessage_eq {found : GetResult} (hopen : checkOpen s = .ok ())
    (hin : checkInput opts env 0 inp = .ok canonical)
    (hlookup : identity opts env 0 inp.fromUserId 0 inp.clientMessageId = .ok canonical)
    (hfind : findRecord s.db inp.fromUserId canonical = .ok found) :
    findPrivateMessageByClientMessageId opts env inp.fromUserId inp.clientMessageId s =
      (found, s) := by
  have hcid : require (inp.clientMessageId ≠ [] && inp.clientMessageId.length ≤ 64)
      .invalidArgument "invalid local CID" = .ok () := by
    have hvalid := valid_of_checkInput hin
    simp only [validPrivatePersist, Bool.and_eq_true, decide_eq_true_eq] at hvalid
    simp [require_eq_ok, hvalid]
  have hrun : (do
      Act.inspect checkOpen
      check (actor opts inp.fromUserId)
      check (require (inp.clientMessageId ≠ [] && inp.clientMessageId.length ≤ 64)
        .invalidArgument "invalid local CID")
      let canonical ← check (identity opts env 0 inp.fromUserId 0 inp.clientMessageId)
      .inspect fun s => findRecord s.db inp.fromUserId canonical : StoreM GetResult) s =
      (.ok found, s) := by
    have hpass : ∀ {α : Type} {x : Except Failure α} {a : α}, x = .ok a →
        check x s = (.ok a, s) := fun hx => by rw [check, inspect_apply, hx]
    have hfence : Act.inspect checkOpen s = (.ok (), s) := by rw [inspect_apply, hopen]
    rw [bind_of_ok hfence, bind_of_ok (hpass (actor_of_checkInput hin)), bind_of_ok (hpass hcid),
      bind_of_ok (hpass hlookup), inspect_apply, hfind]
  unfold findPrivateMessageByClientMessageId call
  rw [hrun]
  rfl

theorem Rows.findRecord_of_lookup (h : Rows db) {f mid : ℕ} {m : MessageView}
    (hI : db.lookup (.I f canonical) = some mid) (hM : db.lookup (.M mid) = some m) :
    findRecord db f canonical = .ok { status := .succeeded, found := true, record := m } := by
  obtain ⟨m', hm', hf, hK⟩ := h.cid hI
  rw [hM] at hm'
  cases hm'
  rw [← h.messageId hM] at hK
  simp [findRecord, hI, h.record_eq, hM, GetResult.Found, require, hf, hK, bind, Except.bind, pure,
    Except.pure]

/-! ## The two verdicts -/

theorem ends_trivial {α : Type} (x : StoreM α) (s : Store) :
    Ends x s (fun _ _ => True) fun _ _ => True := by
  unfold Ends
  split <;> trivial

theorem createMessage_outcome (item : ℕ) : Ends (createMessage opts env item inp canonical) s
    (fun r _ => r.outcome = .created) fun _ _ => True := by
  refine Ends.bind (ends_trivial _ _) fun _ _ _ => ?_
  refine Ends.bind (ends_trivial _ _) fun _ _ _ => ?_
  refine Ends.bind (ends_trivial _ _) fun _ _ _ => Ends.onThrow ?_
  refine Ends.bind (ends_trivial _ _) fun _ _ _ => ?_
  refine Ends.bind (ends_trivial _ _) fun _ _ _ => ?_
  refine Ends.bind (ends_trivial _ _) fun _ _ _ => ?_
  refine Ends.bind (ends_trivial _ _) fun _ _ _ => ?_
  refine Ends.bind (ends_trivial _ _) fun _ _ _ => ?_
  refine Ends.bind (ends_trivial _ _) fun _ _ _ => ?_
  refine Ends.bind (ends_trivial _ _) fun _ _ _ => ?_
  refine Ends.bind (ends_trivial _ _) fun _ _ _ => ?_
  refine Ends.bind (ends_trivial _ _) fun _ _ _ => ?_
  exact Ends.pure rfl

theorem persist_outcome_of_none (hin : checkInput opts env 0 inp = .ok canonical)
    (hI : s.db.lookup (.I inp.fromUserId canonical) = none) :
    (persistPrivateMessage opts env 0 inp s).1.outcome = .created := by
  have hbody : Ends (persistBody opts env 0 inp) s (fun r _ => r.outcome = .created)
      fun _ _ => True := by
    have hlocked : Ends (lockUsers opts [inp.fromUserId, inp.toUserId]) s
        (fun _ s' => SameData s s') fun e s' => SameData s s' ∧ Admissible env e := lockUsers_ends _
    refine check_bind (fun _ _ => trivial) fun c hin' => ?_
    rw [hin] at hin'
    cases hin'
    refine Ends.bind (hlocked.mono (fun _ _ ht => ht) fun _ _ _ => trivial) fun _ t hst => ?_
    refine Ends.inspect_bind (fun _ _ => trivial) fun existing hex => ?_
    have hnone : findExisting t.db inp.fromUserId canonical = .ok none := by
      rw [hst.db, findExisting, hI]
    rw [hnone] at hex
    cases hex
    exact createMessage_outcome 0
  rcases call_ends id PersistResult.ofFailure (E := fun _ _ => True) (fun _ _ => trivial)
    fun _ => hbody with ⟨r, hr, hq⟩ | ⟨e, hr, -⟩
  · rw [persistPrivateMessage, hr]
    exact hq
  · rw [persistPrivateMessage, hr]
    rfl

theorem resolveFound_of_record (inp : PersistInput) {m : MessageView} {mid : ℕ}
    (hm : decodeRecord m mid = .ok m)
    (hfrom : m.fromUserId = inp.fromUserId) :
    let r := resolveFound inp { status := .succeeded, found := true, record := m }
    if m.clientMessageId ≠ inp.clientMessageId then r.status = .invalidRecord
    else r.status = .succeeded ∧ r.outcome = if m.toUserId = inp.toUserId ∧
      m.messageType = inp.messageType ∧ m.content = inp.content then .matchedDurable
      else .idempotencyConflict := by
  rw [decodeRecord_eq_ok] at hm
  obtain ⟨hid, hpos, hf, ht, hne, -, -, hlow, hhigh, hcontent, -⟩ := hm
  have hresolvable : resolvable inp m = decide (m.clientMessageId = inp.clientMessageId) := by
    have hmid : m.messageId ≠ 0 := hid ▸ hpos
    rw [hfrom] at hne
    simp [resolvable, hmid, hfrom, ht, Ne.symm hne, hlow, hhigh, hcontent]
  split
  · next hcid => simp [resolveFound, hresolvable, hcid]
  · next hcid =>
    rw [not_not] at hcid
    by_cases hsame : m.toUserId = inp.toUserId ∧ m.messageType = inp.messageType ∧
        m.content = inp.content
    · simp [resolveFound, hresolvable, hcid, hsame]
    · have hdiffers : (¬m.toUserId = inp.toUserId ∨ ¬m.messageType = inp.messageType) ∨
          ¬m.content = inp.content := by tauto
      simp [resolveFound, hresolvable, hcid, hsame, hdiffers]

/-- A resolve says what a persist of the same arguments would answer, in every reachable state that is
open and for every message both accept whose locks the persist is granted; where the record of the
identity spells the client id differently, the persist reports a conflict and the resolve refuses the
record.  A resolve changes nothing. -/
theorem resolve_predicts_persist (h : Reachable opts s) (hopen : checkOpen s = .ok ())
    (hin : checkInput opts env 0 inp = .ok canonical)
    (hlookup : identity opts env 0 inp.fromUserId 0 inp.clientMessageId = .ok canonical)
    (hlock : (lockUsers opts [inp.fromUserId, inp.toUserId] s).1 = .ok ()) :
    let resolved := (resolvePrivateMessage opts env inp s).1
    let persisted := (applyPersistPrivateMessage opts env inp s).1
    (resolved.status = .succeeded ∧ resolved.outcome = .matchedDurable ↔
      persisted.status = .succeeded ∧ persisted.outcome = .reused) ∧
    (resolved.status = .succeeded ∧ resolved.outcome = .idempotencyConflict ↔
      persisted.status = .succeeded ∧ persisted.outcome = .idempotencyConflict ∧
        persisted.record.clientMessageId = inp.clientMessageId) ∧
    (resolved.status = .succeeded ∧ resolved.outcome = .notObserved ↔
      s.db.lookup (.I inp.fromUserId canonical) = none) ∧
    (resolved.status ≠ .succeeded ↔
      persisted.status = .succeeded ∧ persisted.outcome = .idempotencyConflict ∧
        persisted.record.clientMessageId ≠ inp.clientMessageId) ∧
    (resolvePrivateMessage opts env inp s).2 = s := by
  have hrows := h.inv.sound.toRows
  have hvalid := valid_of_checkInput hin
  have hpersist : applyPersistPrivateMessage opts env inp s =
      persistPrivateMessage opts env 0 inp s := by
    simp [applyPersistPrivateMessage, hvalid]
  rw [hpersist]
  cases hI : s.db.lookup (.I inp.fromUserId canonical) with
  | none =>
    have hfind : findRecord s.db inp.fromUserId canonical = .ok { status := .succeeded } := by
      rw [findRecord, hI]
    have hresolve : resolvePrivateMessage opts env inp s =
        (resolveFound inp { status := .succeeded }, s) := by
      simp [resolvePrivateMessage, hvalid, findPrivateMessage_eq hopen hin hlookup hfind]
    have hcreated := persist_outcome_of_none hin hI
    rw [hresolve]
    simp [resolveFound, hcreated]
  | some mid =>
    obtain ⟨m, hM, hfrom, -⟩ := hrows.cid hI
    have hfind := hrows.findRecord_of_lookup hI hM
    have hresolve : resolvePrivateMessage opts env inp s =
        (resolveFound inp { status := .succeeded, found := true, record := m }, s) := by
      simp [resolvePrivateMessage, hvalid, findPrivateMessage_eq hopen hin hlookup hfind]
    have hanswer := persistPrivateMessage_answered h.inv hin hI hM hopen hlock
    have hverdict := resolveFound_of_record inp (hrows.record hM) hfrom
    rw [hresolve]
    obtain ⟨hstatus, -, hrecord, hreused, hconflict⟩ := hanswer
    dsimp only at hverdict ⊢
    rw [hstatus, hrecord]
    grind

theorem resolve_predicts_persist_sent :
    (resolvePrivateMessage sampleOptions sampleEnv sampleInput sampleSent).1.outcome =
        .matchedDurable ∧
      (applyPersistPrivateMessage sampleOptions sampleEnv sampleInput sampleSent).1.outcome =
        .reused :=
  have hin : checkInput sampleOptions sampleEnv 0 sampleInput = .ok [99] := rfl
  have h := resolve_predicts_persist sampleSent_reachable rfl hin rfl rfl
  ⟨by decide, (h.1.1 ⟨by decide, by decide⟩).2⟩

def aliasOptions : Options := { sampleOptions with resolveIdentity := true }

def aliasEnv : Env :=
  { sampleEnv with
    resolve := fun _ _ _ cid =>
      { status := .succeeded
        canonicalCid := cid.map fun b => if 65 ≤ b ∧ b ≤ 90 then b + 32 else b } }

def aliasSent : Store := (Op.persist sampleInput).run aliasOptions aliasEnv sampleStore

def aliasInput : PersistInput := { sampleInput with clientMessageId := [67] }

/-- A persist with another spelling of a client id is a conflict, and a resolve is an error. -/
theorem resolve_refuses_alias : Reachable aliasOptions aliasSent ∧ checkOpen aliasSent = .ok () ∧
    checkInput aliasOptions aliasEnv 0 aliasInput = .ok [99] ∧
    identity aliasOptions aliasEnv 0 aliasInput.fromUserId 0 aliasInput.clientMessageId =
      .ok [99] ∧
    (applyPersistPrivateMessage aliasOptions aliasEnv aliasInput aliasSent).1.status =
      .succeeded ∧
    (applyPersistPrivateMessage aliasOptions aliasEnv aliasInput aliasSent).1.outcome =
      .idempotencyConflict ∧
    (resolvePrivateMessage aliasOptions aliasEnv aliasInput aliasSent).1.status =
      .invalidRecord := by
  have hopened : openStore aliasOptions ∅ [] = .ok sampleStore := rfl
  exact ⟨⟨sampleStore, _, hopened, .single (.call sampleStore aliasEnv (.persist sampleInput))⟩,
    rfl, rfl, rfl, by decide, by decide, by decide⟩

end TinyImx.Local
