import TinyImx.Registry.Registrar

/-!
# What the registrar believes, and what its shutdown deletes

The registration is true as long as the generation is recorded in the session in which the node was
confirmed; the code samples it later, and a new session may come in between.  The delete of `Stop` is
guarded by a version that every new node starts from, so that it may meet a node made after the one
that was checked.
-/

namespace TinyImx.Registry.ZooKeeper

open TinyImx.Local (Bytes)

variable {serialized : Bytes} {s s' : State} {l : Label} {ls : List Label}

/-! ## Sessions -/

def Phase.connected : Phase → Bool
  | .ensureParents _ | .create _ | .exists _ | .get _ _ | .session _ _ | .record _ _ | .stopExists
  | .stopGet _ | .stopSession _ _ | .stopDelete _ _ => true
  | _ => false

structure Sessions (s : State) : Prop where
  mine_lt : ∀ session, s.mine session = true → 0 < session ∧ session < s.server.nextSession
  owner_lt : ∀ node, s.server.node = some node → node.ephemeralOwner < s.server.nextSession
  czxid_lt : ∀ node, s.server.node = some node → node.czxid < s.server.nextZxid
  handle : ∀ session, s.client.handle = some (some session) → s.mine session = true
  known : s.client.sessionGeneration ≠ 0 → s.mine s.client.sessionId = true
  state : s.client.state = .connected → s.client.sessionGeneration ≠ 0
  phase : s.phase.connected = true → s.client.sessionGeneration ≠ 0
  generation : s.registeredGeneration ≤ s.client.sessionGeneration
  session_pos : 0 < s.server.nextSession

structure Server.Plausible (server : Server) : Prop where
  session : 0 < server.nextSession
  owner : ∀ node, server.node = some node → node.ephemeralOwner < server.nextSession
  czxid : ∀ node, server.node = some node → node.czxid < server.nextZxid

theorem Sessions.initial {server : Server} (h : server.Plausible) : Sessions (.initial server) where
  mine_lt session hmine := by cases hmine
  owner_lt := h.owner
  czxid_lt := h.czxid
  handle session hhandle := by cases hhandle
  known hgeneration := absurd rfl hgeneration
  state hstate := by cases hstate
  phase hphase := by cases hphase
  generation := le_rfl
  session_pos := h.session

theorem Sessions.go (h : Sessions s) {registered : Bool} {generation : ℕ} {error : RegistrarError}
    {phase : Phase} (hgeneration : generation ≤ s.client.sessionGeneration)
    (hphase : phase.connected = true → s.client.sessionGeneration ≠ 0) :
    Sessions { s with registered, registeredGeneration := generation, lastError := error, phase } where
  mine_lt := h.mine_lt
  owner_lt := h.owner_lt
  czxid_lt := h.czxid_lt
  handle := h.handle
  known := h.known
  state := h.state
  phase := hphase
  generation := hgeneration
  session_pos := h.session_pos

theorem Sessions.server (h : Sessions s) {server : Server}
    (hsession : s.server.nextSession ≤ server.nextSession)
    (hnode : ∀ node, server.node = some node →
      node.ephemeralOwner < server.nextSession ∧ node.czxid < server.nextZxid) :
    Sessions { s with server } where
  mine_lt session hmine := ⟨(h.mine_lt session hmine).1, (h.mine_lt session hmine).2.trans_le hsession⟩
  owner_lt node hn := (hnode node hn).1
  czxid_lt node hn := (hnode node hn).2
  handle := h.handle
  known := h.known
  state := h.state
  phase := h.phase
  generation := h.generation
  session_pos := h.session_pos.trans_le hsession

theorem Sessions.checked (h : Sessions s) (generation : ℕ) (connected : Bool) :
    Sessions (s.checked generation connected) := by
  refine h.go h.generation fun hphase => ?_
  split at hphase <;> cases hphase

theorem Sessions.giveUp (h : Sessions s) (origin : Origin) : Sessions (s.giveUp origin) := by
  have hphase : origin.failed.connected = true → s.client.sessionGeneration ≠ 0 := by
    cases origin <;> nofun
  unfold State.giveUp
  split
  · exact h.go h.generation hphase
  · exact h.go h.generation hphase

theorem Sessions.afterEnsureParents (h : Sessions s) (hg : s.client.sessionGeneration ≠ 0)
    (origin : Origin) (status : OperationStatus) : Sessions (s.afterEnsureParents origin status) := by
  cases status <;> exact h.go h.generation fun _ => hg

theorem Sessions.afterCreate (h : Sessions s) (hg : s.client.sessionGeneration ≠ 0)
    (origin : Origin) (status : OperationStatus) : Sessions (s.afterCreate origin status) := by
  cases status <;> exact h.go h.generation fun _ => hg

theorem Sessions.afterReadFailed (h : Sessions s) (hg : s.client.sessionGeneration ≠ 0)
    (origin : Origin) (status : OperationStatus) : Sessions (s.afterReadFailed origin status) := by
  cases status <;> exact h.go h.generation fun _ => hg

theorem Sessions.afterSession (h : Sessions s) (hg : s.client.sessionGeneration ≠ 0)
    (origin : Origin) (node : NodeRecord) : Sessions (s.afterSession serialized origin node) := by
  unfold State.afterSession
  split
  · exact h.go h.generation fun _ => hg
  · split
    · exact h.go h.generation fun _ => hg
    · exact h.go h.generation fun _ => hg

theorem Sessions.afterStopSession (h : Sessions s) (hg : s.client.sessionGeneration ≠ 0)
    (node : NodeRecord) (czxid : ℕ) : Sessions (s.afterStopSession node czxid) := by
  unfold State.afterStopSession
  split
  · exact h.go h.generation fun _ => hg
  · exact h.go h.generation fun _ => hg

theorem Sessions.client (h : Sessions s) {handle : Option (Option ℕ)} {state : ConnectionState}
    (hhandle : handle = s.client.handle ∨ ∀ session, handle ≠ some (some session))
    (hstate : state ≠ .connected) : Sessions { s with client := { s.client with handle, state } } where
  mine_lt := h.mine_lt
  owner_lt := h.owner_lt
  czxid_lt := h.czxid_lt
  handle session hsession := by
    rcases hhandle with rfl | hnone
    · exact h.handle session hsession
    · exact absurd hsession (hnone session)
  known := h.known
  state hconnected := absurd hconnected hstate
  phase := h.phase
  generation := h.generation
  session_pos := h.session_pos

theorem Sessions.onConnected (h : Sessions s) {session : ℕ}
    (hhandle : s.client.handle = some (some session)) :
    Sessions { s with client := s.client.onConnected session } where
  mine_lt := h.mine_lt
  owner_lt := h.owner_lt
  czxid_lt := h.czxid_lt
  handle := h.handle
  known _ := by
    have hmine := h.handle session hhandle
    have hpos : session ≠ 0 := (h.mine_lt session hmine).1.ne'
    simpa [Client.onConnected, hpos] using hmine
  state _ := s.client.onConnected_generation_ne_zero session
  phase _ := s.client.onConnected_generation_ne_zero session
  generation := h.generation.trans (s.client.le_onConnected_generation session)
  session_pos := h.session_pos

theorem Sessions.connect (h : Sessions s) :
    Sessions { s with
      server := { s.server with nextSession := s.server.nextSession + 1 }
      client := { s.client with handle := some (some s.server.nextSession) }
      mine := Function.update s.mine s.server.nextSession true } := by
  have hmine : ∀ session, Function.update s.mine s.server.nextSession true session = true ↔
      session = s.server.nextSession ∨ s.mine session = true := by
    grind
  constructor
  · intro session hsession
    rcases (hmine session).1 hsession with rfl | hsession
    · exact ⟨h.session_pos, Nat.lt_succ_self _⟩
    · exact ⟨(h.mine_lt session hsession).1, (h.mine_lt session hsession).2.trans (Nat.lt_succ_self _)⟩
  · exact fun node hn => (h.owner_lt node hn).trans (Nat.lt_succ_self _)
  · exact h.czxid_lt
  · simp_all
  · exact fun hg => (hmine _).2 (.inr (h.known hg))
  · exact h.state
  · exact h.phase
  · exact h.generation
  · exact Nat.succ_pos _

theorem Sessions.step (h : Sessions s) (hs : Step serialized s l s') : Sessions s' := by
  have hgo : ∀ {phase : Phase}, (phase.connected = true → s.client.sessionGeneration ≠ 0) →
      Sessions (s.go phase) := fun hphase => h.go h.generation hphase
  have hnode : ∀ node, s.server.node = some node →
      node.ephemeralOwner < s.server.nextSession ∧ node.czxid < s.server.nextZxid :=
    fun node hn => ⟨h.owner_lt node hn, h.czxid_lt node hn⟩
  cases hs with
  | expire =>
    refine h.server le_rfl fun node hn => hnode node ?_
    exact (Option.filter_eq_some_iff.1 hn).1
  | foreignCreate _ _ howner =>
    refine h.server le_rfl fun node hn => ?_
    obtain rfl := Option.some.inj hn
    exact ⟨howner, Nat.lt_succ_self _⟩
  | foreignSession =>
    exact h.server (Nat.le_succ _) fun node hn => ⟨(h.owner_lt node hn).trans (Nat.lt_succ_self _),
      h.czxid_lt node hn⟩
  | foreignDelete => exact h.server le_rfl fun node hn => by cases hn
  | foreignSetData =>
    refine h.server le_rfl fun node hn => ?_
    obtain ⟨before, hbefore, rfl⟩ := Option.map_eq_some_iff.1 hn
    exact hnode before hbefore
  | connect => exact h.connect
  | onConnected hhandle => exact h.onConnected hhandle
  | onState hstate =>
    refine h.client (.inl rfl) ?_
    rcases hstate with rfl | rfl <;> decide
  | onExpired => exact h.client (.inl rfl) (by decide)
  | @recover created =>
    cases created with
    | true => exact h.client (.inr nofun) (by decide)
    | false => exact h.client (.inr nofun) (by decide)
  | start | readGeneration | readConnected | stop | stopRead | stopDeleteFailed => exact hgo nofun
  | check => exact h.checked _ _
  | giveUp => exact h.giveUp _
  | within _ hstate => exact hgo fun _ => h.state hstate
  | ensureParents hphase =>
    exact h.afterEnsureParents (h.phase (by rw [hphase]; rfl)) _ _
  | @create _ session _ hphase halive =>
    have hcreated : Sessions { s with server := s.server.create serialized session } := by
      refine h.server le_rfl fun node hn => ?_
      obtain rfl := Option.some.inj hn
      exact ⟨(h.mine_lt _ (h.handle _ halive.1)).2, Nat.lt_succ_self _⟩
    exact hcreated.afterCreate (h.phase (by rw [hphase]; rfl)) _ _
  | createExists hphase | createNoNode hphase | createFailed hphase =>
    exact h.afterCreate (h.phase (by rw [hphase]; rfl)) _ _
  | «exists» hphase | get hphase | stopExists hphase | stopGet hphase =>
    exact hgo fun _ => h.phase (by rw [hphase]; rfl)
  | readNoNode hphase | readFailed hphase =>
    refine h.afterReadFailed (h.phase ?_) _ _
    rcases hphase with hphase | ⟨length, hphase⟩ <;> rw [hphase] <;> rfl
  | session hphase => exact h.afterSession (h.phase (by rw [hphase]; rfl)) _ _
  | record => exact h.go le_rfl nofun
  | stopConnected =>
    refine hgo fun hphase => ?_
    split at hphase
    · exact h.state ‹_›
    · cases hphase
  | stopSession hphase => exact h.afterStopSession (h.phase (by rw [hphase]; rfl)) _ _
  | stopDelete =>
    have hgone : Sessions { s with server := s.server.delete } :=
      h.server le_rfl fun node hn => by cases hn
    exact hgone.go h.generation nofun
  | stopFinish => exact h.go (Nat.zero_le _) nofun

/-! ## The registration -/

def Phase.stopping : Phase → Bool
  | .stopConnected | .stopExists | .stopGet _ | .stopSession _ _ | .stopDelete _ _
  | .stopFinish => true
  | _ => false

def Kept (serialized : Bytes) (s : State) (session : ℕ) : Prop :=
  s.server.expired session = false →
    ∃ node, s.server.node = some node ∧ node.ephemeralOwner = session ∧ node.data = serialized

def LeavesOwn (s : State) (l : Label) : Prop :=
  l = .foreignWrite → ∀ node, s.server.node = some node → s.mine node.ephemeralOwner = false

def RecordsSession (s : State) (l : Label) : Prop :=
  l = .recorded → ∀ origin session, s.phase = .record origin session → s.client.sessionId = session

theorem Kept.expire {session session' : ℕ} (h : Kept serialized s session) :
    Kept serialized { s with server := s.server.expire session' } session := by
  intro hexpired
  by_cases hsession : session = session'
  · subst hsession
    have htrue : (s.server.expire session).expired session = true := by simp [Server.expire]
    cases htrue.symm.trans hexpired
  · have hbefore : s.server.expired session = false := by
      simpa [Server.expire, hsession] using hexpired
    obtain ⟨node, hnode, howner, hdata⟩ := h hbefore
    refine ⟨node, ?_, howner, hdata⟩
    simp [Server.expire, hnode, howner, hsession]

theorem Kept.of_none {session : ℕ} {server : Server} (h : Kept serialized s session)
    (hnone : s.server.node = none) (hexpired : server.expired = s.server.expired) :
    Kept serialized { s with server } session := by
  intro hfalse
  obtain ⟨node, hnode, -⟩ := h (hexpired ▸ hfalse)
  cases hnone.symm.trans hnode

structure Truth (serialized : Bytes) (s : State) : Prop where
  data : ∀ node, s.server.node = some node → s.mine node.ephemeralOwner = true →
    node.data = serialized
  read : ∀ origin node, s.phase = .session origin node →
    node.ephemeralOwner < s.server.nextSession ∧
      (s.mine node.ephemeralOwner = true → Kept serialized s node.ephemeralOwner)
  confirmed : ∀ origin session, s.phase = .record origin session →
    s.mine session = true ∧ Kept serialized s session
  registered : s.phase.stopping = false → s.registered = true →
    s.registeredGeneration = s.client.sessionGeneration →
    s.mine s.client.sessionId = true ∧ Kept serialized s s.client.sessionId

theorem Truth.initial (server : Server) : Truth serialized (.initial server) where
  data node hnode hmine := by cases hmine
  read origin node hphase := by cases hphase
  confirmed origin session hphase := by cases hphase
  registered _ hregistered := by cases hregistered

theorem Truth.go (h : Truth serialized s) {registered : Bool} {generation : ℕ}
    {error : RegistrarError} {phase : Phase} (hsession : ∀ origin node, phase ≠ .session origin node)
    (hrecord : ∀ origin session, phase ≠ .record origin session)
    (hregistered : phase.stopping = false → registered = true →
      generation = s.client.sessionGeneration →
      s.mine s.client.sessionId = true ∧ Kept serialized s s.client.sessionId) :
    Truth serialized
      { s with registered, registeredGeneration := generation, lastError := error, phase } where
  data := h.data
  read origin node hphase := absurd hphase (hsession origin node)
  confirmed origin session hphase := absurd hphase (hrecord origin session)
  registered := hregistered

theorem Truth.environment (h : Truth serialized s) {server : Server} {client : Client}
    {mine : ℕ → Bool} (hnext : s.server.nextSession ≤ server.nextSession)
    (hdata : ∀ node, server.node = some node → mine node.ephemeralOwner = true →
      node.data = serialized)
    (hmine : ∀ session, s.mine session = true → mine session = true)
    (hnew : ∀ session, session < s.server.nextSession → mine session = true →
      s.mine session = true)
    (hkept : ∀ session, s.mine session = true → Kept serialized s session →
      Kept serialized { s with server } session)
    (hclient : s.registeredGeneration = client.sessionGeneration →
      s.registeredGeneration = s.client.sessionGeneration ∧ client.sessionId = s.client.sessionId) :
    Truth serialized { s with server, client, mine } where
  data := hdata
  read origin node hphase := by
    obtain ⟨hlt, hread⟩ := h.read origin node hphase
    refine ⟨hlt.trans_le hnext, fun hnode => ?_⟩
    have hbefore := hnew _ hlt hnode
    exact hkept _ hbefore (hread hbefore)
  confirmed origin session hphase := by
    obtain ⟨hsession, hconfirmed⟩ := h.confirmed origin session hphase
    exact ⟨hmine _ hsession, hkept _ hsession hconfirmed⟩
  registered hphase hregistered hgeneration := by
    obtain ⟨hbefore, hid⟩ := hclient hgeneration
    obtain ⟨hsession, hregistered⟩ := h.registered hphase hregistered hbefore
    exact hid ▸ ⟨hmine _ hsession, hkept _ hsession hregistered⟩

theorem Truth.server (h : Truth serialized s) {server : Server}
    (hnext : s.server.nextSession ≤ server.nextSession)
    (hdata : ∀ node, server.node = some node → s.mine node.ephemeralOwner = true →
      node.data = serialized)
    (hkept : ∀ session, s.mine session = true → Kept serialized s session →
      Kept serialized { s with server } session) : Truth serialized { s with server } :=
  h.environment hnext hdata (fun _ => id) (fun _ _ => id) hkept fun hg => ⟨hg, rfl⟩

theorem Truth.client (h : Truth serialized s) {client : Client}
    (hclient : s.registeredGeneration = client.sessionGeneration →
      s.registeredGeneration = s.client.sessionGeneration ∧ client.sessionId = s.client.sessionId) :
    Truth serialized { s with client } :=
  h.environment le_rfl h.data (fun _ => id) (fun _ _ => id) (fun _ _ => id) hclient

theorem Kept.foreignWrite {session : ℕ} {server : Server} (h : Kept serialized s session)
    (hmine : s.mine session = true)
    (hforeign : ∀ node, s.server.node = some node → s.mine node.ephemeralOwner = false)
    (hexpired : server.expired = s.server.expired) : Kept serialized { s with server } session := by
  intro hfalse
  obtain ⟨node, hnode, rfl, -⟩ := h (hexpired ▸ hfalse)
  cases (hforeign node hnode).symm.trans hmine

theorem Truth.create (h : Truth serialized s) {session : ℕ} (hnone : s.server.node = none) :
    Truth serialized { s with server := s.server.create serialized session } := by
  refine h.server le_rfl (fun node hnode _ => ?_) fun session' hmine hkept => hkept.of_none hnone rfl
  obtain rfl := Option.some.inj hnode
  rfl

theorem Truth.connect (hsessions : Sessions s) (h : Truth serialized s) :
    Truth serialized { s with
      server := { s.server with nextSession := s.server.nextSession + 1 }
      client := { s.client with handle := some (some s.server.nextSession) }
      mine := Function.update s.mine s.server.nextSession true } := by
  have hold : ∀ session, session < s.server.nextSession →
      Function.update s.mine s.server.nextSession true session = s.mine session := fun session hlt =>
    Function.update_of_ne hlt.ne _ _
  refine h.environment (Nat.le_succ _) (fun node hnode hmine => ?_) (fun session hmine => ?_)
    (fun session hlt hmine => ?_) (fun session hmine hkept => hkept) fun hg => ⟨hg, rfl⟩
  · exact h.data node hnode ((hold _ (hsessions.owner_lt node hnode)).symm.trans hmine)
  · exact (hold session (hsessions.mine_lt session hmine).2).trans hmine
  · exact (hold session hlt).symm.trans hmine

theorem Truth.loop (h : Truth serialized s) (hphase : s.phase.stopping = false)
    {error : RegistrarError} {phase : Phase} (hsession : ∀ origin node, phase ≠ .session origin node)
    (hrecord : ∀ origin session, phase ≠ .record origin session) :
    Truth serialized { s with lastError := error, phase } :=
  h.go hsession hrecord fun _ => h.registered hphase

theorem Origin.failed_ne_session (o origin : Origin) (node : NodeRecord) :
    o.failed ≠ .session origin node := by
  cases o <;> nofun

theorem Origin.failed_ne_record (o origin : Origin) (session : ℕ) :
    o.failed ≠ .record origin session := by
  cases o <;> nofun

theorem Truth.failed (h : Truth serialized s) (hphase : s.phase.stopping = false)
    (error : RegistrarError) (origin : Origin) : Truth serialized (s.fail error origin.failed) :=
  h.loop hphase origin.failed_ne_session origin.failed_ne_record

theorem Truth.giveUp (h : Truth serialized s) (hphase : s.phase.stopping = false) (origin : Origin) :
    Truth serialized (s.giveUp origin) := by
  unfold State.giveUp
  split
  · exact h.loop hphase origin.failed_ne_session origin.failed_ne_record
  · exact h.failed hphase _ origin

theorem Truth.checked (h : Truth serialized s) (hphase : s.phase.stopping = false)
    (generation : ℕ) (connected : Bool) : Truth serialized (s.checked generation connected) := by
  refine h.go (fun origin node => ?_) (fun origin session => ?_) fun _ hregistered hg => ?_
  · split <;> nofun
  · split <;> nofun
  · exact h.registered hphase (Bool.and_eq_true_iff.1 hregistered).1 hg

theorem Truth.afterEnsureParents (h : Truth serialized s) (hphase : s.phase.stopping = false)
    (origin : Origin) (status : OperationStatus) :
    Truth serialized (s.afterEnsureParents origin status) := by
  cases status <;> exact h.loop hphase nofun nofun

theorem Truth.afterCreate (h : Truth serialized s) (hphase : s.phase.stopping = false)
    (origin : Origin) (status : OperationStatus) : Truth serialized (s.afterCreate origin status) := by
  cases status with
  | ok | nodeExists | connectionLoss | sessionExpired | notConnected => exact h.loop hphase nofun nofun
  | noNode | authFailed | invalidArgument | error => exact h.failed hphase _ origin

theorem Truth.afterReadFailed (h : Truth serialized s) (hphase : s.phase.stopping = false)
    (origin : Origin) (status : OperationStatus) :
    Truth serialized (s.afterReadFailed origin status) := by
  cases status with
  | noNode | connectionLoss | sessionExpired | notConnected => exact h.loop hphase nofun nofun
  | ok | nodeExists | authFailed | invalidArgument | error => exact h.failed hphase _ origin

theorem Truth.get (hsessions : Sessions s) (h : Truth serialized s) (hphase : s.phase.stopping = false)
    {node : Node} (hnode : s.server.node = some node) (origin : Origin) (length : ℕ) :
    Truth serialized (s.go (.session origin (node.read length))) where
  data := h.data
  read origin' node' hread := by
    cases hread
    exact ⟨hsessions.owner_lt node hnode,
      fun hmine _ => ⟨node, hnode, rfl, h.data node hnode hmine⟩⟩
  confirmed origin session hrecord := by cases hrecord
  registered _ := h.registered hphase

theorem Truth.afterSession (hsessions : Sessions s) (h : Truth serialized s) {origin : Origin}
    {node : NodeRecord} (hphase : s.phase = .session origin node) :
    Truth serialized (s.afterSession serialized origin node) := by
  have hloop : s.phase.stopping = false := by rw [hphase]; rfl
  unfold State.afterSession
  split
  · exact h.loop hloop nofun nofun
  · rename_i howner
    split
    · exact h.failed hloop _ origin
    · have hmine : s.mine s.client.sessionId = true :=
        hsessions.known (hsessions.phase (by rw [hphase]; rfl))
      rw [not_not] at howner
      constructor
      · exact h.data
      · intro origin' node' hread
        cases hread
      · intro origin' session hrecord
        cases hrecord
        exact ⟨hmine, howner ▸ (h.read origin node hphase).2 (howner ▸ hmine)⟩
      · exact fun _ => h.registered hloop

theorem Truth.recorded (h : Truth serialized s) {origin : Origin} {session : ℕ}
    (hphase : s.phase = .record origin session) (hsession : s.client.sessionId = session) :
    Truth serialized s.recorded :=
  h.go nofun nofun fun _ _ _ => hsession ▸ h.confirmed origin session hphase

theorem Truth.step (hsessions : Sessions s) (h : Truth serialized s) (hs : Step serialized s l s')
    (hforeign : LeavesOwn s l) (hrecords : RecordsSession s l) : Truth serialized s' := by
  cases hs with
  | expire =>
    refine h.server le_rfl (fun node hnode => h.data node ?_) fun session hmine hkept => hkept.expire
    exact (Option.filter_eq_some_iff.1 hnode).1
  | foreignCreate hnone hmine =>
    refine h.server le_rfl (fun node hnode howner => ?_)
      fun session hsession hkept => hkept.of_none hnone rfl
    obtain rfl := Option.some.inj hnode
    cases hmine.symm.trans howner
  | foreignSession => exact h.server (Nat.le_succ _) h.data fun session hmine hkept => hkept
  | foreignDelete =>
    exact h.server le_rfl (fun node hnode => by cases hnode)
      fun session hmine hkept => hkept.foreignWrite hmine (hforeign rfl) rfl
  | foreignSetData =>
    refine h.server le_rfl (fun node hnode howner => ?_)
      fun session hmine hkept => hkept.foreignWrite hmine (hforeign rfl) rfl
    obtain ⟨before, hbefore, rfl⟩ := Option.map_eq_some_iff.1 hnode
    cases (hforeign rfl before hbefore).symm.trans howner
  | connect => exact h.connect hsessions
  | onConnected =>
    exact h.client fun hg => s.client.onConnected_current hsessions.generation hg
  | onState => exact h.client fun hg => ⟨hg, rfl⟩
  | onExpired => exact h.client fun hg => ⟨hg, rfl⟩
  | @recover created => cases created <;> exact h.client fun hg => ⟨hg, rfl⟩
  | start hphase | readGeneration hphase | readConnected hphase | within hphase
  | «exists» hphase => exact h.loop (by rw [hphase]; rfl) nofun nofun
  | check hphase => exact h.checked (by rw [hphase]; rfl) _ _
  | giveUp hphase => exact h.giveUp (by rw [hphase]; rfl) _
  | ensureParents hphase => exact h.afterEnsureParents (by rw [hphase]; rfl) _ _
  | create hphase _ hnone => exact (h.create hnone).afterCreate (by rw [hphase]; rfl) _ _
  | createExists hphase | createNoNode hphase | createFailed hphase =>
    exact h.afterCreate (by rw [hphase]; rfl) _ _
  | get hphase _ hnode => exact h.get hsessions (by rw [hphase]; rfl) hnode _ _
  | readNoNode hphase | readFailed hphase =>
    refine h.afterReadFailed ?_ _ _
    rcases hphase with hphase | ⟨length, hphase⟩ <;> rw [hphase] <;> rfl
  | session hphase => exact h.afterSession hsessions hphase
  | record hphase => exact h.recorded hphase (hrecords rfl _ _ hphase)
  | stop | stopDeleteFailed | stopExists | stopGet | stopRead => exact h.go nofun nofun nofun
  | stopConnected =>
    refine h.go (fun origin node => ?_) (fun origin session => ?_) fun hphase => ?_
    · split <;> nofun
    · split <;> nofun
    · split at hphase <;> cases hphase
  | stopSession =>
    unfold State.afterStopSession
    split
    · exact h.go nofun nofun nofun
    · exact h.go nofun nofun nofun
  | stopDelete =>
    exact ⟨nofun, nofun, nofun, nofun⟩
  | stopFinish => exact h.go nofun nofun nofun

/-- Take any run in which nobody else writes a node of this client's sessions, and in which the
generation is always recorded in the session whose node was confirmed.  In every state of it outside
`Stop`, idle or not, a registrar that is registered in the current generation has its node, with its
data, at the path, unless that session has ended. -/
theorem registration_truthful {server : Server} (hserver : server.Plausible)
    (hrun : Run (fun s l s' => Step serialized s l s' ∧ LeavesOwn s l ∧ RecordsSession s l)
      (.initial server) ls s) (hphase : s.phase.stopping = false) (hregistered : s.registered = true)
    (hgeneration : s.registeredGeneration = s.client.sessionGeneration)
    (hexpired : s.server.expired s.client.sessionId = false) :
    ∃ node, s.server.node = some node ∧ node.ephemeralOwner = s.client.sessionId ∧
      node.data = serialized := by
  have h := hrun.invariant (I := fun s => Sessions s ∧ Truth serialized s)
    (fun s l s' h hs => ⟨h.1.step hs.1, h.2.step h.1 hs.1 hs.2.1 hs.2.2⟩)
    ⟨.initial hserver, .initial server⟩
  exact (h.2.registered hphase hregistered hgeneration).2 hexpired

/-! ## What `Stop` deletes -/

/-- The node at the path is the one that `Stop` read, or belongs to no session of this client. -/
def Checked (s : State) (checked : NodeRecord) (czxid : ℕ) : Prop :=
  czxid < s.server.nextZxid ∧ ∀ node, s.server.node = some node →
    if node.czxid = czxid then node.ephemeralOwner = checked.ephemeralOwner
    else s.mine node.ephemeralOwner = false

/-- What `Stop` relies on. -/
structure Fence (s : State) : Prop where
  read : ∀ checked czxid, s.phase = .stopSession checked czxid → Checked s checked czxid
  delete : ∀ checked czxid, s.phase = .stopDelete checked czxid →
    s.mine checked.ephemeralOwner = true ∧ Checked s checked czxid

theorem Fence.initial (server : Server) : Fence (.initial server) where
  read _ _ hphase := by cases hphase
  delete _ _ hphase := by cases hphase

def Phase.fenced : Phase → Bool
  | .stopSession _ _ | .stopDelete _ _ => true
  | _ => false

theorem Fence.loop {s' : State} (hphase : s'.phase.fenced = false) : Fence s' where
  read checked czxid hread := by
    rw [hread] at hphase
    cases hphase
  delete checked czxid hdelete := by
    rw [hdelete] at hphase
    cases hphase

theorem Fence.environment (h : Fence s) {server : Server} {client : Client} {mine : ℕ → Bool}
    (hmine : ∀ session, s.mine session = true → mine session = true)
    (hchecked : ∀ checked czxid, Checked s checked czxid →
      Checked { s with server, client, mine } checked czxid) :
    Fence { s with server, client, mine } where
  read checked czxid hphase := hchecked _ _ (h.read checked czxid hphase)
  delete checked czxid hphase :=
    ⟨hmine _ (h.delete checked czxid hphase).1, hchecked _ _ (h.delete checked czxid hphase).2⟩

theorem Fence.server (h : Fence s) {server : Server} (hzxid : s.server.nextZxid = server.nextZxid)
    (hnode : ∀ node, server.node = some node → ∃ before, s.server.node = some before ∧
      node.czxid = before.czxid ∧ node.ephemeralOwner = before.ephemeralOwner) :
    Fence { s with server } := by
  refine h.environment (fun _ => id) fun checked czxid hchecked => ⟨hzxid ▸ hchecked.1, ?_⟩
  intro node hn
  obtain ⟨before, hbefore, hsame, howner⟩ := hnode node hn
  rw [hsame, howner]
  exact hchecked.2 before hbefore

theorem Fence.foreignCreate (h : Fence s) {data : Bytes} {owner : ℕ} (hmine : s.mine owner = false) :
    Fence { s with server := s.server.create data owner } := by
  refine h.environment (fun _ => id) fun checked czxid hchecked =>
    ⟨hchecked.1.trans (Nat.lt_succ_self _), ?_⟩
  intro node hn
  obtain rfl := Option.some.inj hn
  rw [if_neg hchecked.1.ne']
  exact hmine

theorem Fence.connect (hsessions : Sessions s) (h : Fence s) :
    Fence { s with
      server := { s.server with nextSession := s.server.nextSession + 1 }
      client := { s.client with handle := some (some s.server.nextSession) }
      mine := Function.update s.mine s.server.nextSession true } := by
  have hold : ∀ session, session < s.server.nextSession →
      Function.update s.mine s.server.nextSession true session = s.mine session := fun session hlt =>
    Function.update_of_ne hlt.ne _ _
  refine h.environment (fun session hmine => ?_) fun checked czxid hchecked => ⟨hchecked.1, ?_⟩
  · exact (hold session (hsessions.mine_lt session hmine).2).trans hmine
  · intro node hn
    have hbefore := hchecked.2 node hn
    split
    · rwa [if_pos ‹_›] at hbefore
    · rw [if_neg ‹_›] at hbefore
      exact (hold _ (hsessions.owner_lt node hn)).trans hbefore

theorem Fence.stopGet (hsessions : Sessions s) {node : Node} (hnode : s.server.node = some node)
    (length : ℕ) : Fence (s.go (.stopSession (node.read length) node.czxid)) where
  read checked czxid hphase := by
    cases hphase
    refine ⟨hsessions.czxid_lt node hnode, fun node' hnode' => ?_⟩
    obtain rfl := Option.some.inj (hnode.symm.trans hnode')
    rw [if_pos rfl]
    rfl
  delete checked czxid hphase := by cases hphase

theorem Fence.stopSession (hsessions : Sessions s) (h : Fence s) {checked : NodeRecord} {czxid : ℕ}
    (hphase : s.phase = .stopSession checked czxid) : Fence (s.afterStopSession checked czxid) := by
  unfold State.afterStopSession
  split
  · exact .loop rfl
  · rename_i howner
    rw [not_not] at howner
    constructor
    · intro checked' czxid' hread
      cases hread
    · intro checked' czxid' hdelete
      cases hdelete
      refine ⟨howner ▸ hsessions.known (hsessions.phase ?_), h.read checked czxid hphase⟩
      rw [hphase]
      rfl

theorem Fence.step (hsessions : Sessions s) (h : Fence s) (hs : Step serialized s l s') :
    Fence s' := by
  cases hs with
  | expire =>
    exact h.server rfl fun node hn => ⟨node, (Option.filter_eq_some_iff.1 hn).1, rfl, rfl⟩
  | foreignCreate _ hmine => exact h.foreignCreate hmine
  | foreignSession => exact h.server rfl fun node hn => ⟨node, hn, rfl, rfl⟩
  | foreignDelete => exact h.server rfl nofun
  | foreignSetData =>
    refine h.server rfl fun node hn => ?_
    obtain ⟨before, hbefore, rfl⟩ := Option.map_eq_some_iff.1 hn
    exact ⟨before, hbefore, rfl, rfl⟩
  | connect => exact h.connect hsessions
  | onConnected | onState | onExpired | recover =>
    exact h.environment (fun _ => id) fun _ _ => id
  | stopGet _ _ hnode => exact .stopGet hsessions hnode _
  | stopSession hphase => exact h.stopSession hsessions hphase
  | start | readGeneration | readConnected | within | «exists» | get | record | stop | stopExists
  | stopRead | stopDelete | stopDeleteFailed | stopFinish | createExists | readNoNode => exact .loop rfl
  | check =>
    refine .loop ?_
    unfold State.checked
    dsimp only
    split <;> rfl
  | @giveUp origin =>
    refine .loop ?_
    unfold State.giveUp
    split <;> cases origin <;> rfl
  | @createNoNode origin => cases origin <;> exact .loop rfl
  | @ensureParents _ status => cases status <;> exact .loop rfl
  | @create origin _ status => cases status <;> cases origin <;> exact .loop rfl
  | @createFailed origin status => cases status <;> cases origin <;> exact .loop rfl
  | @readFailed origin status => cases status <;> cases origin <;> exact .loop rfl
  | @session origin =>
    refine .loop ?_
    unfold State.afterSession
    split
    · rfl
    · split
      · cases origin <;> rfl
      · rfl
  | stopConnected =>
    refine .loop ?_
    show Phase.fenced (if _ then _ else _) = false
    split <;> rfl

def DeletesRead (s : State) (l : Label) : Prop :=
  ∀ checked node czxid, l = .deleted checked node → s.phase = .stopDelete checked czxid →
    node.czxid = czxid

/-- What `Stop` deletes belongs to the session whose ownership it checked. -/
def Label.Fenced (l : Label) : Prop :=
  ∀ checked node, l = .deleted checked node → node.ephemeralOwner = checked.ephemeralOwner

theorem Step.deleted {checked : NodeRecord} {node : Node}
    (hs : Step serialized s (.deleted checked node) s') :
    s.server.node = some node ∧ ∃ czxid, s.phase = .stopDelete checked czxid := by
  cases hs with
  | stopDelete hphase _ hnode => exact ⟨hnode, _, hphase⟩

theorem fenced_iff (h : Fence s) (hs : Step serialized s l s') : l.Fenced ↔ DeletesRead s l := by
  constructor
  · intro hfenced checked node czxid hl hphase
    subst hl
    have howner := hfenced checked node rfl
    obtain ⟨hmine, -, hchecked⟩ := h.delete checked czxid hphase
    have hnode := hchecked node hs.deleted.1
    simp_all
  · intro hread checked node hl
    subst hl
    obtain ⟨hnode, czxid, hphase⟩ := hs.deleted
    have hchecked := (h.delete checked czxid hphase).2.2 node hnode
    rwa [if_pos (hread checked node czxid rfl hphase)] at hchecked

/-- In every interleaving of `Stop` with expiries, the client's recovery and other processes at the
path, the nodes that `Stop` deletes belong to the sessions whose ownership it checked exactly when each
delete meets the very node that `Stop` read. -/
theorem stop_fencing {server : Server} (hserver : server.Plausible) (ls : List Label) (s : State) :
    Run (fun s l s' => Step serialized s l s' ∧ DeletesRead s l) (.initial server) ls s ↔
      Run (Step serialized) (.initial server) ls s ∧ ∀ l ∈ ls, l.Fenced := by
  have hstep : ∀ s l s', Sessions s ∧ Fence s → Step serialized s l s' → Sessions s' ∧ Fence s' :=
    fun s l s' h hs => ⟨h.1.step hs, h.2.step h.1 hs⟩
  have hinitial : Sessions (.initial server) ∧ Fence (.initial server) :=
    ⟨.initial hserver, .initial server⟩
  rw [← Run.and_labels_iff]
  constructor
  · intro hrun
    exact hrun.imp_of_invariant (fun s l s' h hs => hstep s l s' h hs.1)
      (fun s l s' h hs => ⟨hs.1, (fenced_iff h.2 hs.1).2 hs.2⟩) hinitial
  · intro hrun
    exact hrun.imp_of_invariant (fun s l s' h hs => hstep s l s' h hs.1)
      (fun s l s' h hs => ⟨hs.1, (fenced_iff h.2 hs.1).1 hs.2⟩) hinitial

/-! ## Where a session changes in between -/

def Server.fresh : Server := ⟨none, fun _ => false, 1, 1⟩

theorem Server.fresh_plausible : Server.fresh.Plausible := ⟨by decide, nofun, nofun⟩

theorem confirmed_run : ∃ ls s, Run (fun s l s' => Step [7] s l s' ∧ LeavesOwn s l ∧ RecordsSession s l)
      (.initial .fresh) ls s ∧
    s.server = ⟨some ⟨[7], 1, 0, 1⟩, fun _ => false, 2, 2⟩ ∧
    s.client = ⟨some (some 1), 1, 1, .connected⟩ ∧ s.phase = .record .start 1 ∧
    s.mine = Function.update (fun _ => false) 1 true ∧ ∀ l ∈ ls, l = .silent := by
  have h : Run (fun s l s' => Step [7] s l s' ∧ LeavesOwn s l ∧ RecordsSession s l)
    (.initial .fresh) [] _ := .nil _
  have h := h.snoc ⟨.connect rfl, nofun, nofun⟩
  have h := h.snoc ⟨.onConnected (show _ = some (some 1) from rfl), nofun, nofun⟩
  have h := h.snoc ⟨.start rfl, nofun, nofun⟩
  have h := h.snoc ⟨.within rfl rfl, nofun, nofun⟩
  have h := h.snoc ⟨.ensureParents rfl (.inl rfl), nofun, nofun⟩
  have h := h.snoc ⟨.create rfl ⟨rfl, rfl⟩ rfl (.inl rfl), nofun, nofun⟩
  have h := h.snoc ⟨.exists rfl ⟨rfl, rfl⟩ rfl, nofun, nofun⟩
  have h := h.snoc ⟨.get rfl ⟨rfl, rfl⟩ rfl, nofun, nofun⟩
  have h := h.snoc ⟨.session rfl, nofun, nofun⟩
  exact ⟨_, _, h, rfl, rfl, rfl, rfl, by simp⟩

theorem registration_truthful_confirmed : ∃ ls s,
    Run (fun s l s' => Step [7] s l s' ∧ LeavesOwn s l ∧ RecordsSession s l)
      (.initial .fresh) ls s ∧ s.phase = .idle ∧ s.registered = true ∧
    ∃ node, s.server.node = some node ∧ node.ephemeralOwner = 1 ∧ node.data = [7] := by
  obtain ⟨ls, ⟨server, client, mine, registered, generation, error, phase⟩, h, hserver, hclient,
    hphase, -⟩ := confirmed_run
  dsimp only at hserver hclient hphase
  subst hserver hclient hphase
  have h := h.snoc ⟨.record rfl, nofun, fun _ origin session hphase => by cases hphase; rfl⟩
  exact ⟨_, _, h, rfl, rfl,
    registration_truthful Server.fresh_plausible h rfl rfl rfl rfl⟩

/-- A shutdown in the session of the registration deletes its node. -/
theorem stop_fencing_own : ∃ ls s checked node,
    Run (fun s l s' => Step [7] s l s' ∧ DeletesRead s l) (.initial .fresh) ls s ∧
    Label.deleted checked node ∈ ls ∧ node.ephemeralOwner = checked.ephemeralOwner := by
  obtain ⟨ls, ⟨server, client, mine, registered, generation, error, phase⟩, h, hserver, hclient,
    hphase, -, hsilent⟩ := confirmed_run
  dsimp only at hserver hclient hphase
  subst hserver hclient hphase
  have h : Run (fun s l s' => Step [7] s l s' ∧ DeletesRead s l) _ _ _ :=
    (Run.and_labels_iff.2 ⟨h.imp fun _ _ _ hs => hs.1, hsilent⟩).imp fun s l s' hs =>
      ⟨hs.1, fun _ _ _ hl => by cases hs.2.symm.trans hl⟩
  have h := h.snoc ⟨.record rfl, nofun⟩
  have h := h.snoc ⟨.stop (.inl rfl), nofun⟩
  have h := h.snoc ⟨.stopConnected rfl, nofun⟩
  have h := h.snoc ⟨.stopExists rfl ⟨rfl, rfl⟩ rfl, nofun⟩
  have h := h.snoc ⟨.stopGet rfl ⟨rfl, rfl⟩ rfl, nofun⟩
  have h := h.snoc ⟨.stopSession rfl, nofun⟩
  have h := h.snoc ⟨.stopDelete rfl ⟨rfl, rfl⟩ rfl rfl, fun checked node czxid hl hphase => by
    cases hl
    cases hphase
    rfl⟩
  have hfenced := ((stop_fencing Server.fresh_plausible _ _).1 h).2
  exact ⟨_, _, _, _, h, List.mem_append_right _ (List.mem_singleton_self _),
    hfenced _ (List.mem_append_right _ (List.mem_singleton_self _)) _ _ rfl⟩

/-- The session 1 ends after the node was confirmed in it, and the client is in the session 2 when the
generation is recorded: the registrar is idle and registered in the current generation, its session is
alive, and there is no node. -/
theorem registered_without_node : ∃ ls s, Run (fun s l s' => Step [7] s l s' ∧ LeavesOwn s l)
      (.initial .fresh) ls s ∧ s.phase = .idle ∧ s.registered = true ∧
    s.registeredGeneration = s.client.sessionGeneration ∧ s.client.state = .connected ∧
    s.server.expired s.client.sessionId = false ∧ s.server.node = none := by
  obtain ⟨ls, ⟨server, client, mine, registered, generation, error, phase⟩, h, hserver, hclient,
    hphase, -⟩ := confirmed_run
  dsimp only at hserver hclient hphase
  subst hserver hclient hphase
  have h := h.imp fun _ _ _ hs => And.intro hs.1 hs.2.1
  have h := h.snoc ⟨.expire (show 1 ≠ 0 by decide), nofun⟩
  have h := h.snoc ⟨.onExpired rfl rfl, nofun⟩
  have h := h.snoc ⟨@Step.recover _ _ true rfl rfl, nofun⟩
  have h := h.snoc ⟨.connect rfl, nofun⟩
  have h := h.snoc ⟨.onConnected rfl, nofun⟩
  have h := h.snoc ⟨.record rfl, nofun⟩
  exact ⟨_, _, h, rfl, rfl, rfl, rfl, rfl, rfl⟩

/-- `Stop` has checked its node in the session 1, which then ends; another process registers at the
path in the session 2, the client comes back in the session 3, and the delete meets the other's
node. -/
theorem stop_deletes_foreign_node : ∃ ls s checked node, Run (Step [7]) (.initial .fresh) ls s ∧
    .deleted checked node ∈ ls ∧ checked.ephemeralOwner = 1 ∧ node.ephemeralOwner = 2 ∧
    s.mine 2 = false := by
  obtain ⟨ls, ⟨server, client, mine, registered, generation, error, phase⟩, h, hserver, hclient,
    hphase, hmine, -⟩ := confirmed_run
  dsimp only at hserver hclient hphase hmine
  subst hserver hclient hphase hmine
  have h := h.imp fun _ _ _ hs => hs.1
  have h := h.snoc (.record rfl)
  have h := h.snoc (.stop (.inl rfl))
  have h := h.snoc (.stopConnected rfl)
  have h := h.snoc (.stopExists rfl ⟨rfl, rfl⟩ rfl)
  have h := h.snoc (.stopGet rfl ⟨rfl, rfl⟩ rfl)
  have h := h.snoc (.stopSession rfl)
  have h := h.snoc (.expire (show 1 ≠ 0 by decide))
  have h := h.snoc .foreignSession
  have h := h.snoc (@Step.foreignCreate _ _ [8] 2 rfl rfl (show 2 < 3 by decide) rfl)
  have h := h.snoc (.onExpired rfl rfl)
  have h := h.snoc (@Step.recover _ _ true rfl rfl)
  have h := h.snoc (.connect rfl)
  have h := h.snoc (.stopDelete rfl ⟨rfl, rfl⟩ rfl rfl)
  exact ⟨_, _, _, _, h, List.mem_append_right _ (List.mem_singleton_self _), rfl, rfl, rfl⟩

end TinyImx.Registry.ZooKeeper
