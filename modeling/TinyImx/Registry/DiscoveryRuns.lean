import TinyImx.Registry.Discovery

/-!
# No membership change is lost

A snapshot is what its path holds, with a watch armed on the path, or something is still to come that
makes the loop read the path again: a pending mark, an undelivered event, or a change of the session.
-/

namespace TinyImx.Registry.ZooKeeper.Discovery

open TinyImx.Local (Bytes)
open Function (update_of_ne update_self)

variable {parse : Bytes → Option ServiceInstance} {service : Service} {s s' : State} {l : Label}
  {ls : List Label}

/-! ## The candidates of a list of children -/

def add (candidate : List ServiceInstance) : Option ServiceInstance → List ServiceInstance
  | none => candidate
  | some i => if candidate.any (·.target = i.target) then candidate else candidate ++ [i]

theorem consider_eq (child : Bytes) (node : NodeRecord) (candidate : List ServiceInstance) :
    consider parse service child node candidate = add candidate (accept parse service child node) := by
  unfold consider add
  cases accept parse service child node with
  | none => rfl
  | some i => simp

def collect (valid : Bytes → Option ServiceInstance) (names : List Bytes) : List ServiceInstance :=
  names.foldl (fun candidate name => add candidate (valid name)) []

theorem collect_append (valid : Bytes → Option ServiceInstance) (names : List Bytes) (name : Bytes) :
    collect valid (names ++ [name]) = add (collect valid names) (valid name) := by
  rw [collect, List.foldl_append]
  rfl

def First (valid : Bytes → Option ServiceInstance) (names : List Bytes) (i : ServiceInstance) : Prop :=
  i.instanceId ∈ names ∧ valid i.instanceId = some i ∧
    ∀ name ∈ names, ∀ j, valid name = some j → j.target = i.target → i.instanceId ≤ name

structure Collected (valid : Bytes → Option ServiceInstance) (names : List Bytes)
    (candidate : List ServiceInstance) : Prop where
  targets : ∀ name ∈ names, ∀ i, valid name = some i → i.target ∈ candidate.map (·.target)
  mem : ∀ i, i ∈ candidate ↔ First valid names i
  sorted : candidate.Pairwise (·.instanceId < ·.instanceId)

section Collect

variable {valid : Bytes → Option ServiceInstance} {names : List Bytes}
  {candidate : List ServiceInstance} {name : Bytes} {i : ServiceInstance}

theorem First.extend (h : First valid names i) (hlt : ∀ n ∈ names, n < name) :
    First valid (names ++ [name]) i := by
  obtain ⟨hmem, hi, hmin⟩ := h
  refine ⟨List.mem_append_left _ hmem, hi, fun n hn j hj htarget => ?_⟩
  rcases List.mem_append.1 hn with hn | hn
  · exact hmin n hn j hj htarget
  · rw [List.mem_singleton.1 hn]
    exact List.le_of_lt (hlt _ hmem)

theorem First.restrict (h : First valid (names ++ [name]) i) (hmem : i.instanceId ∈ names) :
    First valid names i :=
  ⟨hmem, h.2.1, fun n hn => h.2.2 n (List.mem_append_left _ hn)⟩

theorem Collected.keep (h : Collected valid names candidate) (hlt : ∀ n ∈ names, n < name)
    (htarget : ∀ i, valid name = some i → i.target ∈ candidate.map (·.target))
    (hnew : ∀ i, i.instanceId = name → ¬ First valid (names ++ [name]) i) :
    Collected valid (names ++ [name]) candidate where
  targets n hn i hi := by
    rcases List.mem_append.1 hn with hn | hn
    · exact h.targets n hn i hi
    · rw [List.mem_singleton.1 hn] at hi
      exact htarget i hi
  mem i := by
    refine ⟨fun hi => ((h.mem i).1 hi).extend hlt, fun hi => (h.mem i).2 ?_⟩
    rcases List.mem_append.1 hi.1 with hmem | hmem
    · exact hi.restrict hmem
    · exact absurd hi (hnew i (List.mem_singleton.1 hmem))
  sorted := h.sorted

theorem Collected.snoc (h : Collected valid names candidate) (hlt : ∀ n ∈ names, n < name)
    (hi : valid name = some i) (hid : i.instanceId = name)
    (htarget : i.target ∉ candidate.map (·.target)) :
    Collected valid (names ++ [name]) (candidate ++ [i]) where
  targets n hn j hj := by
    rw [List.map_append, List.mem_append]
    rcases List.mem_append.1 hn with hn | hn
    · exact .inl (h.targets n hn j hj)
    · rw [List.mem_singleton.1 hn, hi] at hj
      obtain rfl := Option.some.inj hj
      exact .inr (List.mem_singleton_self _)
  mem j := by
    rw [List.mem_append, List.mem_singleton]
    constructor
    · rintro (hj | rfl)
      · exact ((h.mem j).1 hj).extend hlt
      · refine ⟨hid ▸ List.mem_append_right _ (List.mem_singleton_self _), hid ▸ hi, ?_⟩
        intro n hn k hk hsame
        rcases List.mem_append.1 hn with hn | hn
        · exact absurd (hsame ▸ h.targets n hn k hk) htarget
        · grind
    · intro hj
      rcases List.mem_append.1 hj.1 with hmem | hmem
      · exact .inl ((h.mem j).2 (hj.restrict hmem))
      · have hvalid := hj.2.1
        rw [List.mem_singleton.1 hmem, hi] at hvalid
        exact .inr (Option.some.inj hvalid).symm
  sorted := by
    refine List.pairwise_append.2 ⟨h.sorted, List.pairwise_singleton _ _, fun j hj k hk => ?_⟩
    rw [List.mem_singleton.1 hk, hid]
    exact hlt _ ((h.mem j).1 hj).1

theorem Collected.add (hvalid : ∀ name i, valid name = some i → i.instanceId = name)
    (h : Collected valid names candidate) (hlt : ∀ n ∈ names, n < name) :
    Collected valid (names ++ [name]) (add candidate (valid name)) := by
  cases hname : valid name with
  | none =>
    refine h.keep hlt (fun i hi => by cases hname.symm.trans hi) fun i hid hi => ?_
    have hvalid := hi.2.1
    grind
  | some i =>
    have hid := hvalid name i hname
    have hany : candidate.any (fun c => c.target = i.target) = true ↔
        i.target ∈ candidate.map (·.target) := by simp
    unfold Discovery.add
    dsimp only
    split
    · rename_i htarget
      rw [hany] at htarget
      refine h.keep hlt (fun j hj => ?_) fun j hjd hj => ?_
      · obtain rfl := Option.some.inj (hname.symm.trans hj)
        exact htarget
      · have hsame := hj.2.1
        rw [hjd, hname] at hsame
        obtain rfl := Option.some.inj hsame
        obtain ⟨k, hk, hktarget⟩ := List.mem_map.1 htarget
        have hfirst := (h.mem k).1 hk
        have hle := hj.2.2 _ (List.mem_append_left _ hfirst.1) k hfirst.2.1 hktarget
        rw [hid] at hle
        exact hle (hlt _ hfirst.1)
    · rename_i htarget
      rw [hany] at htarget
      exact h.snoc hlt hname hid htarget

theorem collected (hvalid : ∀ name i, valid name = some i → i.instanceId = name) :
    ∀ names : List Bytes, names.Pairwise (· < ·) → Collected valid names (collect valid names) := by
  intro names
  induction names using List.reverseRecOn with
  | nil =>
    intro _
    refine ⟨by simp, fun i => ?_, .nil⟩
    simp [collect, First]
  | append_singleton names name ih =>
    intro hsorted
    obtain ⟨hnames, -, hlt⟩ := List.pairwise_append.1 hsorted
    rw [collect_append]
    exact (ih hnames).add hvalid fun n hn => hlt n hn name (List.mem_singleton_self _)

theorem sortCandidate_of_sorted (h : candidate.Pairwise (·.instanceId < ·.instanceId)) :
    sortCandidate candidate = candidate := by
  refine List.mergeSort_of_pairwise (h.imp fun {a b} hab => ?_)
  grind

theorem sortNames_pairwise {children : List Bytes} (h : children.Nodup) :
    (sortNames children).Pairwise (· < ·) := by
  have hsorted : (sortNames children).Pairwise fun a b => !decide (b < a) :=
    List.pairwise_mergeSort
      (fun a b c hab hbc => by
        grind)
      (fun a b => by
        simp only [Bool.or_eq_true, Bool.not_eq_true', decide_eq_false_iff_not]
        exact List.le_total _ _) children
  have hnodup : (sortNames children).Nodup := (List.mergeSort_perm children _).nodup_iff.2 h
  refine (hsorted.and hnodup).imp fun {a b} hab => ?_
  grind

end Collect

/-! ## What a path holds -/

def Node.record (node : Node) : NodeRecord := ⟨node.data, node.ephemeralOwner, node.version⟩

theorem Node.read_length (node : Node) : node.read node.data.length = Node.record node := by
  rw [Node.read, List.take_length]
  rfl

def lookup (children : List (Bytes × Node)) (child : Bytes) : Option Node :=
  (children.find? fun c => c.1 = child).map Prod.snd

variable {children : List (Bytes × Node)}

theorem nodeAt_eq (h : s.children service = some children)
    (child : Bytes) : nodeAt s service child = lookup children child := by
  rw [nodeAt, h]
  rfl

variable {child : Bytes}

theorem mem_of_lookup {node : Node}
    (h : lookup children child = some node) : (child, node) ∈ children := by
  obtain ⟨⟨name, node'⟩, hfind, rfl⟩ := Option.map_eq_some_iff.1 h
  have hname : name = child := by simpa using List.find?_some hfind
  exact hname ▸ List.mem_of_find?_eq_some hfind

theorem lookup_of_mem {node : Node}
    (hnodup : (children.map Prod.fst).Nodup) (h : (child, node) ∈ children) :
    lookup children child = some node := by
  induction children with
  | nil => cases h
  | cons head children ih =>
    obtain ⟨name, node'⟩ := head
    rw [List.map_cons, List.nodup_cons] at hnodup
    rcases List.mem_cons.1 h with heq | hmem
    · cases heq
      simp [lookup]
    · have hne : name ≠ child := by
        rintro rfl
        exact hnodup.1 (List.mem_map.2 ⟨_, hmem, rfl⟩)
      have hrest := ih hnodup.2 hmem
      rw [lookup] at hrest ⊢
      rwa [List.find?_cons_of_neg (by simpa using hne)]

def validAt (parse : Bytes → Option ServiceInstance) (service : Service)
    (children : List (Bytes × Node)) (child : Bytes) : Option ServiceInstance :=
  match lookup children child with
  | none => none
  | some node => accept parse service child (Node.record node)

theorem accept_instanceId {node : NodeRecord} {i : ServiceInstance}
    (h : accept parse service child node = some i) : i.instanceId = child := by
  unfold accept at h
  split at h
  · cases h
  · grind

theorem validAt_instanceId {i : ServiceInstance}
    (h : validAt parse service children child = some i) : i.instanceId = child := by
  unfold validAt at h
  split at h
  · cases h
  · exact accept_instanceId h

def viewOf (parse : Bytes → Option ServiceInstance) (service : Service) :
    Option (List (Bytes × Node)) → List ServiceInstance
  | none => []
  | some children =>
    sortCandidate (collect (validAt parse service children) (sortNames (children.map Prod.fst)))

/-- The instances are those of the valid ephemeral children of a path: one for each target, that of the
smallest name, sorted by instance id. -/
def IsView (parse : Bytes → Option ServiceInstance) (service : Service)
    (children : List (Bytes × Node)) (instances : List ServiceInstance) : Prop :=
  instances.Pairwise (·.instanceId < ·.instanceId) ∧
  ∀ i, i ∈ instances ↔ ∃ node, (i.instanceId, node) ∈ children ∧
    accept parse service i.instanceId (Node.record node) = some i ∧
    ∀ name node' j, (name, node') ∈ children →
      accept parse service name (Node.record node') = some j → j.target = i.target →
      i.instanceId ≤ name

theorem validAt_eq_some (hnodup : (children.map Prod.fst).Nodup)
    {i : ServiceInstance} : validAt parse service children child = some i ↔
      ∃ node, (child, node) ∈ children ∧
        accept parse service child (Node.record node) = some i := by
  unfold validAt
  constructor
  · intro h
    split at h
    · cases h
    · rename_i node hlookup
      exact ⟨node, mem_of_lookup hlookup, h⟩
  · rintro ⟨node, hmem, hi⟩
    rw [lookup_of_mem hnodup hmem]
    exact hi

theorem viewOf_isView (hnodup : (children.map Prod.fst).Nodup) :
    IsView parse service children (viewOf parse service (some children)) := by
  have hvalid : ∀ name i, validAt parse service children name = some i → i.instanceId = name :=
    fun _ _ => validAt_instanceId
  have h := collected hvalid _ (sortNames_pairwise hnodup)
  rw [viewOf, sortCandidate_of_sorted h.sorted]
  refine ⟨h.sorted, fun i => ?_⟩
  rw [h.mem]
  have hmem : ∀ name, name ∈ sortNames (children.map Prod.fst) ↔ ∃ node, (name, node) ∈ children := by
    intro name
    simp [sortNames]
  constructor
  · rintro ⟨hid, hvalid, hmin⟩
    obtain ⟨node, hnode, haccept⟩ := (validAt_eq_some hnodup).1 hvalid
    refine ⟨node, hnode, haccept, fun name node' j hname hj htarget => ?_⟩
    exact hmin name ((hmem name).2 ⟨node', hname⟩) j ((validAt_eq_some hnodup).2 ⟨node', hname, hj⟩)
      htarget
  · rintro ⟨node, hnode, haccept, hmin⟩
    refine ⟨(hmem _).2 ⟨node, hnode⟩, (validAt_eq_some hnodup).2 ⟨node, hnode, haccept⟩, ?_⟩
    intro name hname j hj htarget
    obtain ⟨node', hnode', hj⟩ := (validAt_eq_some hnodup).1 hj
    exact hmin name node' j hnode' hj htarget

/-! ## Alarms -/

def State.Live (s : State) : Prop :=
  s.client.handle = some (some s.client.sessionId) ∧ s.expired s.client.sessionId = false

def State.Alarm (s : State) (service : Service) : Prop :=
  s.pending service = true ∨ 0 < s.fired service ∨ ¬ s.Live ∨
    s.observedSessionGeneration ≠ s.client.sessionGeneration

def State.Armed (s : State) (service : Service) : Prop :=
  match s.children service with
  | none => s.existsWatch service = true
  | some _ => s.childWatch service = true

def State.Known (s : State) (service : Service) (P : Option (List (Bytes × Node)) → Prop) : Prop :=
  (s.Armed service ∧ P (s.children service)) ∨ s.Alarm service

structure Sessions (s : State) : Prop where
  next_pos : 0 < s.nextSession
  handle : ∀ session, s.client.handle = some (some session) → 0 < session ∧ session < s.nextSession
  sessionId : s.client.sessionId < s.nextSession
  connected : s.client.state = .connected → s.client.handle = some (some s.client.sessionId)
  observed : s.observedSessionGeneration ≤ s.client.sessionGeneration
  names : ∀ service children, s.children service = some children → (children.map Prod.fst).Nodup

theorem Sessions.initial (h : s.Initial) : Sessions s where
  next_pos := h.session
  handle := h.handle
  sessionId := h.sessionId
  connected hstate := h.connected hstate
  observed := h.observed ▸ Nat.zero_le _
  names := h.names

theorem Sessions.congr (h : Sessions s) (hchildren : s'.children = s.children)
    (hnext : s'.nextSession = s.nextSession) (hclient : s'.client = s.client)
    (hobserved : s'.observedSessionGeneration ≤ s'.client.sessionGeneration) : Sessions s' where
  next_pos := hnext ▸ h.next_pos
  handle := by rw [hclient, hnext]; exact h.handle
  sessionId := by rw [hclient, hnext]; exact h.sessionId
  connected := by rw [hclient]; exact h.connected
  observed := hobserved
  names := by rw [hchildren]; exact h.names

theorem State.change_children (s : State) (service : Service)
    (children : Option (List (Bytes × Node))) (touches : Bool) :
    (s.change service children touches).children = Function.update s.children service children := rfl

theorem Sessions.change (h : Sessions s) {children : Option (List (Bytes × Node))} {touches : Bool}
    (hnames : ∀ cs, children = some cs → (cs.map Prod.fst).Nodup) :
    Sessions (s.change service children touches) where
  next_pos := h.next_pos
  handle := h.handle
  sessionId := h.sessionId
  connected := h.connected
  observed := h.observed
  names service' cs hcs := by
    rw [State.change_children] at hcs
    by_cases hservice : service' = service
    · subst hservice
      rw [update_self] at hcs
      exact hnames cs hcs
    · rw [update_of_ne hservice] at hcs
      exact h.names service' cs hcs

theorem Sessions.onConnected (h : Sessions s) {session dispatching : ℕ}
    (hhandle : s.client.handle = some (some session)) :
    Sessions { s with client := s.client.onConnected session, dispatching } := by
  have hpos : session ≠ 0 := (h.handle session hhandle).1.ne'
  have hid : (s.client.onConnected session).sessionId = session := by
    simp [Client.onConnected, hpos]
  refine ⟨h.next_pos, h.handle, ?_, fun _ => ?_, ?_, h.names⟩
  · show (s.client.onConnected session).sessionId < s.nextSession
    rw [hid]
    exact (h.handle session hhandle).2
  · show s.client.handle = some (some (s.client.onConnected session).sessionId)
    rw [hid]
    exact hhandle
  · exact h.observed.trans (s.client.le_onConnected_generation session)

theorem Sessions.step (h : Sessions s) (hs : Step parse s l s') : Sessions s' := by
  have hsame : s'.children = s.children → s'.nextSession = s.nextSession → s'.client = s.client →
      s'.observedSessionGeneration = s.observedSessionGeneration → Sessions s' :=
    fun hchildren hnext hclient hobserved =>
      h.congr hchildren hnext hclient (by rw [hobserved, hclient]; exact h.observed)
  cases hs with
  | createPath => exact h.change fun cs hcs => by cases hcs; exact List.nodup_nil
  | deletePath => exact h.change nofun
  | createChild hchildren hname =>
    refine h.change fun cs hcs => ?_
    cases hcs
    exact List.nodup_cons.2 ⟨hname, h.names _ _ hchildren⟩
  | deleteChild hchildren =>
    refine h.change fun cs hcs => ?_
    cases hcs
    exact (h.names _ _ hchildren).sublist (List.filter_sublist.map _)
  | expire =>
    unfold State.expire
    split
    · exact h.congr rfl rfl rfl h.observed
    · exact h.congr rfl rfl rfl h.observed
  | otherSession =>
    exact ⟨Nat.succ_pos _, fun session hsession => ⟨(h.handle session hsession).1,
      (h.handle session hsession).2.trans (Nat.lt_succ_self _)⟩,
      h.sessionId.trans (Nat.lt_succ_self _), h.connected, h.observed, h.names⟩
  | connect hhandle =>
    refine ⟨Nat.succ_pos _, fun session hsession => ?_, h.sessionId.trans (Nat.lt_succ_self _),
      fun hstate => ?_, h.observed, h.names⟩
    · obtain rfl := Option.some.inj (Option.some.inj hsession)
      exact ⟨h.next_pos, Nat.lt_succ_self _⟩
    · cases hhandle.symm.trans (h.connected hstate)
  | onConnected hhandle => exact h.onConnected hhandle
  | onState hstate =>
    refine ⟨h.next_pos, h.handle, h.sessionId, fun hconnected => ?_, h.observed, h.names⟩
    rcases hstate with rfl | rfl <;> cases hconnected
  | onExpired => exact ⟨h.next_pos, h.handle, h.sessionId, nofun, h.observed, h.names⟩
  | @recover created =>
    cases created <;> exact ⟨h.next_pos, nofun, h.sessionId, nofun, h.observed, h.names⟩
  | observe => exact h.congr rfl rfl rfl le_rfl
  | _ => exact hsame rfl rfl rfl rfl

namespace State

variable {P : Option (List (Bytes × Node)) → Prop}

theorem Known.mono (h : s.Known service P) (hchildren : s'.children service = s.children service)
    (hchild : s.childWatch service = true → s'.childWatch service = true)
    (hexists : s.existsWatch service = true → s'.existsWatch service = true)
    (halarm : s.Alarm service → s'.Alarm service) : s'.Known service P := by
  rcases h with ⟨harmed, hP⟩ | h
  · refine .inl ⟨?_, hchildren ▸ hP⟩
    unfold Armed at harmed ⊢
    rw [hchildren]
    split
    · simp_all
    · simp_all
  · exact .inr (halarm h)

theorem Alarm.mono (h : s.Alarm service) (hpending : s.pending service = true → s'.pending service = true)
    (hfired : s.fired service ≤ s'.fired service) (hlive : s'.Live → s.Live)
    (hobserved : s'.observedSessionGeneration = s.observedSessionGeneration)
    (hgeneration : s'.client.sessionGeneration = s.client.sessionGeneration) :
    s'.Alarm service := by
  rcases h with h | h | h | h
  · exact .inl (hpending h)
  · exact .inr (.inl (h.trans_le hfired))
  · exact .inr (.inr (.inl fun hl => h (hlive hl)))
  · exact .inr (.inr (.inr (by rw [hobserved, hgeneration]; exact h)))

theorem Armed.of_none (hnone : s.children service = none) (h : s.existsWatch service = true) :
    s.Armed service := by
  rw [Armed, hnone]
  exact h

theorem Armed.of_some (hsome : s.children service = some children)
    (h : s.childWatch service = true) : s.Armed service := by
  rw [Armed, hsome]
  exact h

theorem update_true {f : Service → Bool} {other : Service} (h : f other = true) :
    Function.update f service true other = true := by
  by_cases hother : other = service
  · simp_all
  · rwa [update_of_ne hother]

theorem Armed.change (h : s.Armed service) {children : Option (List (Bytes × Node))} {touches : Bool}
    (htouches : s.children service = none → touches = true) :
    0 < (s.change service children touches).fired service := by
  have hfired : (s.change service children touches).fired service = s.fired service +
      (s.childWatch service).toNat + (touches && s.existsWatch service).toNat :=
    update_self ..
  rw [hfired]
  unfold Armed at h
  split at h
  · rename_i hnone
    rw [htouches hnone, h]
    exact Nat.succ_pos _
  · rw [h]
    exact Nat.lt_of_lt_of_le (Nat.succ_pos _) (Nat.le_add_right _ _)

theorem Known.change (h : s.Known service P) {target : Service}
    {children : Option (List (Bytes × Node))} {touches : Bool}
    (htouches : s.children target = none → touches = true) :
    (s.change target children touches).Known service P := by
  have halarm : s.Alarm service → (s.change target children touches).Alarm service := by
    refine fun halarm => halarm.mono id ?_ id rfl rfl
    show s.fired service ≤ Function.update s.fired target _ service
    by_cases hservice : service = target
    · subst hservice
      rw [update_self]
      omega
    · rw [update_of_ne hservice]
  by_cases hservice : service = target
  · subst hservice
    rcases h with ⟨harmed, -⟩ | h
    · exact .inr (.inr (.inl (harmed.change htouches)))
    · exact .inr (halarm h)
  · refine h.mono (update_of_ne hservice _ _) (fun hc => ?_) (fun he => ?_) halarm
    · exact (update_of_ne hservice _ _).trans hc
    · exact (update_of_ne hservice _ _).trans he

theorem Known.expire (h : s.Known service P) (session : ℕ) :
    (s.expire session).Known service P := by
  have hlive : (s.expire session).Live → s.Live ∧ session ≠ s.client.sessionId := by
    intro hlive
    have hclient : (s.expire session).client = s.client := by
      unfold State.expire
      split <;> rfl
    have hexpired : (s.expire session).expired = Function.update s.expired session true := by
      unfold State.expire
      split <;> rfl
    unfold Live at hlive
    rw [hclient, hexpired] at hlive
    have hne : session ≠ s.client.sessionId := by
      grind
    rw [update_of_ne hne.symm] at hlive
    exact ⟨hlive, hne⟩
  by_cases hhandle : s.client.handle = some (some session)
  · refine .inr (.inr (.inr (.inl fun hl => ?_)))
    obtain ⟨⟨hs, -⟩, hne⟩ := hlive hl
    exact hne (Option.some.inj (Option.some.inj (hhandle.symm.trans hs)))
  · have hexpire : s.expire session = { s with expired := Function.update s.expired session true } :=
      if_neg hhandle
    refine h.mono (by rw [hexpire]) (by rw [hexpire]; exact id) (by rw [hexpire]; exact id)
      fun halarm => ?_
    refine halarm.mono (by rw [hexpire]; exact id) (by rw [hexpire]) (fun hl => (hlive hl).1)
      (by rw [hexpire]) (by rw [hexpire])

theorem Known.onConnected (hsessions : Sessions s) (h : s.Known service P) {session dispatching : ℕ} :
    State.Known { s with client := s.client.onConnected session, dispatching } service P := by
  by_cases hobserved : s.observedSessionGeneration = (s.client.onConnected session).sessionGeneration
  · obtain ⟨hbefore, hid⟩ := s.client.onConnected_current hsessions.observed hobserved
    refine h.mono rfl id id fun halarm => halarm.mono id le_rfl (fun hlive => ?_) rfl
      (hobserved.symm.trans hbefore)
    unfold Live at hlive ⊢
    rwa [hid] at hlive
  · exact .inr (.inr (.inr (.inr hobserved)))

theorem Known.deliver (h : s.Known service P) {target : Service} {n : ℕ} :
    State.Known { s with
      fired := Function.update s.fired target n
      pending := Function.update s.pending target true } service P := by
  by_cases hservice : service = target
  · subst hservice
    exact .inr (.inl (update_self ..))
  · refine h.mono rfl id id fun halarm => halarm.mono (fun hp => ?_) ?_ id rfl rfl
    · exact (update_of_ne hservice _ _).trans hp
    · exact (update_of_ne hservice _ _).ge

theorem Known.queueRefresh (h : s.Known service P) {target : Service} :
    State.Known { s with pending := Function.update s.pending target true } service P := by
  exact h.mono rfl id id fun halarm => halarm.mono update_true le_rfl id rfl rfl

end State

/-! ## The control loop -/

def Phase.Busy (service : Service) : Phase → Prop
  | .waiting => False
  | .swapped pending | .connected pending | .choose pending | .refresh pending =>
    pending service = true
  | .getChildren current rest | .exists current rest | .getChildrenAgain current rest
  | .child current rest _ _ | .get current rest _ _ _ _ => service = current ∨ rest service = true

/-- The candidates are those of the children that have been read, and the others remain. -/
def Reading (parse : Bytes → Option ServiceInstance) (service : Service) (rest : List Bytes)
    (candidate : List ServiceInstance) (children : Option (List (Bytes × Node))) : Prop :=
  ∃ list before, children = some list ∧ before ++ rest = sortNames (list.map Prod.fst) ∧
    candidate = collect (validAt parse service list) before

def HasLength (child : Bytes) (length : ℕ) (children : Option (List (Bytes × Node))) : Prop :=
  ∀ list node, children = some list → lookup list child = some node → node.data.length = length

/-- What a refresh has read so far is what the path holds, as long as there is no alarm. -/
def State.Progress (parse : Bytes → Option ServiceInstance) (s : State) : Prop :=
  match s.phase with
  | .child service _ children candidate => s.Known service (Reading parse service children candidate)
  | .get service _ child children candidate length =>
    s.Known service fun cs => Reading parse service (child :: children) candidate cs ∧
      HasLength child length cs
  | _ => True

structure Inv (parse : Bytes → Option ServiceInstance) (s : State) : Prop where
  sessions : Sessions s
  settled : ∀ service, ¬ s.phase.Busy service → (s.snapshots service).lastRefreshOk = true →
    s.Known service fun cs => (s.snapshots service).instances = viewOf parse service cs
  progress : s.Progress parse

theorem Inv.initial (h : s.Initial) : Inv parse s where
  sessions := .initial h
  settled service _ hok := by
    rw [h.snapshots] at hok
    cases hok
  progress := by
    rw [State.Progress, h.phase]
    trivial

theorem Inv.environment (h : Inv parse s) (hsessions : Sessions s') (hphase : s'.phase = s.phase)
    (hsnapshots : s'.snapshots = s.snapshots)
    (hknown : ∀ service P, s.Known service P → s'.Known service P) : Inv parse s' where
  sessions := hsessions
  settled service hbusy hok := by
    rw [hsnapshots] at hok ⊢
    rw [hphase] at hbusy
    exact hknown service _ (h.settled service hbusy hok)
  progress := by
    have hprogress := h.progress
    unfold State.Progress at hprogress ⊢
    rw [hphase]
    split
    · simp_all
    · simp_all
    · trivial

theorem Inv.loop (h : Inv parse s) (hsessions : Sessions s') (hsnapshots : s'.snapshots = s.snapshots)
    (hknown : ∀ service P, ¬ s'.phase.Busy service → s.Known service P → s'.Known service P)
    (hbusy : ∀ service, ¬ s'.phase.Busy service → ¬ s.phase.Busy service)
    (hprogress : s'.Progress parse) : Inv parse s' where
  sessions := hsessions
  settled service hservice hok := by
    rw [hsnapshots] at hok ⊢
    exact hknown service _ hservice (h.settled service (hbusy service hservice) hok)
  progress := hprogress

theorem State.Known.go {P : Option (List (Bytes × Node)) → Prop} (h : s.Known service P)
    (phase : Phase) : (s.go phase).Known service P :=
  h.mono rfl id id fun halarm => halarm.mono id le_rfl id rfl rfl

theorem Inv.go (h : Inv parse s) {phase : Phase}
    (hbusy : ∀ service, ¬ phase.Busy service → ¬ s.phase.Busy service)
    (hprogress : (s.go phase).Progress parse) : Inv parse (s.go phase) :=
  h.loop (h.sessions.congr rfl rfl rfl h.sessions.observed) rfl (fun _ _ _ hknown => hknown.go phase)
    hbusy hprogress

theorem Inv.swap (h : Inv parse s) (hphase : s.phase = .waiting) :
    Inv parse { s with pending := fun _ => false, phase := .swapped s.pending } := by
  refine h.loop (h.sessions.congr rfl rfl rfl h.sessions.observed) rfl
    (fun service P hbusy hknown => ?_) (fun service _ => by rw [hphase]; exact id) trivial
  refine hknown.mono rfl id id fun halarm => ?_
  rcases halarm with hpending | halarm
  · exact absurd hpending hbusy
  · exact .inr halarm

theorem Inv.observe (h : Inv parse s) {pending : Service → Bool}
    (hphase : s.phase = .connected pending) : Inv parse (s.observe pending) := by
  refine h.loop (h.sessions.congr rfl rfl rfl le_rfl) rfl (fun service P hbusy hknown => ?_)
    (fun service hbusy => ?_) trivial
  · have hsame : s.client.sessionGeneration = s.observedSessionGeneration := by
      by_contra hne
      exact hbusy (by simp [State.observe, Phase.Busy, hne])
    exact hknown.mono rfl id id fun halarm => halarm.mono id le_rfl id hsame rfl
  · rw [hphase]
    exact fun hpending => hbusy (by simp [State.observe, Phase.Busy, show pending service = true from hpending])

theorem any_eq_false {pending : Service → Bool} (h : Service.all.any pending = false)
    (service : Service) : pending service = false := by
  have hall := List.any_eq_false.1 h service (by cases service <;> decide)
  simpa using hall

theorem Inv.choose (h : Inv parse s) {pending : Service → Bool} (hphase : s.phase = .choose pending) :
    Inv parse (s.go (.refresh (s.chosen pending))) := by
  refine h.go (fun service hbusy hpending => ?_) trivial
  rw [hphase] at hpending
  by_cases hnone : Service.all.any pending = false
  · cases (any_eq_false hnone service).symm.trans hpending
  · refine hbusy ?_
    show s.chosen pending service = true
    rw [State.chosen, if_neg hnone]
    exact hpending

theorem Inv.settle (h : Inv parse s) {rest : Service → Bool} {snapshot : ServiceDiscoverySnapshot}
    (hbusy : ∀ other, s.phase.Busy other → other = service ∨ rest other = true)
    (hsessions : Sessions s') (hphase : s'.phase = .refresh rest)
    (hsnapshots : s'.snapshots = Function.update s.snapshots service snapshot)
    (hknown : ∀ other P, s.Known other P → s'.Known other P)
    (hsnapshot : snapshot.lastRefreshOk = true →
      s'.Known service fun cs => snapshot.instances = viewOf parse service cs) : Inv parse s' where
  sessions := hsessions
  settled other hother hok := by
    rw [hphase] at hother
    rw [hsnapshots] at hok ⊢
    by_cases hservice : other = service
    · grind
    · rw [update_of_ne hservice] at hok ⊢
      refine hknown other _ (h.settled other (fun hb => ?_) hok)
      exact (hbusy other hb).elim hservice hother
  progress := by
    rw [State.Progress, hphase]
    trivial

theorem Inv.readFailed (h : Inv parse s) {rest : Service → Bool} {error : String}
    (hbusy : ∀ other, s.phase.Busy other → other = service ∨ rest other = true) :
    Inv parse ((s.go (.refresh rest)).markRefreshFailed service error) :=
  h.settle hbusy (h.sessions.congr rfl rfl rfl h.sessions.observed) rfl rfl
    (fun _ _ hknown => hknown.go (.refresh rest)) nofun

variable {rest : Service → Bool}

theorem Inv.publish (h : Inv parse s) {candidate : List ServiceInstance}
    (hphase : s.phase = .child service rest [] candidate) :
    Inv parse ((s.go (.refresh rest)).publishSnapshot service (sortCandidate candidate)) := by
  refine h.settle (fun other hb => by rw [hphase] at hb; exact hb)
    (h.sessions.congr rfl rfl rfl h.sessions.observed) rfl rfl
    (fun _ _ hknown => hknown.go (.refresh rest)) fun _ => ?_
  have hprogress := h.progress
  rw [State.Progress, hphase] at hprogress
  rcases hprogress with ⟨harmed, list, before, hchildren, hbefore, rfl⟩ | halarm
  · refine .inl ⟨harmed, ?_⟩
    rw [List.append_nil] at hbefore
    show sortCandidate _ = viewOf parse service (s.children service)
    rw [hchildren, hbefore]
    rfl
  · exact .inr halarm

theorem Inv.existsNot (h : Inv parse s)
    (hphase : s.phase = .exists service rest) (hnone : s.children service = none) :
    Inv parse (State.publishSnapshot
      { s with
        existsWatch := Function.update s.existsWatch service true
        phase := .refresh rest } service []) := by
  refine h.settle (fun other hb => by rw [hphase] at hb; exact hb)
    (h.sessions.congr rfl rfl rfl h.sessions.observed) rfl rfl (fun other P hknown => ?_) fun _ => ?_
  · exact hknown.mono rfl id State.update_true fun halarm => halarm.mono id le_rfl id rfl rfl
  · refine .inl ⟨.of_none hnone (update_self ..), ?_⟩
    show [] = viewOf parse service (s.children service)
    rw [hnone]
    rfl

theorem Inv.getChildren (h : Inv parse s)
    (hbusy : ∀ other, s.phase.Busy other → other = service ∨ rest other = true)
    (hchildren : s.children service = some children) :
    Inv parse { s with
      childWatch := Function.update s.childWatch service true
      phase := .child service rest (sortNames (children.map Prod.fst)) [] } := by
  refine h.loop (h.sessions.congr rfl rfl rfl h.sessions.observed) rfl
    (fun other P _ hknown => ?_) (fun other hother hb => hother (hbusy other hb)) ?_
  · exact hknown.mono rfl State.update_true id fun halarm => halarm.mono id le_rfl id rfl rfl
  · exact .inl ⟨.of_some hchildren (update_self ..), children, [], hchildren, rfl, rfl⟩

theorem Inv.exists (h : Inv parse s) (hphase : s.phase = .exists service rest) : Inv parse { s with
      existsWatch := Function.update s.existsWatch service true
      phase := .getChildrenAgain service rest } := by
  refine h.loop (h.sessions.congr rfl rfl rfl h.sessions.observed) rfl
    (fun other P _ hknown => ?_) (fun other hother hb => ?_) trivial
  · exact hknown.mono rfl id State.update_true fun halarm => halarm.mono id le_rfl id rfl rfl
  · rw [hphase] at hb
    exact hother hb

theorem Inv.childExists (h : Inv parse s)
    {children : List Bytes} {candidate : List ServiceInstance} {node : Node}
    (hphase : s.phase = .child service rest (child :: children) candidate)
    (hnode : nodeAt s service child = some node) :
    Inv parse (s.go (.get service rest child children candidate node.data.length)) := by
  refine h.go (fun other hother hb => hother (by rw [hphase] at hb; exact hb)) ?_
  have hprogress := h.progress
  rw [State.Progress, hphase] at hprogress
  refine (show State.Known s service _ from ?_ : (s.Known service fun cs =>
    Reading parse service (child :: children) candidate cs ∧
      HasLength child node.data.length cs)).go _
  rcases hprogress with ⟨harmed, hreading⟩ | halarm
  · refine .inl ⟨harmed, hreading, fun list node' hlist hlookup => ?_⟩
    rw [nodeAt_eq hlist, hlookup] at hnode
    rw [Option.some.inj hnode]
  · exact .inr halarm

theorem Reading.next {child : Bytes} {children : List Bytes} {candidate : List ServiceInstance}
    {list : List (Bytes × Node)} (h : Reading parse service (child :: children) candidate (some list)) :
    Reading parse service children (add candidate (validAt parse service list child)) (some list) := by
  obtain ⟨list', before, hlist, hbefore, rfl⟩ := h
  obtain rfl := Option.some.inj hlist
  refine ⟨list, before ++ [child], rfl, ?_, (collect_append _ _ _).symm⟩
  rw [List.append_assoc]
  exact hbefore

theorem Inv.childGet (h : Inv parse s) {children : List Bytes}
    {candidate : List ServiceInstance} {length : ℕ} {node : Node}
    (hphase : s.phase = .get service rest child children candidate length)
    (hnode : nodeAt s service child = some node) :
    Inv parse (s.go (.child service rest children
      (consider parse service child (node.read length) candidate))) := by
  refine h.go (fun other hother hb => hother (by rw [hphase] at hb; exact hb)) ?_
  have hprogress := h.progress
  rw [State.Progress, hphase] at hprogress
  refine State.Known.go ?_ _
  rcases hprogress with ⟨harmed, hreading, hlength⟩ | halarm
  · refine .inl ⟨harmed, ?_⟩
    obtain ⟨list, -, hlist, -⟩ := id hreading
    rw [nodeAt_eq hlist] at hnode
    rw [hlist] at hreading ⊢
    have hvalid : validAt parse service list child =
        accept parse service child (node.read length) := by
      rw [validAt, hnode, ← hlength list node hlist hnode, Node.read_length]
    rw [consider_eq, ← hvalid]
    exact hreading.next
  · exact .inr halarm

theorem Inv.childNoNode (h : Inv parse s) {children : List Bytes} {candidate : List ServiceInstance}
    (hphase : s.phase = .child service rest (child :: children) candidate ∨
      ∃ length, s.phase = .get service rest child children candidate length)
    (hnode : nodeAt s service child = none) :
    Inv parse (s.go (.child service rest children candidate)) := by
  have hknown : s.Known service (Reading parse service (child :: children) candidate) := by
    have hprogress := h.progress
    rcases hphase with hphase | ⟨length, hphase⟩
    · rw [State.Progress, hphase] at hprogress
      exact hprogress
    · rw [State.Progress, hphase] at hprogress
      exact hprogress.imp (fun hk => ⟨hk.1, hk.2.1⟩) id
  refine h.go (fun other hother hb => hother ?_) (State.Known.go ?_ _)
  · rcases hphase with hphase | ⟨length, hphase⟩
    · rw [hphase] at hb
      exact hb
    · rw [hphase] at hb
      exact hb
  · rcases hknown with ⟨harmed, hreading⟩ | halarm
    · refine .inl ⟨harmed, ?_⟩
      obtain ⟨list, -, hlist, -⟩ := id hreading
      rw [nodeAt_eq hlist] at hnode
      rw [hlist] at hreading ⊢
      have hvalid : validAt parse service list child = none := by rw [validAt, hnode]
      have hnext := hreading.next
      rwa [hvalid] at hnext
    · exact .inr halarm

theorem Inv.step (h : Inv parse s) (hs : Step parse s l s') : Inv parse s' := by
  have hsessions := h.sessions.step hs
  have hlost : ¬ s'.Live → ∀ service P, s.Known service P → s'.Known service P :=
    fun hlive _ _ _ => .inr (.inr (.inr (.inl hlive)))
  cases hs with
  | createPath | deletePath => exact h.environment hsessions rfl rfl fun _ _ hk => hk.change fun _ => rfl
  | createChild hchildren | deleteChild hchildren =>
    exact h.environment hsessions rfl rfl fun _ _ hk =>
      hk.change fun hnone => by cases hnone.symm.trans hchildren
  | @expire session =>
    refine h.environment hsessions ?_ ?_ fun _ _ hk => hk.expire session
    · unfold State.expire
      split <;> rfl
    · unfold State.expire
      split <;> rfl
  | connect =>
    refine h.environment hsessions rfl rfl (hlost fun hlive => ?_)
    have hid := Option.some.inj (Option.some.inj hlive.1)
    exact h.sessions.sessionId.ne' hid
  | onConnected => exact h.environment hsessions rfl rfl fun _ _ hk => hk.onConnected h.sessions
  | otherSession | onState | onExpired =>
    exact h.environment hsessions rfl rfl fun _ _ hk =>
      hk.mono rfl id id fun halarm => halarm.mono id le_rfl id rfl rfl
  | @recover created =>
    refine h.environment hsessions rfl rfl (hlost fun hlive => ?_)
    cases created <;> cases hlive.1
  | dispatch => exact h.environment hsessions rfl rfl fun _ _ hk => .inr (.inl rfl)
  | deliver => exact h.environment hsessions rfl rfl fun _ _ hk => hk.deliver
  | queueRefresh => exact h.environment hsessions rfl rfl fun _ _ hk => hk.queueRefresh
  | swap hphase => exact h.swap hphase
  | notConnected => exact ⟨hsessions, nofun, trivial⟩
  | connected hphase =>
    exact h.go (fun service hbusy hpending => hbusy (by rw [hphase] at hpending; exact hpending))
      trivial
  | observe hphase => exact h.observe hphase
  | choose hphase => exact h.choose hphase
  | @next rest service hphase hrest =>
    refine h.go (fun other hbusy hpending => ?_) trivial
    rw [hphase] at hpending
    by_cases hother : other = service
    · exact hbusy (.inl hother)
    · exact hbusy (.inr ((update_of_ne hother ..).trans hpending))
  | done hphase hnone =>
    refine h.go (fun other _ hpending => ?_) trivial
    rw [hphase] at hpending
    cases (hnone other).symm.trans hpending
  | getChildren hphase _ hchildren =>
    refine h.getChildren (fun other hbusy => ?_) hchildren
    rcases hphase with hphase | hphase
    · rw [hphase] at hbusy
      exact hbusy
    · rw [hphase] at hbusy
      exact hbusy
  | getChildrenNoNode hphase =>
    exact h.go (fun other hother hbusy => hother (by rw [hphase] at hbusy; exact hbusy)) trivial
  | «exists» hphase => exact h.exists hphase
  | existsNot hphase _ hnone => exact h.existsNot hphase hnone
  | childExists hphase _ hnode => exact h.childExists hphase hnode
  | childGet hphase _ hnode => exact h.childGet hphase hnode
  | childNoNode hphase _ hnode => exact h.childNoNode hphase hnode
  | publish hphase => exact h.publish hphase
  | readFailed hphase =>
    refine h.readFailed fun other hbusy => ?_
    rcases hphase with hphase | hphase | hphase | ⟨_, _, hphase, -⟩ | ⟨_, _, _, _, hphase⟩ <;>
      rw [hphase] at hbusy <;> exact hbusy

theorem Inv.run {start : State} (h : start.Initial) (hrun : Run (Step parse) start ls s) :
    Inv parse s :=
  hrun.invariant (fun _ _ _ h hs => h.step hs) (.initial h)

/-! ## Publications -/

theorem snapshot_step (hs : Step parse s l s') (service : Service) :
    if l = .published service then
      (s'.snapshots service).generation = (s.snapshots service).generation + 1
    else (s'.snapshots service).instances = (s.snapshots service).instances ∧
      (s'.snapshots service).generation = (s.snapshots service).generation := by
  have hpublish : ∀ (t : State) (target : Service) (instances : List ServiceInstance),
      if Label.published target = .published service then
        ((t.publishSnapshot target instances).snapshots service).generation =
          (t.snapshots service).generation + 1
      else ((t.publishSnapshot target instances).snapshots service).instances =
          (t.snapshots service).instances ∧
        ((t.publishSnapshot target instances).snapshots service).generation =
          (t.snapshots service).generation := by
    intro t target instances
    by_cases hservice : target = service
    · subst hservice
      simp [State.publishSnapshot]
    · simp [State.publishSnapshot, hservice, update_of_ne (Ne.symm hservice)]
  cases hs with
  | existsNot => exact hpublish _ _ _
  | publish => exact hpublish _ _ _
  | @readFailed target =>
    rw [if_neg nofun]
    by_cases hservice : service = target
    · subst hservice
      simp [State.markRefreshFailed, State.go]
    · simp [State.markRefreshFailed, State.go, update_of_ne hservice]
  | expire =>
    rw [if_neg nofun]
    unfold State.expire
    split <;> exact ⟨rfl, rfl⟩
  | _ =>
    rw [if_neg nofun]
    exact ⟨rfl, rfl⟩

theorem generation_run {start : State} (h : start.Initial) (hrun : Run (Step parse) start ls s)
    (service : Service) : (s.snapshots service).generation = ls.count (.published service) := by
  refine hrun.history (I := fun ls s => (s.snapshots service).generation =
    ls.count (.published service)) (fun ls s l s' ih hs => ?_) (by rw [h.snapshots]; rfl)
  have hsnapshot := snapshot_step hs service
  rw [List.count_append, List.count_singleton]
  grind

def State.Current (parse : Bytes → Option ServiceInstance) (s : State) (service : Service) : Prop :=
  match s.children service with
  | none => (s.snapshots service).instances = []
  | some children => IsView parse service children (s.snapshots service).instances

/-- In every interleaving of changes, deliveries, session events and failing reads with the control
loop: where the loop waits with nothing pending, the client is connected, its generation is the one
observed and the last refresh of a service succeeded, its instances are those of its path, or a watch
event of the path is undelivered, or the session has ended and its event is undelivered.  Each step
changes the instances and the generation of a snapshot only by publishing, which raises the generation
by one, so that it counts the successful refreshes. -/
theorem discovery_loses_no_change {start : State} (h : start.Initial)
    (hrun : Run (Step parse) start ls s) :
    (s.phase = .waiting → (∀ other, s.pending other = false) → s.client.state = .connected →
      s.observedSessionGeneration = s.client.sessionGeneration →
      ∀ service, (s.snapshots service).lastRefreshOk = true →
        s.Current parse service ∨ 0 < s.fired service ∨ s.expired s.client.sessionId = true) ∧
    (∀ service, (s.snapshots service).generation = ls.count (.published service)) ∧
    ∀ l s', Step parse s l s' → ∀ service, if l = .published service then
        (s'.snapshots service).generation = (s.snapshots service).generation + 1
      else (s'.snapshots service).instances = (s.snapshots service).instances ∧
        (s'.snapshots service).generation = (s.snapshots service).generation := by
  have hinv : Inv parse s := .run h hrun
  refine ⟨?_, generation_run h hrun, fun l s' hs => snapshot_step hs⟩
  intro hphase hpending hstate hobserved service hok
  have hbusy : ¬ s.phase.Busy service := by
    rw [hphase]
    exact id
  rcases hinv.settled service hbusy hok with ⟨-, hview⟩ | hmark | hfired | hlive | hgeneration
  · refine .inl ?_
    unfold State.Current
    rw [hview]
    split
    · rename_i hnone
      rw [hnone]
      rfl
    · rename_i children hchildren
      rw [hchildren]
      exact viewOf_isView (hinv.sessions.names service children hchildren)
  · cases (hpending service).symm.trans hmark
  · exact .inr (.inl hfired)
  · refine .inr (.inr ?_)
    by_contra hexpired
    exact hlive ⟨hinv.sessions.connected hstate, by simpa using hexpired⟩
  · exact absurd hobserved hgeneration

def ServiceInstance.example : ServiceInstance :=
  ⟨1, ascii "user", ascii "u", ascii "h:1", ascii "grpc", ascii "v1"⟩

def State.example : State where
  children
    | .user => some [(ascii "u", ⟨[1], 5, 0, 1⟩)]
    | _ => none
  childWatch _ := false
  existsWatch _ := false
  fired _ := 0
  expired _ := false
  nextSession := 6
  client := ⟨some (some 1), 1, 1, .connected⟩
  dispatching := 0
  pending _ := false
  observedSessionGeneration := 0
  snapshots _ := .empty
  phase := .waiting

theorem State.example_initial : State.example.Initial where
  session := by decide
  handle session hsession := by
    obtain rfl := Option.some.inj (Option.some.inj hsession)
    decide
  sessionId := by decide
  connected _ := rfl
  observed := rfl
  names service children hchildren := by
    cases service with
    | user =>
      obtain rfl := Option.some.inj hchildren
      exact List.nodup_singleton _
    | social | message | group | file => cases hchildren
  childWatch _ hwatch := by cases hwatch
  noWatch _ _ := ⟨rfl, rfl⟩
  snapshots _ := rfl
  phase := rfl

/-- The user service is refreshed, and the reads of the others fail. -/
theorem discovery_loses_no_change_refreshed : ∃ ls s, Run (Step fun _ => some .example) .example ls s ∧
    s.phase = .waiting ∧ (s.snapshots .user).lastRefreshOk = true ∧
    s.Current (fun _ => some .example) .user ∧ (s.snapshots .user).generation = 1 := by
  have h : Run (Step fun _ => some .example) .example [] _ := .nil _
  have h := h.snoc (.swap rfl)
  have h := h.snoc (.connected rfl rfl)
  have h := h.snoc (.observe rfl)
  have h := h.snoc (.choose rfl)
  have h := h.snoc (@Step.next _ _ _ .user rfl rfl)
  have h := h.snoc (.getChildren (.inl rfl) ⟨rfl, rfl⟩ rfl)
  have hnames : sortNames (List.map Prod.fst [(ascii "u", (⟨[1], 5, 0, 1⟩ : Node))]) = [ascii "u"] :=
    List.mergeSort_singleton _
  have h := h.snoc (.childExists (congrArg (Phase.child .user _ · []) hnames) ⟨rfl, rfl⟩ rfl)
  have h := h.snoc (.childGet rfl ⟨rfl, rfl⟩ rfl)
  have h := h.snoc (.publish rfl)
  have h := h.snoc (@Step.next _ _ _ .social rfl rfl)
  have h := h.snoc (@Step.readFailed _ _ _ _ "" (.inl rfl))
  have h := h.snoc (@Step.next _ _ _ .message rfl rfl)
  have h := h.snoc (@Step.readFailed _ _ _ _ "" (.inl rfl))
  have h := h.snoc (@Step.next _ _ _ .group rfl rfl)
  have h := h.snoc (@Step.readFailed _ _ _ _ "" (.inl rfl))
  have h := h.snoc (@Step.next _ _ _ .file rfl rfl)
  have h := h.snoc (@Step.readFailed _ _ _ _ "" (.inl rfl))
  have h := h.snoc (.done rfl fun service => by cases service <;> rfl)
  obtain ⟨hcurrent, -, -⟩ := discovery_loses_no_change State.example_initial h
  have hcurrent := hcurrent rfl (fun _ => rfl) rfl rfl .user rfl
  refine ⟨_, _, h, rfl, rfl, ?_, rfl⟩
  rcases hcurrent with hcurrent | hfired | hexpired
  · exact hcurrent
  · cases hfired
  · cases hexpired

end TinyImx.Registry.ZooKeeper.Discovery
