import TinyImx.Group.Fingerprint
import TinyImx.Group.Structure

/-!
# Exactly once per operation id

The operation row of a key is written by the one call that takes effect for it, together with the
rows of its group and its event.  Every other call of the key finds that row, before its
transaction, in it, or after it, and what it returns is decided by the fingerprint in it.
-/

namespace TinyImx.Group

open TinyImx.Local (Bytes)

variable {δ κ : Type} {sha256 : Bytes → δ} {collate : Bytes → κ}
  {s s' : State δ κ} {l : Label} {ls : List Label} {c : ℕ} {req : Request} {phase : Phase}

def effects (ls : List Label) : List ℕ :=
  ls.filterMap fun
    | .effect c _ => some c
    | _ => none

@[simp] theorem effects_nil : effects [] = [] := rfl

def Found (sha256 : Bytes → δ) (collate : Bytes → κ) (s : State δ κ) (req : Request) (same : Prop) :
    Prop :=
  ∃ op, s.db.find collate req = some op ∧ (op.matches sha256 req ↔ same)

def Fits (sha256 : Bytes → δ) (collate : Bytes → κ) (ls : List Label) (s : State δ κ) (c : ℕ)
    (req : Request) : Phase → Prop
  | .committed _ _ => c ∈ effects ls
  | .resolve _ => c ∈ effects ls → .effect c true ∈ ls
  | .view _ _ => (c ∈ effects ls → .effect c true ∈ ls) ∧ Found sha256 collate s req True
  | .returned (.succeeded .applied _ _) => c ∈ effects ls
  | .returned (.succeeded .reused _ _) =>
    (c ∈ effects ls → .effect c true ∈ ls) ∧ Found sha256 collate s req True
  | .returned (.succeeded .idempotencyConflict _ _) => Found sha256 collate s req False
  | .returned (.failed _) => c ∈ effects ls → .effect c true ∈ ls
  | _ => c ∉ effects ls

theorem Fits.mono {ls' : List Label} (h : Fits sha256 collate ls s c req phase)
    (heff : c ∈ effects ls' ↔ c ∈ effects ls) (hsub : ∀ l ∈ ls, l ∈ ls')
    (hfind : ∀ op, s.db.find collate req = some op → s'.db.find collate req = some op) :
    Fits sha256 collate ls' s' c req phase := by
  have hlost : (c ∈ effects ls → Label.effect c true ∈ ls) →
      c ∈ effects ls' → Label.effect c true ∈ ls' := fun hl hc => hsub _ (hl (heff.1 hc))
  have hfound : ∀ {same : Prop}, Found sha256 collate s req same →
      Found sha256 collate s' req same := fun hf => by
    obtain ⟨op, hop, hmatch⟩ := hf
    exact ⟨op, hfind op hop, hmatch⟩
  cases phase with
  | committed => exact heff.2 h
  | resolve => exact hlost h
  | view => exact ⟨hlost h.1, hfound h.2⟩
  | returned result =>
    cases result with
    | failed => exact hlost h
    | succeeded outcome =>
      cases outcome with
      | applied => exact heff.2 h
      | reused => exact ⟨hlost h.1, hfound h.2⟩
      | idempotencyConflict => exact hfound h
  | _ => exact fun hc => h (heff.1 hc)

structure Once (sha256 : Bytes → δ) (collate : Bytes → κ) (ls : List Label) (s : State δ κ) :
    Prop where
  took : ∀ c ∈ effects ls, ∃ req phase op, s.calls c = some ⟨req, phase⟩ ∧
    s.db.find collate req = some op ∧ op.matches sha256 req
  record : ∀ req op, s.db.find collate req = some op → ∃ c ∈ effects ls, ∃ req' phase',
    s.calls c = some ⟨req', phase'⟩ ∧ SameKey collate req req' ∧ op.matches sha256 req'
  unique : ∀ c ∈ effects ls, ∀ c' ∈ effects ls, ∀ req phase req' phase',
    s.calls c = some ⟨req, phase⟩ → s.calls c' = some ⟨req', phase'⟩ →
    SameKey collate req req' → c = c'
  nodup : (effects ls).Nodup
  fits : ∀ c req phase, s.calls c = some ⟨req, phase⟩ → Fits sha256 collate ls s c req phase
  returned : ∀ c result, .returned c result ∈ ls → ∃ req, s.calls c = some ⟨req, .returned result⟩

namespace Once

theorem init : Once sha256 collate [] (State.initial : State δ κ) where
  took _ h := by cases h
  record _ _ h := by cases h
  unique _ h := by cases h
  nodup := List.nodup_nil
  fits _ _ _ h := by cases h
  returned _ _ h := by cases h

/-- The label of a step of the call `c` to `phase'` that has no effect. -/
def Quiet (c : ℕ) (phase' : Phase) (l : Label) : Prop :=
  l = .silent ∨ ∃ result, l = .returned c result ∧ phase' = .returned result

theorem effects_quiet (ls : List Label) {phase' : Phase} (h : Quiet c phase' l) : effects
    (ls ++ [l]) = effects ls := by
  rcases h with rfl | ⟨result, rfl, -⟩ <;> simp [effects]

/-- A call goes on without an effect. -/
theorem go {phase' : Phase} (h : Once sha256 collate ls s)
    (hcalls : s'.calls = (s.go c req phase').calls) (hops : s'.db.operations = s.db.operations)
    (hcall : s.calls c = none ∨ ∃ phase, s.calls c = some ⟨req, phase⟩ ∧ phase.ended = false)
    (hl : Quiet c phase' l) (hfits : Fits sha256 collate ls s c req phase') :
    Once sha256 collate (ls ++ [l]) s' := by
  have heff := effects_quiet ls hl
  have hsub : ∀ l' ∈ ls, l' ∈ ls ++ [l] := fun l' hl' => List.mem_append_left _ hl'
  have hfind : ∀ req', s'.db.find collate req' = s.db.find collate req' := fun req' => by
    rw [Db.find, hops]
    rfl
  -- the request of a call stays, and other calls are as they were
  have hnew : ∀ c' req' phase', s'.calls c' = some ⟨req', phase'⟩ → c' ≠ c →
      s.calls c' = some ⟨req', phase'⟩ := fun c' req' phase₁ hc' hne => by
    rw [hcalls, State.go_calls_ne hne] at hc'
    exact hc'
  have hself : s'.calls c = some ⟨req, phase'⟩ := by
    rw [hcalls]
    exact State.go_calls_self ..
  have hold : ∀ c' req' phase₀, s.calls c' = some ⟨req', phase₀⟩ →
      ∃ phase₁, s'.calls c' = some ⟨req', phase₁⟩ := fun c' req' phase₀ hc' => by
    by_cases hne : c' = c
    · grind
    · refine ⟨phase₀, ?_⟩
      rw [hcalls, State.go_calls_ne hne]
      exact hc'
  have hback : ∀ c' req' phase₀, c' ∈ effects ls → s'.calls c' = some ⟨req', phase₀⟩ →
      ∃ phase₁, s.calls c' = some ⟨req', phase₁⟩ := fun c' req' phase₀ hmem hc' => by
    obtain ⟨req₀, phase₁, -, hc₀, -⟩ := h.took c' hmem
    obtain ⟨phase₂, hc₂⟩ := hold c' req₀ phase₁ hc₀
    grind
  refine ⟨fun c' hc' => ?_, fun req' op hop => ?_, fun c₁ h₁ c₂ h₂ req₁ p₁ req₂ p₂ hc₁ hc₂ hsame =>
      ?_,
    ?_, fun c' req' phase₀ hc' => ?_, fun c' result hmem => ?_⟩
  · rw [heff] at hc'
    obtain ⟨req', phase₀, op, hc₀, hop, hmatch⟩ := h.took c' hc'
    obtain ⟨phase₁, hc₁⟩ := hold c' req' phase₀ hc₀
    exact ⟨req', phase₁, op, hc₁, (hfind req').trans hop, hmatch⟩
  · rw [hfind] at hop
    obtain ⟨c', hc', req₀, phase₀, hc₀, hrest⟩ := h.record req' op hop
    obtain ⟨phase₁, hc₁⟩ := hold c' req₀ phase₀ hc₀
    exact ⟨c', heff ▸ hc', req₀, phase₁, hc₁, hrest⟩
  · rw [heff] at h₁ h₂
    obtain ⟨p₁', hc₁'⟩ := hback c₁ req₁ p₁ h₁ hc₁
    obtain ⟨p₂', hc₂'⟩ := hback c₂ req₂ p₂ h₂ hc₂
    exact h.unique c₁ h₁ c₂ h₂ req₁ p₁' req₂ p₂' hc₁' hc₂' hsame
  · rw [heff]
    exact h.nodup
  · by_cases hne : c' = c
    · subst hne
      rw [hself] at hc'
      cases hc'
      exact hfits.mono (by rw [heff]) hsub fun op hop => (hfind req).trans hop
    · exact (h.fits c' req' phase₀ (hnew c' req' phase₀ hc' hne)).mono (by rw [heff]) hsub
        fun op hop => (hfind req').trans hop
  · rcases List.mem_append.1 hmem with hmem | hmem
    · obtain ⟨req', hc'⟩ := h.returned c' result hmem
      have hne : c' ≠ c := by
        rintro rfl
        rcases hcall with hnone | ⟨phase₁, hsome, hended⟩
        · rw [hnone] at hc'
          cases hc'
        · rw [hsome] at hc'
          cases hc'
          cases hended
      refine ⟨req', ?_⟩
      rw [hcalls, State.go_calls_ne hne]
      exact hc'
    · rw [List.mem_singleton] at hmem
      rcases hl with rfl | ⟨result', rfl, rfl⟩
      · cases hmem
      · cases hmem
        exact ⟨req, hself⟩

/-- What an effect leaves to be said: that its reply is lost, unless the call is told of it. -/
def Phase.AfterEffect (lost : Bool) : Phase → Prop
  | .committed _ _ => True
  | .resolve _ => lost = true
  | _ => False

variable [DecidableEq κ]

theorem find_commit_of_same {req₀ : Request} {g : ℕ} {p : Prepared} {db : Db δ κ}
    (h : SameKey collate req req₀) :
    (db.commit sha256 collate req₀ g p).find collate req = some (req₀.operation sha256 g p) := by
  simp only [Db.find, Db.commit, ← h.1, ← h.2, Function.update_self]

/-- A call takes effect: the row of its key is new. -/
theorem commit {phase' : Phase} {g : ℕ} {p : Prepared} {lost : Bool} (h : Once sha256 collate ls s)
    (hcall : s.calls c = some ⟨req, .commit g p⟩) (hnone : s.db.find collate req = none)
    (hphase : Phase.AfterEffect lost phase') :
    Once sha256 collate (ls ++ [.effect c lost])
      { s.go c req phase' with db := s.db.commit sha256 collate req g p } := by
  have heff : effects (ls ++ [.effect c lost]) = effects ls ++ [c] := by simp [effects]
  have hnot : c ∉ effects ls := h.fits c req _ hcall
  have hsub : ∀ l' ∈ ls, l' ∈ ls ++ [.effect c lost] := fun l' hl' => List.mem_append_left _ hl'
  -- a key that has a record is another one
  have hfind : ∀ req' op, s.db.find collate req' = some op →
      ¬ SameKey collate req' req ∧
        (s.db.commit sha256 collate req g p).find collate req' = some op := fun req' op hop => by
    have hother : ¬ SameKey collate req' req := fun hsame => by
      rw [Db.find, ← hsame.1, ← hsame.2] at hop
      rw [Db.find, hop] at hnone
      cases hnone
    exact ⟨hother, (Held.find_commit_of_not hother).trans hop⟩
  have hself : (s.go c req phase').calls c = some ⟨req, phase'⟩ := State.go_calls_self ..
  have hne : ∀ c' ∈ effects ls, c' ≠ c := fun c' hc' heq => hnot (heq ▸ hc')
  have hold : ∀ c' req' phase₀, s.calls c' = some ⟨req', phase₀⟩ → c' ≠ c →
      (s.go c req phase').calls c' = some ⟨req', phase₀⟩ := fun c' req' phase₀ hc' hne' => by
    rw [State.go_calls_ne hne']
    exact hc'
  -- a call that took effect before has another key
  have hkey : ∀ c' ∈ effects ls, ∀ req' phase₀, (s.go c req phase').calls c' = some ⟨req', phase₀⟩ →
      ¬ SameKey collate req' req := fun c' hc' req' phase₀ hcall' => by
    obtain ⟨req₀, phase₁, op, hc₀, hop, -⟩ := h.took c' hc'
    rw [hold c' req₀ phase₁ hc₀ (hne c' hc')] at hcall'
    cases hcall'
    exact (hfind req' op hop).1
  refine ⟨fun c' hc' => ?_, fun req' op hop => ?_, fun c₁ h₁ c₂ h₂ req₁ p₁ req₂ p₂ hc₁ hc₂ hsame =>
      ?_,
    ?_, fun c' req' phase₀ hc' => ?_, fun c' result hmem => ?_⟩
  · rw [heff] at hc'
    rcases List.mem_append.1 hc' with hc' | hc'
    · obtain ⟨req', phase₀, op, hc₀, hop, hmatch⟩ := h.took c' hc'
      exact ⟨req', phase₀, op, hold c' req' phase₀ hc₀ (hne c' hc'), (hfind req' op hop).2, hmatch⟩
    · obtain rfl := List.mem_singleton.1 hc'
      exact ⟨req, phase', _, hself, find_commit_of_same ⟨rfl, rfl⟩, rfl, rfl⟩
  · by_cases hsame : SameKey collate req' req
    · replace hop : (s.db.commit sha256 collate req g p).find collate req' = some op := hop
      rw [find_commit_of_same hsame] at hop
      cases hop
      exact ⟨c, by simp [heff], req, phase', hself, hsame, rfl, rfl⟩
    · replace hop : (s.db.commit sha256 collate req g p).find collate req' = some op := hop
      rw [Held.find_commit_of_not hsame] at hop
      obtain ⟨c', hc', req₀, phase₀, hc₀, hrest⟩ := h.record req' op hop
      exact ⟨c', by simp [heff, hc'], req₀, phase₀, hold c' req₀ phase₀ hc₀ (hne c' hc'), hrest⟩
  · rw [heff] at h₁ h₂
    rcases List.mem_append.1 h₁ with hm₁ | hm₁ <;> rcases List.mem_append.1 h₂ with hm₂ | hm₂
    · have hc₁' : s.calls c₁ = some ⟨req₁, p₁⟩ := (State.go_calls_ne (hne c₁ hm₁)).symm.trans hc₁
      have hc₂' : s.calls c₂ = some ⟨req₂, p₂⟩ := (State.go_calls_ne (hne c₂ hm₂)).symm.trans hc₂
      exact h.unique c₁ hm₁ c₂ hm₂ req₁ p₁ req₂ p₂ hc₁' hc₂' hsame
    · obtain rfl := List.mem_singleton.1 hm₂
      obtain ⟨rfl, -⟩ : req = req₂ ∧ phase' = p₂ := by simpa using hself.symm.trans hc₂
      exact absurd hsame (hkey c₁ hm₁ req₁ p₁ hc₁)
    · obtain rfl := List.mem_singleton.1 hm₁
      obtain ⟨rfl, -⟩ : req = req₁ ∧ phase' = p₁ := by simpa using hself.symm.trans hc₁
      exact absurd ⟨hsame.1.symm, hsame.2.symm⟩ (hkey c₂ hm₂ req₂ p₂ hc₂)
    · rw [List.mem_singleton.1 hm₁, List.mem_singleton.1 hm₂]
  · rw [heff]
    exact List.nodup_append.2 ⟨h.nodup, List.nodup_singleton c, fun a ha b hb =>
      List.mem_singleton.1 hb ▸ hne a ha⟩
  · by_cases heq : c' = c
    · subst heq
      obtain ⟨rfl, rfl⟩ : req = req' ∧ phase' = phase₀ := by simpa using hself.symm.trans hc'
      cases phase' with
      | committed =>
        show c' ∈ effects (ls ++ [.effect c' lost])
        rw [heff]
        exact List.mem_append_right _ (List.mem_singleton_self c')
      | resolve =>
        cases hphase
        exact fun _ => List.mem_append_right _ (List.mem_singleton_self _)
      | _ => cases hphase
    · have hc₀ : s.calls c' = some ⟨req', phase₀⟩ := (State.go_calls_ne heq).symm.trans hc'
      refine (h.fits c' req' phase₀ hc₀).mono ?_ hsub fun op hop => (hfind req' op hop).2
      rw [heff, List.mem_append, List.mem_singleton, or_iff_left heq]
  · rcases List.mem_append.1 hmem with hmem | hmem
    · obtain ⟨req', hc'⟩ := h.returned c' result hmem
      have hne' : c' ≠ c := by
        rintro rfl
        rw [hcall] at hc'
        cases hc'
      exact ⟨req', hold c' req' _ hc' hne'⟩
    · cases List.mem_singleton.1 hmem

end Once

namespace Once

def Before (phase : Phase) : Prop :=
  match phase with
  | .resolve _ | .view _ _ | .committed _ _ | .returned _ => False
  | _ => True

theorem lost_of (h : Once sha256 collate ls s) (hcall : s.calls c = some ⟨req, phase⟩)
    (hphase : Before phase) : c ∈ effects ls → Label.effect c true ∈ ls := fun hc => by
  have hfits := h.fits c req phase hcall
  cases phase <;> first | exact absurd hc hfits | cases hphase

theorem skip (h : Once sha256 collate ls s) : Once sha256 collate (ls ++ [.silent])
    { s with db := { s.db with nextGroup := s.db.nextGroup + 1 } } := by
  have heff : effects (ls ++ [.silent]) = effects ls := by
    simp [effects]
  refine ⟨heff ▸ h.took, heff ▸ h.record, heff ▸ h.unique, heff ▸ h.nodup, ?_, ?_⟩
  · intro c req phase hcall
    refine (h.fits c req phase hcall).mono (by rw [heff]) (fun l hl => ?_) fun op hop => hop
    exact List.mem_append_left _ hl
  · intro c result hmem
    rcases List.mem_append.1 hmem with hmem | hmem
    · exact h.returned c result hmem
    · cases List.mem_singleton.1 hmem

theorem step [DecidableEq κ] (h : Once sha256 collate ls s) (hheld : Held collate s)
    (hs : Step sha256 collate s l s') : Once sha256 collate (ls ++ [l]) s' := by
  cases hs with
  | @arrive c req hcall _ =>
    refine h.go rfl rfl (.inl hcall) (.inl rfl) (fun hc => ?_)
    obtain ⟨req', phase', -, hc', -⟩ := h.took c hc
    rw [hcall] at hc'
    cases hc'
  | @refuse c req f hcall _ =>
    refine h.go rfl rfl (.inl hcall) (.inr ⟨_, rfl, rfl⟩) (fun hc => ?_)
    obtain ⟨req', phase', -, hc', -⟩ := h.took c hc
    rw [hcall] at hc'
    cases hc'
  | skipId => exact h.skip
  | @fault c req phase recovery f hcall hfaults _ =>
    have hended : phase.ended = false := by cases phase <;> first | rfl | cases hfaults
    have hlost : c ∈ effects ls → Label.effect c true ∈ ls := by
      cases phase with
      | resolve => exact h.fits c req _ hcall
      | view => exact (h.fits c req _ hcall).1
      | precheck | begin | lock | check | insertOutbox => exact h.lost_of hcall trivial
      | _ => cases hfaults
    exact h.go rfl rfl (.inr ⟨_, hcall, hended⟩) (.inr ⟨_, rfl, rfl⟩) hlost
  | precheckFound hcall _ =>
    exact h.go rfl rfl (.inr ⟨_, hcall, rfl⟩) (.inl rfl) (h.lost_of hcall trivial)
  | precheckNone hcall _ _ _ =>
    exact h.go rfl rfl (.inr ⟨_, hcall, rfl⟩) (.inl rfl) (h.fits _ _ _ hcall :)
  | resolveMissing hcall _ =>
    exact h.go rfl rfl (.inr ⟨_, hcall, rfl⟩) (.inr ⟨_, rfl, rfl⟩) (h.fits _ _ _ hcall :)
  | resolveConflict hcall hop hmatch hresult =>
    subst hresult
    exact h.go rfl rfl (.inr ⟨_, hcall, rfl⟩) (.inr ⟨_, rfl, rfl⟩) ⟨_, hop, iff_false_intro hmatch⟩
  | resolveMatch hcall hop hmatch =>
    exact h.go rfl rfl (.inr ⟨_, hcall, rfl⟩) (.inl rfl)
      ⟨h.fits _ _ _ hcall, _, hop, iff_true_intro hmatch⟩
  | viewMissing hcall _ _ =>
    exact h.go rfl rfl (.inr ⟨_, hcall, rfl⟩) (.inr ⟨_, rfl, rfl⟩) (h.fits _ _ _ hcall).1
  | view hcall _ _ hresult =>
    subst hresult
    exact h.go rfl rfl (.inr ⟨_, hcall, rfl⟩) (.inr ⟨_, rfl, rfl⟩) (h.fits _ _ _ hcall :)
  | @begin c req hcall =>
    refine h.go rfl rfl (.inr ⟨_, hcall, rfl⟩) (.inl rfl) ?_
    cases req.command.groupId <;> exact (h.fits _ _ _ hcall :)
  | lockMissing hcall _ _ =>
    exact h.go rfl rfl (.inr ⟨_, hcall, rfl⟩) (.inr ⟨_, rfl, rfl⟩) (h.lost_of hcall trivial)
  | lock hcall _ _ _ _ =>
    exact h.go rfl rfl (.inr ⟨_, hcall, rfl⟩) (.inl rfl) (h.fits _ _ _ hcall :)
  | checkFound hcall _ =>
    exact h.go rfl rfl (.inr ⟨_, hcall, rfl⟩) (.inl rfl) (h.lost_of hcall trivial)
  | checkNone hcall _ =>
    exact h.go rfl rfl (.inr ⟨_, hcall, rfl⟩) (.inl rfl) (h.fits _ _ _ hcall :)
  | reject hcall _ =>
    exact h.go rfl rfl (.inr ⟨_, hcall, rfl⟩) (.inr ⟨_, rfl, rfl⟩) (h.lost_of hcall trivial)
  | create hcall _ =>
    exact h.go rfl rfl (.inr ⟨_, hcall, rfl⟩) (.inl rfl) (h.fits _ _ _ hcall :)
  | change hcall _ _ =>
    exact h.go rfl rfl (.inr ⟨_, hcall, rfl⟩) (.inl rfl) (h.fits _ _ _ hcall :)
  | insertOutbox hcall _ =>
    exact h.go rfl rfl (.inr ⟨_, hcall, rfl⟩) (.inl rfl) (h.fits _ _ _ hcall :)
  | insertOperation hcall _ _ =>
    exact h.go rfl rfl (.inr ⟨_, hcall, rfl⟩) (.inl rfl) (h.fits _ _ _ hcall :)
  | insertOperationFailed hcall _ =>
    exact h.go rfl rfl (.inr ⟨_, hcall, rfl⟩) (.inl rfl) (h.lost_of hcall trivial)
  | commit hcall => exact h.commit hcall ((hheld.okay _ _ _ hcall).key _ _ rfl).1 trivial
  | commitLost hcall => exact h.commit hcall ((hheld.okay _ _ _ hcall).key _ _ rfl).1 rfl
  | commitFailed hcall =>
    exact h.go rfl rfl (.inr ⟨_, hcall, rfl⟩) (.inl rfl) (h.lost_of hcall trivial)
  | applied hcall hresult =>
    subst hresult
    exact h.go rfl rfl (.inr ⟨_, hcall, rfl⟩) (.inr ⟨_, rfl, rfl⟩) (h.fits _ _ _ hcall :)

end Once

theorem Once.run [DecidableEq κ] (hrun : Run (Step sha256 collate) .initial ls s) :
    Once sha256 collate ls s := by
  have hall := hrun.history (I := fun ls s => Held collate s ∧ Once sha256 collate ls s)
    (fun ls s l s' h hs => ⟨h.1.step hs, h.2.step h.1 hs⟩) ⟨.init, .init⟩
  exact hall.2

/-! ## What a call returns -/

theorem matches_iff_of_matches {op : Operation δ} {req' : Request}
    (hsha : Function.Injective sha256)
    (hactor : req'.actor = req.actor) (h : op.matches sha256 req') :
    op.matches sha256 req ↔ req.command = req'.command := by
  constructor
  · intro hop
    exact canonical_injective (hop.1.symm.trans h.1) (hsha (hop.2.symm.trans h.2))
  · intro hcommand
    have hcanonical : req.canonical = req'.canonical := by
      simp only [Request.canonical, hcommand, hactor]
    exact ⟨by rw [h.1, hcommand], by rw [h.2, hcanonical]⟩

/-- What the result of the call `c` says about the calls that took effect. -/
def Answers (collate : Bytes → κ) (ls : List Label) (s : State δ κ) (c : ℕ) (req : Request) :
    Result → Prop
  | .failed _ => c ∈ effects ls → .effect c true ∈ ls
  | .succeeded outcome _ _ => ∃ c' ∈ effects ls, ∃ req' phase', s.calls c' = some ⟨req', phase'⟩ ∧
    SameKey collate req req' ∧
    (c' = c → outcome = .applied ∨ outcome = .reused ∧ .effect c true ∈ ls) ∧
    (c' ≠ c → c ∉ effects ls ∧ (req.command = req'.command → outcome = .reused) ∧
      (req.command ≠ req'.command → outcome = .idempotencyConflict))

theorem Once.found {same : Prop} (h : Once sha256 collate ls s) (hsha : Function.Injective sha256)
    (hfound : Found sha256 collate s req same) :
    ∃ c' ∈ effects ls, ∃ req' phase', s.calls c' = some ⟨req', phase'⟩ ∧
      SameKey collate req req' ∧ (req.command = req'.command ↔ same) := by
  obtain ⟨op, hop, hsame⟩ := hfound
  obtain ⟨c', hc', req', phase', hcall', hkey, hmatch⟩ := h.record req op hop
  exact ⟨c', hc', req', phase', hcall', hkey,
    (matches_iff_of_matches hsha hkey.1 hmatch).symm.trans hsame⟩

theorem Once.answers (h : Once sha256 collate ls s) (hsha : Function.Injective sha256)
    {result : Result} (hcall : s.calls c = some ⟨req, .returned result⟩) :
    Answers collate ls s c req result := by
  have hfits := h.fits c req _ hcall
  have hother : ∀ c' ∈ effects ls, ∀ req' phase', s.calls c' = some ⟨req', phase'⟩ →
      SameKey collate req req' → c' ≠ c → c ∉ effects ls :=
    fun c' hc' req' phase' hcall' hkey hne hc =>
      hne (h.unique c hc c' hc' req _ req' phase' hcall hcall' hkey).symm
  cases result with
  | failed => exact hfits
  | succeeded outcome =>
    cases outcome with
    | applied =>
      exact ⟨c, hfits, req, _, hcall, ⟨rfl, rfl⟩, fun _ => .inl rfl, fun hne => absurd rfl hne⟩
    | reused =>
      obtain ⟨hlost, hfound⟩ := hfits
      obtain ⟨c', hc', req', phase', hcall', hkey, hsame⟩ := h.found hsha hfound
      refine ⟨c', hc', req', phase', hcall', hkey, fun heq => .inr ⟨rfl, hlost (heq ▸ hc')⟩,
        fun hne => ⟨hother c' hc' req' phase' hcall' hkey hne, fun _ => rfl, fun hdiff => ?_⟩⟩
      exact absurd (hsame.2 trivial) hdiff
    | idempotencyConflict =>
      obtain ⟨c', hc', req', phase', hcall', hkey, hsame⟩ := h.found hsha hfits
      refine ⟨c', hc', req', phase', hcall', hkey, fun heq => ?_,
        fun hne => ⟨hother c' hc' req' phase' hcall' hkey hne, fun heq => ?_, fun _ => rfl⟩⟩
      · grind
      · exact (hsame.1 heq).elim

/-- Whatever calls are made, with whatever commits that lose their replies, at most one call of an
actor and an operation id takes effect.  Its effect writes the rows of the group, one event and the
one row of its key, and no other step writes anything.  Every other call of the key that succeeds
has no effect, and returns that the operation was reused when its command is the same and a conflict
when it is not; and a call that fails has had no effect unless its commit lost the reply. -/
theorem group_idempotency [DecidableEq κ] (hsha : Function.Injective sha256)
    (hrun : Run (Step sha256 collate) .initial ls s) :
    (effects ls).Nodup ∧
    (∀ c ∈ effects ls, ∀ c' ∈ effects ls, ∀ req phase req' phase', s.calls c = some ⟨req, phase⟩ →
      s.calls c' = some ⟨req', phase'⟩ → SameKey collate req req' → c = c') ∧
    (∀ c result, .returned c result ∈ ls → ∃ req, s.calls c = some ⟨req, .returned result⟩ ∧
      Answers collate ls s c req result) ∧
    ∀ l s', Step sha256 collate s l s' →
      (s'.db.groups = s.db.groups ∧ s'.db.operations = s.db.operations ∧
        s'.db.outbox = s.db.outbox ∧ ∀ c lost, l ≠ .effect c lost) ∨
      ∃ c lost req g p, l = .effect c lost ∧ c ∉ effects ls ∧ Effective s c req g p ∧
        s.db.find collate req = none ∧ s'.db = s.db.commit sha256 collate req g p := by
  have h := Once.run hrun
  refine ⟨h.nodup, h.unique, fun c result hmem => ?_, fun l s' hs => ?_⟩
  · obtain ⟨req, hcall⟩ := h.returned c result hmem
    exact ⟨req, hcall, h.answers hsha hcall⟩
  · rcases step_effect (Held.run hrun) hs with hstay | ⟨c, lost, req, g, p, hl, heff, hdb, hnone⟩
    · exact .inl hstay
    · exact .inr ⟨c, lost, req, g, p, hl, h.fits c req _ heff.call, heff, hnone, hdb⟩

/-! ## A commit whose reply is lost -/

def otherRequest : Request := { soleRequest with command := .joinGroup 1 }

theorem retry_run : ∃ ls s, Run (Step (id : Bytes → Bytes) (id : Bytes → Bytes)) .initial ls s ∧
    effects ls = [0] ∧
    (∃ group message, .returned 1 (.succeeded .reused group message) ∈ ls) ∧
    ∃ group message, .returned 2 (.succeeded .idempotencyConflict group message) ∈ ls := by
  have h : Run (Step (id : Bytes → Bytes) (id : Bytes → Bytes)) .initial [] .initial := .nil _
  have h := h.snoc (.arrive (c := 0) rfl (show soleRequest.valid = .ok () from rfl))
  have h := h.snoc (.precheckNone (c := 0) (show _ = some (Call.mk soleRequest .precheck) from rfl)
    (by decide) (by decide) rfl)
  have h := h.snoc (.begin (c := 0) (show _ = some (Call.mk soleRequest .begin) from rfl))
  have h := h.snoc (.create (c := 0) (e := ⟨fun _ => none, fun _ => true, 0⟩) (p := solePrepared)
    (show _ = some (Call.mk soleRequest (.work none)) from rfl) rfl)
  have h := h.snoc (.insertOutbox (c := 0)
    (show _ = some (Call.mk soleRequest (.insertOutbox 1 solePrepared)) from rfl)
    (fun _ hevent => by cases hevent))
  have h := h.snoc (.insertOperation (c := 0)
    (show _ = some (Call.mk soleRequest (.insertOperation 1 solePrepared)) from rfl) rfl
    (fun c' req' g' p' hcall => by
      by_cases hc : c' = 0
      · subst hc
        cases hcall
      · simp [State.go, State.initial, Function.update_of_ne hc] at hcall))
  have h := h.snoc (@Step.commitLost _ _ _ id id _ 0 soleRequest 1 solePrepared "" rfl)
  have h := h.snoc (.arrive (c := 1) rfl (show soleRequest.valid = .ok () from rfl))
  have h := h.snoc (.precheckFound (c := 1) (show _ = some (Call.mk soleRequest .precheck) from rfl)
    (show _ = some (soleRequest.operation id 1 solePrepared) from rfl))
  have h := h.snoc (.resolveMatch (c := 1)
    (show _ = some (Call.mk soleRequest (.resolve .direct)) from rfl)
    (show _ = some (soleRequest.operation id 1 solePrepared) from rfl) ⟨rfl, rfl⟩)
  have h := h.snoc (.view (c := 1) (show _ = some (Call.mk soleRequest (.view .direct 1)) from rfl)
    (show _ = some soleRows from rfl) rfl rfl)
  have h := h.snoc (.arrive (c := 2) rfl (show otherRequest.valid = .ok () from rfl))
  have h := h.snoc (.precheckFound (c := 2)
      (show _ = some (Call.mk otherRequest .precheck) from rfl)
    (show _ = some (soleRequest.operation id 1 solePrepared) from rfl))
  have h := h.snoc (.resolveConflict (c := 2)
    (show _ = some (Call.mk otherRequest (.resolve .direct)) from rfl)
    (show _ = some (soleRequest.operation id 1 solePrepared) from rfl)
    (fun hmatch => absurd hmatch.1 (by decide)) rfl)
  exact ⟨_, _, h, rfl, ⟨_, _, by simp; exact ⟨rfl, rfl⟩⟩, _, _, by simp; exact ⟨rfl, rfl⟩⟩

theorem group_idempotency_retry : ∃ ls s, Run (Step (id : Bytes → Bytes) (id : Bytes → Bytes))
    .initial ls s ∧ effects ls = [0] ∧
    (∃ req group message, s.calls 1 = some ⟨req, .returned (.succeeded .reused group message)⟩) ∧
    ∃ req result, s.calls 2 = some ⟨req, .returned result⟩ ∧ Answers id ls s 2 req result := by
  obtain ⟨ls, s, hrun, heff, ⟨group, message, hreused⟩, group', message', hconflict⟩ := retry_run
  obtain ⟨-, -, hanswers, -⟩ := group_idempotency Function.injective_id hrun
  obtain ⟨req, hcall, -⟩ := hanswers 1 _ hreused
  obtain ⟨req', hcall', hanswer'⟩ := hanswers 2 _ hconflict
  exact ⟨ls, s, hrun, heff, ⟨req, group, message, hcall⟩, req', _, hcall', hanswer'⟩

end TinyImx.Group
