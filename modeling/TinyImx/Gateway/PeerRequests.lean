import TinyImx.Gateway.PeerControl

/-!
# Every request is completed once

The ledger of a transport keeps its invariant in every run, and so does the code that is still to run.
-/

namespace TinyImx.Gateway.PeerTransport

open Net Protocol

variable {ρ : Type} {w : Wire ρ} {s s' : State ρ} {label : Label}

theorem inv_started : (State.started : State ρ).ledger.Inv :=
  ⟨Multiset.nodup_zero, fun _ h => absurd h (Multiset.notMem_zero _), Multiset.nodup_zero,
    fun _ h => absurd h (Multiset.notMem_zero _), fun _ h => absurd h (Multiset.notMem_zero _),
    Multiset.nodup_zero, fun _ h => absurd h (Multiset.notMem_zero _),
    fun _ _ _ h => absurd h List.not_mem_nil, fun _ _ _ h => absurd h List.not_mem_nil,
    fun _ h => absurd h List.not_mem_nil, List.nodup_nil, fun _ h => absurd h List.not_mem_nil⟩

theorem control_started : Control (State.started : State ρ) := by
  refine ⟨.inl rfl, trivial, fun before after h => ?_, fun h => ?_, fun h => ?_, ?_⟩
  · cases before <;> cases h
  · cases h
  · exact absurd h (Nat.lt_irrefl 0)
  · exact (by decide : (1 : UInt32) ≠ 0)

variable {ls : List Label}

theorem inv_of_run (hrun : Run (Step w) .started ls s) : s.ledger.Inv ∧ Control s :=
  Run.invariant (I := fun s => s.ledger.Inv ∧ Control s)
    (fun _ _ _ h hs => ⟨h.1.move (hs.move h.1), hs.control h.2⟩) hrun ⟨inv_started, control_started⟩

theorem used_of_takeSequence (h : s.nextSequence ≠ 0) (hzero : s.takeSequence.1 = 0) {n : UInt32}
    (hn : n ≠ 0) : s.used n = true := by
  have hloop : s.takeSequence.1 = (nextSequenceLoop s.used maxAttempts s.nextSequence).1 := rfl
  rw [hloop] at hzero
  obtain ⟨i, hi, rfl⟩ := exists_candidate h hn
  exact nextSequenceLoop_used h hzero i hi

def sampleWire : Wire Unit := ⟨64, fun _ => .ok [1], fun _ _ => .ok ()⟩

def sampleTimer : Timer := ⟨0, .group, 1, 0⟩

def sampleLabels : List Label :=
  [.loop (.connection true), .back, .exec (.flushQueued .chat) ⟨true, true, []⟩,
    .exec (.flushEach []) ⟨true, true, []⟩, .exec (.flushQueued .group) ⟨true, true, []⟩,
    .exec (.flushEach []) ⟨true, true, []⟩, .loop (.forward (.group 7 9) true),
    .exec (.forwardInLoop ⟨0, .group 7 9, true⟩) ⟨true, true, []⟩, .back,
    .loop (.timeout sampleTimer), .back]

end TinyImx.Gateway.PeerTransport
