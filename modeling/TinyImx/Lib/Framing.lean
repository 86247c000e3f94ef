import Mathlib.Data.List.Basic

/-!
# Framing of a stream

A framing reads one frame off the front of a stream: it needs more data, the stream is bad, or there
is a frame of some length.  More data never takes back a frame or an error.  Then reading all frames
at once and reading them as the stream arrives in chunks give the same, however it is cut.
-/

variable {α β ε : Type}

inductive Frame (β ε : Type) where
  | more
  | bad (error : ε)
  | frame (value : β) (length : ℕ)

structure Framing (α β ε : Type) where
  parse : List α → Frame β ε
  parse_nil : parse [] = .more
  length_pos : ∀ {xs v n}, parse xs = .frame v n → 0 < n ∧ n ≤ xs.length
  frame_append : ∀ {xs v n} (ys : List α), parse xs = .frame v n → parse (xs ++ ys) = .frame v n
  bad_append : ∀ {xs e} (ys : List α), parse xs = .bad e → parse (xs ++ ys) = .bad e

namespace Framing

variable (F : Framing α β ε)

/-- All frames at the front of the stream, the error that ended them, and what is left. -/
def drain (xs : List α) : List β × Option ε × List α :=
  match _h : F.parse xs with
  | .more => ([], none, xs)
  | .bad e => ([], some e, xs)
  | .frame v n => (drain (xs.drop n)).map (v :: ·) id
  termination_by xs.length
  decreasing_by
    have := F.length_pos _h
    rw [List.length_drop]
    omega

variable {F} {xs rest : List α} {v : β} {e : ε} {n : ℕ}

theorem drain_of_more (h : F.parse xs = .more) : F.drain xs = ([], none, xs) := by
  rw [drain]
  grind

theorem drain_of_bad (h : F.parse xs = .bad e) : F.drain xs = ([], some e, xs) := by
  rw [drain]
  grind

theorem drain_of_frame (h : F.parse xs = .frame v n) :
    F.drain xs = (v :: (F.drain (xs.drop n)).1, (F.drain (xs.drop n)).2) := by
  rw [drain]
  grind

theorem drain_append (xs ys : List α) :
    F.drain (xs ++ ys) =
      ((F.drain xs).1 ++ (F.drain ((F.drain xs).2.2 ++ ys)).1, (F.drain ((F.drain xs).2.2 ++ ys)).2) := by
  induction xs using drain.induct F with
  | case1 xs hmore =>
    rw [drain_of_more hmore]
    rfl
  | case2 xs e hbad =>
    rw [drain_of_bad hbad]
    rfl
  | case3 xs v n hframe ih =>
    rw [drain_of_frame hframe, drain_of_frame (F.frame_append ys hframe),
      List.drop_append_of_le_length (F.length_pos hframe).2, ih]
    rfl

theorem parse_rest (xs : List α) : F.parse (F.drain xs).2.2 = match (F.drain xs).2.1 with
    | none => .more
    | some e => .bad e := by
  induction xs using drain.induct F with
  | case1 xs hmore =>
    rw [drain_of_more hmore]
    exact hmore
  | case2 xs e hbad =>
    rw [drain_of_bad hbad]
    exact hbad
  | case3 xs v n hframe ih =>
    rw [drain_of_frame hframe]
    exact ih

theorem drain_of_prefix {xs ys : List α} (h : xs <+: ys) (hok : (F.drain ys).2.1 = none) :
    (F.drain xs).1 <+: (F.drain ys).1 ∧ (F.drain xs).2.1 = none := by
  obtain ⟨zs, rfl⟩ := h
  rw [drain_append] at hok ⊢
  refine ⟨List.prefix_append _ _, ?_⟩
  have hrest := F.parse_rest xs
  cases he : (F.drain xs).2.1 with
  | none => rfl
  | some e =>
    rw [he] at hrest
    rw [drain_of_bad (F.bad_append zs hrest)] at hok
    cases hok

theorem drain_flatMap {encode : β → List α} {vs : List β} (h : ∀ v ∈ vs, ∀ ys,
    F.parse (encode v ++ ys) = .frame v (encode v).length) (ys : List α) :
    F.drain (vs.flatMap encode ++ ys) = (vs ++ (F.drain ys).1, (F.drain ys).2) := by
  induction vs with
  | nil => rfl
  | cons v vs ih =>
    have hframe := h v List.mem_cons_self (vs.flatMap encode ++ ys)
    rw [List.flatMap_cons, List.append_assoc, drain_of_frame hframe, List.drop_left,
      ih fun w hw => h w (List.mem_cons_of_mem v hw)]
    rfl

theorem drain_pieces (xs : List α) : ∃ pieces, xs = pieces.flatten ++ (F.drain xs).2.2 ∧
    List.Forall₂ (fun piece v => ∃ ys, F.parse (piece ++ ys) = .frame v piece.length) pieces
      (F.drain xs).1 := by
  induction xs using drain.induct F with
  | case1 xs hmore =>
    rw [drain_of_more hmore]
    exact ⟨[], rfl, .nil⟩
  | case2 xs e hbad =>
    rw [drain_of_bad hbad]
    exact ⟨[], rfl, .nil⟩
  | case3 xs v n hframe ih =>
    obtain ⟨pieces, hxs, hpieces⟩ := ih
    have hlength : (xs.take n).length = n := List.length_take_of_le (F.length_pos hframe).2
    rw [drain_of_frame hframe]
    refine ⟨xs.take n :: pieces, ?_, .cons ⟨xs.drop n, ?_⟩ hpieces⟩
    · rw [List.flatten_cons, List.append_assoc, ← hxs, List.take_append_drop]
    · rw [List.take_append_drop, hframe, hlength]

/-! ## Chunks -/

def feed (F : Framing α β ε) : List α → List (List α) → List (List β × Option ε) × List α
  | rest, [] => ([], rest)
  | rest, chunk :: chunks =>
    let (vs, e, rest') := F.drain (rest ++ chunk)
    let (results, rest'') := feed F rest' chunks
    ((vs, e) :: results, rest'')

def upToError : List (List β × Option ε) → List β × Option ε
  | [] => ([], none)
  | (vs, some e) :: _ => (vs, some e)
  | (vs, none) :: results => (vs ++ (upToError results).1, (upToError results).2)

theorem feed_cons (rest chunk : List α) (chunks : List (List α)) :
    F.feed rest (chunk :: chunks) =
      (((F.drain (rest ++ chunk)).1, (F.drain (rest ++ chunk)).2.1) ::
        (F.feed (F.drain (rest ++ chunk)).2.2 chunks).1,
        (F.feed (F.drain (rest ++ chunk)).2.2 chunks).2) := rfl

theorem feed_of_bad (h : F.parse rest = .bad e) (chunks : List (List α)) :
    F.feed rest chunks = (chunks.map fun _ => ([], some e), rest ++ chunks.flatten) := by
  induction chunks generalizing rest with
  | nil => simp [feed]
  | cons chunk chunks ih =>
    have hbad := F.bad_append chunk h
    rw [feed_cons, drain_of_bad hbad, ih hbad]
    simp

theorem error_stays (chunks : List (List α)) (rest : List α) :
    (F.feed rest chunks).1.Pairwise fun r r' => ∀ e, r.2 = some e → r' = ([], some e) := by
  induction chunks generalizing rest with
  | nil => exact .nil
  | cons chunk chunks ih =>
    rw [feed_cons, List.pairwise_cons]
    refine ⟨fun r hr e he => ?_, ih _⟩
    have hbad : F.parse (F.drain (rest ++ chunk)).2.2 = .bad e := by
      have hrest := parse_rest (F := F) (rest ++ chunk)
      rwa [show (F.drain (rest ++ chunk)).2.1 = some e from he] at hrest
    rw [feed_of_bad hbad] at hr
    simp_all

theorem feed_eq_drain (chunks : List (List α)) {rest : List α} (h : F.parse rest = .more) :
    upToError (F.feed rest chunks).1 =
        ((F.drain (rest ++ chunks.flatten)).1, (F.drain (rest ++ chunks.flatten)).2.1) ∧
      (F.feed rest chunks).2 = (F.drain (rest ++ chunks.flatten)).2.2 := by
  induction chunks generalizing rest with
  | nil =>
    rw [List.flatten_nil, List.append_nil, drain_of_more h]
    exact ⟨rfl, rfl⟩
  | cons chunk chunks ih =>
    have hrest := parse_rest (F := F) (rest ++ chunk)
    rw [feed_cons, List.flatten_cons, ← List.append_assoc, drain_append (rest ++ chunk)]
    cases he : (F.drain (rest ++ chunk)).2.1 with
    | none =>
      rw [he] at hrest
      obtain ⟨hup, hleft⟩ := ih hrest
      rw [hleft]
      exact ⟨by rw [upToError, hup], rfl⟩
    | some e =>
      rw [he] at hrest
      rw [feed_of_bad hrest, drain_of_bad (F.bad_append _ hrest)]
      exact ⟨by rw [upToError, List.append_nil], rfl⟩

end Framing
