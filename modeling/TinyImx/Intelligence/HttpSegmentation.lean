import TinyImx.Intelligence.HttpResponse

/-!
# Parsing does not depend on the segmentation

What `Parse` finds complete or wrong in some bytes it finds in all longer ones, and a state in which
more is needed is the one that `Parse` reaches from the bytes in one piece.  Two limits are tested on
what has arrived: the overall one on each call, and that of the header, which a header that ends in
the last bytes of it passes only if it comes at once.
-/

namespace TinyImx.Intelligence

open Local (Bytes ascii)

/-! ## Longer bytes -/

variable {b x value result : Bytes} {offset length pos : ℕ}

theorem copy_append {r : Except Fault Bytes} (h : copy value b offset length = r)
    (hr : r ≠ .error .outOfBounds) : copy value (b ++ x) offset length = r := by
  unfold copy at h ⊢
  split at h
  · next hlong =>
    rw [if_pos hlong]
    exact h
  · next hlong =>
    rw [if_neg hlong]
    grind

theorem copy_outOfBounds (h : copy value b offset length = .error .outOfBounds)
    (hlen : (b ++ x).length < offset + length) :
    copy value (b ++ x) offset length = .error .outOfBounds := by
  unfold copy at h ⊢
  split at h
  · cases h
  · next hlong => rw [if_neg hlong, if_pos hlen]

theorem lt_of_outOfBounds (h : copy value b offset length = .error .outOfBounds) :
    b.length < offset + length := by
  unfold copy at h
  split at h
  · cases h
  split at h
  · assumption
  · cases h

theorem copy_append_of_mod (hlen : (b ++ x).length ≤ maxSize) {extra : ℕ}
    (henough : (offset + length + extra) % 2 ^ 64 ≤ b.length) (hextra : extra ≤ 2)
    {r : Except Fault Bytes} (h : copy value b offset length = r) :
    copy value (b ++ x) offset length = r := by
  by_cases hr : r = .error .outOfBounds
  · subst hr
    refine copy_outOfBounds h ?_
    have hlt := lt_of_outOfBounds h
    have hmax : maxSize = 2 ^ 63 - 1 := rfl
    grind
  · exact copy_append h hr

theorem take_drop_append {n : ℕ} (h : pos + n ≤ b.length) :
    ((b ++ x).drop pos).take n = (b.drop pos).take n := by
  rw [List.drop_append_of_le_length (by omega), List.take_append_of_le_length]
  rw [List.length_drop]
  omega

namespace HttpResponseParser

variable {maxBodyBytes : UInt64} {decoded : Bytes}

theorem lastChunk_append (h : lastChunk b pos decoded ≠ .more) :
    lastChunk (b ++ x) pos decoded = lastChunk b pos decoded := by
  unfold lastChunk at h ⊢
  split at h
  · exact absurd rfl h
  next hlen =>
  rw [if_neg (by rw [List.length_append]; omega), if_neg hlen, take_drop_append (by omega)]
  split
  · rfl
  next hne =>
  rw [if_neg hne] at h
  cases hfind : Search.findFrom blankLine b pos with
  | none => exact absurd (by rw [hfind]) h
  | some trailerEnd => rw [Search.findFrom_append (by decide) hfind]

theorem machine_add (m n : ℕ) : machine.add m n = .ok ((m + n) % 2 ^ 64) := by
  rw [machine]

theorem machine_sub (m n : ℕ) : machine.sub m n = .ok ((m + 2 ^ 64 - n) % 2 ^ 64) := by
  rw [machine]

theorem chunkData_machine (size : UInt64) :
    chunkData machine maxBodyBytes b pos decoded size =
      if (maxBodyBytes.toNat + 2 ^ 64 - decoded.length) % 2 ^ 64 < size.toNat then
        .ok (.failed (ascii "HTTP response body exceeds configured limit"))
      else if b.length < (pos + size.toNat + 2) % 2 ^ 64 then .ok .more
      else copy decoded b pos size.toNat >>= fun decoded =>
        if (b.drop (pos + size.toNat)).take 2 ≠ crlf then
          .ok (.failed (ascii "malformed HTTP chunk terminator"))
        else .ok (.next (pos + size.toNat + 2) decoded) := by
  unfold chunkData
  rw [machine_sub, ok_bind]
  simp only [machine_add, ok_bind, Nat.mod_add_mod, pure, Except.pure]

theorem chunkData_append (hlen : (b ++ x).length ≤ maxSize) {size : UInt64}
    (h : chunkData machine maxBodyBytes b pos decoded size ≠ .ok .more) :
    chunkData machine maxBodyBytes (b ++ x) pos decoded size =
      chunkData machine maxBodyBytes b pos decoded size := by
  rw [chunkData_machine] at h
  rw [chunkData_machine, chunkData_machine]
  split
  · rfl
  next hroom =>
  rw [if_neg hroom] at h
  by_cases hmore : b.length < (pos + size.toNat + 2) % 2 ^ 64
  · rw [if_pos hmore] at h
    exact absurd rfl h
  rw [if_neg hmore, if_neg (by rw [List.length_append]; omega)]
  rw [copy_append_of_mod hlen (Nat.not_lt.1 hmore) le_rfl rfl]
  cases hcopy : copy decoded b pos size.toNat with
  | error fault => rfl
  | ok decoded' =>
    obtain ⟨-, hin, -⟩ := copy_eq_ok.1 hcopy
    have hmax : maxSize = 2 ^ 63 - 1 := rfl
    rw [List.length_append] at hlen
    rw [Nat.mod_eq_of_lt (by omega)] at hmore
    rw [ok_bind, ok_bind, take_drop_append (by omega)]

theorem chunkStep_append (hlen : (b ++ x).length ≤ maxSize)
    (h : chunkStep machine maxBodyBytes b pos decoded ≠ .ok .more) :
    chunkStep machine maxBodyBytes (b ++ x) pos decoded =
      chunkStep machine maxBodyBytes b pos decoded := by
  unfold chunkStep at h ⊢
  cases hfind : Search.findFrom crlf b pos with
  | none => exact absurd (by rw [hfind]) h
  | some lineEnd =>
    have hle := Search.length_le_of_findFrom (by decide) hfind
    rw [Search.findFrom_append (by decide) hfind]
    simp only [hfind] at h ⊢
    rw [take_drop_append (by omega)]
    cases hsize : chunkSize ((b.drop pos).take (lineEnd - pos)) with
    | error error => rfl
    | ok size =>
      simp only [hsize] at h ⊢
      split
      · next hzero =>
        rw [if_pos hzero] at h
        rw [lastChunk_append fun hmore => h (by rw [hmore])]
      · next hzero =>
        rw [if_neg hzero] at h
        exact chunkData_append hlen h

theorem chunkLoop_append (hlen : (b ++ x).length ≤ maxSize) {rounds rounds' : ℕ}
    (hrounds : rounds ≤ rounds')
    (hnone : chunkLoop machine maxBodyBytes b rounds pos decoded ≠ .ok none)
    (hmore : chunkLoop machine maxBodyBytes b rounds pos decoded ≠ .ok (some .more)) :
    chunkLoop machine maxBodyBytes (b ++ x) rounds' pos decoded =
      chunkLoop machine maxBodyBytes b rounds pos decoded := by
  induction rounds generalizing rounds' pos decoded with
  | zero => exact absurd rfl hnone
  | succ rounds ih =>
    obtain ⟨rounds', rfl⟩ : ∃ n, rounds' = n + 1 := ⟨rounds' - 1, by omega⟩
    cases hcase : chunkStep machine maxBodyBytes b pos decoded with
    | error fault =>
      have hlonger := chunkStep_append hlen (by rw [hcase]; simp)
      rw [chunkLoop_error hcase, chunkLoop_error (hlonger.trans hcase)]
    | ok step =>
      have hstep : step ≠ .more := by
        rintro rfl
        exact hmore (chunkLoop_stop hcase (by simp))
      have hlonger := chunkStep_append hlen (by rw [hcase]; simpa using hstep)
      cases step with
      | next pos' decoded' =>
        rw [chunkLoop_next hcase] at hnone hmore ⊢
        rw [chunkLoop_next (hlonger.trans hcase)]
        exact ih (by omega) hnone hmore
      | more | failed _ | done _ _ =>
        rw [chunkLoop_stop hcase (by simp), chunkLoop_stop (hlonger.trans hcase) (by simp)]

/-! ## The body -/

variable {p q : HttpResponseParser}

def holding (p : HttpResponseParser) (b : Bytes) : HttpResponseParser := { p with buffer := b }

def Settled : Except Fault HttpResponseParser → Prop
  | .error _ => True
  | .ok p => p.complete = true ∨ p.failed = true

theorem fail_holding (error : Bytes) : (p.fail error).holding b = (p.holding b).fail error := by
  unfold fail
  change _ = if p.complete || p.failed then p.holding b else _
  split <;> rfl

theorem parseContentLengthBody_machine : p.parseContentLengthBody machine =
    if p.buffer.length < (p.bodyOffset + p.contentLength.toNat) % 2 ^ 64 then .ok p
    else (copy [] p.buffer p.bodyOffset p.contentLength.toNat).map fun body =>
      { p with response := { p.response with body }, complete := true } := by
  unfold parseContentLengthBody
  rw [machine_add, ok_bind]
  rfl

theorem parseContentLengthBody_append (hlen : (p.buffer ++ x).length ≤ maxSize)
    (hopen : ¬ Settled (.ok p)) (h : Settled (p.parseContentLengthBody machine)) :
    (p.holding (p.buffer ++ x)).parseContentLengthBody machine =
      (p.parseContentLengthBody machine).map fun q => q.holding (p.buffer ++ x) := by
  rw [parseContentLengthBody_machine] at h ⊢
  rw [parseContentLengthBody_machine]
  split at h
  · exact absurd h hopen
  next hmore =>
  have hlonger : ¬ (p.buffer ++ x).length <
      (p.bodyOffset + p.contentLength.toNat) % 2 ^ 64 := by
    rw [List.length_append]
    omega
  have hcopy : copy [] (p.buffer ++ x) p.bodyOffset p.contentLength.toNat =
      copy [] p.buffer p.bodyOffset p.contentLength.toNat :=
    @copy_append_of_mod _ _ _ _ _ hlen 0 (Nat.not_lt.1 hmore) (Nat.zero_le 2) _ rfl
  refine (if_neg hlonger).trans ?_
  rw [if_neg hmore]
  refine (congrArg _ hcopy).trans ?_
  cases copy [] p.buffer p.bodyOffset p.contentLength.toNat <;> rfl

def afterChunks (p : HttpResponseParser) : Option ChunkStep → HttpResponseParser
  | some (.failed error) => p.fail error
  | some (.done body _) =>
    { p with response := { p.response with body }, complete := true }
  | _ => p

theorem parseChunkedBody_eq {arithmetic : Arithmetic} :
    p.parseChunkedBody arithmetic maxBodyBytes =
      (chunkLoop arithmetic maxBodyBytes p.buffer (p.buffer.length + 1) p.bodyOffset []).map
        p.afterChunks := by
  unfold parseChunkedBody
  cases chunkLoop arithmetic maxBodyBytes p.buffer (p.buffer.length + 1) p.bodyOffset [] with
  | error fault => rfl
  | ok step =>
    rcases step with _ | ⟨_ | _ | _ | _⟩
    all_goals rfl

theorem parseChunkedBody_append (hlen : (p.buffer ++ x).length ≤ maxSize)
    (hopen : ¬ Settled (.ok p)) (h : Settled (p.parseChunkedBody machine maxBodyBytes)) :
    (p.holding (p.buffer ++ x)).parseChunkedBody machine maxBodyBytes =
      (p.parseChunkedBody machine maxBodyBytes).map fun q => q.holding (p.buffer ++ x) := by
  rw [parseChunkedBody_eq] at h ⊢
  rw [parseChunkedBody_eq]
  have hloop : chunkLoop machine maxBodyBytes (p.buffer ++ x) ((p.buffer ++ x).length + 1)
      p.bodyOffset [] =
        chunkLoop machine maxBodyBytes p.buffer (p.buffer.length + 1) p.bodyOffset [] := by
    refine chunkLoop_append hlen (by rw [List.length_append]; omega) (fun hnone => ?_)
      fun hmore => ?_
    · rw [hnone] at h
      exact hopen h
    · rw [hmore] at h
      exact hopen h
  change (chunkLoop machine maxBodyBytes (p.buffer ++ x) ((p.buffer ++ x).length + 1)
    p.bodyOffset []).map _ = _
  rw [hloop]
  cases chunkLoop machine maxBodyBytes p.buffer (p.buffer.length + 1) p.bodyOffset [] with
  | error fault => rfl
  | ok step =>
    rcases step with _ | ⟨_ | _ | _ | _⟩
    case some.failed error => exact congrArg Except.ok (fail_holding error).symm
    all_goals rfl

theorem parseBody_append (hlen : (p.buffer ++ x).length ≤ maxSize)
    (hopen : ¬ Settled (.ok p)) (h : Settled (p.parseBody machine maxBodyBytes)) :
    (p.holding (p.buffer ++ x)).parseBody machine maxBodyBytes =
      (p.parseBody machine maxBodyBytes).map fun q => q.holding (p.buffer ++ x) := by
  unfold parseBody at h ⊢
  change (if p.chunked then _ else if p.hasContentLength then _ else _) = _
  split
  · next hchunked =>
    rw [if_pos hchunked] at h
    exact parseChunkedBody_append hlen hopen h
  next hchunked =>
  rw [if_neg hchunked] at h
  split
  · next hlength =>
    rw [if_pos hlength] at h
    exact parseContentLengthBody_append hlen hopen h
  next hlength =>
  grind

theorem parseBody_open (h : p.parseBody machine maxBodyBytes = .ok q) (hq : ¬ Settled (.ok q)) :
    q = p := by
  unfold parseBody at h
  split at h
  · rw [parseChunkedBody_eq] at h
    cases hloop : chunkLoop machine maxBodyBytes p.buffer (p.buffer.length + 1) p.bodyOffset [] with
    | error fault =>
      rw [hloop] at h
      cases h
    | ok step =>
      rw [hloop] at h
      cases h
      rcases step with _ | ⟨_ | _ | _ | _⟩
      case some.failed error =>
        refine absurd ?_ hq
        change (p.fail error).complete = true ∨ (p.fail error).failed = true
        rw [fail]
        split
        · next hdone => simpa using hdone
        · exact .inr rfl
      case some.done body stop => exact absurd (.inl rfl) hq
      all_goals rfl
  split at h
  · rw [parseContentLengthBody_machine] at h
    split at h
    · exact (Except.ok.inj h).symm
    · cases hcopy : copy [] p.buffer p.bodyOffset p.contentLength.toNat with
      | error fault =>
        rw [hcopy] at h
        cases h
      | ok body =>
        rw [hcopy] at h
        cases h
        exact absurd (.inl rfl) hq
  · exact (Except.ok.inj h).symm

/-! ## All bytes at once -/

def scan (maxBodyBytes : UInt64) (b : Bytes) : Except Fault HttpResponseParser :=
  parse { buffer := b } machine maxBodyBytes

def headed (b : Bytes) (headerEnd : ℕ) (response : HttpResponse) (framing : Framing) :
    HttpResponseParser :=
  { withHead { buffer := b } response framing with
    bodyOffset := headerEnd + 4, headersParsed := true }

theorem scan_eq : scan maxBodyBytes b =
    match Search.find blankLine b with
    | none =>
      .ok (if kMaxHeaderBytes < b.length then
          fail { buffer := b } (ascii "HTTP response headers exceed limit")
        else { buffer := b })
    | some headerEnd =>
      if kMaxHeaderBytes < headerEnd then
        .ok (fail { buffer := b } (ascii "HTTP response headers exceed limit"))
      else
        match parseHead maxBodyBytes (b.take headerEnd) with
        | (response, framing, some error) =>
          .ok ((withHead { buffer := b } response framing).fail error)
        | (response, framing, none) =>
          (headed b headerEnd response framing).parseBody machine maxBodyBytes := by
  unfold scan parse
  rw [if_neg (by simp)]
  unfold parseHeaders
  rw [if_neg (by simp)]
  cases Search.find blankLine b with
  | none => rfl
  | some headerEnd =>
    by_cases hlong : kMaxHeaderBytes < headerEnd
    · simp only [if_pos hlong]
    simp only [if_neg hlong]
    rcases parseHead maxBodyBytes (b.take headerEnd) with ⟨response, framing, _ | error⟩ <;> rfl

theorem not_settled_new : ¬ Settled (.ok { buffer := b }) := by
  simp [Settled]

theorem settled_fail (error : Bytes) : Settled (.ok (p.fail error)) := by
  rw [fail]
  split
  · next hdone => simpa [Settled] using hdone
  · exact .inr rfl

theorem take_append_of_find {i : ℕ} (h : Search.find blankLine b = some i) :
    (b ++ x).take i = b.take i := by
  have := Search.length_le_of_find h
  exact List.take_append_of_le_length (by omega)

theorem scan_open (h : scan maxBodyBytes b = .ok q) (hq : ¬ Settled (.ok q)) :
    q.buffer = b ∧ (q.holding (b ++ x)).parse machine maxBodyBytes = scan maxBodyBytes (b ++ x) := by
  rw [scan_eq] at h
  cases hfind : Search.find blankLine b with
  | none =>
    simp only [hfind] at h
    split at h
    · cases h
      exact absurd (settled_fail _) hq
    · cases h
      exact ⟨rfl, rfl⟩
  | some headerEnd =>
    simp only [hfind] at h
    split at h
    · cases h
      exact absurd (settled_fail _) hq
    next hshort =>
    rw [scan_eq, Search.find_append hfind]
    simp only [if_neg hshort, take_append_of_find hfind]
    rcases hhead : parseHead maxBodyBytes (b.take headerEnd) with ⟨response, framing, _ | error⟩
    · simp only [hhead] at h
      obtain rfl := parseBody_open h hq
      exact ⟨rfl, rfl⟩
    · simp only [hhead] at h
      cases h
      exact absurd (settled_fail _) hq

def HeaderFits (s : Bytes) : Prop :=
  ∀ headerEnd, Search.find blankLine s = some headerEnd →
    headerEnd ≤ kMaxHeaderBytes - 3 ∨ kMaxHeaderBytes < headerEnd

theorem HeaderFits.left (h : HeaderFits (b ++ x)) : HeaderFits b :=
  fun headerEnd hfind => h headerEnd (Search.find_append hfind)

/-- Bytes that settle the response settle it with more bytes behind them. -/
theorem scan_append (h : Settled (scan maxBodyBytes b)) (hlen : (b ++ x).length ≤ maxSize)
    (hfits : HeaderFits (b ++ x)) :
    scan maxBodyBytes (b ++ x) = (scan maxBodyBytes b).map fun q => q.holding (b ++ x) := by
  rw [scan_eq] at h ⊢
  rw [scan_eq]
  cases hfind : Search.find blankLine b with
  | none =>
    simp only [hfind] at h ⊢
    split at h
    case isFalse => exact absurd h not_settled_new
    case isTrue hlong =>
    rw [if_pos hlong]
    have hfail : Except.map (fun q => q.holding (b ++ x))
        (.ok (fail { buffer := b } (ascii "HTTP response headers exceed limit"))) =
          (.ok (fail { buffer := b ++ x } (ascii "HTTP response headers exceed limit")) :
            Except Fault HttpResponseParser) := rfl
    rw [hfail]
    have hlonger : kMaxHeaderBytes < (b ++ x).length := by
      rw [List.length_append]
      omega
    cases hfind' : Search.find blankLine (b ++ x) with
    | none => simp only [if_pos hlonger]
    | some headerEnd =>
      have hreach := Search.lt_of_find_append hfind hfind'
      have hfour : blankLine.length = 4 := rfl
      have hbehind : kMaxHeaderBytes < headerEnd := by
        rcases hfits headerEnd hfind' with hearly | hlate
        · unfold kMaxHeaderBytes at *
          omega
        · exact hlate
      simp only [if_pos hbehind]
  | some headerEnd =>
    simp only [hfind, Search.find_append hfind, take_append_of_find hfind] at h ⊢
    split at h
    · next hlong => simp only [if_pos hlong]; rfl
    next hshort =>
    simp only [if_neg hshort]
    rcases hhead : parseHead maxBodyBytes (b.take headerEnd) with ⟨response, framing, _ | error⟩
    · simp only [hhead] at h ⊢
      have hopen : ¬ Settled (.ok (headed b headerEnd response framing)) := by
        simp [Settled, headed, withHead]
      exact @parseBody_append x _ _ hlen hopen h
    · rfl

/-! ## Pieces -/

def overallLimit (maxBodyBytes : UInt64) : ℕ :=
  (maxBodyBytes.toNat + kMaxHeaderBytes + 1024) % 2 ^ 64

/-- A parser that was fed the bytes `b` in some way, when at once they make `q`. -/
structure Tracks (b : Bytes) (q p : HttpResponseParser) : Prop where
  same : p = q.holding p.buffer
  waiting : ¬ Settled (.ok q) → p = q

theorem feed_machine : p.feed machine maxBodyBytes x =
    if p.complete || p.failed || x.isEmpty then .ok p
    else if overallLimit maxBodyBytes < (p.buffer.length + x.length) % 2 ^ 64 then
      .ok (p.fail (ascii "HTTP response exceeds configured limit"))
    else (p.holding (p.buffer ++ x)).parse machine maxBodyBytes := by
  have hlimit : (maxBodyBytes.toNat + kMaxHeaderBytes + 1024) % 2 ^ 64 =
      overallLimit maxBodyBytes := by
    rw [overallLimit]
  unfold feed
  rw [machine_add, ok_bind, machine_add, ok_bind, machine_add, ok_bind, Nat.mod_add_mod, hlimit]
  rfl

theorem feed_settled {arithmetic : Arithmetic} (h : Settled (.ok p)) :
    p.feed arithmetic maxBodyBytes x = .ok p := by
  unfold feed
  rw [if_pos]
  rcases h with h | h <;> simp [h]

theorem finishOnEof_settled {arithmetic : Arithmetic} (h : Settled (.ok p)) :
    p.finishOnEof arithmetic maxBodyBytes = .ok p := by
  unfold finishOnEof
  rw [if_pos]
  rcases h with h | h <;> simp [h]

theorem Tracks.settled (h : Tracks b q p) : Settled (.ok p) ↔ Settled (.ok q) := by
  rw [h.same]
  rfl

theorem feed_tracks (hlen : (b ++ x).length ≤ maxSize)
    (hlimit : (b ++ x).length ≤ overallLimit maxBodyBytes) (hfits : HeaderFits (b ++ x))
    (hq : scan maxBodyBytes b = .ok q) (h : Tracks b q p) :
    (∃ fault, scan maxBodyBytes (b ++ x) = .error fault ∧
      p.feed machine maxBodyBytes x = .error fault) ∨
    ∃ q' p', scan maxBodyBytes (b ++ x) = .ok q' ∧ p.feed machine maxBodyBytes x = .ok p' ∧
      Tracks (b ++ x) q' p' := by
  by_cases hsettled : Settled (.ok q)
  · refine .inr ⟨q.holding (b ++ x), p, ?_, feed_settled (h.settled.2 hsettled), ?_, ?_⟩
    · rw [scan_append (by rw [hq]; exact hsettled) hlen hfits, hq]
      rfl
    · exact h.same
    · exact fun hopen => absurd hsettled hopen
  · obtain rfl := h.waiting hsettled
    obtain ⟨hbuffer, hparse⟩ := scan_open (x := x) hq hsettled
    have hopen : (p.complete || p.failed) = false := by
      simpa [Settled] using hsettled
    rw [feed_machine, hopen, hbuffer]
    cases x with
    | nil =>
      rw [List.append_nil]
      exact .inr ⟨p, p, hq, rfl, rfl, fun _ => rfl⟩
    | cons c x =>
      have hmax : maxSize = 2 ^ 63 - 1 := rfl
      rw [List.length_append] at hlen hlimit
      have hsmall : b.length + (c :: x).length < 2 ^ 64 := by omega
      rw [if_neg (by simp), Nat.mod_eq_of_lt hsmall, if_neg (Nat.not_lt.2 hlimit), hparse]
      cases hscan : scan maxBodyBytes (b ++ c :: x) with
      | error fault => exact .inl ⟨fault, rfl, rfl⟩
      | ok q' => exact .inr ⟨q', q', rfl, rfl, rfl, fun _ => rfl⟩

theorem foldlM_tracks (pieces : List Bytes) (hlen : (b ++ pieces.flatten).length ≤ maxSize)
    (hlimit : (b ++ pieces.flatten).length ≤ overallLimit maxBodyBytes)
    (hfits : HeaderFits (b ++ pieces.flatten))
    (hq : scan maxBodyBytes b = .ok q) (h : Tracks b q p) :
    (∃ fault, scan maxBodyBytes (b ++ pieces.flatten) = .error fault ∧
      pieces.foldlM (fun parser piece => parser.feed machine maxBodyBytes piece) p =
        .error fault) ∨
    ∃ q' p', scan maxBodyBytes (b ++ pieces.flatten) = .ok q' ∧
      pieces.foldlM (fun parser piece => parser.feed machine maxBodyBytes piece) p = .ok p' ∧
      Tracks (b ++ pieces.flatten) q' p' := by
  induction pieces generalizing b p q with
  | nil =>
    rw [List.flatten_nil, List.append_nil]
    exact .inr ⟨q, p, hq, rfl, h⟩
  | cons x pieces ih =>
    rw [List.flatten_cons, ← List.append_assoc] at hlen hlimit hfits ⊢
    have hlen' : (b ++ x).length ≤ (b ++ x ++ pieces.flatten).length :=
      (List.sublist_append_left _ _).length_le
    rw [List.foldlM_cons]
    rcases feed_tracks (hlen'.trans hlen) (hlen'.trans hlimit) hfits.left hq h with
      ⟨fault, hscan, hfeed⟩ | ⟨q', p', hscan, hfeed, htracks⟩
    · refine .inl ⟨fault, ?_, by rw [hfeed]; rfl⟩
      rw [scan_append (by rw [hscan]; trivial) hlen hfits, hscan]
      rfl
    · rw [hfeed]
      exact ih hlen hlimit hfits hscan htracks

def outcome (result : Except Fault HttpResponseParser) : Except Fault HttpResponseParser :=
  result.map fun p => p.holding []

theorem finishOnEof_tracks (h : Tracks b q p) :
    outcome (p.finishOnEof machine maxBodyBytes) =
      outcome (q.finishOnEof machine maxBodyBytes) := by
  by_cases hsettled : Settled (.ok q)
  · rw [finishOnEof_settled hsettled, finishOnEof_settled (h.settled.2 hsettled), h.same]
    rfl
  · rw [h.waiting hsettled]

theorem outcome_receive {s : Bytes} (pieces : List Bytes) (hpieces : pieces.flatten = s)
    (hlen : s.length ≤ maxSize) (hlimit : s.length ≤ overallLimit maxBodyBytes)
    (hfits : HeaderFits s) :
    outcome (receive machine maxBodyBytes pieces) =
      outcome ((scan maxBodyBytes s).bind fun q => q.finishOnEof machine maxBodyBytes) := by
  subst hpieces
  have hnew : scan maxBodyBytes [] = .ok {} := by
    rw [scan_eq]
    rfl
  rcases foldlM_tracks (b := []) (p := {}) pieces hlen hlimit hfits hnew ⟨rfl, fun _ => rfl⟩ with
    ⟨fault, hscan, hrun⟩ | ⟨q, p, hscan, hrun, htracks⟩
  · have hscan : scan maxBodyBytes pieces.flatten = .error fault := hscan
    have hrun : feedAll machine maxBodyBytes pieces = .error fault := hrun
    rw [hscan]
    unfold receive
    rw [hrun]
    rfl
  · have hscan : scan maxBodyBytes pieces.flatten = .ok q := hscan
    have hrun : feedAll machine maxBodyBytes pieces = .ok p := hrun
    rw [hscan]
    unfold receive
    rw [hrun]
    exact finishOnEof_tracks htracks

/-- For bytes within the overall limit whose header does not end in the last bytes of its own, the
outcome does not depend on how they are cut; and nothing that comes later changes it. -/
theorem segmentation (maxBodyBytes : UInt64) :
    (∀ (s : Bytes) (pieces : List Bytes), pieces.flatten = s → s.length ≤ maxSize →
      s.length ≤ overallLimit maxBodyBytes → HeaderFits s →
      outcome (receive machine maxBodyBytes pieces) = outcome (receive machine maxBodyBytes [s])) ∧
    ∀ (p : HttpResponseParser) (x : Bytes), p.complete = true ∨ p.failed = true →
      p.feed machine maxBodyBytes x = .ok p := by
  refine ⟨fun s pieces hpieces hlen hlimit hfits => ?_, fun p x h => feed_settled h⟩
  rw [outcome_receive pieces hpieces hlen hlimit hfits,
    outcome_receive [s] (List.flatten_singleton) hlen hlimit hfits]

def emptyResponse : Bytes := ascii "HTTP/1.1 200 OK\r\nContent-Length: 0\r\n\r\n"

theorem segmentation_sample :
    outcome (receive machine 1024 [emptyResponse.take 20, emptyResponse.drop 20]) =
      outcome (receive machine 1024 [emptyResponse]) :=
  (segmentation 1024).1 emptyResponse _ (by decide) (by decide) (by decide) fun _ hfind => by
    have hend : Search.find blankLine emptyResponse = some 34 := by decide
    rw [hend, Option.some.injEq] at hfind
    subst hfind
    exact .inl (by decide)

/-- A response with more behind it than the overall limit is complete when it comes first, and
refused when all comes at once. -/
theorem cut_differs :
    (∃ p, receive machine 10 [emptyResponse, List.replicate 70000 0] = .ok p ∧
      p.complete = true ∧ p.response.status = 200) ∧
    ∃ p, receive machine 10 [emptyResponse ++ List.replicate 70000 0] = .ok p ∧
      p.failed = true ∧ p.complete = false ∧ p.response.status = 0 := by
  constructor
  · have hfed : (feed {} machine 10 emptyResponse).toOption.map
        (fun p => (p.complete, p.response.status)) = some (true, 200) := rfl
    obtain ⟨p, hfeed, hcomplete, hstatus⟩ : ∃ p, feed {} machine 10 emptyResponse = .ok p ∧
        p.complete = true ∧ p.response.status = 200 := by
      cases hresult : feed {} machine 10 emptyResponse with
      | error fault =>
        rw [hresult] at hfed
        cases hfed
      | ok p =>
        rw [hresult] at hfed
        have hpair := Option.some.inj hfed
        exact ⟨p, rfl, congrArg Prod.fst hpair, congrArg Prod.snd hpair⟩
    have hsettled : Settled (.ok p) := .inl hcomplete
    refine ⟨p, ?_, hcomplete, hstatus⟩
    unfold receive feedAll
    rw [List.foldlM_cons, hfeed, ok_bind, List.foldlM_cons, feed_settled hsettled, ok_bind,
      List.foldlM_nil]
    exact finishOnEof_settled hsettled
  · have hfeed : feed {} machine 10 (emptyResponse ++ List.replicate 70000 0) =
        .ok (fail {} (ascii "HTTP response exceeds configured limit")) := by
      have hne : (emptyResponse ++ List.replicate 70000 (0 : UInt8)).isEmpty = false := by
        rw [List.isEmpty_eq_false_iff]
        exact List.append_ne_nil_of_left_ne_nil (by decide) _
      have hlength : emptyResponse.length = 38 := by decide
      rw [feed_machine, hne, List.length_append, List.length_replicate, hlength, if_neg (by decide),
        if_pos (by decide)]
    refine ⟨fail {} (ascii "HTTP response exceeds configured limit"), ?_, rfl, rfl, rfl⟩
    unfold receive feedAll
    rw [List.foldlM_cons, hfeed, ok_bind, List.foldlM_nil]
    exact (ok_bind _ _).trans (@finishOnEof_settled 10 _ machine (settled_fail _))

end HttpResponseParser

end TinyImx.Intelligence
