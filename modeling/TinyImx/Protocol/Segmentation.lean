import Mathlib.Data.List.GetD
import TinyImx.Lib.Framing
import TinyImx.Protocol.Codec

/-!
# Framing does not depend on segmentation

The codec is a framing in the sense of the library: a complete header and a complete packet read the
same when more bytes follow.  So what `Decode` gives does not depend on how the bytes arrive.
-/

namespace TinyImx.Protocol

open Net

variable {maxBodySize : ℕ} {input rest : Buffer} {packet : Packet} {xs ys : List UInt8}

/-! ## The framing of the codec -/

def parse (maxBodySize : ℕ) (xs : List UInt8) : Frame Packet DecodeStatus :=
  if xs.length < packetHeaderSize then .more
  else
    match headerError maxBodySize (parseHeader xs) with
    | some (status, _) => .bad status
    | none =>
      let n := (parseHeader xs).bodySize.toNat
      if xs.length < packetHeaderSize + n then .more
      else .frame ⟨⟨(parseHeader xs).type⟩, (parseHeader xs).flags, (parseHeader xs).seq,
        (xs.drop packetHeaderSize).take n⟩ (packetHeaderSize + n)

theorem readUint16_append (ys : List UInt8) {offset : ℕ} (h : offset + 2 ≤ xs.length) :
    readUint16 (xs ++ ys) offset = readUint16 xs offset := by
  unfold readUint16
  rw [List.getD_append _ _ _ _ (by omega), List.getD_append _ _ _ _ (by omega)]

theorem readUint32_append (ys : List UInt8) {offset : ℕ} (h : offset + 4 ≤ xs.length) :
    readUint32 (xs ++ ys) offset = readUint32 xs offset := by
  unfold readUint32
  rw [readUint16_append ys (by omega), readUint16_append ys (by omega)]

theorem parseHeader_append (ys : List UInt8) (h : packetHeaderSize ≤ xs.length) :
    parseHeader (xs ++ ys) = parseHeader xs := by
  unfold packetHeaderSize at h
  unfold parseHeader
  rw [readUint32_append ys (by omega), readUint16_append ys (by omega),
    readUint16_append ys (by omega), readUint16_append ys (by omega),
    readUint16_append ys (by omega), readUint32_append ys (by omega),
    readUint32_append ys (by omega)]

variable {status : DecodeStatus}

theorem parse_of_error {text : String} (h : packetHeaderSize ≤ xs.length)
    (herror : headerError maxBodySize (parseHeader xs) = some (status, text)) :
    parse maxBodySize xs = .bad status := by
  unfold parse
  rw [if_neg (by omega), herror]

theorem parse_of_incomplete (herror : headerError maxBodySize (parseHeader xs) = none)
    (h : xs.length < packetHeaderSize + (parseHeader xs).bodySize.toNat) :
    parse maxBodySize xs = .more := by
  unfold parse
  simp_all

theorem parse_of_packet (herror : headerError maxBodySize (parseHeader xs) = none)
    (h : packetHeaderSize + (parseHeader xs).bodySize.toNat ≤ xs.length) :
    parse maxBodySize xs = .frame ⟨⟨(parseHeader xs).type⟩, (parseHeader xs).flags,
      (parseHeader xs).seq, (xs.drop packetHeaderSize).take (parseHeader xs).bodySize.toNat⟩
      (packetHeaderSize + (parseHeader xs).bodySize.toNat) := by
  unfold parse
  grind

theorem parse_eq_frame {n : ℕ} (h : parse maxBodySize xs = .frame packet n) :
    headerError maxBodySize (parseHeader xs) = none ∧
      n = packetHeaderSize + (parseHeader xs).bodySize.toNat ∧ n ≤ xs.length := by
  unfold parse at h
  split at h
  · cases h
  · grind

theorem parse_eq_bad (h : parse maxBodySize xs = .bad status) :
    packetHeaderSize ≤ xs.length ∧ ∃ text, headerError maxBodySize (parseHeader xs) =
      some (status, text) := by
  unfold parse at h
  split at h
  · cases h
  · grind

theorem parse_append_frame {n : ℕ} (ys : List UInt8) (h : parse maxBodySize xs = .frame packet n) :
    parse maxBodySize (xs ++ ys) = .frame packet n := by
  obtain ⟨herror, rfl, hle⟩ := parse_eq_frame h
  have hheader := parseHeader_append ys (Nat.le_trans (Nat.le_add_right _ _) hle)
  have herror' : headerError maxBodySize (parseHeader (xs ++ ys)) = none := by rw [hheader, herror]
  have hle' : packetHeaderSize + (parseHeader (xs ++ ys)).bodySize.toNat ≤ (xs ++ ys).length := by
    grind
  rw [parse_of_packet herror hle] at h
  rw [parse_of_packet herror' hle', hheader, ← h, List.drop_append_of_le_length (by omega),
    List.take_append_of_le_length (by rw [List.length_drop]; omega)]

theorem parse_append_bad (ys : List UInt8)
    (h : parse maxBodySize xs = .bad status) : parse maxBodySize (xs ++ ys) = .bad status := by
  obtain ⟨hlen, text, herror⟩ := parse_eq_bad h
  have hlen' : packetHeaderSize ≤ (xs ++ ys).length := by
    rw [List.length_append]
    omega
  have herror' : headerError maxBodySize (parseHeader (xs ++ ys)) = some (status, text) := by
    rw [parseHeader_append ys hlen, herror]
  exact parse_of_error hlen' herror'

def framing (maxBodySize : ℕ) : Framing UInt8 Packet DecodeStatus where
  parse := parse maxBodySize
  parse_nil := rfl
  length_pos h := by
    obtain ⟨-, rfl, hle⟩ := parse_eq_frame h
    exact ⟨Nat.lt_of_lt_of_le (by decide) (Nat.le_add_right packetHeaderSize _), hle⟩
  frame_append := parse_append_frame
  bad_append := parse_append_bad

/-! ## `Decode` drains the framing -/

theorem parse_of_decodePass_incomplete (h : decodePass maxBodySize input = .incomplete) :
    parse maxBodySize input.readable = .more := by
  unfold decodePass at h
  split at h
  · next hshort =>
    unfold parse
    rw [if_pos (by simp_all)]
  · dsimp only at h
    split at h
    · cases h
    · next herror =>
      split at h
      · next hbody => exact parse_of_incomplete herror (by simp_all)
      · cases h

theorem parse_of_decodePass_error {text : String}
    (h : decodePass maxBodySize input = .error status text) :
    parse maxBodySize input.readable = .bad status := by
  unfold decodePass at h
  split at h
  · cases h
  · next hlong =>
    dsimp only at h
    split at h
    · next herror =>
      cases h
      exact parse_of_error (by rw [Buffer.length_readable]; omega) herror
    · split at h <;> cases h

theorem parse_of_decodePass_packet (h : decodePass maxBodySize input = .packet packet rest) :
    ∃ n, parse maxBodySize input.readable = .frame packet n ∧
      rest.readable = input.readable.drop n := by
  unfold decodePass at h
  split at h
  · cases h
  · dsimp only at h
    split at h
    · cases h
    · next herror =>
      split at h
      · cases h
      · next hbody =>
        cases h
        refine ⟨packetHeaderSize + (parseHeader input.readable).bodySize.toNat, ?_, ?_⟩
        · rw [parse_of_packet herror (by rw [Buffer.length_readable]; omega), (takeBody_spec _ _).1,
            Buffer.readable_retrieve]
        · rw [(takeBody_spec _ _).2, Buffer.readable_retrieve, List.drop_drop]

theorem decodeLoop_of_incomplete (h : decodePass maxBodySize input = .incomplete)
    (packets : List Packet) :
    decodeLoop maxBodySize input packets = (⟨idleStatus packets, packets, ""⟩, input) := by
  rw [decodeLoop]
  grind

theorem decodeLoop_of_error {text : String}
    (h : decodePass maxBodySize input = .error status text) (packets : List Packet) :
    decodeLoop maxBodySize input packets = (⟨status, packets, text⟩, input) := by
  rw [decodeLoop]
  grind

theorem decodeLoop_of_packet (h : decodePass maxBodySize input = .packet packet rest)
    (packets : List Packet) :
    decodeLoop maxBodySize input packets = decodeLoop maxBodySize rest (packets ++ [packet]) := by
  rw [decodeLoop]
  grind

theorem decodeLoop_spec (maxBodySize : ℕ) (input : Buffer) (packets : List Packet) :
    (decodeLoop maxBodySize input packets).1.packets =
        packets ++ ((framing maxBodySize).drain input.readable).1 ∧
      (decodeLoop maxBodySize input packets).1.status =
        ((framing maxBodySize).drain input.readable).2.1.getD
          (idleStatus (packets ++ ((framing maxBodySize).drain input.readable).1)) ∧
      (decodeLoop maxBodySize input packets).2.readable =
        ((framing maxBodySize).drain input.readable).2.2 := by
  induction input, packets using decodeLoop.induct maxBodySize with
  | case1 input packets hpass =>
    have hmore : (framing maxBodySize).parse input.readable = .more :=
      parse_of_decodePass_incomplete hpass
    rw [decodeLoop_of_incomplete hpass, Framing.drain_of_more hmore, List.append_nil]
    exact ⟨rfl, rfl, rfl⟩
  | case2 input packets status text hpass =>
    have hbad : (framing maxBodySize).parse input.readable = .bad status :=
      parse_of_decodePass_error hpass
    rw [decodeLoop_of_error hpass, Framing.drain_of_bad hbad, List.append_nil]
    exact ⟨rfl, rfl, rfl⟩
  | case3 input packets packet rest hpass ih =>
    obtain ⟨n, hframe, hrest⟩ := parse_of_decodePass_packet hpass
    rw [decodeLoop_of_packet hpass, Framing.drain_of_frame hframe, ← hrest]
    simpa only [List.append_assoc, List.singleton_append] using ih

/-! ## Results -/

def DecodeStatus.error? : DecodeStatus → Option DecodeStatus
  | .ok => none
  | .needMoreData => none
  | status => some status

theorem eq_of_error? {e : DecodeStatus} (h : status.error? = some e) : status = e := by
  cases status <;> cases h <;> rfl

def packetsUpToError : List DecodeResult → List Packet
  | [] => []
  | result :: results =>
    if result.status.error? = none then result.packets ++ packetsUpToError results else result.packets

def firstError (results : List DecodeResult) : Option DecodeStatus :=
  results.findSome? (·.status.error?)

def DecodeResult.pair (result : DecodeResult) : List Packet × Option DecodeStatus :=
  (result.packets, result.status.error?)

theorem upToError_pair (results : List DecodeResult) :
    Framing.upToError (results.map DecodeResult.pair) =
      (packetsUpToError results, firstError results) := by
  induction results with
  | nil => rfl
  | cons result results ih =>
    rw [List.map_cons, packetsUpToError, firstError, List.findSome?_cons, DecodeResult.pair]
    cases h : result.status.error? with
    | none =>
      rw [Framing.upToError, ih]
      rfl
    | some e => rfl

theorem headerError_error? {header : PacketHeader} {text : String}
    (h : headerError maxBodySize header = some (status, text)) : status.error? = some status := by
  unfold headerError at h
  split at h
  · cases h
    rfl
  · split at h
    · cases h
      rfl
    · split at h
      · cases h
        rfl
      · split at h
        · cases h
          rfl
        · cases h

theorem idleStatus_error? (packets : List Packet) : (idleStatus packets).error? = none := by
  unfold idleStatus
  split <;> rfl

theorem decode_pair (maxBodySize : ℕ) (input : Buffer) :
    (decode maxBodySize input).1.pair =
      (((framing maxBodySize).drain input.readable).1,
        ((framing maxBodySize).drain input.readable).2.1) := by
  obtain ⟨hpackets, hstatus, -⟩ := decodeLoop_spec maxBodySize input []
  have hrest := Framing.parse_rest (F := framing maxBodySize) input.readable
  unfold DecodeResult.pair decode
  rw [hpackets, hstatus, List.nil_append]
  cases he : ((framing maxBodySize).drain input.readable).2.1 with
  | none => rw [Option.getD_none, idleStatus_error?]
  | some e =>
    rw [he] at hrest
    obtain ⟨-, text, herror⟩ := parse_eq_bad hrest
    rw [Option.getD_some, headerError_error? herror]

theorem feed_pair (maxBodySize : ℕ) (input : Buffer) (chunks : List (List UInt8)) :
    (feed maxBodySize input chunks).1.map DecodeResult.pair =
        ((framing maxBodySize).feed input.readable chunks).1 ∧
      (feed maxBodySize input chunks).2.readable =
        ((framing maxBodySize).feed input.readable chunks).2 := by
  induction chunks generalizing input with
  | nil => exact ⟨rfl, rfl⟩
  | cons chunk chunks ih =>
    have hdecode := decode_pair maxBodySize (input.append chunk)
    have hrest := (decodeLoop_spec maxBodySize (input.append chunk) []).2.2
    rw [Buffer.readable_append] at hdecode hrest
    obtain ⟨hresults, hleft⟩ := ih (decode maxBodySize (input.append chunk)).2
    unfold decode at hresults hleft
    rw [hrest] at hresults hleft
    rw [Framing.feed_cons]
    refine ⟨?_, hleft⟩
    rw [← hdecode, ← hresults]
    rfl

/-- However a byte string is cut into chunks, decoding after each chunk gives the packets, the first
error and the unread bytes of one decoding of the whole, and after an error only that error. -/
theorem segmentation_independent (maxBodySize initialSize : ℕ) (chunks : List (List UInt8)) :
    packetsUpToError (feed maxBodySize (.make initialSize) chunks).1 =
        (decode maxBodySize ((Buffer.make initialSize).append chunks.flatten)).1.packets ∧
      firstError (feed maxBodySize (.make initialSize) chunks).1 =
        (decode maxBodySize ((Buffer.make initialSize).append chunks.flatten)).1.status.error? ∧
      (feed maxBodySize (.make initialSize) chunks).2.readable =
        (decode maxBodySize ((Buffer.make initialSize).append chunks.flatten)).2.readable ∧
      (feed maxBodySize (.make initialSize) chunks).1.Pairwise fun result later =>
        result.status.error? ≠ none → later.status = result.status ∧ later.packets = [] := by
  obtain ⟨hresults, hleft⟩ := feed_pair maxBodySize (.make initialSize) chunks
  rw [Buffer.readable_make] at hresults hleft
  obtain ⟨hall, hrest⟩ := Framing.feed_eq_drain chunks (framing maxBodySize).parse_nil
  rw [List.nil_append] at hall hrest
  have hwhole := decode_pair maxBodySize ((Buffer.make initialSize).append chunks.flatten)
  have hunread := (decodeLoop_spec maxBodySize ((Buffer.make initialSize).append chunks.flatten) []).2.2
  rw [Buffer.readable_append, Buffer.readable_make, List.nil_append] at hwhole hunread
  rw [← hresults, upToError_pair, ← hwhole] at hall
  refine ⟨congrArg Prod.fst hall, congrArg Prod.snd hall, ?_, ?_⟩
  · rw [hleft, hrest, ← hunread]
    rfl
  · have hstays := Framing.error_stays (F := framing maxBodySize) chunks []
    rw [← hresults, List.pairwise_map] at hstays
    refine hstays.imp fun {result later} h hne => ?_
    obtain ⟨e, he⟩ := Option.ne_none_iff_exists'.1 hne
    have hpair := h e he
    refine ⟨?_, congrArg Prod.fst hpair⟩
    exact (eq_of_error? (congrArg Prod.snd hpair)).trans (eq_of_error? he).symm

end TinyImx.Protocol
