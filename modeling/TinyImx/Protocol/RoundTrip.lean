import Mathlib.Algebra.Ring.Nat
import Mathlib.Data.List.Forall2
import TinyImx.Protocol.Segmentation

/-!
# Encoding and decoding

`Encode` appends the header of a packet in network order, field by field, and then its body.  `Decode`
reads back what it appended; what `Decode` takes off a buffer is what `Encode` appends for the packets
it returns, but for the two reserved bytes, which `Encode` writes as zero and `Decode` drops.
-/

namespace TinyImx.Protocol

open Net

/-! ## Encoding -/

def uint16Bytes (value : UInt16) : List UInt8 := [(value >>> 8).toUInt8, value.toUInt8]

def uint32Bytes (value : UInt32) : List UInt8 :=
  uint16Bytes (value >>> 16).toUInt16 ++ uint16Bytes value.toUInt16

def appendUint16 (buffer : Buffer) (value : UInt16) : Buffer := buffer.append (uint16Bytes value)

def appendUint32 (buffer : Buffer) (value : UInt32) : Buffer := buffer.append (uint32Bytes value)

def validatePacketForEncode (maxBodySize : ℕ) (packet : Packet) : Option String :=
  if isKnownMessageType packet.type = false then some "invalid message type"
  else if maxBodySize < packet.body.length then some "packet body is too large"
  else none

def encode (maxBodySize : ℕ) (packet : Packet) (output : Buffer) : Except String Unit × Buffer :=
  match validatePacketForEncode maxBodySize packet with
  | some error => (.error error, output)
  | none =>
    let output := appendUint32 output protocolMagic
    let output := appendUint16 output protocolVersion
    let output := appendUint16 output packet.type.code
    let output := appendUint16 output packet.flags
    let output := appendUint16 output 0
    let output := appendUint32 output packet.seq
    let output := appendUint32 output (UInt32.ofNat packet.body.length)
    (.ok (), if packet.body ≠ [] then output.append packet.body else output)

def encodeAll (maxBodySize : ℕ) : List Packet → Buffer → List (Except String Unit) × Buffer
  | [], output => ([], output)
  | packet :: packets, output =>
    let (result, output) := encode maxBodySize packet output
    let (results, output) := encodeAll maxBodySize packets output
    (result :: results, output)

/-! ## Numbers -/

theorem toNat_or_shiftLeft_eight {a b : ℕ} (ha : a < 2 ^ 8) (hb : b < 2 ^ 8) :
    a <<< 8 % 2 ^ 16 ||| b = a * 256 + b := by
  have hshift : a <<< 8 = a * 256 := Nat.shiftLeft_eq a 8
  have hsum : a <<< 8 + b = a <<< 8 ||| b := Nat.shiftLeft_add_eq_or_of_lt hb a
  rw [Nat.mod_eq_of_lt (by omega), ← hsum, hshift]

theorem toNat_or_shiftLeft_sixteen {a b : ℕ} (ha : a < 2 ^ 16) (hb : b < 2 ^ 16) :
    a <<< 16 % 2 ^ 32 ||| b = a * 65536 + b := by
  have hshift : a <<< 16 = a * 65536 := Nat.shiftLeft_eq a 16
  have hsum : a <<< 16 + b = a <<< 16 ||| b := Nat.shiftLeft_add_eq_or_of_lt hb a
  rw [Nat.mod_eq_of_lt (by omega), ← hsum, hshift]

def pack (high low : UInt8) : UInt16 := high.toUInt16 <<< 8 ||| low.toUInt16

def join (high low : UInt16) : UInt32 := high.toUInt32 <<< 16 ||| low.toUInt32

theorem toNat_pack (high low : UInt8) : (pack high low).toNat = high.toNat * 256 + low.toNat := by
  have hhigh := high.toNat_lt
  have hlow := low.toNat_lt
  unfold pack
  rw [UInt16.toNat_or, UInt16.toNat_shiftLeft, UInt8.toNat_toUInt16, UInt8.toNat_toUInt16]
  exact toNat_or_shiftLeft_eight hhigh hlow

theorem toNat_join (high low : UInt16) : (join high low).toNat = high.toNat * 65536 + low.toNat := by
  have hhigh := high.toNat_lt
  have hlow := low.toNat_lt
  unfold join
  rw [UInt32.toNat_or, UInt32.toNat_shiftLeft, UInt16.toNat_toUInt32, UInt16.toNat_toUInt32]
  exact toNat_or_shiftLeft_sixteen hhigh hlow

theorem pack_uint16Bytes (value : UInt16) :
    pack (value >>> 8).toUInt8 value.toUInt8 = value := by
  have hlt := value.toNat_lt
  apply UInt16.toNat_inj.1
  rw [toNat_pack, UInt16.toNat_toUInt8, UInt16.toNat_toUInt8, UInt16.toNat_shiftRight]
  change value.toNat >>> 8 % 2 ^ 8 * 256 + value.toNat % 2 ^ 8 = value.toNat
  rw [Nat.shiftRight_eq_div_pow]
  omega

theorem uint16Bytes_pack (high low : UInt8) : uint16Bytes (pack high low) = [high, low] := by
  have hhigh := high.toNat_lt
  have hlow := low.toNat_lt
  have hfirst : (pack high low >>> 8).toUInt8 = high := by
    apply UInt8.toNat_inj.1
    rw [UInt16.toNat_toUInt8, UInt16.toNat_shiftRight, toNat_pack]
    change (high.toNat * 256 + low.toNat) >>> 8 % 2 ^ 8 = high.toNat
    rw [Nat.shiftRight_eq_div_pow]
    omega
  have hsecond : (pack high low).toUInt8 = low := by
    apply UInt8.toNat_inj.1
    rw [UInt16.toNat_toUInt8, toNat_pack]
    omega
  unfold uint16Bytes
  rw [hfirst, hsecond]

theorem join_uint32Bytes (value : UInt32) :
    join (value >>> 16).toUInt16 value.toUInt16 = value := by
  have hlt := value.toNat_lt
  apply UInt32.toNat_inj.1
  rw [toNat_join, UInt32.toNat_toUInt16, UInt32.toNat_toUInt16, UInt32.toNat_shiftRight]
  change value.toNat >>> 16 % 2 ^ 16 * 65536 + value.toNat % 2 ^ 16 = value.toNat
  rw [Nat.shiftRight_eq_div_pow]
  omega

theorem uint32Bytes_join (high low : UInt16) :
    uint32Bytes (join high low) = uint16Bytes high ++ uint16Bytes low := by
  have hhigh := high.toNat_lt
  have hlow := low.toNat_lt
  have hfirst : (join high low >>> 16).toUInt16 = high := by
    apply UInt16.toNat_inj.1
    rw [UInt32.toNat_toUInt16, UInt32.toNat_shiftRight, toNat_join]
    change (high.toNat * 65536 + low.toNat) >>> 16 % 2 ^ 16 = high.toNat
    rw [Nat.shiftRight_eq_div_pow]
    omega
  have hsecond : (join high low).toUInt16 = low := by
    apply UInt16.toNat_inj.1
    rw [UInt32.toNat_toUInt16, toNat_join]
    omega
  unfold uint32Bytes
  rw [hfirst, hsecond]

theorem uint16Bytes_readUint16 {xs : List UInt8} {offset : ℕ} (h : offset + 2 ≤ xs.length) :
    uint16Bytes (readUint16 xs offset) = (xs.drop offset).take 2 := by
  have hread : readUint16 xs offset = pack (xs.getD offset 0) (xs.getD (offset + 1) 0) := rfl
  rw [hread, uint16Bytes_pack, List.getD_eq_getElem _ _ (by omega),
    List.getD_eq_getElem _ _ (by omega), List.drop_eq_getElem_cons (by omega),
    List.drop_eq_getElem_cons (by omega)]
  rfl

theorem uint32Bytes_readUint32 {xs : List UInt8} {offset : ℕ} (h : offset + 4 ≤ xs.length) :
    uint32Bytes (readUint32 xs offset) = (xs.drop offset).take 4 := by
  have hread : readUint32 xs offset = join (readUint16 xs offset) (readUint16 xs (offset + 2)) := rfl
  rw [hread, uint32Bytes_join, uint16Bytes_readUint16 (by omega),
    uint16Bytes_readUint16 (by omega), ← List.drop_drop, ← List.take_add]

/-! ## Headers -/

def headerBytes (header : PacketHeader) : List UInt8 :=
  uint32Bytes header.magic ++ uint16Bytes header.version ++ uint16Bytes header.type ++
    uint16Bytes header.flags ++ uint16Bytes header.reserved ++ uint32Bytes header.seq ++
    uint32Bytes header.bodySize

theorem length_headerBytes (header : PacketHeader) :
    (headerBytes header).length = packetHeaderSize := rfl

theorem parseHeader_headerBytes (header : PacketHeader) (ys : List UInt8) :
    parseHeader (headerBytes header ++ ys) = header := by
  obtain ⟨magic, version, type, flags, reserved, seq, bodySize⟩ := header
  have h32 := join_uint32Bytes
  have h16 := pack_uint16Bytes
  have hword (value : UInt32) : join (pack ((value >>> 16).toUInt16 >>> 8).toUInt8
      (value >>> 16).toUInt16.toUInt8) (pack (value.toUInt16 >>> 8).toUInt8
      value.toUInt16.toUInt8) = value := by
    rw [h16, h16, h32]
  exact congr (congr (congr (congr (congr (congr (congrArg PacketHeader.mk (hword magic))
    (h16 version)) (h16 type)) (h16 flags)) (h16 reserved)) (hword seq)) (hword bodySize)

theorem headerBytes_parseHeader {xs : List UInt8} (h : packetHeaderSize ≤ xs.length) :
    headerBytes (parseHeader xs) = xs.take packetHeaderSize := by
  unfold packetHeaderSize at *
  unfold headerBytes parseHeader
  rw [uint32Bytes_readUint32 (by omega), uint16Bytes_readUint16 (by omega),
    uint16Bytes_readUint16 (by omega), uint16Bytes_readUint16 (by omega),
    uint16Bytes_readUint16 (by omega), uint32Bytes_readUint32 (by omega),
    uint32Bytes_readUint32 (by omega), List.drop_zero, ← List.take_add, ← List.take_add,
    ← List.take_add, ← List.take_add, ← List.take_add, ← List.take_add]

/-! ## Frames -/

/-- The bytes of a packet, with the reserved field that `Decode` does not look at. -/
def frameWith (reserved : UInt16) (packet : Packet) : List UInt8 :=
  headerBytes ⟨protocolMagic, protocolVersion, packet.type.code, packet.flags, reserved, packet.seq,
    UInt32.ofNat packet.body.length⟩ ++ packet.body

def frame (packet : Packet) : List UInt8 := frameWith 0 packet

def Encodable (maxBodySize : ℕ) (packet : Packet) : Prop :=
  isKnownMessageType packet.type = true ∧ packet.body.length ≤ maxBodySize

variable {maxBodySize : ℕ} {packet : Packet} {packets : List Packet} {reserved : UInt16}
  {xs ys : List UInt8} {input output : Buffer}

theorem length_frameWith (reserved : UInt16) (packet : Packet) :
    (frameWith reserved packet).length = packetHeaderSize + packet.body.length := by
  unfold frameWith
  rw [List.length_append, length_headerBytes]

theorem validatePacketForEncode_eq_none :
    validatePacketForEncode maxBodySize packet = none ↔ Encodable maxBodySize packet := by
  unfold validatePacketForEncode Encodable
  grind

theorem encode_of_encodable (h : Encodable maxBodySize packet) (output : Buffer) :
    (encode maxBodySize packet output).1 = .ok () ∧
      (encode maxBodySize packet output).2.readable = output.readable ++ frame packet := by
  unfold encode
  rw [validatePacketForEncode_eq_none.2 h]
  refine ⟨rfl, ?_⟩
  dsimp only [appendUint32, appendUint16]
  split
  · simp only [Buffer.readable_append, List.append_assoc, frame, frameWith, headerBytes]
  · next hempty =>
    rw [ne_eq, not_not] at hempty
    simp only [Buffer.readable_append, List.append_assoc, frame, frameWith, headerBytes, hempty,
      List.append_nil]

theorem encode_of_not_encodable (h : ¬ Encodable maxBodySize packet) (output : Buffer) :
    ∃ error, encode maxBodySize packet output = (.error error, output) := by
  rw [← validatePacketForEncode_eq_none] at h
  obtain ⟨error, herror⟩ := Option.ne_none_iff_exists'.1 h
  unfold encode
  rw [herror]
  exact ⟨error, rfl⟩

theorem encodeAll_of_encodable (h : ∀ packet ∈ packets, Encodable maxBodySize packet)
    (output : Buffer) : (∀ result ∈ (encodeAll maxBodySize packets output).1, result = .ok ()) ∧
      (encodeAll maxBodySize packets output).2.readable =
        output.readable ++ packets.flatMap frame := by
  induction packets generalizing output with
  | nil => exact ⟨fun _ h => absurd h List.not_mem_nil, (List.append_nil _).symm⟩
  | cons packet packets ih =>
    obtain ⟨hok, hreadable⟩ := encode_of_encodable (h packet List.mem_cons_self) output
    obtain ⟨hoks, hreadables⟩ := ih (fun p hp => h p (List.mem_cons_of_mem packet hp))
      (encode maxBodySize packet output).2
    refine ⟨fun result hresult => ?_, ?_⟩
    · rcases List.mem_cons.1 hresult with rfl | hresult
      · exact hok
      · exact hoks result hresult
    · rw [List.flatMap_cons, ← List.append_assoc, ← hreadable]
      exact hreadables

theorem headerError_eq_none {header : PacketHeader} : headerError maxBodySize header = none ↔
    header.magic = protocolMagic ∧ header.version = protocolVersion ∧
      header.bodySize.toNat ≤ maxBodySize ∧ isKnownMessageType ⟨header.type⟩ = true := by
  unfold headerError
  grind

theorem parse_frameWith (hmax : maxBodySize < 2 ^ 32) (h : Encodable maxBodySize packet)
    (reserved : UInt16) (ys : List UInt8) :
    parse maxBodySize (frameWith reserved packet ++ ys) =
      .frame packet (frameWith reserved packet).length := by
  obtain ⟨htype, hbody⟩ := h
  have hsize : (UInt32.ofNat packet.body.length).toNat = packet.body.length :=
    UInt32.toNat_ofNat_of_lt' (Nat.lt_of_le_of_lt hbody hmax)
  have hlength := length_frameWith reserved packet
  have hheader : parseHeader (frameWith reserved packet ++ ys) = ⟨protocolMagic, protocolVersion,
      packet.type.code, packet.flags, reserved, packet.seq, UInt32.ofNat packet.body.length⟩ := by
    unfold frameWith
    rw [List.append_assoc, parseHeader_headerBytes]
  have herror : headerError maxBodySize (parseHeader (frameWith reserved packet ++ ys)) = none := by
    rw [hheader]
    exact headerError_eq_none.2 ⟨rfl, rfl, by rw [hsize]; exact hbody, htype⟩
  rw [parse_of_packet herror (by grind), hheader]
  have hdrop : (frameWith reserved packet ++ ys).drop packetHeaderSize = packet.body ++ ys := by
    unfold frameWith
    rw [List.append_assoc, ← length_headerBytes, List.drop_left]
  rw [hsize, hdrop, List.take_left, hlength]

theorem eq_frameWith_of_parse (h : parse maxBodySize (xs ++ ys) = .frame packet xs.length) :
    Encodable maxBodySize packet ∧ ∃ reserved, xs = frameWith reserved packet := by
  obtain ⟨herror, hlength, hle⟩ := parse_eq_frame h
  rw [parse_of_packet herror (by omega)] at h
  obtain ⟨hmagic, hversion, hsize, htype⟩ := headerError_eq_none.1 herror
  have hxs : packetHeaderSize ≤ xs.length := by omega
  rw [parseHeader_append ys hxs] at *
  have hbody : ((xs ++ ys).drop packetHeaderSize).take (parseHeader xs).bodySize.toNat =
      xs.drop packetHeaderSize := by
    rw [List.drop_append_of_le_length hxs]
    exact List.take_left' (by rw [List.length_drop]; omega)
  rw [hbody] at h
  have hcount : (xs.drop packetHeaderSize).length = (parseHeader xs).bodySize.toNat := by
    rw [List.length_drop]
    omega
  injection h with hpacket
  subst hpacket
  refine ⟨⟨htype, by rw [hcount]; exact hsize⟩, (parseHeader xs).reserved, ?_⟩
  unfold frameWith
  rw [hcount, UInt32.ofNat_toNat, ← hmagic, ← hversion]
  change xs = headerBytes (parseHeader xs) ++ _
  rw [headerBytes_parseHeader hxs, List.take_append_drop]

/-! ## The round trip -/

def SameButReserved (xs ys : List UInt8) : Prop :=
  xs.length = ys.length ∧ ∀ i, i ≠ 10 → i ≠ 11 → xs[i]? = ys[i]?

theorem getElem?_append_append {as bs cs ds : List UInt8} {i : ℕ} (hlength : bs.length = cs.length)
    (h : i < as.length ∨ as.length + bs.length ≤ i) :
    (as ++ bs ++ ds)[i]? = (as ++ cs ++ ds)[i]? := by
  rcases h with hlt | hge
  · rw [List.append_assoc, List.append_assoc, List.getElem?_append_left hlt,
      List.getElem?_append_left hlt]
  · rw [List.getElem?_append_right (by rw [List.length_append]; omega),
      List.getElem?_append_right (by rw [List.length_append]; omega), List.length_append,
      List.length_append, hlength]

theorem sameButReserved_frame (reserved : UInt16) (packet : Packet) :
    SameButReserved (frameWith reserved packet) (frame packet) := by
  refine ⟨by rw [frame, length_frameWith, length_frameWith], fun i h₁₀ h₁₁ => ?_⟩
  have hhead (r : UInt16) : frameWith r packet =
      (uint32Bytes protocolMagic ++ uint16Bytes protocolVersion ++ uint16Bytes packet.type.code ++
        uint16Bytes packet.flags) ++ uint16Bytes r ++ (uint32Bytes packet.seq ++
        uint32Bytes (UInt32.ofNat packet.body.length) ++ packet.body) := by
    simp only [frameWith, headerBytes, List.append_assoc]
  unfold frame
  rw [hhead, hhead 0]
  exact getElem?_append_append rfl (show i < 10 ∨ 12 ≤ i by omega)

/-- Encoding appends the frames to any buffer; decoding a buffer that holds the frames gives the
packets back and empties it, with status `kNeedMoreData` when there is no packet; encoding what
`Decode` returned gives the bytes it consumed but for the reserved ones; and a packet of an unknown
type or with too large a body appends nothing. -/
theorem round_trip (hmax : maxBodySize < 2 ^ 32) :
    (∀ packets, (∀ packet ∈ packets, Encodable maxBodySize packet) →
      (∀ output, (∀ result ∈ (encodeAll maxBodySize packets output).1, result = .ok ()) ∧
        (encodeAll maxBodySize packets output).2.readable =
          output.readable ++ packets.flatMap frame) ∧
      ∀ input, input.readable = packets.flatMap frame →
        (decode maxBodySize input).1.packets = packets ∧
        (decode maxBodySize input).1.status = (if packets = [] then .needMoreData else .ok) ∧
        (decode maxBodySize input).2.readable = []) ∧
    (∀ input output, ∃ consumed : List (List UInt8),
      input.readable = consumed.flatten ++ (decode maxBodySize input).2.readable ∧
      (∀ result ∈ (encodeAll maxBodySize (decode maxBodySize input).1.packets output).1,
        result = .ok ()) ∧
      (encodeAll maxBodySize (decode maxBodySize input).1.packets output).2.readable =
        output.readable ++ ((decode maxBodySize input).1.packets.map frame).flatten ∧
      List.Forall₂ SameButReserved consumed ((decode maxBodySize input).1.packets.map frame)) ∧
    ∀ packet output, ¬ Encodable maxBodySize packet →
      ∃ error, encode maxBodySize packet output = (.error error, output) := by
  refine ⟨fun packets h => ⟨encodeAll_of_encodable h, fun input hinput => ?_⟩,
    fun input output => ?_, fun packet output h => encode_of_not_encodable h output⟩
  · obtain ⟨hpackets, hstatus, hrest⟩ := decodeLoop_spec maxBodySize input []
    have hframes : ∀ packet ∈ packets, ∀ ys, (framing maxBodySize).parse (frame packet ++ ys) =
        .frame packet (frame packet).length :=
      fun packet hpacket => parse_frameWith hmax (h packet hpacket) 0
    have hdrain := Framing.drain_flatMap hframes []
    rw [List.append_nil, Framing.drain_of_more (framing maxBodySize).parse_nil,
      List.append_nil] at hdrain
    rw [hinput, hdrain, List.nil_append] at hpackets hstatus
    rw [hinput, hdrain] at hrest
    refine ⟨hpackets, hstatus.trans ?_, hrest⟩
    cases packets <;> rfl
  · obtain ⟨hpackets, -, hrest⟩ := decodeLoop_spec maxBodySize input []
    obtain ⟨pieces, hinput, hpieces⟩ := Framing.drain_pieces (F := framing maxBodySize) input.readable
    rw [List.nil_append] at hpackets
    change (decode maxBodySize input).1.packets = _ at hpackets
    change (decode maxBodySize input).2.readable = _ at hrest
    rw [hpackets, hrest]
    have hframes := hpieces.imp fun piece packet hpiece =>
      hpiece.elim fun ys hparse => eq_frameWith_of_parse hparse
    have hencodable := (List.forall₂_and_left _ _).1 hframes.flip
    obtain ⟨hok, hreadable⟩ := encodeAll_of_encodable hencodable.1 output
    refine ⟨pieces, hinput, hok, by rw [hreadable, List.flatMap_def], ?_⟩
    refine List.forall₂_map_right_iff.2 (hframes.imp fun piece packet hpiece => ?_)
    obtain ⟨-, reserved, rfl⟩ := hpiece
    exact sameButReserved_frame reserved packet

def samplePackets : List Packet := [⟨⟨1001⟩, 5, 70000, [104, 105]⟩, ⟨⟨9001⟩, 0, 2, []⟩]

theorem samplePackets_encodable : ∀ packet ∈ samplePackets, Encodable 2 packet := by
  unfold Encodable
  decide

theorem round_trip_sample :
    (decode 2 ((Buffer.make 0).append (samplePackets.flatMap frame))).1.packets = samplePackets ∧
      (decode 2 ((Buffer.make 0).append (samplePackets.flatMap frame))).1.status = .ok ∧
      (decode 2 ((Buffer.make 0).append (samplePackets.flatMap frame))).2.readable = [] := by
  have hreadable : ((Buffer.make 0).append (samplePackets.flatMap frame)).readable =
      samplePackets.flatMap frame := by
    rw [Buffer.readable_append, Buffer.readable_make, List.nil_append]
  exact ((@round_trip 2 (by decide)).1 samplePackets samplePackets_encodable).2 _ hreadable

/-- Without a packet there is nothing to decode, and the status is `kNeedMoreData`. -/
theorem empty_needs_more_data : ¬ ∀ maxBodySize < 2 ^ 32, ∀ packets : List Packet,
    (∀ packet ∈ packets, Encodable maxBodySize packet) → ∀ input : Buffer,
      input.readable = packets.flatMap frame →
        (decode maxBodySize input).1.packets = packets ∧
        (decode maxBodySize input).1.status = .ok ∧
        (decode maxBodySize input).2.readable = [] := by
  intro h
  obtain ⟨-, hstatus, -⟩ := h 0 (by decide) [] (fun _ h => absurd h List.not_mem_nil) (.make 0)
    (Buffer.readable_make 0)
  have hempty := (decodeLoop_spec 0 (.make 0) []).2.1
  rw [Buffer.readable_make, Framing.drain_of_more (framing 0).parse_nil] at hempty
  have hok : DecodeStatus.needMoreData = .ok := hempty.symm.trans hstatus
  cases hok

end TinyImx.Protocol
