import TinyImx.Net.Buffer

/-!
# The TIMX packet codec

A packet is a header of 20 bytes in network order and a body whose size the header names.  `Decode`
takes complete packets off a buffer until one is incomplete or a header is bad.
-/

namespace TinyImx.Protocol

open Net

def protocolMagic : UInt32 := 0x54494D58

def protocolVersion : UInt16 := 1

def packetHeaderSize : ℕ := 20

structure MessageType where
  code : UInt16
  deriving DecidableEq

/-- `IsKnownMessageType`: the enumerators from `kChatMessage` to `kCancelFileUploadResponse` and from
`kGatewayForwardChatRequest` to `kGatewayForwardGroupMessageResponse` leave no gap. -/
def isKnownMessageType (type : MessageType) : Bool :=
  type.code = 1001 || type.code = 1002 || (2001 ≤ type.code && type.code ≤ 2058) ||
    (3001 ≤ type.code && type.code ≤ 3004) || type.code = 9001 || type.code = 9999

structure PacketHeader where
  magic : UInt32
  version : UInt16
  type : UInt16
  flags : UInt16
  reserved : UInt16
  seq : UInt32
  bodySize : UInt32

structure Packet where
  type : MessageType
  flags : UInt16
  seq : UInt32
  body : List UInt8

inductive DecodeStatus where
  | ok
  | needMoreData
  | invalidMagic
  | unsupportedVersion
  | bodyTooLarge
  | invalidMessageType

structure DecodeResult where
  status : DecodeStatus
  packets : List Packet
  errorMessage : String

/-! ## Headers -/

def readUint16 (data : List UInt8) (offset : ℕ) : UInt16 :=
  (data.getD offset 0).toUInt16 <<< 8 ||| (data.getD (offset + 1) 0).toUInt16

def readUint32 (data : List UInt8) (offset : ℕ) : UInt32 :=
  (readUint16 data offset).toUInt32 <<< 16 ||| (readUint16 data (offset + 2)).toUInt32

def parseHeader (data : List UInt8) : PacketHeader where
  magic := readUint32 data 0
  version := readUint16 data 4
  type := readUint16 data 6
  flags := readUint16 data 8
  reserved := readUint16 data 10
  seq := readUint32 data 12
  bodySize := readUint32 data 16

def headerError (maxBodySize : ℕ) (header : PacketHeader) : Option (DecodeStatus × String) :=
  if header.magic ≠ protocolMagic then some (.invalidMagic, "invalid protocol magic")
  else if header.version ≠ protocolVersion then
    some (.unsupportedVersion, "unsupported protocol version")
  else if maxBodySize < header.bodySize.toNat then some (.bodyTooLarge, "packet body is too large")
  else if isKnownMessageType ⟨header.type⟩ = false then
    some (.invalidMessageType, "invalid message type")
  else none

/-! ## Decoding -/

/-- How a pass of the loop of `Decode` ends: a packet is incomplete, a header is bad, or a packet has
been taken off the buffer. -/
inductive Pass where
  | incomplete
  | error (status : DecodeStatus) (text : String)
  | packet (packet : Packet) (rest : Buffer)

def takeBody (bodySize : ℕ) (input : Buffer) : List UInt8 × Buffer :=
  if 0 < bodySize then input.retrieveAsString bodySize else ([], input)

def decodePass (maxBodySize : ℕ) (input : Buffer) : Pass :=
  if input.readableBytes < packetHeaderSize then .incomplete
  else
    let header := parseHeader input.readable
    match headerError maxBodySize header with
    | some (status, text) => .error status text
    | none =>
      if input.readableBytes < packetHeaderSize + header.bodySize.toNat then .incomplete
      else
        let (body, rest) := takeBody header.bodySize.toNat (input.retrieve packetHeaderSize)
        .packet ⟨⟨header.type⟩, header.flags, header.seq, body⟩ rest

theorem takeBody_spec (n : ℕ) (input : Buffer) :
    (takeBody n input).1 = input.readable.take n ∧
      (takeBody n input).2.readable = input.readable.drop n := by
  unfold takeBody
  split
  · exact ⟨rfl, Buffer.readable_retrieve input n⟩
  · next h =>
    simp_all

theorem decodePass_packet {maxBodySize : ℕ} {input rest : Buffer} {packet : Packet}
    (h : decodePass maxBodySize input = .packet packet rest) :
    rest.readableBytes < input.readableBytes := by
  unfold decodePass at h
  split at h
  · cases h
  · next hheader =>
    dsimp only at h
    split at h
    · cases h
    · split at h
      · cases h
      · cases h
        rw [← Buffer.length_readable, (takeBody_spec _ _).2, Buffer.readable_retrieve,
          List.length_drop, List.length_drop, Buffer.length_readable]
        unfold packetHeaderSize at *
        omega

def idleStatus (packets : List Packet) : DecodeStatus :=
  if packets.isEmpty then .needMoreData else .ok

def decodeLoop (maxBodySize : ℕ) (input : Buffer) (packets : List Packet) : DecodeResult × Buffer :=
  match _h : decodePass maxBodySize input with
  | .incomplete => (⟨idleStatus packets, packets, ""⟩, input)
  | .error status text => (⟨status, packets, text⟩, input)
  | .packet packet rest => decodeLoop maxBodySize rest (packets ++ [packet])
  termination_by input.readableBytes
  decreasing_by exact decodePass_packet _h

def decode (maxBodySize : ℕ) (input : Buffer) : DecodeResult × Buffer := decodeLoop maxBodySize input []

def feed (maxBodySize : ℕ) : Buffer → List (List UInt8) → List DecodeResult × Buffer
  | input, [] => ([], input)
  | input, chunk :: chunks =>
    let (result, input') := decode maxBodySize (input.append chunk)
    let (results, input'') := feed maxBodySize input' chunks
    (result :: results, input'')

end TinyImx.Protocol
