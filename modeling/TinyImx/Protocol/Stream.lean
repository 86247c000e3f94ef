import TinyImx.Net.TcpConnection
import TinyImx.Protocol.RoundTrip

/-!
# Packets over a connection

A connection that is given encoded packets carries them to the decoder of its peer: whatever the
sockets do and however the bytes arrive, the peer decodes a first part of what was sent, without an
error, and all of it once the connection has nothing left to write.
-/

namespace TinyImx.Protocol

open Net TcpConnection

variable {maxBodySize initialSize : ℕ} {writeCompleteCallback : Bool} {highWaterMark : Option ℕ}
  {ls : List Label} {s : State}

theorem exists_sent (hrun : Run Step (start initialSize writeCompleteCallback highWaterMark) ls s)
    (hsends : ∀ data result, .send data result ∈ ls →
      ∃ packet, Encodable maxBodySize packet ∧ data = frame packet) :
    ∃ sent : List Packet, (∀ packet ∈ sent, Encodable maxBodySize packet) ∧
      s.payload = sent.flatMap frame := by
  induction hrun with
  | nil => exact ⟨[], by simp, rfl⟩
  | @snoc t u ls l _ hs ih =>
    obtain ⟨sent, hsent, hpayload⟩ := ih fun data result h => hsends data result (by simp [h])
    obtain ⟨-, rfl⟩ := hs
    cases l with
    | send data result =>
      obtain ⟨packet, hpacket, rfl⟩ := hsends data result (by simp)
      by_cases hconnected : t.conn.state = .connected
      · refine ⟨sent ++ [packet], fun p hp => ?_, by simp [State.apply, hconnected, hpayload]⟩
        rcases List.mem_append.1 hp with hp | hp
        · exact hsent p hp
        · exact List.mem_singleton.1 hp ▸ hpacket
      · exact ⟨sent, hsent, by simpa [State.apply, hconnected] using hpayload⟩
    | _ => exact ⟨sent, hsent, hpayload⟩

/-- The peer decodes a first part of the packets that were sent while connected, in order and
without an error, and all of them once it has read all bytes of a connection with nothing left to
write. -/
theorem packets_arrive (hmax : maxBodySize < 2 ^ 32)
    (hrun : Run Step (start initialSize writeCompleteCallback highWaterMark) ls s)
    (hsends : ∀ data result, .send data result ∈ ls →
      ∃ packet, Encodable maxBodySize packet ∧ data = frame packet) :
    ∃ sent : List Packet, s.payload = sent.flatMap frame ∧
      ∀ (size : ℕ) (chunks : List (List UInt8)), chunks.flatten <+: s.conn.accepted →
        packetsUpToError (feed maxBodySize (.make size) chunks).1 <+: sent ∧
        firstError (feed maxBodySize (.make size) chunks).1 = none ∧
        (s.conn.state ≠ .disconnected → s.conn.outputBuffer.readable = [] →
          chunks.flatten = s.conn.accepted →
            packetsUpToError (feed maxBodySize (.make size) chunks).1 = sent ∧
            (feed maxBodySize (.make size) chunks).2.readable = []) := by
  obtain ⟨sent, hsent, hpayload⟩ := exists_sent hrun hsends
  have hinv := Inv.run hrun
  have hframes : ∀ packet ∈ sent, ∀ ys, (framing maxBodySize).parse (frame packet ++ ys) =
      .frame packet (frame packet).length :=
    fun packet hpacket => parse_frameWith hmax (hsent packet hpacket) 0
  have hwhole := Framing.drain_flatMap hframes []
  rw [List.append_nil, Framing.drain_of_more (framing maxBodySize).parse_nil,
    List.append_nil] at hwhole
  refine ⟨sent, hpayload, fun size chunks harrived => ?_⟩
  obtain ⟨hresults, hleft⟩ := feed_pair maxBodySize (.make size) chunks
  rw [Buffer.readable_make] at hresults hleft
  obtain ⟨hall, hrest⟩ := Framing.feed_eq_drain chunks (framing maxBodySize).parse_nil
  rw [← hresults, upToError_pair, List.nil_append, Prod.mk.injEq] at hall
  rw [List.nil_append] at hrest
  have hprefix : chunks.flatten <+: sent.flatMap frame :=
    hpayload ▸ harrived.trans hinv.isPrefix
  obtain ⟨hfirst, hok⟩ := Framing.drain_of_prefix hprefix (congrArg (·.2.1) hwhole)
  rw [hwhole] at hfirst
  refine ⟨hall.1 ▸ hfirst, hall.2.trans hok, fun hopen hempty hread => ?_⟩
  have hbytes := hinv.rest hopen
  rw [hempty, List.append_nil, ← hread, hpayload] at hbytes
  rw [hbytes, hwhole] at hall hrest
  exact ⟨hall.1, hleft.trans hrest⟩

/-- Two packets that arrive in two pieces. -/
theorem packets_arrive_sample : ∃ (sent : List Packet) (s : State),
    s.payload = sent.flatMap frame ∧ s.conn.accepted.length = 42 ∧
      packetsUpToError (feed 2 (.make 0)
        [s.conn.accepted.take 7, s.conn.accepted.drop 7]).1 = sent := by
  let ls : List Label := samplePackets.map fun packet =>
    .send (frame packet) (.sent (frame packet).length)
  have hrun : Run Step (start 0 true none) ls (ls.foldl State.apply (start 0 true none)) :=
    @Run.of_allowed _ _ _ State.enabled State.apply (fun _ _ h => ⟨h, rfl⟩) _ ls (by decide)
  have hsends : ∀ data result, Label.send data result ∈ ls →
      ∃ packet, Encodable 2 packet ∧ data = frame packet := by
    intro data result h
    obtain ⟨packet, hpacket, heq⟩ := List.mem_map.1 h
    cases heq
    exact ⟨packet, samplePackets_encodable packet hpacket, rfl⟩
  obtain ⟨sent, hpayload, harrive⟩ := packets_arrive (by decide : 2 < 2 ^ 32) hrun hsends
  obtain ⟨s, hs⟩ : ∃ s, s = ls.foldl State.apply (start 0 true none) := ⟨_, rfl⟩
  have hbytes : [s.conn.accepted.take 7, s.conn.accepted.drop 7].flatten = s.conn.accepted := by
    simp
  rw [← hs] at harrive hpayload
  have hread := harrive 0 _ ⟨[], by rw [hbytes, List.append_nil]⟩
  refine ⟨sent, s, hpayload, ?_, (hread.2.2 ?_ ?_ hbytes).1⟩ <;>
  · rw [hs]
    decide

end TinyImx.Protocol
