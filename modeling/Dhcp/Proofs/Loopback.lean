import Dhcp.Proofs.Calls
import Dhcp.Proofs.Codec
import Dhcp.Proofs.Eligible

/-!
Replies that come back to a server. What a server has sent reads back as an offer or an
acknowledgement, and on neither does any server act. So a reply that is passed on to a
server, be it to the one that sent it, costs it one line in its log and nothing else,
however often that happens.
-/
namespace Dhcp

/-- The call brings a datagram of these octets to the server. -/
def Call.Brings (bytes : List UInt8) : Call → Prop
  | .respond brought _ _ => brought = bytes
  | .handle _ brought _ _ => brought = bytes
  | _ => False

namespace Server

/-- The one event of a reply that comes back, by the port it comes from. -/
def returned (type : MessageType) (client : HardwareAddress) (source : Endpoint) : Event :=
  if source.port = 68 then .unimplemented type client
  else .refused source (.sourcePort source.port)

theorem level_returned (type : MessageType) (client : HardwareAddress) (source : Endpoint) :
    (returned type client source).level = .warn := by
  unfold returned
  split
  · rfl
  · rfl

variable {reply : Packet} {type : MessageType}

/-- On a datagram of a type for which there is no work the server does nothing. -/
theorem respond_returned (hreads : Packet.parse reply.encode = .ok reply)
    (htype : reply.effectiveType = type.toUInt8) (hidle : type ≠ .discover ∧ type ≠ .request)
    (pool : Pool) (source : Endpoint) (now : Instant) :
    respond pool reply.encode source now =
      ⟨none, [returned type reply.header.chaddr source], pool⟩ := by
  rw [respond_eq, returned]
  by_cases hport : source.port = 68
  · have hparse : Request.parse reply.encode source = .ok (Request.ofPacket reply source) :=
      Request.parse_eq_ok_iff.mpr ⟨hport, reply, hreads, rfl⟩
    have hkind : (Request.ofPacket reply source).kind? = some type :=
      Arrival.kind?_ofPacket.mpr htype
    simp only [hparse, hkind, if_pos hport]
    split
    · next heq => exact absurd (Option.some.inj heq) hidle.1
    · next heq => exact absurd (Option.some.inj heq) hidle.2
    · next heq =>
      rw [Option.some.inj heq]
      rfl
    · next heq => cases heq
  · have hparse : Request.parse reply.encode source = .error (.sourcePort source.port) :=
      if_pos hport
    simp only [hparse, if_neg hport]

theorem handle_returned (hreads : Packet.parse reply.encode = .ok reply)
    (htype : reply.effectiveType = type.toUInt8) (hidle : type ≠ .discover ∧ type ≠ .request)
    (deliver : Delivery) (pool : Pool) (source : Endpoint) (now : Instant) :
    handle deliver pool reply.encode source now =
      ⟨none, [returned type reply.header.chaddr source], pool⟩ := by
  have hrespond := respond_returned hreads htype hidle pool source now
  unfold handle
  simp only [hrespond]

/-- No run of calls that only bring a reply back changes a pool. -/
theorem afterCalls_returned (hreads : Packet.parse reply.encode = .ok reply)
    (htype : reply.effectiveType = type.toUInt8) (hidle : type ≠ .discover ∧ type ≠ .request)
    (pool : Pool) {calls : List Call} (hcalls : ∀ call ∈ calls, call.Brings reply.encode) :
    pool.afterCalls calls = pool := by
  induction calls with
  | nil => rfl
  | cons call rest ih =>
    obtain ⟨hcall, hrest⟩ := List.forall_mem_cons.mp hcalls
    have hsame : pool.afterCall call = pool := by
      cases call with
      | nextLease => cases hcall
      | leaseFor => cases hcall
      | respond brought source now =>
        obtain rfl : brought = reply.encode := hcall
        rw [Pool.afterCall, respond_returned hreads htype hidle]
      | handle deliver brought source now =>
        obtain rfl : brought = reply.encode := hcall
        rw [Pool.afterCall, handle_returned hreads htype hidle]
    change (pool.afterCall call).afterCalls rest = pool
    rw [hsame]
    exact ih hrest

/-- The type option of a reply agrees with its operation. -/
theorem effectiveType_packet {config : Config} {xid : UInt32} {a : Ipv4}
    {client : HardwareAddress} {fit : config.ListsFit} :
    (Reply.packet config type xid a client fit).effectiveType = type.toUInt8 := rfl

/-- Every reply that some server gives is dropped by every server, in whatever state and under
whatever configuration that one is. Its pool stays as it is, nothing is sent, and there is one
warning: that the datagram comes from the wrong port, or that the type it has, that of the
reply, is not one to act on. No number of such datagrams makes a difference to a pool. -/
theorem replies_are_never_answered (config : Config) (calls : List Call) (arrival : Arrival)
    (reply : Packet)
    (h : (respond ((Pool.create config).afterCalls calls) arrival.bytes arrival.source
      arrival.now).reply = some reply) :
    ∃ type : MessageType, (type = .offer ∨ type = .ack) ∧ reply.header.op = type.toUInt8 ∧
      (∀ (pool : Pool) (source : Endpoint) (now : Instant), ∃ event : Event,
        respond pool reply.encode source now = ⟨none, [event], pool⟩ ∧
        (∀ deliver, handle deliver pool reply.encode source now = ⟨none, [event], pool⟩) ∧
        event.level = .warn ∧
        event.text =
          if source.port = 68 then
            "Unimplemented " ++ type.text ++ " from " ++ toString reply.header.chaddr
          else
            "Failed parsing request from " ++ toString source ++ ": " ++
              ("Source port is " ++ toString source.port.toNat ++ " rather than 68")) ∧
      ∀ (pool : Pool) (later : List Call), (∀ call ∈ later, call.Brings reply.encode) →
        pool.afterCalls later = pool := by
  obtain ⟨packet, type, lease, fit, -, htype, rfl, -⟩ := Arrival.packet_of_reply h
  have hreads : Packet.parse (Reply.packet _ type packet.header.xid lease.address
      packet.header.chaddr fit).encode = .ok _ := Packet.parse_encode rfl
  have hidle : type ≠ .discover ∧ type ≠ .request := by
    rcases htype with rfl | rfl
    · decide
    · decide
  refine ⟨type, htype, rfl, ?_, ?_⟩
  · intro pool source now
    refine ⟨returned type packet.header.chaddr source, ?_, ?_, level_returned _ _ _, ?_⟩
    · exact respond_returned hreads effectiveType_packet hidle pool source now
    · intro deliver
      exact handle_returned hreads effectiveType_packet hidle deliver pool source now
    · exact apply_ite Event.text _ _ _
  · intro pool later hlater
    exact afterCalls_returned hreads effectiveType_packet hidle pool hlater

/-- The offer of one server reaches another one from the port of clients and from that of
servers. -/
theorem offer_dropped_from_either_port :
    ∃ offer, (respond (Pool.create .standard) (Packet.discovery 1).encode ⟨.unspecified, 68⟩
        ⟨0⟩).reply = some offer ∧
      ∀ other : Pool, ∃ first second : Event,
        respond other offer.encode ⟨.unspecified, 68⟩ ⟨1⟩ = ⟨none, [first], other⟩ ∧
        first.text = "Unimplemented DHCPOFFER from 00:00:00:00:00:00" ∧
        respond other offer.encode ⟨.unspecified, 67⟩ ⟨2⟩ = ⟨none, [second], other⟩ ∧
        second.text =
          "Failed parsing request from 0.0.0.0:67: Source port is 67 rather than 68" := by
  have hgiven : ((respond (Pool.create .standard) (Packet.discovery 1).encode
      ⟨.unspecified, 68⟩ ⟨0⟩).reply.map fun offer => (offer.header.op, offer.header.chaddr)) =
        some (2, .zero) := by
    decide +kernel
  obtain ⟨offer, hoffer, hfields⟩ := Option.map_eq_some_iff.mp hgiven
  obtain ⟨hop, hclient⟩ := Prod.mk.inj hfields
  obtain ⟨type, htype, htypeOp, hdropped, -⟩ := replies_are_never_answered .standard []
    ⟨(Packet.discovery 1).encode, ⟨.unspecified, 68⟩, ⟨0⟩⟩ offer hoffer
  have hnamed : type = .offer := by
    rw [hop] at htypeOp
    rcases htype with rfl | rfl
    · rfl
    · cases htypeOp
  rw [hnamed, hclient] at hdropped
  refine ⟨offer, hoffer, fun other => ?_⟩
  obtain ⟨first, hfirst, -, -, hfirstText⟩ := hdropped other ⟨.unspecified, 68⟩ ⟨1⟩
  obtain ⟨second, hsecond, -, -, hsecondText⟩ := hdropped other ⟨.unspecified, 67⟩ ⟨2⟩
  refine ⟨first, second, hfirst, hfirstText.trans ?_, hsecond, hsecondText.trans ?_⟩
  · decide +kernel
  · decide +kernel

end Server

end Dhcp
