import Dhcp.Proofs.Calls
import Dhcp.Proofs.Codec
import Dhcp.Proofs.Eligible

/-!
Replies as octets. Of a request a reply repeats the transaction number and the hardware
address where they stood; what else the fixed part says is the type, the leased address
and the server, and all other octets of it are zero. Each option is there once, can be
read back to the setting of the configuration that it reports, and has its share in the
length of the datagram.
-/
namespace Dhcp

/-- The addresses of a payload, four octets each, when no octet is left over. -/
def readAddresses? : List UInt8 → Option (List Ipv4)
  | [] => some []
  | a :: b :: c :: d :: rest => (readAddresses? rest).map (Ipv4.ofParts a b c d :: ·)
  | _ => none

theorem readAddresses?_octets_append (a : Ipv4) (rest : List UInt8) :
    readAddresses? (a.octets.toList ++ rest) = (readAddresses? rest).map (a :: ·) := by
  obtain ⟨octets, hoctets⟩ : ∃ octets, a = Ipv4.ofOctets octets := ⟨_, a.ofOctets_octets.symm⟩
  rw [hoctets, Ipv4.octets_ofOctets]
  obtain ⟨bytes, hlength⟩ := octets
  match bytes, hlength with
  | [_, _, _, _], _ => rfl

theorem readAddresses?_encodeAddresses (addresses : List Ipv4) :
    readAddresses? (encodeAddresses addresses) = some addresses := by
  induction addresses with
  | nil => rfl
  | cons a rest ih =>
    rw [encodeAddresses, List.flatMap_cons, ← encodeAddresses, readAddresses?_octets_append, ih,
      Option.map_some]

namespace Header

/-- The transaction number is written as it was read. -/
theorem octets_xid_of_parse {bytes : List UInt8} {header : Header}
    (h : parse bytes = .ok header) :
    (Octets.littleEndian 4 header.xid.toNat).toList = (bytes.drop 4).take 4 := by
  obtain ⟨⟨hsize, rfl⟩, -⟩ := parse_eq_ok_iff.mp h
  exact congrArg Octets.toList (littleEndian_ofNat_uint32 _)

theorem octets_chaddr_of_parse {bytes : List UInt8} {header : Header}
    (h : parse bytes = .ok header) :
    header.chaddr.octets.toList = (bytes.drop 28).take 6 := by
  obtain ⟨⟨hsize, rfl⟩, -⟩ := parse_eq_ok_iff.mp h
  rfl

end Header

/-- In an area without repeated codes every option is the first of its code. -/
theorem Packet.payload?_of_mem {packet : Packet} {field : OptionField}
    (once : (packet.options.fields.map OptionField.code).Nodup)
    (h : field ∈ packet.options.fields) : packet.payload? field.code = some field.data := by
  unfold payload?
  generalize packet.options.fields = fields at once h
  induction fields with
  | nil => cases h
  | cons first rest ih =>
    obtain ⟨fresh, once⟩ := List.nodup_cons.mp once
    rcases List.mem_cons.mp h with rfl | hrest
    · simp
    · have hne : first.code ≠ field.code := by
        intro heq
        exact fresh (heq ▸ List.mem_map_of_mem hrest)
      rw [List.find?_cons_of_neg (by simpa using hne), ih once hrest]

theorem Packet.payload?_of_not_mem {packet : Packet} {code : UInt8}
    (h : code ∉ packet.options.fields.map OptionField.code) : packet.payload? code = none := by
  have habsent : packet.options.fields.find? (fun field => field.code == code) = none := by
    refine List.find?_eq_none.mpr fun field hfield heq => h ?_
    exact List.mem_map.mpr ⟨field, hfield, by simpa using heq⟩
  rw [payload?, habsent, Option.map_none]

theorem Packet.take_encode (packet : Packet) : packet.encode.take 240 = packet.header.encode := by
  rw [encode, body, List.append_assoc]
  exact List.take_left' packet.header.length_encode

namespace Reply

/-- The octets that the option of a list takes up. -/
def listSize (addresses : List Ipv4) : Nat :=
  if addresses = [] then 0 else 2 + 4 * addresses.length

/-- The fixed part of a reply, octet by octet, as it follows from the octets of the request. -/
structure Echoes (config : Config) (asked : List UInt8) (reply : Packet) : Prop where
  reads_back : Packet.parse reply.encode = .ok reply
  xid_eq : (reply.encode.drop 4).take 4 = (asked.drop 4).take 4
  chaddr_eq : (reply.encode.drop 28).take 6 = (asked.drop 28).take 6
  op_cases : reply.header.op = 2 ∨ reply.header.op = 5
  header_eq : reply.encode.take 240 =
    [reply.header.op, 1, 6, 0] ++ (asked.drop 4).take 4 ++ List.replicate 8 0 ++
      reply.header.yiaddr.octets.toList ++ config.serverAddress.octets.toList ++
      List.replicate 4 0 ++ (asked.drop 28).take 6 ++ List.replicate 202 0 ++ [99, 130, 83, 99]

/-- The options of a reply report the settings of the configuration, each once. -/
structure Reports (config : Config) (reply : Packet) : Prop where
  codes_eq : reply.options.fields.map OptionField.code =
    [53, 1] ++ (if config.routers = [] then [] else [3]) ++
      (if config.dnsServers = [] then [] else [6]) ++ [51, 54]
  codes_once : (reply.options.fields.map OptionField.code).Nodup
  type_eq : reply.payload? 53 = some [reply.header.op]
  mask_eq : reply.payload? 1 = some config.subnetMask.octets.toList
  routers_eq : (reply.payload? 3).map readAddresses? =
    if config.routers = [] then none else some (some config.routers)
  servers_eq : (reply.payload? 6).map readAddresses? =
    if config.dnsServers = [] then none else some (some config.dnsServers)
  time_eq : ∃ time : Octets 4, reply.payload? 51 = some time.toList ∧
    time.toNatBig = config.leaseSeconds.toNat
  server_eq : reply.payload? 54 = some config.serverAddress.octets.toList

variable {config : Config} {type : MessageType} {xid : UInt32} {a : Ipv4}
  {client : HardwareAddress} {fit : config.ListsFit}

theorem encode_header_packet : (packet config type xid a client fit).header.encode =
    [type.toUInt8, 1, 6, 0] ++ (Octets.littleEndian 4 xid.toNat).toList ++ List.replicate 8 0 ++
      a.octets.toList ++ config.serverAddress.octets.toList ++ List.replicate 4 0 ++
      client.octets.toList ++ List.replicate 202 0 ++ [99, 130, 83, 99] := by
  have hfront : List.replicate 8 (0 : UInt8) = (Octets.littleEndian 2 0).toList ++
      ((Octets.littleEndian 2 0).toList ++ Ipv4.unspecified.octets.toList) := rfl
  have hback : List.replicate 202 (0 : UInt8) =
      (Octets.zero 10).toList ++ ((Octets.zero 64).toList ++ (Octets.zero 128).toList) := rfl
  rw [hfront, hback]
  simp only [Header.encode, packet, List.append_assoc]
  rfl

theorem codes_addressFields (code : OptionCode) {addresses : List Ipv4}
    (h : addresses.length ≤ Config.maximumAddresses) (pad : code ≠ .pad)
    (last : code ≠ .endOfOptions) :
    (addressFields code addresses h pad last).map OptionField.code =
      if addresses = [] then [] else [code.toUInt8] := by
  unfold addressFields
  split
  · rfl
  · rfl

theorem codes_fields (config : Config) (type : MessageType) (fit : config.ListsFit) :
    (fields config type fit).map OptionField.code =
      [53, 1] ++ (if config.routers = [] then [] else [3]) ++
        (if config.dnsServers = [] then [] else [6]) ++ [51, 54] := by
  simp only [fields, List.map_append, codes_addressFields]
  rfl

theorem codes_fields_nodup (config : Config) (type : MessageType) (fit : config.ListsFit) :
    ((fields config type fit).map OptionField.code).Nodup := by
  rw [codes_fields]
  split
  · split
    · decide
    · decide
  · split
    · decide
    · decide

theorem length_encode_named (code : OptionCode) {data : List UInt8} (h : data.length ≤ 255)
    (pad : code ≠ .pad) (last : code ≠ .endOfOptions) :
    (OptionField.named code data h pad last).encode.length = 2 + data.length := by
  simp only [OptionField.encode, OptionField.named, List.length_cons]
  omega

theorem length_encode_addressFields (code : OptionCode) {addresses : List Ipv4}
    (h : addresses.length ≤ Config.maximumAddresses) (pad : code ≠ .pad)
    (last : code ≠ .endOfOptions) :
    ((addressFields code addresses h pad last).flatMap OptionField.encode).length =
      listSize addresses := by
  unfold addressFields listSize
  split
  · rfl
  · rw [List.flatMap_singleton, length_encode_named, length_encodeAddresses]

theorem length_encode_fields (config : Config) (type : MessageType) (fit : config.ListsFit) :
    ((fields config type fit).flatMap OptionField.encode).length =
      21 + listSize config.routers + listSize config.dnsServers := by
  simp only [fields, front, List.flatMap_append, List.flatMap_cons, List.flatMap_nil,
    List.length_append, length_encode_addressFields, length_encode_named, Octets.length_toList,
    List.length_singleton, List.length_nil]
  omega

theorem length_encode_packet : (packet config type xid a client fit).encode.length =
    max 300 (262 + listSize config.routers + listSize config.dnsServers) := by
  have hbody := Packet.length_body (packet config type xid a client fit)
  rw [packet, length_encode_fields] at hbody
  rw [Packet.length_encode, packet, hbody, Packet.minimumSize]
  omega

theorem listSize_le {addresses : List Ipv4} (h : addresses.length ≤ Config.maximumAddresses) :
    listSize addresses ≤ 254 := by
  unfold Config.maximumAddresses at h
  unfold listSize
  split
  · omega
  · omega

theorem length_encode_packet_le : (packet config type xid a client fit).encode.length ≤ 770 := by
  have hrouters := listSize_le fit.1
  have hservers := listSize_le fit.2
  rw [length_encode_packet]
  omega

theorem payload?_packet (code : OptionCode) {data : List UInt8} {h : data.length ≤ 255}
    {pad : code ≠ .pad} {last : code ≠ .endOfOptions}
    (hmem : .named code data h pad last ∈ fields config type fit) :
    (packet config type xid a client fit).payload? code.toUInt8 = some data := by
  have once : ((packet config type xid a client fit).options.fields.map OptionField.code).Nodup :=
    codes_fields_nodup config type fit
  exact Packet.payload?_of_mem once hmem

/-- The option of a list reads as that list; an empty list has none. -/
theorem payload?_list (code : OptionCode) {addresses : List Ipv4}
    {h : addresses.length ≤ Config.maximumAddresses} {pad : code ≠ .pad}
    {last : code ≠ .endOfOptions}
    (hsub : addressFields code addresses h pad last ⊆ fields config type fit)
    (habsent : addresses = [] → code.toUInt8 ∉ (fields config type fit).map OptionField.code) :
    ((packet config type xid a client fit).payload? code.toUInt8).map readAddresses? =
      if addresses = [] then none else some (some addresses) := by
  by_cases hempty : addresses = []
  · rw [if_pos hempty, Packet.payload?_of_not_mem (habsent hempty), Option.map_none]
  · rw [addressFields, if_neg hempty] at hsub
    rw [if_neg hempty, payload?_packet code (hsub (List.mem_singleton.mpr rfl)), Option.map_some,
      readAddresses?_encodeAddresses]

theorem echoes_packet {asked : List UInt8} {request : Packet}
    (hparse : Packet.parse asked = .ok request) (htype : type = .offer ∨ type = .ack) :
    Echoes config asked (packet config type request.header.xid a request.header.chaddr fit) := by
  have hreads : Packet.parse (packet config type request.header.xid a request.header.chaddr
      fit).encode = .ok (packet config type request.header.xid a request.header.chaddr fit) :=
    Packet.parse_encode rfl
  have hasked := (Packet.parse_eq_ok_iff.mp hparse).1
  have hwritten := (Packet.parse_eq_ok_iff.mp hreads).1
  refine ⟨hreads, ?_, ?_, ?_, ?_⟩
  · rw [← Header.octets_xid_of_parse hasked, ← Header.octets_xid_of_parse hwritten]
    rfl
  · rw [← Header.octets_chaddr_of_parse hasked, ← Header.octets_chaddr_of_parse hwritten]
    rfl
  · rcases htype with rfl | rfl
    · exact .inl rfl
    · exact .inr rfl
  · rw [Packet.take_encode, encode_header_packet, Header.octets_xid_of_parse hasked,
      Header.octets_chaddr_of_parse hasked]
    rfl

theorem reports_packet : Reports config (packet config type xid a client fit) := by
  have hfront : front config type ⊆ fields config type fit := by
    intro field h
    simp only [fields, List.mem_append, h, true_or]
  have hrouters : addressFields .router config.routers fit.1 ⊆ fields config type fit := by
    intro field h
    simp only [fields, List.mem_append, h, true_or, or_true]
  have hservers : addressFields .dnsServer config.dnsServers fit.2 ⊆ fields config type fit := by
    intro field h
    simp only [fields, List.mem_append, h, true_or, or_true]
  have hback : [.named .leaseTime (Octets.bigEndian 4 config.leaseSeconds.toNat).toList
        (length_word_le _), .named .serverIdentifier config.serverAddress.octets.toList
        (length_word_le _)] ⊆ fields config type fit := by
    intro field h
    simp only [fields, List.mem_append, h, or_true]
  refine ⟨codes_fields config type fit, codes_fields_nodup config type fit,
    payload?_packet .messageType (hfront (.head _)),
    payload?_packet .subnetMask (hfront (.tail _ (.head _))),
    payload?_list .router hrouters ?_, payload?_list .dnsServer hservers ?_,
    ⟨.bigEndian 4 config.leaseSeconds.toNat, payload?_packet .leaseTime (hback (.head _)), ?_⟩,
    payload?_packet .serverIdentifier (hback (.tail _ (.head _)))⟩
  · intro hempty
    rw [codes_fields, if_pos hempty]
    split
    · decide
    · decide
  · intro hempty
    rw [codes_fields, if_pos hempty]
    split
    · decide
    · decide
  · rw [Octets.toNatBig_bigEndian]
    exact Nat.mod_eq_of_lt config.leaseSeconds.toNat_lt

end Reply

namespace Server

/-- Every reply reads back as itself, repeats the transaction number and the hardware
address of the request, names the address that the pool has leased to that client, is
addressed from the server, and reports the configuration in its options. Its length
follows from the lists and stays within 770 octets. -/
theorem replies_are_faithful (config : Config) (calls : List Call) (arrival : Arrival)
    (reply : Packet)
    (h : (respond ((Pool.create config).afterCalls calls) arrival.bytes arrival.source
      arrival.now).reply = some reply) :
    Reply.Echoes config arrival.bytes reply ∧ Reply.Reports config reply ∧
    (respond ((Pool.create config).afterCalls calls) arrival.bytes arrival.source
      arrival.now).pool.addressOf reply.header.chaddr = some reply.header.yiaddr ∧
    reply.encode.length =
      max 300 (262 + Reply.listSize config.routers + Reply.listSize config.dnsServers) ∧
    reply.encode.length ≤ 770 := by
  have hconfig : ((Pool.create config).afterCalls calls).config = config :=
    Pool.config_afterCalls (Pool.create config) calls
  have hp := Pool.consistent_afterCalls (Pool.consistent_create config) calls
  obtain ⟨-, lease, -, haddress, -, hheld⟩ := Arrival.lease_of_reply hp h
  have hnamed := Pool.addressOf_of_leaseOf hheld
  rw [haddress] at hnamed
  obtain ⟨packet, type, held, fit, heligible, htype, hreply, -⟩ := Arrival.packet_of_reply h
  have hparse := (Arrival.eligible?_eq_some_iff.mp heligible).2.1
  have hechoes : Reply.Echoes _ arrival.bytes reply := hreply ▸ Reply.echoes_packet hparse htype
  have hreports : Reply.Reports _ reply := hreply ▸ Reply.reports_packet
  have hlength : reply.encode.length = _ := hreply ▸ Reply.length_encode_packet
  have hle : reply.encode.length ≤ 770 := hreply ▸ Reply.length_encode_packet_le
  rw [hconfig] at hechoes hreports hlength
  exact ⟨hechoes, hreports, hnamed, hlength, hle⟩

/-- A discovery with a transaction number of four different octets. -/
def numbered : Packet :=
  ⟨{ op := 1, xid := 305419896, chaddr := ⟨⟨[170, 187, 204, 221, 238, 255], rfl⟩⟩ }, .empty⟩

theorem reply_repeats_number_and_reports_routers :
    ∃ reply, (respond (Pool.create .standard) numbered.encode ⟨.unspecified, 68⟩ ⟨0⟩).reply =
        some reply ∧
      (reply.encode.drop 4).take 4 = [120, 86, 52, 18] ∧
      (reply.payload? 3).map readAddresses? = some (some [.ofParts 192 168 1 1]) ∧
      reply.encode.length = 300 := by
  have hsome : (respond (Pool.create .standard) numbered.encode ⟨.unspecified, 68⟩
      ⟨0⟩).reply.isSome := by
    decide +kernel
  obtain ⟨reply, hreply⟩ := Option.isSome_iff_exists.mp hsome
  obtain ⟨hechoes, hreports, -, hlength, -⟩ := replies_are_faithful .standard []
    ⟨numbered.encode, ⟨.unspecified, 68⟩, ⟨0⟩⟩ reply hreply
  refine ⟨reply, hreply, ?_, hreports.routers_eq, hlength⟩
  rw [hechoes.xid_eq]
  decide +kernel

end Server

end Dhcp
