import Dhcp.Config.Rules
import Dhcp.Server.Reply

/-!
The options of a reply written out. When both address lists of a configuration
fit into one option each, a reply carries its options in a fixed order and no
code twice; otherwise no reply can be built, and the routers are blamed first.
-/
namespace Dhcp

def Config.ListsFit (config : Config) : Prop :=
  config.routers.length ≤ Config.maximumAddresses ∧
    config.dnsServers.length ≤ Config.maximumAddresses

instance (config : Config) : Decidable config.ListsFit := inferInstanceAs (Decidable (_ ∧ _))

/-- What is wrong with the lists when they do not both fit: the routers come first. -/
def Config.overlong (config : Config) : OptionFault :=
  if maximumAddresses < config.routers.length then
    .tooLong OptionCode.router.toUInt8 (4 * config.routers.length)
  else .tooLong OptionCode.dnsServer.toUInt8 (4 * config.dnsServers.length)

namespace Reply

/-- Every option has a code from the list. -/
def CodesIn (fields : List OptionField) (codes : List OptionCode) : Prop :=
  ∀ field ∈ fields, ∃ code ∈ codes, field.code = code.toUInt8

theorem CodesIn.append {fields others : List OptionField} {codes more : List OptionCode}
    (h : CodesIn fields codes) (h' : CodesIn others more) :
    CodesIn (fields ++ others) (codes ++ more) := by
  intro field hfield
  rcases List.mem_append.mp hfield with hleft | hright
  · obtain ⟨code, hcode, heq⟩ := h field hleft
    exact ⟨code, List.mem_append_left _ hcode, heq⟩
  · obtain ⟨code, hcode, heq⟩ := h' field hright
    exact ⟨code, List.mem_append_right _ hcode, heq⟩

theorem codesIn_named (code : OptionCode) {data : List UInt8} (h : data.length ≤ 255)
    (pad : code ≠ .pad := by decide) (last : code ≠ .endOfOptions := by decide) :
    CodesIn [.named code data h pad last] [code] := by
  intro field hfield
  rw [List.mem_singleton.mp hfield]
  exact ⟨code, List.mem_singleton.mpr rfl, rfl⟩

/-- Setting a code that is not there yet appends an option. -/
theorem set_eq_ok {fields : List OptionField} {codes : List OptionCode} (h : CodesIn fields codes)
    (code : OptionCode) {data : List UInt8} (hle : data.length ≤ 255)
    (absent : code ∉ codes := by decide) (pad : code ≠ .pad := by decide)
    (last : code ≠ .endOfOptions := by decide) :
    OptionArea.set ⟨fields⟩ code.toUInt8 data =
      .ok ⟨fields ++ [.named code data hle pad last]⟩ := by
  have hother : ∀ other ∈ fields, other.code ≠ code.toUInt8 := by
    intro other hmem heq
    obtain ⟨named, hnamed, hcode⟩ := h other hmem
    rw [hcode] at heq
    exact absent (OptionCode.toUInt8_inj.mp heq ▸ hnamed)
  have hcreate := OptionField.create_eq_ok (mt OptionCode.toUInt8_inj.mp pad)
    (mt OptionCode.toUInt8_inj.mp last) hle
  rw [OptionArea.set, hcreate]
  change Except.ok (OptionArea.put ⟨fields⟩ (.named code data hle pad last)) = _
  rw [OptionArea.put, OptionArea.putField_of_absent hother]

theorem length_word_le (word : Octets 4) : word.toList.length ≤ 255 := by
  rw [word.length_toList]
  decide

theorem length_encodeAddresses_le {addresses : List Ipv4}
    (h : addresses.length ≤ Config.maximumAddresses) :
    (encodeAddresses addresses).length ≤ 255 := by
  unfold Config.maximumAddresses at h
  rw [length_encodeAddresses]
  omega

/-- The option that lists some addresses; none for the empty list. -/
def addressFields (code : OptionCode) (addresses : List Ipv4)
    (h : addresses.length ≤ Config.maximumAddresses) (pad : code ≠ .pad := by decide)
    (last : code ≠ .endOfOptions := by decide) : List OptionField :=
  if addresses = [] then []
  else [.named code (encodeAddresses addresses) (length_encodeAddresses_le h) pad last]

/-- The front of a reply, which every configuration has. -/
def front (config : Config) (type : MessageType) : List OptionField :=
  [.named .messageType [type.toUInt8] (by simp),
    .named .subnetMask config.subnetMask.octets.toList (length_word_le _)]

def fields (config : Config) (type : MessageType) (fit : config.ListsFit) : List OptionField :=
  front config type ++
  addressFields .router config.routers fit.1 ++
  addressFields .dnsServer config.dnsServers fit.2 ++
  [.named .leaseTime (Octets.bigEndian 4 config.leaseSeconds.toNat).toList (length_word_le _),
    .named .serverIdentifier config.serverAddress.octets.toList (length_word_le _)]

theorem codesIn_front (config : Config) (type : MessageType) :
    CodesIn (front config type) [.messageType, .subnetMask] :=
  (codesIn_named .messageType _).append (codesIn_named .subnetMask _)

variable {addresses : List Ipv4} {pre : List OptionField} {codes : List OptionCode}

theorem codesIn_addressFields (code : OptionCode)
    (h : addresses.length ≤ Config.maximumAddresses) (pad : code ≠ .pad := by decide)
    (last : code ≠ .endOfOptions := by decide) :
    CodesIn (addressFields code addresses h pad last) [code] := by
  unfold addressFields
  split
  · intro field hfield
    cases hfield
  · exact codesIn_named code _ pad last

theorem setAddresses_eq_ok (hcodes : CodesIn pre codes) (code : OptionCode)
    (h : addresses.length ≤ Config.maximumAddresses)
    (absent : code ∉ codes := by decide) (pad : code ≠ .pad := by decide)
    (last : code ≠ .endOfOptions := by decide) :
    setAddresses ⟨pre⟩ code addresses =
      .ok ⟨pre ++ addressFields code addresses h pad last⟩ := by
  unfold setAddresses addressFields
  split
  · rw [List.append_nil]
  · exact set_eq_ok hcodes code (length_encodeAddresses_le h) absent pad last

theorem setAddresses_eq_error (area : OptionArea) (code : OptionCode)
    (h : Config.maximumAddresses < addresses.length)
    (pad : code ≠ .pad := by decide) (last : code ≠ .endOfOptions := by decide) :
    setAddresses area code addresses = .error (.tooLong code.toUInt8 (4 * addresses.length)) := by
  unfold Config.maximumAddresses at h
  have hne : addresses ≠ [] := by
    intro heq
    rw [heq] at h
    cases h
  have hlong : 255 < (encodeAddresses addresses).length := by
    rw [length_encodeAddresses]
    omega
  have hcreate := OptionField.create_eq_tooLong (mt OptionCode.toUInt8_inj.mp pad)
    (mt OptionCode.toUInt8_inj.mp last) hlong
  rw [setAddresses, if_neg hne, OptionArea.set, hcreate, length_encodeAddresses]
  rfl

theorem options_eq_front (config : Config) (type : MessageType) :
    options config type = (do
      let area ← setAddresses ⟨front config type⟩ .router config.routers
      let area ← setAddresses area .dnsServer config.dnsServers
      let area ← area.set OptionCode.leaseTime.toUInt8
        (Octets.bigEndian 4 config.leaseSeconds.toNat).toList
      area.set OptionCode.serverIdentifier.toUInt8 config.serverAddress.octets.toList) := by
  have hempty : CodesIn [] [] := by
    intro field hfield
    cases hfield
  have first : OptionArea.empty.set OptionCode.messageType.toUInt8 [type.toUInt8] =
      .ok ⟨[.named .messageType [type.toUInt8] (by simp)]⟩ := set_eq_ok hempty .messageType _
  have second : OptionArea.set ⟨[.named .messageType [type.toUInt8] (by simp)]⟩
      OptionCode.subnetMask.toUInt8 config.subnetMask.octets.toList = .ok ⟨front config type⟩ :=
    set_eq_ok (codesIn_named .messageType _) .subnetMask (length_word_le _)
  simp only [options, first, second, bind, Except.bind]

theorem options_eq_ok (config : Config) (type : MessageType) (fit : config.ListsFit) :
    options config type = .ok ⟨fields config type fit⟩ := by
  have hfront := codesIn_front config type
  have hrouters := hfront.append (codesIn_addressFields .router fit.1)
  have hservers := hrouters.append (codesIn_addressFields .dnsServer fit.2)
  have htime := length_word_le (Octets.bigEndian 4 config.leaseSeconds.toNat)
  have routers := setAddresses_eq_ok hfront .router fit.1
  have servers := setAddresses_eq_ok hrouters .dnsServer fit.2
  have time := set_eq_ok hservers .leaseTime htime
  have server := set_eq_ok (hservers.append (codesIn_named .leaseTime htime)) .serverIdentifier
    (length_word_le config.serverAddress.octets)
  rw [options_eq_front]
  simp only [routers, servers, time, server, bind, Except.bind]
  simp only [fields, List.append_assoc, List.cons_append, List.nil_append]

theorem options_eq_error (config : Config) (type : MessageType) (h : ¬ config.ListsFit) :
    options config type = .error config.overlong := by
  rw [options_eq_front, Config.overlong]
  by_cases hrouters : Config.maximumAddresses < config.routers.length
  · have failed := setAddresses_eq_error ⟨front config type⟩ .router hrouters
    simp only [failed, bind, Except.bind, if_pos hrouters]
  · have fit := Nat.not_lt.mp hrouters
    have hservers : Config.maximumAddresses < config.dnsServers.length := by
      refine Nat.not_le.mp fun hle => h ⟨fit, hle⟩
    have routers := setAddresses_eq_ok (codesIn_front config type) .router fit
    have failed := setAddresses_eq_error
      ⟨front config type ++ addressFields .router config.routers fit⟩ .dnsServer hservers
    simp only [routers, failed, bind, Except.bind, if_neg hrouters]

/-- The reply about a leased address to the datagram of a client. -/
def packet (config : Config) (type : MessageType) (xid : UInt32) (address : Ipv4)
    (client : HardwareAddress) (fit : config.ListsFit) : Packet where
  header := {
    op := type.toUInt8
    xid := xid
    yiaddr := address
    siaddr := config.serverAddress
    chaddr := client }
  options := ⟨fields config type fit⟩

theorem build_eq_ok (config : Config) (request : Request) (lease : Lease) (type : MessageType)
    (fit : config.ListsFit) :
    build config request lease type =
      .ok (packet config type request.xid lease.address request.client fit) := by
  simp only [build, options_eq_ok config type fit, bind, Except.bind]
  rfl

theorem build_eq_error (config : Config) (request : Request) (lease : Lease) (type : MessageType)
    (h : ¬ config.ListsFit) :
    build config request lease type = .error config.overlong := by
  simp only [build, options_eq_error config type h, bind, Except.bind]

/-- A reply names the leased address and the client it was built for. -/
theorem header_of_build {config : Config} {request : Request} {lease : Lease} {type : MessageType}
    {reply : Packet} (h : build config request lease type = .ok reply) :
    reply.header = header config request lease type := by
  unfold build at h
  cases hoptions : options config type with
  | error fault => simp [hoptions, bind, Except.bind] at h
  | ok area =>
    simp only [hoptions, bind, Except.bind, pure, Except.pure, Except.ok.injEq] at h
    rw [← h]

end Reply

end Dhcp
