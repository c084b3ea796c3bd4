import Dhcp.Proofs.Decimal
import Dhcp.Proofs.Dropped

/-!
The log of the server. About one datagram it says first what was asked for, then which
lease was found or made, and last what became of it: the reply that is sent or, graver than
all before it, the reason why there is none. A line about a lease can be told from every
other line, so what the lines say about leases is what happened to them.
-/
namespace Dhcp

/-- The text before the addresses keeps its length, and so does a hardware address. -/
theorem leaseText_inj {words : String} {client other : HardwareAddress} {a b : Ipv4}
    (h : words ++ toString client ++ ": " ++ toString a =
      words ++ toString other ++ ": " ++ toString b) : client = other ∧ a = b := by
  have hclient : (toString client).toList = client.text := String.toList_ofList
  have hother : (toString other).toList = other.text := String.toList_ofList
  have ha : (toString a).toList = a.text := String.toList_ofList
  have hb : (toString b).toList = b.text := String.toList_ofList
  have hchars := congrArg String.toList h
  simp only [String.toList_append, List.append_assoc] at hchars
  rw [hclient, hother, ha, hb] at hchars
  obtain ⟨hclients, hrest⟩ := List.append_inj (List.append_cancel_left hchars)
    (client.length_text.trans other.length_text.symm)
  exact ⟨HardwareAddress.text_inj hclients, Ipv4.text_inj (List.append_cancel_left hrest)⟩

namespace Event

/-- The sixth character of the line that stands for an event. It tells the two events about
leases from each other and from all others. -/
def mark : Event → Char
  | replaced .. | buildFailed .. | sendFailed .. => ' '
  | refused .. => 'F'
  | unimplemented .. | unknownType .. | unrecognized .. => 'U'
  | discover .. | request .. => 'D'
  | noLease .. | mismatch .. => 'C'
  | oldLease .. => 'H'
  | newLease .. => 'G'
  | sending .. => 'S'

theorem getElem?_line (event : Event) : event.line.toList[5]? = some event.mark := by
  unfold line text level
  cases event <;> simp only [Level.text, String.toList_append] <;> rfl

variable {event other : Event}

/-- A line begins with the level of its event and the first words of the text in one. -/
theorem line_eq_append (level : Level) (words : String) {front rest : String}
    (hlevel : event.level = level) (htext : event.text = words ++ rest)
    (hfront : level.text ++ " " ++ words = front) : event.line = front ++ rest := by
  rw [line, hlevel, htext, ← hfront, ← String.append_assoc]

theorem line_sendFailed (client : HardwareAddress) (reason : String) :
    (sendFailed client (.io reason)).line =
      "ERROR Failed sending reply to " ++ toString client ++ ": IO error: " ++ reason := by
  have hwords : ": IO error: " = ": " ++ "IO error: " := by decide
  simp only [hwords, String.append_assoc]
  refine line_eq_append .error "Failed sending reply to " rfl ?_ (by decide)
  unfold text SendFault.message
  simp only [String.append_assoc]

theorem mark_eq_of_line_eq (h : event.line = other.line) : event.mark = other.mark := by
  apply Option.some.inj
  rw [← getElem?_line, ← getElem?_line, h]

theorem text_eq_of_line_eq (hlevel : event.level = other.level) (h : event.line = other.line) :
    event.text = other.text := by
  rw [line, line, hlevel] at h
  have hchars := congrArg String.toList h
  simp only [String.toList_append] at hchars
  exact String.toList_inj.mp (List.append_cancel_left hchars)

/-- What is reported about the lease of a client. -/
def AboutLease : Event → Prop
  | oldLease .. | newLease .. => True
  | _ => False

theorem AboutLease.eq_of_line_eq (habout : other.AboutLease) (h : event.line = other.line) :
    event = other := by
  have hmark := mark_eq_of_line_eq h
  cases other with
  | oldLease client a =>
    cases event with
    | oldLease =>
      have htext := text_eq_of_line_eq (by rfl) h
      obtain ⟨rfl, rfl⟩ := leaseText_inj htext
      rfl
    | _ => exact absurd hmark (by simp only [mark]; decide)
  | newLease client a =>
    cases event with
    | newLease =>
      have htext := text_eq_of_line_eq (by rfl) h
      obtain ⟨rfl, rfl⟩ := leaseText_inj htext
      rfl
    | _ => exact absurd hmark (by simp only [mark]; decide)
  | _ => cases habout

theorem AboutLease.level_eq (h : event.AboutLease) : event.level = .info := by
  cases event with
  | oldLease | newLease => rfl
  | _ => cases h

/-- What is asked for is reported before anything is done about it. -/
def Opens : Event → Prop
  | discover _ | request _ | unrecognized _ => True
  | _ => False

theorem Opens.level_eq (h : event.Opens) : event.level = .info := by
  cases event with
  | discover | request | unrecognized => rfl
  | _ => cases h

theorem Opens.not_aboutLease (h : event.Opens) : ¬ event.AboutLease := by
  cases event with
  | discover | request | unrecognized => exact id
  | _ => cases h

/-- The last event of a datagram, by the reply to it. -/
inductive Closes : Option Packet → Event → Prop
  | sent {reply : Packet} {type : MessageType} (op_eq : reply.header.op = type.toUInt8)
      (messageType_eq : reply.options.messageType = some type.toUInt8) :
    Closes (some reply) (sending type reply.header.yiaddr reply.header.chaddr)
  | dropped {last : Event} (level_eq : last.level = .warn ∨ last.level = .error) :
    Closes none last

theorem Closes.not_aboutLease {reply : Option Packet} (h : Closes reply event) :
    ¬ event.AboutLease := by
  cases h with
  | sent => exact id
  | dropped hlevel =>
    intro habout
    rw [habout.level_eq] at hlevel
    exact hlevel.elim nofun nofun

end Event

/-- What is reported about leases while one pool leads to another: nothing, the lease that a
client holds, or the one that it is given. -/
inductive Pool.Tells (pool : Pool) : List Event → Pool → Prop
  | nothing : Tells pool [] pool
  | held {client : HardwareAddress} {lease : Lease} (leaseOf_eq : pool.leaseOf client = some lease) :
    Tells pool [.oldLease client lease.address] pool
  | made {lease : Lease} {later : Pool} (adds : pool.Adds lease later) :
    Tells pool [.newLease lease.client lease.address] later

namespace Pool

variable {pool later : Pool} {told : List Event} {client : HardwareAddress} {a : Ipv4}

theorem Adds.addressOf_eq {lease : Lease} (h : pool.Adds lease later) (client : HardwareAddress) :
    later.addressOf client =
      if client = lease.client then some lease.address else pool.addressOf client := by
  rw [addressOf, h.leaseOf_eq]
  split
  · rfl
  · rfl

theorem Tells.level_eq (h : pool.Tells told later) : ∀ event ∈ told, event.level = .info := by
  cases h with
  | nothing => exact List.forall_mem_nil _
  | held => exact List.forall_mem_singleton.mpr rfl
  | made => exact List.forall_mem_singleton.mpr rfl

theorem Tells.of_mem_oldLease (h : pool.Tells told later) (hmem : .oldLease client a ∈ told) :
    pool.addressOf client = some a ∧ later = pool := by
  cases h with
  | nothing => cases hmem
  | held hlease =>
    cases List.mem_singleton.mp hmem
    exact ⟨addressOf_of_leaseOf hlease, rfl⟩
  | made => cases List.mem_singleton.mp hmem

theorem Tells.of_mem_newLease (h : pool.Tells told later) (hmem : .newLease client a ∈ told) :
    ∃ lease, lease.client = client ∧ lease.address = a ∧ pool.Adds lease later := by
  cases h with
  | nothing => cases hmem
  | held => cases List.mem_singleton.mp hmem
  | made hadds =>
    cases List.mem_singleton.mp hmem
    exact ⟨_, rfl, rfl, hadds⟩

/-- The addresses after a step are those before it and the one that is reported. -/
theorem Tells.addressOf_iff (h : pool.Tells told later) :
    later.addressOf client = some a ↔
      pool.addressOf client = some a ∨ .newLease client a ∈ told := by
  constructor
  · intro hlater
    cases h with
    | nothing => exact .inl hlater
    | held => exact .inl hlater
    | made hadds =>
      rw [hadds.addressOf_eq] at hlater
      split at hlater
      · next hclient =>
        cases hlater
        exact .inr (List.mem_singleton.mpr (by rw [hclient]))
      · exact .inl hlater
  · rintro (hheld | hmem)
    · cases h with
      | nothing => exact hheld
      | held => exact hheld
      | made hadds =>
        rw [hadds.addressOf_eq]
        split
        · next hclient =>
          rw [hclient, addressOf_eq_none_iff.mpr hadds.had_none] at hheld
          cases hheld
        · exact hheld
    · obtain ⟨lease, rfl, rfl, hadds⟩ := h.of_mem_newLease hmem
      rw [hadds.addressOf_eq, if_pos rfl]

end Pool

namespace Server

/-- The lines that a datagram adds to the log. -/
def Outcome.lines (outcome : Outcome) : List String := outcome.events.map Event.line

/-- The log of a datagram in its order, from the pool that it finds. -/
def Outcome.Logged (pool : Pool) (outcome : Outcome) : Prop :=
  ∃ opening told closing, outcome.events = opening ++ told ++ [closing] ∧
    (∀ event ∈ opening, event.Opens) ∧ pool.Tells told outcome.pool ∧
    Event.Closes outcome.reply closing

variable {pool later : Pool} {request : Request} {opening told : List Event}

theorem logged_answered (hopening : ∀ event ∈ opening, event.Opens) (htold : pool.Tells told later)
    (lease : Lease) (type : MessageType) :
    (answered later request lease type (opening ++ told)).Logged pool := by
  unfold answered
  by_cases fit : later.config.ListsFit
  · rw [Reply.build_eq_ok _ _ _ _ fit]
    exact ⟨opening, told, _, rfl, hopening, htold, .sent rfl rfl⟩
  · rw [Reply.build_eq_error _ _ _ _ fit]
    exact ⟨opening, told, _, rfl, hopening, htold, .dropped (.inr rfl)⟩

/-- A line with which a datagram is dropped before a lease is found or made. -/
theorem logged_dropped (hopening : ∀ event ∈ opening, event.Opens) {event : Event}
    (hlevel : event.level = .warn) : Outcome.Logged pool ⟨none, opening ++ [event], pool⟩ :=
  ⟨opening, [], event, by rw [List.append_nil], hopening, .nothing, .dropped (.inl hlevel)⟩

theorem logged_offered (hopening : ∀ event ∈ opening, event.Opens) (now : Instant) :
    (offered pool request now opening).Logged pool := by
  cases hlease : pool.leaseOf request.client with
  | some lease =>
    rw [offered_of_leaseOf hlease]
    exact logged_answered hopening (.held hlease) lease .offer
  | none =>
    rcases offered_of_none hlease with ⟨grant, hnext, hoffered⟩ | ⟨-, hoffered⟩
    · have htold := Pool.Tells.made (Pool.adds_of_nextLease hlease hnext)
      rw [(Pool.granted_of_nextLease hnext).client_eq] at htold
      rw [hoffered]
      exact logged_answered hopening htold grant.lease .offer
    · rw [hoffered]
      exact logged_dropped hopening rfl

theorem logged_acknowledged (hopening : ∀ event ∈ opening, event.Opens) (now : Instant) :
    (acknowledged pool request now opening).Logged pool := by
  unfold acknowledged
  split
  · refine logged_offered (List.forall_mem_append.mpr ⟨hopening, ?_⟩) now
    exact List.forall_mem_cons.mpr ⟨trivial, List.forall_mem_singleton.mpr trivial⟩
  · next lease hlease =>
    split
    · have hanswered : (answered pool request lease .ack (opening ++ [])).Logged pool :=
        logged_answered hopening .nothing lease .ack
      rw [List.append_nil] at hanswered
      exact hanswered
    · exact logged_dropped hopening rfl

/-- Every datagram is logged in this order, whatever the pool it finds. -/
theorem logged_respond (pool : Pool) (bytes : List UInt8) (source : Endpoint) (now : Instant) :
    (respond pool bytes source now).Logged pool := by
  have hempty : ∀ event ∈ ([] : List Event), event.Opens := List.forall_mem_nil _
  have hdiscover (client : HardwareAddress) : ∀ event ∈ [Event.discover client], event.Opens :=
    List.forall_mem_singleton.mpr trivial
  have hrequest (client : HardwareAddress) : ∀ event ∈ [Event.request client], event.Opens :=
    List.forall_mem_singleton.mpr trivial
  rw [respond_eq]
  split
  · exact logged_dropped hempty rfl
  · split
    · exact logged_offered (hdiscover _) now
    · exact logged_acknowledged (hrequest _) now
    · exact logged_dropped hempty rfl
    · exact logged_dropped hempty rfl

variable {outcome : Outcome} {client : HardwareAddress} {a : Ipv4}

/-- A datagram is dropped exactly when the last event is graver than all before it. -/
theorem Outcome.Logged.reply_eq_none_iff (h : Outcome.Logged pool outcome) :
    outcome.reply = none ↔ ∃ earlier last, outcome.events = earlier ++ [last] ∧
      (∀ event ∈ earlier, event.level = .info) ∧ (last.level = .warn ∨ last.level = .error) := by
  obtain ⟨opening, told, closing, hevents, hopening, htold, hclosing⟩ := h
  have hquiet : ∀ event ∈ opening ++ told, event.level = .info :=
    List.forall_mem_append.mpr ⟨fun event h => (hopening event h).level_eq, htold.level_eq⟩
  generalize outcome.reply = reply at hclosing
  cases hclosing with
  | sent =>
    refine ⟨nofun, ?_⟩
    rintro ⟨earlier, last, hsplit, -, hlevel⟩
    have hlast := (List.append_inj' (hevents.symm.trans hsplit) rfl).2
    rw [← List.singleton_inj.mp hlast] at hlevel
    rcases hlevel with hlevel | hlevel
    · cases hlevel
    · cases hlevel
  | dropped hlevel => exact ⟨fun _ => ⟨_, _, hevents, hquiet, hlevel⟩, fun _ => rfl⟩

/-- With a reply no event is grave, and the last one tells what the reply is. -/
theorem Outcome.Logged.of_reply (h : Outcome.Logged pool outcome) {reply : Packet}
    (hreply : outcome.reply = some reply) :
    (∀ event ∈ outcome.events, event.level = .info) ∧
      ∃ type : MessageType, reply.header.op = type.toUInt8 ∧
        reply.options.messageType = some type.toUInt8 ∧ outcome.events.getLast? =
          some (.sending type reply.header.yiaddr reply.header.chaddr) := by
  obtain ⟨opening, told, closing, hevents, hopening, htold, hclosing⟩ := h
  rw [hreply] at hclosing
  cases hclosing with
  | @sent _ type hop hmessageType =>
    rw [hevents]
    refine ⟨?_, type, hop, hmessageType, List.getLast?_concat⟩
    exact List.forall_mem_append.mpr ⟨List.forall_mem_append.mpr
      ⟨fun event h => (hopening event h).level_eq, htold.level_eq⟩,
      List.forall_mem_singleton.mpr rfl⟩

/-- No lease is ever replaced on account of a datagram. -/
theorem Outcome.Logged.level_ne_debug (h : Outcome.Logged pool outcome) :
    ∀ event ∈ outcome.events, event.level ≠ .debug := by
  intro event hmem hdebug
  cases hreply : outcome.reply with
  | some reply =>
    rw [(h.of_reply hreply).1 event hmem] at hdebug
    cases hdebug
  | none =>
    obtain ⟨earlier, last, hevents, hquiet, hgrave⟩ := h.reply_eq_none_iff.mp hreply
    rw [hevents, List.mem_append, List.mem_singleton] at hmem
    rcases hmem with hmem | rfl
    · rw [hquiet event hmem] at hdebug
      cases hdebug
    · rw [hdebug] at hgrave
      exact hgrave.elim nofun nofun

/-- What is logged about leases is what there is to tell about them. -/
theorem Outcome.Logged.exists_told (h : Outcome.Logged pool outcome) :
    ∃ told, pool.Tells told outcome.pool ∧
      ∀ event : Event, event.AboutLease → (event ∈ outcome.events ↔ event ∈ told) := by
  obtain ⟨opening, told, closing, hevents, hopening, htold, hclosing⟩ := h
  refine ⟨told, htold, fun event habout => ?_⟩
  have hopen : event ∉ opening := fun hmem => (hopening event hmem).not_aboutLease habout
  have hclose : event ≠ closing := by
    rintro rfl
    exact hclosing.not_aboutLease habout
  simp only [hevents, List.mem_append, List.mem_singleton, hopen, hclose, false_or, or_false]

/-- A line about a lease is there on account of the one event for which it stands. -/
theorem mem_lines_iff {event : Event} (habout : event.AboutLease) {line : String}
    (hline : event.line = line) : line ∈ outcome.lines ↔ event ∈ outcome.events := by
  rw [Outcome.lines, List.mem_map, ← hline]
  constructor
  · rintro ⟨logged, hmem, hlogged⟩
    exact habout.eq_of_line_eq hlogged ▸ hmem
  · intro hmem
    exact ⟨event, hmem, rfl⟩

theorem mem_lines_oldLease_iff : "INFO Have old lease for " ++ toString client ++ ": " ++
    toString a ∈ outcome.lines ↔ .oldLease client a ∈ outcome.events := by
  apply mem_lines_iff (by trivial)
  simp only [String.append_assoc]
  refine Event.line_eq_append .info "Have old lease for " rfl ?_ (by decide)
  unfold Event.text
  simp only [String.append_assoc]

theorem mem_lines_newLease_iff : "INFO Got a new lease for " ++ toString client ++ ": " ++
    toString a ∈ outcome.lines ↔ .newLease client a ∈ outcome.events := by
  apply mem_lines_iff (by trivial)
  simp only [String.append_assoc]
  refine Event.line_eq_append .info "Got a new lease for " rfl ?_ (by decide)
  unfold Event.text
  simp only [String.append_assoc]

/-- Sending a reply adds to the log only the line that says that it could not be sent. -/
theorem events_handle (deliver : Delivery) (pool : Pool) (bytes : List UInt8) (source : Endpoint)
    (now : Instant) :
    (handle deliver pool bytes source now).events = (respond pool bytes source now).events ++
      match (respond pool bytes source now).reply with
      | none => []
      | some reply =>
        match deliver (destination pool.config) reply.encode with
        | .ok _ => []
        | .error fault => [.sendFailed reply.header.chaddr fault] := by
  unfold handle
  simp only
  cases (respond pool bytes source now).reply with
  | none => exact (List.append_nil _).symm
  | some reply =>
    simp only
    cases deliver (destination pool.config) reply.encode with
    | ok => exact (List.append_nil _).symm
    | error fault => rfl

/-- The log of a run of datagrams, the first one first. -/
def journal (pool : Pool) : List Arrival → List String
  | [] => []
  | arrival :: rest =>
    let outcome := respond pool arrival.bytes arrival.source arrival.now
    outcome.lines ++ journal outcome.pool rest

/-- After any run of datagrams a client holds the address that it held before, or the one that
the log of the run says it was given. -/
theorem addressOf_iff_journal (pool : Pool) (arrivals : List Arrival) :
    (pool.afterCalls (arrivals.map fun arrival =>
        .respond arrival.bytes arrival.source arrival.now)).addressOf client = some a ↔
      pool.addressOf client = some a ∨
        "INFO Got a new lease for " ++ toString client ++ ": " ++ toString a ∈
          journal pool arrivals := by
  induction arrivals generalizing pool with
  | nil => exact (or_iff_left List.not_mem_nil).symm
  | cons arrival rest ih =>
    obtain ⟨told, htold, htells⟩ :=
      (logged_respond pool arrival.bytes arrival.source arrival.now).exists_told
    refine (ih _).trans ?_
    rw [journal, List.mem_append, mem_lines_newLease_iff, htells _ (by trivial), ← or_assoc]
    exact or_congr_left htold.addressOf_iff

/-- What the log says of a datagram is so, whatever the configuration, the pool and the
datagram. Nothing is answered exactly when the last event, and no earlier one, is a warning or
an error. With a reply there is none, and the last line names the type of the reply, the
address and the client in it. A line about a new lease stands for a lease that was not there
and is afterwards, and for nothing else that changed; a line about an old lease stands for
one that was there. No lease is ever replaced. What is logged after that is a reply that
could not be sent, and why. -/
theorem log_tells_what_happened (config : Config) (calls : List Call) (arrival : Arrival)
    (deliver : Delivery) :
    let pool := (Pool.create config).afterCalls calls
    let outcome := respond pool arrival.bytes arrival.source arrival.now
    (outcome.reply = none ↔ ∃ earlier last, outcome.events = earlier ++ [last] ∧
      (∀ event ∈ earlier, event.level = .info) ∧ (last.level = .warn ∨ last.level = .error)) ∧
    (∀ reply, outcome.reply = some reply → (∀ event ∈ outcome.events, event.level = .info) ∧
      ∃ type : MessageType, reply.header.op = type.toUInt8 ∧
        reply.options.messageType = some type.toUInt8 ∧ outcome.lines.getLast? =
          some ("INFO Sending " ++ type.text ++ " with " ++ toString reply.header.yiaddr ++
            " to " ++ toString reply.header.chaddr)) ∧
    (∀ client a, "INFO Got a new lease for " ++ toString client ++ ": " ++ toString a ∈
        outcome.lines ↔
      pool.addressOf client ≠ some a ∧ outcome.pool.addressOf client = some a) ∧
    (∀ client a, "INFO Got a new lease for " ++ toString client ++ ": " ++ toString a ∈
        outcome.lines →
      ∃ lease, lease.client = client ∧ lease.address = a ∧ pool.Adds lease outcome.pool) ∧
    (∀ client a, "INFO Have old lease for " ++ toString client ++ ": " ++ toString a ∈
        outcome.lines →
      pool.addressOf client = some a ∧ outcome.pool = pool) ∧
    (∀ event ∈ outcome.events, event.level ≠ .debug) ∧
    (handle deliver pool arrival.bytes arrival.source arrival.now).lines = outcome.lines ++
      match outcome.reply with
      | none => []
      | some reply =>
        match deliver (destination config) reply.encode with
        | .ok _ => []
        | .error (.io reason) => ["ERROR Failed sending reply to " ++
            toString reply.header.chaddr ++ ": IO error: " ++ reason] := by
  intro pool outcome
  have hlogged : outcome.Logged pool := logged_respond pool _ _ _
  obtain ⟨told, htold, htells⟩ := hlogged.exists_told
  refine ⟨hlogged.reply_eq_none_iff, ?_, ?_, ?_, ?_, hlogged.level_ne_debug, ?_⟩
  · intro reply hreply
    obtain ⟨hquiet, type, hop, hmessageType, hlast⟩ := hlogged.of_reply hreply
    refine ⟨hquiet, type, hop, hmessageType, ?_⟩
    rw [Outcome.lines, List.getLast?_map, hlast, Option.map_some]
    simp only [String.append_assoc]
    refine congrArg some (Event.line_eq_append .info "Sending " rfl ?_ (by decide))
    unfold Event.text
    simp only [String.append_assoc]
  · intro client a
    rw [mem_lines_newLease_iff, htells _ (by trivial)]
    constructor
    · intro hmem
      obtain ⟨lease, rfl, rfl, hadds⟩ := htold.of_mem_newLease hmem
      rw [Pool.addressOf_eq_none_iff.mpr hadds.had_none]
      exact ⟨nofun, htold.addressOf_iff.mpr (.inr hmem)⟩
    · rintro ⟨hbefore, hafter⟩
      exact (htold.addressOf_iff.mp hafter).resolve_left hbefore
  · intro client a hline
    rw [mem_lines_newLease_iff, htells _ (by trivial)] at hline
    exact htold.of_mem_newLease hline
  · intro client a hline
    rw [mem_lines_oldLease_iff, htells _ (by trivial)] at hline
    exact htold.of_mem_oldLease hline
  · have hconfig : pool.config = config := Pool.config_afterCalls (Pool.create config) calls
    rw [Outcome.lines, events_handle, List.map_append, hconfig]
    congr 1
    cases outcome.reply with
    | none => rfl
    | some reply =>
      simp only
      cases deliver (destination config) reply.encode with
      | ok => rfl
      | error fault => exact congrArg (fun line => [line]) (Event.line_sendFailed _ _)

end Server

end Dhcp
