import Dhcp.Proofs.PoolPartition
import Dhcp.Proofs.ReplyFields
import Dhcp.Server.Basic

/-!
What the server does with one datagram, without the stages of a task. A client
that looks for an address is offered one, a client that asks for the address it
holds is acknowledged, and the pool changes only by the lease of a client that
had none.
-/
namespace Dhcp

namespace Server

def answered (pool : Pool) (request : Request) (lease : Lease) (type : MessageType)
    (events : List Event) : Outcome :=
  match Reply.build pool.config request lease type with
  | .ok reply => ⟨some reply, events ++ [.sending type lease.address request.client], pool⟩
  | .error fault => ⟨none, events ++ [.buildFailed type request.client fault], pool⟩

/-- The offer of the lease that the client has or is given. -/
def offered (pool : Pool) (request : Request) (now : Instant) (events : List Event) : Outcome :=
  match pool.leaseFor request.client request.hostname now with
  | .error fault => ⟨none, events ++ [.noLease request.client fault], pool⟩
  | .ok (.existing lease) =>
    answered pool request lease .offer (events ++ [.oldLease request.client lease.address])
  | .ok (.new grant) =>
    answered grant.pool request grant.lease .offer
      (events ++ grant.events ++ [.newLease request.client grant.lease.address])

/-- The acknowledgement of a lease, or an offer to a client that has none. -/
def acknowledged (pool : Pool) (request : Request) (now : Instant) (events : List Event) :
    Outcome :=
  match pool.leaseOf request.client with
  | none =>
    offered pool request now
      (events ++ [.unrecognized request.client, .discover request.client])
  | some lease =>
    if request.clientAddress = lease.address then answered pool request lease .ack events
    else
      ⟨none, events ++ [.mismatch request.client request.clientAddress lease.address], pool⟩

/-- The end of the work on a datagram, as a stage of its own. -/
def Outcome.finished (outcome : Outcome) : Task × Pool :=
  (.done outcome.reply outcome.events, outcome.pool)

variable {pool : Pool} {request : Request} {now : Instant} {events : List Event}

theorem step_answer (lease : Lease) (type : MessageType) :
    (Task.answer request lease type events).step pool now =
      (answered pool request lease type events).finished := by
  simp only [Task.step, answered]
  cases Reply.build pool.config request lease type with
  | ok reply => rfl
  | error fault => rfl

/-- Two steps lead to the end from where a lease is found or made. -/
theorem step_step_allocate :
    (let first := (Task.allocate request events).step pool now
     first.1.step first.2 now) = (offered pool request now events).finished := by
  rcases pool.leaseFor_cases request.client request.hostname now with
    ⟨lease, -, hfor⟩ | ⟨grant, -, -, hfor⟩ | ⟨-, -, hfor⟩
  · simp only [Task.step, offered, answered, hfor]
    cases Reply.build pool.config request lease .offer with
    | ok reply => rfl
    | error fault => rfl
  · simp only [Task.step, offered, answered, hfor]
    cases Reply.build grant.pool.config request grant.lease .offer with
    | ok reply => rfl
    | error fault => rfl
  · simp only [Task.step, offered, hfor]
    rfl

theorem run_allocate :
    (Task.allocate request events).run pool now = (offered pool request now events).finished := by
  unfold Task.run
  simp only [step_step_allocate]
  rfl

theorem run_lookUp :
    (Task.lookUp request events).run pool now =
      (acknowledged pool request now events).finished := by
  unfold Task.run acknowledged
  cases hlease : pool.leaseOf request.client with
  | none =>
    have first : (Task.lookUp request events).step pool now = (.allocate request
        (events ++ [.unrecognized request.client, .discover request.client]), pool) := by
      simp only [Task.step, hlease]
    rw [first]
    exact step_step_allocate
  | some lease =>
    by_cases haddress : request.clientAddress = lease.address
    · have first : (Task.lookUp request events).step pool now =
          (.answer request lease .ack events, pool) := by
        simp only [Task.step, hlease, if_pos haddress]
      simp only [first, step_answer, if_pos haddress]
      rfl
    · simp only [Task.step, hlease, if_neg haddress]
      rfl

/-- The answer to a datagram by what it holds. -/
theorem respond_eq (pool : Pool) (bytes : List UInt8) (source : Endpoint) (now : Instant) :
    respond pool bytes source now =
      match Request.parse bytes source with
      | .error fault => ⟨none, [.refused source fault], pool⟩
      | .ok request =>
        match request.kind? with
        | some .discover => offered pool request now [.discover request.client]
        | some .request => acknowledged pool request now [.request request.client]
        | some type => ⟨none, [.unimplemented type request.client], pool⟩
        | none => ⟨none, [.unknownType request.type request.client], pool⟩ := by
  unfold respond Task.start
  cases Request.parse bytes source with
  | error fault => rfl
  | ok request =>
    simp only
    cases request.kind? with
    | none => rfl
    | some type =>
      cases type with
      | discover =>
        simp only [run_allocate]
        rfl
      | request =>
        simp only [run_lookUp]
        rfl
      | _ => rfl

theorem pool_answered (lease : Lease) (type : MessageType) :
    (answered pool request lease type events).pool = pool := by
  unfold answered
  cases Reply.build pool.config request lease type with
  | ok reply => rfl
  | error fault => rfl

theorem offered_of_leaseOf {lease : Lease} (h : pool.leaseOf request.client = some lease) :
    offered pool request now events = answered pool request lease .offer
      (events ++ [.oldLease request.client lease.address]) := by
  rw [offered, Pool.leaseFor_of_leaseOf h]

/-- An offer to a client without a lease: a lease is made for it, or there is none left. -/
theorem offered_of_none (h : pool.leaseOf request.client = none) :
    (∃ grant, pool.nextLease request.client request.hostname now = .ok grant ∧
      offered pool request now events = answered grant.pool request grant.lease .offer
        (events ++ [.newLease request.client grant.lease.address])) ∨
    (pool.freeCount = 0 ∧ offered pool request now events =
      ⟨none, events ++ [.noLease request.client .exhausted], pool⟩) := by
  unfold offered
  rcases pool.leaseFor_cases request.client request.hostname now with
    ⟨lease, hlease, -⟩ | ⟨grant, -, hnext, hfor⟩ | ⟨-, hfull, hfor⟩
  · rw [h] at hlease
    cases hlease
  · obtain ⟨-, -, -, hevents⟩ := Pool.nextLease_newcomer h hnext
    refine .inl ⟨grant, hnext, ?_⟩
    rw [hfor]
    simp only [hevents, List.append_nil]
  · exact .inr ⟨hfull, by rw [hfor]⟩

/-- An offer changes the pool only by the lease of a client that had none. -/
theorem pool_offered_cases (pool : Pool) (request : Request) (now : Instant)
    (events : List Event) :
    (offered pool request now events).pool = pool ∨
      ∃ grant, pool.leaseOf request.client = none ∧
        pool.nextLease request.client request.hostname now = .ok grant ∧
        (offered pool request now events).pool = grant.pool := by
  cases hlease : pool.leaseOf request.client with
  | some lease => exact .inl (by rw [offered_of_leaseOf hlease, pool_answered])
  | none =>
    rcases offered_of_none hlease with ⟨grant, hnext, hoffered⟩ | ⟨-, hoffered⟩
    · exact .inr ⟨grant, rfl, hnext, by rw [hoffered, pool_answered]⟩
    · exact .inl (by rw [hoffered])

theorem pool_respond_cases (pool : Pool) (bytes : List UInt8) (source : Endpoint)
    (now : Instant) :
    (respond pool bytes source now).pool = pool ∨
      ∃ client hostname grant, pool.leaseOf client = none ∧
        pool.nextLease client hostname now = .ok grant ∧
        (respond pool bytes source now).pool = grant.pool := by
  rw [respond_eq]
  cases Request.parse bytes source with
  | error fault => exact .inl rfl
  | ok request =>
    have hoffered : ∀ events, (offered pool request now events).pool = pool ∨
        ∃ client hostname grant, pool.leaseOf client = none ∧
          pool.nextLease client hostname now = .ok grant ∧
          (offered pool request now events).pool = grant.pool := by
      intro events
      rcases pool_offered_cases pool request now events with hsame | ⟨grant, hgrant⟩
      · exact .inl hsame
      · exact .inr ⟨_, _, grant, hgrant⟩
    simp only
    split
    · exact hoffered _
    · unfold acknowledged
      split
      · exact hoffered _
      · split
        · exact .inl (pool_answered _ _)
        · exact .inl rfl
    · exact .inl rfl
    · exact .inl rfl

/-- Sending the reply leaves the pool alone, whether it arrives or not. -/
theorem pool_handle (deliver : Delivery) (pool : Pool) (bytes : List UInt8) (source : Endpoint)
    (now : Instant) :
    (handle deliver pool bytes source now).pool = (respond pool bytes source now).pool := by
  unfold handle
  simp only
  split
  · rfl
  · split
    · rfl
    · rfl

end Server

end Dhcp
