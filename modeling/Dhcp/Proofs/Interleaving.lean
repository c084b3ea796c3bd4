import Dhcp.Proofs.Dispatch

/-!
Tasks that share a pool. Their steps come in any order: between the look-up of a
lease and the reply about it, or between a look-up that finds nothing and the
lease made after it, other tasks may have moved on. A stale look-up is harmless,
since a lease once made stays with its client: a client is named in replies with
one address only, and an address with one client only.
-/
namespace Dhcp

namespace Pool

/-- The later pool is for the same configuration and has all leases of the earlier one. -/
structure Keeps (pool later : Pool) : Prop where
  config_eq : later.config = pool.config
  leaseOf_eq : ∀ client lease, pool.leaseOf client = some lease →
    later.leaseOf client = some lease

theorem Keeps.refl (pool : Pool) : pool.Keeps pool where
  config_eq := rfl
  leaseOf_eq _ _ h := h

theorem Keeps.trans {pool middle later : Pool} (h : pool.Keeps middle) (h' : middle.Keeps later) :
    pool.Keeps later where
  config_eq := h'.config_eq.trans h.config_eq
  leaseOf_eq client lease hlease := h'.leaseOf_eq client lease (h.leaseOf_eq client lease hlease)

theorem Keeps.addressOf_eq {pool later : Pool} (h : pool.Keeps later) {client : HardwareAddress}
    {a : Ipv4} (ha : pool.addressOf client = some a) : later.addressOf client = some a := by
  obtain ⟨lease, hlease, rfl⟩ := addressOf_eq_some_iff.mp ha
  exact addressOf_of_leaseOf (h.leaseOf_eq client lease hlease)

theorem keeps_of_nextLease {pool : Pool} {client : HardwareAddress} {hostname : Option String}
    {now : Instant} {grant : Grant} (hnone : pool.leaseOf client = none)
    (h : pool.nextLease client hostname now = .ok grant) : pool.Keeps grant.pool where
  config_eq := (granted_of_nextLease h).config_eq
  leaseOf_eq := by
    intro other lease hlease
    have hne : other ≠ client := by
      rintro rfl
      rw [hnone] at hlease
      cases hlease
    rw [(granted_of_nextLease h).leaseOf_other hne, hlease]

end Pool

namespace Task

/-- What a task is about to say, or has said, is so in the pool. -/
def Backed (pool : Pool) : Task → Prop
  | lookUp _ _ => True
  | allocate _ _ => True
  | answer request lease _ _ => pool.leaseOf request.client = some lease
  | done none _ => True
  | done (some reply) _ => pool.addressOf reply.header.chaddr = some reply.header.yiaddr

theorem backed_start (pool : Pool) (bytes : List UInt8) (source : Endpoint) :
    (start bytes source).Backed pool := by
  unfold start
  cases Request.parse bytes source with
  | error fault => trivial
  | ok request =>
    simp only
    split
    · trivial
    · trivial
    · trivial
    · trivial

theorem Backed.mono {pool later : Pool} (hkeep : pool.Keeps later) {task : Task}
    (h : task.Backed pool) : task.Backed later := by
  cases task with
  | lookUp request events => trivial
  | allocate request events => trivial
  | answer request lease type events => exact hkeep.leaseOf_eq request.client lease h
  | done answer events =>
    cases answer with
    | none => trivial
    | some reply => exact hkeep.addressOf_eq h

/-- One step of a task: the pool keeps its leases and stays consistent, and the
task is at a stage that the pool after the step backs. -/
theorem step_backed {pool : Pool} {task : Task} (hp : pool.Consistent) (h : task.Backed pool)
    (now : Instant) :
    (task.step pool now).2.Consistent ∧ pool.Keeps (task.step pool now).2 ∧
      (task.step pool now).1.Backed (task.step pool now).2 := by
  cases task with
  | lookUp request events =>
    cases hlease : pool.leaseOf request.client with
    | none =>
      simp only [step, hlease]
      exact ⟨hp, .refl pool, trivial⟩
    | some lease =>
      simp only [step, hlease]
      split
      · exact ⟨hp, .refl pool, hlease⟩
      · exact ⟨hp, .refl pool, trivial⟩
  | allocate request events =>
    rcases pool.leaseFor_cases request.client request.hostname now with
      ⟨lease, hlease, hfor⟩ | ⟨grant, hnone, hnext, hfor⟩ | ⟨-, -, hfor⟩
    · simp only [step, hfor]
      exact ⟨hp, .refl pool, hlease⟩
    · have hgranted := Pool.granted_of_nextLease hnext
      simp only [step, hfor]
      exact ⟨Pool.consistent_of_granted hp hgranted, Pool.keeps_of_nextLease hnone hnext,
        hgranted.leaseOf_self⟩
    · simp only [step, hfor]
      exact ⟨hp, .refl pool, trivial⟩
  | answer request lease type events =>
    cases hbuild : Reply.build pool.config request lease type with
    | ok reply =>
      simp only [step, hbuild]
      refine ⟨hp, .refl pool, ?_⟩
      simp only [Backed, Reply.header_of_build hbuild, Reply.header]
      exact Pool.addressOf_of_leaseOf h
    | error fault =>
      simp only [step, hbuild]
      exact ⟨hp, .refl pool, trivial⟩
  | done reply events => exact ⟨hp, .refl pool, h⟩

theorem reply_step {task : Task} {reply : Packet} (h : task.reply = some reply) (pool : Pool)
    (now : Instant) : (task.step pool now).1.reply = some reply := by
  cases task with
  | done answer events => exact h
  | lookUp request events => cases h
  | allocate request events => cases h
  | answer request lease type events => cases h

theorem Backed.addressOf_reply {pool : Pool} {task : Task} {reply : Packet} (h : task.Backed pool)
    (hreply : task.reply = some reply) :
    pool.addressOf reply.header.chaddr = some reply.header.yiaddr := by
  cases task with
  | done answer events =>
    cases hreply
    exact h
  | lookUp request events => cases hreply
  | allocate request events => cases hreply
  | answer request lease type events => cases hreply

end Task

/-- A pool and the tasks at work on it, in the order in which their datagrams came. -/
structure Workload where
  pool : Pool
  tasks : List Task

/-- What happens next: a datagram comes in, or one of the tasks takes a step. -/
inductive Move
  | accept (bytes : List UInt8) (source : Endpoint)
  | advance (index : Nat) (now : Instant)

namespace Workload

def start (config : Config) : Workload := ⟨Pool.create config, []⟩

def move (load : Workload) : Move → Workload
  | .accept bytes source => { load with tasks := load.tasks ++ [Task.start bytes source] }
  | .advance index now =>
    match load.tasks[index]? with
    | none => load
    | some task =>
      ⟨(task.step load.pool now).2, load.tasks.set index (task.step load.pool now).1⟩

def run (load : Workload) (moves : List Move) : Workload := moves.foldl move load

def replies (load : Workload) : List Packet := load.tasks.filterMap Task.reply

/-- The pool backs every task at work on it. -/
structure Sound (load : Workload) : Prop where
  consistent : load.pool.Consistent
  backed : ∀ task ∈ load.tasks, task.Backed load.pool

theorem sound_start (config : Config) : (start config).Sound where
  consistent := Pool.consistent_create config
  backed := by
    intro task h
    cases h

theorem sound_move {load : Workload} (h : load.Sound) (move : Move) :
    (load.move move).Sound ∧ load.pool.Keeps (load.move move).pool := by
  cases move with
  | accept bytes source =>
    refine ⟨⟨h.consistent, ?_⟩, .refl load.pool⟩
    intro task htask
    rcases List.mem_append.mp htask with hold | hnew
    · exact h.backed task hold
    · rw [List.mem_singleton.mp hnew]
      exact Task.backed_start load.pool bytes source
  | advance index now =>
    cases htask : load.tasks[index]? with
    | none =>
      simp only [Workload.move, htask]
      exact ⟨h, .refl load.pool⟩
    | some task =>
      obtain ⟨hp, hkeep, hbacked⟩ :=
        Task.step_backed h.consistent (h.backed task (List.mem_of_getElem? htask)) now
      simp only [Workload.move, htask]
      refine ⟨⟨hp, ?_⟩, hkeep⟩
      intro other hother
      rcases List.mem_or_eq_of_mem_set hother with hold | rfl
      · exact (h.backed other hold).mono hkeep
      · exact hbacked

theorem sound_run {load : Workload} (h : load.Sound) (moves : List Move) :
    (load.run moves).Sound ∧ load.pool.Keeps (load.run moves).pool := by
  induction moves generalizing load with
  | nil => exact ⟨h, .refl load.pool⟩
  | cons move rest ih =>
    obtain ⟨hsound, hkeep⟩ := sound_move h move
    obtain ⟨hrest, hkeeps⟩ := ih hsound
    exact ⟨hrest, hkeep.trans hkeeps⟩

theorem Sound.addressOf_reply {load : Workload} (h : load.Sound) {reply : Packet}
    (hreply : reply ∈ load.replies) :
    load.pool.addressOf reply.header.chaddr = some reply.header.yiaddr := by
  obtain ⟨task, htask, hsome⟩ := List.mem_filterMap.mp hreply
  exact (h.backed task htask).addressOf_reply hsome

theorem reply_mem_move {load : Workload} {reply : Packet} (h : reply ∈ load.replies)
    (move : Move) : reply ∈ (load.move move).replies := by
  obtain ⟨task, htask, hsome⟩ := List.mem_filterMap.mp h
  cases move with
  | accept bytes source =>
    exact List.mem_filterMap.mpr ⟨task, List.mem_append_left _ htask, hsome⟩
  | advance index now =>
    cases hindex : load.tasks[index]? with
    | none =>
      simp only [Workload.move, hindex]
      exact h
    | some other =>
      simp only [Workload.move, hindex]
      obtain ⟨i, hi, rfl⟩ := List.mem_iff_getElem.mp htask
      by_cases heq : index = i
      · subst heq
        have hother : other = load.tasks[index] := by
          rw [List.getElem?_eq_getElem hi] at hindex
          exact (Option.some.inj hindex).symm
        subst hother
        exact List.mem_filterMap.mpr ⟨_, List.mem_set hi _, Task.reply_step hsome _ _⟩
      · have hkept : load.tasks[i] ∈ load.tasks.set index (other.step load.pool now).1 := by
          refine List.mem_iff_getElem.mpr ⟨i, by rwa [List.length_set], ?_⟩
          exact List.getElem_set_ne heq _
        exact List.mem_filterMap.mpr ⟨_, hkept, hsome⟩

/-- A reply that was produced stays produced. -/
theorem reply_mem_run {load : Workload} {reply : Packet} (h : reply ∈ load.replies)
    (moves : List Move) : reply ∈ (load.run moves).replies := by
  induction moves generalizing load with
  | nil => exact h
  | cons move rest ih => exact ih (reply_mem_move h move)

/-- A task that is let run alone gives the answer of the server to its datagram. -/
theorem run_alone (load : Workload) (bytes : List UInt8) (source : Endpoint) (now : Instant) :
    load.run [.accept bytes source, .advance load.tasks.length now,
        .advance load.tasks.length now, .advance load.tasks.length now] =
      ⟨(Server.respond load.pool bytes source now).pool,
        load.tasks ++ [((Task.start bytes source).run load.pool now).1]⟩ := by
  simp [run, move, Server.respond, Task.run]

/-- Whatever the order of steps, two replies name the same client exactly when they
name the same address, even if the second comes long after the first. Each reply
names an address of the range other than the server's, and the pool has that address
recorded for the client from then on. -/
theorem replies_pair_clients_with_addresses (config : Config) (moves later : List Move) :
    let load := (start config).run moves
    let after := load.run later
    (∀ reply ∈ load.replies, ∀ other ∈ after.replies,
      (reply.header.chaddr = other.header.chaddr ↔ reply.header.yiaddr = other.header.yiaddr)) ∧
    ∀ reply ∈ load.replies, reply ∈ after.replies ∧
      config.InPool reply.header.yiaddr ∧ reply.header.yiaddr ≠ config.serverAddress ∧
      ∃ lease, after.pool.leaseOf reply.header.chaddr = some lease ∧
        lease.address = reply.header.yiaddr := by
  intro load after
  obtain ⟨hload, hstart⟩ := sound_run (sound_start config) moves
  obtain ⟨hafter, hkeep⟩ := sound_run hload later
  have hconfig : after.pool.config = config := hkeep.config_eq.trans hstart.config_eq
  have hrecorded : ∀ reply ∈ load.replies,
      after.pool.addressOf reply.header.chaddr = some reply.header.yiaddr := by
    intro reply hreply
    exact hkeep.addressOf_eq (hload.addressOf_reply hreply)
  refine ⟨?_, ?_⟩
  · intro reply hreply other hother
    have hone := hrecorded reply hreply
    have htwo := hafter.addressOf_reply hother
    constructor
    · intro hclient
      rw [hclient, htwo] at hone
      exact (Option.some.inj hone).symm
    · intro haddress
      rw [haddress] at hone
      exact hafter.consistent.client_unique hone htwo
  · intro reply hreply
    have haddress := hrecorded reply hreply
    have hleasable := (hafter.consistent.leasable_iff _).mp (.inr ⟨_, haddress⟩)
    rw [hconfig] at hleasable
    exact ⟨reply_mem_run hreply later, hleasable.1, hleasable.2,
      Pool.addressOf_eq_some_iff.mp haddress⟩

/-- A datagram of type `type` without options, from the client whose address ends in `last`. -/
def datagram (type last : UInt8) : List UInt8 :=
  (Packet.mk { op := type, chaddr := ⟨⟨[2, 0, 0, 0, 0, last], rfl⟩⟩ } .empty).encode

/-- The request of the first client looks for a lease before there is one. Then the
second client is given a lease, and the request goes on as if it were a discovery. -/
def staleLookUp : List Move :=
  [.accept (datagram 3 1) ⟨.unspecified, 68⟩, .accept (datagram 1 2) ⟨.unspecified, 68⟩,
    .advance 0 ⟨0⟩, .advance 1 ⟨0⟩, .advance 0 ⟨0⟩, .advance 0 ⟨0⟩, .advance 1 ⟨0⟩]

theorem staleLookUp_names_two_addresses :
    ∃ reply ∈ ((start .standard).run staleLookUp).replies,
      ∃ other ∈ (((start .standard).run staleLookUp).run []).replies,
        reply.header.chaddr ≠ other.header.chaddr ∧ reply.header.yiaddr ≠ other.header.yiaddr := by
  have hclients : ∃ reply ∈ ((start .standard).run staleLookUp).replies,
      ∃ other ∈ (((start .standard).run staleLookUp).run []).replies,
        reply.header.chaddr ≠ other.header.chaddr := by
    decide +kernel
  obtain ⟨reply, hreply, other, hother, hne⟩ := hclients
  have hpairs := (replies_pair_clients_with_addresses .standard staleLookUp []).1
  exact ⟨reply, hreply, other, hother, hne, mt (hpairs reply hreply other hother).mpr hne⟩

end Workload

end Dhcp
