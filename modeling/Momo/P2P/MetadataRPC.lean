import Momo.P2P.IndirectPing
import Momo.Storage.Versioning

/-! @momo src/p2p/metadata_rpc.go, src/p2p/gossip.go, src/storage/versioning.go
    scheme:runs of a cluster

    Version records between nodes: `ReplicateVersion` sends one record to a peer and waits for the
    reply that carries its request's number. -/

namespace Momo.MetadataRPC

/-! ### The provider -/

structure ReplicateVersionArgs where
  requestID : ℕ := 0
  bucket : Bytes
  key : Bytes
  record : VersionRecord
  versioningStatus : Bytes
  deriving DecidableEq

structure ReplicateVersionReply where
  requestID : ℕ
  success : Bool
  error : Bytes
  deriving DecidableEq

class VersionJSON where
  encodeArgs : ReplicateVersionArgs → Except Err Bytes
  decodeArgs : Bytes → Except Err ReplicateVersionArgs
  encodeReply : ReplicateVersionReply → Bytes
  decodeReply : Bytes → Except Err ReplicateVersionReply
  errorText : Err → Bytes

/-- A `ReplicateVersion` call at its select: whom it asked for what, and its reply channel. -/
structure Call where
  peer : Int
  args : ReplicateVersionArgs
  chan : Option ReplicateVersionReply := none
  deriving DecidableEq

/-- `MetadataRPCProvider`, with the part of the store it writes. -/
structure Provider (β : Type) where
  store : CASStore β
  versioning : Bucket Bytes := Bucket.empty
  nextRequestID : ℕ := 0
  versionPending : ℕ → Option Call := fun _ => none

def setBucketVersioning (versioning : Bucket Bytes) (bucket status : Bytes) :
    Except Err (Bucket Bytes) :=
  if status ≠ lit "Enabled" ∧ status ≠ lit "Suspended" then
    .error (.wrap "invalid versioning status %q: %w" [.str status] (.sys .einval))
  else versioning.put bucket status

structure Handled where
  args : ReplicateVersionArgs
  stored : Bool
  receiver : Int
  reply : ReplicateVersionReply
  deriving DecidableEq

namespace Provider

variable {β : Type}

def setPending (p : Provider β) (id : ℕ) (call : Option Call) : Provider β :=
  { p with versionPending := Function.update p.versionPending id call }

theorem setPending_same (p : Provider β) (id : ℕ) (call : Option Call) :
    (p.setPending id call).versionPending id = call := Function.update_self ..

theorem setPending_other {p : Provider β} {id id' : ℕ} (h : id' ≠ id) (call : Option Call) :
    (p.setPending id call).versionPending id' = p.versionPending id' := Function.update_of_ne h ..

variable [VersionJSON]

def status (p : Provider β) (args : ReplicateVersionArgs) : Except Err (Bucket Bytes) :=
  if args.versioningStatus = [] then .ok p.versioning
  else setBucketVersioning p.versioning args.bucket args.versioningStatus

def reply (args : ReplicateVersionArgs) : Except Err Unit → ReplicateVersionReply
  | .ok _ => ⟨args.requestID, true, []⟩
  | .error e => ⟨args.requestID, false, VersionJSON.errorText e⟩

/-- The status, then the record; the reply goes to the sender the message names. -/
def handleReplicateVersion (p : Provider β) (rpc : Gossip.RPC) : Provider β × Option Handled :=
  match VersionJSON.decodeArgs rpc.payload with
  | .error _ => (p, none)
  | .ok args =>
    match p.status args with
    | .error e => (p, some ⟨args, false, rpc.sender, reply args (.error e)⟩)
    | .ok versioning =>
      let (result, store) := p.store.putVersionRecord args.bucket args.key args.record
      ({ p with versioning := versioning, store := store },
        some ⟨args, true, rpc.sender, reply args result⟩)

def handleReplicateVersionResponse (p : Provider β) (rpc : Gossip.RPC) : Provider β :=
  match VersionJSON.decodeReply rpc.payload with
  | .error _ => p
  | .ok reply =>
    match p.versionPending reply.requestID with
    | none => p
    | some call => p.setPending reply.requestID (some { call with chan := call.chan <|> some reply })

def handleRPC (p : Provider β) (rpc : Gossip.RPC) : Provider β × Option Handled :=
  match rpc.type with
  | .replicateVersion => p.handleReplicateVersion rpc
  | .replicateVersionResponse => (p.handleReplicateVersionResponse rpc, none)
  | _ => (p, none)

def request (args : ReplicateVersionArgs) : Except Err Gossip.RPC := do
  let payload ← VersionJSON.encodeArgs args
  return { sender := 0, type := .replicateVersion, payload := payload }

def response (reply : ReplicateVersionReply) : Gossip.RPC :=
  { sender := 0, type := .replicateVersionResponse, payload := VersionJSON.encodeReply reply }

end Provider

/-! ### The cluster -/

structure Node (β : Type) where
  gossiper : Gossip.Gossiper
  provider : Provider β

inductive Event
  | applied (node : Int) (args : ReplicateVersionArgs)
  | replied (node receiver : Int) (reply : ReplicateVersionReply)
  | returned (node : Int) (id : ℕ) (reply : Option ReplicateVersionReply) (err : Option Err)
  deriving DecidableEq

structure Cluster (β : Type) where
  members : List Int
  nodes : Int → Node β
  wire : List (Int × Bytes) := []
  log : List Event := []

/-- `fault` is what the transport's `Send` reports; `n` counts the frames on their way. -/
inductive Op (β : Type)
  | call (node peer : Int) (args : ReplicateVersionArgs) (fault : Option Err)
  | deliver (n : ℕ)
  | gossip (node : Int) (o : Gossip.Op)
  | answer (node : Int) (id : ℕ)
  | timeout (node : Int) (id : ℕ)
  | changeStore (node : Int) (store : CASStore β) (versioning : Bucket Bytes)

section Steps

variable {β : Type}

namespace Cluster

def setNode (c : Cluster β) (i : Int) (n : Node β) : Cluster β :=
  { c with nodes := Function.update c.nodes i n }

theorem setNode_same (c : Cluster β) (i : Int) (n : Node β) : (c.setNode i n).nodes i = n :=
  Function.update_self ..

theorem setNode_other {c : Cluster β} {i j : Int} (h : j ≠ i) (n : Node β) :
    (c.setNode i n).nodes j = c.nodes j := Function.update_of_ne h ..

def setProvider (c : Cluster β) (i : Int) (p : Provider β) : Cluster β :=
  c.setNode i { c.nodes i with provider := p }

def setCall (c : Cluster β) (i : Int) (id : ℕ) (call : Option Call) : Cluster β :=
  c.setProvider i ((c.nodes i).provider.setPending id call)

def finish (c : Cluster β) (i : Int) (id : ℕ) (reply : Option ReplicateVersionReply)
    (err : Option Err) : Cluster β :=
  { c.setCall i id none with log := c.log ++ [.returned i id reply err] }

variable [VersionJSON]

def replicateVersion (c : Cluster β) (i peer : Int) (args : ReplicateVersionArgs)
    (fault : Option Err) : Cluster β :=
  let p := (c.nodes i).provider
  let id := (p.nextRequestID + 1) % 2 ^ 64
  let args := { args with requestID := id }
  let c' := (c.setProvider i { p with nextRequestID := id }).setCall i id (some { peer, args })
  match Provider.request args with
  | .error e => c'.finish i id none (some (.wrap "encode version replica: %w" [] e))
  | .ok rpc =>
    match fault with
    | some e => c'.finish i id none (some (.wrap "send version replica to peer %d: %w" [.num peer] e))
    | none => { c' with wire := c'.wire ++ [(peer, rpc.encode)] }

def answer (c : Cluster β) (i : Int) (id : ℕ) : Cluster β :=
  match (c.nodes i).provider.versionPending id with
  | none => c
  | some call =>
    match call.chan with
    | none => c
    | some reply =>
      if reply.success then c.finish i id (some reply) none
      else c.finish i id (some reply) (some (.wrap "peer %d rejected version record: %s: %w"
        [.num call.peer, .str reply.error] (.sys .eio)))

def timeout (c : Cluster β) (i : Int) (id : ℕ) : Cluster β :=
  match (c.nodes i).provider.versionPending id with
  | none => c
  | some call => c.finish i id none
      (some (.wrap "timeout replicating version to peer %d: %w" [.num call.peer] (.sys .etimedout)))

/-- An event of a node's gossiper: what it sends goes onto the wire, and what it hands to the
    metadata component is handled there. -/
def carry (i : Int) (c : Cluster β) : Gossip.Event → Cluster β
  | .sent receiver rpc => { c with wire := c.wire ++ [(receiver, rpc.encode)] }
  | .handed .metadataRPC rpc =>
    let (p, out) := (c.nodes i).provider.handleRPC rpc
    match out with
    | none => c.setProvider i p
    | some out =>
      { c.setProvider i p with
        wire := c.wire ++ [(out.receiver, (Provider.response out.reply).encode)]
        log := c.log ++ (if out.stored then [.applied i out.args] else []) ++
          [.replied i out.receiver out.reply] }
  | _ => c

def gossip (c : Cluster β) (i : Int) (o : Gossip.Op) : Cluster β :=
  let g := (c.nodes i).gossiper
  let g' := g.step o
  (g'.log.drop g.log.length).foldl (carry i) (c.setNode i { c.nodes i with gossiper := g' })

def deliver (c : Cluster β) (n : ℕ) : Cluster β :=
  match c.wire[n]? with
  | none => c
  | some (receiver, frame) =>
    let c' := { c with wire := c.wire.eraseIdx n }
    match Gossip.decodeRPC frame with
    | .error _ => c'
    | .ok (rpc, _) => c'.gossip receiver (.receive rpc)

def step (c : Cluster β) : Op β → Cluster β
  | .call i peer args fault => c.replicateVersion i peer args fault
  | .deliver n => c.deliver n
  | .gossip i o => c.gossip i o
  | .answer i id => c.answer i id
  | .timeout i id => c.timeout i id
  | .changeStore i store versioning =>
    c.setProvider i { (c.nodes i).provider with store := store, versioning := versioning }

end Cluster

end Steps

/-! ### Silence -/

section Silence

variable {β : Type}

structure Silent (c : Cluster β) : Prop where
  chans : ∀ i id call, (c.nodes i).provider.versionPending id = some call → call.chan = none
  log : ∀ e ∈ c.log, ∃ i id err, e = .returned i id none (some err)

namespace Silent

variable {c : Cluster β}

theorem of_eq {c' : Cluster β} (h : Silent c)
    (hpending : ∀ i, (c'.nodes i).provider.versionPending = (c.nodes i).provider.versionPending)
    (hlog : c'.log = c.log) : Silent c' :=
  ⟨fun i id call hcall => h.chans i id call (hpending i ▸ hcall), fun e he => h.log e (hlog ▸ he)⟩

theorem setProvider (h : Silent c) {i : Int} {p : Provider β}
    (hp : ∀ id call, p.versionPending id = some call → call.chan = none) :
    Silent (c.setProvider i p) := by
  refine ⟨fun j id call hcall => ?_, h.log⟩
  by_cases hj : j = i
  · subst hj
    rw [Cluster.setProvider, Cluster.setNode_same] at hcall
    exact hp id call hcall
  · rw [Cluster.setProvider, Cluster.setNode_other hj] at hcall
    exact h.chans j id call hcall

theorem setCall (h : Silent c) {i : Int} {id : ℕ} {call : Option Call}
    (hcall : ∀ x ∈ call, x.chan = none) : Silent (c.setCall i id call) := by
  refine h.setProvider fun id' x hx => ?_
  by_cases hid : id' = id
  · subst hid
    rw [Provider.setPending_same] at hx
    exact hcall x hx
  · rw [Provider.setPending_other hid] at hx
    exact h.chans i id' x hx

theorem finish (h : Silent c) (i : Int) (id : ℕ) (err : Err) :
    Silent (c.finish i id none (some err)) := by
  refine ⟨(h.setCall (by simp)).chans, fun e he => ?_⟩
  rcases List.mem_append.mp he with he | he
  · exact h.log e he
  · exact ⟨i, id, err, List.mem_singleton.mp he⟩

variable [VersionJSON]

theorem replicateVersion (h : Silent c) (i peer : Int) (args : ReplicateVersionArgs)
    (fault : Option Err) : Silent (c.replicateVersion i peer args fault) := by
  have hopen : ∀ n id call, call.chan = none → Silent ((c.setProvider i
      { (c.nodes i).provider with nextRequestID := n }).setCall i id (some call)) := by
    intro n id call hcall
    have hdrawn : Silent (c.setProvider i { (c.nodes i).provider with nextRequestID := n }) :=
      h.setProvider fun id call hid => h.chans i id call hid
    refine hdrawn.setCall fun x hx => ?_
    rw [← Option.some.inj hx]
    exact hcall
  rw [Cluster.replicateVersion]
  split
  · exact (hopen _ _ _ rfl).finish _ _ _
  · split
    · exact (hopen _ _ _ rfl).finish _ _ _
    · exact (hopen _ _ _ rfl).of_eq (fun _ => rfl) rfl

theorem carry (h : Silent c) (i : Int) {e : Gossip.Event}
    (he : ∀ rpc, e = .handed .metadataRPC rpc → rpc.type ∈ Gossip.metadataTypes) :
    Silent (c.carry i e) := by
  rw [Cluster.carry.eq_def]
  split
  · exact h.of_eq (fun _ => rfl) rfl
  · rename_i rpc
    -- a message of these types is none of the provider's version messages
    have hnone : (c.nodes i).provider.handleRPC rpc = ((c.nodes i).provider, none) := by
      have htype := he rpc rfl
      simp only [Gossip.metadataTypes, List.mem_cons, List.not_mem_nil, or_false] at htype
      rw [Provider.handleRPC]
      rcases htype with h | h | h | h | h | h <;> rw [h]
    rw [hnone]
    exact h.setProvider (h.chans i)
  · exact h

theorem gossip (h : Silent c) (i : Int) (o : Gossip.Op) : Silent (c.gossip i o) := by
  obtain ⟨es, hes, htypes⟩ := Gossip.step_log (c.nodes i).gossiper o
  have hnode : Silent (c.setNode i
      { c.nodes i with gossiper := (c.nodes i).gossiper.step o }) := by
    refine h.of_eq (fun j => ?_) rfl
    by_cases hj : j = i
    · subst hj
      rw [Cluster.setNode_same]
    · rw [Cluster.setNode_other hj]
  rw [Cluster.gossip]
  simp only [hes, List.drop_left]
  -- event by event
  clear hes
  revert htypes hnode
  generalize c.setNode i _ = c'
  intro htypes hc'
  induction es generalizing c' with
  | nil => exact hc'
  | cons e es ih =>
    refine ih _ (fun rpc hrpc => htypes rpc (List.mem_cons_of_mem _ hrpc)) (hc'.carry i ?_)
    rintro rpc rfl
    exact htypes rpc List.mem_cons_self

theorem step (h : Silent c) (o : Op β) : Silent (c.step o) := by
  cases o with
  | call i peer args fault => exact h.replicateVersion i peer args fault
  | deliver n =>
    rw [Cluster.step, Cluster.deliver]
    split
    · exact h
    · dsimp only
      split
      · exact h.of_eq (fun _ => rfl) rfl
      · have htaken : Silent { c with wire := c.wire.eraseIdx n } := h.of_eq (fun _ => rfl) rfl
        exact htaken.gossip _ _
  | gossip i o => exact h.gossip i o
  | answer i id =>
    rw [Cluster.step, Cluster.answer]
    split
    · exact h
    · rename_i call hcall
      rw [h.chans i id call hcall]
      exact h
  | timeout i id =>
    rw [Cluster.step, Cluster.timeout]
    split
    · exact h
    · exact h.finish i id _
  | changeStore i store versioning => exact h.setProvider (h.chans i)

/-- Run: in whatever order calls, frames and goroutines come. -/
theorem run (h : Silent c) (ops : List (Op β)) : Silent (Momo.run Cluster.step c ops) :=
  run_invariant Silent (fun _ o hc _ => hc.step o) h (guarded_of_forall c fun _ _ => trivial)

end Silent

end Silence

/-! ### The round trip -/

section RoundTrip

variable {β : Type}

def Cluster.Fresh (c : Cluster β) : Prop :=
  (∀ i id, (c.nodes i).provider.versionPending id = none) ∧ c.log = []

def Cluster.Quiet (c : Cluster β) : Prop :=
  c.wire = [] ∧ ∀ i ∈ c.members, (c.nodes i).gossiper.rpcCh = []

instance (c : Cluster β) : Decidable c.Quiet :=
  inferInstanceAs (Decidable (c.wire = [] ∧ ∀ i ∈ c.members, (c.nodes i).gossiper.rpcCh = []))

/-- The peer has applied the record and sent its reply to the caller, and the call has it. -/
def Cluster.RoundTrip (c : Cluster β) (i : Int) (call : Call) : Prop :=
  Event.applied call.peer call.args ∈ c.log ∧
    ∃ reply, Event.replied call.peer i reply ∈ c.log ∧ call.chan = some reply

theorem Cluster.Fresh.silent {c : Cluster β} (h : c.Fresh) : Silent c :=
  ⟨fun i id call hcall => by simp [h.1 i id] at hcall, by simp [h.2]⟩

/-- CORRECT: in a state in which all messages have arrived, the calls that wait have made their round
    trip just when none waits. -/
theorem roundTrip_iff [VersionJSON] (c : Cluster β) (hfresh : c.Fresh) (ops : List (Op β)) :
    ((run Cluster.step c ops).Quiet → ∀ i id call,
        ((run Cluster.step c ops).nodes i).provider.versionPending id = some call →
          (run Cluster.step c ops).RoundTrip i call) ↔
      ((run Cluster.step c ops).Quiet → ∀ i id,
        ((run Cluster.step c ops).nodes i).provider.versionPending id = none) := by
  have hsilent := hfresh.silent.run ops
  constructor
  · intro h hquiet i id
    cases hcall : ((run Cluster.step c ops).nodes i).provider.versionPending id with
    | none => rfl
    | some call =>
      obtain ⟨-, reply, -, hreply⟩ := h hquiet i id call hcall
      rw [hsilent.chans i id call hcall] at hreply
      cases hreply
  · intro h hquiet i id call hcall
    rw [h hquiet i id] at hcall
    cases hcall

end RoundTrip

section Runs

/-- A record of one version of `b/k`. -/
def sampleArgs : ReplicateVersionArgs where
  bucket := lit "b"
  key := lit "k"
  record := { versionID := lit "v1", hash := lit "h", size := 3, timestamp := 9, isLatest := true }
  versioningStatus := lit "Enabled"

local instance numberedJSON : VersionJSON where
  encodeArgs args := .ok (bePut 8 args.requestID)
  decodeArgs data := .ok { sampleArgs with requestID := beGet data }
  encodeReply reply := bePut 8 reply.requestID ++ [if reply.success then 1 else 0]
  decodeReply data := .ok ⟨beGet (data.take 8), data.drop 8 == [1], []⟩
  errorText _ := []

def pair : Cluster Unit where
  members := [0, 1]
  nodes i := { gossiper := { localID := i, pingTimeout := 500 }, provider := { store := { blobs := () } } }

theorem request_on_its_way :
    (run Cluster.step pair [.call 0 1 sampleArgs none]).wire ≠ [] ∧
      ((run Cluster.step pair [.call 0 1 sampleArgs none]).Quiet → ∀ i id call,
        ((run Cluster.step pair [.call 0 1 sampleArgs none]).nodes i).provider.versionPending id =
            some call →
          (run Cluster.step pair [.call 0 1 sampleArgs none]).RoundTrip i call) := by
  have hwire : (run Cluster.step pair [.call 0 1 sampleArgs none]).wire ≠ [] := by decide +kernel
  refine ⟨hwire, (roundTrip_iff pair ⟨fun _ _ => rfl, rfl⟩ _).mpr fun hquiet => ?_⟩
  exact absurd hquiet.1 hwire

/-- Node 0 sends the record to node 1. The request arrives and node 1's consumer takes it; then
    nothing is on its way any more, no record was applied, and the call runs into its timeout. -/
theorem version_not_replicated :
    (run Cluster.step pair [.call 0 1 sampleArgs none, .deliver 0, .gossip 1 (.take [])]).Quiet ∧
      ((run Cluster.step pair [.call 0 1 sampleArgs none, .deliver 0, .gossip 1 (.take [])]).nodes
        0).provider.versionPending 1 = some { peer := 1, args := { sampleArgs with requestID := 1 } } ∧
      ¬ (run Cluster.step pair [.call 0 1 sampleArgs none, .deliver 0, .gossip 1 (.take [])]).RoundTrip 0
        { peer := 1, args := { sampleArgs with requestID := 1 } } ∧
      ((run Cluster.step pair [.call 0 1 sampleArgs none, .deliver 0, .gossip 1 (.take [])]).nodes
        1).provider.store.getVersion (lit "b") (lit "k") (lit "v1") = .error (.sys .enoent) ∧
      (run Cluster.step pair
          [.call 0 1 sampleArgs none, .deliver 0, .gossip 1 (.take []), .timeout 0 1]).log =
        [.returned 0 1 none (some (.wrap "timeout replicating version to peer %d: %w" [.num 1]
          (.sys .etimedout)))] := by
  refine ⟨by decide +kernel, by decide +kernel, ?_, by decide +kernel, by decide +kernel⟩
  rintro ⟨happlied, -⟩
  have hlog : (run Cluster.step pair
      [.call 0 1 sampleArgs none, .deliver 0, .gossip 1 (.take [])]).log = [] := by decide +kernel
  rw [hlog] at happlied
  cases happlied

end Runs

end Momo.MetadataRPC
