import Momo.P2P.Lease

/-! @momo src/p2p/types.go, src/p2p/gossip.go, src/p2p/tcp_transport.go
    scheme:message handlers

    The messages between nodes and the gossip layer that takes them from the transport. Every
    message of every component comes in through one channel, `rpcCh`, and one consumer hands it on
    by its type. -/

namespace Momo.Gossip

/-! ### Messages -/

/-- `MessageType`; a byte without a name is `unknown`. -/
inductive MessageType
  | heartbeat | membership | suspect | query | queryResponse | leaseRequest | leaseGrant
  | leaseRelease | ping | ack | indirectPing | oprfEvalRequest | oprfEvalResponse | putMetadata
  | putMetadataResponse | resolveMetadata | resolveMetadataResponse | replicateMetadata
  | replicateMetadataResponse | listShard | listShardResponse | replicateVersion
  | replicateVersionResponse | load
  | unknown (code : UInt8)
  deriving DecidableEq

namespace MessageType

def code : MessageType → UInt8
  | heartbeat => 1 | membership => 2 | suspect => 3 | query => 4 | queryResponse => 5
  | leaseRequest => 6 | leaseGrant => 7 | leaseRelease => 8 | ping => 9 | ack => 10
  | indirectPing => 11 | oprfEvalRequest => 12 | oprfEvalResponse => 13 | putMetadata => 14
  | putMetadataResponse => 15 | resolveMetadata => 16 | resolveMetadataResponse => 17
  | replicateMetadata => 18 | replicateMetadataResponse => 19 | listShard => 20
  | listShardResponse => 21 | replicateVersion => 22 | replicateVersionResponse => 23 | load => 24
  | unknown c => c

def named : List MessageType :=
  [heartbeat, membership, suspect, query, queryResponse, leaseRequest, leaseGrant, leaseRelease,
    ping, ack, indirectPing, oprfEvalRequest, oprfEvalResponse, putMetadata, putMetadataResponse,
    resolveMetadata, resolveMetadataResponse, replicateMetadata, replicateMetadataResponse,
    listShard, listShardResponse, replicateVersion, replicateVersionResponse, load]

def ofCode (b : UInt8) : MessageType := (named.find? (fun t => t.code == b)).getD (unknown b)

theorem ofCode_code {t : MessageType} (h : t ∈ named) : ofCode t.code = t := by
  revert t
  decide

end MessageType

structure RPC where
  sender : Int
  type : MessageType
  payload : Bytes
  deriving DecidableEq

def int32 (x : Int) : Int := Int.bmod x (2 ^ 32)

theorem int32_emod (x : Int) : int32 (x % 2 ^ 32) = int32 x := Int.emod_bmod x (2 ^ 32)

def RPC.encode (r : RPC) : Bytes :=
  bePut 4 (5 + r.payload.length) ++
    (r.type.code :: (bePut 4 (r.sender % 2 ^ 32).toNat ++ r.payload))

/-- What `io.ReadFull` reports when a stream ends early. -/
def shortRead (stream : Bytes) : Arg :=
  .str (if stream = [] then lit "EOF" else lit "unexpected EOF")

def decodeRPC (stream : Bytes) : Except Err (RPC × Bytes) :=
  if stream.length < 4 then
    .error (.wrap "failed to read RPC length: %v: %w" [shortRead stream] (.sys .eio))
  else
    let totalLen := beGet (stream.take 4)
    let body := stream.drop 4
    if totalLen < 5 ∨ 2 ^ 20 < totalLen then
      .error (.wrap "invalid RPC length %d: %w" [.num totalLen] (.sys .ebadmsg))
    else if body.length < totalLen then
      .error (.wrap "failed to read RPC body: %v: %w" [shortRead body] (.sys .eio))
    else
      .ok ({ sender := int32 (beGet ((body.drop 1).take 4)), type := .ofCode (body.headD 0),
             payload := (body.take totalLen).drop 5 }, body.drop totalLen)

theorem int32_bePut {x : Int} (h : int32 x = x) : int32 (beGet (bePut 4 (x % 2 ^ 32).toNat) : ℕ) = x := by
  have hmod : ((beGet (bePut 4 (x % 2 ^ 32).toNat) : ℕ) : Int) = x % 2 ^ 32 := by
    rw [beGet_bePut, Nat.mod_eq_of_lt (by omega)]
    omega
  rw [hmod, int32_emod, h]

theorem decodeRPC_encode {r : RPC} (htype : r.type ∈ MessageType.named)
    (hsender : int32 r.sender = r.sender) (hlen : 5 + r.payload.length ≤ 2 ^ 20) (rest : Bytes) :
    decodeRPC (r.encode ++ rest) = .ok (r, rest) := by
  have hshape : r.encode ++ rest = bePut 4 (5 + r.payload.length) ++
      (r.type.code :: (bePut 4 (r.sender % 2 ^ 32).toNat ++ (r.payload ++ rest))) := by
    simp [RPC.encode]
  have htotal : beGet ((r.encode ++ rest).take 4) = 5 + r.payload.length := by
    rw [hshape, List.take_left' (by simp), beGet_bePut, Nat.mod_eq_of_lt (by omega)]
  have hbody : (r.encode ++ rest).drop 4 =
      r.type.code :: (bePut 4 (r.sender % 2 ^ 32).toNat ++ (r.payload ++ rest)) := by
    rw [hshape, List.drop_left' (by simp)]
  have hcut : r.type.code :: (bePut 4 (r.sender % 2 ^ 32).toNat ++ (r.payload ++ rest)) =
      (r.type.code :: (bePut 4 (r.sender % 2 ^ 32).toNat ++ r.payload)) ++ rest := by simp
  have hframe : (r.type.code :: (bePut 4 (r.sender % 2 ^ 32).toNat ++ r.payload)).length =
      5 + r.payload.length := by
    simp
    omega
  have hpayload : (r.type.code :: (bePut 4 (r.sender % 2 ^ 32).toNat ++ r.payload)).drop 5 =
      r.payload := by
    rw [List.drop_succ_cons, List.drop_left' (by simp)]
  rw [decodeRPC, if_neg (by rw [hshape]; simp), htotal, hbody, if_neg (by omega),
    if_neg (by simp; omega)]
  simp only [List.headD_cons, MessageType.ofCode_code htype, List.drop_succ_cons, List.drop_zero]
  rw [List.take_left' (by simp), int32_bePut hsender, hcut, List.take_left' hframe, List.drop_left' hframe, hpayload]

/-! ### Payloads -/

structure PingPayload where
  pingID : ℕ
  targetID : Int
  timestamp : Int
  deriving DecidableEq

def PingPayload.encode (p : PingPayload) : Bytes :=
  bePut 8 p.pingID ++ (bePut 4 (p.targetID % 2 ^ 32).toNat ++ bePut 8 (p.timestamp % 2 ^ 64).toNat)

def decodePingPayload (data : Bytes) : Except Err PingPayload :=
  if maxPayloadSize < data.length then
    .error (.text "ping payload too large: %d (errno=%d)" [.num data.length, .num 27])
  else if data.length < 20 then
    .error (.wrap "ping payload too short: %w" [] (.sys .ebadmsg))
  else
    .ok { pingID := beGet (data.take 8), targetID := int32 (beGet ((data.drop 8).take 4)),
          timestamp := int64 (beGet ((data.drop 12).take 8)) }

structure PeerInfo where
  id : Int
  addr : Bytes
  deriving DecidableEq

/-- `HeartbeatPayload.Encode`: the number of peers, and each peer's id and address. -/
def encodeHeartbeat (peers : List PeerInfo) : Bytes :=
  bePut 4 peers.length ++ peers.flatMap fun p =>
    bePut 4 (p.id % 2 ^ 32).toNat ++ (bePut 2 p.addr.length ++ p.addr)

/-- The entries of a heartbeat; `i` counts them. -/
def decodePeers (i : ℕ) : ℕ → Bytes → Except Err (List PeerInfo)
  | 0, _ => .ok []
  | count + 1, data =>
    if data.length < 6 then
      .error (.wrap "truncated peer entry %d: %w" [.num i] (.sys .ebadmsg))
    else
      let addrLen := beGet ((data.drop 4).take 2)
      if data.length < 6 + addrLen then
        .error (.wrap "truncated peer addr %d: %w" [.num i] (.sys .ebadmsg))
      else do
        let peers ← decodePeers (i + 1) count (data.drop (6 + addrLen))
        return { id := int32 (beGet (data.take 4)), addr := (data.drop 6).take addrLen } :: peers

def decodeHeartbeatPayload (data : Bytes) : Except Err (List PeerInfo) :=
  if maxPayloadSize < data.length then
    .error (.wrap "heartbeat payload exceeds maxPayloadSize: %w" [] (.sys .ebadmsg))
  else if data.length < 4 then
    .error (.wrap "heartbeat payload too short: %w" [] (.sys .ebadmsg))
  else
    let count := beGet (data.take 4)
    let maxCount := (data.length - 4) / 6
    if maxCount < count then
      .error (.wrap "heartbeat count %d exceeds data capacity %d: %w" [.num count, .num maxCount]
        (.sys .einval))
    else decodePeers 0 count (data.drop 4)

structure PeerLoad where
  diskUsedPercent : UInt8
  inflightRequests : ℕ
  replicationQueue : ℕ
  updatedUnixNano : Int
  deriving DecidableEq

def decodeLoadPayload (data : Bytes) : Except Err PeerLoad :=
  if maxPayloadSize < data.length then
    .error (.text "load payload too large: %d (errno=%d)" [.num data.length, .num 27])
  else if data.length < 20 then
    .error (.wrap "load payload too short: %w" [] (.sys .ebadmsg))
  else if 100 < data.headD 0 then
    .error (.wrap "load payload disk percent out of range: %d: %w" [.num (data.headD 0).toNat]
      (.sys .ebadmsg))
  else
    .ok { diskUsedPercent := data.headD 0, inflightRequests := beGet ((data.drop 4).take 4),
          replicationQueue := beGet ((data.drop 8).take 4),
          updatedUnixNano := int64 (beGet ((data.drop 12).take 8)) }

/-! ### The gossiper -/

inductive PeerState
  | alive | suspect | offline
  deriving DecidableEq

structure Peer where
  addr : Bytes
  state : PeerState := .alive
  lastSeen : Int
  load : Option PeerLoad := none
  deriving DecidableEq

inductive Component
  | scatterGather | leaseManager | oprfProvider | metadataRPC
  deriving DecidableEq

/-- `handleIndirectPing` at its select: who asked, what for, the channel it waits on and the time
    at which it gives up. -/
structure Wait where
  requester : Int
  payload : PingPayload
  ackCh : ℕ
  deadline : Int
  deriving DecidableEq

/-- The consumer loop: ready for the next message, inside `handleIndirectPing`, or gone. -/
inductive Loop
  | ready
  | waiting (w : Wait)
  | stopped
  deriving DecidableEq

inductive Pinger
  | idle
  | direct (payload : PingPayload) (ackCh : ℕ) (deadline : Int)
  | indirect (payload : PingPayload) (ackCh : ℕ) (deadline : Int)
  deriving DecidableEq

inductive Event
  | sent (receiver : Int) (rpc : RPC)
  | joined (id : Int)
  | handed (component : Component) (rpc : RPC)
  | forwarded (w : Wait)
  | timedOut (w : Wait)
  | abandoned (w : Wait)
  deriving DecidableEq

/-- `Gossiper`, with the channel of its transport. -/
structure Gossiper where
  localID : Int
  pingTimeout : Int
  peers : Int → Option Peer := fun _ => none
  attached : Component → Bool := fun _ => true
  rpcCh : List RPC := []
  pendingPings : ℕ → Option ℕ := fun _ => none
  ackChs : ℕ → Bool := fun _ => false
  made : ℕ := 0
  nextPingID : ℕ := 0
  now : Int := 0
  closed : Bool := false
  loop : Loop := .ready
  pinger : Pinger := .idle
  log : List Event := []

namespace Gossiper

def record (g : Gossiper) (e : Event) : Gossiper := { g with log := g.log ++ [e] }

/-- `transport.Send`; `down` are the peers a message does not get to. -/
def send (g : Gossiper) (down : List Int) (receiver : Int) (rpc : RPC) : Except Err Gossiper :=
  if receiver ∈ down then .error (.sys .eio) else .ok (g.record (.sent receiver rpc))

def trySend (g : Gossiper) (down : List Int) (receiver : Int) (rpc : RPC) : Gossiper :=
  match g.send down receiver rpc with
  | .ok g' => g'
  | .error _ => g

def revive (g : Gossiper) (id : Int) : Gossiper :=
  match g.peers id with
  | none => g
  | some peer =>
    { g with peers := Function.update g.peers id (some { peer with lastSeen := g.now, state := .alive }) }

def addPing (g : Gossiper) (pingID : ℕ) : Gossiper :=
  { g with
    pendingPings := Function.update g.pendingPings pingID (some g.made)
    ackChs := Function.update g.ackChs g.made false
    made := g.made + 1 }

def fill (g : Gossiper) (ackCh : ℕ) : Gossiper :=
  { g with ackChs := Function.update g.ackChs ackCh true }

def drain (g : Gossiper) (ackCh : ℕ) : Gossiper :=
  { g with ackChs := Function.update g.ackChs ackCh false }

def removePendingPing (g : Gossiper) (pingID : ℕ) : Gossiper :=
  { g with pendingPings := Function.update g.pendingPings pingID none }

/-! ### Handlers -/

def discover (g : Gossiper) (info : PeerInfo) : Gossiper :=
  if info.id = g.localID then g
  else
    match g.peers info.id with
    | some _ => g
    | none =>
      { g with
        peers := Function.update g.peers info.id (some { addr := info.addr, lastSeen := g.now })
        log := g.log ++ [.joined info.id] }

def maxPeersInHeartbeat : ℕ := 256

def handleMembership (g : Gossiper) (rpc : RPC) : Gossiper :=
  match decodeHeartbeatPayload rpc.payload with
  | .error _ => g
  | .ok peers => (peers.take maxPeersInHeartbeat).foldl discover g

def handleHeartbeat (g : Gossiper) (rpc : RPC) : Gossiper :=
  match decodeHeartbeatPayload rpc.payload with
  | .error _ => g
  | .ok peers => ((peers.take maxPeersInHeartbeat).foldl discover g).revive rpc.sender

def markSuspectIfAlive (g : Gossiper) (id : Int) : Gossiper :=
  match g.peers id with
  | none => g
  | some peer =>
    if peer.state = .alive then
      { g with peers := Function.update g.peers id (some { peer with state := .suspect }) }
    else g

def handleSuspect (g : Gossiper) (rpc : RPC) : Gossiper :=
  if rpc.payload.length < 4 then g
  else
    let suspectID := int32 (beGet (rpc.payload.take 4))
    if suspectID = g.localID then g else g.markSuspectIfAlive suspectID

def handleLoad (g : Gossiper) (rpc : RPC) : Gossiper :=
  match decodeLoadPayload rpc.payload with
  | .error _ => g
  | .ok load =>
    match g.peers rpc.sender with
    | none => g
    | some peer =>
      { g with peers := Function.update g.peers rpc.sender (some { peer with load := some load }) }

def handlePing (g : Gossiper) (down : List Int) (rpc : RPC) : Gossiper :=
  match decodePingPayload rpc.payload with
  | .error _ => g
  | .ok payload =>
    let ack : PingPayload := { payload with targetID := g.localID }
    (g.trySend down rpc.sender ⟨g.localID, .ack, ack.encode⟩).revive rpc.sender

def handleAck (g : Gossiper) (rpc : RPC) : Gossiper :=
  match decodePingPayload rpc.payload with
  | .error _ => g
  | .ok payload =>
    match g.pendingPings payload.pingID with
    | none => g
    | some ackCh => (g.fill ackCh).revive rpc.sender

/-- `handleIndirectPing` up to its select: the ping is sent, then registered. -/
def handleIndirectPing (g : Gossiper) (down : List Int) (rpc : RPC) : Gossiper :=
  match decodePingPayload rpc.payload with
  | .error _ => g
  | .ok payload =>
    match g.peers payload.targetID with
    | none => g
    | some _ =>
      match g.send down payload.targetID ⟨g.localID, .ping, payload.encode⟩ with
      | .error _ => g
      | .ok g' =>
        { g'.addPing payload.pingID with
          loop := .waiting ⟨rpc.sender, payload, g'.made, g'.now + g'.pingTimeout⟩ }

def hand (g : Gossiper) (component : Component) (rpc : RPC) : Gossiper :=
  if g.attached component then g.record (.handed component rpc) else g

def handleRPC (g : Gossiper) (down : List Int) (rpc : RPC) : Gossiper :=
  match rpc.type with
  | .heartbeat => g.handleHeartbeat rpc
  | .membership => g.handleMembership rpc
  | .suspect => g.handleSuspect rpc
  | .ping => g.handlePing down rpc
  | .ack => g.handleAck rpc
  | .indirectPing => g.handleIndirectPing down rpc
  | .load => g.handleLoad rpc
  | .query | .queryResponse => g.hand .scatterGather rpc
  | .leaseRequest | .leaseGrant | .leaseRelease => g.hand .leaseManager rpc
  | .oprfEvalRequest | .oprfEvalResponse => g.hand .oprfProvider rpc
  | .putMetadata | .putMetadataResponse | .resolveMetadata | .resolveMetadataResponse
  | .replicateMetadata | .replicateMetadataResponse => g.hand .metadataRPC rpc
  | .listShard | .listShardResponse | .replicateVersion | .replicateVersionResponse
  | .unknown _ => g

end Gossiper

end Momo.Gossip
