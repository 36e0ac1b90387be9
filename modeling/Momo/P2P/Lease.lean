import Momo.Common.Base
import Momo.Schemes.ByteOrder

/-! @momo src/p2p/lease.go, src/p2p/types.go | scheme:message handlers

    One node's lease manager. An `Acquire` call asks every peer for a vote on a resource key and
    waits for a majority of them; a peer remembers one expiry for each key and votes again once that
    time has passed or a release for the key has come in. The requester does not vote, and what it
    holds itself is not looked at when it votes for others. -/

namespace Momo

/-! ### Payloads -/

def int64 (x : Int) : Int := Int.bmod x (2 ^ 64)

theorem int64_of_bounds {x : Int} (h0 : 0 ≤ x) (h : x < 2 ^ 63) : int64 x = x := by
  rw [int64, Int.bmod_def]; omega

theorem int64_emod (x : Int) : int64 (x % 2 ^ 64) = int64 x := Int.emod_bmod x (2 ^ 64)

theorem int64_int64 (x : Int) : int64 (int64 x) = int64 x := Int.bmod_bmod

structure LeasePayload where
  leaseID : Nat
  key : Bytes
  expiry : Int
  deriving DecidableEq

def maxPayloadSize : Nat := 2 ^ 20

def LeasePayload.encode (l : LeasePayload) : Bytes :=
  bePut 8 l.leaseID ++ (bePut 4 l.key.length ++ (l.key ++ bePut 8 (l.expiry % 2 ^ 64).toNat))

def decodeLeasePayload (data : Bytes) : Except Err LeasePayload :=
  if maxPayloadSize < data.length then
    .error (.text "lease payload too large: %d (errno=%d)" [.num data.length, .num 27])
  else if data.length < 20 then
    .error (.wrap "lease payload too short: %w" [] (.sys .ebadmsg))
  else
    let keyLen := beGet ((data.drop 8).take 4)
    if data.length < 12 + keyLen + 8 then
      .error (.wrap "truncated lease payload key: %w" [] (.sys .ebadmsg))
    else
      .ok { leaseID := beGet (data.take 8), key := (data.drop 12).take keyLen,
            expiry := int64 (beGet ((data.drop (12 + keyLen)).take 8)) }

namespace LeasePayload

theorem length_encode (l : LeasePayload) : l.encode.length = 20 + l.key.length := by
  simp [encode]; omega

theorem encode_fields (l : LeasePayload) :
    l.encode.take 8 = bePut 8 l.leaseID ∧
    (l.encode.drop 8).take 4 = bePut 4 l.key.length ∧
    (l.encode.drop 12).take l.key.length = l.key ∧
    (l.encode.drop (12 + l.key.length)).take 8 = bePut 8 (l.expiry % 2 ^ 64).toNat := by
  have h12 : l.encode.drop 12 = l.key ++ bePut 8 (l.expiry % 2 ^ 64).toNat := by
    rw [encode, ← List.append_assoc]
    exact List.drop_left' (by simp)
  refine ⟨List.take_left' (by simp), ?_, ?_, ?_⟩
  · rw [encode, List.drop_left' (by simp), List.take_left' (by simp)]
  · rw [h12, List.take_left' rfl]
  · rw [← List.drop_drop, h12, List.drop_left' rfl, List.take_of_length_le (by simp)]

theorem decode_encode {l p : LeasePayload} (hid : l.leaseID < 2 ^ 64)
    (h : decodeLeasePayload l.encode = .ok p) : p = { l with expiry := int64 l.expiry } := by
  obtain ⟨h1, h2, h3, h4⟩ := l.encode_fields
  simp only [decodeLeasePayload] at h
  split_ifs at h with hmax hmin hkey
  have hlen : beGet ((l.encode.drop 8).take 4) = l.key.length := by
    rw [length_encode, maxPayloadSize] at hmax
    rw [h2, beGet_bePut]
    exact Nat.mod_eq_of_lt (by omega)
  have hexp : ((beGet (bePut 8 (l.expiry % 2 ^ 64).toNat) : ℕ) : Int) = l.expiry % 2 ^ 64 := by
    rw [beGet_bePut, Nat.mod_eq_of_lt (by omega)]
    omega
  rw [hlen, h1, h3, h4, hexp, beGet_bePut, Nat.mod_eq_of_lt (by simpa using hid), int64_emod] at h
  exact (Except.ok.inj h).symm

end LeasePayload

/-! ### Messages and leases -/

inductive MsgType
  | leaseRequest | leaseGrant | leaseRelease
  deriving DecidableEq

structure RPC (ν : Type) where
  sender : ν
  receiver : ν
  type : MsgType
  payload : Bytes
  deriving DecidableEq

structure Lease (ν : Type) where
  leaseID : Nat
  holderID : ν
  key : Bytes
  expiry : Int
  quorumSize : Nat
  deriving DecidableEq

structure Peer (ν : Type) where
  id : ν
  alive : Bool

/-- An `Acquire` call in its select loop: what it asked for, the grants counted so far and the
    channel `handleLeaseGrant` feeds. -/
structure Waiting where
  key : Bytes
  expiry : Int
  deadline : Int
  quorum : Nat
  cap : Nat
  chan : List Bool := []
  grants : Nat := 0
  deriving DecidableEq

structure LeaseManager (ν : Type) where
  localID : ν
  nextLeaseID : Nat := 0
  granted : OMap Bytes Int := .empty
  held : OMap Nat (Lease ν) := .empty
  pending : OMap Nat Waiting := .empty
  closed : Bool := false

def majorityQuorum (peerCount : Nat) : Nat := if peerCount = 0 then 0 else peerCount / 2 + 1

namespace LeaseManager

variable {ν : Type} [DecidableEq ν]

/-! ### Handlers -/

def blocks (lm : LeaseManager ν) (now : Int) (key : Bytes) : Bool :=
  match lm.granted.get key with
  | some existing => int64 now < existing
  | none => false

def grantReply (lm : LeaseManager ν) (rpc : RPC ν) (payload : LeasePayload) (expiry : Int) : RPC ν :=
  { sender := lm.localID, receiver := rpc.sender, type := .leaseGrant,
    payload := LeasePayload.encode { payload with expiry := expiry } }

/-- A denial is a grant message with expiry 0. -/
def handleLeaseRequest (lm : LeaseManager ν) (now : Int) (rpc : RPC ν) :
    LeaseManager ν × List (RPC ν) :=
  match decodeLeasePayload rpc.payload with
  | .error _ => (lm, [])
  | .ok payload =>
    if lm.blocks now payload.key then (lm, [lm.grantReply rpc payload 0])
    else
      ({ lm with granted := lm.granted.put payload.key payload.expiry },
        [lm.grantReply rpc payload payload.expiry])

/-- The answer goes to the waiting call unless its channel is full. -/
def handleLeaseGrant (lm : LeaseManager ν) (rpc : RPC ν) : LeaseManager ν :=
  match decodeLeasePayload rpc.payload with
  | .error _ => lm
  | .ok payload =>
    match lm.pending.get payload.leaseID with
    | none => lm
    | some w =>
      if w.chan.length < w.cap then
        { lm with
          pending := lm.pending.put payload.leaseID
            { w with chan := w.chan ++ [decide (payload.expiry ≠ 0)] } }
      else lm

def handleLeaseRelease (lm : LeaseManager ν) (rpc : RPC ν) : LeaseManager ν :=
  match decodeLeasePayload rpc.payload with
  | .error _ => lm
  | .ok payload => { lm with granted := lm.granted.del payload.key }

def handleLeaseRPC (lm : LeaseManager ν) (now : Int) (rpc : RPC ν) :
    LeaseManager ν × List (RPC ν) :=
  match rpc.type with
  | .leaseRequest => lm.handleLeaseRequest now rpc
  | .leaseGrant => (lm.handleLeaseGrant rpc, [])
  | .leaseRelease => (lm.handleLeaseRelease rpc, [])

/-! ### Calls -/

def broadcast (lm : LeaseManager ν) (peers : List (Peer ν)) (failed : List ν) (type : MsgType)
    (payload : LeasePayload) : List (RPC ν) :=
  (peers.filter (fun p => p.id ≠ lm.localID ∧ p.id ∉ failed)).map
    (fun p => { sender := lm.localID, receiver := p.id, type := type, payload := payload.encode })

/-- `Acquire` up to its select loop. -/
def beginAcquire (lm : LeaseManager ν) (peers : List (Peer ν)) (failed : List ν) (now : Int)
    (key : Bytes) (duration : Int) : Except Err Nat × LeaseManager ν × List (RPC ν) :=
  let peerCount := (peers.filter (fun p => p.alive ∧ p.id ≠ lm.localID)).length
  if 0 < peers.length ∧ peerCount = 0 then
    (.error (.text "no reachable peers for quorum: cluster partitioned (errno=%d)" [.num 113]),
      lm, [])
  else
    let quorum := majorityQuorum peerCount
    let leaseID := (lm.nextLeaseID + 1) % 2 ^ 64
    let expiry := now + duration
    let sent := lm.broadcast peers failed .leaseRequest ⟨leaseID, key, int64 expiry⟩
    if sent.length < quorum then
      (.error (.text "not enough peers for quorum: contacted %d, need %d (errno=%d)"
          [.num sent.length, .num quorum, .num 113]),
        { lm with nextLeaseID := leaseID, pending := lm.pending.del leaseID }, sent)
    else
      (.ok leaseID,
        { lm with
          nextLeaseID := leaseID
          pending := lm.pending.put leaseID
            { key := key, expiry := expiry, deadline := now + duration.tdiv 2, quorum := quorum,
              cap := peerCount } },
        sent)

def receiveGrant (lm : LeaseManager ν) (leaseID : Nat) : LeaseManager ν :=
  match lm.pending.get leaseID with
  | none => lm
  | some w =>
    match w.chan with
    | [] => lm
    | granted :: rest =>
      if w.grants < w.quorum then
        { lm with
          pending := lm.pending.put leaseID
            { w with chan := rest, grants := if granted then w.grants + 1 else w.grants } }
      else lm

/-- The loop is left with a quorum: `Acquire` returns the lease. -/
def finishAcquire (lm : LeaseManager ν) (leaseID : Nat) : Option (Lease ν) × LeaseManager ν :=
  match lm.pending.get leaseID with
  | none => (none, lm)
  | some w =>
    if w.grants < w.quorum then (none, lm)
    else
      let lease : Lease ν :=
        { leaseID := leaseID, holderID := lm.localID, key := w.key, expiry := w.expiry,
          quorumSize := w.grants }
      (some lease,
        { lm with held := lm.held.put leaseID lease, pending := lm.pending.del leaseID })

/-- The loop is left with an error, once `fires` holds of the waiting call. -/
def abandonAcquire (lm : LeaseManager ν) (leaseID : Nat) (fires : Waiting → Bool)
    (error : Waiting → Err) : Option Err × LeaseManager ν :=
  match lm.pending.get leaseID with
  | none => (none, lm)
  | some w =>
    if w.grants < w.quorum ∧ fires w = true then
      (some (error w), { lm with pending := lm.pending.del leaseID })
    else (none, lm)

def timeoutAcquire (lm : LeaseManager ν) (now : Int) (leaseID : Nat) : Option Err × LeaseManager ν :=
  lm.abandonAcquire leaseID (fun w => w.deadline ≤ now)
    (fun w => .text "lease quorum timeout: got %d/%d grants (errno=%d)"
      [.num w.grants, .num w.quorum, .num 110])

def cancelAcquire (lm : LeaseManager ν) (leaseID : Nat) : Option Err × LeaseManager ν :=
  lm.abandonAcquire leaseID (fun _ => lm.closed)
    (fun _ => .text "lease manager stopped (errno=%d)" [.num 125])

def release (lm : LeaseManager ν) (peers : List (Peer ν)) (failed : List ν) (lease : Lease ν) :
    LeaseManager ν × List (RPC ν) :=
  ({ lm with held := lm.held.del lease.leaseID },
    lm.broadcast peers failed .leaseRelease ⟨lease.leaseID, lease.key, 0⟩)

/-- `ReleaseByKey`, when the map iteration meets the held lease `first` before any other of the
    key. -/
def releaseByKey (lm : LeaseManager ν) (peers : List (Peer ν)) (failed : List ν) (key : Bytes)
    (first : Nat) : Option (Lease ν) × LeaseManager ν × List (RPC ν) :=
  match (lm.held.get first).filter (fun lease => lease.key = key) with
  | none => (none, lm, [])
  | some lease =>
    (some lease, { lm with held := lm.held.del first },
      lm.broadcast peers failed .leaseRelease ⟨first, key, 0⟩)

def cleanupExpired (lm : LeaseManager ν) (now : Int) : LeaseManager ν :=
  { lm with
    granted := lm.granted.prune (fun _ expiry => !decide (expiry < int64 now))
    held := lm.held.prune (fun _ lease => !decide (lease.expiry < now)) }

def stop (lm : LeaseManager ν) : LeaseManager ν := { lm with closed := true }

def activeLeases (lm : LeaseManager ν) : Nat := lm.held.entries.length

end LeaseManager

end Momo
