import Momo.P2P.Lease

/-! @momo src/p2p/scatter_gather.go, src/p2p/types.go | scheme:message handlers

    Scatter and gather: `Query` writes a question to every connected peer and collects answers until
    there are as many as there were alive peers, or the timer fires. -/

namespace Momo

/-! ### Payloads -/

def queryDelete : UInt8 := 4

structure QueryPayload where
  type : UInt8
  requestID : Nat
  data : Bytes
  deriving DecidableEq

def QueryPayload.encode (q : QueryPayload) : Bytes := q.type :: (bePut 8 q.requestID ++ q.data)

def decodeQueryPayload (data : Bytes) : Except Err QueryPayload :=
  if maxPayloadSize < data.length then
    .error (.text "query payload too large: %d (errno=%d)" [.num data.length, .num 27])
  else if data.length < 9 then
    .error (.wrap "query payload too short: %w" [] (.sys .ebadmsg))
  else
    .ok { type := data.headD 0, requestID := beGet ((data.drop 1).take 8), data := data.drop 9 }

structure QueryResponsePayload where
  requestID : Nat
  data : Bytes
  error : Bytes
  deriving DecidableEq

def QueryResponsePayload.encode (r : QueryResponsePayload) : Bytes :=
  bePut 8 r.requestID ++ (bePut 4 r.data.length ++ (r.data ++ (bePut 2 r.error.length ++ r.error)))

def decodeQueryResponsePayload (data : Bytes) : Except Err QueryResponsePayload :=
  if maxPayloadSize < data.length then
    .error (.text "query response payload too large: %d (errno=%d)" [.num data.length, .num 27])
  else if data.length < 14 then
    .error (.wrap "query response payload too short: %w" [] (.sys .ebadmsg))
  else
    let dataLen := beGet ((data.drop 8).take 4)
    if data.length < 12 + dataLen + 2 then
      .error (.wrap "truncated query response data: %w" [] (.sys .ebadmsg))
    else
      let errLen := beGet ((data.drop (12 + dataLen)).take 2)
      if data.length < 12 + dataLen + 2 + errLen then
        .error (.wrap "truncated query response error: %w" [] (.sys .ebadmsg))
      else
        .ok { requestID := beGet (data.take 8), data := (data.drop 12).take dataLen,
              error := (data.drop (12 + dataLen + 2)).take errLen }

theorem QueryPayload.decode_encode {q p : QueryPayload} (hid : q.requestID < 2 ^ 64)
    (h : decodeQueryPayload q.encode = .ok p) : p = q := by
  rw [decodeQueryPayload] at h
  split_ifs at h
  have hid8 : (q.encode.drop 1).take 8 = bePut 8 q.requestID := List.take_left' (by simp)
  have hdata : q.encode.drop 9 = q.data := by
    have : q.encode.drop 9 = (bePut 8 q.requestID ++ q.data).drop 8 := rfl
    rw [this, List.drop_left' (by simp)]
  rw [hid8, hdata, beGet_bePut, Nat.mod_eq_of_lt (by simpa using hid)] at h
  exact (Except.ok.inj h).symm

theorem QueryResponsePayload.length_encode (r : QueryResponsePayload) :
    r.encode.length = 14 + r.data.length + r.error.length := by
  simp [encode]; omega

theorem QueryResponsePayload.decode_encode {r p : QueryResponsePayload} (hid : r.requestID < 2 ^ 64)
    (h : decodeQueryResponsePayload r.encode = .ok p) :
    p = { r with error := r.error.take (r.error.length % 65536) } := by
  have h1 : r.encode.take 8 = bePut 8 r.requestID := List.take_left' (by simp)
  have h2 : (r.encode.drop 8).take 4 = bePut 4 r.data.length := by
    rw [encode, List.drop_left' (by simp), List.take_left' (by simp)]
  have h12 : r.encode.drop 12 = r.data ++ (bePut 2 r.error.length ++ r.error) := by
    rw [encode, ← List.append_assoc]
    exact List.drop_left' (by simp)
  have h3 : (r.encode.drop 12).take r.data.length = r.data := by rw [h12, List.take_left' rfl]
  have hrest : r.encode.drop (12 + r.data.length) = bePut 2 r.error.length ++ r.error := by
    rw [← List.drop_drop, h12, List.drop_left' rfl]
  have h4 : (r.encode.drop (12 + r.data.length)).take 2 = bePut 2 r.error.length := by
    rw [hrest, List.take_left' (by simp)]
  have h5 : r.encode.drop (12 + r.data.length + 2) = r.error := by
    rw [← List.drop_drop, hrest, List.drop_left' (by simp)]
  simp only [decodeQueryResponsePayload] at h
  split_ifs at h with hmax hmin hdata herror
  have hlen : beGet ((r.encode.drop 8).take 4) = r.data.length := by
    rw [length_encode, maxPayloadSize] at hmax
    rw [h2, beGet_bePut]
    exact Nat.mod_eq_of_lt (by omega)
  rw [hlen, h1, h3, h4, h5, beGet_bePut, beGet_bePut, Nat.mod_eq_of_lt (by simpa using hid)] at h
  exact (Except.ok.inj h).symm

/-! ### Nodes -/

inductive QueryMsg
  | query | queryResponse
  deriving DecidableEq

structure QueryRPC (ν : Type) where
  sender : ν
  receiver : ν
  type : QueryMsg
  payload : Bytes
  deriving DecidableEq

structure PeerMap (ν : Type) where
  peers : List (Peer ν)
  nodup : (peers.map Peer.id).Nodup

/-- A `Query` call in its select loop. -/
structure Gathering where
  peerCount : Nat
  chan : List QueryResponsePayload := []
  results : List QueryResponsePayload := []
  deriving DecidableEq

structure ScatterGather (ν : Type) where
  localID : ν
  nextRequestID : Nat := 0
  pending : OMap Nat Gathering := .empty

/-- What a node's `QueryHandler` gives for a question: nothing if it has none, else data or the text
    of an error. -/
abbrev Answer := Option (Except Bytes Bytes)

section Handlers

variable {ν : Type} [DecidableEq ν]

def PeerMap.aliveOthers (m : PeerMap ν) (localID : ν) : List ν :=
  (m.peers.filter fun p => p.alive ∧ p.id ≠ localID).map Peer.id

def answerPayload (q : QueryPayload) : Answer → QueryResponsePayload
  | none => ⟨q.requestID, [], []⟩
  | some (.ok data) => ⟨q.requestID, data, []⟩
  | some (.error text) => ⟨q.requestID, [], text⟩

def handleQuery (rpc : QueryRPC ν) (answer : Answer) : Option (QueryPayload × QueryRPC ν) :=
  match decodeQueryPayload rpc.payload with
  | .error _ => none
  | .ok q => some (q, { sender := rpc.receiver, receiver := rpc.sender, type := .queryResponse,
                        payload := (answerPayload q answer).encode })

/-- `Broadcast`: one copy to each peer that is connected and takes the write, alive or not. -/
def broadcastQuery (localID : ν) (peers : PeerMap ν) (failed : List ν) (q : QueryPayload) :
    List (QueryRPC ν) :=
  (peers.peers.filter (fun p => p.id ≠ localID ∧ p.id ∉ failed)).map
    (fun p => { sender := localID, receiver := p.id, type := .query, payload := q.encode })

namespace ScatterGather

def requestID (sg : ScatterGather ν) : Nat := (sg.nextRequestID + 1) % 2 ^ 64

/-- `Query` up to its select loop: the peer map is read twice, for the number of answers to wait for
    and for the broadcast. Without alive peers the call returns at once. -/
def beginQuery (sg : ScatterGather ν) (counted peers : PeerMap ν) (failed : List ν) (type : UInt8)
    (data : Bytes) : Option (List QueryResponsePayload) × ScatterGather ν × List (QueryRPC ν) :=
  let peerCount := (counted.aliveOthers sg.localID).length
  if peerCount = 0 then (some [], sg, [])
  else
    (none,
      { sg with
        nextRequestID := sg.requestID
        pending := sg.pending.put sg.requestID { peerCount := peerCount } },
      broadcastQuery sg.localID peers failed ⟨type, sg.requestID, data⟩)

def handleQueryResponse (sg : ScatterGather ν) (rpc : QueryRPC ν) :
    ScatterGather ν × Option QueryResponsePayload :=
  match decodeQueryResponsePayload rpc.payload with
  | .error _ => (sg, none)
  | .ok payload =>
    match sg.pending.get payload.requestID with
    | none => (sg, none)
    | some g =>
      if g.chan.length < g.peerCount then
        ({ sg with pending := sg.pending.put payload.requestID { g with chan := g.chan ++ [payload] } },
          some payload)
      else (sg, none)

/-- The select loop takes an answer off the channel; with the last one `Query` returns. -/
def collect (sg : ScatterGather ν) (requestID : Nat) :
    Option (List QueryResponsePayload) × ScatterGather ν :=
  match sg.pending.get requestID with
  | none => (none, sg)
  | some g =>
    match g.chan with
    | [] => (none, sg)
    | payload :: rest =>
      if g.results.length + 1 < g.peerCount then
        (none, { sg with pending := sg.pending.put requestID
                          { g with chan := rest, results := g.results ++ [payload] } })
      else (some (g.results ++ [payload]), { sg with pending := sg.pending.del requestID })

/-- The timer fires: `Query` returns what it has. -/
def timeoutQuery (sg : ScatterGather ν) (requestID : Nat) :
    Option (List QueryResponsePayload) × ScatterGather ν :=
  match sg.pending.get requestID with
  | none => (none, sg)
  | some g => (some g.results, { sg with pending := sg.pending.del requestID })

end ScatterGather

end Handlers

end Momo
