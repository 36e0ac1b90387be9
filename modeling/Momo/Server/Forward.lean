import Momo.Common.Crush
import Momo.Server.Handler

/-! @momo src/server/server.go, src/client/client.go | scheme:recursive forwarding

    What the daemon's handler does with an upload in each replication mode: it stores the upload,
    and then forwards it, as a client of its own, to the nodes it holds responsible next. -/

namespace Momo

inductive Mode
  | none
  | chain
  | splay
  | primarySplay
  deriving DecidableEq

structure Network (n : ℕ) where
  failureDomain : Fin n → Bytes
  score : Bytes → Node (Fin n) → ℚ
  replicationFactor : Int
  order : List (Fin n) → List (Fin n)
  order_perm : ∀ targets, (order targets).Perm targets
  env : List (Fin n) → UploadEnv

namespace Network

variable {n : ℕ}

def placementIds (N : Network n) (mode : Mode) (hash : Bytes) : Except Err (List (Fin n)) :=
  ((daemonMap N.failureDomain).placement N.score hash
    (if mode = .none then 1 else N.replicationFactor)).map (fun nodes => nodes.map Node.id)

def nextHop (ids : List (Fin n)) (serverId : Fin n) : Option (Fin n) :=
  match ids.dropWhile (fun id => id ≠ serverId) with
  | _ :: next :: _ => some next
  | _ => none

def targets (mode : Mode) (external : Bool) (ids : List (Fin n)) (serverId : Fin n) :
    List (Fin n) :=
  match mode with
  | .none => []
  | .primarySplay => []
  | .chain => (nextHop ids serverId).toList
  | .splay =>
    if ids.head? = some serverId ∨ external = true then ids.filter (fun id => id ≠ serverId) else []

end Network

section Handlers

variable [Sha256] {β : Type} [BlobStore β] {n : ℕ}

def outgoing (st : Stream) (size : Int) : Reader :=
  ⟨st.readAll.1,
    match st.readAll.2 with
    | some e => some e
    | none => if (st.readAll.1.length : Int) < size then some (.text "i/o timeout") else none⟩

def forwardedUpload (u : Upload) (st : Stream) : Upload :=
  { name := u.name, hash := u.hash, size := u.size, content := outgoing st u.size }

/-- `ConnectStream` to one peer: it succeeds when the peer acknowledges and, if the payload was
    asked for, it could be read to its end. -/
def forwardStream (deliver : (Fin n → CASStore β) → Upload → Bool × (Fin n → CASStore β))
    (stores : Fin n → CASStore β) (serverId target : Fin n) (u : Upload) :
    Bool × (Fin n → CASStore β) :=
  match (stores serverId).get u.name with
  | (.error _, s) => (false, Function.update stores serverId s)
  | (.ok (st, _), s) =>
    let stores := Function.update stores serverId s
    if fileInfoLength < u.name.length then (false, stores)
    else
      let asked := (stores target).answer (forwardedUpload u st) = some false
      let result := deliver stores (forwardedUpload u st)
      (result.1 && (!asked || st.readAll.2.isNone), result.2)

def forwardAll (forward : (Fin n → CASStore β) → Fin n → Bool × (Fin n → CASStore β)) :
    List (Fin n) → (Fin n → CASStore β) → Bool × (Fin n → CASStore β)
  | [], stores => (true, stores)
  | target :: rest, stores =>
    let first := forward stores target
    let others := forwardAll forward rest first.2
    (first.1 && others.1, others.2)

/-- The handler of an upload at a node: whether it is acknowledged, and the stores after it. The
    fuel bounds the depth of the forwarding. -/
def handler (N : Network n) (mode : Mode) : ℕ → (external : Bool) → (path : List (Fin n)) →
    (serverId : Fin n) → (Fin n → CASStore β) → Upload → Bool × (Fin n → CASStore β)
  | 0, _, _, _, stores, _ => (false, stores)
  | fuel + 1, external, path, serverId, stores, u =>
    match (stores serverId).answer u, N.placementIds mode u.hash with
    | some dedup, .ok ids =>
      match (stores serverId).storeUpload (N.env (serverId :: path)) u.received dedup with
      | (.error _, s) => (false, Function.update stores serverId s)
      | (.ok _, s) =>
        forwardAll
          (fun stores target =>
            forwardStream
              (fun stores fwd => handler N mode fuel false (serverId :: path) target stores fwd)
              stores serverId target u)
          (N.order (Network.targets mode external ids serverId))
          (Function.update stores serverId s)
    | _, _ => (false, stores)

/-- A direct upload; the depth of the forwarding is at most the number of nodes, or two. -/
def upload (N : Network n) (mode : Mode) (external : Bool) (serverId : Fin n)
    (stores : Fin n → CASStore β) (u : Upload) : Bool × (Fin n → CASStore β) :=
  handler N mode (n + 2) external [] serverId stores u

end Handlers

/-! ### Who is reached -/

namespace Network

variable {n : ℕ} (mode : Mode) (ids : List (Fin n))

/-- Forwarding from `i` gets to `j` within the fuel. -/
def Visits : ℕ → (external : Bool) → Fin n → Fin n → Prop
  | 0, _, _, _ => False
  | fuel + 1, external, i, j =>
    j = i ∨ ∃ t ∈ targets mode external ids i, Visits fuel false t j

/-- Forwarding from `i` makes `j` forward. -/
def Relays : ℕ → (external : Bool) → Fin n → Fin n → Prop
  | 0, _, _, _ => False
  | fuel + 1, external, i, j =>
    (j = i ∧ targets mode external ids i ≠ []) ∨
      ∃ t ∈ targets mode external ids i, Relays fuel false t j

/-- The fuel suffices: the forwarding from `i` ends within it. -/
def Enough : ℕ → (external : Bool) → Fin n → Prop
  | 0, _, _ => False
  | fuel + 1, external, i => ∀ t ∈ targets mode external ids i, Enough fuel false t

/-- The nodes an upload at `i` is forwarded to, with `i` itself when it is one of the placement. -/
def reached (external : Bool) (i : Fin n) : List (Fin n) :=
  match mode with
  | .chain => ids.dropWhile (fun id => id ≠ i)
  | .splay =>
    if ids.head? = some i ∨ external = true then ids else ids.filter (fun id => id = i)
  | .none => ids.filter (fun id => id = i)
  | .primarySplay => ids.filter (fun id => id = i)

def relaying (external : Bool) (i j : Fin n) : Prop :=
  match mode with
  | .chain => nextHop ids j ≠ none
  | .splay =>
    (ids.head? = some i ∨ external = true) ∧ (j = i ∨ ids.head? = some j) ∧ ∃ k ∈ ids, k ≠ j
  | .none => False
  | .primarySplay => False

instance (external : Bool) (i j : Fin n) : Decidable (relaying mode ids external i j) := by
  cases mode <;> unfold relaying <;> infer_instance

end Network

end Momo
