import Momo.Common.Crush
import Momo.Schemes.HandOver
import Momo.Schemes.Run
import Momo.Server.Handler

/-! @momo src/server/rebalance.go, src/server/rebuild_source.go, src/storage/rebalance_blobs.go
    scheme:hand-over between nodes

    The shedding loop of every node of a cluster, interleaved in any order. A pass lists the local
    blobs, coldest first, and for each one picks a target, pushes the blob through the target's
    upload handler and drops the local bytes once the push returned. The passes of one node run one
    after the other (`runMu`), so a node is at one push at a time. -/

namespace Momo.Rebalance

/-! ### The stores' side -/

abbrev Store := CASStore LocalBlobStore

def listBlobs (s : Store) (modTime : Bytes → Int) : List Bytes :=
  (s.blobs.files.entries.map Prod.fst).insertionSort (fun a b => modTime a ≤ modTime b)

def getBlobByHash (s : Store) (hash : Bytes) : Except Err Reader := s.blobs.getBlob hash

def dropBlob (s : Store) (io : Option Err) (hash : Bytes) : Except Err Unit × Store :=
  ((s.blobs.deleteBlob hash io).1, { s with blobs := (s.blobs.deleteBlob hash io).2 })

/-! ### One node's pass -/

structure RebalanceConfig where
  diskHighWater : ℚ
  diskLowWater : ℚ
  maxShedPerCycle : Int

structure Topology (n : ℕ) where
  cmap : ClusterMap (Fin n)
  score : Bytes → Node (Fin n) → ℚ
  rf : Int

inductive Task (n : ℕ)
  | shed (usedPct : ℚ)
  | migrate (peer : Fin n)
  deriving DecidableEq

structure Pass (n : ℕ) where
  task : Task n
  rest : List Bytes
  moved : Int
  deriving DecidableEq

inductive Runner (n : ℕ)
  | idle
  | walking (pass : Pass n)
  | sending (pass : Pass n) (hash : Bytes) (target : Fin n) (payload : Bytes)
  | pushed (pass : Pass n) (hash : Bytes)
  deriving DecidableEq

variable {n : ℕ}

def diskUsedPercent (disk : Except Err (ℕ × ℕ)) : Except Err ℚ :=
  match disk with
  | .error e => .error e
  | .ok (used, free) => if used + free = 0 then .error (.sys .eio) else .ok (used * 100 / (used + free))

def pickShedTarget (T : Topology n) (hash : Bytes) (self : Fin n) : Option (Fin n) :=
  match T.cmap.placement T.score hash T.rf with
  | .error _ => none
  | .ok placement => (placement.map Node.id).find? (fun id => id ≠ self)

def placementOwnership (T : Topology n) (hash : Bytes) (self peerID : Fin n) :
    Except Err (Bool × Bool) :=
  (T.cmap.placement T.score hash T.rf).map (fun placement =>
    (placement.any (fun node => node.id = peerID), placement.any (fun node => node.id = self)))

def Task.target (T : Topology n) (self : Fin n) (task : Task n) (hash : Bytes) : Option (Fin n) :=
  match task with
  | .shed _ => pickShedTarget T hash self
  | .migrate peerID =>
    match placementOwnership T hash self peerID with
    | .ok (true, false) => some peerID
    | _ => none

def Pass.finished (rc : RebalanceConfig) (p : Pass n) : Bool :=
  match p.task with
  | .shed usedPct => p.moved ≥ rc.maxShedPerCycle || usedPct ≤ rc.diskLowWater
  | .migrate _ => p.moved ≥ rc.maxShedPerCycle

def Pass.next (T : Topology n) (rc : RebalanceConfig) (self : Fin n) (p : Pass n) :
    Option (Bytes × Fin n) :=
  match p.rest with
  | [] => none
  | hash :: _ =>
    if p.finished rc then none else (p.task.target T self hash).map (fun target => (hash, target))

/-- The pass after a drop: one more moved, and the pressure as it is now, if it can be read. -/
def Pass.count (p : Pass n) (disk : Except Err (ℕ × ℕ)) : Pass n :=
  { p with
    moved := p.moved + 1
    task := match p.task, diskUsedPercent disk with
      | .shed _, .ok pct => .shed pct
      | task, _ => task }

def blobUpload (hash payload : Bytes) : Upload :=
  { name := hash, hash := hash, size := payload.length, content := ⟨payload, none⟩ }

/-! ### The cluster -/

structure Cluster (n : ℕ) where
  store : Fin n → Store
  runner : Fin n → Runner n := fun _ => .idle

inductive Op (n : ℕ)
  | tick (i : Fin n) (disk : Except Err (ℕ × ℕ)) (modTime : Bytes → Int)
  | join (i peer : Fin n) (modTime : Bytes → Int)
  | advance (i : Fin n) (env : UploadEnv)
  | receive (i : Fin n) (env : UploadEnv)
  | drop (i : Fin n) (io : Option Err) (disk : Except Err (ℕ × ℕ))

namespace Cluster

def setRunner (t : Cluster n) (i : Fin n) (r : Runner n) : Cluster n :=
  { t with runner := Function.update t.runner i r }

def setStore (t : Cluster n) (i : Fin n) (s : Store) : Cluster n :=
  { t with store := Function.update t.store i s }

end Cluster

variable [Sha256]

/-- The second half of the handler at the target of a push, in mode `ReplicationNone`. -/
def serve {β : Type} [BlobStore β] (T : Topology n) (s : CASStore β) (env : UploadEnv) (u : Upload)
    (dedup : Bool) : Bool × CASStore β :=
  match T.cmap.placement T.score u.hash 1 with
  | .error _ => (false, s)
  | .ok _ =>
    match s.storeUpload env u.received dedup with
    | (.error _, s') => (false, s')
    | (.ok _, s') => (true, s')

/-- `Push` up to the target's answer. A skipped payload ends the push; the target's metadata update
    that follows changes no bytes. -/
def beginPush (T : Topology n) (t : Cluster n) (i : Fin n) (p : Pass n) (hash : Bytes)
    (target : Fin n) (env : UploadEnv) : Cluster n :=
  match getBlobByHash (t.store i) hash with
  | .error _ => t.setRunner i (.walking p)
  | .ok rc =>
    match (t.store target).answer (blobUpload hash rc.data) with
    | none => t.setRunner i (.walking p)
    | some true =>
      (t.setStore target (serve T (t.store target) env (blobUpload hash rc.data) true).2).setRunner i
        (.pushed p hash)
    | some false => t.setRunner i (.sending p hash target rc.data)

def step (T : Topology n) (conf : Fin n → RebalanceConfig) (t : Cluster n) : Op n → Cluster n
  | .tick i disk modTime =>
    match t.runner i, diskUsedPercent disk with
    | .idle, .ok pct =>
      if pct < (conf i).diskHighWater then t
      else t.setRunner i (.walking ⟨.shed pct, listBlobs (t.store i) modTime, 0⟩)
    | _, _ => t
  | .join i peer modTime =>
    match t.runner i with
    | .idle => t.setRunner i (.walking ⟨.migrate peer, listBlobs (t.store i) modTime, 0⟩)
    | _ => t
  | .advance i env =>
    match t.runner i with
    | .walking p =>
      match p.next T (conf i) i with
      | some (hash, target) => beginPush T t i { p with rest := p.rest.tail } hash target env
      | none =>
        if p.rest = [] ∨ p.finished (conf i) then t.setRunner i .idle
        else t.setRunner i (.walking { p with rest := p.rest.tail })
    | _ => t
  | .receive i env =>
    match t.runner i with
    | .sending p hash target payload =>
      match serve T (t.store target) env (blobUpload hash payload) false with
      | (true, s) => (t.setStore target s).setRunner i (.pushed p hash)
      | (false, s) => (t.setStore target s).setRunner i (.walking p)
    | _ => t
  | .drop i io disk =>
    match t.runner i with
    | .pushed p hash =>
      match dropBlob (t.store i) io hash with
      | (.error _, s) => (t.setStore i s).setRunner i (.walking p)
      | (.ok _, s) => (t.setStore i s).setRunner i (.walking (p.count disk))
    | _ => t

end Momo.Rebalance
