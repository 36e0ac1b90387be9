import Momo.Schemes.ByteOrder
import Momo.Common.Base

/-! @momo src/common/crush.go | scheme:stable sort, greedy spread

    Where an object lives: the nodes ranked by a score of the pair (hash, node), the best
    `replicationFactor` of them chosen, with distinct failure domains first when any node declares
    one. -/

namespace Momo

structure Node (ι : Type) where
  id : ι
  weight : Int
  domain : Bytes
  deriving DecidableEq

structure ClusterMap (ι : Type) where
  nodes : List (Option (Node ι))

/-! ### Scores -/

/-- `hashToScoreValue`, as the 52-bit mantissa the float is made of: the first four bytes of the
    digest and the low 20 bits of its last four. -/
def hashToScoreValue (sum : Bytes) : ℕ :=
  leGet (sum.take 4) * 2 ^ 20 + leGet ((sum.drop 28).take 4) % 2 ^ 20

/-- `-weight / math.Log(mantissa / 2^52)` in float64. -/
class ScoreLog where
  value : (weight : Int) → (mantissa : ℕ) → ℚ

def finalScore {ι : Type} [Sha256] [ScoreLog] (number : ι → ℕ) (objectHash : Bytes)
    (node : Node ι) : ℚ :=
  let mantissa := hashToScoreValue (Sha256.sum256 (objectHash ++ lePut 8 (number node.id)))
  if 0 < mantissa ∧ 0 < node.weight then ScoreLog.value node.weight mantissa else 0

/-! ### The selection -/

variable {ι α : Type}

namespace ClusterMap

def eligible (m : ClusterMap ι) : List (Node ι) :=
  m.nodes.filterMap (fun node => node.filter (fun node => decide (0 < node.weight)))

end ClusterMap

/-- `sort.SliceStable` by score, descending. -/
def byScore [LinearOrder α] (score : Node ι → α) (nodes : List (Node ι)) : List (Node ι) :=
  nodes.insertionSort (fun a b => score b ≤ score a)

/-- At most `k` nodes of domains not yet used, and the nodes passed over. -/
def spread (used : List Bytes) : ℕ → List (Node ι) → List (Node ι) × List (Node ι)
  | 0, nodes => ([], nodes)
  | _ + 1, [] => ([], [])
  | k + 1, node :: nodes =>
    if node.domain ∈ used then
      ((spread used (k + 1) nodes).1, node :: (spread used (k + 1) nodes).2)
    else
      (node :: (spread (node.domain :: used) k nodes).1, (spread (node.domain :: used) k nodes).2)

def choose (ranked : List (Node ι)) (replicationFactor : ℕ) : List (Node ι) :=
  if ranked.any (fun node => node.domain != []) then
    let (picked, passed) := spread [] replicationFactor ranked
    picked ++ passed.take (replicationFactor - picked.length)
  else ranked.take replicationFactor

def ClusterMap.placement [LinearOrder α] (score : Bytes → Node ι → α) (m : ClusterMap ι)
    (objectHash : Bytes) (replicationFactor : Int) : Except Err (List (Node ι)) :=
  if m.nodes = [] then .error (.wrap "cluster map has no nodes: %w" [] (.sys .einval))
  else if replicationFactor ≤ 0 then
    .error (.wrap "invalid replication factor: %d: %w" [.num replicationFactor] (.sys .einval))
  else if objectHash = [] then .error (.wrap "invalid object hash: empty: %w" [] (.sys .einval))
  else if m.eligible = [] then
    .error (.wrap "cluster map has no nodes with positive weight: %w" [] (.sys .einval))
  else
    .ok (choose (byScore (score objectHash) m.eligible)
      (min replicationFactor.toNat m.eligible.length))

/-! ### What is chosen -/

theorem byScore_perm [LinearOrder α] (score : Node ι → α) (nodes : List (Node ι)) :
    (byScore score nodes).Perm nodes :=
  List.perm_insertionSort _ nodes

theorem spread_perm (nodes : List (Node ι)) : ∀ (k : ℕ) (used : List Bytes),
    ((spread used k nodes).1 ++ (spread used k nodes).2).Perm nodes := by
  induction nodes with
  | nil =>
    intro k used
    cases k <;> exact List.Perm.refl _
  | cons node nodes ih =>
    intro k used
    cases k with
    | zero => exact List.Perm.refl _
    | succ k =>
      rw [spread]
      split_ifs
      · exact List.perm_middle.trans ((ih (k + 1) used).cons node)
      · exact (ih k (node.domain :: used)).cons node

theorem choose_subperm (ranked : List (Node ι)) (k : ℕ) : (choose ranked k).Subperm ranked := by
  unfold choose
  split_ifs
  · have htake := (List.take_sublist (k - (spread [] k ranked).1.length)
      (spread [] k ranked).2).append_left (spread [] k ranked).1
    exact htake.subperm.trans (spread_perm ranked k []).subperm
  · exact (List.take_sublist _ _).subperm

namespace ClusterMap

variable [LinearOrder α] {score : Bytes → Node ι → α} {m : ClusterMap ι} {objectHash : Bytes}
  {replicationFactor : Int} {nodes : List (Node ι)}

theorem placement_eq_ok :
    m.placement score objectHash replicationFactor = .ok nodes ↔
      0 < replicationFactor ∧ objectHash ≠ [] ∧ m.eligible ≠ [] ∧
        nodes = choose (byScore (score objectHash) m.eligible)
          (min replicationFactor.toNat m.eligible.length) := by
  unfold placement
  have hempty : m.nodes = [] → m.eligible = [] := by
    intro h
    rw [eligible, h]
    rfl
  split_ifs with hn hr hh he
  · simp [hempty hn]
  · simp [not_lt.mpr hr]
  · simp [hh]
  · simp [he]
  · simp only [Except.ok.injEq, not_le.mp hr, hh, he, ne_eq, not_false_iff, true_and]
    exact eq_comm

theorem placement_subperm (h : m.placement score objectHash replicationFactor = .ok nodes) :
    nodes.Subperm m.eligible := by
  obtain ⟨-, -, -, rfl⟩ := placement_eq_ok.mp h
  exact (choose_subperm _ _).trans (byScore_perm _ _).subperm

theorem placement_nodup (hm : (m.eligible.map Node.id).Nodup)
    (h : m.placement score objectHash replicationFactor = .ok nodes) :
    (nodes.map Node.id).Nodup := by
  obtain ⟨part, hperm, hsub⟩ := placement_subperm h
  exact (hperm.map Node.id).nodup_iff.mp ((hsub.map Node.id).nodup hm)

end ClusterMap

/-! ### The daemons' map -/

/-- The map a daemon builds from its configuration: node `i` is daemon `i`, all of weight 1. -/
def daemonMap {n : ℕ} (failureDomain : Fin n → Bytes) : ClusterMap (Fin n) :=
  ⟨List.ofFn (fun i => some ⟨i, 1, failureDomain i⟩)⟩

theorem daemonMap_eligible {n : ℕ} (failureDomain : Fin n → Bytes) :
    (daemonMap failureDomain).eligible = List.ofFn (fun i => ⟨i, 1, failureDomain i⟩) := by
  rw [ClusterMap.eligible, daemonMap, List.ofFn_eq_map, List.filterMap_map, List.ofFn_eq_map,
    ← List.filterMap_eq_map]
  rfl

theorem daemonMap_nodup {n : ℕ} (failureDomain : Fin n → Bytes) :
    ((daemonMap failureDomain).eligible.map Node.id).Nodup := by
  rw [daemonMap_eligible, List.map_ofFn]
  exact List.nodup_ofFn.mpr (fun _ _ h => h)

end Momo
