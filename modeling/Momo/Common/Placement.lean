import Momo.Schemes.GroupedOrder
import Momo.Common.Crush

/-! @momo src/common/crush.go | scheme:grouped order

    What `Placement` is for: replicas in as many failure domains as there can be, on the nodes with
    the best scores, and little movement when the cluster changes. The two passes over the ranking
    take a prefix of one order of the nodes, the best node of each domain and then the others. -/

namespace Momo

variable {ι α : Type}

/-! ### The two passes -/

theorem spread_of_le {nodes : List (Node ι)} {k : ℕ} {used : List Bytes}
    (h : k ≤ (firsts Node.domain used nodes).1.length) :
    (spread used k nodes).1 = (firsts Node.domain used nodes).1.take k := by
  induction nodes generalizing k used with
  | nil =>
    cases k with
    | zero => rfl
    | succ k => exact absurd h (Nat.not_succ_le_zero k)
  | cons node nodes ih =>
    cases k with
    | zero => rfl
    | succ k =>
      by_cases hused : node.domain ∈ used
      · simp only [firsts, spread, if_pos hused] at h ⊢
        exact ih h
      · simp only [firsts, spread, if_neg hused, List.length_cons, List.take_succ_cons] at h ⊢
        rw [ih (Nat.le_of_succ_le_succ h)]

theorem spread_of_ge {nodes : List (Node ι)} {k : ℕ} {used : List Bytes}
    (h : (firsts Node.domain used nodes).1.length ≤ k) :
    spread used k nodes = firsts Node.domain used nodes := by
  induction nodes generalizing k used with
  | nil => cases k <;> rfl
  | cons node nodes ih =>
    by_cases hused : node.domain ∈ used
    · simp only [firsts, if_pos hused] at h ⊢
      cases k with
      | zero =>
        -- no place and no new domain: all nodes are passed over
        have hrest := ih h
        simp only [spread] at hrest ⊢
        rw [← hrest]
      | succ k => simp only [spread, if_pos hused, ih h]
    · simp only [firsts, if_neg hused, List.length_cons] at h ⊢
      cases k with
      | zero => exact absurd h (Nat.not_succ_le_zero _)
      | succ k => simp only [spread, if_neg hused, ih (Nat.le_of_succ_le_succ h)]

theorem choose_eq_take (ranked : List (Node ι)) (k : ℕ) :
    choose ranked k = (spreadOrder Node.domain ranked).take k := by
  unfold choose
  split_ifs with hdomains
  · rw [spreadOrder, List.take_append]
    rcases le_total k (firsts Node.domain [] ranked).1.length with hle | hge
    · simp only [spread_of_le hle, List.length_take, min_eq_left hle, Nat.sub_self,
        Nat.sub_eq_zero_of_le hle, List.take_zero]
    · simp only [spread_of_ge hge, List.take_of_length_le hge]
  · rw [spreadOrder_of_one (c := []) fun node hnode => ?_]
    by_contra hne
    exact hdomains (List.any_eq_true.mpr ⟨node, hnode, bne_iff_ne.mpr hne⟩)

/-- The nodes `Placement` returns, nil beside an error. -/
def returned : Except Err (List (Node ι)) → List (Node ι)
  | .ok nodes => nodes
  | .error _ => []

namespace ClusterMap

variable [LinearOrder α]

def order (score : Bytes → Node ι → α) (m : ClusterMap ι) (objectHash : Bytes) : List (Node ι) :=
  spreadOrder Node.domain (byScore (score objectHash) m.eligible)

variable {score : Bytes → Node ι → α} {m : ClusterMap ι} {objectHash : Bytes}
  {replicationFactor : Int}

theorem order_perm : (m.order score objectHash).Perm m.eligible :=
  (spreadOrder_perm _).trans (byScore_perm _ _)

theorem length_order : (m.order score objectHash).length = m.eligible.length := order_perm.length_eq

theorem take_order (k : ℕ) :
    (m.order score objectHash).take (min k m.eligible.length) = (m.order score objectHash).take k := by
  rcases le_total k m.eligible.length with hle | hge
  · rw [min_eq_left hle]
  · rw [min_eq_right hge, List.take_of_length_le length_order.le,
      List.take_of_length_le (length_order.trans_le hge)]

theorem placement_eq_take (hr : 0 < replicationFactor) (hh : objectHash ≠ []) (he : m.eligible ≠ []) :
    m.placement score objectHash replicationFactor =
      .ok ((m.order score objectHash).take replicationFactor.toNat) := by
  refine placement_eq_ok.mpr ⟨hr, hh, he, ?_⟩
  rw [choose_eq_take]
  exact (take_order _).symm

theorem returned_placement :
    returned (m.placement score objectHash replicationFactor) =
      if objectHash = [] then [] else (m.order score objectHash).take replicationFactor.toNat := by
  by_cases hok : 0 < replicationFactor ∧ objectHash ≠ [] ∧ m.eligible ≠ []
  · rw [placement_eq_take hok.1 hok.2.1 hok.2.2, if_neg hok.2.1]
    rfl
  · have herror : returned (m.placement score objectHash replicationFactor) = [] := by
      cases h : m.placement score objectHash replicationFactor with
      | error e => rfl
      | ok nodes =>
        obtain ⟨hr, hh, he, -⟩ := placement_eq_ok.mp h
        exact absurd ⟨hr, hh, he⟩ hok
    rw [herror]
    split_ifs with hh
    · rfl
    · by_cases hr : 0 < replicationFactor
      · have he : m.eligible = [] := by
          by_contra he
          exact hok ⟨hr, hh, he⟩
        have horder : m.order score objectHash = [] :=
          List.eq_nil_of_length_eq_zero (length_order.trans (congrArg List.length he))
        rw [horder, List.take_nil]
      · rw [Int.toNat_of_nonpos (not_lt.mp hr), List.take_zero]

/-! ### The best replica set -/

instance score_total (f : Node ι → α) : Std.Total fun a b : Node ι => f b ≤ f a :=
  ⟨fun _ _ => le_total _ _⟩

instance score_trans (f : Node ι → α) : IsTrans (Node ι) fun a b => f b ≤ f a :=
  ⟨fun _ _ _ hab hbc => hbc.trans hab⟩

theorem mem_eligible {node : Node ι} :
    node ∈ m.eligible ↔ some node ∈ m.nodes ∧ 0 < node.weight := by
  simp only [eligible, List.mem_filterMap, Option.filter_eq_some_iff, decide_eq_true_eq]
  constructor
  · rintro ⟨entry, hmem, rfl, hweight⟩
    exact ⟨hmem, hweight⟩
  · rintro ⟨hmem, hweight⟩
    exact ⟨some node, hmem, rfl, hweight⟩

/-- CORRECT: the replica set is `min R e` distinct nodes of positive weight; no other set of as many
    covers more failure domains, and one that covers as many is nowhere better in its scores. -/
theorem placement_best (score : Bytes → Node ι → α) (m : ClusterMap ι) (objectHash : Bytes)
    (replicationFactor : Int) (hids : (m.eligible.map Node.id).Nodup) (hh : objectHash ≠ [])
    (hr : 1 ≤ replicationFactor) :
    let nodes := returned (m.placement score objectHash replicationFactor)
    (m.eligible ≠ [] → m.placement score objectHash replicationFactor = .ok nodes) ∧
      nodes.length = min replicationFactor.toNat m.eligible.length ∧
      (nodes.map Node.id).Nodup ∧
      (∀ node ∈ nodes, some node ∈ m.nodes ∧ 0 < node.weight) ∧
      ∀ others : List (Node ι), others.Nodup →
        (∀ node ∈ others, some node ∈ m.nodes ∧ 0 < node.weight) →
        others.length = nodes.length →
        kinds Node.domain others ≤ kinds Node.domain nodes ∧
          (kinds Node.domain others = kinds Node.domain nodes →
            List.Forall₂ (· ≤ ·) (descending (others.map (score objectHash)))
              (descending (nodes.map (score objectHash)))) := by
  intro nodes
  have hnodes : nodes = (m.order score objectHash).take replicationFactor.toNat := by
    rw [show nodes = _ from returned_placement, if_neg hh]
  have hlen : nodes.length = min replicationFactor.toNat m.eligible.length := by
    rw [hnodes, List.length_take, length_order]
  refine ⟨fun he => ?_, hlen, ?_, fun node hnode => ?_, fun others hnodup hsub hothers => ?_⟩
  · rw [hnodes]
    exact placement_eq_take (by omega) hh he
  · have hall : ((m.order score objectHash).map Node.id).Nodup :=
      (order_perm.map Node.id).nodup_iff.mpr hids
    rw [hnodes]
    exact ((List.take_sublist _ _).map Node.id).nodup hall
  · rw [hnodes] at hnode
    exact mem_eligible.mp (order_perm.mem_iff.mp (List.mem_of_mem_take hnode))
  · -- the prefix has as many nodes as asked for, or all of them
    have hsorted : (byScore (score objectHash) m.eligible).Pairwise
        fun x y => score objectHash y ≤ score objectHash x :=
      List.pairwise_insertionSort _ _
    have hfirst : nodes = (m.order score objectHash).take nodes.length := by
      rw [hlen, hnodes, take_order]
    rw [hfirst]
    refine take_spreadOrder_best hsorted ?_ hnodup (fun node hnode => ?_) hothers
    · rw [(byScore_perm _ _).length_eq, hlen]
      exact min_le_right _ _
    · exact (byScore_perm _ _).mem_iff.mpr (mem_eligible.mpr (hsub node hnode))

def racks : ClusterMap ℕ :=
  ⟨[some ⟨0, 1, lit "r1"⟩, some ⟨1, 2, lit "r1"⟩, none, some ⟨2, 1, lit "r2"⟩, some ⟨3, 1, lit "r2"⟩,
    some ⟨4, 0, lit "r3"⟩, some ⟨5, 1, lit "r3"⟩]⟩

theorem racks_placement_best :
    returned (racks.placement (fun _ node => 9 - node.id) (lit "h") 4) =
        [⟨0, 1, lit "r1"⟩, ⟨2, 1, lit "r2"⟩, ⟨5, 1, lit "r3"⟩, ⟨1, 2, lit "r1"⟩] ∧
      List.Forall₂ (· ≤ ·) (descending [9, 7, 6, 4])
        (descending ((returned (racks.placement (fun _ node => 9 - node.id) (lit "h") 4)).map
          fun node => 9 - node.id)) := by
  have hbest := placement_best (fun _ node => 9 - node.id) racks (lit "h") 4 (by decide +kernel)
    (by decide) (by decide)
  refine ⟨by decide +kernel, ?_⟩
  exact (hbest.2.2.2.2 [⟨0, 1, lit "r1"⟩, ⟨2, 1, lit "r2"⟩, ⟨3, 1, lit "r2"⟩, ⟨5, 1, lit "r3"⟩]
    (by decide +kernel) (by decide +kernel) (by decide +kernel)).2 (by decide +kernel)

/-! ### Little movement -/

theorem eligible_append (before after : List (Option (Node ι))) :
    (ClusterMap.mk (before ++ after)).eligible =
      (ClusterMap.mk before).eligible ++ (ClusterMap.mk after).eligible :=
  List.filterMap_append

theorem order_remove {before after : List (Option (Node ι))} {n node : Node ι} {k : ℕ}
    (hne : node ≠ n)
    (hmem : node ∈ ((ClusterMap.mk (before ++ some n :: after)).order score objectHash).take k) :
    node ∈ ((ClusterMap.mk (before ++ after)).order score objectHash).take k := by
  rw [order, eligible_append] at hmem ⊢
  by_cases hweight : 0 < n.weight
  · have hcons : (ClusterMap.mk (some n :: after)).eligible = n :: (ClusterMap.mk after).eligible := by
      simp [eligible, Option.filter, hweight]
    obtain ⟨xs, ys, hwith, hwithout⟩ := insertionSort_remove
      (r := fun a b : Node ι => score objectHash b ≤ score objectHash a) n
      (ClusterMap.mk before).eligible (ClusterMap.mk after).eligible
    rw [hcons, byScore, hwith] at hmem
    rw [byScore, hwithout]
    exact spreadOrder_remove hne hmem
  · -- a node without weight was not in the ranking
    have hcons : (ClusterMap.mk (some n :: after)).eligible = (ClusterMap.mk after).eligible := by
      simp [eligible, Option.filter, hweight]
    rwa [hcons] at hmem

/-- CORRECT: without one node the replica set keeps all the others it had, and a larger replication
    factor only appends to it. -/
theorem placement_stable (score : Bytes → Node ι → α) (objectHash : Bytes) (replicationFactor : Int) :
    (∀ (before after : List (Option (Node ι))) (n node : Node ι), node ≠ n →
      node ∈ returned ((ClusterMap.mk (before ++ some n :: after)).placement score objectHash
        replicationFactor) →
      node ∈ returned ((ClusterMap.mk (before ++ after)).placement score objectHash
        replicationFactor)) ∧
    ∀ m : ClusterMap ι,
      returned (m.placement score objectHash replicationFactor) <+:
        returned (m.placement score objectHash (replicationFactor + 1)) := by
  constructor
  · intro before after n node hne hmem
    rw [returned_placement] at hmem ⊢
    split_ifs at hmem ⊢ with hh
    · exact hmem
    · exact order_remove hne hmem
  · intro m
    rw [returned_placement, returned_placement]
    split_ifs with hh
    · exact List.prefix_rfl
    · exact List.take_prefix_take_left (by omega)

/-- The best node of a rack leaves: the rack's other node takes its place. -/
example : returned ((ClusterMap.mk racks.nodes.tail).placement (fun _ node => 9 - node.id) (lit "h") 4) =
    [⟨1, 2, lit "r1"⟩, ⟨2, 1, lit "r2"⟩, ⟨5, 1, lit "r3"⟩, ⟨3, 1, lit "r2"⟩] := by decide +kernel

end ClusterMap

end Momo
