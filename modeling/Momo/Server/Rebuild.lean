import Momo.Server.RebalanceRuns
import Momo.Storage.Repair

/-! @momo src/storage/rebuild.go, src/server/rebuild_source.go
    scheme:census, fetch, fan-out

    One repair of one blob by one node of a cluster. The census of the daemon's source is the
    placement without the node itself: it tells who should have the blob, not who has it. -/

namespace Momo.Rebuild

open Rebalance

structure Cluster (β : Type) (n : ℕ) where
  store : Fin n → CASStore β
  reachable : Fin n → Bool

variable {n : ℕ}

def placementIds (T : Topology n) (hash : Bytes) : List (Fin n) :=
  match T.cmap.placement T.score hash T.rf with
  | .error _ => []
  | .ok placement => placement.map Node.id

def survivors (T : Topology n) (self : Fin n) (hash : Bytes) : Except Err (List (Fin n)) :=
  match T.cmap.placement T.score hash T.rf with
  | .error e => .error (.wrap "placement for %s: %w" [.str hash] e)
  | .ok placement => .ok ((placement.map Node.id).filter (fun id => id ≠ self))

def daemonSource (T : Topology n) (self : Fin n) (fetch : Bytes → Int → Except Err Reader) :
    RebuildSource where
  survivors hash := (survivors T self hash).map (List.map (fun id => (id.val : Int)))
  fetch := fetch

section Model

variable [Sha256] {β : Type} [BlobStore β]

def pushToPeer (T : Topology n) (s : CASStore β) (reachable : Bool) (env : UploadEnv)
    (hash data : Bytes) : Bool × CASStore β :=
  if reachable then
    match s.answer (blobUpload hash data) with
    | none => (false, s)
    | some true => (true, (serve T s env (blobUpload hash data) true).2)
    | some false => serve T s env (blobUpload hash data) false
  else (false, s)

/-- The content is read and checked once more, then pushed to the placement. -/
def restore (T : Topology n) (t : Cluster β n) (self : Fin n) (env : Fin n → UploadEnv)
    (hash : Bytes) (content : Reader) : Bool × (Fin n → CASStore β) :=
  match survivors T self hash, content.fault with
  | .ok targets, none =>
    if hashBytes content.data = hash then
      let pushed := fun p => pushToPeer T (t.store p) (t.reachable p) (env p) hash content.data
      (targets.all (fun p => (pushed p).1), fun p => if p ∈ targets then (pushed p).2 else t.store p)
    else (false, t.store)
  | _, _ => (false, t.store)

/-- `repairBlob` on the node `self`: did it complete without an error, and the cluster after it. -/
def repairBlob (T : Topology n) (t : Cluster β n) (self : Fin n)
    (fetch : Bytes → Int → Except Err Reader) (env : Fin n → UploadEnv) (target : Int)
    (hash : Bytes) : Bool × Cluster β n :=
  match (t.store self).repairStream ⟨target, some (daemonSource T self fetch)⟩ hash with
  | (.healthy, s) => (true, { t with store := Function.update t.store self s })
  | (.failed, s) => (false, { t with store := Function.update t.store self s })
  | (.handed stream, s) =>
    match restore T { t with store := Function.update t.store self s } self env hash stream with
    | (true, store) => (true, { t with store := Function.update store self (s.quarantineClear hash) })
    | (false, store) => (false, { t with store := store })

end Model

/-! ### The parts of a repair -/

section Parts

variable [Sha256] {β : Type} [BlobStore β] [MapBackend β]

theorem localCopyVerified_iff (s : CASStore β) (h : Bytes) :
    s.localCopyVerified h = true ↔ s.Intact h := by
  unfold CASStore.localCopyVerified CASStore.Intact CASStore.bytes
  rw [MapBackend.getBlob_eq]
  cases MapBackend.view s.blobs h <;> simp

variable {h : Bytes}

theorem fetchVerifiedToLocal_intact {s s' : CASStore β} {r : Reader}
    (hok : s.fetchVerifiedToLocal h = (.ok r, s')) : s'.Intact h := by
  unfold CASStore.fetchVerifiedToLocal at hok
  split at hok
  · cases hok
  · rename_i source _
    split at hok
    · cases hok
    · rename_i peers _
      have hintact := CASStore.fetchFrom_intact source h peers s (r := r) (by rw [hok])
      rw [hok] at hintact
      exact hintact

/-- The repair goes on to the placement: a target is set, and the hash is marked or the census
    counts fewer copies than the target. -/
def Acts (T : Topology n) (s : CASStore β) (self : Fin n) (target : Int) (h : Bytes) : Prop :=
  0 < target ∧ ((s.db.quarantine.get h).isSome = true ∨
    (((placementIds T h).filter (fun id => id ≠ self)).length : Int) +
      (if s.localCopyVerified h then 1 else 0) < target)

instance (T : Topology n) (s : CASStore β) (self : Fin n) (target : Int) (h : Bytes) :
    Decidable (Acts T s self target h) :=
  inferInstanceAs (Decidable (_ ∧ (_ ∨ _)))

variable {T : Topology n}

omit [Sha256] in
theorem survivors_eq_ok {self : Fin n} {targets : List (Fin n)}
    (hs : survivors T self h = .ok targets) :
    targets = (placementIds T h).filter (fun id => id ≠ self) := by
  unfold survivors at hs
  unfold placementIds
  cases hp : T.cmap.placement T.score h T.rf with
  | error e =>
    rw [hp] at hs
    cases hs
  | ok placement =>
    rw [hp] at hs
    cases hs
    rfl

theorem repairStream_spec (T : Topology n) (s : CASStore β) (self : Fin n)
    (fetch : Bytes → Int → Except Err Reader) (target : Int) (h : Bytes) :
    match s.repairStream ⟨target, some (daemonSource T self fetch)⟩ h with
    | (.healthy, s') => ¬Acts T s self target h ∧ s' = s
    | (.failed, _) => True
    | (.handed _, s') => Acts T s self target h ∧ s'.Intact h := by
  unfold CASStore.repairStream Acts
  dsimp only
  by_cases htarget : target ≤ 0
  · rw [if_pos htarget]
    exact ⟨fun hacts => absurd htarget (not_le.mpr hacts.1), rfl⟩
  rw [if_neg htarget]
  cases hsurv : survivors T self h with
  | error e => simp [daemonSource, hsurv, Except.map]
  | ok targets =>
    obtain rfl := survivors_eq_ok hsurv
    simp only [daemonSource, hsurv, Except.map, List.length_map]
    by_cases hhealthy : (s.db.quarantine.get h).isSome = false ∧
        target ≤ (((placementIds T h).filter (fun id => id ≠ self)).length : Int) +
          (if s.localCopyVerified h then 1 else 0)
    · rw [if_pos hhealthy]
      refine ⟨?_, rfl⟩
      rintro ⟨-, hmarked | hfew⟩
      · rw [hhealthy.1] at hmarked
        cases hmarked
      · exact absurd hhealthy.2 (not_le.mpr hfew)
    · rw [if_neg hhealthy]
      have hacts : 0 < target ∧ ((s.db.quarantine.get h).isSome = true ∨
          (((placementIds T h).filter (fun id => id ≠ self)).length : Int) +
            (if s.localCopyVerified h then 1 else 0) < target) := by
        refine ⟨not_le.mp htarget, ?_⟩
        by_contra hno
        push Not at hno
        exact hhealthy ⟨by simpa using hno.1, hno.2⟩
      have hfetch : match s.repairFetch h with
          | (.healthy, _) => False
          | (.failed, _) => True
          | (.handed _, s') => s'.Intact h := by
        unfold CASStore.repairFetch
        cases hf : s.fetchVerifiedToLocal h with
        | mk res s' =>
          cases res with
          | error e => trivial
          | ok r => exact fetchVerifiedToLocal_intact hf
      have hgo : match s.repairFetch h with
          | (.healthy, s') => ¬Acts T s self target h ∧ s' = s
          | (.failed, _) => True
          | (.handed _, s') => Acts T s self target h ∧ s'.Intact h := by
        generalize s.repairFetch h = out at hfetch
        obtain ⟨outcome, s'⟩ := out
        cases outcome with
        | healthy => exact hfetch.elim
        | failed => trivial
        | handed r => exact ⟨hacts, hfetch⟩
      cases hlocal : s.localCopyVerified h with
      | false => simpa only [Bool.false_eq_true, if_false, hlocal, Acts] using hgo
      | true =>
        simp only [if_true]
        obtain ⟨c, hc, hhash⟩ := (localCopyVerified_iff s h).mp hlocal
        rw [MapBackend.getBlob_eq, show MapBackend.view s.blobs h = some c from hc]
        rw [hlocal, if_pos rfl] at hacts
        exact ⟨hacts, c, hc, hhash⟩

theorem pushToPeer_intact {s s' : CASStore β} {reachable : Bool} {env : UploadEnv} {c : Bytes}
    (hc : hashBytes c = h) (hok : pushToPeer T s reachable env h c = (true, s')) :
    s'.Intact h ↔ s.Intact h ∨ (s.canDedup h h ≠ .ok true ∧ ¬s.Holds h) := by
  unfold pushToPeer at hok
  split_ifs at hok with hreach
  swap
  · cases hok
  cases hans : s.answer (blobUpload h c) with
  | none =>
    rw [hans] at hok
    cases hok
  | some dedup =>
    have hdedup : s.canDedup h h = .ok dedup := by
      unfold CASStore.answer at hans
      split_ifs at hans
      cases hd : s.canDedup h h with
      | error e =>
        rw [show (blobUpload h c).name = h from rfl, show (blobUpload h c).hash = h from rfl, hd]
          at hans
        cases hans
      | ok d =>
        rw [show (blobUpload h c).name = h from rfl, show (blobUpload h c).hash = h from rfl, hd]
          at hans
        cases hans
        rfl
    rw [hans] at hok
    cases dedup with
    | true =>
      have hbytes : s'.bytes = s.bytes := by
        cases hok
        exact serve_dedup_bytes T s env _
      rw [CASStore.Intact, hbytes, ← CASStore.Intact]
      simp [hdedup]
    | false =>
      have hv : (blobUpload h c).received.verdict (blobUpload h c).received.payload.data = none := by
        rw [payload_blobUpload]
        exact if_neg (not_not.mpr hc)
      obtain ⟨hbytes, hacc⟩ := CASStore.getFile_honest s env hv
      have hget : s.getFile env (blobUpload h c).received = (.ok (), s') := by
        simp only [serve, CASStore.storeUpload, Bool.false_eq_true, if_false] at hok
        split at hok
        · cases hok
        · split at hok
          · cases hok
          · rename_i x hg
            cases hok
            exact hg
      rw [hget] at hbytes hacc
      obtain ⟨haccepted, -⟩ := hacc.mp rfl
      have hne : s.canDedup h h ≠ .ok true := by
        rw [hdedup]
        simp
      rw [CASStore.Intact, hbytes, CASStore.bytesPut]
      by_cases hp : s.Holds h
      · rw [if_neg (fun hw => hw.2.2.1 hp)]
        simp [CASStore.Intact, hp]
      · rw [if_pos ⟨haccepted.1, haccepted.2.1, hp, (haccepted.2.2.resolve_left hp).1⟩]
        refine iff_of_true ⟨c, ?_, hc⟩ (Or.inr ⟨hne, hp⟩)
        rw [payload_blobUpload]
        exact Function.update_self ..

theorem restore_intact {t : Cluster β n} {self : Fin n} {env : Fin n → UploadEnv} {content : Reader}
    {store : Fin n → CASStore β} (hok : restore T t self env h content = (true, store)) {p : Fin n}
    (hp : p ≠ self) :
    (store p).Intact h ↔ (t.store p).Intact h ∨
      (p ∈ placementIds T h ∧ (t.store p).canDedup h h ≠ .ok true ∧ ¬(t.store p).Holds h) := by
  unfold restore at hok
  split at hok
  swap
  · cases hok
  rename_i targets hsurv hfault
  split_ifs at hok with hhash
  swap
  · cases hok
  obtain ⟨hall, rfl⟩ := Prod.mk.inj hok
  obtain rfl := survivors_eq_ok hsurv
  have hmem : p ∈ (placementIds T h).filter (fun id => id ≠ self) ↔ p ∈ placementIds T h := by
    simp [List.mem_filter, hp]
  by_cases hin : p ∈ placementIds T h
  · have hpush := List.all_eq_true.mp hall p (hmem.mpr hin)
    simp only [if_pos (hmem.mpr hin), hin, true_and]
    exact pushToPeer_intact hhash (Prod.fst_eq_iff.mp hpush)
  · simp only [if_neg (fun hc => hin (hmem.mp hc)), hin, false_and, or_false]

end Parts

/-! ### What a repair achieves -/

section Repair

variable [Sha256] {β : Type} [BlobStore β] [MapBackend β]

def Cluster.has (t : Cluster β n) (h : Bytes) (p : Fin n) : Bool :=
  ((t.store p).bytes h).any (fun c => hashBytes c = h)

theorem Cluster.has_iff (t : Cluster β n) (h : Bytes) (p : Fin n) :
    t.has h p = true ↔ (t.store p).Intact h := by
  simp [Cluster.has, CASStore.Intact, Option.any_eq_true]

def Cluster.holders (t : Cluster β n) (h : Bytes) : Finset (Fin n) :=
  Finset.univ.filter (fun p => t.has h p = true)

def Cluster.reachablePlacement (T : Topology n) (t : Cluster β n) (self : Fin n) (h : Bytes) :
    Finset (Fin n) :=
  Finset.univ.filter (fun p => p ∈ placementIds T h ∧ (p = self ∨ t.reachable p = true))

/-- The nodes that will have the blob: those that have it, and if the repair acts, the node itself
    and the nodes of the placement that neither skip the payload nor take the hash for present. -/
def Cluster.willHave (T : Topology n) (t : Cluster β n) (self : Fin n) (target : Int) (h : Bytes) :
    Finset (Fin n) :=
  Finset.univ.filter (fun p => t.has h p = true ∨ (Acts T (t.store self) self target h ∧
    (p = self ∨ (p ∈ placementIds T h ∧ (t.store p).canDedup h h ≠ .ok true ∧
      ¬(t.store p).Holds h))))

theorem holders_repairBlob (T : Topology n) (t : Cluster β n) (self : Fin n)
    (fetch : Bytes → Int → Except Err Reader) (env : Fin n → UploadEnv) (target : Int) (h : Bytes)
    (hok : (repairBlob T t self fetch env target h).1 = true) :
    (repairBlob T t self fetch env target h).2.holders h = t.willHave T self target h := by
  ext p
  simp only [Cluster.holders, Cluster.willHave, Finset.mem_filter, Finset.mem_univ, true_and,
    Cluster.has_iff]
  have hspec := repairStream_spec T (t.store self) self fetch target h
  unfold repairBlob at hok ⊢
  cases hstream : (t.store self).repairStream ⟨target, some (daemonSource T self fetch)⟩ h with
  | mk outcome s =>
    rw [hstream] at hspec
    simp only [hstream] at hok ⊢
    cases outcome with
    | healthy =>
      obtain ⟨hacts, rfl⟩ := hspec
      simp [hacts]
    | failed => cases hok
    | handed stream =>
      obtain ⟨hacts, hintact⟩ := hspec
      simp only at hok ⊢
      cases hres : restore T { t with store := Function.update t.store self s } self env h stream with
      | mk ok store =>
        simp only [hres] at hok ⊢
        cases ok with
        | false => cases hok
        | true =>
          simp only [hacts, true_and]
          rcases eq_or_ne p self with rfl | hne
          · rw [Function.update_self]
            exact iff_of_true hintact (Or.inr (Or.inl rfl))
          · rw [Function.update_of_ne hne, restore_intact hres hne]
            simp only [Function.update_of_ne hne, hne, false_or]

/-- CORRECT: when a repair completes without an error, enough nodes have the blob afterwards exactly
    when enough nodes will have it, and every reachable node of the placement has it exactly when
    each of them will. -/
theorem repairBlob_restores_iff (T : Topology n) (t : Cluster β n) (self : Fin n)
    (fetch : Bytes → Int → Except Err Reader) (env : Fin n → UploadEnv) (target : Int) (h : Bytes)
    (hok : (repairBlob T t self fetch env target h).1 = true) :
    (min target (t.reachablePlacement T self h).card ≤
        ((repairBlob T t self fetch env target h).2.holders h).card ↔
      min target (t.reachablePlacement T self h).card ≤ (t.willHave T self target h).card) ∧
    (t.reachablePlacement T self h ⊆ (repairBlob T t self fetch env target h).2.holders h ↔
      t.reachablePlacement T self h ⊆ t.willHave T self target h) := by
  rw [holders_repairBlob T t self fetch env target h hok]
  exact ⟨Iff.rfl, Iff.rfl⟩

end Repair

/-! ### Concrete clusters -/

section Runs

local instance rebuildSha : Sha256 := sampleSha

/-- Daemons without failure domains and with equal scores; every node is in every placement. -/
def evenTopology (n : ℕ) : Topology n :=
  { cmap := daemonMap (fun _ => []), score := fun _ _ => 0, rf := n }

def lostStore : CASStore LocalBlobStore := { cfg := {}, blobs := {} }

/-- A store with the blob of `a` under its own hash as a name. -/
def fullStore : CASStore LocalBlobStore :=
  (lostStore.put none 1 (hashBytes [97]) (hashBytes [97]) 1 [] (some ⟨[97], none⟩)).2

def shedStore : CASStore LocalBlobStore := { fullStore with blobs := {} }

def noFetch (_ : Bytes) (_ : Int) : Except Err Reader := .error (.sys .eio)

/-- Node 0 has the blob; the other nodes can be reached and have the store `s`. -/
def oneCopy (n : ℕ) (s : CASStore LocalBlobStore) : Cluster LocalBlobStore (n + 1) :=
  { store := fun p => if p = 0 then fullStore else s, reachable := fun _ => true }

theorem repairBlob_restores_lost :
    (repairBlob (evenTopology 2) (oneCopy 1 lostStore) 0 noFetch (fun _ => {}) 3 (hashBytes [97])).1 =
      true ∧
    (min 3 ((oneCopy 1 lostStore).reachablePlacement (evenTopology 2) 0 (hashBytes [97])).card : Int) ≤
      ((repairBlob (evenTopology 2) (oneCopy 1 lostStore) 0 noFetch (fun _ => {}) 3
        (hashBytes [97])).2.holders (hashBytes [97])).card := by
  have hok : (repairBlob (evenTopology 2) (oneCopy 1 lostStore) 0 noFetch (fun _ => {}) 3
      (hashBytes [97])).1 = true := by decide +kernel
  exact ⟨hok, (repairBlob_restores_iff (evenTopology 2) (oneCopy 1 lostStore) 0 noFetch (fun _ => {}) 3
    (hashBytes [97]) hok).1.mpr (by decide +kernel)⟩

/-- Three nodes, a copy on node 0 and the store `s` on the others: the repair completes without an
    error, all three can be reached, and node 0 alone has the blob. -/
def LeavesOneCopy (target : Int) (s : CASStore LocalBlobStore) : Prop :=
  let repaired := repairBlob (evenTopology 3) (oneCopy 2 s) 0 noFetch (fun _ => {}) target
    (hashBytes [97])
  repaired.1 = true ∧
    ((oneCopy 2 s).reachablePlacement (evenTopology 3) 0 (hashBytes [97])).card = 3 ∧
    repaired.2.holders (hashBytes [97]) = {0}

instance (target : Int) (s : CASStore LocalBlobStore) : Decidable (LeavesOneCopy target s) :=
  inferInstanceAs (Decidable (_ ∧ _))

/-- Target three: the census counts three copies and the repair does nothing. Target four: it acts,
    and the peers that shed their bytes skip the payload. -/
theorem repairBlob_leaves_one_copy : LeavesOneCopy 3 lostStore ∧ LeavesOneCopy 4 shedStore := by
  decide +kernel

end Runs

end Momo.Rebuild
