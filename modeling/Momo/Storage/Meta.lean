import Momo.Common.Path
import Momo.Schemes.ByteOrder

/-! @momo src/storage/storage.go, src/storage/versioning.go, src/storage/objectlock.go
    scheme:buckets and records

    The metadata database behind a store: one ordered map per bbolt bucket, and the records kept in
    them. Buckets hold the records themselves rather than their bytes; the one place that looks at
    the bytes of a record (the sweep, which tests the encoded length) goes through `encode`. -/

namespace Momo

/-- The record of one content hash in the `objects` bucket. -/
structure ObjectMeta where
  size : Int
  refCount : Int
  /-- Unix nanoseconds; 0 means not deleted. -/
  deletedAt : Int := 0
  vectorClock : List UInt64 := []
  shardKey : Bytes := []
  metadataReplicas : List Int32 := []
  deriving DecidableEq

def int64Bits (x : Int) : Nat := (x % 2 ^ 64).toNat

def ObjectMeta.encode (m : ObjectMeta) : Bytes :=
  bePut 8 (int64Bits m.size) ++ bePut 8 (int64Bits m.refCount) ++ bePut 8 (int64Bits m.deletedAt) ++
  (bePut 4 m.vectorClock.length ++ m.vectorClock.flatMap (fun v => bePut 8 v.toNat)) ++
  (bePut 4 m.shardKey.length ++ m.shardKey) ++
  (bePut 4 m.metadataReplicas.length ++
    m.metadataReplicas.flatMap (fun v => bePut 4 v.toUInt32.toNat))

theorem ObjectMeta.encode_length_ge (m : ObjectMeta) : 36 ≤ m.encode.length := by
  simp only [encode, List.length_append, length_bePut]; omega

/-- One version of an object in a versioned bucket; the owning key is part of its database key. -/
structure VersionRecord where
  versionID : Bytes
  /-- Empty for a delete marker. -/
  hash : Bytes := []
  size : Int := 0
  timestamp : Int
  isLatest : Bool
  isDeleteMarker : Bool := false
  deriving DecidableEq

inductive LockMode
  | unset | COMPLIANCE | GOVERNANCE
  deriving DecidableEq

structure ObjectLockState where
  mode : LockMode := .unset
  /-- Unix seconds; 0 means no retention. -/
  retainUntil : Int := 0
  legalHoldOn : Bool := false
  deriving DecidableEq

/-! ### Buckets -/

def maxKeySize : Nat := 32768

def KeyOk (k : Bytes) : Prop := k ≠ [] ∧ k.length ≤ maxKeySize

instance (k : Bytes) : Decidable (KeyOk k) := inferInstanceAs (Decidable (_ ∧ _))

structure Bucket (V : Type) where
  map : OMap Bytes V
  keysOk : ∀ k v, map.get k = some v → KeyOk k

namespace Bucket

variable {V : Type}

def empty : Bucket V := ⟨OMap.empty, fun _ _ h => absurd h (by simp)⟩

def get (b : Bucket V) (k : Bytes) : Option V := b.map.get k

def set (b : Bucket V) (k : Bytes) (hk : KeyOk k) (v : V) : Bucket V :=
  ⟨b.map.put k v, fun k' v' h => by
    rw [OMap.get_put] at h
    split_ifs at h with hkk
    · exact hkk ▸ hk
    · exact b.keysOk k' v' h⟩

/-- `Bucket.Delete`: an absent key is no error. -/
def del (b : Bucket V) (k : Bytes) : Bucket V :=
  ⟨b.map.del k, fun k' v' h => b.keysOk k' v' (OMap.get_of_get_del h)⟩

/-- Keep the entries that satisfy `p` (one cursor pass with deletes). -/
def prune (b : Bucket V) (p : Bytes → V → Bool) : Bucket V :=
  ⟨b.map.prune p, fun k v h => by
    rw [OMap.get_prune, Option.filter_eq_some_iff] at h
    exact b.keysOk k v h.1⟩

def put (b : Bucket V) (k : Bytes) (v : V) : Except Err (Bucket V) :=
  if hk : KeyOk k then .ok (b.set k hk v)
  else .error (.text (if k = [] then "key required" else "key too large"))

/-- Write an entry anew if `f` gives a value for it. -/
def putSome (f : Bytes → V → Option V) (b : Bucket V) (e : Bytes × V) : Except Err (Bucket V) :=
  match f e.1 e.2 with
  | some v => b.put e.1 v
  | none => .ok b

def rewrite (b : Bucket V) (f : Bytes → V → Option V) : Except Err (Bucket V) :=
  b.map.entries.foldlM (putSome f) b

@[simp] theorem get_empty (k : Bytes) : (empty : Bucket V).get k = none := rfl

theorem get_set (b : Bucket V) (k k' : Bytes) (hk : KeyOk k) (v : V) :
    (b.set k hk v).get k' = if k' = k then some v else b.get k' := by
  rw [get, set, OMap.get_put]; congr

@[simp] theorem get_set_self (b : Bucket V) (k : Bytes) (hk : KeyOk k) (v : V) :
    (b.set k hk v).get k = some v := OMap.get_put_self b.map k v

variable {k k' : Bytes}

theorem get_set_ne (b : Bucket V) (hk : KeyOk k) (v : V) (h : k' ≠ k) :
    (b.set k hk v).get k' = b.get k' := OMap.get_put_ne b.map v h

theorem get_del (b : Bucket V) (k k' : Bytes) :
    (b.del k).get k' = if k' = k then none else b.get k' := by
  rw [get, del, OMap.get_del]; congr

@[simp] theorem get_del_self (b : Bucket V) (k : Bytes) : (b.del k).get k = none :=
  OMap.get_del_self b.map k

theorem get_del_ne (b : Bucket V) (h : k' ≠ k) : (b.del k).get k' = b.get k' :=
  OMap.get_del_ne b.map h

variable {b : Bucket V} {v : V}

theorem get_of_get_del (h : (b.del k).get k' = some v) :
    b.get k' = some v := OMap.get_of_get_del h

theorem get_prune (b : Bucket V) (p : Bytes → V → Bool) (k : Bytes) :
    (b.prune p).get k = (b.get k).filter (fun v => p k v) := OMap.get_prune b.map p k

theorem keyOk_of_get (h : b.get k = some v) : KeyOk k :=
  b.keysOk k v h

theorem put_of_keyOk (b : Bucket V) (hk : KeyOk k) (v : V) :
    b.put k v = .ok (b.set k hk v) := dif_pos hk

theorem put_eq_ok {b' : Bucket V} : b.put k v = .ok b' ↔ ∃ hk : KeyOk k, b' = b.set k hk v := by
  unfold put
  split_ifs with hk
  · simp only [Except.ok.injEq, hk, exists_true_left]; exact eq_comm
  · simp [hk]

theorem foldlM_putSome (f : Bytes → V → Option V) {l : List (Bytes × V)}
    (hsorted : l.Pairwise (fun a b => a.1 < b.1)) (hkeys : ∀ e ∈ l, KeyOk e.1) (acc : Bucket V) :
    ∃ b', l.foldlM (putSome f) acc = .ok b' ∧
      ∀ k, b'.get k = ((OMap.lookup k l).bind (f k)).or (acc.get k) := by
  induction l generalizing acc with
  | nil => exact ⟨acc, rfl, fun k => rfl⟩
  | cons e l ih =>
    obtain ⟨hfirst, hsorted⟩ := List.pairwise_cons.mp hsorted
    have hkey := hkeys e (List.mem_cons_self ..)
    have ih := ih hsorted (fun e' he' => hkeys e' (List.mem_cons_of_mem _ he'))
    -- the entry's own key does not come again
    have hlater : OMap.lookup e.1 l = none := by
      rw [Option.eq_none_iff_forall_not_mem]
      intro v hv
      exact lt_irrefl _ (hfirst (e.1, v) ((OMap.mem_iff_lookup hsorted).mpr hv))
    rw [List.foldlM_cons, putSome]
    cases hf : f e.1 e.2 with
    | none =>
      obtain ⟨b', hb', hget⟩ := ih acc
      refine ⟨b', hb', fun k => ?_⟩
      rw [hget, OMap.lookup]
      by_cases hk : e.1 = k
      · subst hk
        rw [if_pos rfl, hlater, Option.bind_none, Option.bind_some, hf]
      · rw [if_neg hk]
    | some v =>
      obtain ⟨b', hb', hget⟩ := ih (acc.set e.1 hkey v)
      refine ⟨b', by simp only [put_of_keyOk acc hkey]; exact hb', fun k => ?_⟩
      rw [hget, OMap.lookup]
      by_cases hk : e.1 = k
      · subst hk
        rw [if_pos rfl, hlater, get_set_self, Option.bind_none, Option.bind_some, hf]
        rfl
      · rw [if_neg hk, get_set_ne acc hkey v (Ne.symm hk)]

theorem rewrite_ok (b : Bucket V) (f : Bytes → V → Option V) :
    ∃ b', b.rewrite f = .ok b' ∧ ∀ k, b'.get k = (b.get k).map fun v => (f k v).getD v := by
  obtain ⟨b', hb', hget⟩ := foldlM_putSome f b.map.sorted
    (fun e he => b.keysOk e.1 e.2 ((OMap.mem_entries b.map).mp he)) b
  refine ⟨b', hb', fun k => ?_⟩
  rw [hget]
  change ((b.get k).bind (f k)).or (b.get k) = _
  cases b.get k with
  | none => rfl
  | some v =>
    rw [Option.bind_some, Option.map_some]
    cases f k v <;> rfl

@[ext] theorem ext {b b' : Bucket V} (h : ∀ k, b.get k = b'.get k) : b = b' := by
  cases b; cases b'
  simp only [mk.injEq]
  exact OMap.ext h

end Bucket

/-- The buckets of `momo.db` that the modelled operations touch. -/
structure MetaDB where
  objects : Bucket ObjectMeta := Bucket.empty
  ns : Bucket Bytes := Bucket.empty
  paths : Bucket Bytes := Bucket.empty
  modTimes : Bucket Int := Bucket.empty
  tombstones : Bucket Int := Bucket.empty
  quarantine : Bucket Unit := Bucket.empty
  objectVersions : Bucket VersionRecord := Bucket.empty
  lockState : Bucket ObjectLockState := Bucket.empty

theorem keyOk_hashBytes [Sha256] (c : Bytes) : KeyOk (hashBytes c) := by
  have h := length_hashBytes c
  refine ⟨fun hc => ?_, by rw [h]; decide⟩
  rw [hc] at h
  exact absurd h (by decide)

/-! ### Errors of a transaction -/

/-- `fmt.Errorf("metadata error: %w", syscall.EIO)`. -/
def metadataError : Err := .wrap "metadata error: %w" [] (.sys .eio)

def orErr {α : Type} (r : Except Err α) (e : Err) : Except Err α := r.mapError (fun _ => e)

@[simp] theorem orErr_ok {α : Type} (a : α) (e : Err) : orErr (.ok a) e = .ok a := rfl

theorem orErr_eq_ok {α : Type} {r : Except Err α} {e : Err} {a : α} :
    orErr r e = .ok a ↔ r = .ok a := by
  cases r <;> simp [orErr, Except.mapError]

def recovered (op : String) (cause : String) : Err :=
  .wrap ("panic in " ++ op ++ ": " ++ cause ++ ": %w") [] (.sys .eio)

end Momo
