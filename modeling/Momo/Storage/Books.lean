import Momo.Storage.CASSpec

/-! @momo src/storage/storage.go | scheme:bookkeeping invariant

    The books a store keeps: which name is on which hash, and how often each hash is counted. The
    heart is `counted`. A reference count may exceed the number of names on its hash (an overwrite
    never gives its old reference back) but never falls below it, so it reaches zero only when no
    name is left, and a removal never takes a record another name still needs. -/

namespace Momo.CASStore

/-- The books are in order: nothing is marked, a tombstone hides no mapping, every mapped hash has a
    record, every record counts its names and has a size that can be read. -/
structure Books (db : MetaDB) : Prop where
  unmarked : ∀ h, db.quarantine.get h = none
  hidden : ∀ n t, db.tombstones.get n = some t → db.ns.get n = none
  recorded : ∀ n h, db.ns.get n = some h → ∃ m, db.objects.get h = some m
  counted : ∀ h m, db.objects.get h = some m → (namesOn db.ns h : Int) ≤ m.refCount
  sized : ∀ h m, db.objects.get h = some m → 0 ≤ m.size

theorem books_empty : Books {} where
  unmarked _ := rfl
  hidden _ _ h := by cases h
  recorded _ _ h := by cases h
  counted _ _ h := by cases h
  sized _ _ h := by cases h

namespace Books

variable {db : MetaDB}

theorem two_le_refCount (hb : Books db) {n n' h : Bytes} {m : ObjectMeta} (hne : n' ≠ n)
    (hn : db.ns.get n = some h) (hn' : db.ns.get n' = some h) (hm : db.objects.get h = some m) :
    2 ≤ m.refCount := by
  have hdel := namesOn_del db.ns n h
  rw [if_pos hn] at hdel
  have hpos : 0 < namesOn (db.ns.del n) h :=
    namesOn_pos (by rw [Bucket.get_del_ne _ hne]; exact hn')
  have := hb.counted h m hm
  omega

theorem last_name (hb : Books db) {name n h : Bytes} (ho : orphanOf db name = some h)
    (hne : n ≠ name) : db.ns.get n ≠ some h := by
  intro hn
  obtain ⟨hname, m, hm, hrc⟩ := orphanOf_eq_some.mp ho
  have := hb.two_le_refCount hne hname hn hm
  omega

theorem visible (hb : Books db) {n h : Bytes} (hn : db.ns.get n = some h) :
    db.tombstones.get n = none := by
  by_contra hc
  obtain ⟨t, ht⟩ := Option.ne_none_iff_exists'.mp hc
  rw [hb.hidden n t ht] at hn
  cases hn

end Books

variable {β : Type}

variable {s s' : CASStore β} {name : Bytes}

theorem Written.objects_cases {now : Int} {hash : Bytes} {size : Int} {remotePath : Bytes}
    {f : PutFields} (hw : Written s s' now name hash size remotePath f) {h : Bytes} {m : ObjectMeta}
    (hm : s'.db.objects.get h = some m) :
    (h = hash ∧ m = putMeta (s.db.objects.get hash) size f) ∨
      (h ≠ hash ∧ s.db.objects.get h = some m) := by
  rw [hw.objects, Bucket.get_set] at hm
  split_ifs at hm with he
  · exact Or.inl ⟨he, (Option.some.inj hm).symm⟩
  · exact Or.inr ⟨he, hm⟩

theorem books_written {now : Int} {hash : Bytes} {size : Int} {remotePath : Bytes} {f : PutFields}
    (hb : Books s.db) (hsize : 0 ≤ size) (hw : Written s s' now name hash size remotePath f) :
    Books s'.db := by
  refine ⟨fun h => hw.quarantine ▸ hb.unmarked h, ?_, ?_, ?_, ?_⟩
  · -- hidden: the put took the tombstone of its own name away
    intro n t ht
    rw [hw.tombstones, Bucket.get_del] at ht
    split_ifs at ht with hn
    rw [hw.ns, Bucket.get_set_ne _ _ _ hn]
    exact hb.hidden n t ht
  · -- recorded
    intro n h hn
    rw [hw.ns, Bucket.get_set] at hn
    rw [hw.objects, Bucket.get_set]
    rcases eq_or_ne h hash with rfl | hh
    · exact ⟨_, if_pos rfl⟩
    · rw [if_neg hh]
      split_ifs at hn with hnn
      · exact absurd (Option.some.inj hn).symm hh
      · exact hb.recorded n h hn
  · -- counted: one more name at most, one more reference exactly
    intro h m hm
    have hle := namesOn_set_le s.db.ns hash hw.nameOk h
    rw [hw.ns]
    rcases hw.objects_cases hm with ⟨rfl, rfl⟩ | ⟨hne, hm⟩
    · rw [putMeta_refCount]
      rw [if_pos rfl] at hle
      cases hex : s.db.objects.get h with
      | none =>
        have hzero : namesOn s.db.ns h = 0 :=
          namesOn_eq_zero (fun n hn => by obtain ⟨m, hm⟩ := hb.recorded n _ hn; simp [hex] at hm)
        simp only [Option.elim_none]
        omega
      | some m0 =>
        have := hb.counted _ m0 hex
        simp only [Option.elim_some]
        omega
    · rw [if_neg (Ne.symm hne)] at hle
      have := hb.counted h m hm
      omega
  · -- sized
    intro h m hm
    rcases hw.objects_cases hm with ⟨rfl, rfl⟩ | ⟨-, hm⟩
    · rw [putMeta_size]
      cases hex : s.db.objects.get h with
      | none => exact hsize
      | some m0 => exact hb.sized _ m0 hex
    · exact hb.sized h m hm

variable [BlobStore β] [MapBackend β]

theorem Removed.objects_cases {io : Option Err} {at_ : Int} (hr : Removed s s' io name at_)
    {h : Bytes} {m : ObjectMeta} (hm : s'.db.objects.get h = some m) :
    ¬ (orphanOf s.db name = some h ∧ DeleteOk io h) ∧
      ((s.db.ns.get name = some h ∧ ∃ m0, s.db.objects.get h = some m0 ∧ m = dropRef m0 at_) ∨
        (s.db.ns.get name ≠ some h ∧ s.db.objects.get h = some m)) := by
  rw [hr.objects] at hm
  split_ifs at hm with h1 h2
  · obtain ⟨m0, hm0, rfl⟩ := Option.map_eq_some_iff.mp hm
    exact ⟨h1, Or.inl ⟨h2, m0, hm0, rfl⟩⟩
  · exact ⟨h1, Or.inr ⟨h2, hm⟩⟩

/-- Step: a removal keeps the books; its hash loses the reference of the name it loses, and its
    record only with its last name. -/
theorem books_removed {io : Option Err} {at_ : Int} (hb : Books s.db)
    (hr : Removed s s' io name at_) : Books s'.db := by
  refine ⟨fun h => hr.quarantine ▸ hb.unmarked h, ?_, ?_, ?_, ?_⟩
  · -- hidden
    intro n t ht
    rw [hr.ns, Bucket.get_del]
    split_ifs with hn
    · rfl
    · rw [hr.tombstones, Bucket.get_set_ne _ _ _ hn] at ht
      exact hb.hidden n t ht
  · -- recorded
    intro n h hn
    rw [hr.ns, Bucket.get_del] at hn
    split_ifs at hn with hnn
    obtain ⟨m, hm⟩ := hb.recorded n h hn
    rw [hr.objects, if_neg (fun ho => hb.last_name ho.1 hnn hn)]
    split_ifs with h2
    · exact ⟨_, by rw [hm]; rfl⟩
    · exact ⟨m, hm⟩
  · -- counted
    intro h m hm
    have hdel := namesOn_del s.db.ns name h
    rw [hr.ns]
    rcases (hr.objects_cases hm).2 with ⟨hname, m0, hm0, rfl⟩ | ⟨hname, hm⟩
    · rw [if_pos hname] at hdel
      have := hb.counted h m0 hm0
      unfold dropRef
      split_ifs <;> simp only <;> omega
    · rw [if_neg hname] at hdel
      have := hb.counted h m hm
      omega
  · -- sized
    intro h m hm
    rcases (hr.objects_cases hm).2 with ⟨-, m0, hm0, rfl⟩ | ⟨-, hm⟩
    · rw [dropRef_size]
      exact hb.sized h m0 hm0
    · exact hb.sized h m hm

end Momo.CASStore
