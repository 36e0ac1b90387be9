import Momo.Storage.Refinement

/-! @momo src/storage/storage.go, src/storage/gc.go | scheme:exact reference counts

    Whether the store ever gives space back. `Books` says that a count is never too small, which is
    what reads need; here the other direction: a count that is exactly the number of names reaches
    zero with the last name, and the delete that takes it removes record and bytes at once. -/

namespace Momo.CASStore

theorem namesOn_set {ns : Bucket Bytes} {name : Bytes} (hash : Bytes) (hk : KeyOk name)
    (hfree : ns.get name = none) (h : Bytes) :
    namesOn (ns.set name hk hash) h = namesOn ns h + if hash = h then 1 else 0 := by
  have hput := OMap.count_put ns.map (fun _ h' => decide (h' = h)) name hash
  have hhit : ns.map.hit (fun _ h' => decide (h' = h)) name = 0 := by
    unfold OMap.hit
    rw [show ns.map.get name = none from hfree]
  rw [hhit, Nat.add_zero] at hput
  simp only [decide_eq_true_eq] at hput
  exact hput

/-- Every record counts exactly the names on its hash, has at least one, and is of a hash the back
    end can delete; every mapped hash has a record. -/
structure Exact (db : MetaDB) : Prop where
  counted : ∀ h m, db.objects.get h = some m → m.refCount = namesOn db.ns h
  named : ∀ h m, db.objects.get h = some m → ∃ n, db.ns.get n = some h
  clean : ∀ h m, db.objects.get h = some m → hasPathTraversalChars h = false
  recorded : ∀ n h, db.ns.get n = some h → ∃ m, db.objects.get h = some m

theorem exact_empty : Exact {} where
  counted _ _ h := by cases h
  named _ _ h := by cases h
  clean _ _ h := by cases h
  recorded _ _ h := by cases h

section Runs

inductive CallerOp
  | put (now : Int) (name hash : Bytes) (size : Int) (remotePath : Bytes) (content : Option Reader)
  | delete (now : Int) (name : Bytes)

variable {β : Type}

def NewName (s : CASStore β) : CallerOp → Prop
  | .put _ name _ _ _ _ => s.db.ns.get name = none
  | .delete _ _ => True

instance (s : CASStore β) (o : CallerOp) : Decidable (s.NewName o) := by
  cases o <;> unfold NewName <;> infer_instance

variable [BlobStore β]

def callerStep (s : CASStore β) : CallerOp → CASStore β
  | .put now name hash size remotePath content =>
    (s.put none now name hash size remotePath content).2
  | .delete now name => (s.delete none now name).2

variable [MapBackend β]

omit [BlobStore β] [MapBackend β] in
theorem Exact.written {s s' : CASStore β} {now : Int} {name hash : Bytes} {size : Int}
    {remotePath : Bytes} {f : PutFields} (hs : Exact s.db) (hfree : s.db.ns.get name = none)
    (hhash : hasPathTraversalChars hash = false)
    (hw : Written s s' now name hash size remotePath f) : Exact s'.db := by
  refine ⟨?_, ?_, ?_, ?_⟩
  · -- counted
    intro h m hm
    have hnames := namesOn_set hash hw.nameOk hfree h
    rw [hw.ns]
    rcases hw.objects_cases hm with ⟨rfl, rfl⟩ | ⟨hne, hm⟩
    · rw [if_pos rfl] at hnames
      rw [putMeta_refCount, hnames]
      cases hold : s.db.objects.get h with
      | none =>
        have hzero : namesOn s.db.ns h = 0 := namesOn_eq_zero (fun n hn => by
          obtain ⟨m, hm⟩ := hs.recorded n h hn
          simp [hold] at hm)
        simp [hzero]
      | some m0 =>
        have := hs.counted h m0 hold
        simp only [Option.elim_some]
        omega
    · rw [if_neg (Ne.symm hne), Nat.add_zero] at hnames
      rw [hnames]
      exact hs.counted h m hm
  · -- named
    intro h m hm
    rw [hw.ns]
    rcases hw.objects_cases hm with ⟨rfl, -⟩ | ⟨-, hm⟩
    · exact ⟨name, Bucket.get_set_self _ _ _ _⟩
    · obtain ⟨n, hn⟩ := hs.named h m hm
      have hne : n ≠ name := by
        rintro rfl
        rw [hfree] at hn
        cases hn
      exact ⟨n, (Bucket.get_set_ne _ _ _ hne).trans hn⟩
  · -- clean
    intro h m hm
    rcases hw.objects_cases hm with ⟨rfl, -⟩ | ⟨-, hm⟩
    · exact hhash
    · exact hs.clean h m hm
  · -- recorded
    intro n h hn
    rw [hw.objects, Bucket.get_set]
    split_ifs with hh
    · exact ⟨_, rfl⟩
    · rw [hw.ns, Bucket.get_set] at hn
      split_ifs at hn with hnn
      · exact absurd (Option.some.inj hn).symm hh
      · exact hs.recorded n h hn

theorem Exact.orphanOf_last {db : MetaDB} (hs : Exact db) {name h : Bytes}
    (hname : db.ns.get name = some h) (hlast : ∀ n, (db.ns.del name).get n ≠ some h) :
    orphanOf db name = some h := by
  obtain ⟨m, hm⟩ := hs.recorded name h hname
  have hdel := namesOn_del db.ns name h
  rw [if_pos hname, namesOn_eq_zero hlast] at hdel
  have hcount := hs.counted h m hm
  exact orphanOf_eq_some.mpr ⟨hname, m, hm, by omega⟩

theorem Exact.removed {s s' : CASStore β} {name : Bytes} {at_ : Int} (hs : Exact s.db)
    (hr : Removed s s' none name at_) : Exact s'.db := by
  refine ⟨?_, ?_, ?_, ?_⟩
  · -- counted: the one reference that goes is that of the name
    intro h m hm
    have hdel := namesOn_del s.db.ns name h
    rw [hr.ns]
    obtain ⟨hkeep, ⟨hname, m0, hm0, rfl⟩ | ⟨hname, hm⟩⟩ := hr.objects_cases hm
    · rw [if_pos hname] at hdel
      have hcount := hs.counted h m0 hm0
      have hmore : ¬m0.refCount ≤ 1 := fun hle =>
        hkeep ⟨orphanOf_eq_some.mpr ⟨hname, m0, hm0, hle⟩, rfl, hs.clean h m0 hm0⟩
      unfold dropRef
      rw [if_neg (by omega)]
      simp only
      omega
    · rw [if_neg hname, Nat.add_zero] at hdel
      rw [hdel]
      exact hs.counted h m hm
  · -- named: a hash whose last name went is orphaned, and its record with it
    intro h m hm
    rw [hr.ns]
    by_contra hno
    push Not at hno
    obtain ⟨hkeep, ⟨hname, m0, hm0, -⟩ | ⟨hname, hm⟩⟩ := hr.objects_cases hm
    · exact hkeep ⟨hs.orphanOf_last hname hno, rfl, hs.clean h m0 hm0⟩
    · obtain ⟨n, hn⟩ := hs.named h m hm
      have hne : n ≠ name := by
        rintro rfl
        exact hname hn
      exact hno n ((Bucket.get_del_ne _ hne).trans hn)
  · -- clean
    intro h m hm
    obtain ⟨-, ⟨-, m0, hm0, -⟩ | ⟨-, hm⟩⟩ := hr.objects_cases hm
    · exact hs.clean h m0 hm0
    · exact hs.clean h m hm
  · -- recorded: the orphan has no other name
    intro n h hn
    rw [hr.ns, Bucket.get_del] at hn
    split_ifs at hn with hnn
    obtain ⟨m, hm⟩ := hs.recorded n h hn
    have hkept : ¬(orphanOf s.db name = some h ∧ DeleteOk none h) := by
      rintro ⟨ho, -⟩
      obtain ⟨hname, m', hm', hle⟩ := orphanOf_eq_some.mp ho
      have hdel := namesOn_del s.db.ns name h
      have hpos : 0 < namesOn (s.db.ns.del name) h :=
        namesOn_pos ((Bucket.get_del_ne _ hnn).trans hn)
      rw [if_pos hname] at hdel
      have := hs.counted h m' hm'
      omega
    rw [hr.objects, if_neg hkept]
    split_ifs
    · exact ⟨_, by rw [hm]; rfl⟩
    · exact ⟨m, hm⟩

theorem exact_step {s : CASStore β} {o : CallerOp} (hs : Exact s.db) (ho : s.NewName o) :
    Exact (s.callerStep o).db := by
  cases o with
  | put now name hash size remotePath content =>
    rw [callerStep]
    cases hput : s.put none now name hash size remotePath content with
    | mk res s' =>
      cases res with
      | ok read =>
        obtain ⟨hhash, hw, -, -⟩ := put_ok hput
        exact hs.written ho hhash hw
      | error e =>
        obtain ⟨-, hdb, -⟩ := put_error hput
        simp only [hdb]
        exact hs
  | delete now name =>
    rw [callerStep]
    rcases delete_cases s none now name with ⟨-, hsame⟩ | hr
    · rw [hsame]
      exact hs
    · exact hs.removed hr

theorem removed_at_once {s : CASStore β} {o : CallerOp} (hs : Exact s.db) (ho : s.NewName o)
    {n h : Bytes} (hn : s.db.ns.get n = some h)
    (hgone : ∀ n', (s.callerStep o).db.ns.get n' ≠ some h) :
    (s.callerStep o).db.objects.get h = none ∧ (s.callerStep o).bytes h = none := by
  cases o with
  | put now name hash size remotePath content =>
    -- A put of an unmapped name takes no name away.
    exfalso
    rw [callerStep] at hgone
    cases hput : s.put none now name hash size remotePath content with
    | mk res s' =>
      simp only [hput] at hgone
      cases res with
      | ok read =>
        obtain ⟨-, hw, -, -⟩ := put_ok hput
        have hne : n ≠ name := by
          rintro rfl
          rw [show s.db.ns.get n = none from ho] at hn
          cases hn
        rw [hw.ns] at hgone
        exact hgone n ((Bucket.get_set_ne _ _ _ hne).trans hn)
      | error e =>
        obtain ⟨-, hdb, -⟩ := put_error hput
        rw [hdb] at hgone
        exact hgone n hn
  | delete now name =>
    rw [callerStep] at hgone ⊢
    rcases delete_cases s none now name with ⟨-, hsame⟩ | hr
    · rw [hsame] at hgone
      exact absurd hn (hgone n)
    · rw [hr.ns] at hgone
      have hname : s.db.ns.get name = some h := by
        rcases eq_or_ne n name with rfl | hne
        · exact hn
        · exact absurd ((Bucket.get_del_ne _ hne).trans hn) (hgone n)
      obtain ⟨m, hm⟩ := hs.recorded name h hname
      have horphan : orphanOf s.db name = some h ∧ DeleteOk none h :=
        ⟨hs.orphanOf_last hname hgone, rfl, hs.clean h m hm⟩
      exact ⟨(hr.objects h).trans (if_pos horphan), (hr.bytes h).trans (if_pos horphan)⟩

/-- CORRECT: in a run of puts of unmapped names and deletes over a back end that does not fail, no
    record is without a name, and a hash that loses its last name in one further call loses its
    record and its bytes in that call. -/
theorem no_leak_after_run (cfg : CASConfig) (b : β) (ops : List CallerOp)
    (hg : Guarded callerStep NewName (fresh cfg b) ops) :
    (∀ h, (∀ n, (run callerStep (fresh cfg b) ops).db.ns.get n ≠ some h) →
      (run callerStep (fresh cfg b) ops).db.objects.get h = none) ∧
    ∀ o, (run callerStep (fresh cfg b) ops).NewName o → ∀ n h,
      (run callerStep (fresh cfg b) ops).db.ns.get n = some h →
      (∀ n', ((run callerStep (fresh cfg b) ops).callerStep o).db.ns.get n' ≠ some h) →
      ((run callerStep (fresh cfg b) ops).callerStep o).db.objects.get h = none ∧
        ((run callerStep (fresh cfg b) ops).callerStep o).bytes h = none := by
  have hexact : Exact (run callerStep (fresh cfg b) ops).db :=
    run_invariant (fun s : CASStore β => Exact s.db) (fun s o hs ho => exact_step hs ho) exact_empty hg
  refine ⟨fun h hno => ?_, fun o ho n h hn hgone => removed_at_once hexact ho hn hgone⟩
  by_contra hsome
  obtain ⟨m, hm⟩ := Option.ne_none_iff_exists'.mp hsome
  obtain ⟨n, hn⟩ := hexact.named h m hm
  exact hno n hn

end Runs

/-! ### Concrete runs -/

def sharedNamesRun : List CallerOp :=
  [.put 1 [97] [1] 1 [] (some ⟨[120], none⟩), .put 2 [98] [1] 1 [] (some ⟨[120], none⟩),
    .delete 3 [97], .put 4 [97] [2] 1 [] (some ⟨[121], none⟩)]

theorem no_leak_after_sharedNamesRun :
    ((run callerStep (fresh {} ({} : LocalBlobStore)) sharedNamesRun).callerStep
        (.delete 5 [98])).db.objects.get [1] = none ∧
      ((run callerStep (fresh {} ({} : LocalBlobStore)) sharedNamesRun).callerStep
        (.delete 5 [98])).bytes [1] = none := by
  refine (no_leak_after_run {} ({} : LocalBlobStore) sharedNamesRun (by decide +kernel)).2
    (.delete 5 [98]) trivial [98] [1] (by decide +kernel) ?_
  have hexact : ∀ e ∈ ((run callerStep (fresh {} ({} : LocalBlobStore)) sharedNamesRun).callerStep
      (.delete 5 [98])).db.ns.map.entries, e.2 ≠ [1] := by decide +kernel
  exact fun n hn => hexact (n, [1]) ((OMap.mem_entries _).mpr hn) rfl

def overwriteRun : List CallerOp :=
  [.put 1 [97] [1] 1 [] (some ⟨[120], none⟩), .put 2 [97] [2] 1 [] (some ⟨[121], none⟩)]

def reputRun : List CallerOp :=
  [.put 1 [97] [1] 1 [] (some ⟨[120], none⟩), .put 2 [97] [1] 1 [] (some ⟨[120], none⟩),
    .delete 3 [97]]

/-- After the run the first content has no name, its record has a count of one, and a collection
    changes neither the record nor the bytes. -/
def LeaksAfter (ops : List CallerOp) : Prop :=
  let s := run callerStep (fresh {} ({} : LocalBlobStore)) ops
  let s' := s.runGC (fun _ => none) 9 0
  (∀ e ∈ s.db.ns.map.entries, e.2 ≠ [1]) ∧
    s.db.objects.get [1] = some { size := 1, refCount := 1 } ∧
    s'.db.objects.get [1] = some { size := 1, refCount := 1 } ∧ s'.bytes [1] = some [120]

instance (ops : List CallerOp) : Decidable (LeaksAfter ops) := inferInstanceAs (Decidable (_ ∧ _))

theorem leak_after_overwrite : LeaksAfter overwriteRun ∧ LeaksAfter reputRun := by
  decide +kernel

end Momo.CASStore
