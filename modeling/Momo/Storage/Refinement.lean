import Momo.Storage.Books
import Momo.Schemes.Run

/-! @momo src/storage/storage.go, src/storage/gc.go
    scheme:simulation by an abstract name map

    What the store is for: a map from names to contents. The abstract machine keeps exactly that
    map; a put overwrites one name, a delete or a tombstone clears one, the collector does nothing.
    `Sim` relates a concrete store to its abstract map, each operation keeps it, and so a run of any
    length reads back what was last put. -/

namespace Momo.CASStore

variable {β : Type} [BlobStore β]

inductive Op
  | put (now : Int) (name hash : Bytes) (size : Int) (remotePath content : Bytes)
  | delete (io : Option Err) (now : Int) (name : Bytes)
  | applyTombstone (io : Option Err) (name : Bytes) (deletedAt : Int)
  | runGC (io : Bytes → Option Err) (now retention : Int)

def step (s : CASStore β) : Op → CASStore β
  | .put now name hash size remotePath content =>
    (s.put none now name hash size remotePath (some ⟨content, none⟩)).2
  | .delete io now name => (s.delete io now name).2
  | .applyTombstone io name deletedAt => (s.applyTombstone io name deletedAt).2
  | .runGC io now retention => s.runGC io now retention

/-! ### The abstract machine -/

abbrev Names := Bytes → Option Bytes

def Names.step (a : Names) : Op → Names
  | .put _ name _ _ _ content => Function.update a name (some content)
  | .delete _ _ name => Function.update a name none
  | .applyTombstone _ name _ => Function.update a name none
  | .runGC _ _ _ => a

def effectOn (name : Bytes) : Op → Option (Option Bytes)
  | .put _ n _ _ _ content => if n = name then some (some content) else none
  | .delete _ _ n => if n = name then some none else none
  | .applyTombstone _ n _ => if n = name then some none else none
  | .runGC _ _ _ => none

/-- The content of the last put of `name` that no delete or tombstone of `name` follows. -/
def lastPut (name : Bytes) (ops : List Op) : Option Bytes :=
  (ops.reverse.findSome? (effectOn name)).join

theorem names_run_eq_lastPut (name : Bytes) (ops : List Op) :
    run Names.step (fun _ => none) ops name = lastPut name ops := by
  induction ops using List.reverseRecOn with
  | nil => rfl
  | append_singleton ops o ih =>
    rw [run_append, lastPut, List.reverse_append, List.reverse_singleton, List.singleton_append,
      List.findSome?_cons]
    cases o with
    | put _ n _ _ _ content =>
      by_cases hn : n = name
      · subst hn; simp [effectOn, Names.step]
      · simpa [effectOn, Names.step, hn, Ne.symm hn, lastPut] using ih
    | delete _ _ n =>
      by_cases hn : n = name
      · subst hn; simp [effectOn, Names.step]
      · simpa [effectOn, Names.step, hn, Ne.symm hn, lastPut] using ih
    | applyTombstone _ n _ =>
      by_cases hn : n = name
      · subst hn; simp [effectOn, Names.step]
      · simpa [effectOn, Names.step, hn, Ne.symm hn, lastPut] using ih
    | runGC _ _ _ => simpa [effectOn, Names.step, lastPut] using ih

/-! ### The simulation -/

section Simulation

variable [Sha256] [MapBackend β]

/-- A store and the name map it stands for; `U` holds of every content ever put. -/
structure Sim (U : Bytes → Prop) (s : CASStore β) (a : Names) : Prop where
  barrier : BarrierOk s.cfg
  books : Books s.db
  stored : ∀ h m, s.db.objects.get h = some m → ∃ c, U c ∧ s.bytes h = some c ∧ hashBytes c = h
  agrees : ∀ n, s.db.ns.get n = (a n).map hashBytes
  known : ∀ n c, a n = some c → U c

def fresh (cfg : CASConfig) (b : β) : CASStore β := { cfg := cfg, blobs := b }

theorem sim_fresh (U : Bytes → Prop) {cfg : CASConfig} (hb : BarrierOk cfg) (b : β) :
    Sim U (fresh cfg b) (fun _ => none) where
  barrier := hb
  books := books_empty
  stored _ _ h := by cases h
  agrees _ := rfl
  known _ _ h := by cases h

variable {U : Bytes → Prop} {s s' : CASStore β} {a : Names} {now size : Int}
  {name remotePath c : Bytes}

theorem sim_written {f : PutFields} (hs : Sim U s a) (hU : U c) (hsize : 0 ≤ size)
    (hw : Written s s' now name (hashBytes c) size remotePath f)
    (hstored : ∀ h m, s'.db.objects.get h = some m →
      ∃ c, U c ∧ s'.bytes h = some c ∧ hashBytes c = h) :
    Sim U s' (Function.update a name (some c)) := by
  refine ⟨hw.cfg ▸ hs.barrier, books_written hs.books hsize hw, hstored, ?_, ?_⟩
  · -- agrees
    intro n
    rw [hw.ns, Bucket.get_set]
    by_cases hn : n = name
    · subst hn; simp
    · rw [if_neg hn, Function.update_of_ne hn]
      exact hs.agrees n
  · -- known
    intro n c' hn
    by_cases hnn : n = name
    · subst hnn
      rw [Function.update_self] at hn
      exact Option.some.inj hn ▸ hU
    · rw [Function.update_of_ne hnn] at hn
      exact hs.known n c' hn

theorem sim_put {read : Bytes} (hs : Sim U s a) (hU : U c) (hsize : 0 ≤ size)
    (h : s.put none now name (hashBytes c) size remotePath (some ⟨c, none⟩) = (.ok read, s')) :
    Sim U s' (Function.update a name (some c)) := by
  obtain ⟨-, hw, -, hbytes⟩ := put_ok h
  refine sim_written hs hU hsize hw ?_
  -- a hash taken for present has its bytes, the others are written now
  intro h m hm
  rw [hbytes, bytesAfter]
  by_cases hp : s.Holds (hashBytes c)
  · rw [if_pos hp]
    rcases hw.objects_cases hm with ⟨rfl, -⟩ | ⟨-, hm⟩
    · obtain ⟨m0, hm0⟩ := Option.isSome_iff_exists.mp hp.1
      exact hs.stored _ m0 hm0
    · exact hs.stored h m hm
  · rw [if_neg hp]
    rcases hw.objects_cases hm with ⟨rfl, -⟩ | ⟨hne, hm⟩
    · exact ⟨c, hU, Function.update_self .., rfl⟩
    · rw [Function.update_of_ne hne]
      exact hs.stored h m hm

theorem sim_reference {n : Bytes} {read : Bytes} (hs : Sim U s a) (hn : a n = some c)
    (hsize : 0 ≤ size) (h : s.put none now name (hashBytes c) size remotePath none = (.ok read, s'))
     :
    Sim U s' (Function.update a name (some c)) := by
  obtain ⟨-, hw, -, hbytes⟩ := put_ok h
  refine sim_written hs (hs.known n c hn) hsize hw ?_
  intro h m hm
  rw [hbytes, bytesAfter]
  rcases hw.objects_cases hm with ⟨rfl, -⟩ | ⟨-, hm⟩
  · obtain ⟨m0, hm0⟩ := hs.books.recorded n (hashBytes c) (by rw [hs.agrees n, hn, Option.map_some])
    exact hs.stored _ m0 hm0
  · exact hs.stored h m hm

theorem sim_put_error {io : Option Err} {hash : Bytes} {content : Option Reader} {e : Err}
    (hs : Sim U s a) (h : s.put io now name hash size remotePath content = (.error e, s')) :
    Sim U s' a := by
  obtain ⟨hcfg, hdb, hbytes⟩ := put_error h
  refine ⟨hcfg ▸ hs.barrier, hdb ▸ hs.books, ?_, hdb ▸ hs.agrees, hs.known⟩
  intro h' m hm
  rw [hdb] at hm
  obtain ⟨c, hU, hc, hhash⟩ := hs.stored h' m hm
  refine ⟨c, hU, ?_, hhash⟩
  rcases hbytes with hb | hb
  · rw [hb, hc]
  rw [hb]
  cases content with
  | none => exact hc
  | some r =>
    rw [bytesAfter]
    by_cases hp : s.Holds hash
    · rw [if_pos hp, hc]
    · have hne : h' ≠ hash := by
        rintro rfl
        exact hp ⟨by rw [hm]; rfl, Or.inr (by rw [hc]; rfl)⟩
      rw [if_neg hp, Function.update_of_ne hne, hc]

theorem sim_removed {io : Option Err} {at_ : Int} (hs : Sim U s a) (hr : Removed s s' io name at_) :
    Sim U s' (Function.update a name none) := by
  refine ⟨hr.cfg ▸ hs.barrier, books_removed hs.books hr, ?_, ?_, ?_⟩
  · -- stored
    intro h m hm
    obtain ⟨hkeep, hcase⟩ := hr.objects_cases hm
    rw [hr.bytes, if_neg hkeep]
    rcases hcase with ⟨-, m0, hm0, -⟩ | ⟨-, hm⟩
    · exact hs.stored h m0 hm0
    · exact hs.stored h m hm
  · -- agrees
    intro n
    rw [hr.ns, Bucket.get_del]
    by_cases hn : n = name
    · subst hn; simp
    · rw [if_neg hn, Function.update_of_ne hn]
      exact hs.agrees n
  · -- known
    intro n c hn
    by_cases hnn : n = name
    · subst hnn; simp at hn
    · rw [Function.update_of_ne hnn] at hn
      exact hs.known n c hn

/-! ### Runs -/

/-- A put as its callers make it: the hash is the content's, the name fits the name field, the
    path normalises. The other calls take any arguments. -/
def PutMatches : Op → Prop
  | .put _ name hash _ remotePath content =>
    hash = hashBytes content ∧ name.length ≤ fileInfoLength ∧
      (normalizeVirtualPath remotePath).isOk = true
  | _ => True

/-- The name is not empty (bbolt has no empty key) and the size not negative (`Get` refuses it). -/
def PutReadable : Op → Prop
  | .put _ name _ size _ _ => name ≠ [] ∧ 0 ≤ size
  | _ => True

def ValidOp (o : Op) : Prop := PutMatches o ∧ PutReadable o

instance : DecidablePred PutMatches := fun o => by
  cases o <;> unfold PutMatches <;> infer_instance

instance : DecidablePred PutReadable := fun o => by
  cases o <;> unfold PutReadable <;> infer_instance

instance : DecidablePred ValidOp := fun _ => inferInstanceAs (Decidable (_ ∧ _))

def content? : Op → Option Bytes
  | .put _ _ _ _ _ content => some content
  | _ => none

def CollisionFree (ops : List Op) : Prop :=
  ∀ c ∈ ops.filterMap content?, ∀ c' ∈ ops.filterMap content?, hashBytes c = hashBytes c' → c = c'

instance (ops : List Op) : Decidable (CollisionFree ops) := by
  unfold CollisionFree; infer_instance

theorem Sim.update_none (hs : Sim U s a) (hn : s.db.ns.get name = none) :
    Function.update a name none = a := by
  have ha := hs.agrees name
  rw [hn, eq_comm, Option.map_eq_none_iff] at ha
  rw [← ha, Function.update_eq_self]

theorem sim_remove (hs : Sim U s a) (io : Option Err) (name : Bytes) (at_ : Int) (te : Err → Err)
    (re : Err) : Sim U (s.remove io name at_ te re).2 (Function.update a name none) := by
  by_cases hn : KeyOk name
  · obtain ⟨s', hrem, hr⟩ := remove_ok s io at_ te re hn
    rw [hrem]
    exact sim_removed hs hr
  · obtain ⟨e, hrem⟩ := remove_refused s io at_ te re hn
    have hns : s.db.ns.get name = none := by
      by_contra hc
      obtain ⟨h, hh⟩ := Option.ne_none_iff_exists'.mp hc
      exact hn (Bucket.keyOk_of_get hh)
    rw [hrem, hs.update_none hns]
    exact hs

theorem sim_step (o : Op) (hs : Sim U s a) (ho : ValidOp o) (hU : ∀ c, content? o = some c → U c) :
    Sim U (s.step o) (Names.step a o) := by
  cases o with
  | put now name hash size remotePath c =>
    obtain ⟨⟨rfl, hlen, hpath⟩, hne, hsize⟩ := ho
    have hnk : KeyOk name := ⟨hne, hlen.trans (by decide)⟩
    obtain ⟨paths, hpaths⟩ := (putPath_isOk s.db.paths hnk remotePath).mpr (Or.inr hpath)
    obtain ⟨s', hput⟩ := put_succeeds now size c {} (hasPathTraversalChars_hashBytes c) hs.barrier
      hne hlen (keyOk_hashBytes c) hpaths
    have hstep : s.step (.put now name (hashBytes c) size remotePath c) = s' := by
      rw [step, put, hput]
    rw [hstep]
    exact sim_put hs (hU c rfl) hsize hput
  | delete io now name => exact sim_remove hs io name now _ _
  | applyTombstone io name deletedAt =>
    rw [step, applyTombstone, Names.step]
    cases ht : s.db.tombstones.get name with
    | none => exact sim_remove hs io name deletedAt _ _
    | some ts =>
      simp only
      split_ifs with hts
      · -- an older tombstone than the recorded one: the name is already gone
        rw [hs.update_none (hs.books.hidden name ts ht)]
        exact hs
      · exact sim_remove hs io name deletedAt _ _
  | runGC io now retention =>
    rw [step, runGC, sweepOrphanedBlobs_eq, Names.step]
    refine { hs with books := { hs.books with hidden := fun n t ht => ?_ } }
    simp only [sweepExpiredTombstones] at ht
    rw [Bucket.get_prune, Option.filter_eq_some_iff] at ht
    exact hs.books.hidden n t ht.1

theorem Sim.get_eq (hs : Sim U s a)
    (hinj : ∀ c c', U c → U c' → hashBytes c = hashBytes c' → c = c') (name : Bytes) :
    match a name with
    | some c => ∃ st m, s.get name = (.ok (st, m), s) ∧ st.readAll = (c, none) ∧
        m.name = name ∧ m.hash = hashBytes c
    | none => s.get name = (.error (.sys .enoent), s) := by
  have hag := hs.agrees name
  cases ha : a name with
  | none =>
    rw [ha] at hag
    exact get_unmapped s (Or.inr hag)
  | some c =>
    rw [ha, Option.map_some] at hag
    obtain ⟨m, hm⟩ := hs.books.recorded name _ hag
    obtain ⟨c', hU', hc', hhash⟩ := hs.stored _ m hm
    obtain rfl := hinj c' c hU' (hs.known name c ha) hhash
    refine ⟨_, _, get_mapped s (hs.books.visible hag) hag (hs.books.unmarked _) hc' hm
      (hs.books.sized _ m hm), ?_, rfl, rfl⟩
    cases hv : s.cfg.verifyOnRead <;> simp [Stream.readAll]

theorem sim_run {cfg : CASConfig} (b : β) {ops : List Op} (hb : BarrierOk cfg)
    (hops : ∀ o ∈ ops, ValidOp o) :
    Sim (fun c => c ∈ ops.filterMap content?) (run step (fresh cfg b) ops)
      (run Names.step (fun _ => none) ops) := by
  have hg : Guarded step (fun _ o => ValidOp o ∧ o ∈ ops) (fresh cfg b) ops :=
    guarded_of_forall _ (fun o ho => ⟨hops o ho, ho⟩)
  refine run_simulation ?_ (sim_fresh _ hb b) hg
  rintro s a o hs ⟨ho, hmem⟩
  exact sim_step o hs ho (fun c hc => List.mem_filterMap.mpr ⟨o, hmem, hc⟩)

/-- CORRECT: after any run of valid calls, whatever deletes the back end fails, a read returns the
    last put of its name or ENOENT, and every mapped name still has its record and its bytes. -/
theorem get_after_run (cfg : CASConfig) (b : β) (ops : List Op) (hb : BarrierOk cfg)
    (hops : ∀ o ∈ ops, ValidOp o) (hfree : CollisionFree ops) (name : Bytes) :
    (match lastPut name ops with
      | some c => ∃ st m, (run step (fresh cfg b) ops).get name =
            (.ok (st, m), run step (fresh cfg b) ops) ∧
          st.readAll = (c, none) ∧ m.name = name ∧ m.hash = hashBytes c
      | none => (run step (fresh cfg b) ops).get name =
          (.error (.sys .enoent), run step (fresh cfg b) ops)) ∧
    ∀ n h, (run step (fresh cfg b) ops).db.ns.get n = some h →
      ∃ m c, (run step (fresh cfg b) ops).db.objects.get h = some m ∧
        (run step (fresh cfg b) ops).bytes h = some c ∧ hashBytes c = h := by
  have hs := sim_run b hb hops
  refine ⟨?_, fun n h hn => ?_⟩
  · rw [← names_run_eq_lastPut]
    exact hs.get_eq (fun c c' hc hc' => hfree c hc c' hc') name
  · obtain ⟨m, hm⟩ := hs.books.recorded n h hn
    obtain ⟨c, -, hc, hhash⟩ := hs.stored h m hm
    exact ⟨m, c, hm, hc, hhash⟩

/-- INVARIANT: after any run of valid calls every mapped name is visible and its record counts at
    least the names on it, and every record's bytes are there under their own hash. -/
theorem references_after_run (cfg : CASConfig) (b : β) (ops : List Op) (hb : BarrierOk cfg)
    (hops : ∀ o ∈ ops, ValidOp o) :
    let s := run step (fresh cfg b) ops
    (∀ n h, s.db.ns.get n = some h → s.db.tombstones.get n = none ∧
      ∃ m, s.db.objects.get h = some m ∧ (namesOn s.db.ns h : Int) ≤ m.refCount) ∧
    ∀ h m, s.db.objects.get h = some m → ∃ c, s.bytes h = some c ∧ hashBytes c = h := by
  have hs := sim_run b hb hops
  refine ⟨fun n h hn => ?_, fun h m hm => ?_⟩
  · obtain ⟨m, hm⟩ := hs.books.recorded n h hn
    exact ⟨hs.books.visible hn, m, hm, hs.books.counted h m hm⟩
  · obtain ⟨c, -, hc⟩ := hs.stored h m hm
    exact ⟨c, hc⟩

end Simulation

/-! ### Concrete runs on the local back end -/

section Runs

local instance : Sha256 := sampleSha

def sharedRun : List Op :=
  [.put 1 [97] (hashBytes [97]) 1 [] [97], .put 2 [98] (hashBytes [97]) 1 [120, 47, 121] [97],
    .delete (some LocalBlobStore.deleteErr) 3 [97], .runGC (fun _ => none) 4 0,
    .put 5 [97] (hashBytes [98]) 1 [] [98], .applyTombstone none [97] 6]

def localRun (ops : List Op) : CASStore LocalBlobStore := run step (fresh {} {}) ops

theorem get_after_sharedRun :
    (∀ o ∈ sharedRun, ValidOp o) ∧ CollisionFree sharedRun ∧
    (∃ st m, (localRun sharedRun).get [98] = (.ok (st, m), localRun sharedRun) ∧
      st.readAll = ([97], none) ∧ m.name = [98] ∧ m.hash = hashBytes [97]) ∧
    (localRun sharedRun).get [97] = (.error (.sys .enoent), localRun sharedRun) := by
  have hops : ∀ o ∈ sharedRun, ValidOp o := by decide +kernel
  have hfree : CollisionFree sharedRun := by decide +kernel
  have hb : BarrierOk {} := by rintro commit ⟨⟩
  have h98 := (get_after_run {} ({} : LocalBlobStore) sharedRun hb hops hfree [98]).1
  have h97 := (get_after_run {} ({} : LocalBlobStore) sharedRun hb hops hfree [97]).1
  rw [show lastPut [98] sharedRun = some [97] by decide +kernel] at h98
  rw [show lastPut [97] sharedRun = none by decide +kernel] at h97
  exact ⟨hops, hfree, h98, h97⟩

theorem references_after_sharedRun : (localRun sharedRun).db.ns.get [98] = some (hashBytes [97]) ∧
    ∃ m, (localRun sharedRun).db.objects.get (hashBytes [97]) = some m ∧
      (namesOn (localRun sharedRun).db.ns (hashBytes [97]) : Int) ≤ m.refCount := by
  have hns : (localRun sharedRun).db.ns.get [98] = some (hashBytes [97]) := by decide +kernel
  have hb : BarrierOk {} := by rintro commit ⟨⟩
  have hops : ∀ o ∈ sharedRun, ValidOp o := by decide +kernel
  have hrefs := (references_after_run {} ({} : LocalBlobStore) sharedRun hb hops).1
  rw [← localRun] at hrefs
  exact ⟨hns, (hrefs [98] (hashBytes [97]) hns).2⟩

/-- Without the two side conditions a put is not read back: a negative size is stored and then
    refused by `Get`, and an empty name is refused by the database. -/
theorem get_after_unreadable_put :
    (∀ o ∈ [Op.put 1 [97] (hashBytes [97]) (-1) [] [97]], PutMatches o) ∧
    lastPut [97] [Op.put 1 [97] (hashBytes [97]) (-1) [] [97]] = some [97] ∧
    ((localRun [Op.put 1 [97] (hashBytes [97]) (-1) [] [97]]).get [97]).1 =
      .error (.wrap "invalid size %d for hash %s: %w" [.num (-1), .str (hashBytes [97])]
        (.sys .ebadmsg)) ∧
    (∀ o ∈ [Op.put 1 [] (hashBytes [97]) 1 [] [97]], PutMatches o) ∧
    lastPut [] [Op.put 1 [] (hashBytes [97]) 1 [] [97]] = some [97] ∧
    ((localRun [Op.put 1 [] (hashBytes [97]) 1 [] [97]]).get []).1 = .error (.sys .enoent) := by
  decide +kernel

end Runs

end Momo.CASStore
