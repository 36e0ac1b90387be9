import Momo.Storage.LocalDisk

/-! @momo src/storage/storage.go, src/storage/local_blobstore.go, src/storage/durability.go
    scheme:state machine, crash at any point

    Puts over the local back end in durability mode fsync, call by call, with crashes in between.
    The store's lock lets one put run at a time. -/

namespace Momo

open CrashFS

namespace CrashSafety

/-- The arguments of a `Put`, and the number its temporary file draws. -/
structure PutArgs where
  name : Bytes
  hash : Bytes
  size : Int
  remotePath : Bytes
  content : Option Reader
  random : Bytes

inductive Stage
  | blob (todo : List LocalDisk.Call)
  | barrier
  | commit

/-- A store, the put that holds its lock, and the content of the last acknowledged put of every
    name, to speak about. -/
structure State where
  store : CASStore LocalDisk
  putting : Option (PutArgs × Stage) := none
  acked : OMap Bytes Bytes := OMap.empty

def State.init (cfg : CASConfig) (syncEnabled : Bool) : State :=
  { store := { cfg := cfg, blobs := { syncEnabled := syncEnabled } } }

inductive Op
  | put (args : PutArgs)
  | advance (now : Int) (fault : Option Errno)
  | writeBackFile (inode : ℕ)
  | writeBackDir (inode : ℕ)
  | crash

namespace State

variable [Sha256]

def fs (s : State) : FS Bytes UInt8 := s.store.blobs.fs

def setBlobs (s : State) (d : LocalDisk) : State := { s with store := { s.store with blobs := d } }

def fails (s : State) : State := { s with putting := none }

/-- The beginning of `PutWithMetadata`, up to the decision whether to write the bytes. -/
def begin (s : State) (args : PutArgs) : State :=
  if hasPathTraversalChars args.hash then s
  else
    match s.store.blobPresent args.hash, args.content with
    | .error _, _ => s
    | .ok _, none => { s with putting := some (args, .commit) }
    | .ok true, some r =>
      match CASStore.drain r with
      | .error _ => s
      | .ok _ => { s with putting := some (args, .commit) }
    | .ok false, some r =>
      { s.setBlobs { s.store.blobs with random := args.random } with
        putting := some (args,
          .blob (LocalDisk.calls s.store.blobs.syncEnabled (LocalDisk.blobPath args.hash) r)) }

def advanceBlob (s : State) (args : PutArgs) (fault : Option Errno) : List LocalDisk.Call → State
  | [] => { s with putting := some (args, .barrier) }
  | c :: cs =>
    match fault, s.store.blobs.exec c with
    | none, .ok d => { s.setBlobs d with putting := some (args, .blob cs) }
    | _, _ => (s.setBlobs s.store.blobs.abort).fails

/-- `fsyncBarrier.Commit`. -/
def advanceBarrier (s : State) (args : PutArgs) (fault : Option Errno) : State :=
  match fault, s.store.blobs.syncBlob args.hash with
  | none, .ok d => { s.setBlobs d with putting := some (args, .commit) }
  | _, _ => s.fails

def advanceCommit (s : State) (args : PutArgs) (now : Int) (fault : Option Errno) : State :=
  match fault, CASStore.putTx now args.name args.hash args.size args.remotePath {} s.store.db with
  | none, .ok db =>
    { store := { s.store with db := db }
      putting := none
      acked := match args.content with
        | some r => s.acked.put args.name r.data
        | none => s.acked.del args.name }
  | _, _ => s.fails

/-- The machine stops and the store is opened again: the database is as it was committed, the
    file system as it is on disk. -/
def crash (s : State) : State :=
  { s.setBlobs { s.store.blobs with fs := s.fs.crash, temp := none } with putting := none }

def step (s : State) : Op → State
  | .put args =>
    match s.putting with
    | some _ => s
    | none => s.begin args
  | .advance now fault =>
    match s.putting with
    | none => s
    | some (args, .blob todo) => s.advanceBlob args fault todo
    | some (args, .barrier) => s.advanceBarrier args fault
    | some (args, .commit) => s.advanceCommit args now fault
  | .writeBackFile inode => s.setBlobs { s.store.blobs with fs := s.fs.fsync inode }
  | .writeBackDir inode => s.setBlobs { s.store.blobs with fs := s.fs.fsyncDir inode }
  | .crash => s.crash

/-! ### What is promised, and when -/

def Kept (s : State) : Prop :=
  ∀ name c, s.acked.get name = some c →
    ∃ st m, (s.crash.store.get name).1 = .ok (st, m) ∧ st.readAll = (c, none)

def NoClash (fs : FS Bytes UInt8) (c : Bytes) : Option CrashFS.Node → Prop
  | some (.file i) => hashBytes (fs.live.data i) = hashBytes c → fs.live.data i = c
  | _ => True

def OwnHash (s : State) (args : PutArgs) : Option Reader → Prop
  | none => False
  | some r => args.hash = hashBytes r.data ∧ 0 ≤ args.size ∧
      NoClash s.fs r.data (walk s.fs.live.names 0 (LocalDisk.blobPath args.hash))

def EntriesOnDisk (s : State) (hash : Bytes) : Prop :=
  (walk s.fs.settled 0 (LocalDisk.blobPath hash)).isSome = true

def CommitsInTime (s : State) : Option (PutArgs × Stage) → Prop
  | some (args, .commit) => s.EntriesOnDisk args.hash
  | _ => True

/-- The condition: puts bring their own hash, and when one commits, the system has written the
    directories of its blob back. -/
def InTime (s : State) : Op → Prop
  | .put args => s.OwnHash args args.content
  | .advance _ _ => s.CommitsInTime s.putting
  | _ => True

/-! ### The invariant -/

def Held (d : LocalDisk) (c : Bytes) : Prop :=
  ∃ i, d.fs.Settled (LocalDisk.blobPath (hashBytes c)) i c ∧ ∀ t, d.temp = some t → t.2 ≠ i

def Named (d : LocalDisk) (c : Bytes) (i : ℕ) : Prop :=
  walk d.fs.live.names 0 (LocalDisk.blobPath (hashBytes c)) = some (.file i) ∧
    d.fs.live.data i = c ∧ i < d.fs.next ∧ ∀ t, d.temp = some t → t.2 ≠ i

/-- What is left of the calls of a put of `r`, and what the ones made have left behind. -/
inductive Left (d : LocalDisk) (r : Reader) : List LocalDisk.Call → Prop
  | preparing (pre : List LocalDisk.Call) (sync : Bool)
      (hpre : ∀ c ∈ pre, c = .statfs ∨ ∃ dir, c = .mkdir dir) :
      Left d r (pre ++ .createTemp :: .write r :: (LocalDisk.finishing sync ++
        [.rename (LocalDisk.blobPath (hashBytes r.data))]))
  | created (t : Bytes × ℕ) (sync : Bool) (ht : d.temp = some t) (hlt : t.2 < d.fs.next) :
      Left d r (.write r :: (LocalDisk.finishing sync ++
        [.rename (LocalDisk.blobPath (hashBytes r.data))]))
  | written (t : Bytes × ℕ) (pre : List LocalDisk.Call) (ht : d.temp = some t)
      (hlt : t.2 < d.fs.next) (hdata : d.fs.live.data t.2 = r.data)
      (hpre : ∀ c ∈ pre, c = .flush ∨ c = .fsync ∨ c = .close) :
      Left d r (pre ++ [.rename (LocalDisk.blobPath (hashBytes r.data))])
  | renamed (i : ℕ) (hi : Named d r.data i) : Left d r []

def UnderWay (s : State) (args : PutArgs) : Stage → Prop
  | .blob todo => ∃ r, args.content = some r ∧ args.hash = hashBytes r.data ∧ 0 ≤ args.size ∧
      s.store.db.objects.get args.hash = none ∧ Left s.store.blobs r todo
  | .barrier => ∃ r i, args.content = some r ∧ args.hash = hashBytes r.data ∧ 0 ≤ args.size ∧
      Named s.store.blobs r.data i
  | .commit => ∃ r i, args.content = some r ∧ args.hash = hashBytes r.data ∧ 0 ≤ args.size ∧
      Named s.store.blobs r.data i ∧ s.fs.disk.data i = r.data

structure Books (s : State) : Prop where
  quarantine : ∀ h, s.store.db.quarantine.get h = none
  size : ∀ h m, s.store.db.objects.get h = some m → 0 ≤ m.size
  objects : ∀ h m, s.store.db.objects.get h = some m → ∃ c, h = hashBytes c ∧ Held s.store.blobs c
  acked : ∀ n c, s.acked.get n = some c → s.store.db.ns.get n = some (hashBytes c) ∧
    s.store.db.tombstones.get n = none ∧ (s.store.db.objects.get (hashBytes c)).isSome = true ∧
    Held s.store.blobs c

structure Inv (s : State) : Prop where
  books : Books s
  underWay : ∀ args stage, s.putting = some (args, stage) → s.UnderWay args stage

/-! ### One call -/

section Calls

variable {d d' : LocalDisk} {c : Bytes} {r : Reader}

theorem Held.exec {call : LocalDisk.Call} (h : Held d c) (hx : d.exec call = .ok d')
    (hren : ∀ path, call = .rename path →
      ∃ x, path = LocalDisk.blobPath (hashBytes x) ∧ hashBytes x ≠ hashBytes c) : Held d' c := by
  obtain ⟨i, hi, htemp⟩ := h
  cases call with
  | statfs | flush | close =>
    obtain rfl : d = d' := Except.ok.inj hx
    exact ⟨i, hi, htemp⟩
  | mkdir dir =>
    simp only [LocalDisk.exec, LocalDisk.mkdir] at hx
    split at hx
    · split at hx
      · obtain rfl : d = d' := Except.ok.inj hx
        exact ⟨i, hi, htemp⟩
      · cases hx
      · next hfree =>
        obtain rfl := Except.ok.inj hx
        exact ⟨i, hi.mkdir hfree, htemp⟩
    · cases hx
  | createTemp =>
    simp only [LocalDisk.exec, LocalDisk.createTemp] at hx
    split at hx
    · cases hx
    · obtain rfl := Except.ok.inj hx
      have hset := hi.setEntry (LocalDisk.tempName_notMem_blobPath d.random c) 0
        (some (.file d.fs.next))
      refine ⟨i, hset.next (Nat.le_succ _), ?_⟩
      intro t ht
      obtain rfl := Option.some.inj ht
      exact hi.lt_next.ne'
  | write content =>
    simp only [LocalDisk.exec, LocalDisk.writeTemp] at hx
    split at hx
    · next random inode ht _ =>
      obtain rfl := Except.ok.inj hx
      exact ⟨i, hi.write (htemp _ ht).symm content.data, htemp⟩
    · cases hx
  | fsync =>
    simp only [LocalDisk.exec, LocalDisk.fsyncTemp] at hx
    split at hx
    · obtain rfl := Except.ok.inj hx
      exact ⟨i, hi.fsync _, htemp⟩
    · cases hx
  | rename path =>
    obtain ⟨x, rfl, hne⟩ := hren path rfl
    simp only [LocalDisk.exec, LocalDisk.renameTemp, LocalDisk.getLast?_blobPath] at hx
    split at hx
    · next random inode parent name _ _ hname =>
      obtain rfl := Option.some.inj hname
      split at hx
      · cases hx
      · obtain rfl := Except.ok.inj hx
        have hdropped := hi.setEntry (LocalDisk.tempName_notMem_blobPath random c) 0 none
        exact ⟨i, hdropped.setEntry (LocalDisk.hashBytes_notMem_blobPath hne) parent _, by simp⟩
    · cases hx

theorem Held.abort (h : Held d c) : Held d.abort c := by
  obtain ⟨i, hi, htemp⟩ := h
  unfold LocalDisk.abort
  split
  · exact ⟨i, hi.setEntry (LocalDisk.tempName_notMem_blobPath _ c) 0 none, by simp⟩
  · exact ⟨i, hi, htemp⟩

/-- Step: the calls of a put, one by one, up to the blob under its name. -/
theorem Left.exec {call : LocalDisk.Call} {cs : List LocalDisk.Call} (h : Left d r (call :: cs))
    (hx : d.exec call = .ok d') : Left d' r cs := by
  generalize htodo : call :: cs = todo at h
  cases h with
  | preparing pre sync hpre =>
    cases pre with
    | nil =>
      obtain ⟨rfl, rfl⟩ := List.cons.inj htodo
      simp only [LocalDisk.exec, LocalDisk.createTemp] at hx
      split at hx
      · cases hx
      · obtain rfl := Except.ok.inj hx
        exact .created (d.random, d.fs.next) sync rfl (Nat.lt_succ_self _)
    | cons c pre =>
      obtain ⟨rfl, rfl⟩ := List.cons.inj htodo
      exact .preparing pre sync (fun c hc => hpre c (List.mem_cons_of_mem _ hc))
  | created t sync ht hlt =>
    obtain ⟨rfl, rfl⟩ := List.cons.inj htodo
    simp only [LocalDisk.exec, LocalDisk.writeTemp, ht] at hx
    split at hx
    · next heq _ =>
      obtain rfl := Option.some.inj heq
      obtain rfl := Except.ok.inj hx
      refine .written _ _ rfl hlt (by simp [FS.write]) ?_
      intro c hc
      cases sync <;> simp [LocalDisk.finishing] at hc <;> tauto
    · cases hx
  | written t pre ht hlt hdata hpre =>
    cases pre with
    | nil =>
      obtain ⟨rfl, rfl⟩ := List.cons.inj htodo
      simp only [LocalDisk.exec, LocalDisk.renameTemp, ht, LocalDisk.getLast?_blobPath,
        LocalDisk.dropLast_blobPath] at hx
      split at hx
      · next random inode parent name htemp hparent hname =>
        obtain rfl := Option.some.inj htemp
        obtain rfl := Option.some.inj hname
        split at hx
        · cases hx
        · obtain rfl := Except.ok.inj hx
          refine .renamed inode ⟨?_, hdata, hlt, by simp⟩
          rw [LocalDisk.blobPath_hashBytes, ← List.cons_append]
          exact FS.walk_rename hparent (LocalDisk.tempName_notMem_dirs _ _)
            (LocalDisk.hashBytes_notMem_dirs _ _)
      · cases hx
    | cons c pre =>
      obtain ⟨rfl, rfl⟩ := List.cons.inj htodo
      have hpre' : ∀ c ∈ pre, c = .flush ∨ c = .fsync ∨ c = .close :=
        fun c hc => hpre c (List.mem_cons_of_mem _ hc)
      rcases hpre _ (List.mem_cons_self ..) with rfl | rfl | rfl
      · obtain rfl : d = d' := Except.ok.inj hx
        exact .written t pre ht hlt hdata hpre'
      · simp only [LocalDisk.exec, LocalDisk.fsyncTemp, ht] at hx
        obtain rfl := Except.ok.inj hx
        exact .written t pre rfl hlt hdata hpre'
      · obtain rfl : d = d' := Except.ok.inj hx
        exact .written t pre ht hlt hdata hpre'
  | renamed i hi => cases htodo

theorem Left.named (h : Left d r []) : ∃ i, Named d r.data i := by
  generalize htodo : [] = todo at h
  cases h with
  | preparing pre _ _ => cases pre <;> cases htodo
  | created => cases htodo
  | written _ pre _ _ _ _ => cases pre <;> cases htodo
  | renamed i hi => exact ⟨i, hi⟩

theorem Left.rename_path {path : List Bytes} {cs : List LocalDisk.Call}
    (h : Left d r (.rename path :: cs)) : path = LocalDisk.blobPath (hashBytes r.data) := by
  generalize htodo : LocalDisk.Call.rename path :: cs = todo at h
  cases h with
  | preparing pre sync hpre =>
    cases pre with
    | nil => cases htodo
    | cons c pre =>
      obtain ⟨rfl, -⟩ := List.cons.inj htodo
      rcases hpre _ (List.mem_cons_self ..) with h | ⟨dir, h⟩ <;> cases h
  | created => cases htodo
  | written t pre _ _ _ hpre =>
    cases pre with
    | nil => exact LocalDisk.Call.rename.inj (List.cons.inj htodo).1
    | cons c pre =>
      obtain ⟨rfl, -⟩ := List.cons.inj htodo
      rcases hpre _ (List.mem_cons_self ..) with h | h | h <;> cases h
  | renamed => cases htodo

end Calls

/-! ### One step of a put -/

section Steps

variable {s : State} {args : PutArgs}

theorem Books.setBlobs (hb : Books s) {d : LocalDisk} (hheld : ∀ c,
    (s.store.db.objects.get (hashBytes c)).isSome = true → Held s.store.blobs c → Held d c) :
    Books (s.setBlobs d) where
  quarantine := hb.quarantine
  size := hb.size
  objects h m hm := by
    obtain ⟨c, rfl, hc⟩ := hb.objects h m hm
    exact ⟨c, rfl, hheld c (by rw [show s.store.db.objects.get (hashBytes c) = some m from hm]; rfl) hc⟩
  acked n c hc := by
    obtain ⟨hns, htomb, hobj, hheldc⟩ := hb.acked n c hc
    exact ⟨hns, htomb, hobj, hheld c hobj hheldc⟩

theorem Books.putting (hb : Books s) (p : Option (PutArgs × Stage)) :
    Books { s with putting := p } := ⟨hb.quarantine, hb.size, hb.objects, hb.acked⟩

theorem Inv.fails (hb : Books s) : Inv s.fails :=
  ⟨hb.putting none, fun _ _ h => by simp [State.fails] at h⟩

theorem named_of_present (hb : Books s) {r : Reader} (hc : args.content = some r)
    (hown : s.OwnHash args args.content) (hhas : s.store.hasInternal args.hash = true) :
    ∃ i, Named s.store.blobs r.data i ∧ s.fs.disk.data i = r.data := by
  rw [hc] at hown
  obtain ⟨hhash, -, hcoll⟩ := hown
  obtain ⟨m, hm⟩ := Option.isSome_iff_exists.mp hhas
  obtain ⟨c, hcc, i, hi, htemp⟩ := hb.objects _ m hm
  have hwalk : walk s.fs.live.names 0 (LocalDisk.blobPath args.hash) = some (.file i) := by
    rw [hcc]
    exact hi.walk_live
  rw [hwalk] at hcoll
  have hlive : s.fs.live.data i = c := hi.live
  have hsame : c = r.data := by
    rw [← hlive]
    exact hcoll (by rw [hlive, ← hcc, hhash])
  subst hsame
  exact ⟨i, ⟨hi.walk_live, hi.live, hi.lt_next, htemp⟩, hi.disk⟩

theorem Inv.begin (hi : Inv s) (hown : s.OwnHash args args.content) : Inv (s.begin args) := by
  obtain ⟨r, hc⟩ : ∃ r, args.content = some r := by
    cases hc : args.content with
    | none => rw [hc] at hown; exact hown.elim
    | some r => exact ⟨r, rfl⟩
  have hfacts := hown
  rw [hc] at hfacts
  obtain ⟨hhash, hsize, -⟩ := hfacts
  unfold State.begin
  rw [hhash, hasPathTraversalChars_hashBytes, if_neg Bool.false_ne_true, ← hhash, hc]
  cases hhas : s.store.hasInternal args.hash with
  | false =>
    have hpresent : s.store.blobPresent args.hash = .ok false := by simp [CASStore.blobPresent, hhas]
    have hnone : s.store.db.objects.get args.hash = none := by
      simpa [CASStore.hasInternal] using hhas
    rw [hpresent]
    simp only
    refine ⟨(hi.books.setBlobs (d := { s.store.blobs with random := args.random })
      fun c _ h => h).putting _, ?_⟩
    rintro a stage hput
    obtain ⟨rfl, rfl⟩ := Prod.mk.inj (Option.some.inj hput)
    refine ⟨r, hc, hhash, hsize, hnone, ?_⟩
    rw [hhash, LocalDisk.calls, LocalDisk.preparing]
    refine .preparing _ _ ?_
    intro c hmem
    rcases List.mem_cons.mp hmem with rfl | hmem
    · exact .inl rfl
    · obtain ⟨dir, -, rfl⟩ := List.mem_map.mp hmem
      exact .inr ⟨dir, rfl⟩
  | true =>
    obtain ⟨i, hnamed, hdisk⟩ := named_of_present hi.books hc hown hhas
    have hpresent : s.store.blobPresent args.hash = .ok true := by
      simp only [CASStore.blobPresent, hhas, if_true, BlobStore.blobExists, LocalDisk.blobExists]
      rw [hhash, hasPathTraversalChars_hashBytes, if_neg Bool.false_ne_true, hnamed.1]
      rfl
    rw [hpresent]
    simp only
    split
    · exact hi
    · refine ⟨hi.books.putting _, ?_⟩
      rintro a stage hput
      obtain ⟨rfl, rfl⟩ := Prod.mk.inj (Option.some.inj hput)
      exact ⟨r, i, hc, hhash, hsize, hnamed, hdisk⟩

theorem Inv.advanceBlob (hi : Inv s) {todo : List LocalDisk.Call}
    (hput : s.putting = some (args, .blob todo)) (fault : Option Errno) :
    Inv (s.advanceBlob args fault todo) := by
  obtain ⟨r, hc, hhash, hsize, hnone, hleft⟩ := hi.underWay _ _ hput
  cases todo with
  | nil =>
    obtain ⟨i, hnamed⟩ := hleft.named
    refine ⟨hi.books.putting _, ?_⟩
    rintro a stage hput'
    obtain ⟨rfl, rfl⟩ := Prod.mk.inj (Option.some.inj hput')
    exact ⟨r, i, hc, hhash, hsize, hnamed⟩
  | cons call cs =>
    have hother : ∀ c, (s.store.db.objects.get (hashBytes c)).isSome = true →
        hashBytes r.data ≠ hashBytes c := by
      rintro c hsome heq
      rw [← heq, ← hhash, hnone] at hsome
      exact absurd hsome (by simp)
    simp only [State.advanceBlob]
    split
    · next d hx =>
      refine ⟨(hi.books.setBlobs fun c hsome hheld => hheld.exec hx ?_).putting _, ?_⟩
      · rintro path rfl
        exact ⟨r.data, hleft.rename_path, hother c hsome⟩
      · rintro a stage hput'
        obtain ⟨rfl, rfl⟩ := Prod.mk.inj (Option.some.inj hput')
        exact ⟨r, hc, hhash, hsize, hnone, hleft.exec hx⟩
    · exact Inv.fails (hi.books.setBlobs fun c _ hheld => hheld.abort)

theorem Inv.advanceBarrier (hi : Inv s) (hput : s.putting = some (args, .barrier))
    (fault : Option Errno) : Inv (s.advanceBarrier args fault) := by
  obtain ⟨r, i, hc, hhash, hsize, hnamed⟩ := hi.underWay _ _ hput
  unfold State.advanceBarrier
  split
  · next d hx =>
    rw [LocalDisk.syncBlob, hhash, hasPathTraversalChars_hashBytes, if_neg Bool.false_ne_true,
      hnamed.1] at hx
    obtain rfl := Except.ok.inj hx
    refine ⟨(hi.books.setBlobs ?_).putting _, ?_⟩
    · rintro c - ⟨j, hj, htemp⟩
      exact ⟨j, hj.fsync i, htemp⟩
    · rintro a stage hput'
      obtain ⟨rfl, rfl⟩ := Prod.mk.inj (Option.some.inj hput')
      refine ⟨r, i, hc, hhash, hsize, hnamed, ?_⟩
      simpa [State.fs, State.setBlobs, FS.fsync] using hnamed.2.1
  · exact Inv.fails hi.books

theorem held_of_entriesOnDisk {c : Bytes} {i : ℕ} (hnamed : Named s.store.blobs c i)
    (hdisk : s.fs.disk.data i = c) (hentries : s.EntriesOnDisk (hashBytes c)) :
    Held s.store.blobs c := by
  obtain ⟨node, hnode⟩ := Option.isSome_iff_exists.mp hentries
  have hlive := walk_mono (fun _ _ _ _ hx => (FS.settled_eq_some.mp hx).1) hnode
  obtain rfl : node = .file i := Option.some.inj (hlive.symm.trans hnamed.1)
  exact ⟨i, ⟨hnode, hnamed.2.1, hdisk, hnamed.2.2.1⟩, hnamed.2.2.2⟩

theorem Inv.advanceCommit (hi : Inv s) (hput : s.putting = some (args, .commit))
    (hentries : s.EntriesOnDisk args.hash) (now : Int) (fault : Option Errno) :
    Inv (s.advanceCommit args now fault) := by
  obtain ⟨r, i, hc, hhash, hsize, hnamed, hdisk⟩ := hi.underWay _ _ hput
  rw [hhash] at hentries
  have hheld := held_of_entriesOnDisk hnamed hdisk hentries
  unfold State.advanceCommit
  split
  · next db htx =>
    obtain ⟨hn, hk, paths, -, -, rfl⟩ := CASStore.putTx_eq_ok.mp htx
    refine ⟨⟨hi.books.quarantine, ?_, ?_, ?_⟩, fun _ _ h => by simp at h⟩
    · intro h m hm
      simp only [Bucket.get_set] at hm
      split at hm
      · obtain rfl := Option.some.inj hm
        cases hold : s.store.db.objects.get args.hash with
        | none => exact hsize
        | some old => exact hi.books.size _ old hold
      · exact hi.books.size h m hm
    · intro h m hm
      simp only [Bucket.get_set] at hm
      split at hm
      · next heq => exact ⟨r.data, by rw [heq, hhash], hheld⟩
      · exact hi.books.objects h m hm
    · intro n c hn'
      simp only [hc, OMap.get_put] at hn'
      simp only [Bucket.get_set, Bucket.get_del]
      split at hn'
      · next heq =>
        obtain rfl := Option.some.inj hn'
        simp [heq, hhash, hheld]
      · next hne =>
        obtain ⟨hns, htomb, hobj, hheldc⟩ := hi.books.acked n c hn'
        refine ⟨by rw [if_neg hne, hns], by rw [if_neg hne, htomb], ?_, hheldc⟩
        split
        · rfl
        · exact hobj
  · exact Inv.fails hi.books

end Steps

/-! ### Runs -/

theorem inv_init (cfg : CASConfig) (syncEnabled : Bool) : Inv (State.init cfg syncEnabled) where
  books :=
    { quarantine := fun _ => rfl
      size := fun _ _ h => by cases h
      objects := fun _ _ h => by cases h
      acked := fun _ _ h => by cases h }
  underWay _ _ h := by cases h

theorem UnderWay.writeBack {s : State} {args : PutArgs} {stage : Stage} {fs : FS Bytes UInt8}
    (h : s.UnderWay args stage) (hlive : fs.live = s.fs.live) (hnext : fs.next = s.fs.next)
    (hdisk : ∀ i, s.fs.disk.data i = s.fs.live.data i → fs.disk.data i = s.fs.live.data i) :
    (s.setBlobs { s.store.blobs with fs := fs }).UnderWay args stage := by
  have hnamed : ∀ {c i}, Named s.store.blobs c i →
      Named { s.store.blobs with fs := fs } c i := by
    rintro c i ⟨hwalk, hdata, hlt, htemp⟩
    exact ⟨by rw [hlive]; exact hwalk, by rw [hlive]; exact hdata, by rw [hnext]; exact hlt, htemp⟩
  cases stage with
  | blob todo =>
    obtain ⟨r, hc, hhash, hsize, hnone, hleft⟩ := h
    refine ⟨r, hc, hhash, hsize, hnone, ?_⟩
    cases hleft with
    | preparing pre sync hpre => exact .preparing pre sync hpre
    | created t sync ht hlt => exact .created t sync ht (hlt.trans_eq hnext.symm)
    | written t pre ht hlt hdata hpre =>
      have hdata' : fs.live.data t.2 = r.data := by rw [hlive]; exact hdata
      exact .written t pre ht (hlt.trans_eq hnext.symm) hdata' hpre
    | renamed i hi => exact .renamed i (hnamed hi)
  | barrier =>
    obtain ⟨r, i, hc, hhash, hsize, hi⟩ := h
    exact ⟨r, i, hc, hhash, hsize, hnamed hi⟩
  | commit =>
    obtain ⟨r, i, hc, hhash, hsize, hi, hd⟩ := h
    have hsame : s.fs.live.data i = r.data := hi.2.1
    exact ⟨r, i, hc, hhash, hsize, hnamed hi, (hdisk i (hd.trans hsame.symm)).trans hsame⟩

theorem inv_step (s : State) (op : Op) (hi : Inv s) (hok : s.InTime op) : Inv (s.step op) := by
  cases op with
  | put args =>
    simp only [State.step]
    split
    · exact hi
    · exact hi.begin hok
  | advance now fault =>
    simp only [State.step]
    split
    · exact hi
    · next args todo hput => exact hi.advanceBlob hput fault
    · next args hput => exact hi.advanceBarrier hput fault
    · next args hput =>
      have hentries : s.CommitsInTime (some (args, .commit)) := hput ▸ hok
      exact hi.advanceCommit hput hentries now fault
  | writeBackFile inode =>
    refine ⟨hi.books.setBlobs ?_, fun args stage hput => ?_⟩
    · rintro c - ⟨i, hs, htemp⟩
      exact ⟨i, hs.fsync inode, htemp⟩
    · refine (hi.underWay args stage hput).writeBack rfl rfl fun i hi => ?_
      by_cases he : i = inode
      · subst he
        simp [FS.fsync]
      · simpa [FS.fsync, Function.update_of_ne he] using hi
  | writeBackDir inode =>
    refine ⟨hi.books.setBlobs ?_, fun args stage hput => ?_⟩
    · rintro c - ⟨i, hs, htemp⟩
      exact ⟨i, hs.fsyncDir inode, htemp⟩
    · exact (hi.underWay args stage hput).writeBack rfl rfl fun i hi => hi
  | crash =>
    refine ⟨(hi.books.setBlobs ?_).putting none, fun _ _ h => by cases h⟩
    rintro c - ⟨i, hs, htemp⟩
    exact ⟨i, hs.crash, by simp⟩

theorem Books.kept {s : State} (hb : Books s) : s.Kept := by
  intro name c hc
  obtain ⟨hns, htomb, hobj, i, hs, -⟩ := hb.acked name c hc
  obtain ⟨m, hm⟩ := Option.isSome_iff_exists.mp hobj
  have hblob : BlobStore.getBlob s.crash.store.blobs (hashBytes c) = .ok ⟨c, none⟩ := by
    simp only [BlobStore.getBlob, LocalDisk.getBlob, hasPathTraversalChars_hashBytes,
      Bool.false_eq_true, if_false]
    have hwalk : walk s.crash.store.blobs.fs.live.names 0 (LocalDisk.blobPath (hashBytes c)) =
        some (.file i) := hs.crash.walk_live
    have hdata : s.crash.store.blobs.fs.live.data i = c := hs.disk
    rw [hwalk]
    simp only [hdata]
  have hquar : s.crash.store.db.quarantine.get (hashBytes c) = none := hb.quarantine _
  have hhash : s.crash.store.getHashForName name = .ok (hashBytes c) := by
    have h1 : s.crash.store.db.tombstones.get name = none := htomb
    have h2 : s.crash.store.db.ns.get name = some (hashBytes c) := hns
    simp only [CASStore.getHashForName, h1, h2]
  have hmeta : ∃ fm, CASStore.fileMetadata s.crash.store.db name (hashBytes c) = .ok fm := by
    have h1 : s.crash.store.db.objects.get (hashBytes c) = some m := hm
    simp only [CASStore.fileMetadata, h1, if_neg (not_lt.mpr (hb.size _ m hm))]
    exact ⟨_, rfl⟩
  obtain ⟨fm, hfm⟩ := hmeta
  refine ⟨⟨⟨c, none⟩, if s.crash.store.cfg.verifyOnRead then some (hashBytes c) else none⟩, fm,
    ?_, ?_⟩
  · simp only [CASStore.get, hhash, CASStore.openVerifiedBlob, hblob, hquar, Option.isSome_none,
      Bool.false_eq_true, if_false, hfm]
  · cases s.crash.store.cfg.verifyOnRead <;> simp [Stream.readAll]

/-- CORRECT: in every run that is in time, a crash at any point loses no acknowledged object. -/
theorem kept_of_inTime (cfg : CASConfig) (syncEnabled : Bool) (ops : List Op)
    (h : Guarded State.step State.InTime (State.init cfg syncEnabled) ops) :
    (run State.step (State.init cfg syncEnabled) ops).Kept :=
  (run_invariant Inv inv_step (inv_init cfg syncEnabled) h).books.kept

end State

/-! ### Two runs -/

section Runs

local instance crashSha : Sha256 := sampleSha

instance (fs : FS Bytes UInt8) (c : Bytes) : ∀ node, Decidable (State.NoClash fs c node)
  | some (.file _) => inferInstanceAs (Decidable (_ → _))
  | some (.dir _) | none => isTrue trivial

instance (s : State) (args : PutArgs) : ∀ content, Decidable (s.OwnHash args content)
  | none => isFalse id
  | some _ => inferInstanceAs (Decidable (_ ∧ _ ∧ _))

instance (s : State) : ∀ p, Decidable (s.CommitsInTime p)
  | some (_, .commit) => inferInstanceAs (Decidable (_ = true))
  | some (_, .blob _) | some (_, .barrier) | none => isTrue trivial

instance (s : State) : ∀ op, Decidable (s.InTime op)
  | .put args => inferInstanceAs (Decidable (s.OwnHash args args.content))
  | .advance _ _ => inferInstanceAs (Decidable (s.CommitsInTime s.putting))
  | .writeBackFile _ | .writeBackDir _ | .crash => isTrue trivial

/-- The put of `a` under the name `x`, over a back end built by the factory. -/
def putA : Op := .put ⟨[120], hashBytes [97], 1, [], some ⟨[97], none⟩, [55]⟩

def toTheEnd : List Op := putA :: List.replicate 13 (.advance 7 none)

def writtenBack : List Op :=
  putA :: List.replicate 12 (.advance 7 none) ++
    [.writeBackDir 0, .writeBackDir 1, .writeBackDir 2, .writeBackDir 3, .writeBackDir 4,
      .advance 7 none]

theorem kept_writtenBack :
    (run State.step (State.init {} false) writtenBack).acked.get [120] = some [97] ∧
      (run State.step (State.init {} false) writtenBack).Kept :=
  ⟨by decide +kernel, State.kept_of_inTime {} false writtenBack (by decide +kernel)⟩

theorem acked_put_lost :
    (run State.step (State.init {} false) toTheEnd).acked.get [120] = some [97] ∧
      ((run State.step (State.init {} false) toTheEnd).crash.store.get [120]).1 =
        .error (.sys .enoent) :=
  ⟨by decide +kernel, by decide +kernel⟩

end Runs

end CrashSafety

end Momo
