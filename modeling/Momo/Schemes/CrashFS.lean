import Mathlib

/-! @scheme crash-fs | family:storage

    A file system that can crash. Directories and files are inodes; a directory maps names to
    inodes, a file holds data. Every inode is kept twice, as the running system sees it (`live`) and
    as it would come back (`disk`). -/

namespace Momo.CrashFS

variable {N B : Type}

inductive Node
  | dir (inode : ℕ)
  | file (inode : ℕ)
  deriving DecidableEq

structure Tree (N B : Type) where
  names : ℕ → N → Option Node := fun _ _ => none
  data : ℕ → List B := fun _ => []

/-- Inode 0 is the root; `next` is the next inode to hand out. -/
structure FS (N B : Type) where
  live : Tree N B := {}
  disk : Tree N B := {}
  next : ℕ := 1

def walk (names : ℕ → N → Option Node) (dir : ℕ) : List N → Option Node
  | [] => some (.dir dir)
  | n :: path =>
    match names dir n with
    | none => none
    | some (.dir d) => walk names d path
    | some (.file i) => if path.isEmpty then some (.file i) else none

variable {names : ℕ → N → Option Node} {dir : ℕ} {n : N} {path : List N}

theorem walk_of_none (h : names dir n = none) :
    walk names dir (n :: path) = none := by simp only [walk, h]

theorem walk_of_dir {d : ℕ} (h : names dir n = some (.dir d)) :
    walk names dir (n :: path) = walk names d path := by
  rw [walk, h]

theorem walk_of_file {i : ℕ} (h : names dir n = some (.file i)) :
    walk names dir (n :: path) = if path.isEmpty then some (.file i) else none := by
  rw [walk, h]

theorem walk_mono {names' : ℕ → N → Option Node} : ∀ {path : List N} {dir : ℕ} {node : Node},
    (∀ d, ∀ n ∈ path, ∀ x, names d n = some x → names' d n = some x) →
    walk names dir path = some node → walk names' dir path = some node
  | [], _, _, _, h => h
  | n :: path, dir, node, hle, h => by
    cases hn : names dir n with
    | none => rw [walk_of_none hn] at h; cases h
    | some x =>
      have hn' := hle dir n (List.mem_cons_self ..) x hn
      cases x with
      | dir d =>
        rw [walk_of_dir hn] at h
        rw [walk_of_dir hn']
        exact walk_mono (fun e m hm => hle e m (List.mem_cons_of_mem _ hm)) h
      | file i =>
        rw [walk_of_file hn] at h
        rw [walk_of_file hn', h]

theorem walk_append : ∀ {path rest : List N} {dir d : ℕ},
    walk names dir path = some (.dir d) → walk names dir (path ++ rest) = walk names d rest
  | [], _, dir, d, h => by
    obtain rfl : dir = d := by simpa [walk] using h
    rfl
  | n :: path, rest, dir, d, h => by
    cases hn : names dir n with
    | none => rw [walk_of_none hn] at h; cases h
    | some x =>
      cases x with
      | dir d' =>
        rw [walk_of_dir hn] at h
        rw [List.cons_append, walk_of_dir hn]
        exact walk_append h
      | file i =>
        rw [walk_of_file hn] at h
        split at h <;> cases h

namespace FS

/-! ### System calls -/

section Calls

variable [DecidableEq N]

def setEntry (fs : FS N B) (dir : ℕ) (name : N) (x : Option Node) : FS N B :=
  { fs with
    live := { fs.live with
      names := Function.update fs.live.names dir (Function.update (fs.live.names dir) name x) } }

def mkdir (fs : FS N B) (dir : ℕ) (name : N) : FS N B :=
  { fs.setEntry dir name (some (.dir fs.next)) with next := fs.next + 1 }

def create (fs : FS N B) (dir : ℕ) (name : N) : FS N B :=
  { fs.setEntry dir name (some (.file fs.next)) with next := fs.next + 1 }

def rename (fs : FS N B) (dir : ℕ) (name : N) (dir' : ℕ) (name' : N) (inode : ℕ) : FS N B :=
  (fs.setEntry dir name none).setEntry dir' name' (some (.file inode))

end Calls

def write (fs : FS N B) (inode : ℕ) (data : List B) : FS N B :=
  { fs with live := { fs.live with data := Function.update fs.live.data inode data } }

def fsync (fs : FS N B) (inode : ℕ) : FS N B :=
  { fs with
    disk := { fs.disk with data := Function.update fs.disk.data inode (fs.live.data inode) } }

def fsyncDir (fs : FS N B) (dir : ℕ) : FS N B :=
  { fs with
    disk := { fs.disk with names := Function.update fs.disk.names dir (fs.live.names dir) } }

def crash (fs : FS N B) : FS N B := { fs with live := fs.disk }

/-! ### Settled entries -/

def settled (fs : FS N B) (dir : ℕ) (name : N) : Option Node :=
  if fs.live.names dir name = fs.disk.names dir name then fs.live.names dir name else none

theorem settled_eq_some {fs : FS N B} {d : ℕ} {n : N} {x : Node} :
    fs.settled d n = some x ↔ fs.live.names d n = some x ∧ fs.disk.names d n = some x := by
  unfold settled
  constructor
  · intro h
    split at h
    · next heq => exact ⟨h, heq ▸ h⟩
    · exact absurd h (by simp)
  · rintro ⟨hl, hd⟩
    rw [if_pos (hl.trans hd.symm), hl]

structure Settled (fs : FS N B) (path : List N) (inode : ℕ) (data : List B) : Prop where
  path : walk fs.settled 0 path = some (.file inode)
  live : fs.live.data inode = data
  disk : fs.disk.data inode = data
  lt_next : inode < fs.next

variable {fs : FS N B} {path : List N} {i : ℕ} {data : List B}

namespace Settled

theorem walk_live (h : fs.Settled path i data) : walk fs.live.names 0 path = some (.file i) :=
  walk_mono (fun _ _ _ _ hx => (settled_eq_some.mp hx).1) h.path

theorem setEntry [DecidableEq N] (h : fs.Settled path i data) {name : N} (hname : name ∉ path) (dir : ℕ)
    (x : Option Node) : (fs.setEntry dir name x).Settled path i data := by
  refine ⟨walk_mono (fun d n hn y hy => ?_) h.path, h.live, h.disk, h.lt_next⟩
  have hne : n ≠ name := fun he => hname (he ▸ hn)
  rw [settled_eq_some] at hy ⊢
  refine ⟨?_, hy.2⟩
  by_cases hd : d = dir
  · subst hd
    simpa [FS.setEntry, Function.update_of_ne hne] using hy.1
  · simpa [FS.setEntry, Function.update_of_ne hd] using hy.1

theorem next (h : fs.Settled path i data) {k : ℕ} (hk : fs.next ≤ k) :
    FS.Settled { fs with next := k } path i data :=
  ⟨h.path, h.live, h.disk, h.lt_next.trans_le hk⟩

theorem mkdir [DecidableEq N] (h : fs.Settled path i data) {dir : ℕ} {name : N}
    (hfree : fs.live.names dir name = none) : (fs.mkdir dir name).Settled path i data := by
  refine ⟨walk_mono (fun d n _ y hy => ?_) h.path, h.live, h.disk, h.lt_next.trans (Nat.lt_succ_self _)⟩
  rw [settled_eq_some] at hy ⊢
  refine ⟨?_, hy.2⟩
  have hne : ¬ (d = dir ∧ n = name) := by
    rintro ⟨rfl, rfl⟩
    exact absurd (hfree.symm.trans hy.1) (by simp)
  by_cases hd : d = dir
  · subst hd
    have hn : n ≠ name := fun he => hne ⟨rfl, he⟩
    simpa [FS.mkdir, FS.setEntry, Function.update_of_ne hn] using hy.1
  · simpa [FS.mkdir, FS.setEntry, Function.update_of_ne hd] using hy.1

theorem write (h : fs.Settled path i data) {j : ℕ} (hj : i ≠ j) (content : List B) :
    (fs.write j content).Settled path i data := by
  refine ⟨h.path, ?_, h.disk, h.lt_next⟩
  simpa [FS.write, Function.update_of_ne hj] using h.live

theorem fsync (h : fs.Settled path i data) (j : ℕ) : (fs.fsync j).Settled path i data := by
  refine ⟨h.path, h.live, ?_, h.lt_next⟩
  by_cases hj : i = j
  · subst hj
    simpa [FS.fsync] using h.live
  · simpa [FS.fsync, Function.update_of_ne hj] using h.disk

theorem fsyncDir (h : fs.Settled path i data) (dir : ℕ) : (fs.fsyncDir dir).Settled path i data := by
  refine ⟨walk_mono (fun d n _ y hy => ?_) h.path, h.live, h.disk, h.lt_next⟩
  rw [settled_eq_some] at hy ⊢
  refine ⟨hy.1, ?_⟩
  by_cases hd : d = dir
  · subst hd
    simpa [FS.fsyncDir] using hy.1
  · simpa [FS.fsyncDir, Function.update_of_ne hd] using hy.2

theorem crash (h : fs.Settled path i data) : fs.crash.Settled path i data := by
  refine ⟨walk_mono (fun d n _ y hy => ?_) h.path, h.disk, h.disk, h.lt_next⟩
  exact settled_eq_some.mpr ⟨(settled_eq_some.mp hy).2, (settled_eq_some.mp hy).2⟩

end Settled

theorem walk_rename [DecidableEq N] {dirs : List N} {dir d : ℕ} {tmp name : N}
    (hparent : walk fs.live.names 0 dirs = some (.dir d)) (htmp : tmp ∉ dirs) (hname : name ∉ dirs) :
    walk (fs.rename dir tmp d name i).live.names 0 (dirs ++ [name]) = some (.file i) := by
  have hkept : walk (fs.rename dir tmp d name i).live.names 0 dirs = some (.dir d) := by
    refine walk_mono (fun e n hn y hy => ?_) hparent
    have h1 : n ≠ tmp := fun he => htmp (he ▸ hn)
    have h2 : n ≠ name := fun he => hname (he ▸ hn)
    by_cases hd : e = d <;> by_cases hd' : e = dir <;>
      simp_all [FS.rename, FS.setEntry, Function.update_apply]
  rw [walk_append hkept]
  simp [walk, FS.rename, FS.setEntry]

end FS

end Momo.CrashFS
