import Momo.Momofs.Layout

/-! @momo src/momofs/momofs.go | scheme:reads of a laid-out tree

    What `Lookup`, `Open`, `ReadAt` and `ReadDir` return on a file system that shows a tree. Each has
    one lemma that says its result and that nothing changes but the time of the index; together they
    are `agrees_of_laid`. -/

namespace Momo.Momofs

open CASStore (Names)
open Prog

theorem eq_ok_of_toOption {α : Type} {r : Except Err α} {x : α} (h : r.toOption = some x) :
    r = .ok x := by
  cases r with
  | error e => cases h
  | ok y => exact congrArg Except.ok (Option.some.inj h)

theorem eq_error_of_toOption {α : Type} {r : Except Err α} (h : r.toOption = none) :
    ∃ e, r = .error e := by
  cases r with
  | error e => exact ⟨e, rfl⟩
  | ok y => cases h

section Reads

variable [Sha256] [ManifestJSON] {β : Type} [BlobStore β] [MapBackend β]
variable {U : Bytes → Prop} {P : Path → Prop} {a : Names} {t : Tree} {f : FS β}

omit [ManifestJSON] in
theorem Stores.frame {f' : FS β} (hs : Stores U f a) (hstore : f'.store = f.store)
    (hindex : f'.idxList = f.idxList) : Stores U f' a :=
  ⟨hstore ▸ hs.sim, hindex.trans hs.index⟩

/-! ### Native objects -/

theorem storeMetaByPath_eq (hs : Stores U f a) (hl : Laid P a t) (now : Int) (q : Bytes) :
    ∃ at_, storeMetaByPath now q f = (.ok none, { f with idxAt := at_ }) := by
  obtain ⟨at_, hobj⟩ := storeObjects_eq hs hl now
  exact ⟨at_, by rw [storeMetaByPath, bind_of_ok hobj]; rfl⟩

theorem storePathIsAncestorOfObject_eq (hs : Stores U f a) (hl : Laid P a t) (now : Int)
    (q : Bytes) :
    ∃ at_, storePathIsAncestorOfObject now q f = (.ok false, { f with idxAt := at_ }) := by
  obtain ⟨at_, hobj⟩ := storeObjects_eq hs hl now
  exact ⟨at_, by rw [storePathIsAncestorOfObject, bind_of_ok hobj]; rfl⟩

theorem storeChildren_eq (hs : Stores U f a) (hl : Laid P a t) (now : Int) (q : Bytes) :
    ∃ at_, storeChildren now q f = (.ok OMap.empty, { f with idxAt := at_ }) := by
  obtain ⟨at_, hobj⟩ := storeObjects_eq hs hl now
  exact ⟨at_, by simp only [storeChildren]; rw [bind_of_ok hobj]; rfl⟩

/-! ### Lookup -/

omit [MapBackend β] in
theorem lookup_root (now : Int) (f : FS β) :
    lookup now (render []) f =
      (.ok { name := [slash], type := .dir, mode := f.rootMode, mTime := now }, f) := by
  have hnorm : normalizePath (render []) = .ok (render []) :=
    normalizePath_accepted (by simp) (by simp [Accepted])
  rw [lookup, bind_ofExcept_ok hnorm, if_pos (show render [] = [slash] from rfl)]

variable {p : Path} {k : Bytes}

omit [MapBackend β] in
theorem lookup_below (now : Int) (f : FS β) (hcomp : ∀ c ∈ p ++ [k], Comp c)
    (hacc : Accepted (p ++ [k])) :
    lookup now (render (p ++ [k])) f = (do
      match ← attempt (entryIn (render p) k) with
      | .ok e => pure e
      | .error _ =>
        match ← storeMetaByPath now (render (p ++ [k])) with
        | some m => pure (metaToEntry k m)
        | none =>
          if ← storePathIsAncestorOfObject now (render (p ++ [k])) then
            pure { name := k, type := .dir, mode := defaultDirMode }
          else fail (noSuchEntry (render (p ++ [k])))) f := by
  have hroot : render (p ++ [k]) ≠ [slash] := fun h => by
    simpa using (render_eq_root hcomp).mp h
  rw [lookup, bind_ofExcept_ok (normalizePath_accepted hcomp hacc), if_neg hroot,
    parentBase_render hcomp] <;> rfl

omit [ManifestJSON] in
theorem readFrom_whole {rc : Stream} {c : Bytes} (h : rc.readAll = (c, none)) (off n : Nat) :
    readFrom rc off n = .ok ((c.drop off).take n) := by
  simp only [readFrom, h]
  split_ifs <;> rfl

theorem Laid.file_below {attr : Attr} {c : Bytes} (hl : Laid P a t)
    (hv : t.node p = some (.file attr c)) : ∃ q k, p = q ++ [k] := by
  rcases List.eq_nil_or_concat p with rfl | ⟨q, k, rfl⟩
  · obtain ⟨w, hw, hdir⟩ := hl.root
    rw [hv] at hw
    cases hw
    exact hdir.elim
  · exact ⟨q, k, by simp⟩

variable (hU : Distinct U) (hP : Scope P) (hs : Stores U f a) (hl : Laid P a t)

include hU hP hs hl

theorem entryIn_eq (hp : P (p ++ [k])) :
    ∃ r, entryIn (render p) k f = (r, f) ∧ r.toOption = (t.node (p ++ [k])).map (entryOf k) := by
  by_cases hd : DirAt t.node p
  · obtain ⟨es, hread, hlist⟩ := readManifest_dir hU hP hs hl (hP.parent p k hp) hd
    rw [entryIn, bind_of_ok hread, hlist.find]
    cases t.node (p ++ [k]) with
    | none => exact ⟨_, rfl, rfl⟩
    | some v => exact ⟨_, rfl, rfl⟩
  · have hnone : t.node (p ++ [k]) = none := by
      by_contra h
      exact hd (t.closed p k h)
    rw [entryIn, bind_of_error (readManifest_notDir hU hP hs hl (hP.parent p k hp) hd), hnone]
    exact ⟨_, rfl, rfl⟩

theorem lookup_eq (now : Int) (hp : P (p ++ [k])) :
    ∃ r at_, lookup now (render (p ++ [k])) f = (r, { f with idxAt := at_ }) ∧
      r.toOption = (t.node (p ++ [k])).map (entryOf k) := by
  have hcomp := hP.comps _ hp
  by_cases hacc : Accepted (p ++ [k])
  · obtain ⟨r, hentry, hr⟩ := entryIn_eq hU hP hs hl hp
    rw [lookup_below now f hcomp hacc, bind_of_ok (attempt_eq hentry)]
    cases r with
    | ok e => exact ⟨.ok e, f.idxAt, rfl, hr⟩
    | error e =>
      obtain ⟨at₁, hmeta⟩ := storeMetaByPath_eq hs hl now (render (p ++ [k]))
      obtain ⟨at₂, hanc⟩ := storePathIsAncestorOfObject_eq (f := { f with idxAt := at₁ })
        (hs.frame rfl rfl) hl now (render (p ++ [k]))
      refine ⟨.error (noSuchEntry (render (p ++ [k]))), at₂, ?_, hr⟩
      simp only [bind_of_ok hmeta, bind_of_ok hanc]
      rfl
  · obtain ⟨e, hnorm⟩ := normalizePath_refused hcomp hacc
    have hnone : t.node (p ++ [k]) = none := by
      by_contra h
      exact hacc (hl.scope _ h).2
    refine ⟨.error e, f.idxAt, ?_, by rw [hnone]; rfl⟩
    rw [lookup, bind_ofExcept_error hnorm]

theorem lookup_keeps (now : Int) (hp : P p) :
    ∃ r at_, lookup now (render p) f = (r, { f with idxAt := at_ }) := by
  induction p using List.reverseRecOn with
  | nil => exact ⟨_, f.idxAt, lookup_root now f⟩
  | append_singleton p k _ =>
    obtain ⟨r, at_, hlookup, -⟩ := lookup_eq hU hP hs hl now hp
    exact ⟨r, at_, hlookup⟩

/-! ### Open and ReadAt -/

variable {c : Bytes}

theorem openFile_file (now : Int) {attr : Attr} (hp : P (p ++ [k]))
    (hv : t.node (p ++ [k]) = some (.file attr c)) :
    ∃ rc at_, openFile now (render (p ++ [k])) f =
        (.ok (rc, entryOf k (.file attr c)), { f with idxAt := at_ }) ∧ rc.readAll = (c, none) := by
  obtain ⟨r, at_, hlookup, hr⟩ := lookup_eq hU hP hs hl now hp
  rw [hv, Option.map_some] at hr
  obtain rfl := eq_ok_of_toOption hr
  have hkey : a (objKey (render (p ++ [k]))) = some c := by
    rw [hl.files _ hp, hv]
    rfl
  obtain ⟨rc, m, hget, hread, hhash⟩ := storeGet_some (f := { f with idxAt := at_ }) hU
    (hs.frame rfl rfl) hkey
  refine ⟨rc, at_, ?_, hread⟩
  rw [openFile, bind_of_ok hlookup, if_neg (by simp [Node.type])]
  rw [if_pos (show (entryOf k (.file attr c)).objName = [] from rfl), bind_of_ok hget]
  simp only [hhash]
  rfl

theorem openFile_other (now : Int) (hp : P p) (hv : ∀ attr c, t.node p ≠ some (.file attr c)) :
    ∃ e at_, openFile now (render p) f = (.error e, { f with idxAt := at_ }) := by
  induction p using List.reverseRecOn with
  | nil =>
    rw [openFile, bind_of_ok (lookup_root now f), if_pos (by simp)]
    exact ⟨_, f.idxAt, rfl⟩
  | append_singleton p k _ =>
    obtain ⟨r, at_, hlookup, hr⟩ := lookup_eq hU hP hs hl now hp
    cases hn : t.node (p ++ [k]) with
    | none =>
      rw [hn, Option.map_none] at hr
      obtain ⟨e, rfl⟩ := eq_error_of_toOption hr
      exact ⟨e, at_, by rw [openFile, bind_of_error hlookup]⟩
    | some v =>
      cases v with
      | file attr c => exact absurd hn (hv attr c)
      | dir attr =>
        rw [hn, Option.map_some] at hr
        obtain rfl := eq_ok_of_toOption hr
        rw [openFile, bind_of_ok hlookup, if_pos (by simp [Node.type])]
        exact ⟨_, at_, rfl⟩

theorem openFile_keeps (now : Int) (hp : P p) :
    ∃ r at_, openFile now (render p) f = (r, { f with idxAt := at_ }) := by
  by_cases hfile : ∃ attr c, t.node p = some (.file attr c)
  · obtain ⟨attr, c, hv⟩ := hfile
    obtain ⟨q, k, rfl⟩ := hl.file_below hv
    obtain ⟨rc, at_, hopen, -⟩ := openFile_file hU hP hs hl now hp hv
    exact ⟨_, at_, hopen⟩
  · push Not at hfile
    obtain ⟨e, at_, hopen⟩ := openFile_other hU hP hs hl now hp hfile
    exact ⟨_, at_, hopen⟩

theorem readAt_file (now : Int) {attr : Attr} (hp : P p) (hv : t.node p = some (.file attr c))
    (off n : Nat) :
    (readAt now (render p) off n f).1 =
      if c.length ≤ off then .error eof else .ok ((c.drop off).take n) := by
  obtain ⟨q, k, rfl⟩ := hl.file_below hv
  obtain ⟨rc, at_, hopen, hread⟩ := openFile_file hU hP hs hl now hp hv
  have hsize : (entryOf k (.file attr c)).size ≤ (off : Int) ↔ c.length ≤ off := by
    simp [entryOf]
  rw [readAt, if_neg (by omega), bind_of_ok hopen]
  by_cases hend : c.length ≤ off
  · simp only [if_pos (hsize.mpr hend), if_pos hend]
    rfl
  · simp only [if_neg (mt hsize.mp hend), if_neg hend, Int.toNat_natCast, readFrom_whole hread]
    rfl

theorem readAt_keeps (now off : Int) (n : Nat) (hp : P p) :
    ∃ r at_, readAt now (render p) off n f = (r, { f with idxAt := at_ }) := by
  unfold readAt
  split_ifs with hoff
  · exact ⟨_, f.idxAt, rfl⟩
  · obtain ⟨r, at_, hopen⟩ := openFile_keeps hU hP hs hl now hp
    cases r with
    | error e => exact ⟨_, at_, by rw [bind_of_error hopen]⟩
    | ok x =>
      rw [bind_of_ok hopen]
      by_cases hend : x.2.size ≤ off
      · exact ⟨_, at_, by simp only [if_pos hend]; rfl⟩
      · exact ⟨_, at_, by simp only [if_neg hend]; rfl⟩

/-! ### ReadDir -/

omit hU in
theorem readDir_eq (now : Int) (hp : P p)
    (hacc : Accepted p) {es : List Entry}
    (hlisted : (∃ m : DirManifest, readManifest (render p) f = (.ok m, f) ∧ es = m.entries) ∨
      (readManifest (render p) f = (.error (.sys .enoent), f) ∧ es = [])) :
    ∃ at_, readDir now (render p) f =
      (.ok (es.insertionSort (fun x y => x.name ≤ y.name)), { f with idxAt := at_ }) := by
  obtain ⟨at_, hchildren⟩ := storeChildren_eq hs hl now (render p)
  refine ⟨at_, ?_⟩
  have hnorm := normalizePath_accepted (hP.comps p hp) hacc
  rcases hlisted with ⟨m, hread, rfl⟩ | ⟨hread, rfl⟩
  · rw [readDir, bind_ofExcept_ok hnorm, bind_of_ok (attempt_eq hread)]
    simp only
    rw [bind_of_ok (pure_eq m.entries f), bind_of_ok hchildren]
    simp [OMap.empty, pure_eq]
  · rw [readDir, bind_ofExcept_ok hnorm, bind_of_ok (attempt_eq hread)]
    simp only
    rw [if_pos (show saysENOENT (.sys .enoent) = true from rfl), bind_of_ok (pure_eq [] f),
      bind_of_ok hchildren]
    simp [OMap.empty, pure_eq]

theorem readDir_dir (now : Int) (hp : P p) (hd : DirAt t.node p) :
    ∃ out at_, readDir now (render p) f = (.ok out, { f with idxAt := at_ }) ∧
      out.Pairwise (fun x y => x.name < y.name) ∧
      ∀ e, e ∈ out ↔ ∃ v, t.node (p ++ [e.name]) = some v ∧ e = entryOf e.name v := by
  obtain ⟨es, hread, hlist⟩ := readManifest_dir hU hP hs hl hp hd
  have hacc : Accepted p := (hl.scope p (by obtain ⟨v, hv, -⟩ := hd; rw [hv]; simp)).2
  obtain ⟨at_, hdir⟩ := readDir_eq hP hs hl now hp hacc (Or.inl ⟨_, hread, rfl⟩)
  refine ⟨_, at_, hdir, ?_, fun e => ?_⟩
  · have hsorted := List.pairwise_insertionSort (fun x y : Entry => x.name ≤ y.name) es
    have hnodup : (es.insertionSort (fun x y => x.name ≤ y.name)).Pairwise
        (fun x y => x.name ≠ y.name) := by
      have := ((List.perm_insertionSort (fun x y : Entry => x.name ≤ y.name) es).map
        Entry.name).nodup_iff.mpr hlist.nodup
      exact List.pairwise_map.mp this
    exact (hsorted.and hnodup).imp fun h => lt_of_le_of_ne h.1 h.2
  · rw [List.mem_insertionSort]
    exact hlist.mem e

theorem readDir_keeps (now : Int) (hp : P p) :
    ∃ r at_, readDir now (render p) f = (r, { f with idxAt := at_ }) := by
  by_cases hacc : Accepted p
  · by_cases hd : DirAt t.node p
    · obtain ⟨out, at_, hdir, -⟩ := readDir_dir hU hP hs hl now hp hd
      exact ⟨_, at_, hdir⟩
    · obtain ⟨at_, hdir⟩ := readDir_eq hP hs hl now hp hacc
        (Or.inr ⟨readManifest_notDir hU hP hs hl hp hd, rfl⟩)
      exact ⟨_, at_, hdir⟩
  · obtain ⟨e, hnorm⟩ := normalizePath_refused (hP.comps p hp) hacc
    exact ⟨.error e, f.idxAt, by rw [readDir, bind_ofExcept_error hnorm]⟩

/-- CORRECT: a file system whose store has a tree laid out in it reads as the tree. -/
theorem agrees_of_laid : Agrees P f t where
  root now := ⟨_, by rw [lookup_root], rfl⟩
  lookup now p k hp := by
    obtain ⟨r, at_, hlookup, hr⟩ := lookup_eq hU hP hs hl now hp
    rw [hlookup]
    exact hr
  openFile now p k hp := by
    have hother : (∀ attr c, t.node (p ++ [k]) ≠ some (.file attr c)) →
        ∃ e, (Momofs.openFile now (render (p ++ [k])) f).1 = .error e := by
      intro hv
      obtain ⟨e, at_, hopen⟩ := openFile_other hU hP hs hl now hp hv
      exact ⟨e, by rw [hopen]⟩
    cases hv : t.node (p ++ [k]) with
    | none => exact hother (by simp [hv])
    | some v =>
      cases v with
      | file attr c =>
        obtain ⟨rc, at_, hopen, hread⟩ := openFile_file hU hP hs hl now hp hv
        exact ⟨rc, by rw [hopen], hread⟩
      | dir attr => exact hother (by simp [hv])
  readAt now p off n attr c hp hv := readAt_file hU hP hs hl now hp hv off n
  readDir now p hp hd := by
    obtain ⟨out, at_, hdir, hsorted, hmem⟩ := readDir_dir hU hP hs hl now hp hd
    exact ⟨out, by rw [hdir], hsorted, hmem⟩

end Reads

end Momo.Momofs
