import Momo.Momofs.Relocate

/-! @momo src/momofs/momofs.go | scheme:a moved subtree laid out again

    `Rename`. Between its checks it moves objects, so what an error leaves behind depends on where it
    comes from. -/

namespace Momo.Momofs

open CASStore (Names Sim)
open ManifestJSON

/-! ### The layout of a moved tree -/

section Layout

variable [Sha256]

variable {P : Path → Prop}

omit [Sha256] in
theorem type_eq_dir_iff {v : Node} : v.type = .dir ↔ v.IsDir := by
  cases v <;> simp [Node.type, Node.IsDir]

variable [ManifestJSON] {a b : Names} {t : Tree} {src dst : Path}

variable {p : Path}

theorem Laid.key_none (hl : Laid P a t) (hp : P p) {y : EntryType}
    (h : ∀ v, t.node p = some v → v.type ≠ y) : a (keyAt y p) = none := by
  cases y with
  | file =>
    rw [keyAt, hl.files p hp]
    cases hv : t.node p with
    | none => rfl
    | some v =>
      cases v with
      | file attr c => exact absurd rfl (h _ hv)
      | dir attr => rfl
  | dir =>
    refine hl.notDir p hp ?_
    rintro ⟨v, hv, hdir⟩
    exact h v hv (type_eq_dir_iff.mpr hdir)

/-- The ways of a rename: all of them are in scope, and what is at the destination is a file that a
    file replaces, or nothing. -/
structure Clear (P : Path → Prop) (t : Tree) (src dst : Path) : Prop where
  target : ∀ r, t.node (src ++ r) ≠ none → P (dst ++ r)
  there : t.node src ≠ none
  leaf : ¬ DirAt t.node dst
  ne : src ≠ dst
  kind : t.node dst ≠ none → ¬ DirAt t.node src

omit [Sha256] [ManifestJSON] in
theorem dirAt_above {x y : Path} (hpre : x <+: y) (hd : DirAt t.node y) : DirAt t.node x := by
  obtain ⟨r, rfl⟩ := hpre
  by_cases hr : r = []
  · rwa [hr, List.append_nil] at hd
  · obtain ⟨v, hv, -⟩ := hd
    exact t.inner_above hr (by rw [hv]; simp)

variable {r : Path}

omit [Sha256] [ManifestJSON] in
theorem Clear.below (h : Clear P t src dst) (hr : r ≠ []) : t.node (dst ++ r) = none :=
  t.none_below (leaf_of_not_dirAt h.leaf) hr

omit [ManifestJSON] in
theorem relocated_target (hr : Relocates (Pairs t.node src dst) a b) {v : Node}
    (hv : t.node (src ++ r) = some v) : b (keyAt v.type (dst ++ r)) = a (keyAt v.type (src ++ r)) :=
  hr.moved _ _ ⟨r, v, hv, rfl, rfl⟩

variable (hP : Scope P) (hl : Laid P a t) (hr : Relocates (Pairs t.node src dst) a b)

include hP hl hr

theorem relocated_none (hclear : Clear P t src dst) (hp : P (dst ++ r)) {y : EntryType}
    (h : ∀ v, t.node (src ++ r) = some v → v.type ≠ y) : b (keyAt y (dst ++ r)) = none := by
  by_cases hdom : ∃ z, Pairs t.node src dst (keyAt y (dst ++ r)) z
  · obtain ⟨z, hz⟩ := hdom
    exact hr.left _ z hz
  rw [hr.frame _ (fun z hz => hdom ⟨z, hz⟩) fun x hx => ?_]
  · refine hl.key_none hp fun w hw htype => ?_
    -- only a file at the destination itself could have the key, and then a file came there
    by_cases hnil : r = []
    · subst hnil
      rw [List.append_nil] at hw h
      have hfile : w.type = .file := by
        cases w with
        | file => rfl
        | dir attr => exact absurd ⟨_, hw, trivial⟩ hclear.leaf
      have hsrc := hclear.kind (by rw [hw]; simp)
      cases hv : t.node src with
      | none => exact hclear.there hv
      | some v =>
        cases v with
        | file attr c => exact h _ hv (by rw [← htype, hfile]; rfl)
        | dir attr => exact hsrc ⟨_, hv, trivial⟩
    · rw [hclear.below hnil] at hw
      cases hw
  · obtain ⟨r', v, hv, -, hy⟩ := hx
    obtain ⟨hpath, htype⟩ := keyAt_inj hP hp (hclear.target r' (by simp [hv])) hy
    obtain rfl := List.append_cancel_left hpath
    exact h v hv htype.symm

theorem relocated_source (htarget : ∀ r, t.node (src ++ r) ≠ none → P (dst ++ r)) (hp : P p)
    (hsrc : src <+: p) (hdst : ¬ dst <+: p) (y : EntryType) : b (keyAt y p) = none := by
  by_cases hdom : ∃ z, Pairs t.node src dst (keyAt y p) z
  · obtain ⟨z, hz⟩ := hdom
    exact hr.left _ z hz
  rw [hr.frame _ (fun z hz => hdom ⟨z, hz⟩) fun x hx => ?_]
  · refine hl.key_none hp fun w hw htype => ?_
    obtain ⟨r, rfl⟩ := hsrc
    exact hdom ⟨_, r, w, hw, by rw [← htype]; rfl, rfl⟩
  · obtain ⟨r', v, hv, -, hy⟩ := hx
    obtain ⟨rfl, -⟩ := keyAt_inj hP hp (htarget r' (by simp [hv])) hy
    exact hdst (List.prefix_append _ _)

theorem relocated_other (htarget : ∀ r, t.node (src ++ r) ≠ none → P (dst ++ r)) (hp : P p)
    (hsrc : ¬ src <+: p) (hdst : ¬ dst <+: p) (y : EntryType) : b (keyAt y p) = a (keyAt y p) := by
  refine hr.frame _ ?_ ?_
  · rintro z ⟨r, v, hv, hx, -⟩
    obtain ⟨rfl, -⟩ := keyAt_inj hP hp (hl.scope _ (by simp [hv])).1 hx
    exact hsrc (List.prefix_append _ _)
  · rintro x ⟨r, v, hv, -, hy⟩
    obtain ⟨rfl, -⟩ := keyAt_inj hP hp (htarget r (by simp [hv])) hy
    exact hdst (List.prefix_append _ _)

omit hP hl hr

omit [Sha256] [ManifestJSON] in
theorem Clear.not_above (h : Clear P t src dst) (hd : DirAt t.node p) : ¬ dst <+: p := by
  rintro ⟨r, rfl⟩
  by_cases hr : r = []
  · subst hr
    exact h.leaf (by simpa using hd)
  · obtain ⟨v, hv, -⟩ := hd
    rw [h.below hr] at hv
    cases hv

/-- Step: the moved tree is laid out when the keys are relocated, the manifests of the two parents
    list it, and nothing else changed. -/
theorem Laid.moved (hP : Scope P) (hl : Laid P a t) {q : Path} {i k : Bytes}
    (hclear : Clear P t (p ++ [i]) (q ++ [k])) (hacc : Accepted (q ++ [k])) (hp : DirAt t.node p)
    (hq : DirAt t.node q) (hout : ¬ p ++ [i] <+: q)
    (hr : Relocates (Pairs t.node (p ++ [i]) (q ++ [k])) a b) {c : Names}
    (hcq : DirStored c (t.move (p ++ [i]) q k hq hout).node q)
    (hcp : DirStored c (t.move (p ++ [i]) q k hq hout).node p)
    (hframe : ∀ n, n ≠ dirKey (render q) → n ≠ dirKey (render p) → c n = b n) :
    Laid P c (t.move (p ++ [i]) q k hq hout) := by
  have hPp : P p := (hl.scope p (by obtain ⟨v, hv, -⟩ := hp; simp [hv])).1
  have hPq : P q := (hl.scope q (by obtain ⟨v, hv, -⟩ := hq; simp [hv])).1
  have hdq : ¬ q ++ [k] <+: q := hclear.not_above hq
  have hdp : ¬ q ++ [k] <+: p := hclear.not_above hp
  have hsp : ¬ p ++ [i] <+: p := fun h => by simpa using h.length_le
  have hcfile : ∀ x, c (keyAt .file x) = b (keyAt .file x) := fun x =>
    hframe _ (dirKey_ne_objKey _ _).symm (dirKey_ne_objKey _ _).symm
  have hcdir : ∀ x, P x → x ≠ q → x ≠ p → c (keyAt .dir x) = b (keyAt .dir x) := fun x hx hxq hxp =>
    hframe _ (hP.dirKey_ne hx hPq hxq) (hP.dirKey_ne hx hPp hxp)
  have hroot : ¬ q ++ [k] <+: [] ∧ ¬ p ++ [i] <+: [] := by simp
  refine ⟨?_, ?_, ?_, ?_, ?_, ?_, ?_⟩
  · -- scope
    intro x hx
    rw [PathTree.node_move] at hx
    by_cases hd : q ++ [k] <+: x
    · obtain ⟨r, rfl⟩ := hd
      rw [PathTree.moved_below] at hx
      refine ⟨hclear.target r hx, fun e he => ?_⟩
      rcases List.mem_append.mp he with he | he
      · exact hacc e he
      · exact (hl.scope _ hx).2 e (List.mem_append_right _ he)
    · by_cases hs : p ++ [i] <+: x
      · exact absurd (PathTree.moved_gone hd hs) hx
      · rw [PathTree.moved_other hd hs] at hx
        exact hl.scope x hx
  · -- root
    rw [PathTree.node_move, DirAt, PathTree.moved_other hroot.1 hroot.2]
    exact hl.root
  · -- files
    intro x hx
    rw [PathTree.node_move]
    change c (keyAt .file x) = _
    rw [hcfile]
    by_cases hd : q ++ [k] <+: x
    · obtain ⟨r, rfl⟩ := hd
      rw [PathTree.moved_below]
      cases hv : t.node (p ++ [i] ++ r) with
      | none => exact relocated_none hP hl hr hclear hx (by rw [hv]; simp)
      | some v =>
        cases v with
        | dir attr => exact relocated_none hP hl hr hclear hx (by rw [hv]; simp [Node.type])
        | file attr content =>
          refine (relocated_target hr hv).trans ((hl.files _ (hl.scope _ (by rw [hv]; simp)).1).trans ?_)
          rw [hv]
    · by_cases hs : p ++ [i] <+: x
      · rw [PathTree.moved_gone hd hs, relocated_source hP hl hr hclear.target hx hs hd]
        rfl
      · rw [PathTree.moved_other hd hs, relocated_other hP hl hr hclear.target hx hs hd]
        exact hl.files x hx
  · -- dirs
    intro x hx hxd
    by_cases hxq : x = q
    · exact Or.inl (hxq ▸ hcq)
    by_cases hxp : x = p
    · exact Or.inl (hxp ▸ hcp)
    have hkey := hcdir x hx hxq hxp
    rw [PathTree.node_move] at hxd ⊢
    by_cases hd : q ++ [k] <+: x
    · obtain ⟨r, rfl⟩ := hd
      rw [DirAt, PathTree.moved_below] at hxd
      obtain ⟨v, hv, hdir⟩ := hxd
      have hsrc : P (p ++ [i] ++ r) := (hl.scope _ (by rw [hv]; simp)).1
      rcases hl.dirs _ hsrc ⟨v, hv, hdir⟩ with ⟨es, hes, hsmall, hlist⟩ | ⟨hnil, -⟩
      · refine Or.inl ⟨es, ?_, hsmall, hlist.nodup, fun e => ?_⟩
        · refine hkey.trans (Eq.trans ?_ hes)
          rw [← type_eq_dir_iff.mpr hdir]
          refine (relocated_target hr hv).trans ?_
          rw [type_eq_dir_iff.mpr hdir]
          rfl
        · rw [List.append_assoc, PathTree.moved_below, ← List.append_assoc]
          exact hlist.mem e
      · simp at hnil
    · by_cases hs : p ++ [i] <+: x
      · rw [DirAt, PathTree.moved_gone hd hs] at hxd
        obtain ⟨v, hv, -⟩ := hxd
        cases hv
      · rw [DirAt, PathTree.moved_other hd hs] at hxd
        rw [relocated_other hP hl hr hclear.target hx hs hd] at hkey
        have hchild : ∀ j, PathTree.moved t.node (p ++ [i]) (q ++ [k]) (x ++ [j]) = t.node (x ++ [j]) := by
          intro j
          refine PathTree.moved_other (fun h => ?_) fun h => ?_
          · rcases List.prefix_concat_iff.mp h with h | h
            · exact hxq (List.append_inj' h rfl).1.symm
            · exact hd h
          · rcases List.prefix_concat_iff.mp h with h | h
            · exact hxp (List.append_inj' h rfl).1.symm
            · exact hs h
        rcases hl.dirs x hx hxd with ⟨es, hes, hsmall, hlist⟩ | ⟨hnil, hes, hlist⟩
        · exact Or.inl ⟨es, hkey.trans hes, hsmall, hlist.congr hchild⟩
        · exact Or.inr ⟨hnil, hkey.trans hes, hlist.congr hchild⟩
  · -- notDir
    intro x hx hxd
    rw [PathTree.node_move] at hxd
    have hxq : x ≠ q := by
      rintro rfl
      refine hxd ?_
      rw [DirAt, PathTree.moved_other hdq hout]
      exact hq
    have hxp : x ≠ p := by
      rintro rfl
      refine hxd ?_
      rw [DirAt, PathTree.moved_other hdp hsp]
      exact hp
    change c (keyAt .dir x) = none
    rw [hcdir x hx hxq hxp]
    by_cases hd : q ++ [k] <+: x
    · obtain ⟨r, rfl⟩ := hd
      rw [DirAt, PathTree.moved_below] at hxd
      exact relocated_none hP hl hr hclear hx fun v hv htype => hxd ⟨v, hv, type_eq_dir_iff.mp htype⟩
    · by_cases hs : p ++ [i] <+: x
      · exact relocated_source hP hl hr hclear.target hx hs hd .dir
      · rw [DirAt, PathTree.moved_other hd hs] at hxd
        rw [relocated_other hP hl hr hclear.target hx hs hd]
        exact hl.notDir x hx hxd
  · -- own
    intro n hn
    by_cases hnq : n = dirKey (render q)
    · exact Or.inl (hnq ▸ List.prefix_append _ _)
    by_cases hnp : n = dirKey (render p)
    · exact Or.inl (hnp ▸ List.prefix_append _ _)
    rw [hframe n hnq hnp] at hn
    have hkey : ∀ y x, n = keyAt y x → dirPrefix <+: n ∨ filePrefix <+: n := by
      rintro (_ | _) x rfl
      · exact Or.inr (List.prefix_append _ _)
      · exact Or.inl (List.prefix_append _ _)
    by_cases hdom : ∃ z, Pairs t.node (p ++ [i]) (q ++ [k]) n z
    · obtain ⟨z, hz⟩ := hdom
      exact absurd (hr.left n z hz) hn
    by_cases hran : ∃ z, Pairs t.node (p ++ [i]) (q ++ [k]) z n
    · obtain ⟨z, r, v, -, -, hy⟩ := hran
      exact hkey _ _ hy
    · rw [hr.frame n (fun z hz => hdom ⟨z, hz⟩) fun z hz => hran ⟨z, hz⟩] at hn
      exact hl.own n hn
  · -- depth
    obtain ⟨d, hd⟩ := hl.depth
    refine ⟨(q ++ [k]).length + d, fun x hx => ?_⟩
    rw [PathTree.node_move] at hx
    by_cases hdx : q ++ [k] <+: x
    · obtain ⟨r, rfl⟩ := hdx
      rw [PathTree.moved_below] at hx
      have := hd _ hx
      simp only [List.length_append] at this ⊢
      omega
    · by_cases hs : p ++ [i] <+: x
      · exact absurd (PathTree.moved_gone hdx hs) hx
      · rw [PathTree.moved_other hdx hs] at hx
        exact (hd x hx).trans (Nat.le_add_left _ _)

end Layout

/-! ### The manifests of the two parents -/

section Parents

variable [Sha256] [ManifestJSON] {β : Type} [BlobStore β] [MapBackend β]

variable {U : Bytes → Prop} {P : Path → Prop} {a b : Names} {t : Tree} {f : FS β} {p q : Path}
  {i k : Bytes} {v : Node} {es es' : List Entry}

/-- The manifests `Rename` is to write are below the size limit. -/
def Room (f : FS β) (src dst : Bytes) : Prop :=
  ∀ sm ∈ (readManifest (parentBase src).1 f).1.toOption,
    ∀ dm ∈ (readManifest (parentBase dst).1 f).1.toOption,
      ∀ e ∈ findEntry sm (parentBase src).2,
        let moved : Entry := { e with name := (parentBase dst).2 }
        if (parentBase dst).1 = (parentBase src).1 then
          (marshal ⟨sm.version, removeEntry (removeEntry sm.entries (parentBase src).2)
            (parentBase dst).2 ++ [moved]⟩).length ≤ maxEntry
        else
          (marshal ⟨dm.version, removeEntry dm.entries (parentBase dst).2 ++ [moved]⟩).length ≤
              maxEntry ∧
            (marshal ⟨sm.version, removeEntry sm.entries (parentBase src).2⟩).length ≤ maxEntry

theorem readManifest_relocated (hU : Distinct U) (hP : Scope P) (hl : Laid P a t)
    (hr : Relocates (Pairs t.node (p ++ [i]) (q ++ [k])) a b)
    (htarget : ∀ r, t.node (p ++ [i] ++ r) ≠ none → P (q ++ [k] ++ r)) (hs : Stores U f b) {d : Path}
    (hd : P d) (hdst : ¬ q ++ [k] <+: d) :
    (DirAt t.node d ∧ ¬ p ++ [i] <+: d ∧ ∃ es, ReadsAs a d es ∧ Lists t.node d es ∧
        readManifest (render d) f = (.ok ⟨manifestVersion, es⟩, f)) ∨
      ((¬ DirAt t.node d ∨ p ++ [i] <+: d) ∧
        readManifest (render d) f = (.error (.sys .enoent), f)) := by
  by_cases hsrc : p ++ [i] <+: d
  · refine Or.inr ⟨Or.inr hsrc, readManifest_missing hU hs (hP.comps d hd) ?_
      (relocated_source hP hl hr htarget hd hsrc hdst .dir)⟩
    rintro rfl
    simp at hsrc
  · have hkey : b (dirKey (render d)) = a (dirKey (render d)) :=
      relocated_other hP hl hr htarget hd hsrc hdst .dir
    by_cases hdir : DirAt t.node d
    · obtain ⟨es, hreads, hlist⟩ := hl.readsAs hP hd hdir
      refine Or.inl ⟨hdir, hsrc, es, hreads, hlist, ReadsAs.read hU hs ?_⟩
      rw [ReadsAs, hkey]
      exact hreads
    · refine Or.inr ⟨Or.inl hdir, readManifest_missing hU hs (hP.comps d hd)
        (fun h => hdir (h ▸ hl.root)) ?_⟩
      rw [hkey]
      exact hl.notDir d hd hdir

omit [ManifestJSON] in
theorem lists_target (hlist : Lists t.node q es) (hv : t.node (p ++ [i]) = some v) (hpq : q ≠ p)
    (hout : ¬ p ++ [i] <+: q) : Lists (PathTree.moved t.node (p ++ [i]) (q ++ [k])) q
      (removeEntry es k ++ [entryOf k v]) := by
  refine (hlist.removeAppend v).congr fun j => ?_
  by_cases hj : j = k
  · subst hj
    have h := PathTree.moved_below t.node (p ++ [i]) (q ++ [j]) []
    rw [List.append_nil, List.append_nil, hv] at h
    rw [h, Function.update_self]
  · have hne : q ++ [j] ≠ q ++ [k] := fun h => hj (by simpa using h)
    rw [Function.update_of_ne hne]
    refine PathTree.moved_other (fun h => ?_) fun h => ?_
    · rcases List.prefix_concat_iff.mp h with h | h
      · exact hne h.symm
      · simpa using h.length_le
    · rcases List.prefix_concat_iff.mp h with h | h
      · exact hpq (List.append_inj' h rfl).1.symm
      · exact hout h

omit [ManifestJSON] in
theorem lists_source (hlist : Lists t.node p es) (hpq : q ≠ p) (hdp : ¬ q ++ [k] <+: p) :
    Lists (PathTree.moved t.node (p ++ [i]) (q ++ [k])) p (removeEntry es i) := by
  refine hlist.remove.congr fun j => ?_
  have hdst : ¬ q ++ [k] <+: p ++ [j] := by
    intro h
    rcases List.prefix_concat_iff.mp h with h | h
    · exact hpq (List.append_inj' h rfl).1
    · exact hdp h
  by_cases hj : j = i
  · subst hj
    rw [Function.update_self, PathTree.moved_gone hdst List.prefix_rfl]
  · have hne : p ++ [j] ≠ p ++ [i] := fun h => hj (by simpa using h)
    rw [Function.update_of_ne hne]
    refine PathTree.moved_other hdst fun h => ?_
    rcases List.prefix_concat_iff.mp h with h | h
    · exact hne h.symm
    · simpa using h.length_le

omit [ManifestJSON] in
theorem lists_renamed (hlist : Lists t.node p es) (hv : t.node (p ++ [i]) = some v) :
    Lists (PathTree.moved t.node (p ++ [i]) (p ++ [k])) p
      (removeEntry (removeEntry es i) k ++ [entryOf k v]) := by
  refine (hlist.remove.removeAppend v).congr fun j => ?_
  by_cases hj : j = k
  · subst hj
    have h := PathTree.moved_below t.node (p ++ [i]) (p ++ [j]) []
    rw [List.append_nil, List.append_nil, hv] at h
    rw [h, Function.update_self]
  · have hother : ∀ m : Bytes, j ≠ m → ¬ p ++ [m] <+: p ++ [j] := by
      intro m hm h
      have := h.eq_of_length (by simp)
      exact hm (by simpa using this.symm)
    have hne : p ++ [j] ≠ p ++ [k] := fun h => hj (by simpa using h)
    rw [Function.update_of_ne hne]
    by_cases hji : j = i
    · subst hji
      rw [Function.update_self, PathTree.moved_gone (hother k hj) List.prefix_rfl]
    · have hne' : p ++ [j] ≠ p ++ [i] := fun h => hji (by simpa using h)
      rw [Function.update_of_ne hne', PathTree.moved_other (hother k hj) (hother i hji)]

theorem moveEntry_moved (hU : Distinct U) (hP : Scope P) (hl : Laid P a t)
    (hclear : Clear P t (p ++ [i]) (q ++ [k])) (hacc : Accepted (q ++ [k])) (hPp : P (p ++ [i]))
    (hPq : P (q ++ [k])) (hv : t.node (p ++ [i]) = some v)
    (hr : Relocates (Pairs t.node (p ++ [i]) (q ++ [k])) a b) (hs : Stores U f b)
    (hreads : ReadsAs a p es) (hlist : Lists t.node p es) {f₀ : FS β} (hs₀ : Stores U f₀ a)
    (hq : DirAt t.node q) (hout : ¬ p ++ [i] <+: q) (now : Int)
    (hknown : ∀ x ∈ (moveEntry now (render (p ++ [i])) (render (q ++ [k])) ⟨manifestVersion, es⟩
      (entryOf k v) f).2.log, x.Known U) :
    (∃ f', moveEntry now (render (p ++ [i])) (render (q ++ [k])) ⟨manifestVersion, es⟩
        (entryOf k v) f = (.ok (), f') ∧ Shows U P f' (t.move (p ++ [i]) q k hq hout)) ∨
      ∃ e f', moveEntry now (render (p ++ [i])) (render (q ++ [k])) ⟨manifestVersion, es⟩
        (entryOf k v) f = (.error e, f') ∧ ¬ Room f₀ (render (p ++ [i])) (render (q ++ [k])) := by
  have hpb := parentBase_render (hP.comps _ hPp)
  have hqb := parentBase_render (hP.comps _ hPq)
  have hp : DirAt t.node p := t.closed p i (by rw [hv]; simp)
  have hdq : ¬ q ++ [k] <+: q := hclear.not_above hq
  have hdp : ¬ q ++ [k] <+: p := hclear.not_above hp
  have hfind : findEntry ⟨manifestVersion, es⟩ i = some (entryOf i v) := by rw [hlist.find, hv]; rfl
  have hname : ({ entryOf i v with name := k } : Entry) = entryOf k v := by cases v <;> rfl
  obtain ⟨-, -, dm, hdreads, hdlist, hdread⟩ :=
    (readManifest_relocated hU hP hl hr hclear.target hs (hP.parent q k hPq) hdq).resolve_right
      fun h => h.1.elim (fun h => h hq) hout
  have hroom : Room f₀ (render (p ++ [i])) (render (q ++ [k])) →
      if render q = render p then
        (marshal ⟨manifestVersion, removeEntry (removeEntry es i) k ++ [entryOf k v]⟩).length ≤ maxEntry
      else (marshal ⟨manifestVersion, removeEntry dm k ++ [entryOf k v]⟩).length ≤ maxEntry ∧
        (marshal ⟨manifestVersion, removeEntry es i⟩).length ≤ maxEntry := by
    intro h
    unfold Room at h
    rw [hpb, hqb] at h
    have := h ⟨manifestVersion, es⟩ (by rw [hreads.read hU hs₀]; rfl) ⟨manifestVersion, dm⟩
      (by rw [hdreads.read hU hs₀]; rfl) _ hfind
    rwa [← hname]
  by_cases hpq : q = p
  · -- one manifest
    subst hpq
    obtain rfl : dm = es := by
      have h₁ := hdreads.read hU hs₀
      rw [hreads.read hU hs₀] at h₁
      simpa using h₁.symm
    rw [if_pos rfl] at hroom
    have hstart : moveEntry now (render (q ++ [i])) (render (q ++ [k])) ⟨manifestVersion, dm⟩
        (entryOf k v) f = writeManifest now (render q)
          ⟨manifestVersion, removeEntry (removeEntry dm i) k ++ [entryOf k v]⟩ f := by
      simp only [moveEntry, hpb, hqb, if_true]
      rw [Prog.bind_of_ok hdread]
    rw [hstart] at hknown ⊢
    rcases writeManifest_cases hs now _ _ hknown with ⟨hbig, e, f', hw⟩ | ⟨hsmall, f', hw, hs'⟩
    · exact Or.inr ⟨e, f', hw, fun h => hbig (hroom h)⟩
    · have hstored : DirStored (Function.update b (dirKey (render q)) (some (marshal
          ⟨manifestVersion, removeEntry (removeEntry dm i) k ++ [entryOf k v]⟩)))
          (t.move (q ++ [i]) q k hq hout).node q :=
        ⟨_, Function.update_self .., hsmall, lists_renamed hlist hv⟩
      refine Or.inl ⟨f', hw, _, hs', hl.moved hP hclear hacc hp hq hout hr hstored hstored ?_⟩
      intro n hn _
      rw [Function.update_of_ne hn]
  · -- the new parent's manifest, then the old parent's
    have hrender : render q ≠ render p := fun h => hpq
      (render_inj (hP.comps q (hP.parent q k hPq)) (hP.comps p (hP.parent p i hPp)) h)
    have hkeys : dirKey (render q) ≠ dirKey (render p) :=
      hP.dirKey_ne (hP.parent q k hPq) (hP.parent p i hPp) hpq
    rw [if_neg hrender] at hroom
    have hstart : moveEntry now (render (p ++ [i])) (render (q ++ [k])) ⟨manifestVersion, es⟩
        (entryOf k v) f = (do
          writeManifest now (render q) ⟨manifestVersion, removeEntry dm k ++ [entryOf k v]⟩
          writeManifest now (render p) ⟨manifestVersion, removeEntry es i⟩ : Call β Unit) f := by
      simp only [moveEntry, hpb, hqb, if_neg hrender]
      rw [Prog.bind_of_ok hdread]
    rw [hstart] at hknown ⊢
    have hknown₁ : ∀ x ∈ (writeManifest now (render q)
        ⟨manifestVersion, removeEntry dm k ++ [entryOf k v]⟩ f).2.log, x.Known U := fun x hx =>
      hknown x (mem_log_bind (fun _ => grows_writeManifest _ _ _) hx)
    rcases writeManifest_cases hs now _ _ hknown₁ with ⟨hbig, e, f', hw⟩ | ⟨hsmall, f₁, hw₁, hs₁⟩
    · exact Or.inr ⟨e, f', Prog.bind_of_error hw _, fun h => hbig (hroom h).1⟩
    rw [Prog.bind_of_ok hw₁] at hknown ⊢
    rcases writeManifest_cases hs₁ now _ _ hknown with ⟨hbig, e, f', hw⟩ | ⟨hsmall', f', hw, hs'⟩
    · exact Or.inr ⟨e, f', hw, fun h => hbig (hroom h).2⟩
    refine Or.inl ⟨f', hw, _, hs', hl.moved hP hclear hacc hp hq hout hr
      ⟨_, ?_, hsmall, lists_target hdlist hv hpq hout⟩ ⟨_, ?_, hsmall', lists_source hlist hpq hdp⟩ ?_⟩
    · rw [Function.update_of_ne hkeys, Function.update_self]
    · rw [Function.update_self]
    · intro n hnq hnp
      rw [Function.update_of_ne hnp, Function.update_of_ne hnq]

omit [MapBackend β] in
theorem moveEntry_missing (hP : Scope P) (hPp : P (p ++ [i])) (hPq : P (q ++ [k])) (hpq : q ≠ p)
    (hread : readManifest (render q) f = (.error (.sys .enoent), f)) (now : Int) (sm : DirManifest)
    (e : Entry) : ∃ e', moveEntry now (render (p ++ [i])) (render (q ++ [k])) sm e f = (.error e', f) := by
  have hrender : render q ≠ render p := fun h => hpq
    (render_inj (hP.comps q (hP.parent q k hPq)) (hP.comps p (hP.parent p i hPp)) h)
  refine ⟨.sys .enoent, ?_⟩
  simp only [moveEntry, parentBase_render (hP.comps _ hPp), parentBase_render (hP.comps _ hPq),
    if_neg hrender]
  rw [Prog.bind_of_error hread]

end Parents

/-! ### One `Rename` -/

/-- A rename that moves what it finds: not onto itself, and no directory onto a directory. -/
def Movable (t : Tree) (src dst : Path) : Prop :=
  src ≠ dst ∧ ¬ (DirAt t.node src ∧ DirAt t.node dst)

/-- A rename whose checks come before its moves: a source that is there goes below a directory, and a
    directory to a free place that is not inside it. -/
def Safe (t : Tree) (src dst : Path) : Prop :=
  t.node src ≠ none → src ≠ dst ∧ DirAt t.node dst.dropLast ∧
    (DirAt t.node src → t.node dst = none ∧ ¬ src <+: dst)

theorem Safe.movable {t : Tree} {src dst : Path} (h : Safe t src dst) (hthere : t.node src ≠ none) :
    Movable t src dst := by
  refine ⟨(h hthere).1, fun hboth => ?_⟩
  obtain ⟨v, hv, -⟩ := hboth.2
  rw [((h hthere).2.2 hboth.1).1] at hv
  cases hv

section Rename

variable [Sha256] [ManifestJSON] {β : Type} [BlobStore β] [MapBackend β]

variable {U : Bytes → Prop} {P : Path → Prop} {a b : Names} {t : Tree} {f : FS β} {p q : Path}
  {i k : Bytes} {v : Node} {es : List Entry}

/-- How `Rename` ends: with the tree moved, or in an error, and then nothing changed if the rename
    was safe and the store did not fail. -/
def Ends (U : Bytes → Prop) (P : Path → Prop) (t : Tree) (src dst : Path) (safe : Prop) :
    Except Err Unit × FS β → Prop
  | (.ok _, f) => ∃ t' : Tree, t'.node = PathTree.moved t.node src dst ∧ Shows U P f t'
  | (.error _, f) => safe → Shows U P f t ∨ ∃ e, .failed e ∈ f.log

variable {src dst : Path}

omit [ManifestJSON] in
theorem route_of_free (hP : Scope P) (hscope : ∀ x, t.node x ≠ none → P x)
    (htarget : ∀ r, t.node (src ++ r) ≠ none → P (dst ++ r)) (hd : DirAt t.node src)
    (hleaf : ¬ DirAt t.node dst) : Route P t.node src dst where
  source r hr := hscope _ hr
  target := htarget
  free r v r' v' hv hv' hkey := by
    obtain ⟨hpath, htype⟩ := keyAt_inj hP (hscope _ (by rw [hv]; simp)) (htarget r' (by rw [hv']; simp))
      hkey
    rw [hpath] at hv
    by_cases hr' : r' = []
    · subst hr'
      rw [List.append_nil] at hv hv'
      obtain ⟨w, hw, hdir⟩ := hd
      rw [hv'] at hw
      cases hw
      exact hleaf ⟨v, hv, type_eq_dir_iff.mp (htype.trans (type_eq_dir_iff.mpr hdir))⟩
    · exact hleaf (t.inner_above hr' (by rw [hv]; simp))

theorem Laid.intact (hl : Laid P a t) (hsrc : src ≠ []) : Intact a t.node src where
  files r attr c hv := by
    rw [hl.files _ (hl.scope _ (by rw [hv]; simp)).1, hv]
    rfl
  dirs r hd := by
    have hthere : t.node (src ++ r) ≠ none := by
      obtain ⟨v, hv, -⟩ := hd
      rw [hv]
      simp
    rcases hl.dirs _ (hl.scope _ hthere).1 hd with h | ⟨hnil, -⟩
    · exact h
    · simp [hsrc] at hnil

theorem rename_start (hU : Distinct U) (hP : Scope P) (hs : Stores U f a) (hl : Laid P a t)
    (now : Int) (fuel : ℕ) (hsrc : P src) (hdst : P dst) :
    (∃ e, rename now fuel (render src) (render dst) f = some (.error e, f)) ∨
      ∃ p i q k v es, src = p ++ [i] ∧ dst = q ++ [k] ∧ Accepted dst ∧ t.node src = some v ∧
        ReadsAs a p es ∧ Lists t.node p es ∧
        rename now fuel (render src) (render dst) f = (match v with
          | .file _ _ => monadLift (do
              overwriteTarget now (render dst) .file
              moveObject now (render src) (render dst) (entryOf i v)
              moveEntry now (render src) (render dst) ⟨manifestVersion, es⟩ (entryOf k v) : Call β Unit)
          | .dir _ => do
              rewriteSubtree now fuel (render src) (render dst)
              monadLift (do
                overwriteTarget now (render dst) .dir
                moveEntry now (render src) (render dst) ⟨manifestVersion, es⟩ (entryOf k v) :
                  Call β Unit) : Loop (FS β) Err Unit) f := by
  by_cases hacc : Accepted src
  swap
  · obtain ⟨e, he⟩ := normalizePath_refused (hP.comps _ hsrc) hacc
    exact Or.inl ⟨e, Loop.bind_lift_error (Prog.ofExcept_eq he f) _⟩
  have hnorm := normalizePath_accepted (hP.comps _ hsrc) hacc
  by_cases hacc' : Accepted dst
  swap
  · obtain ⟨e, he⟩ := normalizePath_refused (hP.comps _ hdst) hacc'
    refine Or.inl ⟨e, ?_⟩
    rw [rename, Loop.bind_lift_ok (Prog.ofExcept_eq hnorm f),
      Loop.bind_lift_error (Prog.ofExcept_eq he f)]
  have hnorm' := normalizePath_accepted (hP.comps _ hdst) hacc'
  by_cases hroot : render src = [slash] ∨ render dst = [slash]
  · refine Or.inl ⟨.wrap "momofs: cannot rename root: %w" [] (.sys .einval), ?_⟩
    rw [rename, Loop.bind_lift_ok (Prog.ofExcept_eq hnorm f),
      Loop.bind_lift_ok (Prog.ofExcept_eq hnorm' f), if_pos hroot]
    rfl
  have hlast : ∀ x : Path, P x → render x ≠ [slash] → ∃ y j, x = y ++ [j] := fun x hx hne =>
    have hx' : x ≠ [] := fun h => hne ((render_eq_root (hP.comps _ hx)).mpr h)
    ⟨x.dropLast, x.getLast hx', (List.dropLast_append_getLast hx').symm⟩
  obtain ⟨p, i, rfl⟩ := hlast src hsrc fun h => hroot (Or.inl h)
  obtain ⟨q, k, rfl⟩ := hlast dst hdst fun h => hroot (Or.inr h)
  have hpb := parentBase_render (hP.comps _ hsrc)
  have hqb := parentBase_render (hP.comps _ hdst)
  by_cases hd : DirAt t.node p
  swap
  · refine Or.inl ⟨.sys .enoent, ?_⟩
    rw [rename, Loop.bind_lift_ok (Prog.ofExcept_eq hnorm f),
      Loop.bind_lift_ok (Prog.ofExcept_eq hnorm' f), if_neg hroot, hpb,
      Loop.bind_lift_error (readManifest_notDir hU hP hs hl (hP.parent p i hsrc) hd)]
  obtain ⟨es, hreads, hlist⟩ := hl.readsAs hP (hP.parent p i hsrc) hd
  cases hv : t.node (p ++ [i]) with
  | none =>
    refine Or.inl ⟨noSuchEntry (render (p ++ [i])), ?_⟩
    rw [rename, Loop.bind_lift_ok (Prog.ofExcept_eq hnorm f),
      Loop.bind_lift_ok (Prog.ofExcept_eq hnorm' f), if_neg hroot, hpb,
      Loop.bind_lift_ok (hreads.read hU hs), hlist.find, hv]
    rfl
  | some v =>
    refine Or.inr ⟨p, i, q, k, v, es, rfl, rfl, hacc', rfl, hreads, hlist, ?_⟩
    rw [rename, Loop.bind_lift_ok (Prog.ofExcept_eq hnorm f),
      Loop.bind_lift_ok (Prog.ofExcept_eq hnorm' f), if_neg hroot, hpb, hqb,
      Loop.bind_lift_ok (hreads.read hU hs), hlist.find, hv]
    cases v <;> (simp only [Loop.lift_bind]; rfl)

theorem overwriteTarget_file (hU : Distinct U) (hP : Scope P) (hs : Stores U f a) (hl : Laid P a t)
    (now : Int) (hdst : P (q ++ [k])) :
    (∃ e, overwriteTarget now (render (q ++ [k])) .file f = (.error e, f)) ∨
      (¬ DirAt t.node (q ++ [k]) ∧ ∃ f' a', overwriteTarget now (render (q ++ [k])) .file f =
        (.ok (), f') ∧ Stores U f' a' ∧ ∀ n, n ≠ objKey (render (q ++ [k])) → a' n = a n) := by
  have hqb := parentBase_render (hP.comps _ hdst)
  by_cases hq : DirAt t.node q
  · obtain ⟨es, hread, hlist⟩ := readManifest_dir hU hP hs hl (hP.parent q k hdst) hq
    rw [overwriteTarget, hqb, Prog.bind_of_ok (Prog.attempt_eq hread)]
    simp only [hlist.find]
    cases hv : t.node (q ++ [k]) with
    | none => exact Or.inr ⟨by simp [hv], f, a, rfl, hs, fun _ _ => rfl⟩
    | some w =>
      cases w with
      | dir attr => exact Or.inl ⟨_, rfl⟩
      | file attr c =>
        obtain ⟨f', hdel, hs'⟩ := storeDelete_eq hs now (length_objKey (render (q ++ [k])))
        simp only [Option.map_some, entryOf_type, Node.type, ne_eq, not_true_eq_false, if_false]
        refine Or.inr ⟨not_dirAt_file hv, f', _, hdel, hs', fun n hn => ?_⟩
        rw [Function.update_of_ne hn]
  · have hread := readManifest_notDir hU hP hs hl (hP.parent q k hdst) hq
    refine Or.inr ⟨fun h => hq ?_, f, a, ?_, hs, fun _ _ => rfl⟩
    · obtain ⟨w, hw, -⟩ := h
      exact t.closed q k (by rw [hw]; simp)
    · rw [overwriteTarget, hqb, Prog.bind_of_ok (Prog.attempt_eq hread)]
      rfl

variable {res : Except Err Unit × FS β}

theorem renameFile_ends (hU : Distinct U) (hP : Scope P) (hs : Stores U f a) (hl : Laid P a t)
    (hsrc : P (p ++ [i])) (hdst : P (q ++ [k])) (hacc : Accepted (q ++ [k])) {attr : Attr}
    {c : Bytes} (hv : t.node (p ++ [i]) = some (.file attr c)) (hne : p ++ [i] ≠ q ++ [k])
    (hreads : ReadsAs a p es) (hlist : Lists t.node p es) (now : Int) (hres : (do
      overwriteTarget now (render (q ++ [k])) .file
      moveObject now (render (p ++ [i])) (render (q ++ [k])) (entryOf i (.file attr c))
      moveEntry now (render (p ++ [i])) (render (q ++ [k])) ⟨manifestVersion, es⟩
        (entryOf k (.file attr c)) : Call β Unit) f = res) (hknown : ∀ x ∈ res.2.log, x.Known U) :
    Ends U P t (p ++ [i]) (q ++ [k])
      (Safe t (p ++ [i]) (q ++ [k]) ∧ Room f (render (p ++ [i])) (render (q ++ [k]))) res := by
  have hthere : t.node (p ++ [i]) ≠ none := by rw [hv]; simp
  have hleaf := leaf_of_not_dirAt (not_dirAt_file hv)
  have htarget : ∀ r, t.node (p ++ [i] ++ r) ≠ none → P (q ++ [k] ++ r) := by
    intro r hr
    by_cases hnil : r = []
    · rw [hnil, List.append_nil]
      exact hdst
    · exact absurd (t.none_below hleaf hnil) hr
  rcases overwriteTarget_file hU hP hs hl now hdst with ⟨e, hover⟩ | ⟨hnot, f₁, a₁, hover, hs₁, hsame⟩
  · rw [Prog.bind_of_error hover] at hres
    subst hres
    exact fun _ => Or.inl ⟨a, hs, hl⟩
  rw [Prog.bind_of_ok hover] at hres
  -- the object goes from one key to the other
  have hkeys : objKey (render (p ++ [i])) ≠ objKey (render (q ++ [k])) := hP.objKey_ne hsrc hdst hne
  have hkey : a₁ (objKey (render (p ++ [i]))) = some c := by
    rw [hsame _ hkeys, hl.files _ hsrc, hv]
    rfl
  have hmoved := moveObject_moved (e := entryOf i (.file attr c)) hs₁ now rfl
    (Int.natCast_nonneg _) hkey hkeys
  rcases hmove : moveObject now (render (p ++ [i])) (render (q ++ [k])) (entryOf i (.file attr c)) f₁
    with ⟨_ | _, f₂⟩
  · rw [hmove] at hmoved
    rw [Prog.bind_of_error hmove] at hres
    subst hres
    exact fun _ => Or.inr hmoved
  rw [hmove] at hmoved
  obtain ⟨b, hs₂, hr₁⟩ := hmoved
  have hr : Relocates (Pairs t.node (p ++ [i]) (q ++ [k])) a b := by
    refine Relocates.congr (pairs_file_iff hv fun r hr => t.none_below hleaf hr) (hr₁.start ?_ ?_)
    · rintro x y ⟨rfl, rfl⟩
      exact hsame _ hkeys
    · exact fun z hz => hsame z fun h => hz _ ⟨rfl, h⟩
  rw [Prog.bind_of_ok hmove] at hres
  have hdq : ¬ q ++ [k] <+: q := fun h => by simpa using h.length_le
  rcases readManifest_relocated hU hP hl hr htarget hs₂ (hP.parent q k hdst) hdq
    with ⟨hq, hout, -⟩ | ⟨hbad, hread⟩
  · have hclear : Clear P t (p ++ [i]) (q ++ [k]) :=
      ⟨htarget, hthere, hnot, hne, fun _ => not_dirAt_file hv⟩
    rw [← hres] at hknown
    rcases moveEntry_moved hU hP hl hclear hacc hsrc hdst hv hr hs₂ hreads hlist hs hq hout now hknown
      with ⟨f', hentry, hshows⟩ | ⟨e, f', hentry, hroom⟩
    · rw [hentry] at hres
      subst hres
      exact ⟨_, rfl, hshows⟩
    · rw [hentry] at hres
      subst hres
      exact fun hsafe => absurd hsafe.2 hroom
  · have hp : DirAt t.node p := t.closed p i hthere
    have hpq : q ≠ p := by
      rintro rfl
      rcases hbad with h | h
      · exact h hp
      · simpa using h.length_le
    obtain ⟨e, hentry⟩ := moveEntry_missing hP hsrc hdst hpq hread now ⟨manifestVersion, es⟩
      (entryOf k (.file attr c))
    rw [hentry] at hres
    subst hres
    intro hsafe
    have hq : DirAt t.node q := by simpa using (hsafe.1 hthere).2.1
    rcases hbad with h | h
    · exact absurd hq h
    · exact absurd (dirAt_above h hq) (not_dirAt_file hv)

theorem renameDir_ends (hU : Distinct U) (hP : Scope P) (hs : Stores U f a) (hl : Laid P a t)
    (hsrc : P (p ++ [i])) (hdst : P (q ++ [k])) (hacc : Accepted (q ++ [k])) {attr : Attr}
    (htarget : ∀ r, t.node (p ++ [i] ++ r) ≠ none → P (q ++ [k] ++ r))
    (hv : t.node (p ++ [i]) = some (.dir attr)) (hnot : ¬ DirAt t.node (q ++ [k]))
    (hreads : ReadsAs a p es) (hlist : Lists t.node p es)
    (hr : Relocates (Pairs t.node (p ++ [i]) (q ++ [k])) a b) {f₁ : FS β} (hs₁ : Stores U f₁ b)
    (now : Int) (hres : (do
      overwriteTarget now (render (q ++ [k])) .dir
      moveEntry now (render (p ++ [i])) (render (q ++ [k])) ⟨manifestVersion, es⟩
        (entryOf k (.dir attr)) : Call β Unit) f₁ = res) (hknown : ∀ x ∈ res.2.log, x.Known U) :
    Ends U P t (p ++ [i]) (q ++ [k])
      (Safe t (p ++ [i]) (q ++ [k]) ∧ Room f (render (p ++ [i])) (render (q ++ [k]))) res := by
  have hthere : t.node (p ++ [i]) ≠ none := by rw [hv]; simp
  have hd : DirAt t.node (p ++ [i]) := ⟨_, hv, trivial⟩
  have hqb := parentBase_render (hP.comps _ hdst)
  have hdq : ¬ q ++ [k] <+: q := fun h => by simpa using h.length_le
  rcases readManifest_relocated hU hP hl hr htarget hs₁ (hP.parent q k hdst) hdq
    with ⟨hq, hout, dm, -, hdlist, hread⟩ | ⟨hbad, hread⟩
  · cases hw : t.node (q ++ [k]) with
    | some w =>
      -- a file at the destination is noticed now, with the subtree moved
      have hover : ∃ e, overwriteTarget now (render (q ++ [k])) .dir f₁ = (.error e, f₁) := by
        rw [overwriteTarget, hqb, Prog.bind_of_ok (Prog.attempt_eq hread)]
        simp only [hdlist.find, hw]
        cases w with
        | dir attr => exact absurd ⟨_, hw, trivial⟩ hnot
        | file attr c => exact ⟨_, rfl⟩
      obtain ⟨e, hover⟩ := hover
      rw [Prog.bind_of_error hover] at hres
      subst hres
      intro hsafe
      rw [((hsafe.1 hthere).2.2 hd).1] at hw
      cases hw
    | none =>
      have hover : overwriteTarget now (render (q ++ [k])) .dir f₁ = (.ok (), f₁) := by
        rw [overwriteTarget, hqb, Prog.bind_of_ok (Prog.attempt_eq hread)]
        simp only [hdlist.find, hw]
        rfl
      rw [Prog.bind_of_ok hover] at hres
      have hclear : Clear P t (p ++ [i]) (q ++ [k]) :=
        ⟨htarget, hthere, hnot, fun h => hnot (h ▸ hd), fun h => absurd hw h⟩
      rw [← hres] at hknown
      rcases moveEntry_moved hU hP hl hclear hacc hsrc hdst hv hr hs₁ hreads hlist hs hq hout now
        hknown with ⟨f', hentry, hshows⟩ | ⟨e, f', hentry, hroom⟩
      · rw [hentry] at hres
        subst hres
        exact ⟨_, rfl, hshows⟩
      · rw [hentry] at hres
        subst hres
        exact fun hsafe => absurd hsafe.2 hroom
  · -- the destination's parent is missing, or has gone with the subtree
    have hover : overwriteTarget now (render (q ++ [k])) .dir f₁ = (.ok (), f₁) := by
      rw [overwriteTarget, hqb, Prog.bind_of_ok (Prog.attempt_eq hread)]
      rfl
    rw [Prog.bind_of_ok hover] at hres
    have hp : DirAt t.node p := t.closed p i hthere
    have hpq : q ≠ p := by
      rintro rfl
      rcases hbad with h | h
      · exact h hp
      · simpa using h.length_le
    obtain ⟨e, hentry⟩ := moveEntry_missing hP hsrc hdst hpq hread now ⟨manifestVersion, es⟩
      (entryOf k (.dir attr))
    rw [hentry] at hres
    subst hres
    intro hsafe
    obtain ⟨-, hq, hfree⟩ := hsafe.1 hthere
    rcases hbad with h | h
    · exact absurd (by simpa using hq) h
    · exact absurd (h.trans (List.prefix_append q [k])) (hfree hd).2

theorem rename_ends (hU : Distinct U) (hP : Scope P) (hs : Stores U f a) (hl : Laid P a t)
    (hsrc : P src) (hdst : P dst) (htarget : ∀ r, t.node (src ++ r) ≠ none → P (dst ++ r))
    (hmovable : t.node src ≠ none → Movable t src dst) {now : Int} {fuel : ℕ}
    (hres : rename now fuel (render src) (render dst) f = some res)
    (hknown : ∀ x ∈ res.2.log, x.Known U) :
    Ends U P t src dst (Safe t src dst ∧ Room f (render src) (render dst)) res := by
  rcases rename_start hU hP hs hl now fuel hsrc hdst with
    ⟨e, hstart⟩ | ⟨p, i, q, k, v, es, rfl, rfl, hacc, hv, hreads, hlist, hstart⟩
  · obtain rfl : (.error e, f) = res := Option.some.inj (hstart.symm.trans hres)
    exact fun _ => Or.inl ⟨a, hs, hl⟩
  rw [hstart] at hres
  obtain ⟨hne, hdirs⟩ := hmovable (by rw [hv]; simp)
  cases v with
  | file attr c =>
    exact renameFile_ends hU hP hs hl hsrc hdst hacc hv hne hreads hlist now (Option.some.inj hres)
      hknown
  | dir attr =>
    have hd : DirAt t.node (p ++ [i]) := ⟨_, hv, trivial⟩
    have hnot : ¬ DirAt t.node (q ++ [k]) := fun h => hdirs ⟨hd, h⟩
    have hmoved := rewriteSubtree_moved (t := t) hU hP now fuel
      (route_of_free hP (fun x hx => (hl.scope x hx).1) htarget hd hnot) hd hs
      (hl.intact (by simp))
    simp only at hres
    rcases hrun : rewriteSubtree now fuel (render (p ++ [i])) (render (q ++ [k])) f with
      _ | ⟨_ | _, f₁⟩
    · rw [Loop.bind_of_none hrun] at hres
      cases hres
    · rw [hrun] at hmoved
      rw [Loop.bind_of_error hrun] at hres
      obtain rfl := Option.some.inj hres
      exact fun _ => Or.inr hmoved
    · rw [hrun] at hmoved
      obtain ⟨b, hs₁, hr⟩ := hmoved
      rw [Loop.bind_of_ok hrun] at hres
      exact renameDir_ends hU hP hs hl hsrc hdst hacc htarget hv hnot hreads hlist hr hs₁ now
        (Option.some.inj hres) hknown

end Rename

end Momo.Momofs
