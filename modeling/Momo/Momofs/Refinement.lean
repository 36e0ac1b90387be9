import Momo.Momofs.Reads
import Momo.Schemes.Code

/-! @momo src/momofs/momofs.go | scheme:simulation of the tree, one change per request

    Every request keeps the layout. Each of `Mkdir`, `Create`, `Remove`, `Link` and `SetAttr` changes
    one node of the tree, and in the store the manifest of the parent and the two keys of the path;
    `Laid.change` says once that this is enough. A request that fails has written nothing the layout
    speaks of. -/

namespace Momo.Momofs

open CASStore (Names Sim)
open ManifestJSON Prog

/-! ### What a call hands to the store -/

/-- A content or a manifest is among the `U`. -/
def Sent.Known (U : Bytes → Prop) : Sent → Prop
  | .content c => U c
  | .manifest data => U data
  | .failed _ => True

def Sent.Small : Sent → Prop
  | .manifest data => data.length ≤ maxEntry
  | _ => True

def Sound (U : Bytes → Prop) (log : List Sent) : Prop := ∀ x ∈ log, x.Known U ∧ x.Small

def Grows {β α : Type} (x : Call β α) : Prop := ∀ f, ∀ s ∈ f.log, s ∈ (x f).2.log

section Log

variable {β α γ : Type}

theorem grows_pure (v : α) : Grows (pure v : Call β α) := fun _ _ hs => hs

variable {x : Call β α} {g : α → Call β γ}

theorem grows_bind (hx : Grows x) (hg : ∀ v, Grows (g v)) : Grows (x >>= g) := by
  intro f s hs
  rcases hxf : x f with ⟨r, f'⟩
  have hs' : s ∈ f'.log := by
    have := hx f s hs
    rwa [hxf] at this
  cases r with
  | error e =>
    rw [bind_of_error hxf]
    exact hs'
  | ok v =>
    rw [bind_of_ok hxf]
    exact hg v f' s hs'

theorem mem_log_bind {f : FS β} (hg : ∀ v, Grows (g v)) {s : Sent} (hs : s ∈ (x f).2.log) :
    s ∈ ((x >>= g) f).2.log := by
  rcases hxf : x f with ⟨r, f'⟩
  rw [hxf] at hs
  cases r with
  | error e =>
    rw [bind_of_error hxf]
    exact hs
  | ok v =>
    rw [bind_of_ok hxf]
    exact hg v f' s hs

theorem sound_of_bind {U : Bytes → Prop} {f : FS β} (hg : ∀ v, Grows (g v))
    (h : Sound U ((x >>= g) f).2.log) : Sound U (x f).2.log :=
  fun s hs => h s (mem_log_bind hg hs)

variable [BlobStore β]

theorem grows_storePut (now : Int) (key hash : Bytes) (size : Int) (remotePath : Bytes)
    (content : Option Bytes) : Grows (storePut (β := β) now key hash size remotePath content) := by
  intro f s hs
  unfold storePut
  split <;> simp [hs]

theorem content_mem_storePut (now : Int) (key hash : Bytes) (size : Int) (remotePath c : Bytes)
    (f : FS β) : .content c ∈ (storePut now key hash size remotePath (some c) f).2.log := by
  unfold storePut
  split <;> simp

variable [Sha256] [ManifestJSON]

theorem grows_writeManifest (now : Int) (q : Bytes) (m : DirManifest) :
    Grows (writeManifest (β := β) now q m) := by
  refine grows_bind (fun f s hs => List.mem_cons_of_mem _ hs) fun _ => ?_
  split_ifs
  · exact fun _ _ hs => hs
  · exact grows_storePut _ _ _ _ _ _

theorem manifest_mem_writeManifest (now : Int) (q : Bytes) (m : DirManifest) (f : FS β) :
    .manifest (marshal m) ∈ (writeManifest now q m f).2.log := by
  unfold writeManifest
  rw [bind_of_ok (show noteManifest (marshal m) f =
    (.ok (), { f with log := .manifest (marshal m) :: f.log }) from rfl)]
  split_ifs
  · exact List.mem_cons_self
  · exact grows_storePut _ _ _ _ _ _ _ _ List.mem_cons_self

end Log

/-! ### Writing to the store -/

theorem keyOk_of_length {key : Bytes} (h : key.length = 50) : KeyOk key := by
  refine ⟨?_, by rw [h]; decide⟩
  rintro rfl
  cases h

section Writes

variable [Sha256] {β : Type} [BlobStore β] [MapBackend β]
variable {U : Bytes → Prop} {a : Names} {f : FS β}

omit [MapBackend β] in
theorem writeManifest_noted [ManifestJSON] (now : Int) (q : Bytes) (m : DirManifest) (f : FS β) :
    writeManifest now q m f = (if maxEntry < (marshal m).length then
        fail (.wrap "momofs: directory %s exceeds max manifest size: %w" [.str q] (.sys .efbig))
      else storePut now (dirKey q) (hashBytes (marshal m)) (marshal m).length [] (some (marshal m)))
      { f with log := .manifest (marshal m) :: f.log } := by
  rw [writeManifest, bind_of_ok (show noteManifest (marshal m) f =
    (.ok (), { f with log := .manifest (marshal m) :: f.log }) from rfl)]

variable (hs : Stores U f a) (now : Int)

include hs

theorem storePut_cases (key : Bytes) {c : Bytes} {size : Int} (hsize : 0 ≤ size)
    (remotePath : Bytes) {content : Option Bytes}
    (hc : (content = some c ∧ U c) ∨ (content = none ∧ ∃ n, a n = some c)) :
    (∃ f', storePut now key (hashBytes c) size remotePath content f = (.ok (), f') ∧
        Stores U f' (Function.update a key (some c))) ∨
      ∃ e f', storePut now key (hashBytes c) size remotePath content f = (.error e, f') ∧
        Stores U f' a ∧ .failed e ∈ f'.log := by
  unfold storePut
  rcases hput : f.store.put none now key (hashBytes c) size remotePath (content.map (⟨·, none⟩))
    with ⟨r, s'⟩
  cases r with
  | error e =>
    refine Or.inr ⟨e, _, rfl, ⟨CASStore.sim_put_error hs.sim hput, hs.index⟩, List.mem_cons_self⟩
  | ok read =>
    refine Or.inl ⟨_, rfl, ?_, hs.index⟩
    rcases hc with ⟨rfl, hU⟩ | ⟨rfl, n, hn⟩
    · exact CASStore.sim_put hs.sim hU hsize hput
    · exact CASStore.sim_reference hs.sim hn hsize hput

theorem storePut_ok {key c : Bytes} (hkey : key.length = 50) (hU : U c) :
    ∃ f', storePut now key (hashBytes c) c.length [] (some c) f = (.ok (), f') ∧
      Stores U f' (Function.update a key (some c)) := by
  have hok := keyOk_of_length hkey
  obtain ⟨paths, hpaths⟩ := (CASStore.putPath_isOk f.store.db.paths hok []).mpr (Or.inl rfl)
  obtain ⟨s', hput⟩ := CASStore.put_succeeds (s := f.store) now c.length c {}
    (hasPathTraversalChars_hashBytes c) hs.sim.barrier hok.1 (by rw [hkey]; decide) (keyOk_hashBytes c)
    hpaths
  have hput' : f.store.put none now key (hashBytes c) c.length [] (some ⟨c, none⟩) = (.ok c, s') := hput
  refine ⟨{ f with store := s', log := .content c :: f.log }, ?_,
    CASStore.sim_put hs.sim hU (Int.natCast_nonneg _) hput', hs.index⟩
  simp only [storePut, Option.map_some, hput']
  rfl

theorem storeDelete_eq {key : Bytes} (hkey : key.length = 50) :
    ∃ f', storeDelete now key f = (.ok (), f') ∧ Stores U f' (Function.update a key none) := by
  obtain ⟨s', hdel, hr⟩ := CASStore.remove_ok f.store none now (fun _ => metadataError)
    metadataError (keyOk_of_length hkey)
  have hdel' : f.store.delete none now key = (.ok (), s') := hdel
  refine ⟨{ f with store := s' }, ?_, CASStore.sim_removed hs.sim hr, hs.index⟩
  simp only [storeDelete, hdel']

theorem writeManifest_ok [ManifestJSON] (q : Bytes) (m : DirManifest) (hknown : U (marshal m))
    (hsmall : (marshal m).length ≤ maxEntry) :
    ∃ f', writeManifest now q m f = (.ok (), f') ∧
      Stores U f' (Function.update a (dirKey q) (some (marshal m))) := by
  obtain ⟨f', hput, hs'⟩ := storePut_ok (f := { f with log := .manifest (marshal m) :: f.log })
    (hs.frame rfl rfl) now (length_dirKey q) hknown
  refine ⟨f', ?_, hs'⟩
  rw [writeManifest_noted, if_neg (by omega)]
  exact hput

theorem writeManifest_eq [ManifestJSON] (q : Bytes) (m : DirManifest)
    (hsound : Sound U (writeManifest now q m f).2.log) :
    (marshal m).length ≤ maxEntry ∧ ∃ f', writeManifest now q m f = (.ok (), f') ∧
      Stores U f' (Function.update a (dirKey q) (some (marshal m))) := by
  obtain ⟨hknown, hsmall⟩ := hsound _ (manifest_mem_writeManifest now q m f)
  exact ⟨hsmall, writeManifest_ok hs now q m hknown hsmall⟩

theorem writeManifest_cases [ManifestJSON] (q : Bytes) (m : DirManifest)
    (hknown : ∀ x ∈ (writeManifest now q m f).2.log, x.Known U) :
    (¬ (marshal m).length ≤ maxEntry ∧ ∃ e f', writeManifest now q m f = (.error e, f')) ∨
      ((marshal m).length ≤ maxEntry ∧ ∃ f', writeManifest now q m f = (.ok (), f') ∧
        Stores U f' (Function.update a (dirKey q) (some (marshal m)))) := by
  by_cases hsmall : (marshal m).length ≤ maxEntry
  · exact Or.inr ⟨hsmall, writeManifest_ok hs now q m
      (hknown _ (manifest_mem_writeManifest now q m f)) hsmall⟩
  · refine Or.inl ⟨hsmall, .wrap "momofs: directory %s exceeds max manifest size: %w" [.str q]
      (.sys .efbig), { f with log := .manifest (marshal m) :: f.log }, ?_⟩
    rw [writeManifest_noted, if_pos (by omega)]
    rfl

end Writes

/-! ### One changed node -/

section Change

variable [Sha256] {P : Path → Prop}

theorem Scope.dirKey_ne (hP : Scope P) {p q : Path} (hp : P p) (hq : P q) (hne : p ≠ q) :
    dirKey (render p) ≠ dirKey (render q) :=
  fun h => hne (hP.keys p q hp hq (dirKey_inj.mp h))

theorem Scope.objKey_ne (hP : Scope P) {p q : Path} (hp : P p) (hq : P q) (hne : p ≠ q) :
    objKey (render p) ≠ objKey (render q) :=
  fun h => hne (hP.keys p q hp hq (objKey_inj.mp h))

omit [Sha256] in
theorem not_dirAt_file {node : Path → Option Node} {p : Path} {attr : Attr} {c : Bytes}
    (hv : node p = some (.file attr c)) : ¬ DirAt node p := by
  rintro ⟨w, hw, hdir⟩
  rw [hv] at hw
  cases hw
  exact hdir

omit [Sha256] in
theorem leaf_of_not_dirAt {t : Tree} {p : Path} (h : ¬ DirAt t.node p) (j : Bytes) :
    t.node (p ++ [j]) = none := by
  by_contra hj
  exact h (t.closed _ _ hj)

variable [ManifestJSON] {a a' : Names} {t t' : Tree}

theorem Laid.change (hP : Scope P) (hl : Laid P a t) {p : Path} {k : Bytes} {v : Option Node}
    (ht : t'.node = Function.update t.node (p ++ [k]) v) (hp : P (p ++ [k]))
    (hacc : Accepted (p ++ [k])) (hd : DirAt t.node p) (hparent : DirStored a' t'.node p)
    (hobj : a' (objKey (render (p ++ [k]))) = v.bind Node.content?)
    (hdir : DirAt t'.node (p ++ [k]) → DirStored a' t'.node (p ++ [k]))
    (hnot : ¬ DirAt t'.node (p ++ [k]) → a' (dirKey (render (p ++ [k]))) = none)
    (hframe : ∀ n, n ≠ dirKey (render p) → n ≠ objKey (render (p ++ [k])) →
      n ≠ dirKey (render (p ++ [k])) → a' n = a n) : Laid P a' t' := by
  have hself : t'.node (p ++ [k]) = v := by rw [ht, Function.update_self]
  have hnode : ∀ q, q ≠ p ++ [k] → t'.node q = t.node q := fun q hq => by
    rw [ht, Function.update_of_ne hq]
  have hpp : P p := hP.parent p k hp
  have hdirAt : ∀ q, q ≠ p ++ [k] → (DirAt t'.node q ↔ DirAt t.node q) := fun q hq => by
    simp only [DirAt, hnode q hq]
  -- the keys of the other paths
  have hdirKey : ∀ q, P q → q ≠ p → q ≠ p ++ [k] → a' (dirKey (render q)) = a (dirKey (render q)) :=
    fun q hq hqp hqk => hframe _ (hP.dirKey_ne hq hpp hqp) (dirKey_ne_objKey _ _)
      (hP.dirKey_ne hq hp hqk)
  refine ⟨?_, ?_, ?_, ?_, ?_, ?_, ?_⟩
  · -- scope
    intro q hq
    by_cases hqk : q = p ++ [k]
    · exact hqk ▸ ⟨hp, hacc⟩
    · exact hl.scope q (hnode q hqk ▸ hq)
  · -- root
    exact (hdirAt [] (by simp)).mpr hl.root
  · -- files
    intro q hq
    by_cases hqk : q = p ++ [k]
    · rw [hqk, hobj, hself]
    · rw [hframe _ (dirKey_ne_objKey _ _).symm (hP.objKey_ne hq hp hqk) (dirKey_ne_objKey _ _).symm,
        hnode q hqk]
      exact hl.files q hq
  · -- dirs
    intro q hq hqd
    by_cases hqk : q = p ++ [k]
    · exact Or.inl (hqk ▸ hdir (hqk ▸ hqd))
    by_cases hqp : q = p
    · exact Or.inl (hqp ▸ hparent)
    have hchildren : ∀ j, t'.node (q ++ [j]) = t.node (q ++ [j]) := fun j =>
      hnode _ fun h => hqp (List.append_inj' h rfl).1
    rcases hl.dirs q hq ((hdirAt q hqk).mp hqd) with ⟨es, hkey, hsmall, hlist⟩ | ⟨hroot, hkey, hlist⟩
    · exact Or.inl ⟨es, by rw [hdirKey q hq hqp hqk, hkey], hsmall, hlist.congr hchildren⟩
    · exact Or.inr ⟨hroot, by rw [hdirKey q hq hqp hqk, hkey], hlist.congr hchildren⟩
  · -- notDir
    intro q hq hqd
    by_cases hqk : q = p ++ [k]
    · exact hqk ▸ hnot (hqk ▸ hqd)
    by_cases hqp : q = p
    · exact absurd (hqp ▸ (hdirAt p (by simp)).mpr hd) hqd
    rw [hdirKey q hq hqp hqk]
    exact hl.notDir q hq (mt (hdirAt q hqk).mpr hqd)
  · -- own
    intro n hn
    by_cases h₁ : n = dirKey (render p)
    · exact Or.inl (h₁ ▸ List.prefix_append _ _)
    by_cases h₂ : n = objKey (render (p ++ [k]))
    · exact Or.inr (h₂ ▸ List.prefix_append _ _)
    by_cases h₃ : n = dirKey (render (p ++ [k]))
    · exact Or.inl (h₃ ▸ List.prefix_append _ _)
    exact hl.own n (hframe n h₁ h₂ h₃ ▸ hn)
  · -- depth
    obtain ⟨d, hd⟩ := hl.depth
    refine ⟨max d (p ++ [k]).length, fun q hq => ?_⟩
    by_cases hqk : q = p ++ [k]
    · exact hqk ▸ le_max_right _ _
    · exact (hd q (hnode q hqk ▸ hq)).trans (le_max_left _ _)

end Change

/-! ### The requests -/

theorem limit_whole {r : Reader} {n : ℕ} (hshort : (r.limit (n + 1)).data.length ≤ n) :
    r.limit (n + 1) = r := by
  have hlen : r.data.length ≤ n := by
    simp only [Reader.limit, List.length_take] at hshort
    omega
  rw [Reader.limit, if_pos (by omega), List.take_of_length_le (by omega)]

section Requests

variable [Sha256] [ManifestJSON] {β : Type} [BlobStore β] [MapBackend β]

def Shows (U : Bytes → Prop) (P : Path → Prop) (f : FS β) (t : Tree) : Prop :=
  ∃ a, Stores U f a ∧ Laid P a t

def Kept {α : Type} (U : Bytes → Prop) (P : Path → Prop) (t : Tree) (effect : Tree → Prop) :
    Except Err α × FS β → Prop
  | (.ok _, f) => ∃ t', effect t' ∧ Shows U P f t'
  | (.error _, f) => Shows U P f t

variable {U : Bytes → Prop} {P : Path → Prop} {a : Names} {t : Tree} {f : FS β} {p : Path} {k : Bytes}

omit [ManifestJSON] in
theorem Scope.render_ne_root (hP : Scope P) (hp : P (p ++ [k])) : render (p ++ [k]) ≠ [slash] :=
  fun h => by simpa using (render_eq_root (hP.comps _ hp)).mp h

omit [ManifestJSON] in
theorem lists_placeFile {es : List Entry} (hlist : Lists t.node p es)
    (hfile : ¬ DirAt t.node (p ++ [k])) (mode : UInt32) (now : Int) (c : Bytes) :
    Lists (Function.update t.node (p ++ [k])
        (some (.file (.written (t.node (p ++ [k])) mode now) c))) p
      (placeFile es
        { name := k, type := .file, mode := permissions mode, size := c.length, mTime := now,
          hash := hashBytes c }) := by
  have hfind : es.find? (fun old => old.name = k) = (t.node (p ++ [k])).map (entryOf k) :=
    hlist.find manifestVersion k
  unfold placeFile
  rw [hfind]
  cases hv : t.node (p ++ [k]) with
  | none => exact hlist.append hv _
  | some w =>
    cases w with
    | file attr c' => exact hlist.replace hv _
    | dir attr => exact absurd ⟨_, hv, trivial⟩ hfile

theorem Shows.placed (hP : Scope P) (hl : Laid P a t) (hp : P (p ++ [k])) (hacc : Accepted (p ++ [k]))
    (hd : DirAt t.node p) (hfile : ¬ DirAt t.node (p ++ [k])) {attr : Attr} {c : Bytes}
    {es : List Entry}
    (hlist : Lists (Function.update t.node (p ++ [k]) (some (.file attr c))) p es) {f' : FS β}
    (hsmall : (marshal ⟨manifestVersion, es⟩).length ≤ maxEntry)
    (hs : Stores U f' (Function.update (Function.update a (objKey (render (p ++ [k]))) (some c))
      (dirKey (render p)) (some (marshal ⟨manifestVersion, es⟩)))) :
    Shows U P f' (t.put p k (.file attr c) hd (Or.inr (leaf_of_not_dirAt hfile))) := by
  refine ⟨_, hs, hl.change hP rfl hp hacc hd ⟨_, ?_, hsmall, hlist⟩ ?_ ?_ ?_ ?_⟩
  · rw [Function.update_self]
  · rw [Function.update_of_ne (dirKey_ne_objKey _ _).symm, Function.update_self]
    rfl
  · exact fun hdir => absurd hdir (not_dirAt_file (Function.update_self ..))
  · intro _
    rw [Function.update_of_ne (hP.dirKey_ne hp (hP.parent p k hp) (by simp)),
      Function.update_of_ne (dirKey_ne_objKey _ _), hl.notDir _ hp hfile]
  · intro n h₁ h₂ _
    rw [Function.update_of_ne h₁, Function.update_of_ne h₂]

theorem Shows.dropped (hP : Scope P) (hl : Laid P a t) (hp : P (p ++ [k])) (hacc : Accepted (p ++ [k]))
    (hd : DirAt t.node p) {es : List Entry} (hlist : Lists t.node p es)
    (hleaf : ∀ j, t.node (p ++ [k] ++ [j]) = none) {a' : Names} {f' : FS β}
    (hsmall : (marshal ⟨manifestVersion, removeEntry es k⟩).length ≤ maxEntry)
    (hs : Stores U f' (Function.update a' (dirKey (render p))
      (some (marshal ⟨manifestVersion, removeEntry es k⟩))))
    (hobj : a' (objKey (render (p ++ [k]))) = none) (hdir : a' (dirKey (render (p ++ [k]))) = none)
    (hframe : ∀ n, n ≠ objKey (render (p ++ [k])) → n ≠ dirKey (render (p ++ [k])) → a' n = a n) :
    Shows U P f' (t.drop (p ++ [k]) hleaf) := by
  refine ⟨_, hs, hl.change hP rfl hp hacc hd ⟨_, ?_, hsmall, hlist.remove⟩ ?_ ?_ ?_ ?_⟩
  · rw [Function.update_self]
  · rw [Function.update_of_ne (dirKey_ne_objKey _ _).symm, hobj]
    rfl
  · rintro ⟨w, hw, -⟩
    rw [PathTree.node_drop, Function.update_self] at hw
    cases hw
  · intro _
    rw [Function.update_of_ne (hP.dirKey_ne hp (hP.parent p k hp) (by simp)), hdir]
  · intro n h₁ h₂ h₃
    rw [Function.update_of_ne h₁, hframe n h₂ h₃]

section Steps

variable (hU : Distinct U) (hP : Scope P) (hs : Stores U f a) (hl : Laid P a t)

include hU hP hs hl

theorem parent_cases (hp : P (p ++ [k])) :
    (∃ e, normalizePath (render (p ++ [k])) = .error e) ∨
      (normalizePath (render (p ++ [k])) = .ok (render (p ++ [k])) ∧ Accepted (p ++ [k]) ∧
        (readManifest (render p) f = (.error (.sys .enoent), f) ∨
          (DirAt t.node p ∧ ∃ es, readManifest (render p) f = (.ok ⟨manifestVersion, es⟩, f) ∧
            Lists t.node p es))) := by
  by_cases hacc : Accepted (p ++ [k])
  · refine Or.inr ⟨normalizePath_accepted (hP.comps _ hp) hacc, hacc, ?_⟩
    by_cases hd : DirAt t.node p
    · exact Or.inr ⟨hd, readManifest_dir hU hP hs hl (hP.parent p k hp) hd⟩
    · exact Or.inl (readManifest_notDir hU hP hs hl (hP.parent p k hp) hd)
  · exact Or.inl (normalizePath_refused (hP.comps _ hp) hacc)

variable (now : Int)

theorem mkdir_kept (mode : UInt32) (hp : P (p ++ [k]))
    (hsound : Sound U (mkdir now (render (p ++ [k])) mode f).2.log) :
    Kept U P t (Effect now t (.mkdir (p ++ [k]) mode)) (mkdir now (render (p ++ [k])) mode f) := by
  have hroot := hP.render_ne_root hp
  have hpb := parentBase_render (hP.comps _ hp)
  rcases parent_cases hU hP hs hl hp with ⟨e, hnorm⟩ | ⟨hnorm, hacc, hread | ⟨hd, es, hread, hlist⟩⟩
  · rw [mkdir, bind_ofExcept_error hnorm]
    exact ⟨a, hs, hl⟩
  · rw [mkdir, bind_ofExcept_ok hnorm, if_neg hroot, hpb, bind_of_error hread]
    exact ⟨a, hs, hl⟩
  · have hstart : mkdir now (render (p ++ [k])) mode f =
        (if ((t.node (p ++ [k])).map (entryOf k)).isSome then
          fail (.wrap "momofs: entry exists %q: %w" [.str (render (p ++ [k]))] (.sys .eexist))
        else do
          writeManifest now (render p) ⟨manifestVersion, es ++
            [entryOf k (.dir { mode := permissions mode, mTime := now })]⟩
          writeManifest now (render (p ++ [k])) emptyManifest) f := by
      rw [mkdir, bind_ofExcept_ok hnorm, if_neg hroot, hpb, bind_of_ok hread, hlist.find]
      rfl
    cases hv : t.node (p ++ [k]) with
    | some w =>
      rw [hstart, hv, if_pos (by rfl)]
      exact ⟨a, hs, hl⟩
    | none =>
      rw [hv, if_neg (by simp)] at hstart
      rw [hstart] at hsound ⊢
      obtain ⟨hsmall, f₁, hw₁, hs₁⟩ := writeManifest_eq hs now _ _
        (sound_of_bind (fun _ => grows_writeManifest _ _ _) hsound)
      rw [bind_of_ok hw₁] at hsound ⊢
      obtain ⟨hempty, f₂, hw₂, hs₂⟩ := writeManifest_eq hs₁ now _ _ hsound
      rw [hw₂]
      have hkeys : dirKey (render p) ≠ dirKey (render (p ++ [k])) :=
        hP.dirKey_ne (hP.parent p k hp) hp (by simp)
      refine ⟨t.put p k (.dir { mode := permissions mode, mTime := now }) hd (Or.inl trivial),
        Effect.mkdir hd hv, _, hs₂,
        hl.change hP rfl hp hacc hd ⟨_, ?_, hsmall, hlist.append hv _⟩ ?_ (fun _ => ⟨[], ?_, hempty, ?_⟩)
          ?_ ?_⟩
      · rw [Function.update_of_ne hkeys, Function.update_self]
      · rw [Function.update_of_ne (dirKey_ne_objKey _ _).symm,
          Function.update_of_ne (dirKey_ne_objKey _ _).symm, hl.files _ hp, hv]
        rfl
      · rw [Function.update_self]
        rfl
      · refine Lists.nil fun j => ?_
        rw [PathTree.node_put, Function.update_of_ne (by simp)]
        exact leaf_of_not_dirAt (by simp [hv]) j
      · intro hnot
        exact absurd ⟨_, Function.update_self .., trivial⟩ hnot
      · intro n h₁ _ h₃
        rw [Function.update_of_ne h₃, Function.update_of_ne h₁]

theorem create_kept (mode : UInt32) (content : Reader) (hp : P (p ++ [k]))
    (hsound : Sound U (create now (render (p ++ [k])) mode content f).2.log) :
    Kept U P t (Effect now t (.create (p ++ [k]) mode content))
      (create now (render (p ++ [k])) mode content f) := by
  have hpb := parentBase_render (hP.comps _ hp)
  rcases parent_cases hU hP hs hl hp with ⟨e, hnorm⟩ | ⟨hnorm, hacc, hread | ⟨hd, es, hread, hlist⟩⟩
  · rw [create, bind_ofExcept_error hnorm]
    exact ⟨a, hs, hl⟩
  · rw [create, bind_ofExcept_ok hnorm, hpb, bind_of_error hread]
    exact ⟨a, hs, hl⟩
  by_cases hfile : DirAt t.node (p ++ [k])
  · -- a directory is not overwritten
    obtain ⟨w, hw, hdir⟩ := hfile
    have htype : w.type = .dir := by
      cases w with
      | file => exact hdir.elim
      | dir => rfl
    rw [create, bind_ofExcept_ok hnorm, hpb, bind_of_ok hread, hlist.find, hw, if_pos (by simp [htype])]
    exact ⟨a, hs, hl⟩
  have hnotDir : ((t.node (p ++ [k])).map (entryOf k)).map Entry.type ≠ some .dir := by
    cases hv : t.node (p ++ [k]) with
    | none => simp
    | some w =>
      cases w with
      | file => simp [Node.type]
      | dir attr => exact absurd ⟨_, hv, trivial⟩ hfile
  rw [create, bind_ofExcept_ok hnorm, hpb, bind_of_ok hread, hlist.find, if_neg hnotDir] at hsound ⊢
  cases hfault : (content.limit (maxFileSize + 1)).fault with
  | some e =>
    simp only
    exact ⟨a, hs, hl⟩
  | none =>
    simp only [hfault] at hsound ⊢
    by_cases hbig : maxFileSize < (content.limit (maxFileSize + 1)).data.length
    · simp only [if_pos hbig]
      exact ⟨a, hs, hl⟩
    · have hwhole : content.limit (maxFileSize + 1) = content :=
        limit_whole (by omega)
      simp only [if_neg hbig] at hsound ⊢
      simp only [hwhole] at hfault hsound ⊢
      have hgrows : ∀ (m : DirManifest) (r : Int × Bytes),
          Grows (β := β) (do writeManifest now (render p) m; pure r) := fun m r =>
        grows_bind (grows_writeManifest _ _ _) fun _ => grows_pure _
      have hknown : U content.data := (sound_of_bind (fun _ => hgrows _ _) hsound _
        (content_mem_storePut now (objKey (render (p ++ [k]))) (hashBytes content.data)
          content.data.length (render (p ++ [k])) content.data f)).1
      rcases storePut_cases hs now (objKey (render (p ++ [k]))) (c := content.data)
        (Int.natCast_nonneg content.data.length) (render (p ++ [k])) (Or.inl ⟨rfl, hknown⟩)
        with ⟨f₁, hput, hs₁⟩ | ⟨e, f₁, hput, hs₁, -⟩
      · rw [bind_of_ok hput] at hsound ⊢
        obtain ⟨hsmall, f₂, hw, hs₂⟩ := writeManifest_eq hs₁ now _ _
          (sound_of_bind (fun _ => grows_pure _) hsound)
        rw [bind_of_ok hw, pure_eq]
        have hbelow := leaf_of_not_dirAt hfile
        exact ⟨_, Effect.create hd hbelow hfile hfault, Shows.placed hP hl hp hacc hd hfile
          (lists_placeFile hlist hfile mode now _) hsmall hs₂⟩
      · rw [bind_of_error hput]
        exact ⟨a, hs₁, hl⟩

theorem remove_kept (hp : P (p ++ [k]))
    (hsound : Sound U (remove now (render (p ++ [k])) f).2.log) :
    Kept U P t (Effect now t (.remove (p ++ [k]))) (remove now (render (p ++ [k])) f) := by
  have hroot := hP.render_ne_root hp
  have hpb := parentBase_render (hP.comps _ hp)
  rcases parent_cases hU hP hs hl hp with ⟨e, hnorm⟩ | ⟨hnorm, hacc, hread | ⟨hd, es, hread, hlist⟩⟩
  · rw [remove, bind_ofExcept_error hnorm]
    exact ⟨a, hs, hl⟩
  · rw [remove, bind_ofExcept_ok hnorm, if_neg hroot, hpb, bind_of_error hread]
    exact ⟨a, hs, hl⟩
  rw [remove, bind_ofExcept_ok hnorm, if_neg hroot, hpb, bind_of_ok hread, hlist.find] at hsound ⊢
  cases hv : t.node (p ++ [k]) with
  | none =>
    simp only [Option.map_none]
    exact ⟨a, hs, hl⟩
  | some w =>
    have hthere : t.node (p ++ [k]) ≠ none := by simp [hv]
    cases w with
    | file attr c =>
      simp only [hv, Option.map_some, entryOf_type, Node.type] at hsound ⊢
      have hleaf := leaf_of_not_dirAt (not_dirAt_file hv)
      obtain ⟨f₁, hdel, hs₁⟩ := storeDelete_eq hs now (length_objKey (render (p ++ [k])))
      rw [bind_of_ok hdel] at hsound ⊢
      obtain ⟨hsmall, f₂, hw, hs₂⟩ := writeManifest_eq hs₁ now _ _ hsound
      rw [hw]
      refine ⟨t.drop (p ++ [k]) hleaf, Effect.remove (by simp) hthere hleaf,
        Shows.dropped hP hl hp hacc hd hlist hleaf hsmall hs₂ ?_ ?_ ?_⟩
      · rw [Function.update_self]
      · rw [Function.update_of_ne (dirKey_ne_objKey _ _)]
        exact hl.notDir _ hp (not_dirAt_file hv)
      · intro n h₁ _
        rw [Function.update_of_ne h₁]
    | dir attr =>
      simp only [hv, Option.map_some, entryOf_type, Node.type] at hsound ⊢
      obtain ⟨es', hread', hlist'⟩ := readManifest_dir hU hP hs hl hp ⟨_, hv, trivial⟩
      rw [bind_of_ok hread'] at hsound ⊢
      by_cases hempty : es' ≠ []
      · simp only [if_pos hempty]
        exact ⟨a, hs, hl⟩
      · obtain rfl : es' = [] := not_not.mp hempty
        have hleaf : ∀ j, t.node (p ++ [k] ++ [j]) = none := hlist'.leaf_of_nil
        obtain ⟨f₁, hdel, hs₁⟩ := storeDelete_eq hs now (length_dirKey (render (p ++ [k])))
        simp only [if_neg hempty] at hsound ⊢
        rw [bind_of_ok hdel] at hsound ⊢
        obtain ⟨hsmall, f₂, hw, hs₂⟩ := writeManifest_eq hs₁ now _ _ hsound
        rw [hw]
        refine ⟨t.drop (p ++ [k]) hleaf, Effect.remove (by simp) hthere hleaf,
          Shows.dropped hP hl hp hacc hd hlist hleaf hsmall hs₂ ?_ ?_ ?_⟩
        · rw [Function.update_of_ne (dirKey_ne_objKey _ _).symm, hl.files _ hp, hv]
          rfl
        · rw [Function.update_self]
        · intro n _ h₂
          rw [Function.update_of_ne h₂]

theorem link_kept {q : Path} {i : Bytes} (hq : P (q ++ [i])) (hp : P (p ++ [k]))
    (hsound : Sound U (link now (render (q ++ [i])) (render (p ++ [k])) f).2.log) :
    Kept U P t (Effect now t (.link (q ++ [i]) (p ++ [k])))
      (link now (render (q ++ [i])) (render (p ++ [k])) f) := by
  have hqb := parentBase_render (hP.comps _ hq)
  have hpb := parentBase_render (hP.comps _ hp)
  by_cases hqacc : Accepted (q ++ [i])
  swap
  · obtain ⟨e, hnorm⟩ := normalizePath_refused (hP.comps _ hq) hqacc
    rw [link, bind_ofExcept_error hnorm]
    exact ⟨a, hs, hl⟩
  have hqnorm := normalizePath_accepted (hP.comps _ hq) hqacc
  rcases parent_cases hU hP hs hl hp with ⟨e, hnorm⟩ | ⟨hnorm, hacc, hpread⟩
  · rw [link, bind_ofExcept_ok hqnorm, bind_ofExcept_error hnorm]
    exact ⟨a, hs, hl⟩
  rcases parent_cases hU hP hs hl hq with ⟨e, h⟩ | ⟨-, -, hread | ⟨hqd, es, hread, hlist⟩⟩
  · rw [hqnorm] at h
    cases h
  · rw [link, bind_ofExcept_ok hqnorm, bind_ofExcept_ok hnorm, hqb, bind_of_error hread]
    exact ⟨a, hs, hl⟩
  rw [link, bind_ofExcept_ok hqnorm, bind_ofExcept_ok hnorm, hqb, hpb, bind_of_ok hread,
    hlist.find] at hsound ⊢
  cases hv : t.node (q ++ [i]) with
  | none =>
    simp only [Option.map_none]
    exact ⟨a, hs, hl⟩
  | some w =>
    cases w with
    | dir attr =>
      simp only [Option.map_some, entryOf_type, Node.type]
      exact ⟨a, hs, hl⟩
    | file attr c =>
      simp only [hv, Option.map_some, entryOf_type, Node.type, ne_eq, not_true_eq_false,
        if_false] at hsound ⊢
      rcases hpread with hpread | ⟨hd, es', hpread, hlist'⟩
      · rw [bind_of_error hpread]
        exact ⟨a, hs, hl⟩
      rw [bind_of_ok hpread, hlist'.find] at hsound ⊢
      cases hnew : t.node (p ++ [k]) with
      | some w =>
        rw [if_pos (by simp)]
        exact ⟨a, hs, hl⟩
      | none =>
        rw [hnew, if_neg (by simp)] at hsound
        rw [if_neg (by simp)]
        have hsrc : a (objKey (render (q ++ [i]))) = some c := by
          rw [hl.files _ hq, hv]
          rfl
        rcases storePut_cases hs now (objKey (render (p ++ [k]))) (c := c)
          (Int.natCast_nonneg c.length) (render (p ++ [k])) (Or.inr ⟨rfl, _, hsrc⟩)
          with ⟨f₁, hput, hs₁⟩ | ⟨e, f₁, hput, hs₁, -⟩
        · have hput' : storePut now (objKey (render (p ++ [k]))) (entryOf i (.file attr c)).hash
              (entryOf i (.file attr c)).size (render (p ++ [k])) none f = (.ok (), f₁) := hput
          rw [bind_of_ok hput'] at hsound ⊢
          obtain ⟨hsmall, f₂, hw, hs₂⟩ := writeManifest_eq hs₁ now _ _ hsound
          rw [hw]
          have hbelow := leaf_of_not_dirAt (t := t) (p := p ++ [k]) (by simp [hnew])
          exact ⟨_, Effect.link hv hd hnew hbelow,
            Shows.placed hP hl hp hacc hd (by simp [hnew]) (hlist'.append hnew _) hsmall hs₂⟩
        · have hput' : storePut now (objKey (render (p ++ [k]))) (entryOf i (.file attr c)).hash
              (entryOf i (.file attr c)).size (render (p ++ [k])) none f = (.error e, f₁) := hput
          rw [bind_of_error hput']
          exact ⟨a, hs₁, hl⟩

theorem setAttr_kept (mode uid gid : Option UInt32) (mtime : Option Int) (hp : P (p ++ [k]))
    (hsound : Sound U (setAttr now (render (p ++ [k])) mode uid gid mtime f).2.log) :
    Kept U P t (Effect now t (.setAttr (p ++ [k]) mode uid gid mtime))
      (setAttr now (render (p ++ [k])) mode uid gid mtime f) := by
  have hroot := hP.render_ne_root hp
  have hpb := parentBase_render (hP.comps _ hp)
  rcases parent_cases hU hP hs hl hp with ⟨e, hnorm⟩ | ⟨hnorm, hacc, hread | ⟨hd, es, hread, hlist⟩⟩
  · rw [setAttr, bind_ofExcept_error hnorm]
    exact ⟨a, hs, hl⟩
  · rw [setAttr, bind_ofExcept_ok hnorm, if_neg hroot, hpb, bind_of_error hread]
    exact ⟨a, hs, hl⟩
  rw [setAttr, bind_ofExcept_ok hnorm, if_neg hroot, hpb, bind_of_ok hread, hlist.find] at hsound ⊢
  cases hv : t.node (p ++ [k]) with
  | none =>
    simp only [Option.map_none]
    exact ⟨a, hs, hl⟩
  | some w =>
    have hentry : ({ entryOf k w with
        mode := (mode.map permissions).getD (entryOf k w).mode
        uid := uid.getD (entryOf k w).uid
        gid := gid.getD (entryOf k w).gid
        mTime := mtime.getD (entryOf k w).mTime } : Entry) =
        entryOf k (w.withAttr (w.attr.set mode uid gid mtime)) := by
      cases w <;> rfl
    simp only [hv, Option.map_some, hentry] at hsound ⊢
    obtain ⟨hsmall, f₁, hw, hs₁⟩ := writeManifest_eq hs now _ _
      (sound_of_bind (fun _ => grows_pure _) hsound)
    rw [bind_of_ok hw, pure_eq]
    have hkind : w.IsDir ∨ ∀ j, t.node (p ++ [k] ++ [j]) = none := by
      cases w with
      | file attr c => exact Or.inr (leaf_of_not_dirAt (not_dirAt_file hv))
      | dir attr => exact Or.inl trivial
    have hkeys := hP.dirKey_ne hp (hP.parent p k hp) (by simp)
    have hdirAt : DirAt (Function.update t.node (p ++ [k])
        (some (w.withAttr (w.attr.set mode uid gid mtime)))) (p ++ [k]) ↔ DirAt t.node (p ++ [k]) := by
      rw [DirAt, DirAt, Function.update_self, hv]
      cases w <;> simp [Node.withAttr, Node.IsDir]
    refine ⟨_, Effect.setAttr hd hv hkind, _, hs₁,
      hl.change hP rfl hp hacc hd ⟨_, ?_, hsmall, hlist.replace hv _⟩ ?_ ?_ ?_ ?_⟩
    · rw [Function.update_self]
    · rw [Function.update_of_ne (dirKey_ne_objKey _ _).symm, hl.files _ hp, hv]
      cases w <;> rfl
    · -- a directory keeps its own manifest
      intro hdir
      rcases hl.dirs _ hp (hdirAt.mp hdir) with ⟨es', hkey, hsmall', hlist'⟩ | ⟨hnil, -⟩
      · refine ⟨es', by rw [Function.update_of_ne hkeys, hkey], hsmall', hlist'.congr fun j => ?_⟩
        rw [PathTree.node_put, Function.update_of_ne (by simp)]
      · exact absurd hnil (by simp)
    · intro hnot
      rw [Function.update_of_ne hkeys, hl.notDir _ hp (mt hdirAt.mpr hnot)]
    · intro n h₁ _ _
      rw [Function.update_of_ne h₁]

end Steps

/-! ### Runs -/

def Request.Within (P : Path → Prop) : Request → Prop
  | .lookup p | .openFile p | .readAt p _ _ | .readDir p => P p
  | .mkdir p _ | .create p _ _ | .remove p | .setAttr p _ _ _ _ => P p ∧ p ≠ []
  | .link src dst => (P src ∧ src ≠ []) ∧ P dst ∧ dst ≠ []

theorem Shows.frame {f' : FS β} (h : Shows U P f t) (hstore : f'.store = f.store)
    (hindex : f'.idxList = f.idxList) : Shows U P f' t := by
  obtain ⟨a, hs, hl⟩ := h
  exact ⟨a, hs.frame hstore hindex, hl⟩

theorem Kept.outcome {α : Type} {effect : Tree → Prop} {r : Except Err α × FS β}
    (h : Kept U P t effect r) : Kept U P t effect (outcome r) := by
  obtain ⟨x, f'⟩ := r
  cases x <;> exact h

theorem kept_of_reads {α : Type} {now : Int} {r : Request} (hr : r.Reads) {res : Except Err α × FS β}
    (hs : Stores U f a) (hl : Laid P a t)
    (h : ∃ x at_, res = (x, ({ f with idxAt := at_ } : FS β))) : Kept U P t (Effect now t r) res := by
  obtain ⟨x, at_, rfl⟩ := h
  have hshows : Shows U P { f with idxAt := at_ } t := ⟨a, hs.frame rfl rfl, hl⟩
  cases x with
  | ok v => exact ⟨t, Effect.reads hr, hshows⟩
  | error e => exact hshows

theorem exec_kept (hU : Distinct U) (hP : Scope P) (hshows : Shows U P f t) (now : Int) {r : Request}
    (hr : r.Within P) (hsound : Sound U (exec now f r).2.log) :
    Kept U P t (Effect now t r) (exec now f r) := by
  obtain ⟨a, hs, hl⟩ : Shows U P { f with log := [] } t := hshows.frame rfl rfl
  have hlast : ∀ p : Path, p ≠ [] → ∃ q i, p = q ++ [i] := fun p hp =>
    ⟨p.dropLast, p.getLast hp, (List.dropLast_append_getLast hp).symm⟩
  cases r with
  | lookup p =>
    exact (kept_of_reads (r := .lookup p) trivial hs hl (lookup_keeps hU hP hs hl now hr)).outcome
  | openFile p =>
    exact (kept_of_reads (r := .openFile p) trivial hs hl (openFile_keeps hU hP hs hl now hr)).outcome
  | readAt p off n =>
    exact (kept_of_reads (r := .readAt p off n) trivial hs hl
      (readAt_keeps hU hP hs hl now off n hr)).outcome
  | readDir p =>
    exact (kept_of_reads (r := .readDir p) trivial hs hl (readDir_keeps hU hP hs hl now hr)).outcome
  | mkdir p mode =>
    obtain ⟨q, i, rfl⟩ := hlast p hr.2
    exact mkdir_kept hU hP hs hl now mode hr.1 hsound
  | create p mode content =>
    obtain ⟨q, i, rfl⟩ := hlast p hr.2
    exact (create_kept hU hP hs hl now mode content hr.1 hsound).outcome
  | remove p =>
    obtain ⟨q, i, rfl⟩ := hlast p hr.2
    exact remove_kept hU hP hs hl now hr.1 hsound
  | link src dst =>
    obtain ⟨q, i, rfl⟩ := hlast src hr.1.2
    obtain ⟨q', i', rfl⟩ := hlast dst hr.2.2
    exact link_kept hU hP hs hl now hr.1.1 hr.2.1 hsound
  | setAttr p mode uid gid mtime =>
    obtain ⟨q, i, rfl⟩ := hlast p hr.2
    exact (setAttr_kept hU hP hs hl now mode uid gid mtime hr.1 hsound).outcome

def serve (f : FS β) (x : Int × Request) : FS β := (exec x.1 f x.2).2

def Fits (U : Bytes → Prop) (P : Path → Prop) (f : FS β) (x : Int × Request) : Prop :=
  x.2.Within P ∧ Sound U (serve f x).log

def mounted (cfg : CASConfig) (b : β) (rootMode : UInt32) : FS β where
  store := CASStore.fresh cfg b
  rootMode := rootMode

theorem shows_mounted (hP : Scope P) {cfg : CASConfig} (hb : CASStore.BarrierOk cfg) (b : β)
    (rootMode : UInt32) : Shows U P (mounted cfg b rootMode) (emptyTree rootMode) := by
  have hnode : ∀ p : Path, (emptyTree rootMode).node p ≠ none → p = [] := fun p hp => by
    by_contra hne
    exact hp (if_neg hne)
  have hroot : DirAt (emptyTree rootMode).node [] := ⟨.dir { mode := rootMode, mTime := 0 }, rfl, trivial⟩
  refine ⟨fun _ => none, ⟨CASStore.sim_fresh U hb b, rfl⟩, ?_, hroot, ?_, ?_, fun _ _ _ => rfl,
    fun n hn => absurd rfl hn, 0, fun p hp => by rw [hnode p hp]; rfl⟩
  · intro p hp
    rw [hnode p hp]
    exact ⟨hP.root, by simp [Accepted]⟩
  · intro p _
    by_cases hp : p = []
    · subst hp
      rfl
    · simp only [emptyTree, if_neg hp]
      rfl
  · intro p _ hd
    obtain ⟨v, hv, -⟩ := hd
    obtain rfl := hnode p (by rw [hv]; simp)
    exact Or.inr ⟨rfl, rfl, Lists.nil fun j => by simp [emptyTree]⟩

theorem follows_run (hU : Distinct U) (hP : Scope P) {rs : List (Int × Request)}
    (hshows : Shows U P f t) (hfits : Guarded serve (Fits U P) f rs) :
    ∃ t', Follows f t rs (run serve f rs) t' ∧ Shows U P (run serve f rs) t' := by
  induction rs generalizing f t with
  | nil => exact ⟨t, Follows.nil, hshows⟩
  | cons x rs ih =>
    obtain ⟨now, r⟩ := x
    obtain ⟨⟨hr, hsound⟩, hrest⟩ := hfits
    have hkept := exec_kept hU hP hshows now hr hsound
    rcases hexec : exec now f r with ⟨res, f'⟩
    have hserve : serve f (now, r) = f' := congrArg Prod.snd hexec
    rw [hexec] at hkept
    rw [hserve] at hrest
    rw [run_cons, hserve]
    cases res with
    | ok u =>
      obtain ⟨t₁, heffect, hshows₁⟩ := hkept
      obtain ⟨t', hfollows, hshows'⟩ := ih hshows₁ hrest
      exact ⟨t', Follows.ok hexec heffect hfollows, hshows'⟩
    | error e =>
      obtain ⟨t', hfollows, hshows'⟩ := ih hkept hrest
      exact ⟨t', Follows.failed hexec hfollows, hshows'⟩

theorem Shows.agrees (hU : Distinct U) (hP : Scope P) (h : Shows U P f t) : Agrees P f t := by
  obtain ⟨a, hs, hl⟩ := h
  exact agrees_of_laid hU hP hs hl

theorem Shows.remove_other (hU : Distinct U) (hP : Scope P) (h : Shows U P f t) {now : Int}
    {q : Path} (hfits : Fits U P f (now, .remove q)) (hok : (exec now f (.remove q)).1 = .ok ())
    {attr : Attr} {c : Bytes} (hp : P (p ++ [k])) (hne : p ++ [k] ≠ q)
    (hv : t.node (p ++ [k]) = some (.file attr c)) (later : Int) :
    ∃ rc, (openFile later (render (p ++ [k])) (serve f (now, .remove q))).1 =
      .ok (rc, entryOf k (.file attr c)) ∧ rc.readAll = (c, none) := by
  have hkept := exec_kept hU hP h now hfits.1 hfits.2
  rcases hexec : exec now f (.remove q) with ⟨res, f'⟩
  rw [hexec] at hok hkept
  simp only at hok
  subst hok
  obtain ⟨t', heffect, hshows⟩ := hkept
  have hv' : t'.node (p ++ [k]) = some (.file attr c) := by
    cases heffect with
    | reads hr => exact hr.elim
    | remove hq hthere hleaf => rw [PathTree.node_drop, Function.update_of_ne hne, hv]
  have hopen := (hshows.agrees hU hP).openFile later p k hp
  rw [hv'] at hopen
  have hserve : serve f (now, .remove q) = f' := congrArg Prod.snd hexec
  rw [hserve]
  exact hopen

/-- CORRECT: requests on a fresh file system change an abstract tree, each by its effect if it
    succeeds and not at all if it fails; what the reading calls return afterwards is that tree; and a
    removed link leaves every other file as it was. -/
theorem requests_follow_tree (hU : Distinct U) (hP : Scope P) {cfg : CASConfig}
    (hb : CASStore.BarrierOk cfg) (b : β) (rootMode : UInt32) (rs : List (Int × Request))
    (hfits : Guarded serve (Fits U P) (mounted cfg b rootMode) rs) :
    ∃ t, Follows (mounted cfg b rootMode) (emptyTree rootMode) rs
        (run serve (mounted cfg b rootMode) rs) t ∧
      Agrees P (run serve (mounted cfg b rootMode) rs) t ∧
      ∀ now q, Fits U P (run serve (mounted cfg b rootMode) rs) (now, .remove q) →
        (exec now (run serve (mounted cfg b rootMode) rs) (.remove q)).1 = .ok () →
        ∀ p k attr c, P (p ++ [k]) → p ++ [k] ≠ q → t.node (p ++ [k]) = some (.file attr c) →
          ∀ later, ∃ rc, (openFile later (render (p ++ [k]))
              (serve (run serve (mounted cfg b rootMode) rs) (now, .remove q))).1 =
            .ok (rc, entryOf k (.file attr c)) ∧ rc.readAll = (c, none) := by
  obtain ⟨t, hfollows, hshows⟩ := follows_run hU hP (shows_mounted hP hb b rootMode) hfits
  exact ⟨t, hfollows, hshows.agrees hU hP, fun now q hq hok p k attr c hp hne hv later =>
    hshows.remove_other hU hP hq hok hp hne hv later⟩

end Requests

/-! ### Concrete runs -/

def entryCode : Code Entry :=
  (Code.pair (Code.pair (Code.pair Code.nat Code.nat) (Code.pair Code.nat Code.nat))
    (Code.pair (Code.pair Code.int Code.int) (Code.list Code.bytes))).map
    (fun x =>
      { name := x.2.2.headD [], type := if x.1.1.1 = 0 then .file else .dir,
        mode := .ofNat x.1.1.2, uid := .ofNat x.1.2.1, gid := .ofNat x.1.2.2, size := x.2.1.1,
        mTime := x.2.1.2, hash := x.2.2.getD 1 [], objName := x.2.2.getD 2 [] })
    (fun e => (((match e.type with | .file => 0 | .dir => 1, e.mode.toNat), (e.uid.toNat, e.gid.toNat)),
      ((e.size, e.mTime), [e.name, e.hash, e.objName])))
    (by rintro ⟨_, _ | _, _, _, _, _, _, _, _⟩ <;> simp)

def manifestCode : Code DirManifest :=
  (Code.pair Code.int (Code.list entryCode)).map (fun x => ⟨x.1, x.2⟩) (fun m => (m.version, m.entries))
    (fun _ => rfl)

@[reducible] def sampleManifestJSON : ManifestJSON where
  marshal m := manifestCode.enc ⟨m.version, m.entries.map fun e => { e with objName := [] }⟩
  unmarshal data := match manifestCode.dec data with
    | some (m, []) => .ok m
    | _ => .error (.text "invalid character after top-level value")
  unmarshal_marshal m hplain := by
    have hsame : m.entries.map (fun e => ({ e with objName := [] } : Entry)) = m.entries :=
      (List.map_congr_left fun e he => by rw [← (hplain e he).objName]; rfl).trans (List.map_id _)
    have h := manifestCode.dec_enc m []
    rw [List.append_nil] at h
    simp only [hsame, h]

instance (c : Bytes) : Decidable (Comp c) :=
  decidable_of_iff (c ≠ [] ∧ c ≠ dot ∧ c ≠ dotDot ∧ slash ∉ c)
    ⟨fun h => ⟨h.1, h.2.1, h.2.2.1, h.2.2.2⟩, fun h => ⟨h.ne_nil, h.ne_dot, h.ne_dotDot, h.no_slash⟩⟩

section Decide

variable {U : Bytes → Prop} [DecidablePred U] {P : Path → Prop} [DecidablePred P]

instance : ∀ x : Sent, Decidable (x.Known U)
  | .content c => inferInstanceAs (Decidable (U c))
  | .manifest data => inferInstanceAs (Decidable (U data))
  | .failed _ => isTrue trivial

instance : ∀ x : Sent, Decidable x.Small
  | .content _ => isTrue trivial
  | .manifest data => inferInstanceAs (Decidable (data.length ≤ maxEntry))
  | .failed _ => isTrue trivial

instance (log : List Sent) : Decidable (Sound U log) := inferInstanceAs (Decidable (∀ x ∈ log, _))

instance : ∀ r : Request, Decidable (r.Within P)
  | .lookup p | .openFile p | .readAt p _ _ | .readDir p => inferInstanceAs (Decidable (P p))
  | .mkdir p _ | .create p _ _ | .remove p | .setAttr p _ _ _ _ =>
    inferInstanceAs (Decidable (P p ∧ p ≠ []))
  | .link src dst => inferInstanceAs (Decidable ((P src ∧ src ≠ []) ∧ P dst ∧ dst ≠ []))

instance {β : Type} [Sha256] [BlobStore β] [ManifestJSON] (f : FS β) (x : Int × Request) :
    Decidable (Fits U P f x) :=
  inferInstanceAs (Decidable (_ ∧ _))

theorem scope_of_list [Sha256] {ps : List Path} (hroot : [] ∈ ps) (hparent : ∀ p ∈ ps, p.dropLast ∈ ps)
    (hcomps : ∀ p ∈ ps, ∀ c ∈ p, Comp c) (hutf8 : ∀ p ∈ ps, ∀ c ∈ p, ValidUTF8 c)
    (hkeys : ∀ p ∈ ps, ∀ q ∈ ps, pathKey (render p) = pathKey (render q) → p = q) :
    Scope (· ∈ ps) where
  root := hroot
  parent p k h := by simpa using hparent _ h
  comps := hcomps
  utf8 := hutf8
  keys p q hp hq := hkeys p hp q hq

end Decide

section Runs

local instance treeSha : Sha256 := polySha

local instance treeJSON : ManifestJSON := sampleManifestJSON

def handed {β : Type} [BlobStore β] (f : FS β) : List (Int × Request) → List Bytes
  | [] => []
  | x :: rs =>
    (serve f x).log.filterMap (fun s => match s with
      | .content c => some c
      | .manifest data => some data
      | .failed _ => none) ++ handed (serve f x) rs

def linkRun : List (Int × Request) :=
  [(1, .mkdir [[100]] 7), (2, .create [[100], [120]] 6 ⟨[104, 105], none⟩),
    (3, .link [[100], [120]] [[121]]), (4, .setAttr [[121]] (some 4) none (some 2) none),
    (5, .mkdir [[100]] 7), (6, .remove [[100]]), (7, .remove [[100], [120]])]

def linkPaths : List Path := [[], [[100]], [[100], [120]], [[121]]]

def freshFS : FS LocalBlobStore := mounted {} {} 0o755

theorem linkRun_follows_tree :
    Guarded serve (Fits (· ∈ handed freshFS linkRun) (· ∈ linkPaths)) freshFS linkRun ∧
      ∃ t, Follows freshFS (emptyTree 0o755) linkRun (run serve freshFS linkRun) t ∧
        Agrees (· ∈ linkPaths) (run serve freshFS linkRun) t := by
  have hfits : Guarded serve (Fits (· ∈ handed freshFS linkRun) (· ∈ linkPaths)) freshFS linkRun := by
    decide +kernel
  have hU : ∀ c ∈ handed freshFS linkRun, ∀ c' ∈ handed freshFS linkRun,
      hashBytes c = hashBytes c' → c = c' := by
    decide +kernel
  have hP : Scope (· ∈ linkPaths) := scope_of_list (by decide +kernel) (by decide +kernel)
    (by decide +kernel) (by decide +kernel) (by decide +kernel)
  obtain ⟨t, hfollows, hagrees, -⟩ := requests_follow_tree (fun c c' hc hc' => hU c hc c' hc') hP
    (by rintro commit ⟨⟩) ({} : LocalBlobStore) 0o755 linkRun hfits
  exact ⟨hfits, t, hfollows, hagrees⟩

end Runs

end Momo.Momofs
