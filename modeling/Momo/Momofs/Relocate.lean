import Momo.Momofs.Refinement
import Momo.Schemes.Relocation

/-! @momo src/momofs/momofs.go | scheme:a subtree moved key by key

    `rewriteSubtree` moves a directory: its manifest, then its entries one after the other, each
    under the key of its new path. What it does to the name map is a relocation of the keys of the
    subtree's nodes (`Pairs`). A step moves one key (`moveObject_moved`), a list of entries is moved
    entry by entry (`rewriteEntries_moved`), a directory by induction on the fuel
    (`rewriteSubtree_moved`). -/

namespace Momo.Momofs

open CASStore (Names Sim)
open ManifestJSON

/-! ### Keys of nodes -/

section Keys

variable [Sha256]

def keyAt : EntryType → Path → Bytes
  | .file, p => objKey (render p)
  | .dir, p => dirKey (render p)

def keyOf (v : Node) (p : Path) : Bytes := keyAt v.type p

theorem keyAt_inj {P : Path → Prop} (hP : Scope P) {p q : Path} (hp : P p) (hq : P q)
    {x y : EntryType} (h : keyAt x p = keyAt y q) : p = q ∧ x = y := by
  cases x <;> cases y
  · exact ⟨hP.keys p q hp hq (objKey_inj.mp h), rfl⟩
  · exact absurd h.symm (dirKey_ne_objKey _ _)
  · exact absurd h (dirKey_ne_objKey _ _)
  · exact ⟨hP.keys p q hp hq (dirKey_inj.mp h), rfl⟩

theorem keyOf_inj {P : Path → Prop} (hP : Scope P) {p q : Path} (hp : P p) (hq : P q) {v w : Node}
    (h : keyOf v p = keyOf w q) : p = q :=
  (keyAt_inj hP hp hq h).1

/-- The keys of the nodes below `old`, each with its key below `new`. -/
def Pairs (node : Path → Option Node) (old new : Path) (x y : Bytes) : Prop :=
  ∃ r v, node (old ++ r) = some v ∧ x = keyOf v (old ++ r) ∧ y = keyOf v (new ++ r)

/-- The way from `old` to `new`: all paths on it are in scope, and no new key is an old one. -/
structure Route (P : Path → Prop) (node : Path → Option Node) (old new : Path) : Prop where
  source : ∀ r, node (old ++ r) ≠ none → P (old ++ r)
  target : ∀ r, node (old ++ r) ≠ none → P (new ++ r)
  free : ∀ r v r' v', node (old ++ r) = some v → node (old ++ r') = some v' →
    keyOf v (old ++ r) ≠ keyOf v' (new ++ r')

variable {P : Path → Prop} {node : Path → Option Node} {old new : Path}

theorem Route.child (h : Route P node old new) (j : Bytes) :
    Route P node (old ++ [j]) (new ++ [j]) := by
  refine ⟨fun r hr => ?_, fun r hr => ?_, fun r v r' v' hv hv' => ?_⟩
  · rw [List.append_assoc] at hr ⊢
    exact h.source _ hr
  · rw [List.append_assoc] at hr ⊢
    exact h.target _ hr
  · rw [List.append_assoc] at hv hv' ⊢
    rw [List.append_assoc]
    exact h.free _ _ _ _ hv hv'

theorem Route.disjoint (hP : Scope P) (h : Route P node old new) {i j : Bytes} (hij : i ≠ j)
    {x y x' y' : Bytes} (hxy : Pairs node (old ++ [i]) (new ++ [i]) x y)
    (hxy' : Pairs node (old ++ [j]) (new ++ [j]) x' y') : x ≠ x' ∧ x ≠ y' ∧ y ≠ x' ∧ y ≠ y' := by
  obtain ⟨r, v, hv, rfl, rfl⟩ := hxy
  obtain ⟨r', v', hv', rfl, rfl⟩ := hxy'
  simp only [List.append_assoc, List.singleton_append] at hv hv' ⊢
  have hcross : ∀ p : Path, p ++ i :: r ≠ p ++ j :: r' := fun p he =>
    hij (List.cons.inj (List.append_cancel_left he)).1
  have hne : node (old ++ i :: r) ≠ none := by simp [hv]
  have hne' : node (old ++ j :: r') ≠ none := by simp [hv']
  refine ⟨fun he => hcross old ?_, h.free _ _ _ _ hv hv', (h.free _ _ _ _ hv' hv).symm,
    fun he => hcross new ?_⟩
  · exact keyOf_inj hP (h.source _ hne) (h.source _ hne') he
  · exact keyOf_inj hP (h.target _ hne) (h.target _ hne') he

theorem pairs_dir_iff {attr : Attr} (hv : node old = some (.dir attr)) {es : List Entry}
    (hlist : Lists node old es) (hclosed : ∀ j r, node (old ++ j :: r) ≠ none →
      node (old ++ [j]) ≠ none) (x y : Bytes) :
    ((x = dirKey (render old) ∧ y = dirKey (render new)) ∨
      ∃ e ∈ es, Pairs node (old ++ [e.name]) (new ++ [e.name]) x y) ↔ Pairs node old new x y := by
  constructor
  · rintro (⟨rfl, rfl⟩ | ⟨e, he, r, v, hr, rfl, rfl⟩)
    · exact ⟨[], .dir attr, by rw [List.append_nil, hv], by rw [List.append_nil]; rfl,
        by rw [List.append_nil]; rfl⟩
    · rw [List.append_assoc] at hr
      exact ⟨e.name :: r, v, hr, by rw [List.append_assoc]; rfl, by rw [List.append_assoc]; rfl⟩
  · rintro ⟨r, v, hr, rfl, rfl⟩
    cases r with
    | nil =>
      rw [List.append_nil] at hr ⊢
      rw [List.append_nil]
      rw [hv] at hr
      cases hr
      exact Or.inl ⟨rfl, rfl⟩
    | cons j r =>
      obtain ⟨w, hw⟩ := Option.ne_none_iff_exists'.mp (hclosed j r (by simp [hr]))
      have hname : (entryOf j w).name = j := entryOf_name j w
      refine Or.inr ⟨entryOf j w, hlist.entry_mem hw, r, v, ?_, ?_, ?_⟩
      · rw [hname, List.append_assoc]
        exact hr
      · rw [hname, List.append_assoc]
        rfl
      · rw [hname, List.append_assoc]
        rfl

theorem pairs_file_iff {attr : Attr} {c : Bytes} (hv : node old = some (.file attr c))
    (hleaf : ∀ r, r ≠ [] → node (old ++ r) = none) (x y : Bytes) :
    (x = objKey (render old) ∧ y = objKey (render new)) ↔ Pairs node old new x y := by
  constructor
  · rintro ⟨rfl, rfl⟩
    exact ⟨[], .file attr c, by rw [List.append_nil, hv], by rw [List.append_nil]; rfl,
      by rw [List.append_nil]; rfl⟩
  · rintro ⟨r, v, hr, rfl, rfl⟩
    have hnil : r = [] := by
      by_contra hne
      rw [hleaf r hne] at hr
      cases hr
    subst hnil
    rw [List.append_nil] at hr ⊢
    rw [List.append_nil]
    rw [hv] at hr
    cases hr
    exact ⟨rfl, rfl⟩

end Keys

/-! ### Moves -/

section Moves

variable [Sha256] [ManifestJSON] {β : Type} [BlobStore β] [MapBackend β]

/-- Every node below `old` has its bytes under its key. -/
structure Intact (a : Names) (node : Path → Option Node) (old : Path) : Prop where
  files : ∀ r attr c, node (old ++ r) = some (.file attr c) → a (objKey (render (old ++ r))) = some c
  dirs : ∀ r, DirAt node (old ++ r) → DirStored a node (old ++ r)

/-- How a move ends: out of fuel, in a failure of the store, or with its keys relocated. -/
def Moved (U : Bytes → Prop) (M : Bytes → Bytes → Prop) (a : Names) (short : Prop) :
    Option (Except Err Unit × FS β) → Prop
  | none => short
  | some (.error _, f) => ∃ e, .failed e ∈ f.log
  | some (.ok _, f) => ∃ b, Stores U f b ∧ Relocates M a b

variable {U : Bytes → Prop} {P : Path → Prop} {M N : Bytes → Bytes → Prop} {a b : Names}
  {node : Path → Option Node} {old new : Path} {f : FS β} {short short' : Prop}

omit [ManifestJSON] in
theorem Moved.congr {res : Option (Except Err Unit × FS β)} (hM : ∀ x y, M x y ↔ N x y)
    (hshort : short → short') (h : Moved U M a short res) : Moved U N a short' res := by
  rcases res with _ | ⟨_ | _, f'⟩
  · exact hshort h
  · exact h
  · obtain ⟨b, hs, hr⟩ := h
    exact ⟨b, hs, hr.congr hM⟩

omit [ManifestJSON] in
theorem Moved.after {res : Option (Except Err Unit × FS β)} (hr : Relocates M a b)
    (hdisj : ∀ x y x' y', M x y → N x' y' → x ≠ x' ∧ x ≠ y' ∧ y ≠ x' ∧ y ≠ y')
    (h : Moved U N b short res) : Moved U (fun x y => M x y ∨ N x y) a short res := by
  rcases res with _ | ⟨_ | _, f'⟩
  · exact h
  · exact h
  · obtain ⟨c, hs, hr'⟩ := h
    exact ⟨c, hs, hr.comp hr' hdisj⟩

omit [ManifestJSON] in
theorem Moved.bind {x : Loop (FS β) Err Unit} {g : Unit → Loop (FS β) Err Unit}
    (hx : Moved U M a short (x f))
    (hdisj : ∀ x y x' y', M x y → N x' y' → x ≠ x' ∧ x ≠ y' ∧ y ≠ x' ∧ y ≠ y')
    (hg : ∀ f' b, Stores U f' b → Relocates M a b → Moved U N b short' (g () f')) :
    Moved U (fun x y => M x y ∨ N x y) a (short ∨ short') ((x >>= g) f) := by
  rcases hxf : x f with _ | ⟨_ | _, f'⟩
  · rw [hxf] at hx
    rw [Loop.bind_of_none hxf]
    exact Or.inl hx
  · rw [hxf] at hx
    rw [Loop.bind_of_error hxf]
    exact hx
  · rw [hxf] at hx
    obtain ⟨b, hs, hr⟩ := hx
    rw [Loop.bind_of_ok hxf]
    exact (Moved.after hr hdisj (hg f' b hs hr)).congr (fun _ _ => Iff.rfl) Or.inr

omit [ManifestJSON] in
theorem moveObject_moved (hs : Stores U f a) (now : Int) {p q c : Bytes} {e : Entry}
    (hhash : e.hash = hashBytes c) (hsize : 0 ≤ e.size) (hkey : a (objKey p) = some c)
    (hne : objKey p ≠ objKey q) :
    Moved U (fun x y => x = objKey p ∧ y = objKey q) a False (some (moveObject now p q e f)) := by
  unfold moveObject
  rw [hhash]
  rcases storePut_cases hs now (objKey q) hsize q (Or.inr ⟨rfl, _, hkey⟩)
    with ⟨f₁, hput, hs₁⟩ | ⟨e', f₁, hput, -, hfailed⟩
  · obtain ⟨f₂, hdel, hs₂⟩ := storeDelete_eq hs₁ now (length_objKey p)
    rw [Prog.bind_of_ok hput, hdel]
    rw [← hkey] at hs₂
    exact ⟨_, hs₂, Relocates.single hne a⟩
  · rw [Prog.bind_of_error hput]
    exact ⟨e', hfailed⟩

theorem Intact.frame (h : Intact a node old)
    (hsame : ∀ r v, node (old ++ r) = some v → b (keyOf v (old ++ r)) = a (keyOf v (old ++ r))) :
    Intact b node old where
  files r attr c hv := (hsame r _ hv).trans (h.files r attr c hv)
  dirs r hd := by
    obtain ⟨es, hkey, hsmall, hlist⟩ := h.dirs r hd
    obtain ⟨v, hv, hdir⟩ := hd
    cases v with
    | file => exact hdir.elim
    | dir attr => exact ⟨es, (hsame r _ hv).trans hkey, hsmall, hlist⟩

theorem Intact.child (h : Intact a node old) (j : Bytes) : Intact a node (old ++ [j]) where
  files r attr c hv := by
    rw [List.append_assoc] at hv ⊢
    exact h.files _ attr c hv
  dirs r hd := by
    rw [List.append_assoc] at hd ⊢
    exact h.dirs _ hd

def Short (node : Path → Option Node) (old : Path) (fuel : ℕ) : Prop :=
  ∃ r, node (old ++ r) ≠ none ∧ fuel ≤ r.length

variable {t : Tree}

theorem rewriteEntries_moved (hP : Scope P) (now : Int) {fuel : ℕ}
    {rewrite : Bytes → Bytes → Loop (FS β) Err Unit} (hroute : Route P t.node old new)
    (hrewrite : ∀ j f a, DirAt t.node (old ++ [j]) → Stores U f a → Intact a t.node (old ++ [j]) →
      Moved U (Pairs t.node (old ++ [j]) (new ++ [j])) a (Short t.node (old ++ [j]) fuel)
        (rewrite (render (old ++ [j])) (render (new ++ [j])) f)) :
    ∀ {es : List Entry} {f : FS β} {a : Names}, (es.map Entry.name).Nodup →
      (∀ e ∈ es, ∃ v, t.node (old ++ [e.name]) = some v ∧ e = entryOf e.name v) → Stores U f a →
      (∀ e ∈ es, Intact a t.node (old ++ [e.name])) →
      Moved U (fun x y => ∃ e ∈ es, Pairs t.node (old ++ [e.name]) (new ++ [e.name]) x y) a
        (∃ e ∈ es, Short t.node (old ++ [e.name]) fuel)
        (rewriteEntries now rewrite (render old) (render new) es f) := by
  intro es
  induction es with
  | nil =>
    intro f a _ _ hs _
    exact ⟨a, hs, Relocates.none (by simp)⟩
  | cons e es ih =>
    intro f a hnodup hlisted hs hintact
    obtain ⟨v, hv, he⟩ := hlisted e List.mem_cons_self
    have hthere : t.node (old ++ [e.name] ++ []) ≠ none := by simp [hv]
    have hold : pathJoin (render old) e.name = render (old ++ [e.name]) :=
      pathJoin_render (hP.comps _ (by simpa using (hroute.child e.name).source [] hthere))
    have hnew : pathJoin (render new) e.name = render (new ++ [e.name]) :=
      pathJoin_render (hP.comps _ (by simpa using (hroute.child e.name).target [] hthere))
    have hfirst : Moved U (Pairs t.node (old ++ [e.name]) (new ++ [e.name])) a
        (Short t.node (old ++ [e.name]) fuel)
        ((if e.type = .file then monadLift (moveObject (β := β) now (render (old ++ [e.name]))
            (render (new ++ [e.name])) e)
          else rewrite (render (old ++ [e.name])) (render (new ++ [e.name])) : Loop (FS β) Err Unit) f) := by
      cases v with
      | dir attr =>
        have htype : e.type = .dir := by rw [he]; rfl
        rw [htype]
        exact hrewrite e.name f a ⟨_, hv, trivial⟩ hs (hintact e List.mem_cons_self)
      | file attr c =>
        have htype : e.type = .file := by rw [he]; rfl
        have hhash : e.hash = hashBytes c := by rw [he]; rfl
        have hsize : 0 ≤ e.size := by rw [he]; exact Int.natCast_nonneg _
        have hkey : a (objKey (render (old ++ [e.name]))) = some c := by
          simpa using (hintact e List.mem_cons_self).files [] attr c (by simpa using hv)
        have hne : objKey (render (old ++ [e.name])) ≠ objKey (render (new ++ [e.name])) := by
          simpa [keyOf, keyAt, Node.type] using (hroute.child e.name).free [] _ [] _ (by simpa using hv)
            (by simpa using hv)
        rw [htype]
        refine Moved.congr (pairs_file_iff hv fun r hr => ?_) False.elim
          (moveObject_moved hs now hhash hsize hkey hne)
        exact t.none_below (leaf_of_not_dirAt (not_dirAt_file hv)) hr
    have hrest : ∀ e' ∈ es, e'.name ≠ e.name := by
      rintro e' he' hname
      exact (List.nodup_cons.mp hnodup).1 (List.mem_map.mpr ⟨e', he', hname⟩)
    have hstep : rewriteEntries now rewrite (render old) (render new) (e :: es) f =
        ((if e.type = .file then monadLift (moveObject (β := β) now (render (old ++ [e.name]))
            (render (new ++ [e.name])) e)
          else rewrite (render (old ++ [e.name])) (render (new ++ [e.name])) : Loop (FS β) Err Unit) >>= fun _ =>
          rewriteEntries now rewrite (render old) (render new) es) f := by
      rw [rewriteEntries, hold, hnew]
      cases e.type <;> rfl
    rw [hstep]
    refine Moved.congr ?_ ?_ (Moved.bind hfirst ?_ fun f' b hs' hr =>
      ih (List.nodup_cons.mp hnodup).2 (fun e' he' => hlisted e' (List.mem_cons_of_mem e he')) hs'
        fun e' he' => (hintact e' (List.mem_cons_of_mem e he')).frame fun r w hw => ?_)
    · simp
    · rintro (h | ⟨e', he', h⟩)
      · exact ⟨e, List.mem_cons_self, h⟩
      · exact ⟨e', List.mem_cons_of_mem e he', h⟩
    · rintro x y x' y' hxy ⟨e', he', hxy'⟩
      exact hroute.disjoint hP (hrest e' he').symm hxy hxy'
    · -- the keys of the entries to come are none that moved
      have hpair : Pairs t.node (old ++ [e'.name]) (new ++ [e'.name]) (keyOf w (old ++ [e'.name] ++ r))
        (keyOf w (new ++ [e'.name] ++ r)) := ⟨r, w, hw, rfl, rfl⟩
      exact hr.frame _ (fun y h => (hroute.disjoint hP (hrest e' he').symm h hpair).1 rfl)
        fun x h => (hroute.disjoint hP (hrest e' he').symm h hpair).2.2.1 rfl

theorem rewriteSubtree_moved (hU : Distinct U) (hP : Scope P) (now : Int) :
    ∀ (fuel : ℕ) {old new : Path} {f : FS β} {a : Names}, Route P t.node old new →
      DirAt t.node old → Stores U f a → Intact a t.node old →
      Moved U (Pairs t.node old new) a (Short t.node old fuel)
        (rewriteSubtree now fuel (render old) (render new) f) := by
  intro fuel
  induction fuel with
  | zero =>
    rintro old new f a - ⟨v, hv, -⟩ - -
    exact ⟨[], by simp [hv], Nat.zero_le _⟩
  | succ fuel ih =>
    intro old new f a hroute hd hs hintact
    obtain ⟨es, hkey, hsmall, hlist⟩ : DirStored a t.node old := by
      simpa using hintact.dirs [] (by simpa using hd)
    obtain ⟨v, hv, hdir⟩ := hd
    obtain ⟨attr, rfl⟩ : ∃ attr, v = .dir attr := by
      cases v with
      | file => exact hdir.elim
      | dir attr => exact ⟨attr, rfl⟩
    have hread : readManifest (render old) f = (.ok ⟨manifestVersion, es⟩, f) :=
      ReadsAs.read hU hs (Or.inl ⟨hkey, hsmall, hlist.plain hP fun j hj => hroute.source [j] hj⟩)
    -- the manifest itself
    have hne : dirKey (render old) ≠ dirKey (render new) := by
      simpa [keyOf, keyAt, Node.type] using hroute.free [] _ [] _ (by simpa using hv) (by simpa using hv)
    obtain ⟨f₁, hput, hs₁⟩ := storePut_ok hs now (length_dirKey (render new)) (hs.sim.known _ _ hkey)
    obtain ⟨f₂, hdel, hs₂⟩ := storeDelete_eq hs₁ now (length_dirKey (render old))
    rw [← hkey] at hs₂
    have hr := Relocates.single hne a
    -- then its entries, whose keys are neither the old nor the new one of the manifest
    have hnil : t.node (old ++ []) = some (.dir attr) := by rw [List.append_nil, hv]
    have hother : ∀ j r w, t.node (old ++ [j] ++ r) = some w →
        (keyOf w (old ++ [j] ++ r) ≠ dirKey (render old) ∧
          keyOf w (old ++ [j] ++ r) ≠ dirKey (render new)) ∧
        keyOf w (new ++ [j] ++ r) ≠ dirKey (render old) ∧
          keyOf w (new ++ [j] ++ r) ≠ dirKey (render new) := by
      intro j r w hw
      have hself : keyOf (.dir attr) (old ++ []) = dirKey (render old) ∧
          keyOf (.dir attr) (new ++ []) = dirKey (render new) := by
        rw [List.append_nil, List.append_nil]
        exact ⟨rfl, rfl⟩
      have hw' : t.node (old ++ j :: r) = some w := by rwa [List.append_assoc] at hw
      have hlen : ∀ p : Path, p ++ j :: r ≠ p ++ [] := fun p => by simp
      have hthere : t.node (old ++ j :: r) ≠ none := by rw [hw']; simp
      have hroot : t.node (old ++ []) ≠ none := by rw [hnil]; simp
      rw [← hself.1, ← hself.2, List.append_assoc, List.append_assoc, List.singleton_append]
      exact ⟨⟨fun h => hlen old (keyOf_inj hP (hroute.source _ hthere) (hroute.source _ hroot) h),
          hroute.free _ _ _ _ hw' hnil⟩, (hroute.free _ _ _ _ hnil hw').symm,
        fun h => hlen new (keyOf_inj hP (hroute.target _ hthere) (hroute.target _ hroot) h)⟩
    have hentries := rewriteEntries_moved hP now hroute
      (fun j f a hd hs hi => ih (hroute.child j) hd hs hi) hlist.nodup
      (fun e he => (hlist.mem e).mp he) hs₂ fun e _ => (hintact.child e.name).frame fun r w hw => by
        rw [Function.update_of_ne (hother e.name r w hw).1.1,
          Function.update_of_ne (hother e.name r w hw).1.2]
    have hstart : rewriteSubtree now (fuel + 1) (render old) (render new) f =
        rewriteEntries now (rewriteSubtree now fuel) (render old) (render new) es f₂ := by
      rw [rewriteSubtree, Loop.bind_lift_ok hread]
      simp only
      rw [Loop.bind_lift_ok hput, Loop.bind_lift_ok hdel]
    rw [hstart]
    refine (Moved.after hr ?_ hentries).congr (pairs_dir_iff hv hlist fun j r h => ?_) ?_
    · rintro x y x' y' ⟨rfl, rfl⟩ ⟨e, -, r, w, hw, rfl, rfl⟩
      have h := hother e.name r w hw
      exact ⟨h.1.1.symm, h.2.1.symm, h.1.2.symm, h.2.2.symm⟩
    · intro hj
      cases r with
      | nil => exact h hj
      | cons i r =>
        obtain ⟨w, hw, -⟩ := t.inner_above (p := old ++ [j]) (r := i :: r) (by simp)
          (by rwa [List.append_assoc, List.singleton_append])
        rw [hw] at hj
        cases hj
    · rintro ⟨e, -, r, hr, hlen⟩
      rw [List.append_assoc] at hr
      exact ⟨e.name :: r, hr, Nat.succ_le_succ hlen⟩

end Moves

end Momo.Momofs
