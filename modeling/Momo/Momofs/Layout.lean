import Momo.Momofs.Tree
import Momo.Storage.Refinement

/-! @momo src/momofs/momofs.go | scheme:a tree laid out over a name map

    How a tree lies in the store. The store is read through the name map it simulates, so what has to
    be kept is a relation between two functions. -/

namespace Momo.Momofs

open CASStore (Names Sim BarrierOk)
open ManifestJSON

/-! ### Manifests and the children they list -/

theorem name_notMem_removeEntry (es : List Entry) (k : Bytes) :
    k ∉ (removeEntry es k).map Entry.name := by
  rw [List.mem_map]
  rintro ⟨e, he, hname⟩
  have := (List.mem_filter.mp he).2
  simp [hname] at this

theorem replace_eq_split {es : List Entry} {e : Entry} (he : e ∈ es) (e' : Entry) :
    ∃ before after, es = before ++ e :: after ∧ es.replace e e' = before ++ e' :: after := by
  induction es with
  | nil => cases he
  | cons x es ih =>
    by_cases hx : x = e
    · subst hx
      exact ⟨[], es, rfl, by simp⟩
    · have he' : e ∈ es := (List.mem_cons.mp he).resolve_left (Ne.symm hx)
      obtain ⟨before, after, hsplit, hrep⟩ := ih he'
      refine ⟨x :: before, after, by rw [hsplit, List.cons_append], ?_⟩
      have hbeq : (e == x) = false := by simpa using Ne.symm hx
      simp only [List.replace_cons, hbeq, hrep, List.cons_append]

section Lists

variable [Sha256]

/-- A manifest's entries are the children of `p`, each once. -/
structure Lists (node : Path → Option Node) (p : Path) (es : List Entry) : Prop where
  nodup : (es.map Entry.name).Nodup
  mem : ∀ e, e ∈ es ↔ ∃ v, node (p ++ [e.name]) = some v ∧ e = entryOf e.name v

variable {node : Path → Option Node} {p : Path} {k : Bytes} {es : List Entry}

theorem Lists.nil (h : ∀ j, node (p ++ [j]) = none) : Lists node p [] where
  nodup := List.nodup_nil
  mem e := by simp [h e.name]

theorem Lists.congr {node' : Path → Option Node} (hl : Lists node p es)
    (h : ∀ j, node' (p ++ [j]) = node (p ++ [j])) : Lists node' p es where
  nodup := hl.nodup
  mem e := by rw [h]; exact hl.mem e

theorem Lists.leaf_of_nil (hl : Lists node p []) (j : Bytes) : node (p ++ [j]) = none := by
  by_contra h
  obtain ⟨v, hv⟩ := Option.ne_none_iff_exists'.mp h
  exact List.not_mem_nil ((hl.mem (entryOf j v)).mpr ⟨v, by rw [entryOf_name, hv], by rw [entryOf_name]⟩)

theorem Lists.entry_mem (hl : Lists node p es) {v : Node} (hv : node (p ++ [k]) = some v) :
    entryOf k v ∈ es :=
  (hl.mem _).mpr ⟨v, by rw [entryOf_name, hv], by rw [entryOf_name]⟩

theorem Lists.find (hl : Lists node p es) (n : Int) (k : Bytes) :
    findEntry ⟨n, es⟩ k = (node (p ++ [k])).map (entryOf k) := by
  cases hf : findEntry ⟨n, es⟩ k with
  | none =>
    cases hv : node (p ++ [k]) with
    | none => rfl
    | some v =>
      have := List.find?_eq_none.mp hf _ (hl.entry_mem hv)
      simp at this
  | some e =>
    have hname : e.name = k := by simpa using List.find?_some hf
    obtain ⟨v, hv, he⟩ := (hl.mem e).mp (List.mem_of_find?_eq_some hf)
    rw [hname] at hv he
    rw [hv, Option.map_some, ← he]

theorem Lists.update (hl : Lists node p es) {v : Option Node} {es' : List Entry}
    (hnodup : (es'.map Entry.name).Nodup)
    (hmem : ∀ e, e ∈ es' ↔ (e.name ≠ k ∧ e ∈ es) ∨ ∃ w, v = some w ∧ e = entryOf k w) :
    Lists (Function.update node (p ++ [k]) v) p es' where
  nodup := hnodup
  mem e := by
    rw [hmem e]
    by_cases hk : e.name = k
    · subst hk
      rw [Function.update_self]
      simp
    · have hne : p ++ [e.name] ≠ p ++ [k] := fun h => hk (by simpa using h)
      rw [Function.update_of_ne hne, ← hl.mem e]
      constructor
      · rintro (⟨-, he⟩ | ⟨w, -, rfl⟩)
        · exact he
        · exact absurd (entryOf_name k w) hk
      · exact fun he => Or.inl ⟨hk, he⟩

theorem Lists.remove (hl : Lists node p es) :
    Lists (Function.update node (p ++ [k]) none) p (removeEntry es k) := by
  refine hl.update (hl.nodup.sublist (List.filter_sublist.map _)) fun e => ?_
  simp [removeEntry, and_comm]

theorem Lists.removeAppend (hl : Lists node p es) (v : Node) :
    Lists (Function.update node (p ++ [k]) (some v)) p (removeEntry es k ++ [entryOf k v]) := by
  refine hl.update ?_ fun e => ?_
  · rw [List.map_append, List.map_singleton, entryOf_name]
    refine List.Nodup.append (hl.nodup.sublist (List.filter_sublist.map _)) (List.nodup_singleton k) ?_
    rw [List.disjoint_singleton]
    exact name_notMem_removeEntry es k
  · simp [removeEntry, and_comm]

theorem Lists.removeEntry_eq (hl : Lists node p es) (hnew : node (p ++ [k]) = none) :
    removeEntry es k = es := by
  refine List.filter_eq_self.mpr fun e he => ?_
  obtain ⟨v, hv, -⟩ := (hl.mem e).mp he
  have hne : e.name ≠ k := by
    rintro rfl
    rw [hnew] at hv
    cases hv
  simpa using hne

theorem Lists.append (hl : Lists node p es) (hnew : node (p ++ [k]) = none) (v : Node) :
    Lists (Function.update node (p ++ [k]) (some v)) p (es ++ [entryOf k v]) := by
  have h := hl.removeAppend (k := k) v
  rwa [hl.removeEntry_eq hnew] at h

theorem Lists.replace (hl : Lists node p es) {w : Node} (hw : node (p ++ [k]) = some w) (v : Node) :
    Lists (Function.update node (p ++ [k]) (some v)) p (es.replace (entryOf k w) (entryOf k v)) := by
  obtain ⟨before, after, hsplit, hrep⟩ := replace_eq_split (hl.entry_mem hw) (entryOf k v)
  have hnames : (es.replace (entryOf k w) (entryOf k v)).map Entry.name = es.map Entry.name := by
    rw [hrep, hsplit]
    simp
  refine hl.update (hnames ▸ hl.nodup) fun e => ?_
  have hnodup := hl.nodup
  rw [hsplit, List.map_append, List.map_cons, entryOf_name] at hnodup
  have hother : ∀ x, x ∈ before ∨ x ∈ after → x.name ≠ k := by
    rintro x hx rfl
    rcases hx with hx | hx
    · exact (List.disjoint_of_nodup_append hnodup) (List.mem_map_of_mem hx) List.mem_cons_self
    · exact (List.nodup_cons.mp (List.nodup_append.mp hnodup).2.1).1 (List.mem_map_of_mem hx)
  rw [hrep, hsplit]
  simp only [List.mem_append, List.mem_cons, Option.some.injEq, exists_eq_left']
  constructor
  · rintro (he | rfl | he)
    · exact Or.inl ⟨hother e (Or.inl he), Or.inl he⟩
    · exact Or.inr rfl
    · exact Or.inl ⟨hother e (Or.inr he), Or.inr (Or.inr he)⟩
  · rintro (⟨hk, he | rfl | he⟩ | rfl)
    · exact Or.inl he
    · exact absurd (entryOf_name k w) hk
    · exact Or.inr (Or.inr he)
    · exact Or.inr (Or.inl rfl)

end Lists

/-! ### The layout -/

/-- A set of paths whose keys do not collide: closed upwards, of names that JSON keeps. -/
structure Scope [Sha256] (P : Path → Prop) : Prop where
  root : P []
  parent : ∀ p k, P (p ++ [k]) → P p
  comps : ∀ p, P p → ∀ c ∈ p, Comp c
  utf8 : ∀ p, P p → ∀ c ∈ p, ValidUTF8 c
  keys : ∀ p q, P p → P q → pathKey (render p) = pathKey (render q) → p = q

def Distinct [Sha256] (U : Bytes → Prop) : Prop :=
  ∀ c c', U c → U c' → hashBytes c = hashBytes c' → c = c'

section Layout

variable [Sha256] [ManifestJSON]

def DirStored (a : Names) (node : Path → Option Node) (p : Path) : Prop :=
  ∃ es, a (dirKey (render p)) = some (marshal ⟨manifestVersion, es⟩) ∧
    (marshal ⟨manifestVersion, es⟩).length ≤ maxEntry ∧ Lists node p es

structure Laid (P : Path → Prop) (a : Names) (t : Tree) : Prop where
  scope : ∀ p, t.node p ≠ none → P p ∧ Accepted p
  root : DirAt t.node []
  files : ∀ p, P p → a (objKey (render p)) = (t.node p).bind Node.content?
  dirs : ∀ p, P p → DirAt t.node p → DirStored a t.node p ∨
    (p = [] ∧ a (dirKey (render p)) = none ∧ Lists t.node p [])
  notDir : ∀ p, P p → ¬ DirAt t.node p → a (dirKey (render p)) = none
  /-- No name but the file system's own. -/
  own : ∀ n, a n ≠ none → dirPrefix <+: n ∨ filePrefix <+: n
  depth : ∃ d, ∀ p, t.node p ≠ none → p.length ≤ d

/-- A file system over a store that simulates the map `a`; its list of native objects is empty. -/
structure Stores {β : Type} [BlobStore β] [MapBackend β] (U : Bytes → Prop) (f : FS β) (a : Names) :
    Prop where
  sim : Sim U f.store a
  index : f.idxList = []

variable {P : Path → Prop} {a : Names} {t : Tree}

omit [ManifestJSON] in
theorem hashBytes_ascii (c : Bytes) : ∀ x ∈ hashBytes c, x < 128 := by
  have hdigit : ∀ n : Fin 16, hexDigit n < 128 := by decide
  intro x hx
  obtain ⟨n, rfl⟩ := mem_hexEncode hx
  exact hdigit n

variable {p : Path} {es : List Entry}

omit [ManifestJSON] in
theorem Lists.plain (hP : Scope P) {node : Path → Option Node} (hl : Lists node p es)
    (hscope : ∀ j, node (p ++ [j]) ≠ none → P (p ++ [j])) : ∀ e ∈ es, e.Plain := by
  intro e he
  obtain ⟨v, hv, hentry⟩ := (hl.mem e).mp he
  have hp : P (p ++ [e.name]) := hscope _ (by rw [hv]; simp)
  refine ⟨hP.utf8 _ hp _ (by simp), ?_, ?_⟩
  · rw [hentry]
    cases v with
    | file attr c => exact hashBytes_ascii c
    | dir attr => exact fun x hx => nomatch hx
  · rw [hentry]
    cases v <;> rfl

variable {β : Type} [BlobStore β] [MapBackend β] {U : Bytes → Prop} {f : FS β}

/-! ### Reading the store -/

omit [ManifestJSON] in
theorem storeGet_some (hU : Distinct U) (hs : Stores U f a) {key c : Bytes} (h : a key = some c) :
    ∃ rc m, storeGet key f = (.ok (rc, m), f) ∧ rc.readAll = (c, none) ∧ m.hash = hashBytes c := by
  have hget := hs.sim.get_eq hU key
  rw [h] at hget
  obtain ⟨rc, m, hget, hread, -, hhash⟩ := hget
  exact ⟨rc, m, by simp only [storeGet, hget], hread, hhash⟩

omit [ManifestJSON] in
theorem storeGet_none (hU : Distinct U) (hs : Stores U f a) {key : Bytes} (h : a key = none) :
    storeGet key f = (.error (.sys .enoent), f) := by
  have hget := hs.sim.get_eq hU key
  rw [h] at hget
  simp only [storeGet, hget]

theorem decodeManifest_marshal (hplain : ∀ e ∈ es, e.Plain)
    (hsmall : (marshal ⟨manifestVersion, es⟩).length ≤ maxEntry) {rc : Stream}
    (hread : rc.readAll = (marshal ⟨manifestVersion, es⟩, none)) :
    decodeManifest rc = .ok ⟨manifestVersion, es⟩ := by
  simp only [decodeManifest, hread, ite_self, List.take_of_length_le hsmall,
    unmarshal_marshal ⟨manifestVersion, es⟩ hplain, ne_eq, not_true_eq_false, if_false]

/-- What `readManifest` finds at `p`: a stored manifest, or nothing at the root. -/
def ReadsAs (a : Names) (p : Path) (es : List Entry) : Prop :=
  (a (dirKey (render p)) = some (marshal ⟨manifestVersion, es⟩) ∧
    (marshal ⟨manifestVersion, es⟩).length ≤ maxEntry ∧ ∀ e ∈ es, e.Plain) ∨
  (p = [] ∧ a (dirKey (render p)) = none ∧ es = [])

theorem ReadsAs.read (hU : Distinct U) (hs : Stores U f a) (h : ReadsAs a p es) :
    readManifest (render p) f = (.ok ⟨manifestVersion, es⟩, f) := by
  rcases h with ⟨hkey, hsmall, hplain⟩ | ⟨rfl, hkey, rfl⟩
  · obtain ⟨rc, m, hget, hread, -⟩ := storeGet_some hU hs hkey
    rw [readManifest, Prog.bind_of_ok (Prog.attempt_eq hget)]
    simp only [Prog.ofExcept, decodeManifest_marshal hplain hsmall hread]
  · rw [readManifest, Prog.bind_of_ok (Prog.attempt_eq (storeGet_none hU hs hkey))]
    rfl

theorem Laid.readsAs (hP : Scope P) (hl : Laid P a t) (hp : P p) (hd : DirAt t.node p) :
    ∃ es, ReadsAs a p es ∧ Lists t.node p es := by
  rcases hl.dirs p hp hd with ⟨es, hkey, hsmall, hlist⟩ | ⟨hroot, hkey, hlist⟩
  · exact ⟨es, Or.inl ⟨hkey, hsmall, hlist.plain hP fun j hj => (hl.scope _ hj).1⟩, hlist⟩
  · exact ⟨[], Or.inr ⟨hroot, hkey, rfl⟩, hlist⟩

theorem readManifest_dir (hU : Distinct U) (hP : Scope P) (hs : Stores U f a) (hl : Laid P a t)
    (hp : P p) (hd : DirAt t.node p) :
    ∃ es, readManifest (render p) f = (.ok ⟨manifestVersion, es⟩, f) ∧ Lists t.node p es := by
  obtain ⟨es, hreads, hlist⟩ := hl.readsAs hP hp hd
  exact ⟨es, hreads.read hU hs, hlist⟩

theorem readManifest_missing (hU : Distinct U) (hs : Stores U f a) (hcomp : ∀ c ∈ p, Comp c)
    (hp : p ≠ []) (hkey : a (dirKey (render p)) = none) :
    readManifest (render p) f = (.error (.sys .enoent), f) := by
  have hne : ¬ (render p = [slash] ∧ saysENOENT (.sys .enoent)) := fun h =>
    hp ((render_eq_root hcomp).mp h.1)
  rw [readManifest, Prog.bind_of_ok (Prog.attempt_eq (storeGet_none hU hs hkey))]
  simp only [if_neg hne]
  rfl

theorem readManifest_notDir (hU : Distinct U) (hP : Scope P) (hs : Stores U f a) (hl : Laid P a t)
    (hp : P p) (hd : ¬ DirAt t.node p) : readManifest (render p) f = (.error (.sys .enoent), f) :=
  readManifest_missing hU hs (hP.comps p hp) (fun h => hd (h ▸ hl.root)) (hl.notDir p hp hd)

theorem storeObjects_eq (hs : Stores U f a) (hl : Laid P a t) (now : Int) :
    ∃ at_, storeObjects now f = (.ok [], { f with idxAt := at_ }) := by
  have hnone : f.store.list.filter isNative = [] := by
    refine List.filter_eq_nil_iff.mpr fun m hm => ?_
    obtain ⟨e, he, rfl⟩ := List.mem_map.mp hm
    have hget : f.store.db.ns.get e.1 = some e.2 :=
      (OMap.mem_entries _).mp (List.mem_filter.mp he).1
    have hown := hl.own e.1 (by
      intro hn
      rw [hs.sim.agrees e.1, hn] at hget
      cases hget)
    simpa [isNative, or_iff_not_imp_left] using hown
  obtain ⟨store, rootMode, idxTTL, idxList, idxAt, log⟩ := f
  obtain rfl : idxList = [] := hs.index
  cases idxAt with
  | none => exact ⟨some now, by simp only [storeObjects, hnone]⟩
  | some at_ =>
    by_cases hfresh : 0 < idxTTL ∧ now - at_ < idxTTL
    · exact ⟨some at_, by simp only [storeObjects, if_pos hfresh]⟩
    · exact ⟨some now, by simp only [storeObjects, if_neg hfresh, hnone]⟩

end Layout

end Momo.Momofs
