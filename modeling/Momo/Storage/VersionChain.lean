import Momo.Schemes.PrefixScan
import Momo.Storage.Versioning

/-! @momo src/storage/versioning.go | scheme:one chain per object

    The version table seen as one chain per object: a map from version ids to records. A table has
    this shape when no name and no id in it holds a NUL byte (so that keys come apart in one way)
    and when no object is followed by a key shorter than its own prefix (so that no scan panics).
    On such a table every transaction is an operation on one chain. -/

namespace Momo

/-! ### Names -/

structure Plain (bucket key versionID : Bytes) : Prop where
  bucket : 0 ∉ bucket
  key : 0 ∉ key
  versionID : 0 ∉ versionID

instance (bucket key versionID : Bytes) : Decidable (Plain bucket key versionID) :=
  decidable_of_iff (0 ∉ bucket ∧ 0 ∉ key ∧ 0 ∉ versionID)
    ⟨fun h => ⟨h.1, h.2.1, h.2.2⟩, fun h => ⟨h.bucket, h.key, h.versionID⟩⟩

theorem versionKey_eq (bucket key versionID : Bytes) :
    versionKey bucket key versionID = bucket ++ 0 :: (key ++ 0 :: versionID) := by
  simp [versionKey, versionPrefix]

def throughNul (k : Bytes) : Bytes := k.takeWhile (fun c => c ≠ 0) ++ [0]

theorem throughNul_append {a : Bytes} (ha : 0 ∉ a) (rest : Bytes) :
    throughNul (a ++ 0 :: rest) = a ++ [0] := by
  have hall : ∀ c ∈ a, decide (c ≠ 0) = true := by
    intro c hc
    rw [decide_eq_true_iff]
    rintro rfl
    exact ha hc
  rw [throughNul, List.takeWhile_append_of_pos hall, List.takeWhile_cons_of_neg (by simp),
    List.append_nil]

theorem append_nul_inj {a a' x x' : Bytes} (ha : 0 ∉ a) (ha' : 0 ∉ a')
    (h : a ++ 0 :: x = a' ++ 0 :: x') : a = a' ∧ x = x' := by
  have hcut := congrArg throughNul h
  rw [throughNul_append ha, throughNul_append ha'] at hcut
  obtain rfl := List.append_cancel_right hcut
  exact ⟨rfl, (List.cons.inj (List.append_cancel_left h)).2⟩

variable {b k v v' : Bytes}

theorem versionKey_inj {b' k' : Bytes} (hb : 0 ∉ b) (hk : 0 ∉ k) (hb' : 0 ∉ b') (hk' : 0 ∉ k')
    (h : versionKey b k v = versionKey b' k' v') : b = b' ∧ k = k' ∧ v = v' := by
  rw [versionKey_eq, versionKey_eq] at h
  obtain ⟨rfl, hrest⟩ := append_nul_inj hb hb' h
  obtain ⟨rfl, rfl⟩ := append_nul_inj hk hk' hrest
  exact ⟨rfl, rfl, rfl⟩

theorem versionKey_ne (b k : Bytes) (h : v ≠ v') :
    versionKey b k v ≠ versionKey b k v' := fun heq => h (List.append_cancel_left heq)

theorem length_prefix_le (b k v : Bytes) : (versionPrefix b k).length ≤ (versionKey b k v).length := by
  rw [versionKey, List.length_append]
  omega

theorem Plain.of_prefix {b' k' : Bytes} (h : Plain b' k' v')
    (hp : versionPrefix b k <+: versionKey b' k' v') : b = b' ∧ k = k' := by
  obtain ⟨t, ht⟩ := hp
  have hcount : ∀ l : Bytes, 0 ∉ l → l.count 0 = 0 := fun l hl => List.count_eq_zero.mpr hl
  have heq : versionKey b k t = versionKey b' k' v' := ht
  -- the key has two NULs, and the prefix uses up two
  have hnul := congrArg (List.count 0) heq
  simp only [versionKey_eq, List.count_append, List.count_cons_self, hcount _ h.bucket,
    hcount _ h.key, hcount _ h.versionID] at hnul
  have hb : 0 ∉ b := List.count_eq_zero.mp (by omega)
  have hk : 0 ∉ k := List.count_eq_zero.mp (by omega)
  obtain ⟨rfl, rfl, -⟩ := versionKey_inj hb hk h.bucket h.key heq
  exact ⟨rfl, rfl⟩

def objectPrefix (k : Bytes) : Bytes := throughNul k ++ throughNul (k.drop (throughNul k).length)

theorem objectPrefix_versionKey (hb : 0 ∉ b) (hk : 0 ∉ k) (v : Bytes) :
    objectPrefix (versionKey b k v) = versionPrefix b k := by
  have hdrop : (b ++ 0 :: (k ++ 0 :: v)).drop (b ++ [(0 : UInt8)]).length = k ++ 0 :: v := by
    rw [List.append_cons b 0 (k ++ 0 :: v), List.drop_left]
  rw [objectPrefix, versionKey_eq, throughNul_append hb, hdrop, throughNul_append hk, versionPrefix]
  simp

/-! ### The shape of a table -/

/-- No key at or past `p` is shorter than `p`: a scan of `p` does not panic. -/
def Clear (versions : Bucket VersionRecord) (p : Bytes) : Prop :=
  ∀ e ∈ versions.map.entries, p ≤ e.1 → p.length ≤ e.1.length

instance (versions : Bucket VersionRecord) (p : Bytes) : Decidable (Clear versions p) :=
  inferInstanceAs (Decidable (∀ e ∈ versions.map.entries, p ≤ e.1 → p.length ≤ e.1.length))

/-- Every record stands under plain names and its own id, and every object's scan is clear. -/
structure Layout (versions : Bucket VersionRecord) : Prop where
  keyed : ∀ k r, versions.get k = some r →
    ∃ b o, Plain b o r.versionID ∧ k = versionKey b o r.versionID
  clear : ∀ k r, versions.get k = some r → Clear versions (objectPrefix k)

/-- A new key is accepted and leaves the table in shape: its names are plain, its object's scan is
    clear, and it is not too short for the objects before it. -/
structure Fits (versions : Bucket VersionRecord) (bucket key versionID : Bytes) : Prop where
  plain : Plain bucket key versionID
  keyOk : KeyOk (versionKey bucket key versionID)
  clear : Clear versions (versionPrefix bucket key)
  long : ∀ e ∈ versions.map.entries, objectPrefix e.1 ≤ versionKey bucket key versionID →
    (objectPrefix e.1).length ≤ (versionKey bucket key versionID).length

instance (versions : Bucket VersionRecord) (bucket key versionID : Bytes) :
    Decidable (Fits versions bucket key versionID) :=
  decidable_of_iff (Plain bucket key versionID ∧ KeyOk (versionKey bucket key versionID) ∧
      Clear versions (versionPrefix bucket key) ∧ ∀ e ∈ versions.map.entries, objectPrefix e.1 ≤ versionKey bucket key versionID →
        (objectPrefix e.1).length ≤ (versionKey bucket key versionID).length)
    ⟨fun h => ⟨h.1, h.2.1, h.2.2.1, h.2.2.2⟩, fun h => ⟨h.plain, h.keyOk, h.clear, h.long⟩⟩

def chain (versions : Bucket VersionRecord) (bucket key : Bytes) : Bytes → Option VersionRecord :=
  fun versionID => versions.get (versionKey bucket key versionID)

structure IsBest (c : Bytes → Option VersionRecord) (r : VersionRecord) : Prop where
  stored : c r.versionID = some r
  highest : ∀ v r', c v = some r' → r'.rank ≤ r.rank

def OwnIds (c : Bytes → Option VersionRecord) : Prop := ∀ v r, c v = some r → r.versionID = v

variable {c : Bytes → Option VersionRecord} {r' : VersionRecord}

theorem IsBest.unique {r : VersionRecord} (h : IsBest c r) (h' : IsBest c r') : r' = r := by
  have hrank := le_antisymm (h.highest _ r' h'.stored) (h'.highest _ r h.stored)
  have hid : r'.versionID = r.versionID := congrArg (fun x => (ofLex x).2) hrank
  have hstored := h'.stored
  rw [hid, h.stored] at hstored
  exact (Option.some.inj hstored).symm

/-! ### Transactions on a chain -/

theorem scanFrom_eq {p : Bytes} : ∀ {l : List (Bytes × VersionRecord)},
    (∀ e ∈ l, p.length ≤ e.1.length) → scanFrom p l = some (l.takeWhile (fun e => p <+: e.1))
  | [], _ => rfl
  | e :: l, hlen => by
      have he := hlen e (List.mem_cons_self ..)
      have ih := scanFrom_eq (fun e' he' => hlen e' (List.mem_cons_of_mem _ he'))
      rw [scanFrom, if_neg (not_lt.mpr he), ih]
      by_cases hp : p <+: e.1
      · rw [if_pos (List.prefix_iff_eq_take.mp hp).symm,
          List.takeWhile_cons_of_pos (by simpa using hp)]
        rfl
      · rw [if_neg (fun h => hp (List.prefix_iff_eq_take.mpr h.symm)),
          List.takeWhile_cons_of_neg (by simpa using hp)]

variable {versions : Bucket VersionRecord}

theorem scanVersions_eq (hc : Clear versions (versionPrefix b k)) :
    scanVersions versions b k =
      some (versions.map.entries.filter (fun e => versionPrefix b k <+: e.1)) := by
  have hsorted := versions.map.sorted
  have hlong : ∀ e ∈ versions.map.entries.dropWhile (fun e => e.1 < versionPrefix b k),
      (versionPrefix b k).length ≤ e.1.length := by
    intro e he
    have hge := PrefixScan.not_lt_of_mem_seek hsorted e he
    exact hc e ((List.dropWhile_sublist _).subset he) (not_lt.mp hge)
  rw [scanVersions, scanFrom_eq hlong,
    PrefixScan.takeWhile_seek hsorted]

theorem mem_scan {e : Bytes × VersionRecord} :
    e ∈ versions.map.entries.filter (fun e => versionPrefix b k <+: e.1) ↔
      ∃ v, e.1 = versionKey b k v ∧ chain versions b k v = some e.2 := by
  rw [List.mem_filter, decide_eq_true_iff]
  constructor
  · rintro ⟨he, v, hv⟩
    refine ⟨v, hv.symm, ?_⟩
    rw [chain, show versionKey b k v = e.1 from hv]
    exact (OMap.mem_entries versions.map).mp he
  · rintro ⟨v, hv, hget⟩
    refine ⟨(OMap.mem_entries versions.map).mpr ?_, v, hv.symm⟩
    rw [hv]
    exact hget

theorem latestVersionTx_eq (op : String) (hc : Clear versions (versionPrefix b k))
    (hown : OwnIds (chain versions b k)) :
    (latestVersionTx op versions b k = .ok none ∧ ∀ v, chain versions b k v = none) ∨
      ∃ r, latestVersionTx op versions b k = .ok (some r) ∧ IsBest (chain versions b k) r := by
  rw [latestVersionTx, scanVersions_eq hc]
  rcases bestVersion_spec (versions.map.entries.filter (fun e => versionPrefix b k <+: e.1)) with
    ⟨hnone, hnil⟩ | ⟨r, K, hbest, hmem, hmax⟩
  · refine Or.inl ⟨congrArg Except.ok hnone, fun v => ?_⟩
    by_contra hne
    obtain ⟨r, hr⟩ := Option.ne_none_iff_exists'.mp hne
    have hmem : (versionKey b k v, r) ∈
        versions.map.entries.filter (fun e => versionPrefix b k <+: e.1) :=
      mem_scan.mpr ⟨v, rfl, hr⟩
    rw [hnil] at hmem
    cases hmem
  · obtain ⟨v, rfl, hget⟩ := mem_scan.mp hmem
    obtain rfl := hown v r hget
    refine Or.inr ⟨r, congrArg Except.ok hbest, hget, fun v' r' hr' => ?_⟩
    exact hmax (versionKey b k v', r') (mem_scan.mpr ⟨v', rfl, hr'⟩)

def push (c : Bytes → Option VersionRecord) (rec : VersionRecord) :
    Bytes → Option VersionRecord :=
  fun v => if v = rec.versionID then some rec else (c v).map VersionRecord.demoted

variable {rec : VersionRecord}

theorem push_eq_some :
    push c rec v = some r' ↔ v = rec.versionID ∧ r' = rec ∨
      v ≠ rec.versionID ∧ ∃ r, c v = some r ∧ r' = r.demoted := by
  rw [push]
  split_ifs with hv <;> simp [hv, eq_comm]

theorem isBest_push (hnew : ∀ v r, c v = some r → v ≠ rec.versionID → r.rank ≤ rec.rank) :
    IsBest (push c rec) rec := by
  refine ⟨if_pos rfl, fun v r' hr' => ?_⟩
  rcases push_eq_some.mp hr' with ⟨-, rfl⟩ | ⟨hv, r, hr, rfl⟩
  · exact le_refl _
  · exact hnew v r hr hv

theorem update_eq_some {o : Option VersionRecord} {id : Bytes} :
    Function.update c id o v = some r' ↔ v = id ∧ o = some r' ∨ v ≠ id ∧ c v = some r' := by
  rw [Function.update_apply]
  split_ifs with hv <;> simp [hv]

theorem putVersion_eq (op : String) (hc : Clear versions (versionPrefix b k))
    (hk : KeyOk (versionKey b k rec.versionID)) :
    ∃ versions', putVersion op versions b k rec = .ok versions' ∧
      chain versions' b k = push (chain versions b k) rec ∧
      ∀ K, (∀ v, K ≠ versionKey b k v) → versions'.get K = versions.get K := by
  have hscan := scanVersions_eq hc
  obtain ⟨hget, hsorted⟩ := scanVersions_spec hscan
  obtain ⟨mid, hdem, -⟩ := demote_spec _ hget hsorted
  have hput : putVersion op versions b k rec = .ok (mid.set _ hk rec) := by
    rw [putVersion, hscan]
    simp only [hdem, bind, Except.bind, Bucket.put_of_keyOk _ hk]
  obtain ⟨found, hfound, hspec⟩ := putVersion_ok hput
  rw [hscan] at hfound
  cases hfound
  have hin : ∀ K, K ∈ (versions.map.entries.filter (fun e => versionPrefix b k <+: e.1)).map Prod.fst →
      ∃ v, K = versionKey b k v := by
    intro K hK
    obtain ⟨e, he, rfl⟩ := List.mem_map.mp hK
    obtain ⟨v, hv, -⟩ := mem_scan.mp he
    exact ⟨v, hv⟩
  refine ⟨_, hput, ?_, fun K hK => ?_⟩
  · funext v
    rw [chain, hspec, push]
    rcases eq_or_ne v rec.versionID with rfl | hne
    · rw [if_pos rfl, if_pos rfl]
    · rw [if_neg (versionKey_ne b k hne), if_neg hne]
      split_ifs with hmem
      · rfl
      · -- a key of the object that the scan did not find holds no record
        cases hv : chain versions b k v with
        | none => exact hv
        | some r =>
          exact absurd (List.mem_map.mpr ⟨(versionKey b k v, r), mem_scan.mpr ⟨v, rfl, hv⟩, rfl⟩) hmem
  · rw [hspec, if_neg (hK _), if_neg (fun h => ?_)]
    obtain ⟨v, hv⟩ := hin K h
    exact hK v hv

theorem rePointLatest_eq (op : String) (hc : Clear versions (versionPrefix b k))
    (hown : OwnIds (chain versions b k)) (wasLatest : Bool) :
    ∃ versions', rePointLatest op versions b k wasLatest = .ok versions' ∧
      (versions' = versions ∧ (wasLatest = false ∨ ∀ v, chain versions b k v = none) ∨
        wasLatest = true ∧ ∃ r, IsBest (chain versions b k) r ∧
          ∀ K, versions'.get K = if K = versionKey b k r.versionID
            then some { r with isLatest := true } else versions.get K) := by
  cases wasLatest with
  | false => exact ⟨versions, rfl, Or.inl ⟨rfl, Or.inl rfl⟩⟩
  | true =>
    rcases latestVersionTx_eq op hc hown with ⟨hlatest, hnone⟩ | ⟨r, hlatest, hbest⟩
    · refine ⟨versions, ?_, Or.inl ⟨rfl, Or.inr hnone⟩⟩
      simp only [rePointLatest, hlatest, if_true, bind, Except.bind]
    · have hk : KeyOk (versionKey b k r.versionID) := Bucket.keyOk_of_get hbest.stored
      cases hflag : r.isLatest with
      | true =>
        refine ⟨versions, ?_, Or.inr ⟨rfl, r, hbest, fun K => ?_⟩⟩
        · simp only [rePointLatest, hlatest, if_true, bind, Except.bind, hflag]
        · have hsame : { r with isLatest := true } = r := by rw [← hflag]
          split_ifs with hK
          · rw [hsame, hK]
            exact hbest.stored
          · rfl
      | false =>
        refine ⟨versions.set _ hk { r with isLatest := true }, ?_, Or.inr ⟨rfl, r, hbest, fun K => ?_⟩⟩
        · simp only [rePointLatest, hlatest, if_true, bind, Except.bind, hflag, Bool.false_eq_true,
            if_false, Bucket.put_of_keyOk _ hk]
        · exact Bucket.get_set ..

theorem put_demoted_eq (versions : Bucket VersionRecord) (hk : KeyOk (versionKey b k rec.versionID))
     :
    ∃ versions', versions.put (versionKey b k rec.versionID) rec.demoted = .ok versions' ∧
      chain versions' b k =
        Function.update (chain versions b k) rec.versionID (some rec.demoted) ∧
      ∀ K, (∀ v, K ≠ versionKey b k v) → versions'.get K = versions.get K := by
  refine ⟨_, Bucket.put_of_keyOk _ hk _, ?_, fun K hK => Bucket.get_set_ne _ _ _ (hK _)⟩
  funext v
  rcases eq_or_ne v rec.versionID with rfl | hne
  · rw [Function.update_self, chain, Bucket.get_set_self]
  · rw [Function.update_of_ne hne, chain, Bucket.get_set_ne _ _ _ (versionKey_ne b k hne)]
    rfl

theorem timestamp_le_of_rank {r : VersionRecord} (h : r'.rank ≤ r.rank) :
    r'.timestamp ≤ r.timestamp := by
  rcases Prod.Lex.toLex_le_toLex.mp h with hlt | ⟨heq, -⟩
  · exact hlt.le
  · exact heq.le

inductive Replicated (c c' : Bytes → Option VersionRecord) (rec : VersionRecord) : Prop
  | same (hsame : c rec.versionID = some rec) (heq : c' = c)
  | top (hne : c rec.versionID ≠ some rec) (hflag : rec.isLatest = true)
      (hnew : ∀ v r, c v = some r → r.timestamp ≤ rec.timestamp)
      (heq : c' = push c rec)
  | beside (hne : c rec.versionID ≠ some rec)
      (hold : rec.isLatest = true → ∃ r, IsBest c r ∧ rec.timestamp < r.timestamp)
      (heq : c' = Function.update c rec.versionID (some rec.demoted))

theorem applyReplicatedRecord_eq (op : String) (hc : Clear versions (versionPrefix b k))
    (hown : OwnIds (chain versions b k)) (hk : KeyOk (versionKey b k rec.versionID)) :
    ∃ versions', applyReplicatedRecord op versions b k rec = .ok versions' ∧
      Replicated (chain versions b k) (chain versions' b k) rec ∧
      ∀ K, (∀ v, K ≠ versionKey b k v) → versions'.get K = versions.get K := by
  by_cases hsame : chain versions b k rec.versionID = some rec
  · exact ⟨versions, if_pos hsame, .same hsame rfl, fun _ _ => rfl⟩
  have hsame' : ¬ versions.get (versionKey b k rec.versionID) = some rec := hsame
  obtain ⟨side, hside, hsidec, hsideK⟩ := put_demoted_eq versions hk
  obtain ⟨top, htop, htopc, htopK⟩ := putVersion_eq op hc hk
  cases hflag : rec.isLatest with
  | false =>
    refine ⟨side, ?_, .beside hsame (fun h => ?_) hsidec, hsideK⟩
    · rw [applyReplicatedRecord, if_neg hsame', hflag]
      exact hside
    · rw [hflag] at h
      cases h
  | true =>
    rcases latestVersionTx_eq op hc hown with ⟨hlatest, hnone⟩ | ⟨r, hlatest, hbest⟩
    · refine ⟨top, ?_, .top hsame hflag (fun v r hr => ?_) htopc, htopK⟩
      · simp only [applyReplicatedRecord, if_neg hsame', hflag, if_true, hlatest, bind, Except.bind,
          pure, Except.pure, Option.all_none, htop]
      · rw [hnone v] at hr
        cases hr
    · by_cases hle : r.timestamp ≤ rec.timestamp
      · refine ⟨top, ?_, .top hsame hflag (fun v r' hr' => ?_) htopc, htopK⟩
        · simp only [applyReplicatedRecord, if_neg hsame', hflag, if_true, hlatest, bind, Except.bind,
            pure, Except.pure, Option.all_some, decide_eq_true hle, htop]
        · exact (timestamp_le_of_rank (hbest.highest v r' hr')).trans hle
      · refine ⟨side, ?_, .beside hsame (fun _ => ⟨r, hbest, not_le.mp hle⟩) hsidec, hsideK⟩
        simp only [applyReplicatedRecord, if_neg hsame', hflag, if_true, hlatest, bind, Except.bind,
          pure, Except.pure, Option.all_some, decide_eq_false hle, Bool.false_eq_true, if_false]
        exact hside

/-! ### The shape is kept -/

section Shape

variable {versions versions' : Bucket VersionRecord}

variable {b k : Bytes} {r : VersionRecord}

theorem Layout.clear_of_chain (hl : Layout versions) {v : Bytes}
    (hr : chain versions b k v = some r) :
    Plain b k v ∧ r.versionID = v ∧ Clear versions (versionPrefix b k) := by
  obtain ⟨b', k', hp, heq⟩ := hl.keyed _ r hr
  obtain ⟨rfl, rfl⟩ := hp.of_prefix ⟨v, heq⟩
  obtain rfl := List.append_cancel_left heq
  have hclear := hl.clear _ r hr
  rw [objectPrefix_versionKey hp.bucket hp.key] at hclear
  exact ⟨hp, rfl, hclear⟩

theorem Layout.ownIds (hl : Layout versions) (b k : Bytes) : OwnIds (chain versions b k) :=
  fun _ _ hr => (hl.clear_of_chain hr).2.1

theorem Layout.chain_frame (hl : Layout versions) (hl' : Layout versions') {b' k' : Bytes}
    (hb : 0 ∉ b) (hk : 0 ∉ k) (hne : ¬ (b' = b ∧ k' = k))
    (hframe : ∀ K, (∀ v, K ≠ versionKey b k v) → versions'.get K = versions.get K) :
    chain versions' b' k' = chain versions b' k' := by
  by_cases hplain : 0 ∉ b' ∧ 0 ∉ k'
  · funext v
    refine hframe _ (fun v' heq => hne ?_)
    obtain ⟨hbb, hkk, -⟩ := versionKey_inj hplain.1 hplain.2 hb hk heq
    exact ⟨hbb, hkk⟩
  · -- no record has a name with a NUL
    have hnone : ∀ {t : Bucket VersionRecord}, Layout t → ∀ v, chain t b' k' v = none := by
      refine fun ht v => Option.eq_none_iff_forall_not_mem.mpr (fun r hr => hplain ?_)
      have hp := (ht.clear_of_chain hr).1
      exact ⟨hp.bucket, hp.key⟩
    funext v
    rw [hnone hl, hnone hl']

theorem Clear.of_keys {p : Bytes} (hc : Clear versions p)
    (h : ∀ K r', versions'.get K = some r' →
      (∃ r, versions.get K = some r) ∨ (p ≤ K → p.length ≤ K.length)) : Clear versions' p := by
  intro e he hge
  rcases h e.1 e.2 ((OMap.mem_entries _).mp he) with ⟨r, hr⟩ | hlong
  · exact hc (e.1, r) ((OMap.mem_entries _).mpr hr) hge
  · exact hlong hge

theorem Layout.of_keys (hl : Layout versions)
    (h : ∀ K r', versions'.get K = some r' →
      ∃ r, versions.get K = some r ∧ r'.versionID = r.versionID) : Layout versions' where
  keyed K r' hr' := by
    obtain ⟨r, hr, hid⟩ := h K r' hr'
    obtain ⟨b, k, hp, hK⟩ := hl.keyed K r hr
    rw [hid]
    exact ⟨b, k, hp, hK⟩
  clear K r' hr' e he hge := by
    obtain ⟨r, hr, -⟩ := h K r' hr'
    obtain ⟨re, hre, -⟩ := h e.1 e.2 ((OMap.mem_entries _).mp he)
    exact hl.clear K r hr (e.1, re) ((OMap.mem_entries _).mpr hre) hge

theorem layout_empty : Layout Bucket.empty where
  keyed _ _ h := by cases h
  clear _ _ h := by cases h

/-- A write to one chain: the shape is kept, the other chains are, and so is every clear scan for
    which the new key is long enough. -/
structure Touched (versions versions' : Bucket VersionRecord) (b k id : Bytes) : Prop where
  layout : Layout versions'
  others : ∀ b' k', ¬ (b' = b ∧ k' = k) → chain versions' b' k' = chain versions b' k'
  clear : ∀ p, Clear versions p →
    (p ≤ versionKey b k id → p.length ≤ (versionKey b k id).length) → Clear versions' p

variable {id : Bytes}

theorem Layout.insert (hl : Layout versions) (hf : Fits versions b k id)
    (hframe : ∀ K, (∀ v, K ≠ versionKey b k v) → versions'.get K = versions.get K)
    (hchain : ∀ v r', chain versions' b k v = some r' →
      r'.versionID = v ∧ (v = id ∨ ∃ r, chain versions b k v = some r)) :
    Touched versions versions' b k id := by
  -- every key is the new one or an old one
  have hkeys : ∀ K r', versions'.get K = some r' →
      K = versionKey b k id ∧ r'.versionID = id ∨
        ∃ r, versions.get K = some r ∧ r'.versionID = r.versionID := by
    intro K r' hr'
    by_cases hK : ∃ v, K = versionKey b k v
    · obtain ⟨v, rfl⟩ := hK
      obtain ⟨hid, hv⟩ := hchain v r' hr'
      rcases hv with rfl | ⟨r, hr⟩
      · exact Or.inl ⟨rfl, hid⟩
      · exact Or.inr ⟨r, hr, hid.trans (hl.ownIds b k v r hr).symm⟩
    · rw [hframe K (fun v hv => hK ⟨v, hv⟩)] at hr'
      exact Or.inr ⟨r', hr', rfl⟩
  have hclear : ∀ p, Clear versions p →
      (p ≤ versionKey b k id → p.length ≤ (versionKey b k id).length) → Clear versions' p := by
    refine fun p hp hlong => hp.of_keys (fun K r' hr' => ?_)
    rcases hkeys K r' hr' with ⟨rfl, -⟩ | ⟨r, hr, -⟩
    · exact Or.inr hlong
    · exact Or.inl ⟨r, hr⟩
  have hlayout : Layout versions' := by
    refine ⟨fun K r' hr' => ?_, fun K r' hr' => ?_⟩
    · rcases hkeys K r' hr' with ⟨rfl, hid⟩ | ⟨r, hr, hid⟩
      · rw [hid]
        exact ⟨b, k, hf.plain, rfl⟩
      · rw [hid]
        exact hl.keyed K r hr
    · rcases hkeys K r' hr' with ⟨rfl, -⟩ | ⟨r, hr, -⟩
      · -- the new object is met by its own scan only where it is clear
        rw [objectPrefix_versionKey hf.plain.bucket hf.plain.key]
        exact hclear _ hf.clear (fun _ => length_prefix_le b k id)
      · exact hclear _ (hl.clear K r hr) (hf.long (K, r) ((OMap.mem_entries _).mpr hr))
  exact ⟨hlayout, fun b' k' hne => hl.chain_frame hlayout hf.plain.bucket hf.plain.key hne hframe,
    hclear⟩

variable {c : Bytes → Option VersionRecord} {rec : VersionRecord}

theorem push_ids (hown : OwnIds c) :
    ∀ v r', push c rec v = some r' → r'.versionID = v ∧ (v = rec.versionID ∨ ∃ r, c v = some r) := by
  intro v r' hr'
  rcases push_eq_some.mp hr' with ⟨hv, rfl⟩ | ⟨-, r, hr, rfl⟩
  · exact ⟨hv.symm, Or.inl hv⟩
  · exact ⟨hown v r hr, Or.inr ⟨r, hr⟩⟩

variable {c' : Bytes → Option VersionRecord}

theorem Replicated.ids (hown : OwnIds c) (h : Replicated c c' rec) :
    ∀ v r', c' v = some r' → r'.versionID = v ∧ (v = rec.versionID ∨ ∃ r, c v = some r) := by
  cases h with
  | same hsame heq =>
    subst heq
    exact fun v r' hr' => ⟨hown v r' hr', Or.inr ⟨r', hr'⟩⟩
  | top hne hflag hnew heq =>
    subst heq
    exact push_ids hown
  | beside hne hold heq =>
    subst heq
    intro v r' hr'
    rcases update_eq_some.mp hr' with ⟨hv, hrec⟩ | ⟨-, hr⟩
    · cases hrec
      exact ⟨hv.symm, Or.inl hv⟩
    · exact ⟨hown v r' hr, Or.inr ⟨r', hr⟩⟩

theorem Layout.putVersion (hl : Layout versions) (op : String)
    (hfit : Fits versions b k rec.versionID) :
    ∃ versions', Momo.putVersion op versions b k rec = .ok versions' ∧
      chain versions' b k = push (chain versions b k) rec ∧
      Touched versions versions' b k rec.versionID := by
  obtain ⟨top, htop, hchain, hframe⟩ := putVersion_eq op hfit.clear hfit.keyOk
  refine ⟨top, htop, hchain, hl.insert hfit hframe ?_⟩
  rw [hchain]
  exact push_ids (hl.ownIds b k)

theorem Layout.applyReplicatedRecord (hl : Layout versions) (op : String)
    (hfit : Fits versions b k rec.versionID) :
    ∃ versions', Momo.applyReplicatedRecord op versions b k rec = .ok versions' ∧
      Replicated (chain versions b k) (chain versions' b k) rec ∧
      Touched versions versions' b k rec.versionID := by
  obtain ⟨out, hout, hrep, hframe⟩ :=
    applyReplicatedRecord_eq op hfit.clear (hl.ownIds b k) hfit.keyOk
  exact ⟨out, hout, hrep, hl.insert hfit hframe (hrep.ids (hl.ownIds b k))⟩

inductive Dropped (c c' : Bytes → Option VersionRecord) (id : Bytes) (deleted : VersionRecord) : Prop
  | keep (hflag : deleted.isLatest = false ∨ ∀ v, Function.update c id none v = none)
      (heq : c' = Function.update c id none)
  | repoint (hflag : deleted.isLatest = true) (best : VersionRecord)
      (hbest : IsBest (Function.update c id none) best)
      (heq : c' = Function.update (Function.update c id none) best.versionID
        (some { best with isLatest := true }))

variable {deleted : VersionRecord}

theorem Dropped.best (h : Dropped c c' id deleted) (hr : IsBest c' r) :
    ∃ next, IsBest (Function.update c id none) next ∧ r.demoted = next.demoted := by
  cases h with
  | keep hflag heq => exact ⟨r, heq ▸ hr, rfl⟩
  | repoint hflag best hbest heq =>
    have hflagged : IsBest c' { best with isLatest := true } := by
      rw [heq]
      refine ⟨Function.update_self .., fun v r' hr' => ?_⟩
      rcases update_eq_some.mp hr' with ⟨-, hsome⟩ | ⟨-, hget⟩
      · cases hsome
        exact le_refl _
      · exact hbest.highest v r' hget
    rw [hflagged.unique hr]
    exact ⟨best, hbest, rfl⟩

theorem Dropped.sub {v : Bytes} (h : Dropped c c' id deleted) (hr : c' v = some r) :
    ∃ r₀, c v = some r₀ ∧ r.demoted = r₀.demoted := by
  cases h with
  | keep hflag heq =>
    rw [heq] at hr
    rcases update_eq_some.mp hr with ⟨-, hno⟩ | ⟨-, hget⟩
    · cases hno
    · exact ⟨r, hget, rfl⟩
  | repoint hflag best hbest heq =>
    rw [heq] at hr
    rcases update_eq_some.mp hr with ⟨rfl, hsome⟩ | ⟨-, hget⟩
    · cases hsome
      rcases update_eq_some.mp hbest.stored with ⟨-, hno⟩ | ⟨-, hget⟩
      · cases hno
      · exact ⟨best, hget, rfl⟩
    · rcases update_eq_some.mp hget with ⟨-, hno⟩ | ⟨-, hget⟩
      · cases hno
      · exact ⟨r, hget, rfl⟩

theorem Dropped.none_beside (h : Dropped c c' id deleted) (hnone : ∀ v, c' v = none) :
    ∀ v, Function.update c id none v = none := by
  cases h with
  | keep hflag heq => exact heq ▸ hnone
  | repoint hflag best hbest heq =>
    have hstored := hnone best.versionID
    rw [heq, Function.update_self] at hstored
    cases hstored

theorem chain_del (versions : Bucket VersionRecord) (b k id : Bytes) :
    chain (versions.del (versionKey b k id)) b k = Function.update (chain versions b k) id none := by
  funext v
  rcases eq_or_ne v id with rfl | hv
  · rw [Function.update_self, chain, Bucket.get_del_self]
  · rw [Function.update_of_ne hv, chain, Bucket.get_del_ne _ (versionKey_ne b k hv)]
    rfl

theorem Layout.remove (hl : Layout versions) (op : String)
    (hget : versions.get (versionKey b k id) = some deleted) :
    ∃ versions', rePointLatest op (versions.del (versionKey b k id)) b k deleted.isLatest =
        .ok versions' ∧
      Dropped (chain versions b k) (chain versions' b k) id deleted ∧
      Touched versions versions' b k id := by
  obtain ⟨hplain, -, hclear⟩ := hl.clear_of_chain hget
  have hrest : Layout (versions.del (versionKey b k id)) :=
    hl.of_keys (fun K r hr => ⟨r, Bucket.get_of_get_del hr, rfl⟩)
  have hclear' : Clear (versions.del (versionKey b k id)) (versionPrefix b k) :=
    hclear.of_keys (fun K r hr => Or.inl ⟨r, Bucket.get_of_get_del hr⟩)
  obtain ⟨out, hout, hcase⟩ := rePointLatest_eq op hclear' (hrest.ownIds b k) deleted.isLatest
  rw [chain_del] at hcase
  -- either way every key left is an old one, with the id it had
  have htouched : (∀ K r', out.get K = some r' →
        ∃ r, versions.get K = some r ∧ r'.versionID = r.versionID) →
      (∀ K, (∀ v, K ≠ versionKey b k v) → out.get K = versions.get K) →
      Touched versions out b k id := by
    intro hkeys hframe
    have hlayout := hl.of_keys hkeys
    refine ⟨hlayout, fun b' k' hne => hl.chain_frame hlayout hplain.bucket hplain.key hne hframe,
      fun p hp _ => hp.of_keys (fun K r' hr' => ?_)⟩
    obtain ⟨r, hr, -⟩ := hkeys K r' hr'
    exact Or.inl ⟨r, hr⟩
  rcases hcase with ⟨rfl, hflag⟩ | ⟨hflag, best, hbest, hspec⟩
  · exact ⟨_, hout, .keep hflag (chain_del ..),
      htouched (fun K r hr => ⟨r, Bucket.get_of_get_del hr, rfl⟩)
        (fun K hK => Bucket.get_del_ne _ (hK id))⟩
  · have hstored := hbest.stored
    rw [← chain_del] at hstored
    have hout_chain : chain out b k = Function.update (Function.update (chain versions b k) id none)
        best.versionID (some { best with isLatest := true }) := by
      funext v
      rw [chain, hspec, ← chain_del]
      rcases eq_or_ne v best.versionID with rfl | hv
      · rw [if_pos rfl, Function.update_self]
      · rw [if_neg (versionKey_ne b k hv), Function.update_of_ne hv]
        rfl
    refine ⟨out, hout, .repoint hflag best hbest hout_chain, htouched (fun K r hr => ?_)
      (fun K hK => ?_)⟩
    · rw [hspec] at hr
      split_ifs at hr with hK
      · cases hr
        rw [hK]
        exact ⟨best, Bucket.get_of_get_del hstored, rfl⟩
      · exact ⟨r, Bucket.get_of_get_del hr, rfl⟩
    · rw [hspec, if_neg (hK _), Bucket.get_del_ne _ (hK id)]

end Shape

end Momo
