import Momo.Storage.BlobStore
import Momo.Storage.Raw

/-! @momo src/storage/blobstore.go, src/storage/raw_blobstore.go
    scheme:a weaker contract

    What the comments of the `BlobStore` interface promise, and no more: a put that returns nil has
    stored its content, unless it found a blob of the hash and left it alone. `MapBackend` says more
    (a put always replaces), so every map back end meets this contract too; the raw device meets only
    this one. -/

namespace Momo

/-- The promise of the interface about one hash. `keeps` tells whether a put would find a blob and
    leave it. -/
class BlobContract (β : Type) [BlobStore β] where
  keeps : β → (hash : Bytes) → Bool
  put_kept : ∀ (b b' : β) h c read, BlobStore.putBlob b h ⟨c, none⟩ none = (.ok read, b') →
    keeps b h = true → BlobStore.getBlob b' h = BlobStore.getBlob b h
  put_stored : ∀ (b b' : β) h c read, BlobStore.putBlob b h ⟨c, none⟩ none = (.ok read, b') →
    keeps b h = false → ∀ r, BlobStore.getBlob b' h = .ok r → r = ⟨c, none⟩
  put_failed : ∀ (b b' : β) h c e, BlobStore.putBlob b h ⟨c, none⟩ none = (.error e, b') →
    BlobStore.getBlob b' h = BlobStore.getBlob b h ∧ keeps b' h = keeps b h

instance {β : Type} [BlobStore β] [MapBackend β] : BlobContract β where
  keeps _ _ := false
  put_kept _ _ _ _ _ _ h := by cases h
  put_stored b b' h c read hput _ r hr := by
    cases hh : hasPathTraversalChars h with
    | true =>
      obtain ⟨e, b'', hfail, -⟩ := MapBackend.putBlob_fail b h ⟨c, none⟩ none (Or.inr (Or.inr hh))
      rw [hput] at hfail
      cases hfail
    | false =>
      obtain ⟨b'', hok, hview⟩ := MapBackend.putBlob_ok b h c hh
      obtain ⟨-, rfl⟩ := Prod.mk.inj (hput.symm.trans hok)
      rw [MapBackend.getBlob_eq, hview, Function.update_self] at hr
      exact (Except.ok.inj hr).symm
  put_failed b b' h c e hput := by
    refine ⟨?_, rfl⟩
    cases hh : hasPathTraversalChars h with
    | true =>
      obtain ⟨e', b'', hfail, hview⟩ :=
        MapBackend.putBlob_fail b h ⟨c, none⟩ none (Or.inr (Or.inr hh))
      obtain ⟨-, rfl⟩ := Prod.mk.inj (hput.symm.trans hfail)
      rw [MapBackend.getBlob_eq, MapBackend.getBlob_eq, hview]
    | false =>
      obtain ⟨b'', hok, -⟩ := MapBackend.putBlob_ok b h c hh
      rw [hput] at hok
      cases hok

/-! ### The raw device -/

namespace RawBlobStore

instance : BlobStore RawBlobStore where
  putBlob b hash content io :=
    match io with
    | some e => (.error e, b)
    | none =>
      let read := if (b.alloc.get hash).isSome then [] else content.data
      ((b.putBlob hash content).1.map (fun _ => read), (b.putBlob hash content).2)
  getBlob := getBlob
  deleteBlob b hash io :=
    match io with
    | some e => (.error e, b)
    | none => b.deleteBlob hash
  blobExists := none

theorem putBlob_cases {s s' : RawBlobStore} {hash c : Bytes} {res : Except Err Unit}
    (hput : s.putBlob hash ⟨c, none⟩ = (res, s')) :
    (∃ e, res = .error e ∧ (s' = s ∨ (s.alloc.get hash = none ∧ s'.alloc = s.alloc))) ∨
    (res = .ok () ∧ (s.alloc.get hash).isSome = true ∧ s' = s) ∨
    (res = .ok () ∧ s.alloc.get hash = none ∧ ∃ hk : KeyOk hash, s' =
      { device := writeAt 0 s.device s.nextOffset c
        alloc := s.alloc.set hash hk ⟨s.nextOffset, c.length⟩
        nextOffset := s.nextOffset + c.length }) := by
  unfold putBlob at hput
  split_ifs at hput with hh hex hoff
  · obtain ⟨rfl, rfl⟩ := Prod.mk.inj hput
    exact Or.inl ⟨_, rfl, Or.inl rfl⟩
  · obtain ⟨rfl, rfl⟩ := Prod.mk.inj hput
    exact Or.inr (Or.inl ⟨rfl, hex, rfl⟩)
  · obtain ⟨rfl, rfl⟩ := Prod.mk.inj hput
    exact Or.inl ⟨_, rfl, Or.inl rfl⟩
  have hnone : s.alloc.get hash = none := by simpa using hex
  simp only at hput
  split at hput
  · obtain ⟨rfl, rfl⟩ := Prod.mk.inj hput
    exact Or.inl ⟨_, rfl, Or.inr ⟨hnone, rfl⟩⟩
  rename_i hf
  split_ifs at hput with hbig hover
  · obtain ⟨rfl, rfl⟩ := Prod.mk.inj hput
    exact Or.inl ⟨_, rfl, Or.inr ⟨hnone, rfl⟩⟩
  · obtain ⟨rfl, rfl⟩ := Prod.mk.inj hput
    exact Or.inl ⟨_, rfl, Or.inr ⟨hnone, rfl⟩⟩
  split at hput
  · obtain ⟨rfl, rfl⟩ := Prod.mk.inj hput
    exact Or.inl ⟨_, rfl, Or.inr ⟨hnone, rfl⟩⟩
  · rename_i alloc halloc
    obtain ⟨rfl, rfl⟩ := Prod.mk.inj hput
    obtain ⟨hk, rfl⟩ := Bucket.put_eq_ok.mp halloc
    obtain ⟨hdata, -⟩ := limit_whole hf (not_lt.mp hbig)
    rw [hdata]
    exact Or.inr (Or.inr ⟨rfl, hnone, hk, rfl⟩)

theorem getBlob_written (s : RawBlobStore) {hash c : Bytes} (hk : KeyOk hash) {r : Reader}
    (hr : getBlob
      { device := writeAt 0 s.device s.nextOffset c
        alloc := s.alloc.set hash hk ⟨s.nextOffset, c.length⟩
        nextOffset := s.nextOffset + c.length } hash = .ok r) : r = ⟨c, none⟩ := by
  unfold getBlob at hr
  rw [Bucket.get_set_self] at hr
  simp only at hr
  split_ifs at hr with hh hlen
  have hdata := (hasAt_writeAt (0 : UInt8) s.device s.nextOffset c).readAt
  have hpos : c ≠ [] := by
    rintro rfl
    exact hlen (Or.inl (le_refl _))
  rw [readAt, if_neg (fun h => hpos (List.length_eq_zero_iff.mp h)),
    if_pos ((hasAt_writeAt (0 : UInt8) s.device s.nextOffset c).le_length hpos)] at hdata
  rw [Option.some.inj hdata] at hr
  exact (Except.ok.inj hr).symm

theorem putBlob_of_interface {b b' : RawBlobStore} {h c : Bytes} {res : Except Err Bytes}
    (hput : BlobStore.putBlob b h ⟨c, none⟩ none = (res, b')) :
    b.putBlob h ⟨c, none⟩ = (res.map (fun _ => ()), b') := by
  obtain ⟨rfl, rfl⟩ := Prod.mk.inj hput
  refine Prod.ext ?_ rfl
  cases (b.putBlob h ⟨c, none⟩).1 <;> rfl

instance : BlobContract RawBlobStore where
  keeps b hash := (b.alloc.get hash).isSome
  put_kept b b' h c read hput hkeep := by
    rcases putBlob_cases (putBlob_of_interface hput) with ⟨e, he, -⟩ | ⟨-, -, rfl⟩ | ⟨-, hnone, -⟩
    · cases he
    · rfl
    · rw [hnone] at hkeep
      cases hkeep
  put_stored b b' h c read hput hkeep r hr := by
    rcases putBlob_cases (putBlob_of_interface hput) with ⟨e, he, -⟩ | ⟨-, hsome, -⟩ | ⟨-, -, hk, rfl⟩
    · cases he
    · rw [hsome] at hkeep
      cases hkeep
    · exact getBlob_written b hk hr
  put_failed b b' h c e hput := by
    rcases putBlob_cases (putBlob_of_interface hput) with
      ⟨e', -, rfl | ⟨hnone, halloc⟩⟩ | ⟨hok, -⟩ | ⟨hok, -⟩
    · exact ⟨rfl, rfl⟩
    · simp only [BlobStore.getBlob, getBlob, halloc, hnone]
      exact ⟨trivial, trivial⟩
    · cases hok
    · cases hok

end RawBlobStore

end Momo
