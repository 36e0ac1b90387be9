import Mathlib

/-! @scheme byte-file | family:storage

    A file or a device as the list of its bytes, with positioned reads and writes and hole punching.
    `HasAt f off d` says that the bytes of `d` stand in `f` from offset `off` on; it is what a
    completed write establishes, what every operation on a disjoint range keeps, and what a read of
    exactly that range returns. -/

namespace Momo

variable {α : Type}

def Disjoint2 (o n o' n' : ℕ) : Prop := o + n ≤ o' ∨ o' + n' ≤ o

instance (o n o' n' : ℕ) : Decidable (Disjoint2 o n o' n') := inferInstanceAs (Decidable (_ ∨ _))

/-- Positioned read of exactly `n` items; reading nothing always succeeds. -/
def readAt (f : List α) (off n : ℕ) : Option (List α) :=
  if n = 0 then some []
  else if off + n ≤ f.length then some ((f.drop off).take n) else none

/-- Positioned write: the file grows to hold the data, a gap before it reads as `zero`. -/
def writeAt (zero : α) (f : List α) (off : ℕ) (d : List α) : List α :=
  f.take off ++ List.replicate (off - f.length) zero ++ d ++ f.drop (off + d.length)

def punch (zero : α) (f : List α) (off n : ℕ) : List α :=
  f.mapIdx (fun i b => if off ≤ i ∧ i < off + n then zero else b)

def HasAt (f : List α) (off : ℕ) (d : List α) : Prop := ∀ i, i < d.length → f[off + i]? = d[i]?

variable {f d : List α} {off : ℕ}

theorem readAt_some {n : ℕ} (h : readAt f off n = some d) :
    d.length = n ∧ (n ≠ 0 → off + n ≤ f.length) := by
  rw [readAt] at h
  split_ifs at h with hn hle
  · cases h
    exact ⟨hn.symm, fun h => absurd hn h⟩
  · cases h
    refine ⟨?_, fun _ => hle⟩
    rw [List.length_take, List.length_drop]
    omega

theorem length_writeAt (zero : α) (f : List α) (off : ℕ) (d : List α) :
    (writeAt zero f off d).length = max f.length (off + d.length) := by
  simp only [writeAt, List.length_append, List.length_take, List.length_replicate, List.length_drop]
  omega

@[simp] theorem length_punch (zero : α) (f : List α) (off n : ℕ) :
    (punch zero f off n).length = f.length := List.length_mapIdx

theorem hasAt_writeAt (zero : α) (f : List α) (off : ℕ) (d : List α) :
    HasAt (writeAt zero f off d) off d := by
  intro i hi
  have hlen : (f.take off ++ List.replicate (off - f.length) zero).length = off := by
    simp only [List.length_append, List.length_take, List.length_replicate]; omega
  rw [writeAt, List.append_assoc, List.getElem?_append_right (by omega), hlen,
    Nat.add_sub_cancel_left, List.getElem?_append_left hi]

theorem getElem?_writeAt_of_ne (zero : α) {i : ℕ} (hi : i < f.length)
    (h : i < off ∨ off + d.length ≤ i) : (writeAt zero f off d)[i]? = f[i]? := by
  have hlen : (f.take off ++ List.replicate (off - f.length) zero).length = off := by
    simp only [List.length_append, List.length_take, List.length_replicate]; omega
  rcases h with h | h
  · rw [writeAt, List.append_assoc, List.getElem?_append_left (by omega),
      List.getElem?_append_left (by simp only [List.length_take]; omega),
      List.getElem?_take_of_lt h]
  · rw [writeAt, List.append_assoc, List.getElem?_append_right (by omega), hlen,
      List.getElem?_append_right (by omega), List.getElem?_drop]
    congr 1
    omega

theorem HasAt.le_length (h : HasAt f off d) (hd : d ≠ []) : off + d.length ≤ f.length := by
  have hpos : 0 < d.length := List.length_pos_iff.mpr hd
  have hlast := h (d.length - 1) (by omega)
  rw [List.getElem?_eq_getElem (show d.length - 1 < d.length by omega)] at hlast
  have := (List.getElem?_eq_some_iff.mp hlast).1
  omega

theorem HasAt.writeAt (h : HasAt f off d) (zero : α) {o : ℕ} {e : List α}
    (hdis : Disjoint2 off d.length o e.length) : HasAt (writeAt zero f o e) off d := by
  intro i hi
  have hd : d ≠ [] := by rintro rfl; simp at hi
  have hle := h.le_length hd
  rw [← h i hi]
  refine getElem?_writeAt_of_ne zero (by omega) ?_
  rcases hdis with hdis | hdis <;> omega

theorem HasAt.punch (h : HasAt f off d) (zero : α) {o n : ℕ} (hdis : Disjoint2 off d.length o n) :
    HasAt (punch zero f o n) off d := by
  intro i hi
  have hout : ¬ (o ≤ off + i ∧ off + i < o + n) := by rcases hdis with hdis | hdis <;> omega
  rw [← h i hi, Momo.punch, List.getElem?_mapIdx]
  simp only [if_neg hout]
  exact Option.map_id'

theorem HasAt.append {e : List α} :
    HasAt f off (d ++ e) ↔ HasAt f off d ∧ HasAt f (off + d.length) e := by
  constructor
  · refine fun h => ⟨fun i hi => ?_, fun i hi => ?_⟩
    · rw [h i (by rw [List.length_append]; omega), List.getElem?_append_left hi]
    · rw [Nat.add_assoc, h (d.length + i) (by rw [List.length_append]; omega),
        List.getElem?_append_right (by omega), Nat.add_sub_cancel_left]
  · rintro ⟨hd, he⟩ i hi
    rw [List.length_append] at hi
    by_cases hid : i < d.length
    · rw [hd i hid, List.getElem?_append_left hid]
    · have := he (i - d.length) (by omega)
      rw [List.getElem?_append_right (by omega), ← this]
      congr 1
      omega

theorem HasAt.readAt (h : HasAt f off d) : readAt f off d.length = some d := by
  by_cases hd : d = []
  · subst hd; rfl
  · have hle := h.le_length hd
    have hpos : d.length ≠ 0 := by simpa using hd
    rw [Momo.readAt, if_neg hpos, if_pos hle]
    congr 1
    apply List.ext_getElem?
    intro i
    by_cases hi : i < d.length
    · rw [List.getElem?_take_of_lt hi, List.getElem?_drop, h i hi]
    · rw [List.getElem?_eq_none (by rw [List.length_take, List.length_drop]; omega),
        List.getElem?_eq_none (by omega)]

end Momo
