import AudioAtoms.Proofs.Feeds

/-!
# Headers as octets

The header of an atom as a function of the octets in front of it. Every stream that hands out octets
yields this header and is moved over it, or fails where the octets of the header are not all there.
-/
namespace AudioAtoms

namespace Header

/-- The size that the octets declare for the whole atom, in a parent with `budget` octets left.
Zero stands for all of these, and a size below that of the header is raised to it. -/
def declaredSize (budget : Nat) (bs : Bytes) : Nat :=
  if Bytes.toNat (bs.take 4) = 0 then budget
  else if Bytes.toNat (bs.take 4) = 1 then max (Bytes.toNat ((bs.drop 8).take 8)) 16
  else max (Bytes.toNat (bs.take 4)) 8

def ofOctets (budget : Nat) (bs : Bytes) : Header :=
  if Bytes.toNat (bs.take 4) = 1 then ⟨.other ⟨0, 0, 0, 0⟩, true, declaredSize budget bs - 16⟩
  else ⟨.ofCode (.ofBytes ((bs.drop 4).take 4)), false, declaredSize budget bs - 8⟩

variable {budget : Nat} {bs : Bytes}

theorem ofOctets_wide (h : Bytes.toNat (bs.take 4) = 1) :
    ofOctets budget bs =
      ⟨.other ⟨0, 0, 0, 0⟩, true, max (Bytes.toNat ((bs.drop 8).take 8)) 16 - 16⟩ := by
  rw [ofOctets, if_pos h, declaredSize, if_neg (by omega), if_pos h]

theorem ofOctets_narrow (h : Bytes.toNat (bs.take 4) ≠ 1) :
    ofOctets budget bs = ⟨.ofCode (.ofBytes ((bs.drop 4).take 4)), false,
      if Bytes.toNat (bs.take 4) = 0 then budget - 8 else Bytes.toNat (bs.take 4) - 8⟩ := by
  rw [ofOctets, if_neg h, declaredSize, if_neg h]
  congr 1
  split <;> omega

theorem ownSize_ofOctets :
    (ofOctets budget bs).ownSize = if Bytes.toNat (bs.take 4) = 1 then 16 else 8 := by
  rw [ofOctets]
  split <;> rfl

theorem size_ofOctets :
    (ofOctets budget bs).size =
      max (declaredSize budget bs) (ofOctets budget bs).ownSize := by
  have hdata : (ofOctets budget bs).dataSize =
      declaredSize budget bs - (ofOctets budget bs).ownSize := by
    rw [ownSize_ofOctets, ofOctets]
    split <;> rfl
  rw [size, hdata]
  omega

/-- The atom is charged by the size declared. -/
theorem leave_ofOctets : (ofOctets budget bs).leave budget = budget - declaredSize budget bs := by
  rw [leave, size_ofOctets, ownSize_ofOctets]
  unfold declaredSize
  split <;> split <;> omega

theorem size_ofOctets_lt (hb : budget < 2 ^ 64) : (ofOctets budget bs).size < 2 ^ 64 := by
  have hnarrow := Bytes.toNat_lt_of_le (List.length_take_le 4 bs)
  have hwide := Bytes.toNat_lt_of_le (List.length_take_le 8 (bs.drop 8))
  rw [size_ofOctets, ownSize_ofOctets]
  unfold declaredSize
  split <;> split <;> omega

section Exec
variable {bounded : Bool} {σ : Type} [ByteStream bounded σ] {f : Feed bounded σ} {s : σ}

/-- A header that is there is read, and the stream is moved over it. -/
theorem exec_read (budget : Nat) (hs : f.Good s)
    (h : (ofOctets budget (f.ahead s)).ownSize ≤ (f.ahead s).length) :
    ∃ t, (Header.read budget : Read bounded Header).exec s =
        (.ok (ofOctets budget (f.ahead s)), t) ∧
      f.Moved (ofOctets budget (f.ahead s)).ownSize s t := by
  rw [ownSize_ofOctets] at h ⊢
  obtain ⟨t, hsize, ht⟩ := Feed.exec_number (n := 4) hs (by split at h <;> omega)
  obtain ⟨u, hcode, hu⟩ := Feed.exec_code ht.good (by rw [ht.length_ahead]; split at h <;> omega)
  rw [ht.ahead] at hcode
  have htu := ht.trans hu
  rw [Header.read, Read.exec_bind_ok hsize, Read.exec_bind_ok hcode]
  by_cases h1 : Bytes.toNat ((f.ahead s).take 4) = 1
  · rw [if_pos h1] at h ⊢
    obtain ⟨v, hwide, hv⟩ := Feed.exec_number (n := 8) htu.good (by rw [htu.length_ahead]; omega)
    rw [htu.ahead] at hwide
    rw [if_neg (by omega), if_pos h1, Read.exec_bind_ok hwide,
      Read.exec_bind_ok (Read.exec_note _ _), ofOctets_wide h1]
    exact ⟨v, rfl, htu.trans hv⟩
  · rw [if_neg h1, if_neg h1, ofOctets_narrow h1]
    refine ⟨u, ?_, htu⟩
    by_cases h0 : Bytes.toNat ((f.ahead s).take 4) = 0
    · rw [if_pos h0, if_pos h0]
      rfl
    · rw [if_neg h0, if_neg h0]
      split
      · exact Read.exec_bind_ok (Read.exec_note _ _) _
      · rfl

theorem exec_read_tooFew (budget : Nat) (hs : f.Good s)
    (h : (f.ahead s).length < (ofOctets budget (f.ahead s)).ownSize) :
    ∃ e t, (Header.read budget : Read bounded Header).exec s = (.error e, t) := by
  rw [ownSize_ofOctets] at h
  by_cases h4 : 4 ≤ (f.ahead s).length
  · obtain ⟨t, hsize, ht⟩ := Feed.exec_number (n := 4) hs h4
    rw [Header.read, Read.exec_bind_ok hsize]
    by_cases h8 : 4 ≤ (f.ahead t).length
    · obtain ⟨u, hcode, hu⟩ := Feed.exec_code ht.good h8
      have htu := ht.trans hu
      rw [ht.length_ahead] at h8
      have h1 : Bytes.toNat ((f.ahead s).take 4) = 1 := by
        split at h
        · assumption
        · omega
      rw [if_pos h1] at h
      obtain ⟨e, v, hwide⟩ := Feed.exec_number_tooFew (n := 8) htu.good
        (by rw [htu.length_ahead]; omega)
      rw [Read.exec_bind_ok hcode, if_neg (by omega), if_pos h1]
      exact ⟨e, v, Read.exec_bind_error hwide _⟩
    · obtain ⟨e, u, hcode⟩ := Feed.exec_code_tooFew ht.good (Nat.lt_of_not_le h8)
      exact ⟨e, u, Read.exec_bind_error hcode _⟩
  · obtain ⟨e, t, hsize⟩ := Feed.exec_number_tooFew (n := 4) hs (Nat.lt_of_not_le h4)
    exact ⟨e, t, Read.exec_bind_error hsize _⟩

/-- A header that is written in front of the octets ahead is read from there. -/
theorem exec_read_written {octets tail : Bytes} {h : Header} (hs : f.Good s)
    (hahead : f.ahead s = octets ++ tail) (hh : ofOctets budget (octets ++ tail) = h)
    (hlen : octets.length = h.ownSize) :
    ∃ t, (Header.read budget : Read bounded Header).exec s = (.ok h, t) ∧
      f.Moved h.ownSize s t ∧ f.ahead t = tail := by
  rw [← hahead] at hh
  have hfits : (ofOctets budget (f.ahead s)).ownSize ≤ (f.ahead s).length := by
    rw [hh, hahead, List.length_append, hlen]
    omega
  obtain ⟨t, hread, ht⟩ := exec_read budget hs hfits
  rw [hh] at hread ht
  refine ⟨t, hread, ht, ?_⟩
  rw [ht.ahead, hahead, ← hlen, List.drop_left]

/-- What is read is the header in front of the octets. -/
theorem eq_of_exec_read {t : σ} {h : Header} (hs : f.Good s)
    (hr : (Header.read budget : Read bounded Header).exec s = (.ok h, t)) :
    h = ofOctets budget (f.ahead s) ∧ f.Moved h.ownSize s t := by
  by_cases hfits : (ofOctets budget (f.ahead s)).ownSize ≤ (f.ahead s).length
  · obtain ⟨u, hread, hu⟩ := exec_read budget hs hfits
    cases hread.symm.trans hr
    exact ⟨rfl, hu⟩
  · obtain ⟨e, u, hread⟩ := exec_read_tooFew budget hs (Nat.lt_of_not_le hfits)
    cases hread.symm.trans hr

end Exec

end Header

end AudioAtoms
