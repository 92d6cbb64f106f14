import AudioAtoms.Proofs.DescriptorGrammar
import AudioAtoms.Proofs.Digits
import AudioAtoms.Proofs.Feeds

/-!
# Lengths of descriptors

A length is written to base 128, in one to four octets that may start with zeros. All octets but the
last are marked. It is read back from any stream that has its octets, in memory or behind a window,
and nothing behind it is touched. Whatever else is read as a length is the number written by the
octets that were taken, which are at most four.
-/
namespace AudioAtoms

namespace Descriptor

def markedOctets : Nat → Nat → Bytes
  | 0, _ => []
  | k + 1, n => markedOctets k (n / 128) ++ [UInt8.ofNat (128 + n % 128)]

def lengthOctets : Nat → Nat → Bytes
  | 0, _ => []
  | k + 1, n => markedOctets k (n / 128) ++ [UInt8.ofNat (n % 128)]

/-- The number that octets write to base 128. A mark does not count. -/
def base128 (ds : Bytes) : Nat := Digits.value 128 (fun d => d.toNat % 128) ds

section Written
variable (k n : Nat)

theorem writer_markedOctets : Digits.Writer 128 (fun d : UInt8 => d.toNat % 128)
    (fun n => UInt8.ofNat (128 + n % 128)) markedOctets where
  zero := fun _ => rfl
  succ := fun _ _ => rfl
  digit_last := by
    intro n
    rw [UInt8.toNat_ofNat']
    omega

theorem length_markedOctets : (markedOctets k n).length = k :=
  writer_markedOctets.length_eq k n

theorem length_lengthOctets : (lengthOctets k n).length = k := by
  cases k with
  | zero => rfl
  | succ k =>
    rw [lengthOctets, List.length_append, length_markedOctets, List.length_singleton]

theorem le_of_mem_markedOctets {d : UInt8} (h : d ∈ markedOctets k n) : 128 ≤ d.toNat := by
  obtain ⟨m, rfl⟩ := writer_markedOctets.exists_eq_last h
  rw [UInt8.toNat_ofNat']
  omega

/-- One more octet behind others writes seven more bits. -/
theorem base128_concat (ds : Bytes) (d : UInt8) :
    base128 (ds ++ [d]) = base128 ds * 128 + d.toNat % 128 := by
  have hlast : Digits.value 128 (fun d : UInt8 => d.toNat % 128) [d] = d.toNat % 128 := by
    simp [Digits.value]
  rw [base128, Digits.value_append, hlast, List.length_singleton, Nat.pow_one]
  rfl

theorem base128_markedOctets : base128 (markedOctets k n) = n % 128 ^ k :=
  writer_markedOctets.value_eq k n

variable {k n}

theorem base128_lengthOctets (hn : n < 2 ^ (7 * k)) : base128 (lengthOctets k n) = n := by
  rw [Nat.pow_mul] at hn
  cases k with
  | zero =>
    obtain rfl : n = 0 := Nat.lt_one_iff.mp hn
    rfl
  | succ k =>
    have hdigit : (UInt8.ofNat (n % 128)).toNat % 128 = n % 128 := by
      rw [UInt8.toNat_ofNat']
      omega
    have hleading : n / 128 < 128 ^ k := by
      rw [Nat.pow_succ] at hn
      exact Nat.div_lt_of_lt_mul (Nat.mul_comm _ _ ▸ hn)
    rw [lengthOctets, base128_concat, base128_markedOctets, hdigit, Nat.mod_eq_of_lt hleading]
    omega

theorem isLength_lengthOctets {most : Nat} (hk : 1 ≤ k) (hmost : k ≤ most) (rest : Bytes) :
    IsLength most (lengthOctets k n) rest := by
  have hlen := length_lengthOctets k n
  obtain ⟨k, rfl⟩ := Nat.exists_eq_add_of_le' hk
  refine ⟨by omega, by omega, ?_, .inl ⟨UInt8.ofNat (n % 128), ?_, ?_⟩⟩
  · rw [lengthOctets, List.dropLast_concat]
    exact fun d hd => le_of_mem_markedOctets _ _ hd
  · rw [lengthOctets, List.getLast?_concat]
  · rw [UInt8.toNat_ofNat']
    omega

theorem base128_lt {ds : Bytes} (h : ds.length ≤ 4) : base128 ds < 2 ^ 28 :=
  Nat.lt_of_lt_of_le (Digits.value_lt (fun d => Nat.mod_lt _ (by decide)) ds)
    (Nat.pow_le_pow_right (by decide) h)

end Written

section Streams
variable {σ : Type} [ByteStream true σ] {f : Feed true σ} {n value : Nat} {s t : σ} {d : UInt8}
  {bs ds : Bytes}

/-- One octet of a length is added to what was read before. The length is then over, or it goes on
behind that octet. -/
theorem exec_lengthFrom_succ (hs : f.Good s) (hahead : f.ahead s = d :: bs) (n value : Nat) :
    ∃ t left, f.Moved 1 s t ∧ (left = 0 → bs = []) ∧
      (lengthFrom (n + 1) value).exec s =
        if d.toNat < 128 ∨ left = 0 then (.ok (withDigit value d), t)
        else (lengthFrom n (withDigit value d)).exec t := by
  obtain ⟨t, hoctet, ht⟩ := Feed.exec_number (n := 1) hs (by rw [hahead]; simp)
  obtain ⟨left, hleft, hnone⟩ := f.remaining rfl t ht.good
  have hremaining : Read.remaining.exec t = (.ok left, t) := by
    have hask : Read.remaining.exec t = (.ok (ByteStream.answer (.remaining rfl) t).1,
        (ByteStream.answer (.remaining rfl : Request true) t).2) := rfl
    rw [hask, hleft]
  rw [hahead, Bytes.toNat_take_one] at hoctet
  rw [ht.ahead, hahead] at hnone
  refine ⟨t, left, ht, hnone, ?_⟩
  rw [lengthFrom, Read.exec_bind_ok hoctet]
  by_cases hlow : d.toNat < 128
  · rw [if_pos hlow, if_pos (.inl hlow)]
    rfl
  · rw [if_neg hlow, Read.exec_bind_ok hremaining]
    by_cases hend : left = 0
    · rw [if_pos hend, if_pos (.inr hend)]
      rfl
    · rw [if_neg hend, if_neg (not_or.mpr ⟨hlow, hend⟩)]
      rfl

/-- Octets that are a length whatever stands behind them are read as one. -/
theorem exec_lengthFrom (hs : f.Good s) (hahead : f.ahead s = ds ++ bs)
    (h : ∀ rest, IsLength n ds rest) (value : Nat) :
    ∃ t, (lengthFrom n value).exec s = (.ok (ds.foldl withDigit value), t) ∧
      f.Moved ds.length s t := by
  induction ds generalizing n value s with
  | nil => exact absurd (h []).pos (by simp)
  | cons d ds ih =>
    cases n with
    | zero => exact absurd (h []).le (by simp)
    | succ n =>
      obtain ⟨t, left, ht, hleft, hexec⟩ := exec_lengthFrom_succ hs hahead n value
      rw [hexec]
      cases ds with
      | nil =>
        refine ⟨t, ?_, ht⟩
        by_cases hend : d.toNat < 128 ∨ left = 0
        · rw [if_pos hend]
          rfl
        · obtain hlow | rfl | hrest := isLength_singleton.mp (h [d])
          · exact absurd (.inl hlow) hend
          · rw [if_neg hend]
            rfl
          · cases hrest
      | cons e ds =>
        have hmarked := (isLength_cons.mp (h [])).1
        have hmore : left ≠ 0 := fun hnone => by cases hleft hnone
        have hahead' : f.ahead t = (e :: ds) ++ bs := by
          rw [ht.ahead, hahead]
          rfl
        obtain ⟨u, hrest, hu⟩ := ih ht.good hahead' (fun rest => (isLength_cons.mp (h rest)).2)
          (withDigit value d)
        have hlen : (d :: e :: ds).length = 1 + (e :: ds).length := Nat.add_comm _ 1
        rw [if_neg (by omega), hlen]
        exact ⟨u, hrest, ht.trans hu⟩

/-- A length that was read starts with an octet. It is over behind that octet, or the rest of it was
read from there. -/
theorem exec_lengthFrom_cases {v : Nat} (hs : f.Good s)
    (h : (lengthFrom (n + 1) value).exec s = (.ok v, t)) :
    ∃ d u, f.ahead s = d :: f.ahead u ∧ f.Moved 1 s u ∧
      (withDigit value d = v ∧ u = t ∧ (d.toNat < 128 ∨ f.ahead u = []) ∨
        128 ≤ d.toNat ∧ (lengthFrom n (withDigit value d)).exec u = (.ok v, t)) := by
  cases hahead : f.ahead s with
  | nil =>
    obtain ⟨e, u, hnone⟩ := Feed.exec_number_tooFew (n := 1) hs (by rw [hahead]; decide)
    rw [lengthFrom, Read.exec_bind_error hnone] at h
    cases h
  | cons d bs =>
    obtain ⟨u, left, hu, hleft, hexec⟩ := exec_lengthFrom_succ hs hahead n value
    have hbs : f.ahead u = bs := by
      rw [hu.ahead, hahead]
      rfl
    rw [hexec] at h
    refine ⟨d, u, by rw [hbs], hu, ?_⟩
    by_cases hend : d.toNat < 128 ∨ left = 0
    · rw [if_pos hend] at h
      cases h
      exact .inl ⟨rfl, rfl, hend.imp_right fun hnone => hbs.trans (hleft hnone)⟩
    · rw [if_neg hend] at h
      exact .inr ⟨by omega, h⟩

/-- What was read is a length in front of what is then ahead. -/
theorem isLength_of_exec_lengthFrom {v : Nat} (hs : f.Good s)
    (h : (lengthFrom (n + 1) value).exec s = (.ok v, t)) :
    ∃ ds, f.ahead s = ds ++ f.ahead t ∧ IsLength (n + 1) ds (f.ahead t) ∧
      ds.foldl withDigit value = v ∧ f.Moved ds.length s t := by
  induction n generalizing value s with
  | zero =>
    obtain ⟨d, u, hahead, hu, ⟨rfl, rfl, hend⟩ | ⟨-, hrest⟩⟩ := exec_lengthFrom_cases hs h
    · exact ⟨[d], hahead, isLength_singleton.mpr (.inr (.inl rfl)), rfl, hu⟩
    · cases hrest
      exact ⟨[d], hahead, isLength_singleton.mpr (.inr (.inl rfl)), rfl, hu⟩
  | succ n ih =>
    obtain ⟨d, u, hahead, hu, ⟨rfl, rfl, hend⟩ | ⟨hmarked, hrest⟩⟩ := exec_lengthFrom_cases hs h
    · exact ⟨[d], hahead, isLength_singleton.mpr (hend.imp_right .inr), rfl, hu⟩
    · obtain ⟨ds, hds, hlength, hv, ht⟩ := ih hu.good hrest
      cases ds with
      | nil => exact absurd hlength.pos (by simp)
      | cons e ds =>
        have hlen : (d :: e :: ds).length = 1 + (e :: ds).length := Nat.add_comm _ 1
        refine ⟨d :: e :: ds, ?_, isLength_cons.mpr ⟨hmarked, hlength⟩, hv, hlen ▸ hu.trans ht⟩
        rw [hahead, hds]
        rfl

/-- A length that is written ahead is read back, and nothing else is taken. -/
theorem exec_length {k : Nat} (hs : f.Good s) (hk : 1 ≤ k) (hmost : k ≤ 4) (hn : n < 2 ^ (7 * k))
    (hahead : lengthOctets k n <+: f.ahead s) :
    ∃ t, length.exec s = (.ok n, t) ∧ f.Moved k s t := by
  obtain ⟨rest, hrest⟩ := hahead
  obtain ⟨t, hexec, ht⟩ := exec_lengthFrom hs hrest.symm (isLength_lengthOctets hk hmost) 0
  have hvalue : (lengthOctets k n).foldl withDigit 0 = n := base128_lengthOctets hn
  rw [hvalue] at hexec
  rw [length_lengthOctets] at ht
  exact ⟨t, hexec, ht⟩

/-- What is read as a length is the number that the octets taken write. -/
theorem eq_of_exec_length {v : Nat} (hs : f.Good s) (h : length.exec s = (.ok v, t)) :
    ∃ ds, f.ahead s = ds ++ f.ahead t ∧ f.Moved ds.length s t ∧ 1 ≤ ds.length ∧ ds.length ≤ 4 ∧
      v = base128 ds := by
  obtain ⟨ds, hds, hlength, hv, ht⟩ := isLength_of_exec_lengthFrom hs h
  exact ⟨ds, hds, ht, hlength.pos, hlength.le, hv.symm⟩

end Streams

section Windows
variable {σ : Type} [ByteStream false σ] {f : Feed false σ} {n : Nat} {s t : Scoped σ}

/-- A length in a window is read back from there. -/
theorem exec_length_scoped {k : Nat} (hs : f.Good s.inner) (hk : 1 ≤ k) (hmost : k ≤ 4)
    (hn : n < 2 ^ (7 * k)) (hleft : k ≤ s.window.left)
    (hahead : lengthOctets k n <+: f.ahead s.inner) :
    ∃ t, length.exec s = (.ok n, t) ∧ f.InStep s t ∧ f.pos t.inner = f.pos s.inner + k := by
  have hwindow : lengthOctets k n <+: (f.behindWindow s : Feed true (Scoped σ)).ahead s := by
    refine List.prefix_take_iff.mpr ⟨hahead, ?_⟩
    rwa [length_lengthOctets]
  obtain ⟨t, hexec, ht⟩ := exec_length (Feed.inStep_self hs) hk hmost hn hwindow
  exact ⟨t, hexec, ht.good, ht.pos⟩

/-- What is read as a length in a window is the number that the octets taken write. -/
theorem eq_of_exec_length_scoped {v : Nat} (hs : f.Good s.inner)
    (h : length.exec s = (.ok v, t)) :
    ∃ ds, ds <+: f.ahead s.inner ∧ f.InStep s t ∧ f.pos t.inner = f.pos s.inner + ds.length ∧
      1 ≤ ds.length ∧ ds.length ≤ 4 ∧ v = base128 ds := by
  have hgood : (f.behindWindow s : Feed true (Scoped σ)).Good s := Feed.inStep_self hs
  obtain ⟨ds, hds, ht, hpos, hle, hv⟩ := eq_of_exec_length hgood h
  have hfront : ds <+: (f.ahead s.inner).take s.window.left := ⟨_, hds.symm⟩
  exact ⟨ds, hfront.trans (List.take_prefix _ _), ht.good, ht.pos, hpos, hle, hv⟩

/-- A length in one to four octets is read back from octets in memory and from a window that holds
it, whatever stands behind it, and the stream is moved over it and no further. Whatever is read as a
length is below 2 ^ 28, and it is the number that the octets taken write to base 128. These are one
to four. -/
theorem length_reads_back (f : Feed false σ) :
    (∀ k n, 1 ≤ k → k ≤ 4 → n < 2 ^ (7 * k) →
      (∀ pos tail, length.exec (Slice.mk pos (lengthOctets k n ++ tail)) =
        (.ok n, ⟨pos + k, tail⟩)) ∧
      ∀ s : Scoped σ, f.Good s.inner → k ≤ s.window.left →
        lengthOctets k n <+: f.ahead s.inner →
        ∃ t, length.exec s = (.ok n, t) ∧ f.pos t.inner = f.pos s.inner + k ∧
          t.window.used = s.window.used + k ∧ t.window.size = s.window.size) ∧
    (∀ (s t : Slice) v, length.exec s = (.ok v, t) →
      ∃ ds, s.rest = ds ++ t.rest ∧ t.pos = s.pos + ds.length ∧ 1 ≤ ds.length ∧ ds.length ≤ 4 ∧
        v = base128 ds ∧ v < 2 ^ 28) ∧
    ∀ (s t : Scoped σ) v, f.Good s.inner → length.exec s = (.ok v, t) →
      ∃ ds, ds <+: f.ahead s.inner ∧ f.pos t.inner = f.pos s.inner + ds.length ∧
        t.window.used = s.window.used + ds.length ∧ t.window.size = s.window.size ∧
        1 ≤ ds.length ∧ ds.length ≤ 4 ∧ v = base128 ds ∧ v < 2 ^ 28 := by
  refine ⟨fun k n hk hmost hn => ⟨fun pos tail => ?_, fun s hs hleft hahead => ?_⟩,
    fun s t v h => ?_, fun s t v hs h => ?_⟩
  · have hahead : lengthOctets k n <+:
        (Slice.feed : Feed true Slice).ahead ⟨pos, lengthOctets k n ++ tail⟩ :=
      List.prefix_append _ _
    obtain ⟨t, hexec, ht⟩ := exec_length (f := Slice.feed) trivial hk hmost hn hahead
    have hdrop : (lengthOctets k n ++ tail).drop k = tail :=
      List.drop_left' (length_lengthOctets k n)
    rw [hexec, ht.eq_advance, Slice.advance, hdrop]
  · obtain ⟨t, hexec, ht, hpos⟩ := exec_length_scoped hs hk hmost hn hleft hahead
    have hused := ht.used
    exact ⟨t, hexec, hpos, by omega, ht.size_eq⟩
  · obtain ⟨ds, hds, ht, hpos, hle, rfl⟩ := eq_of_exec_length (f := Slice.feed) trivial h
    exact ⟨ds, hds, ht.pos, hpos, hle, rfl, base128_lt hle⟩
  · obtain ⟨ds, hds, ht, hpos, hmin, hmax, rfl⟩ := eq_of_exec_length_scoped hs h
    have hused := ht.used
    exact ⟨ds, hds, hpos, by omega, ht.size_eq, hmin, hmax, rfl, base128_lt hmax⟩

/-- A small length with three zeros before it, in a window that ends with it and in a longer row of
octets. Behind four marked octets a length is over too. -/
theorem length_reads_back_padded :
    let s := Scoped.ofSize (Slice.mk 3 [0x80, 0x80, 0x80, 0x22, 0xff]) 4
    lengthOctets 4 0x22 = [0x80, 0x80, 0x80, 0x22] ∧
      (∃ t, length.exec s = (.ok 0x22, t) ∧ t.inner.pos = 7 ∧ t.window.left = 0) ∧
      length.exec (Slice.mk 0 [0x80, 0x80, 0x80, 0x22, 0xff]) = (.ok 0x22, ⟨4, [0xff]⟩) ∧
      ∃ ds, [0x81, 0x81, 0x81, 0x81, 0x01] = ds ++ [(0x01 : UInt8)] ∧ 0x204081 = base128 ds := by
  intro s
  obtain ⟨hback, htaken, -⟩ := length_reads_back Slice.feed
  obtain ⟨hslice, hscoped⟩ := hback 4 0x22 (by decide) (by decide) (by decide)
  obtain ⟨t, hexec, hpos, hused, hsize⟩ :=
    hscoped s trivial (by decide) ⟨[0xff], by decide⟩
  have hmarked : length.exec (Slice.mk 0 [0x81, 0x81, 0x81, 0x81, 0x01]) =
      (.ok 0x204081, ⟨4, [0x01]⟩) := by
    cbv
  obtain ⟨ds, hds, -, -, -, hv, -⟩ := htaken _ _ _ hmarked
  refine ⟨by decide, ⟨t, hexec, hpos, ?_⟩, hslice 0 [0xff], ds, hds, hv⟩
  rw [Window.left, hused, hsize]
  rfl

end Windows

end Descriptor

end AudioAtoms
