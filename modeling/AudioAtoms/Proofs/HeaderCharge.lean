import AudioAtoms.Proofs.Buffering
import AudioAtoms.Proofs.Headers

/-!
# What reading a header costs

A header that is read takes eight octets off the stream, or sixteen if its size has 64 bits. The
parent is charged by header and payload together, a sum that always fits into a word, and by at
least eight octets. So a row of atoms is over after finitely many of them, and the octets left in
the parent keep step with the stream. What a header was written with comes back from it.
-/
namespace AudioAtoms

namespace Header

section Streams
variable {bounded : Bool} {σ : Type} [ByteStream bounded σ] (f : Feed bounded σ)

/-- Reading a header takes eight octets off the stream, or sixteen if the first four declare a size
of 64 bits. The parent is left with what header and payload do not take, and header and payload
together fit into a word. What is left is what the declared size leaves, and a parent with room for
a header has at least eight octets less. A header written for a code and a size of the payload is
read back, but for the code of one with a size of 64 bits, which is cleared. -/
theorem exec_read_charges :
    (∀ budget s t h, f.Good s → budget < 2 ^ 64 →
      (Header.read budget : Read bounded Header).exec s = (.ok h, t) →
      ∃ c, c = (if Bytes.toNat ((f.ahead s).take 4) = 1 then 16 else 8) ∧
        f.pos t = f.pos s + c ∧ f.ahead t = (f.ahead s).drop c ∧ c + h.dataSize < 2 ^ 64 ∧
        h.leave budget = budget - (c + h.dataSize) ∧
        h.leave budget = budget - declaredSize budget (f.ahead s) ∧
        (8 ≤ budget → h.leave budget ≤ budget - 8)) ∧
    (∀ budget s code n tail, f.Good s → 8 + n < 2 ^ 32 →
      f.ahead s = narrowOctets code n ++ tail →
      ∃ t, (Header.read budget : Read bounded Header).exec s = (.ok ⟨.ofCode code, false, n⟩, t) ∧
        f.pos t = f.pos s + 8 ∧ f.ahead t = tail) ∧
    (∀ budget s code n tail, f.Good s → 16 + n < 2 ^ 64 →
      f.ahead s = wideOctets code n ++ tail →
      ∃ t, (Header.read budget : Read bounded Header).exec s =
          (.ok ⟨.other ⟨0, 0, 0, 0⟩, true, n⟩, t) ∧
        f.pos t = f.pos s + 16 ∧ f.ahead t = tail) := by
  refine ⟨fun budget s t h hs hb hr => ?_, fun budget s code n tail hs hn hahead => ?_,
    fun budget s code n tail hs hn hahead => ?_⟩
  · have hleast : h.leave budget ≤ budget - 8 := Nat.sub_le_sub_left h.minSize_le_size budget
    obtain ⟨rfl, ht⟩ := eq_of_exec_read hs hr
    exact ⟨_, ownSize_ofOctets, ht.pos, ht.ahead, size_ofOctets_lt hb, rfl, leave_ofOctets,
      fun _ => hleast⟩
  · obtain ⟨t, hread, ht, htail⟩ :=
      exec_read_written hs hahead (ofOctets_narrowOctets budget code tail hn) rfl
    exact ⟨t, hread, ht.pos, htail⟩
  · obtain ⟨t, hread, ht, htail⟩ :=
      exec_read_written hs hahead (ofOctets_wideOctets budget code tail hn) rfl
    exact ⟨t, hread, ht.pos, htail⟩

end Streams

/-- The largest size there is, in a source read three octets at a time and from its second octet on.
Header and payload just fit into a word, and nothing is left of a parent of that size. -/
theorem exec_read_charges_largest :
    let code : Code := .ofChars 'm' 'd' 'a' 't'
    let source := Source.ofContent (7 :: wideOctets code (2 ^ 64 - 17)).toArray 1 .steady
    let s := Buffered.ofSource source 3 (by decide)
    let h : Header := ⟨.other ⟨0, 0, 0, 0⟩, true, 2 ^ 64 - 17⟩
    ∃ t, (Header.read (2 ^ 64 - 1) : Read false Header).exec s = (.ok h, t) ∧ t.pos = 17 ∧
      16 + h.dataSize < 2 ^ 64 ∧ h.leave (2 ^ 64 - 1) = 0 := by
  intro code source s h
  have hsource : source.Reliable :=
    Source.reliable_ofContent (by decide) (by decide) Schedule.reliable_steady
  obtain ⟨hs, htape⟩ := Buffered.coherent_ofSource hsource (show 0 < 3 by decide)
  have hahead : Buffered.feed.ahead s = wideOctets code (2 ^ 64 - 17) ++ [] := by
    change s.tape.content.drop s.tape.pos = _
    rw [show s.tape = source.tape from htape]
    rfl
  obtain ⟨hcharge, -, hwide⟩ := exec_read_charges Buffered.feed
  obtain ⟨t, hread, hpos, -⟩ :=
    hwide (2 ^ 64 - 1) s code (2 ^ 64 - 17) [] hs (by decide) hahead
  obtain ⟨c, hc, -, -, hfits, hleave, -⟩ := hcharge (2 ^ 64 - 1) s t h hs (by decide) hread
  rw [hahead, if_pos (by decide)] at hc
  have hdata : h.dataSize = 2 ^ 64 - 17 := rfl
  rw [hc, hdata] at hleave
  exact ⟨t, hread, hpos, hc ▸ hfits, by omega⟩

end Header

end AudioAtoms
