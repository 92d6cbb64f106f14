import AudioAtoms.Proofs.ArenaUse

/-!
# Text that is cut

A value is cut to so many octets before it is read as text. A cut between two characters leaves the
characters before it. A cut inside a character leaves octets that are none, and these are read as
one replacement character. So a tag only ever shortens the text in it where the cut ends between
two characters.
-/
namespace AudioAtoms

namespace Text

/-- The octets from 128 to 191 continue a character. -/
theorem isTail_ofNat {b : Nat} (hb : 0x80 ≤ b ∧ b ≤ 0xBF) : isTail (UInt8.ofNat b) = true := by
  simp only [isTail, Bool.and_eq_true, decide_eq_true_eq, UInt8.le_iff_toNat_le,
    UInt8.toNat_ofNat_of_lt' (show b < 256 by omega)]
  exact hb

/-- The second octet of a character of three or four octets, as the first one allows it: the
character is not one that fewer octets could tell, no surrogate and not beyond the last one. -/
theorem mayFollow_ofNat {lead second : Nat} (hlead : 0xE0 ≤ lead ∧ lead ≤ 0xF4)
    (hsecond : 0x80 ≤ second ∧ second ≤ 0xBF) (he0 : lead = 0xE0 → 0xA0 ≤ second)
    (hed : lead = 0xED → second ≤ 0x9F) (hf0 : lead = 0xF0 → 0x90 ≤ second)
    (hf4 : lead = 0xF4 → second ≤ 0x8F) :
    mayFollow (UInt8.ofNat lead) (UInt8.ofNat second) = true := by
  simp only [mayFollow, isTail, UInt8.le_iff_toNat_le, ← UInt8.toNat_inj, UInt8.reduceToNat,
    UInt8.toNat_ofNat_of_lt' (show lead < 256 by omega),
    UInt8.toNat_ofNat_of_lt' (show second < 256 by omega)]
  repeat' split
  all_goals
    simp only [Bool.and_eq_true, decide_eq_true_eq]
    omega

section Part
variable {c : Char} {n : Nat}

/-- A character that is cut off is none. -/
theorem firstChar_take (hn : n < c.utf8Size) :
    firstChar? ((String.utf8EncodeChar c).take n) = none := by
  cases hfirst : firstChar? ((String.utf8EncodeChar c).take n) with
  | none => rfl
  | some d =>
    have hfour : n ≤ 4 := Nat.le_trans (Nat.le_of_lt hn) c.utf8Size_le_four
    have hpart : ((String.utf8EncodeChar c).take n).take 4 = (String.utf8EncodeChar c).take n := by
      rw [List.take_take, Nat.min_eq_right hfour]
    rw [firstChar?, hpart] at hfirst
    have hwhole := ByteArray.utf8DecodeChar?_append_eq_some hfirst
      ((String.utf8EncodeChar c).drop n).toByteArray
    rw [← List.toByteArray_append, List.take_append_drop] at hwhole
    have hsame := ByteArray.utf8DecodeChar?_utf8EncodeChar_append (b := ByteArray.empty) (c := c)
    have hle := ByteArray.le_size_of_utf8DecodeChar?_eq_some hfirst
    rw [ByteArray.append_empty, hwhole, Option.some.injEq] at hsame
    rw [List.size_toByteArray, List.length_take, hsame] at hle
    omega

/-- All the octets that a cut leaves of a character belong to the same broken stretch. -/
theorem brokenLength_take (hpos : 0 < n) (hn : n < c.utf8Size) :
    brokenLength ((String.utf8EncodeChar c).take n) = n := by
  rw [← String.length_utf8EncodeChar] at hn
  have hvalid : c.val.toNat < 0xD800 ∨ 0xDFFF < c.val.toNat ∧ c.val.toNat < 0x110000 := c.valid
  revert hn
  fun_cases String.utf8EncodeChar c with
  | case1 v h1 =>
    intro hn
    exact absurd hpos (by simpa using hn)
  | case2 v h1 h2 =>
    intro hn
    have hone : n = 1 := Nat.le_antisymm (Nat.le_of_lt_succ hn) hpos
    rw [hone]
    rfl
  | case3 v h1 h2 h3 =>
    intro hn
    have hfollow : mayFollow (UInt8.ofNat (v / 4096 % 0x10 + 0xe0))
        (UInt8.ofNat (v / 64 % 0x40 + 0x80)) = true := by
      apply mayFollow_ofNat <;> omega
    obtain rfl | rfl : n = 1 ∨ n = 2 := by
      simp only [List.length_cons, List.length_nil] at hn
      omega
    · rfl
    · exact if_pos hfollow
  | case4 v h1 h2 h3 =>
    intro hn
    have hfollow : mayFollow (UInt8.ofNat (v / 262144 % 0x08 + 0xf0))
        (UInt8.ofNat (v / 4096 % 0x40 + 0x80)) = true := by
      apply mayFollow_ofNat <;> omega
    have htail : isTail (UInt8.ofNat (v / 64 % 0x40 + 0x80)) = true := isTail_ofNat (by omega)
    have hlead : 0xF0 ≤ UInt8.ofNat (v / 262144 % 0x08 + 0xf0) := by
      have hsmall : v / 262144 % 0x08 + 0xf0 < 256 := by omega
      rw [UInt8.le_iff_toNat_le, UInt8.toNat_ofNat_of_lt' hsmall]
      exact Nat.le_add_left _ _
    obtain rfl | rfl | rfl : n = 1 ∨ n = 2 ∨ n = 3 := by
      simp only [List.length_cons, List.length_nil] at hn
      omega
    · rfl
    · exact if_pos hfollow
    · simp only [List.take, brokenLength, hfollow, htail, hlead]
      rfl

/-- What a cut leaves of a character is read as one replacement character. -/
theorem decodeChars_take (hpos : 0 < n) (hn : n < c.utf8Size) :
    decodeChars ((String.utf8EncodeChar c).take n) = ['\uFFFD'] := by
  have hfirst := firstChar_take hn
  have hbroken := brokenLength_take hpos hn
  have hlen : ((String.utf8EncodeChar c).take n).length = n := by
    rw [List.length_take, String.length_utf8EncodeChar]
    omega
  cases hpart : (String.utf8EncodeChar c).take n with
  | nil =>
    rw [hpart, List.length_nil] at hlen
    omega
  | cons b rest =>
    rw [hpart] at hfirst hbroken hlen
    rw [decodeChars, hfirst]
    simp only [hbroken]
    rw [List.drop_of_length_le hlen.le, decodeChars]

end Part

/-- The first octets of a text, so many of them, are all those of its first characters. -/
def EndsBetween (n : Nat) (t : String) : Prop :=
  ∃ front, front <+: t.toList ∧ encode (String.ofList front) = (encode t).take n

/-- The first octets of a text end between two of its characters, or with some of the octets of
one of them. -/
theorem take_encode_cases (cs : List Char) (n : Nat) :
    (∃ front, front <+: cs ∧ encode (String.ofList front) = (encode (String.ofList cs)).take n) ∨
      ∃ front c k, front ++ [c] <+: cs ∧ 0 < k ∧ k < c.utf8Size ∧
        n = (encode (String.ofList front)).length + k ∧
        (encode (String.ofList cs)).take n =
          encode (String.ofList front) ++ (String.utf8EncodeChar c).take k := by
  induction cs generalizing n with
  | nil => exact .inl ⟨[], List.prefix_rfl, by rw [encode_nil, List.take_nil]⟩
  | cons c cs ih =>
    have hsize := String.length_utf8EncodeChar c
    rw [encode_cons]
    by_cases hn : n < c.utf8Size
    · by_cases hzero : n = 0
      · exact .inl ⟨[], List.nil_prefix, by rw [hzero, encode_nil, List.take_zero]⟩
      · refine .inr ⟨[], c, n, List.prefix_append [c] cs, by omega, hn, ?_, ?_⟩
        · rw [encode_nil, List.length_nil, Nat.zero_add]
        · rw [List.take_append_of_le_length (by omega), encode_nil, List.nil_append]
    · have htake : (String.utf8EncodeChar c ++ encode (String.ofList cs)).take n =
          String.utf8EncodeChar c ++ (encode (String.ofList cs)).take (n - c.utf8Size) := by
        rw [List.take_append, hsize, List.take_of_length_le (by omega)]
      rw [htake]
      obtain ⟨front, hpre, hfront⟩ | ⟨front, d, k, hpre, hpos, hk, hn', hfront⟩ :=
        ih (n - c.utf8Size)
      · exact .inl ⟨c :: front, List.cons_prefix_cons.2 ⟨rfl, hpre⟩, by rw [encode_cons, hfront]⟩
      · refine .inr ⟨c :: front, d, k, List.cons_prefix_cons.2 ⟨rfl, hpre⟩, hpos, hk, ?_, ?_⟩
        · rw [encode_cons, List.length_append, hsize]
          omega
        · rw [hfront, encode_cons, List.append_assoc]

section Cut
variable {t : String} {n : Nat}

/-- A text that is cut between two characters is shortened. -/
theorem decode_take_of_endsBetween (h : EndsBetween n t) :
    (decode ((encode t).take n)).toList <+: t.toList ∧
      encode (decode ((encode t).take n)) = (encode t).take n := by
  obtain ⟨front, hpre, hfront⟩ := h
  rw [← hfront, decode_encode, String.toList_ofList]
  exact ⟨hpre, rfl⟩

/-- A text that is cut inside a character gets another one in its place. -/
theorem decode_take_of_not_endsBetween (h : ¬ EndsBetween n t) :
    ∃ front c, front ++ [c] <+: t.toList ∧ (encode (String.ofList front)).length < n ∧
      n < (encode (String.ofList front)).length + c.utf8Size ∧
      decode ((encode t).take n) = String.ofList (front ++ ['\uFFFD']) := by
  have hcases := take_encode_cases t.toList n
  rw [String.ofList_toList] at hcases
  obtain hbetween | ⟨front, c, k, hpre, hpos, hk, rfl, htake⟩ := hcases
  · exact absurd hbetween h
  · refine ⟨front, c, hpre, by omega, by omega, ?_⟩
    rw [htake, decode, decodeChars_encode_append, decodeChars_take hpos hk]

end Cut

end Text

namespace TagContent
variable {o : Options} {field : TextField} {bs : Bytes} {c : Collected}

theorem text_of_no_value (hnil : value c.arena.room bs = []) : text o field bs c = load bs c :=
  if_neg fun h => h.1 hnil

/-- A text that gets set is what is kept of the value. -/
theorem eq_of_text_eq_some {u : String} (hmost : o.maxValueSize ≠ 0)
    (hunset : c.track.tags.text field = none)
    (hset : (text o field bs c).track.tags.text field = some u) :
    u = Text.decode (Arena.trimmed o.maxValueSize (value c.arena.room bs)) := by
  by_cases hnil : value c.arena.room bs = []
  · rw [text_of_no_value hnil] at hset
    cases hunset.symm.trans hset
  · obtain ⟨b, hb, -⟩ := text_of_value hnil hmost hunset
    have hkept := Tags.kept_setText c.track.tags
      (some (Text.decode (Arena.trimmed o.maxValueSize (value c.arena.room bs)))) field
      (.text field)
    rw [if_pos rfl] at hkept
    rw [hb] at hset
    exact Option.some.inj (hset.symm.trans hkept)

theorem trimmed_text {header : Bytes} {t : String} {most : Nat}
    (hheader : header.length = TagValue.offset) (hnul : 0 ∉ Text.encode t) :
    Arena.trimmed most (value c.arena.room (header ++ Text.encode t)) =
      (Text.encode t).take (min c.arena.room (most - 1)) := by
  have hvalue : value c.arena.room (header ++ Text.encode t) =
      (Text.encode t).take c.arena.room := by
    rw [value, ← hheader, List.drop_left]
  have hfree : 0 ∉ (Text.encode t).take c.arena.room := fun h => hnul (List.mem_of_mem_take h)
  rw [hvalue, Arena.trimmed, Bytes.untilNul_eq hfree, List.take_take, Nat.min_comm]

end TagContent

namespace ReadTag
variable {o : Options} {field : TextField} {c : Collected}

/-- A text is cut to the room in the arena and to the longest value. Where the cut falls between
two characters, the text is only shortened. Where it falls inside one, what is left of that
character is replaced by another character. -/
theorem text_shortened {pos : Nat} {header tail : Bytes} {w : Window} {t u : String}
    (hheader : header.length = TagValue.offset)
    (hw : w.size = w.used + (header ++ Text.encode t).length) (hnul : 0 ∉ Text.encode t)
    (hmost : 1 ≤ o.maxValueSize) (hunset : c.track.tags.text field = none)
    (hset : ((text o field).exec c
      (⟨⟨pos, header ++ Text.encode t ++ tail⟩, w⟩ : Scoped Slice)).1.2.track.tags.text field =
        some u) :
    let size := min c.arena.room (o.maxValueSize - 1)
    (Text.EndsBetween size t → u.toList <+: t.toList ∧
      Text.encode u = (Text.encode t).take size ∧ (Text.encode u).length + 1 ≤ o.maxValueSize) ∧
    (¬ Text.EndsBetween size t → ∃ front last, front ++ [last] <+: t.toList ∧
      (Text.encode (String.ofList front)).length < size ∧
      size < (Text.encode (String.ofList front)).length + last.utf8Size ∧
      u = String.ofList (front ++ ['\uFFFD'])) := by
  intro size
  have hu : u = Text.decode ((Text.encode t).take size) := by
    rw [exec_text_scoped pos _ tail w hw] at hset
    rw [TagContent.eq_of_text_eq_some (by omega) hunset hset,
      TagContent.trimmed_text hheader hnul]
  refine ⟨fun h => ?_, fun h => ?_⟩
  · obtain ⟨hpre, hencode⟩ := Text.decode_take_of_endsBetween h
    have hlen : ((Text.encode t).take size).length ≤ size := List.length_take_le _ _
    rw [hu, hencode]
    exact ⟨hpre, rfl, by omega⟩
  · rw [hu]
    exact Text.decode_take_of_not_endsBetween h

/-- A text whose last character does not fit in. -/
theorem text_shortened_between :
    let o : Options := { maxValueSize := 4 }
    let c : Collected := { arena := .ofCapacity 8 }
    ((text o .title).exec c (⟨⟨0, List.replicate 16 0 ++ Text.encode "aéz" ++ [0x7a]⟩, .ofSize 20⟩ :
      Scoped Slice)).1.2.track.tags.text .title = some "aé" ∧
    "aé".toList <+: "aéz".toList ∧ (Text.encode "aé").length + 1 ≤ 4 := by
  intro o c
  have hset : ((text o .title).exec c
      (⟨⟨0, List.replicate 16 0 ++ Text.encode "aéz" ++ [0x7a]⟩, .ofSize 20⟩ :
        Scoped Slice)).1.2.track.tags.text .title = some "aé" := by
    simp only [c, o]
    cbv
  have hencode : Text.encode "aéz" = [0x61, 0xc3, 0xa9, 0x7a] := by cbv
  have hnul : 0 ∉ Text.encode "aéz" := by
    rw [hencode]
    decide
  have hsize : min c.arena.room (o.maxValueSize - 1) = 3 := by decide
  have hbetween : Text.EndsBetween (min c.arena.room (o.maxValueSize - 1)) "aéz" := by
    rw [hsize]
    exact ⟨['a', 'é'], by decide, by cbv⟩
  have h := (text_shortened rfl (by cbv) hnul (by decide) rfl hset).1 hbetween
  exact ⟨hset, h.1, h.2.2⟩

/-- A text that is cut inside its second character. -/
theorem text_not_shortened :
    let o : Options := { maxValueSize := 3 }
    let list := Atom.octets Kind.title.code (List.replicate 16 0 ++ Text.encode "aé")
    let d := (TagList.read o list.length : Collect StreamError false Unit).exec
      { arena := .ofCapacity 8 } (Slice.ofBytes list)
    d.1.2.track.tags.title = some "a\uFFFD" ∧ ¬ "a\uFFFD".toList <+: "aé".toList ∧
      3 < (Text.encode "a\uFFFD").length + 1 := by
  intro o list d
  have hd : d.1.2.track.tags.title = some "a\uFFFD" := by
    simp only [d, list, o]
    cbv
  exact ⟨hd, by decide, by cbv⟩

end ReadTag

end AudioAtoms
