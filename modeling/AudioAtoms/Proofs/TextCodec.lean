import AudioAtoms.Proofs.HexFields
import AudioAtoms.Proofs.Visit

/-!
# Text and its octets

Text that was encoded is decoded to itself. Octets that are decoded give at most three times as many
octets of text. A gapless value writes its numbers in base sixteen with
eight digits each, set apart by blanks; its fields are read back as these numbers.
-/
namespace AudioAtoms

namespace Text

theorem toList_loop (b : ByteArray) (i : Nat) (r : List UInt8) :
    ByteArray.toList.loop b i r = r.reverse ++ b.data.toList.drop i := by
  induction i, r using ByteArray.toList.loop.induct b with
  | case1 i r h ih =>
    have hget : b.get! i = b.data.toList[i] := by
      rw [ByteArray.get!, getElem!_pos b.data i h]
      rfl
    rw [ByteArray.toList.loop, if_pos h, ih,
      List.drop_eq_getElem_cons (show i < b.data.toList.length from h), hget]
    simp
  | case2 i r h =>
    rw [ByteArray.toList.loop, if_neg h, List.drop_eq_nil_of_le (Nat.le_of_not_lt h),
      List.append_nil]

theorem encode_eq (s : String) : encode s = s.toByteArray.data.toList := by
  rw [encode, String.toUTF8_eq_toByteArray, ByteArray.toList, toList_loop]
  rfl

theorem encode_cons (c : Char) (cs : List Char) :
    encode (String.ofList (c :: cs)) = String.utf8EncodeChar c ++ encode (String.ofList cs) := by
  rw [encode_eq, encode_eq, String.toByteArray_ofList, String.toByteArray_ofList,
    List.utf8Encode_cons, List.utf8Encode_singleton, ByteArray.toList_data_append,
    List.toList_data_toByteArray]

theorem encode_nil : encode (String.ofList []) = [] := by
  rw [encode_eq, String.toByteArray_ofList, List.utf8Encode_nil]
  rfl

theorem firstChar_append (c : Char) (bs : Bytes) :
    firstChar? (String.utf8EncodeChar c ++ bs) = some c := by
  have hsize : (String.utf8EncodeChar c).length ≤ 4 := by
    rw [String.length_utf8EncodeChar]
    exact c.utf8Size_le_four
  rw [firstChar?, List.take_append, List.take_of_length_le hsize, List.toByteArray_append]
  exact ByteArray.utf8DecodeChar?_utf8EncodeChar_append

theorem decodeChars_encode_append (cs : List Char) (bs : Bytes) :
    decodeChars (encode (String.ofList cs) ++ bs) = cs ++ decodeChars bs := by
  induction cs with
  | nil => rw [encode_nil, List.nil_append, List.nil_append]
  | cons c cs ih =>
    have hfirst := firstChar_append c (encode (String.ofList cs) ++ bs)
    have hdrop : (String.utf8EncodeChar c ++ (encode (String.ofList cs) ++ bs)).drop c.utf8Size =
        encode (String.ofList cs) ++ bs := by
      rw [← String.length_utf8EncodeChar, List.drop_left]
    rw [encode_cons, List.append_assoc]
    cases hb : String.utf8EncodeChar c ++ (encode (String.ofList cs) ++ bs) with
    | nil => simp at hb
    | cons b rest =>
      rw [hb] at hfirst hdrop
      rw [decodeChars, hfirst]
      simp only [hdrop, ih, List.cons_append]

theorem decodeChars_encode (cs : List Char) :
    decodeChars (encode (String.ofList cs)) = cs := by
  have h := decodeChars_encode_append cs []
  rwa [List.append_nil, decodeChars, List.append_nil] at h

/-- Decoding undoes encoding. -/
theorem decode_encode (s : String) : decode (encode s) = s := by
  have h := decodeChars_encode s.toList
  rw [String.ofList_toList] at h
  rw [decode, h, String.ofList_toList]

/-- Octets in which nothing was replaced are those of their text. -/
theorem encode_decode {bs : Bytes} (h : Char.ofNat 0xFFFD ∉ (decode bs).toList) :
    encode (decode bs) = bs := by
  unfold decode at h ⊢
  rw [String.toList_ofList] at h
  fun_induction decodeChars bs with
  | case1 => exact encode_nil
  | case2 b rest c hfirst ih =>
    obtain ⟨tail, htail⟩ := ByteArray.exists_of_utf8DecodeChar?_eq_some hfirst
    have htake : (b :: rest).take c.utf8Size = String.utf8EncodeChar c := by
      have hlist := congrArg (·.data.toList) htail
      simp only [List.toList_data_toByteArray, ByteArray.toList_data_append] at hlist
      have hcut := congrArg (List.take c.utf8Size) hlist
      rw [List.take_take, Nat.min_eq_left c.utf8Size_le_four] at hcut
      rw [hcut, List.take_left' (String.length_utf8EncodeChar c)]
    rw [encode_cons, ih fun hmem => h (List.mem_cons_of_mem c hmem), ← htake, List.take_append_drop]
  | case3 b rest hfirst ih => exact absurd List.mem_cons_self h

theorem decode_eq_iff {bs : Bytes} {s : String} (h : Char.ofNat 0xFFFD ∉ s.toList) :
    decode bs = s ↔ bs = encode s := by
  constructor
  · rintro rfl
    exact (encode_decode h).symm
  · rintro rfl
    exact decode_encode s

/-- Text of ASCII characters takes one octet for each of them. -/
theorem encode_ascii (cs : List Char) (h : ∀ c ∈ cs, c.toNat < 128) :
    encode (String.ofList cs) = cs.map fun c => c.toNat.toUInt8 := by
  induction cs with
  | nil => exact encode_nil
  | cons c cs ih =>
    have hc : c.val.toNat < 128 := h c (by simp)
    have hsize : c.utf8Size = 1 := by
      rw [Char.utf8Size_eq_one_iff, UInt32.le_iff_toNat_le]
      exact Nat.le_of_lt_succ hc
    rw [encode_cons, String.utf8EncodeChar_eq_singleton hsize,
      ih fun d hd => h d (List.mem_cons_of_mem c hd)]
    rfl

/-- An octet gives at most three octets of text: those of the replacement character. -/
theorem length_encode_decode_le (bs : Bytes) : (encode (decode bs)).length ≤ 3 * bs.length := by
  unfold decode
  fun_induction decodeChars bs with
  | case1 => rw [encode_nil]; exact Nat.zero_le _
  | case2 b rest c hfirst ih =>
    have hsize : c.utf8Size ≤ (b :: rest).length := by
      have hle := ByteArray.le_size_of_utf8DecodeChar?_eq_some hfirst
      rw [List.size_toByteArray, List.length_take] at hle
      omega
    rw [encode_cons, List.length_append, String.length_utf8EncodeChar]
    rw [List.length_drop] at ih
    omega
  | case3 b rest hfirst ih =>
    have hpos := brokenLength_pos (b :: rest)
    have hreplacement : (Char.ofNat 0xFFFD).utf8Size = 3 := by decide
    rw [encode_cons, List.length_append, String.length_utf8EncodeChar, hreplacement]
    rw [List.length_drop] at ih
    rw [List.length_cons] at ih ⊢
    omega

/-- The digits of a number are ASCII characters. -/
theorem toNat_lt_of_mem_digits {n : Nat} {c : Char} (h : c ∈ (toString n).toList) :
    c.toNat < 128 := by
  have hmem : c ∈ n.repr.toList := h
  rw [Nat.toList_repr] at hmem
  have hdigit := Nat.isDigit_of_mem_toDigits (by decide) (by decide) hmem
  simp only [Char.isDigit, Bool.and_eq_true, decide_eq_true_eq] at hdigit
  have hle : c.val.toNat ≤ 57 := UInt32.le_iff_toNat_le.mp hdigit.2
  exact Nat.lt_of_le_of_lt hle (by decide)

/-- A number of 16 bits has five digits at most, each of one octet. -/
theorem length_encode_numbering_le {m n : Nat} (hm : m ≤ 65535) (hn : n ≤ 65535) :
    (encode s!"{m}/{n}").length ≤ 11 := by
  have hm5 : (toString m).length ≤ 5 := (Nat.length_repr_le_iff (by decide)).2 (by omega)
  have hn5 : (toString n).length ≤ 5 := (Nat.length_repr_le_iff (by decide)).2 (by omega)
  have hchars : ∀ c ∈ (s!"{m}/{n}").toList, c.toNat < 128 := by
    intro c hc
    simp only [String.toList_append, List.mem_append] at hc
    obtain (hc | hc) | hc := hc
    · exact toNat_lt_of_mem_digits hc
    · have hslash : (toString "/").toList = ['/'] := rfl
      rw [hslash, List.mem_singleton] at hc
      rw [hc]
      decide
    · exact toNat_lt_of_mem_digits hc
  have hencode := encode_ascii (s!"{m}/{n}").toList hchars
  have hslash : (toString "/").length = 1 := rfl
  rw [String.ofList_toList] at hencode
  rw [hencode, List.length_map, String.length_toList]
  simp only [String.length_append]
  omega

end Text

theorem Bytes.untilNul_eq {bs : Bytes} (h : 0 ∉ bs) : bs.untilNul = bs := by
  refine List.takeWhile_eq_self_iff.mpr fun b hb => ?_
  have hne : b ≠ 0 := fun h0 => h (h0 ▸ hb)
  simp [hne]

namespace Gapless

def digit (d : Nat) : Char := (Nat.digitChar d).toUpper

def word : Nat → Nat → List Char
  | 0, _ => []
  | width + 1, n => word width (n / 16) ++ [digit (n % 16)]

theorem digit_spec : ∀ d < 16, Hex.isDigit (digit d) = true ∧ Hex.place (digit d) = d := by
  decide

theorem writer_word : Digits.Writer 16 Hex.place (fun n => digit (n % 16)) word where
  zero := fun _ => rfl
  succ := fun _ _ => rfl
  digit_last := fun n => (digit_spec (n % 16) (Nat.mod_lt n (by decide))).2

theorem length_word (width n : Nat) : (word width n).length = width :=
  writer_word.length_eq width n

theorem isDigit_word (width n : Nat) : ∀ c ∈ word width n, Hex.isDigit c = true := by
  intro c hc
  obtain ⟨m, rfl⟩ := writer_word.exists_eq_last hc
  exact (digit_spec (m % 16) (Nat.mod_lt m (by decide))).1

theorem value_word (width n : Nat) : Hex.value (word width n) = n % 16 ^ width :=
  writer_word.value_eq width n

/-- The digits of a number of 32 bits are read back as the number. -/
theorem hexWord_word {n : Nat} (hn : n < 2 ^ 32) : Freeform.hexWord (word 8 n) = n := by
  rw [Hex.hexWord_digits (isDigit_word 8 n), value_word, Nat.mod_mod, Nat.mod_eq_of_lt hn]

/-- A gapless value: a field that is not used, the samples to drop at the start, and those to drop
at the end. -/
def text (lead tail : Nat) : List Char :=
  ' ' :: (word 8 0 ++ ' ' :: (word 8 lead ++ ' ' :: word 8 tail))

/-- The fields of a gapless value are its three words. -/
theorem fields_text (lead tail : Nat) :
    Text.fields (text lead tail) = [word 8 0, word 8 lead, word 8 tail] := by
  have hblank : Text.isSeparator ' ' = true := by decide
  have hne (n : Nat) : word 8 n ≠ [] := List.ne_nil_of_length_pos (by rw [length_word]; decide)
  have hword (n : Nat) (rest : List Char) (h : ∀ c ∈ rest.head?, Text.isSeparator c = true) :
      Text.fields (word 8 n ++ rest) = word 8 n :: Text.fields rest :=
    Text.fields_token_append (Hex.digitToken (word 8 n) (hne n) (isDigit_word 8 n)) rest h
  have hlast : Text.fields (word 8 tail) = [word 8 tail] := by
    simpa using hword tail [] (by simp)
  rw [text, Text.fields_separator_cons hblank, hword 0 _ (by simp [hblank]),
    Text.fields_separator_cons hblank, hword lead _ (by simp [hblank]),
    Text.fields_separator_cons hblank, hlast]

/-- The fields of a gapless value are the numbers it was made of. -/
theorem gaplessField_text (lead tail : Nat) (hl : lead < 2 ^ 32) (ht : tail < 2 ^ 32) :
    Freeform.gaplessField (String.ofList (text lead tail)) 1 = lead ∧
      Freeform.gaplessField (String.ofList (text lead tail)) 2 = tail := by
  simp only [Freeform.gaplessField, String.toList_ofList, fields_text]
  exact ⟨hexWord_word hl, hexWord_word ht⟩

/-- The octets of a gapless value are few enough to be looked at, and none of them is zero. -/
theorem encode_text (lead tail : Nat) :
    (Text.encode (String.ofList (text lead tail))).length ≤ ReadTag.maxGaplessSize ∧
      0 ∉ Text.encode (String.ofList (text lead tail)) := by
  have hchar : ∀ c ∈ text lead tail, 0 < c.toNat ∧ c.toNat < 128 := by
    have hword (n : Nat) : ∀ c ∈ word 8 n, 0 < c.toNat ∧ c.toNat < 128 :=
      fun c hc => Hex.toNat_bounds (isDigit_word 8 n c hc)
    intro c hc
    simp only [text, List.mem_cons, List.mem_append] at hc
    obtain rfl | hc | rfl | hc | rfl | hc := hc
    · decide
    · exact hword _ c hc
    · decide
    · exact hword _ c hc
    · decide
    · exact hword _ c hc
  rw [Text.encode_ascii _ fun c hc => (hchar c hc).2]
  constructor
  · simp [text, length_word, ReadTag.maxGaplessSize]
  · intro h0
    obtain ⟨c, hc, hzero⟩ := List.mem_map.mp h0
    obtain ⟨hpos, hlt⟩ := hchar c hc
    have hnat := congrArg UInt8.toNat hzero
    simp at hnat
    omega

end Gapless

end AudioAtoms
