import Mathlib
import AudioAtoms.Proofs.Digits
import AudioAtoms.Tag.Freeform

/-!
# Fields to base sixteen

A gapless value is a text of tokens, set apart by separators of any kind and number. Its fields are
these tokens. A field tells the number that its longest front of digits to base sixteen writes, as
far as 32 bits hold it. So numbers of 32 bits are read back from a text of them, whatever zeros
stand before their digits and whatever case their letters have.
-/
namespace AudioAtoms

namespace Text

structure Blanks where
  chars : List Char
  separate : ∀ c ∈ chars, isSeparator c = true

structure Gap extends Blanks where
  ne_nil : chars ≠ []

structure Token where
  chars : List Char
  ne_nil : chars ≠ []
  solid : ∀ c ∈ chars, isSeparator c = false

/-- Tokens with gaps between them, each gap with the number of the token before it. -/
def spaced (gap : Nat → Gap) : List Token → List Char
  | [] => []
  | [token] => token.chars
  | token :: next :: tokens =>
    token.chars ++ ((gap 0).chars ++ spaced (fun i => gap (i + 1)) (next :: tokens))

structure Spacing where
  lead : Blanks
  gap : Nat → Gap
  trail : Blanks

def Spacing.text (s : Spacing) (tokens : List Token) : String :=
  String.ofList (s.lead.chars ++ (spaced s.gap tokens ++ s.trail.chars))

theorem pieces_eq_splitOnP (cs : List Char) : pieces cs = cs.splitOnP isSeparator := by
  induction cs with
  | nil => rfl
  | cons c cs ih =>
    rw [pieces, List.splitOnP_cons_eq_if_modifyHead, ih]
    split
    · rfl
    · cases h : cs.splitOnP isSeparator with
      | nil => exact absurd h (List.splitOnP_ne_nil _ _)
      | cons piece rest => rfl

@[simp] theorem fields_nil : fields [] = [] := rfl

theorem fields_separator_cons {c : Char} (hc : isSeparator c = true) (rest : List Char) :
    fields (c :: rest) = fields rest := by
  rw [fields, pieces, if_pos hc, List.filter_cons_of_neg (by simp)]
  rfl

/-- Separators before a text make no fields. -/
theorem fields_blanks_append (blanks : Blanks) (rest : List Char) :
    fields (blanks.chars ++ rest) = fields rest := by
  obtain ⟨chars, hchars⟩ := blanks
  induction chars with
  | nil => rfl
  | cons c chars ih =>
    rw [List.cons_append, fields_separator_cons (hchars c List.mem_cons_self)]
    exact ih fun d hd => hchars d (List.mem_cons_of_mem c hd)

/-- A token that ends at a separator or with the text is a field. -/
theorem fields_token_append (token : Token) (rest : List Char)
    (h : ∀ c ∈ rest.head?, isSeparator c = true) :
    fields (token.chars ++ rest) = token.chars :: fields rest := by
  cases rest with
  | nil =>
    rw [List.append_nil, fields, pieces_eq_splitOnP, List.splitOnP_eq_singleton token.solid,
      List.filter_cons_of_pos (by simp [token.ne_nil])]
    rfl
  | cons c rest =>
    have hc : isSeparator c = true := h c rfl
    rw [fields_separator_cons hc, fields, pieces_eq_splitOnP,
      List.splitOnP_append_cons_of_forall_mem token.solid c hc,
      List.filter_cons_of_pos (by simp [token.ne_nil]), ← pieces_eq_splitOnP, fields]

theorem Blanks.separate_head? (blanks : Blanks) : ∀ c ∈ blanks.chars.head?, isSeparator c = true :=
  fun c hc => blanks.separate c (List.mem_of_mem_head? hc)

theorem fields_spaced (gap : Nat → Gap) (tokens : List Token) (trail : Blanks) :
    fields (spaced gap tokens ++ trail.chars) = tokens.map Token.chars := by
  have htrail : fields trail.chars = [] := by
    have h := fields_blanks_append trail []
    rwa [List.append_nil, fields_nil] at h
  induction tokens generalizing gap with
  | nil => exact htrail
  | cons token tokens ih =>
    cases tokens with
    | nil =>
      rw [spaced, fields_token_append token _ trail.separate_head?, htrail]
      rfl
    | cons next tokens =>
      have hgap (rest : List Char) :
          ∀ c ∈ ((gap 0).chars ++ rest).head?, isSeparator c = true := by
        rw [List.head?_append_of_ne_nil _ (gap 0).ne_nil]
        exact (gap 0).separate_head?
      rw [spaced, List.append_assoc, List.append_assoc, fields_token_append token _ (hgap _),
        fields_blanks_append, ih]
      rfl

/-- The fields of a text of tokens are the tokens. -/
theorem Spacing.fields_text (s : Spacing) (tokens : List Token) :
    fields (s.text tokens).toList = tokens.map Token.chars := by
  rw [text, String.toList_ofList, fields_blanks_append, fields_spaced]

end Text

namespace Hex

def digits : List Char :=
  ['0', '1', '2', '3', '4', '5', '6', '7', '8', '9', 'a', 'b', 'c', 'd', 'e', 'f']

def isDigit (c : Char) : Bool := digits.contains c.toLower

def place (c : Char) : Nat := digits.idxOf c.toLower

def value (cs : List Char) : Nat := Digits.value 16 place cs

def push (w : UInt32) (c : Char) : UInt32 := w <<< 4 ||| UInt32.ofNat (place c)

/-- The longest part of a text that starts it and is made of digits. -/
structure Leading (front cs : List Char) : Prop where
  starts : front <+: cs
  allDigits : ∀ c ∈ front, isDigit c = true
  longest : ∀ other, other <+: cs → (∀ c ∈ other, isDigit c = true) → other.length ≤ front.length

section Digits
variable {c : Char}

/-- Digits have codes of seven bits. -/
theorem toNat_bounds (hc : isDigit c = true) : 0 < c.toNat ∧ c.toNat < 128 := by
  have hmem : c.toLower ∈ digits := List.contains_iff_mem.mp hc
  by_cases hletter : c.val ≥ 'A'.val ∧ c.val ≤ 'Z'.val
  · exact ⟨Nat.lt_of_lt_of_le (by decide) (UInt32.le_iff_toNat_le.mp hletter.1),
      Nat.lt_of_le_of_lt (UInt32.le_iff_toNat_le.mp hletter.2) (by decide)⟩
  · have hall : digits.all (fun d => 0 < d.toNat ∧ d.toNat < 128) = true := by decide
    rw [Char.toLower, dif_neg hletter] at hmem
    exact of_decide_eq_true (List.all_eq_true.mp hall c hmem)

theorem hexDigit?_eq (c : Char) :
    Freeform.hexDigit? c = if isDigit c then some (place c) else none := by
  by_cases h : c.toNat < 128
  · have hcodes : ∀ n < 128, Freeform.hexDigit? (Char.ofNat n) =
        if isDigit (Char.ofNat n) then some (place (Char.ofNat n)) else none := by
      decide +kernel
    rw [← Char.ofNat_toNat c]
    exact hcodes c.toNat h
  · have hbeyond (d : Char) (hd : d.toNat < 128) : ¬ c ≤ d := fun hle =>
      h (Nat.lt_of_le_of_lt (UInt32.le_iff_toNat_le.mp hle) hd)
    rw [if_neg fun hc => h (toNat_bounds hc).2, Freeform.hexDigit?,
      if_neg fun hc => hbeyond '9' (by decide) hc.2, if_neg fun hc => hbeyond 'f' (by decide) hc.2,
      if_neg fun hc => hbeyond 'F' (by decide) hc.2]

theorem place_lt (hc : isDigit c = true) : place c < 16 :=
  List.idxOf_lt_length_of_mem (List.contains_iff_mem.mp hc)

theorem isSeparator_eq_false (hc : isDigit c = true) : Text.isSeparator c = false := by
  by_contra h
  simp only [Text.isSeparator, Bool.not_eq_false, Bool.or_eq_true, decide_eq_true_eq] at h
  obtain (((rfl | rfl) | rfl) | rfl) | rfl := h <;> revert hc <;> decide

/-- A digit is taken in as it is added to sixteen times the number before it, in 32 bits. -/
theorem toNat_push (hc : isDigit c = true) (w : UInt32) :
    (push w c).toNat = (w.toNat * 16 + place c) % 2 ^ 32 := by
  have hplace := place_lt hc
  have hlow : (UInt32.ofNat (place c)).toNat = place c := by
    rw [UInt32.toNat_ofNat']
    omega
  have hshift : (w <<< 4).toNat = 2 ^ 4 * (w.toNat % 2 ^ 28) := by
    rw [UInt32.toNat_shiftLeft]
    change w.toNat <<< 4 % 2 ^ 32 = _
    rw [Nat.shiftLeft_eq]
    omega
  rw [push, UInt32.toNat_or, hshift, hlow, ← Nat.two_pow_add_eq_or_of_lt hplace]
  omega

end Digits

section Words
variable {front front' cs : List Char}

/-- Digits that are taken into a word are added to a number alike, as far as 32 bits go. -/
theorem toNat_foldl_push (h : ∀ c ∈ cs, isDigit c = true) {w : UInt32} {n : Nat}
    (hw : w.toNat = n % 2 ^ 32) :
    (cs.foldl push w).toNat = cs.foldl (fun n c => n * 16 + place c) n % 2 ^ 32 := by
  induction cs generalizing w n with
  | nil => exact hw
  | cons c cs ih =>
    refine ih (fun d hd => h d (List.mem_cons_of_mem c hd)) ?_
    rw [toNat_push (h c List.mem_cons_self), hw, Nat.add_mod, Nat.mod_mul_mod, ← Nat.add_mod]

/-- A word that takes in digits holds the number they write, as far as 32 bits go. -/
theorem toNat_foldl_push_zero (h : ∀ c ∈ cs, isDigit c = true) :
    (cs.foldl push 0).toNat = value cs % 2 ^ 32 :=
  toNat_foldl_push h rfl

/-- The number that a field adds up is the one that the word holds. -/
theorem foldl_hexDigit? (h : ∀ c ∈ cs, isDigit c = true) (w : UInt32) :
    cs.foldl (fun n c => (n * 16 + (Freeform.hexDigit? c).getD 0) % 2 ^ 32) w.toNat =
      (cs.foldl push w).toNat := by
  induction cs generalizing w with
  | nil => rfl
  | cons c cs ih =>
    have hc : isDigit c = true := h c List.mem_cons_self
    rw [List.foldl_cons, List.foldl_cons, ← ih fun d hd => h d (List.mem_cons_of_mem c hd),
      toNat_push hc, hexDigit?_eq, if_pos hc, Option.getD_some]

theorem leading_takeWhile (cs : List Char) : Leading (cs.takeWhile isDigit) cs where
  starts := List.takeWhile_prefix _
  allDigits := fun c hc => List.mem_takeWhile_imp hc
  longest := by
    rintro other ⟨rest, rfl⟩ hother
    rw [List.takeWhile_append_of_pos hother, List.length_append]
    exact Nat.le_add_right _ _

theorem Leading.unique (h : Leading front cs) (h' : Leading front' cs) : front = front' := by
  have hle := h.longest front' h'.starts h'.allDigits
  have hge := h'.longest front h.starts h.allDigits
  exact (List.prefix_of_prefix_length_le h.starts h'.starts hge).eq_of_length
    (Nat.le_antisymm hge hle)

/-- A field is the word that takes in its leading digits. -/
theorem hexWord_eq (cs : List Char) :
    Freeform.hexWord cs = ((cs.takeWhile isDigit).foldl push 0).toNat := by
  have hisDigit : (fun c => (Freeform.hexDigit? c).isSome) = isDigit := by
    funext c
    rw [hexDigit?_eq]
    cases isDigit c <;> rfl
  rw [Freeform.hexWord, hisDigit]
  exact foldl_hexDigit? (leading_takeWhile cs).allDigits 0

/-- Digits are read as the number they write, as far as 32 bits go. -/
theorem hexWord_digits (h : ∀ c ∈ cs, isDigit c = true) :
    Freeform.hexWord cs = value cs % 2 ^ 32 := by
  rw [hexWord_eq, List.takeWhile_eq_self_iff.mpr h, toNat_foldl_push_zero h]

end Words

section Written

theorem digitChar_spec : ∀ d < 16, Nat.digitChar d ∈ digits ∧ place (Nat.digitChar d) = d := by
  decide

theorem value_concat (cs : List Char) (c : Char) : value (cs ++ [c]) = value cs * 16 + place c := by
  simp [value, Digits.value]

theorem value_append (as bs : List Char) :
    value (as ++ bs) = value as * 16 ^ bs.length + value bs :=
  Digits.value_append 16 place as bs

/-- The digits of a number write it. -/
theorem toDigits_spec (n : Nat) :
    (∀ c ∈ Nat.toDigits 16 n, c ∈ digits) ∧ value (Nat.toDigits 16 n) = n := by
  induction n using Nat.strong_induction_on with
  | h n ih =>
    rw [Nat.toDigits_eq_if (by decide)]
    by_cases hn : n < 16
    · obtain ⟨hmem, hplace⟩ := digitChar_spec n hn
      rw [if_pos hn, ← List.nil_append [_], value_concat, hplace]
      exact ⟨by simpa using hmem, Nat.zero_add n⟩
    · obtain ⟨hmem, hplace⟩ := digitChar_spec (n % 16) (by omega)
      obtain ⟨hfront, hvalue⟩ := ih (n / 16) (by omega)
      rw [if_neg hn, value_concat, hplace, hvalue]
      refine ⟨fun c hc => ?_, by omega⟩
      obtain hc | hc := List.mem_append.mp hc
      · exact hfront c hc
      · rwa [List.mem_singleton.mp hc]

theorem value_replicate_zero (k : Nat) : value (List.replicate k '0') = 0 := by
  induction k with
  | zero => rfl
  | succ k ih =>
    rw [List.replicate_succ', value_concat, ih]
    rfl

/-- The value of digits is that of their lower case. -/
theorem value_eq_value_toLower (cs : List Char) :
    value cs = Digits.value 16 digits.idxOf (cs.map Char.toLower) := by
  rw [value, Digits.value, Digits.value, List.foldl_map]
  rfl

theorem toLower_digit {c : Char} (hc : c ∈ digits) : c.toLower = c ∧ c.toUpper.toLower = c := by
  have hall : digits.all (fun c => c.toLower = c ∧ c.toUpper.toLower = c) = true := by decide
  exact of_decide_eq_true (List.all_eq_true.mp hall c hc)

end Written

def digitToken (cs : List Char) (hne : cs ≠ []) (h : ∀ c ∈ cs, isDigit c = true) : Text.Token :=
  ⟨cs, hne, fun c hc => isSeparator_eq_false (h c hc)⟩

/-- A way to write a number of 32 bits: the width that zeros before it fill, and which of its
characters are capitals. -/
structure Spelling where
  number : UInt32
  width : Nat
  capital : Nat → Bool

namespace Spelling
variable (w : Spelling)

def lower : List Char := (Nat.toDigits 16 w.number.toNat).leftpad w.width '0'

def chars : List Char := w.lower.mapIdx fun i c => if w.capital i then c.toUpper else c

theorem mem_digits {c : Char} (hc : c ∈ w.lower) : c ∈ digits := by
  obtain hc | hc := List.mem_append.mp hc
  · rw [List.eq_of_mem_replicate hc]
    decide
  · exact (toDigits_spec w.number.toNat).1 c hc

theorem value_lower : value w.lower = w.number.toNat := by
  rw [lower, List.leftpad, value_append, value_replicate_zero, Nat.zero_mul, Nat.zero_add,
    (toDigits_spec w.number.toNat).2]

theorem map_toLower_lower : w.lower.map Char.toLower = w.lower :=
  (List.map_congr_left fun _ hc => (toLower_digit (w.mem_digits hc)).1).trans (List.map_id _)

theorem map_toLower_chars : w.chars.map Char.toLower = w.lower := by
  refine List.ext_getElem? fun i => ?_
  rw [List.getElem?_map, chars, List.getElem?_mapIdx]
  cases hi : w.lower[i]? with
  | none => rfl
  | some c =>
    obtain ⟨hlower, hupper⟩ := toLower_digit (w.mem_digits (List.mem_of_getElem? hi))
    cases w.capital i <;> simp [hlower, hupper]

theorem isDigit_chars : ∀ c ∈ w.chars, isDigit c = true := by
  intro c hc
  have hlower : c.toLower ∈ w.lower := w.map_toLower_chars ▸ List.mem_map_of_mem hc
  exact List.contains_iff_mem.mpr (w.mem_digits hlower)

theorem value_chars : value w.chars = w.number.toNat := by
  rw [value_eq_value_toLower, map_toLower_chars, ← map_toLower_lower, ← value_eq_value_toLower,
    value_lower]

theorem chars_ne_nil : w.chars ≠ [] := by
  have hdigits : Nat.toDigits 16 w.number.toNat ≠ [] := Nat.toDigits_ne_nil
  simp [chars, lower, List.leftpad, hdigits]

def token : Text.Token := digitToken w.chars w.chars_ne_nil w.isDigit_chars

/-- A number of 32 bits is read back however it is written. -/
theorem hexWord_chars : Freeform.hexWord w.chars = w.number.toNat := by
  rw [hexWord_digits w.isDigit_chars, value_chars, Nat.mod_eq_of_lt w.number.toNat_lt]

end Spelling

end Hex

namespace Freeform

theorem gaplessField_spaced (s : Text.Spacing) (tokens : List Text.Token) (index : Nat) :
    gaplessField (s.text tokens) index =
      (tokens[index]?.map fun token => hexWord token.chars).getD 0 := by
  rw [gaplessField, s.fields_text, List.getElem?_map, Option.map_map]
  rfl

/-- A field of a text of tokens is the number written by the longest front of its token that is made
of digits to base sixteen, modulo 2 ^ 32, and so zero where the token starts with no digit. A word
of 32 bits that takes in these digits holds it. A field behind the last token is zero. In a text of
numbers of 32 bits each field is its number, however it is written. -/
theorem gaplessField_reads_back (s : Text.Spacing) :
    (∀ (tokens : List Text.Token) (index : Nat) (token : Text.Token), tokens[index]? = some token →
      ∃ front, Hex.Leading front token.chars ∧
        gaplessField (s.text tokens) index = Hex.value front % 2 ^ 32 ∧
        gaplessField (s.text tokens) index = (front.foldl Hex.push 0).toNat) ∧
    (∀ (tokens : List Text.Token) (index : Nat), tokens.length ≤ index →
      gaplessField (s.text tokens) index = 0) ∧
    ∀ (spellings : List Hex.Spelling) (index : Nat),
      gaplessField (s.text (spellings.map Hex.Spelling.token)) index =
        (spellings[index]?.map fun w => w.number.toNat).getD 0 := by
  refine ⟨fun tokens index token htoken => ?_, fun tokens index hindex => ?_,
    fun spellings index => ?_⟩
  · have hleading := Hex.leading_takeWhile token.chars
    have hfield : gaplessField (s.text tokens) index =
        ((token.chars.takeWhile Hex.isDigit).foldl Hex.push 0).toNat := by
      rw [gaplessField_spaced, htoken, Option.map_some, Option.getD_some, Hex.hexWord_eq]
    exact ⟨_, hleading, hfield.trans (Hex.toNat_foldl_push_zero hleading.allDigits), hfield⟩
  · rw [gaplessField_spaced, List.getElem?_eq_none hindex]
    rfl
  · have hnumber : (fun token => hexWord token.chars) ∘ Hex.Spelling.token =
        fun w => w.number.toNat := funext Hex.Spelling.hexWord_chars
    rw [gaplessField_spaced, List.getElem?_map, Option.map_map, hnumber]

/-- Separators of all kinds, a field that goes on behind its digits, one that starts with none, and
one with more digits than 32 bits hold. Numbers with zeros before them and in mixed case. -/
theorem gaplessField_reads_back_mixed :
    ∃ (s : Text.Spacing) (tokens : List Text.Token) (spellings : List Hex.Spelling),
      s.text tokens = " 1c8x\t\r\nx12\x0c123456789aBcDeF0 \n" ∧ tokens.length = 3 ∧
      gaplessField (s.text tokens) 0 = 0x1c8 ∧ gaplessField (s.text tokens) 1 = 0 ∧
      gaplessField (s.text tokens) 2 = 0x9abcdef0 ∧ gaplessField (s.text tokens) 3 = 0 ∧
      s.text (spellings.map Hex.Spelling.token) = " 00000840\t\r\nDeAdBeEf \n" ∧
      gaplessField (s.text (spellings.map Hex.Spelling.token)) 0 = 0x840 ∧
      gaplessField (s.text (spellings.map Hex.Spelling.token)) 1 = 0xdeadbeef := by
  let s : Text.Spacing :=
    { lead := ⟨[' '], by simp [Text.isSeparator]⟩
      gap := fun i =>
        if i = 0 then ⟨⟨['\t', '\r', '\n'], by simp [Text.isSeparator]⟩, by simp⟩
        else ⟨⟨['\x0c'], by simp [Text.isSeparator]⟩, by simp⟩
      trail := ⟨[' ', '\n'], by simp [Text.isSeparator]⟩ }
  let tokens : List Text.Token :=
    [⟨"1c8x".toList, by simp, by simp [Text.isSeparator]⟩,
      ⟨"x12".toList, by simp, by simp [Text.isSeparator]⟩,
      ⟨"123456789aBcDeF0".toList, by simp, by simp [Text.isSeparator]⟩]
  let spellings : List Hex.Spelling := [⟨0x840, 8, fun _ => false⟩, ⟨0xdeadbeef, 0, (· % 2 == 0)⟩]
  obtain ⟨hfront, hbehind, hnumbers⟩ := gaplessField_reads_back s
  have hfield (index : Nat) (token : Text.Token) (h : tokens[index]? = some token) :
      gaplessField (s.text tokens) index =
        Hex.value (token.chars.takeWhile Hex.isDigit) % 2 ^ 32 := by
    obtain ⟨front, hleading, hvalue, -⟩ := hfront tokens index token h
    rw [hvalue, hleading.unique (Hex.leading_takeWhile token.chars)]
  refine ⟨s, tokens, spellings, rfl, rfl, (hfield 0 _ rfl).trans ?_, (hfield 1 _ rfl).trans ?_,
    (hfield 2 _ rfl).trans ?_, hbehind tokens 3 (Nat.le_refl 3), ?_, hnumbers spellings 0,
    hnumbers spellings 1⟩
  · decide +kernel
  · decide +kernel
  · decide +kernel
  · decide +kernel

end Freeform

end AudioAtoms
