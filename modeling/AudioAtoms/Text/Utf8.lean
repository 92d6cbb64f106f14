import AudioAtoms.Bytes

/-!
# Text from octets

Octets are read as UTF-8. Where they are not well formed, the longest stretch that could still have
begun a character is replaced by one U+FFFD, and reading goes on behind it.
-/
namespace AudioAtoms.Text

def firstChar? (bs : Bytes) : Option Char :=
  (bs.take 4).toByteArray.utf8DecodeChar? 0

def isTail (b : UInt8) : Bool := 0x80 ≤ b && b ≤ 0xBF

/-- Whether `second` may follow `lead` in the encoding of some character of three or four octets. -/
def mayFollow (lead second : UInt8) : Bool :=
  if lead = 0xE0 then 0xA0 ≤ second && second ≤ 0xBF
  else if lead = 0xED then 0x80 ≤ second && second ≤ 0x9F
  else if lead = 0xF0 then 0x90 ≤ second && second ≤ 0xBF
  else if lead = 0xF4 then 0x80 ≤ second && second ≤ 0x8F
  else 0xE1 ≤ lead && lead ≤ 0xF3 && isTail second

/-- How many octets at the front of ill-formed text are replaced together. -/
def brokenLength : Bytes → Nat
  | lead :: second :: third :: _ =>
    if mayFollow lead second then if 0xF0 ≤ lead && isTail third then 3 else 2 else 1
  | [lead, second] => if mayFollow lead second then 2 else 1
  | _ => 1

theorem brokenLength_pos (bs : Bytes) : 0 < brokenLength bs := by
  unfold brokenLength
  repeat' split
  all_goals decide

def decodeChars (bs : Bytes) : List Char :=
  match bs with
  | [] => []
  | b :: rest =>
    match firstChar? (b :: rest) with
    | some c => c :: decodeChars ((b :: rest).drop c.utf8Size)
    | none => Char.ofNat 0xFFFD :: decodeChars ((b :: rest).drop (brokenLength (b :: rest)))
termination_by bs.length
decreasing_by
  · have := c.utf8Size_pos
    simp only [List.length_drop, List.length_cons]; omega
  · have := brokenLength_pos (b :: rest)
    simp only [List.length_drop, List.length_cons]; omega

/-- Reads octets as text. Every octet is accounted for: it belongs to a character or to a
replaced stretch. -/
def decode (bs : Bytes) : String :=
  String.ofList (decodeChars bs)

def decode? (bs : Bytes) : Option String :=
  String.fromUTF8? bs.toByteArray

def encode (s : String) : Bytes :=
  s.toUTF8.toList

end AudioAtoms.Text
