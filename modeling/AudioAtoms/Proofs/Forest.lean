import AudioAtoms.Proofs.Digits
import AudioAtoms.Proofs.TagContent

/-!
# Atom trees and their octets

A forest is a row of atoms, some of which hold forests of their own. Its octets are those of a file
in which every atom declares its true size. The octets of an atom are read back as its header and
its payload, whatever stands behind them.
-/
namespace AudioAtoms

namespace Bytes

def ofNat : Nat → Nat → Bytes
  | 0, _ => []
  | width + 1, n => ofNat width (n / 256) ++ [UInt8.ofNat n]

theorem writer_ofNat : Digits.Writer 256 UInt8.toNat UInt8.ofNat ofNat where
  zero := fun _ => rfl
  succ := fun _ _ => rfl
  digit_last := fun _ => UInt8.toNat_ofNat'

@[simp] theorem length_ofNat (width n : Nat) : (ofNat width n).length = width :=
  writer_ofNat.length_eq width n

theorem toNat_ofNat (width n : Nat) (h : n < 256 ^ width) : toNat (ofNat width n) = n :=
  (writer_ofNat.value_eq width n).trans (Nat.mod_eq_of_lt h)

end Bytes

/-- The atoms whose payload is a row of atoms, behind some fixed octets. -/
inductive Container where
  | movie | userData | track | media | mediaInfo | sampleTable | sampleDescription | metadata
deriving DecidableEq, Repr

namespace Container

def kind : Container → Kind
  | movie => .movie
  | userData => .userData
  | track => .track
  | media => .media
  | mediaInfo => .mediaInfo
  | sampleTable => .sampleTable
  | sampleDescription => .sampleDescription
  | metadata => .metadata

def fixedSize : Container → Nat
  | sampleDescription => 8
  | metadata => 4
  | _ => 0

end Container

def Kind.isLeaf : Kind → Bool
  | .movie | .userData | .track | .media | .mediaInfo | .sampleTable | .sampleDescription
  | .metadata | .tagList => false
  | _ => true

abbrev LeafCode := { code : Code // (Kind.ofCode code).isLeaf = true }

structure TagAtom where
  code : Code
  payload : Bytes
deriving DecidableEq, Repr

/-- A row of atoms: the first one, what is in it, and the row behind it. -/
inductive Forest where
  | nil
  | leaf (code : LeafCode) (payload : Bytes) (next : Forest)
  | tagList (tags : List TagAtom) (next : Forest)
  | container (kind : Container) (fixed : Vector UInt8 kind.fixedSize) (inner next : Forest)

def Atom.octets (code : Code) (payload : Bytes) : Bytes :=
  Bytes.ofNat 4 (Header.minSize + payload.length) ++ (code.toBytes ++ payload)

theorem Atom.length_octets (code : Code) (payload : Bytes) :
    (octets code payload).length = Header.minSize + payload.length := by
  simp only [octets, List.length_append, Bytes.length_ofNat, Code.toBytes, List.length_cons,
    List.length_nil, Header.minSize]
  omega

theorem Content.numberAt_append (front tail : Bytes) (width n : Nat) (h : n < 256 ^ width) :
    numberAt (front ++ (Bytes.ofNat width n ++ tail)) front.length width = n := by
  have hlen := Bytes.length_ofNat width n
  have htake : (Bytes.ofNat width n ++ tail).take width = Bytes.ofNat width n := by
    rw [List.take_append_of_le_length (by omega), List.take_of_length_le (by omega)]
  rw [numberAt, List.drop_left, htake, Bytes.toNat_ofNat width n h]

theorem Atom.numberAt_octets (code : Code) (payload tail : Bytes)
    (h : Header.minSize + payload.length < 2 ^ 32) :
    Content.numberAt (octets code payload ++ tail) 0 4 = Header.minSize + payload.length := by
  rw [octets, List.append_assoc]
  exact Content.numberAt_append [] _ 4 _ (by simpa using h)

def TagList.octets : List TagAtom → Bytes
  | [] => []
  | tag :: tags => Atom.octets tag.code tag.payload ++ octets tags

namespace Forest

def octets : Forest → Bytes
  | nil => []
  | leaf code payload next => Atom.octets code payload ++ next.octets
  | tagList tags next => Atom.octets Kind.tagList.code (TagList.octets tags) ++ next.octets
  | container kind fixed inner next =>
    Atom.octets kind.kind.code (fixed.toList ++ inner.octets) ++ next.octets

/-- Every size fits into the four octets it has. -/
def WellSized : Forest → Prop
  | nil => True
  | leaf _ payload next => Header.minSize + payload.length < 2 ^ 32 ∧ next.WellSized
  | tagList tags next =>
    Header.minSize + (TagList.octets tags).length < 2 ^ 32 ∧ next.WellSized
  | container _ fixed inner next =>
    Header.minSize + (fixed.toList ++ inner.octets).length < 2 ^ 32 ∧ inner.WellSized ∧
      next.WellSized

instance : (f : Forest) → Decidable f.WellSized
  | nil => inferInstanceAs (Decidable True)
  | leaf _ payload next =>
    have := instDecidableWellSized next
    inferInstanceAs (Decidable (Header.minSize + payload.length < 2 ^ 32 ∧ next.WellSized))
  | tagList tags next =>
    have := instDecidableWellSized next
    inferInstanceAs (Decidable
      (Header.minSize + (TagList.octets tags).length < 2 ^ 32 ∧ next.WellSized))
  | container _ fixed inner next =>
    have := instDecidableWellSized inner
    have := instDecidableWellSized next
    inferInstanceAs (Decidable
      (Header.minSize + (fixed.toList ++ inner.octets).length < 2 ^ 32 ∧ inner.WellSized ∧
        next.WellSized))

def depth : Forest → Nat
  | nil => 0
  | leaf _ _ next | tagList _ next => next.depth
  | container _ _ inner next => max (inner.depth + 1) next.depth

end Forest

namespace Slice
variable {bounded : Bool} (pos : Nat) (front tail : Bytes)

theorem exec_skip_append :
    (Read.skip front.length : Read bounded Unit).exec (Slice.mk pos (front ++ tail)) =
      (.ok (), ⟨pos + front.length, tail⟩) := by
  rw [Read.exec_skip, supplies.skip _ _ _ (by simp), List.drop_left]

end Slice

namespace Header

def narrowOctets (code : Code) (n : Nat) : Bytes := Bytes.ofNat 4 (8 + n) ++ code.toBytes

def wideOctets (code : Code) (n : Nat) : Bytes :=
  Bytes.ofNat 4 1 ++ (code.toBytes ++ Bytes.ofNat 8 (16 + n))

section Written
variable (budget : Nat) (code : Code) {n : Nat} (tail : Bytes)

theorem ofOctets_narrowOctets (h : 8 + n < 2 ^ 32) :
    ofOctets budget (narrowOctets code n ++ tail) = ⟨.ofCode code, false, n⟩ := by
  have hsize : Bytes.toNat ((narrowOctets code n ++ tail).take 4) = 8 + n := by
    rw [narrowOctets, List.append_assoc]
    exact Content.numberAt_append [] _ 4 _ h
  have hcode : Code.ofBytes (((narrowOctets code n ++ tail).drop 4).take 4) = code := rfl
  rw [ofOctets_narrow (by omega), hsize, hcode, if_neg (by omega), Nat.add_sub_cancel_left]

theorem ofOctets_wideOctets (h : 16 + n < 2 ^ 64) :
    ofOctets budget (wideOctets code n ++ tail) = ⟨.other ⟨0, 0, 0, 0⟩, true, n⟩ := by
  have hsize : Bytes.toNat (((wideOctets code n ++ tail).drop 8).take 8) = 16 + n :=
    Content.numberAt_append [] tail 8 _ h
  rw [ofOctets_wide rfl, hsize, Nat.max_eq_left (by omega), Nat.add_sub_cancel_left]

end Written

/-- A header that is written in front of octets in memory is read from there. -/
theorem exec_read_append {budget pos : Nat} {front tail : Bytes} {h : Header}
    (hh : ofOctets budget (front ++ tail) = h) (hlen : front.length = h.ownSize) :
    (Header.read budget : Read false Header).exec (Slice.mk pos (front ++ tail)) =
      (.ok h, ⟨pos + h.ownSize, tail⟩) := by
  have hahead : (Slice.feed : Feed false Slice).ahead ⟨pos, front ++ tail⟩ = front ++ tail := rfl
  obtain ⟨t, hread, ht, htail⟩ := exec_read_written trivial hahead hh hlen
  have hpos : t.pos = pos + h.ownSize := ht.pos
  rw [hread, ← htail, ← hpos]
  rfl

/-- The header of an atom that declares its true size. -/
theorem exec_read_octets (code : Code) (payload : Bytes) (budget pos : Nat) (tail : Bytes)
    (h : minSize + payload.length < 2 ^ 32) :
    (Header.read budget : Read false Header).exec
        (Slice.mk pos (Atom.octets code payload ++ tail)) =
      (.ok ⟨.ofCode code, false, payload.length⟩, ⟨pos + minSize, payload ++ tail⟩) := by
  have hoctets : Atom.octets code payload ++ tail =
      narrowOctets code payload.length ++ (payload ++ tail) := by
    simp only [Atom.octets, narrowOctets, minSize, List.append_assoc]
  rw [hoctets]
  exact exec_read_append (ofOctets_narrowOctets budget code (payload ++ tail) h) rfl

end Header

end AudioAtoms
