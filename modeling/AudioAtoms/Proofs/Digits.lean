import Mathlib
import AudioAtoms.Bytes

/-!
# Numbers and their digits

A row of digits writes a number, most significant digit first, and a part of the row writes what
division and remainder leave of it. A writer of numbers with so many digits is read back, as far as
these go. Octets are digits to base 256, and bits are digits to base two.
-/
namespace AudioAtoms

namespace Digits
variable {α : Type}

def value (base : Nat) (digit : α → Nat) (ds : List α) : Nat :=
  ds.foldl (fun n d => n * base + digit d) 0

variable (base : Nat) (digit : α → Nat)

theorem foldl_eq (ds : List α) (n : Nat) :
    ds.foldl (fun n d => n * base + digit d) n = n * base ^ ds.length + value base digit ds := by
  induction ds generalizing n with
  | nil => simp [value]
  | cons d ds ih =>
    have hfirst : value base digit (d :: ds) =
        digit d * base ^ ds.length + value base digit ds := by
      rw [value, List.foldl_cons, Nat.zero_mul, Nat.zero_add, ih]
    rw [List.foldl_cons, ih, hfirst, List.length_cons, Nat.pow_succ', Nat.add_mul, Nat.mul_assoc,
      Nat.add_assoc]

theorem value_append (as bs : List α) : value base digit (as ++ bs) =
    value base digit as * base ^ bs.length + value base digit bs := by
  rw [value, List.foldl_append]
  exact foldl_eq base digit bs (value base digit as)

variable {base digit}

theorem value_lt (hdigit : ∀ d, digit d < base) (ds : List α) :
    value base digit ds < base ^ ds.length := by
  induction ds with
  | nil => simp [value]
  | cons d ds ih =>
    have hfirst : value base digit [d] = digit d := by simp [value]
    have hle : (digit d + 1) * base ^ ds.length ≤ base * base ^ ds.length :=
      Nat.mul_le_mul_right _ (hdigit d)
    rw [Nat.add_mul, Nat.one_mul] at hle
    rw [← List.singleton_append, value_append, hfirst, List.singleton_append, List.length_cons,
      Nat.pow_succ']
    omega

/-- The number in the middle of a row of digits. -/
theorem value_middle (hdigit : ∀ d, digit d < base) (as bs cs : List α) :
    value base digit (as ++ bs ++ cs) / base ^ cs.length % base ^ bs.length =
      value base digit bs := by
  have hcs := value_lt hdigit cs
  have hpos : 0 < base ^ cs.length := Nat.zero_lt_of_lt hcs
  rw [value_append, Nat.add_comm, Nat.add_mul_div_right _ _ hpos, Nat.div_eq_of_lt hcs,
    Nat.zero_add, value_append, Nat.add_comm, Nat.add_mul_mod_self_right,
    Nat.mod_eq_of_lt (value_lt hdigit bs)]

/-- A way to write a number in so many digits: its last digit behind those of the quotient. -/
structure Writer (base : Nat) (digit : α → Nat) (last : Nat → α) (write : Nat → Nat → List α) :
    Prop where
  zero : ∀ n, write 0 n = []
  succ : ∀ width n, write (width + 1) n = write width (n / base) ++ [last n]
  digit_last : ∀ n, digit (last n) = n % base

namespace Writer
variable {last : Nat → α} {write : Nat → Nat → List α}

theorem length_eq (h : Writer base digit last write) (width n : Nat) :
    (write width n).length = width := by
  induction width generalizing n with
  | zero => rw [h.zero, List.length_nil]
  | succ width ih => rw [h.succ, List.length_append, ih, List.length_singleton]

theorem exists_eq_last (h : Writer base digit last write) {width n : Nat} {d : α}
    (hd : d ∈ write width n) : ∃ m, d = last m := by
  induction width generalizing n with
  | zero =>
    rw [h.zero] at hd
    cases hd
  | succ width ih =>
    rw [h.succ, List.mem_append, List.mem_singleton] at hd
    obtain hd | hd := hd
    · exact ih hd
    · exact ⟨n, hd⟩

/-- The digits write the number, as far as they go. -/
theorem value_eq (h : Writer base digit last write) (width n : Nat) :
    value base digit (write width n) = n % base ^ width := by
  induction width generalizing n with
  | zero =>
    rw [h.zero, Nat.pow_zero, Nat.mod_one]
    rfl
  | succ width ih =>
    have hlast : value base digit [last n] = n % base := by
      rw [← h.digit_last]
      simp [value]
    rw [h.succ, value_append, ih, hlast, List.length_singleton, Nat.pow_one, Nat.pow_succ',
      Nat.mod_mul, Nat.mul_comm, Nat.add_comm]

end Writer

end Digits

namespace Bytes

theorem toNat_append (as bs : Bytes) : toNat (as ++ bs) = toNat as * 256 ^ bs.length + toNat bs :=
  Digits.value_append 256 UInt8.toNat as bs

/-- The number in the middle of a row of octets. -/
theorem toNat_middle (as bs cs : Bytes) :
    toNat (as ++ bs ++ cs) / 256 ^ cs.length % 256 ^ bs.length = toNat bs :=
  Digits.value_middle UInt8.toNat_lt as bs cs

end Bytes

namespace Bits

def toNat (bits : List Bool) : Nat := Digits.value 2 Bool.toNat bits

def ofNat : Nat → Nat → List Bool
  | 0, _ => []
  | width + 1, n => ofNat width (n / 2) ++ [n % 2 == 1]

def ofBytes (bs : Bytes) : List Bool := bs.flatMap fun b => ofNat 8 b.toNat

theorem writer_ofNat : Digits.Writer 2 Bool.toNat (fun n => n % 2 == 1) ofNat where
  zero := fun _ => rfl
  succ := fun _ _ => rfl
  digit_last := by
    intro n
    obtain h | h := Nat.mod_two_eq_zero_or_one n <;> rw [h] <;> rfl

theorem length_ofNat (width n : Nat) : (ofNat width n).length = width :=
  writer_ofNat.length_eq width n

theorem toNat_ofNat (width n : Nat) : toNat (ofNat width n) = n % 2 ^ width :=
  writer_ofNat.value_eq width n

theorem length_ofBytes (bs : Bytes) : (ofBytes bs).length = 8 * bs.length := by
  induction bs with
  | nil => rfl
  | cons b bs ih =>
    unfold ofBytes at ih ⊢
    rw [List.flatMap_cons, List.length_append, length_ofNat, ih, List.length_cons]
    omega

/-- Octets write the same number as their bits. -/
theorem toNat_ofBytes (bs : Bytes) : toNat (ofBytes bs) = Bytes.toNat bs := by
  induction bs with
  | nil => rfl
  | cons b bs ih =>
    have hfirst : toNat (ofNat 8 b.toNat) = Bytes.toNat [b] := by
      rw [toNat_ofNat, Nat.mod_eq_of_lt b.toNat_lt]
      simp [Bytes.toNat]
    have hsplit : Bytes.toNat (b :: bs) = Bytes.toNat [b] * 256 ^ bs.length + Bytes.toNat bs :=
      Bytes.toNat_append [b] bs
    have hlen := length_ofBytes bs
    unfold ofBytes toNat at *
    rw [List.flatMap_cons, Digits.value_append, hfirst, ih, hlen, Nat.pow_mul, hsplit]

end Bits

end AudioAtoms
