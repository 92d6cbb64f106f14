/-!
# Octets

A payload is a list of octets in stream order. Numbers in an atom are stored with the most
significant octet first.
-/
namespace AudioAtoms

-- A power of natural numbers is the one of the core library, whatever other powers are known.
attribute [instance (high), default_instance 20000] instPowNat

abbrev Bytes := List UInt8

namespace Bytes

/-- The number whose digits to base 256 are the given octets, most significant first. -/
def toNat (bs : Bytes) : Nat :=
  bs.foldl (fun n b => n * 256 + b.toNat) 0

def untilNul (bs : Bytes) : Bytes :=
  bs.takeWhile (· ≠ 0)

@[simp] theorem toNat_nil : toNat [] = 0 := rfl

theorem foldl_lt (bs : Bytes) (n : Nat) :
    bs.foldl (fun n b => n * 256 + b.toNat) n < (n + 1) * 256 ^ bs.length := by
  induction bs generalizing n with
  | nil => simp
  | cons b bs ih =>
    have hb := b.toNat_lt
    refine Nat.lt_of_lt_of_le (ih (n * 256 + b.toNat)) ?_
    rw [List.length_cons, Nat.pow_succ', ← Nat.mul_assoc]
    exact Nat.mul_le_mul_right _ (by omega)

theorem toNat_lt (bs : Bytes) : toNat bs < 256 ^ bs.length := by
  simpa [toNat] using foldl_lt bs 0

theorem toNat_lt_of_le {bs : Bytes} {n : Nat} (h : bs.length ≤ n) : toNat bs < 256 ^ n :=
  Nat.lt_of_lt_of_le (toNat_lt bs) (Nat.pow_le_pow_right (by decide) h)

theorem length_untilNul_le (bs : Bytes) : bs.untilNul.length ≤ bs.length :=
  List.Sublist.length_le (List.takeWhile_sublist _)

end Bytes

end AudioAtoms
