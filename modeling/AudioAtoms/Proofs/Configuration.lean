import AudioAtoms.Codec.Config
import AudioAtoms.Proofs.Digits

/-!
# What a decoder configuration says

A configuration is a row of bits that is read from the front, one field behind the other.
`BitReader.configuration` reads it that way, and comes to the same rate and the same answer about
replication as the fields that are cut out of one number.

A configuration that tells a rate says the same again when it is applied to its own outcome. One
that tells none starts from the rate known before, so it says the same again just where it kept that
rate, or where the rate cannot grow any further.
-/
namespace AudioAtoms

abbrev BitReader := StateM (List Bool)

namespace BitReader

def field (width : Nat) : BitReader Nat := fun bits =>
  (Bits.toNat (bits.take width), bits.drop width)

def indexed? : Nat → Option Nat
  | 0 => some 96000
  | 1 => some 88200
  | 2 => some 64000
  | 3 => some 48000
  | 4 => some 44100
  | 5 => some 32000
  | 6 => some 24000
  | 7 => some 22050
  | 8 => some 16000
  | 9 => some 12000
  | 10 => some 11025
  | 11 => some 8000
  | _ => none

def twice (rate : Nat) : Nat := if rate ≤ 0x7fffffff then 2 * rate else 0xffffffff

def extension (core rate : Nat) : BitReader Nat := do
  let index ← field 4
  let rate ← if index = 15 then field 24 else pure ((indexed? index).getD rate)
  return if index = core then twice rate else rate

/-- The rate and whether the high band is replicated, from the bits of a configuration with the
given number of octets. -/
def configuration (size : Nat) (implicit : Bool) (known : Nat) : BitReader (Nat × Bool) := do
  let type ← field 5
  let index ← field 4
  let _channels ← field 4
  let rate := (indexed? index).getD known
  let unsignalled := if implicit ∧ rate ≤ 24000 then (twice rate, true) else (rate, false)
  if type = 5 then
    return (← extension index rate, true)
  else if 4 ≤ size then
    let _more ← field 3
    let sync ← field 11
    let extensionType ← field 5
    if sync = 0x2b7 ∧ extensionType = 5 then
      if (← field 1) = 1 then return (← extension index rate, true) else return (rate, false)
    else return unsignalled
  else return unsignalled

theorem indexed?_eq (index : Nat) : indexed? index = DecoderConfig.rates[index]? := by
  match index with
  | 0 | 1 | 2 | 3 | 4 | 5 | 6 | 7 | 8 | 9 | 10 | 11 => rfl
  | _ + 12 => rfl

theorem twice_eq (rate : Nat) : twice rate = DecoderConfig.double rate := by
  unfold twice DecoderConfig.double
  split <;> omega

end BitReader

namespace DecoderConfig
open BitReader

/-- The octets of a configuration as a row of bits, with zeros for those that are not there. -/
def bits (c : DecoderConfig) : List Bool :=
  Bits.ofBytes (c.bytes ++ List.replicate (maxSize - c.bytes.length) 0)

theorem length_bits {c : DecoderConfig} (h : c.bytes.length ≤ maxSize) : c.bits.length = 64 := by
  rw [bits, Bits.length_ofBytes, List.length_append, List.length_replicate,
    Nat.add_sub_cancel' h, maxSize]

/-- A field is what the reader takes at its place. -/
theorem toNat_bits {c : DecoderConfig} (h : c.bytes.length ≤ maxSize) (start width : Nat)
    (hend : start + width ≤ 64) :
    Bits.toNat ((c.bits.drop start).take width) = c.field start width := by
  have hlen := length_bits h
  have hbit : ∀ bit : Bool, bit.toNat < 2 := by decide
  have hmiddle := Digits.value_middle hbit (c.bits.take start) ((c.bits.drop start).take width)
    ((c.bits.drop start).drop width)
  have hwidth : ((c.bits.drop start).take width).length = width := by
    rw [List.length_take, List.length_drop]
    omega
  have hword : Digits.value 2 Bool.toNat c.bits = c.word := Bits.toNat_ofBytes _
  rw [List.append_assoc, List.take_append_drop, List.take_append_drop, hwidth, hword] at hmiddle
  simp only [List.length_drop, hlen] at hmiddle
  exact hmiddle.symm

section Reading
variable {c : DecoderConfig} (hc : c.bytes.length ≤ maxSize)
include hc

theorem run_field (start width : Nat) (hend : start + width ≤ 64) :
    BitReader.field width (c.bits.drop start) =
      (c.field start width, c.bits.drop (start + width)) := by
  rw [BitReader.field, toNat_bits hc start width hend, List.drop_drop]

theorem run_field_bind {α : Type} (start width : Nat) (f : Nat → BitReader α)
    (hend : start + width ≤ 64) :
    (BitReader.field width >>= f) (c.bits.drop start) =
      f (c.field start width) (c.bits.drop (start + width)) := by
  have hrun : (BitReader.field width >>= f) (c.bits.drop start) =
      f (BitReader.field width (c.bits.drop start)).1
        (BitReader.field width (c.bits.drop start)).2 := rfl
  rw [hrun, run_field hc start width hend]

/-- An extension is an index of four bits and, behind the escape index, a rate of 24 bits. -/
theorem run_extension (start core rate : Nat) (hend : start + 28 ≤ 64) :
    (extension core rate (c.bits.drop start)).1 =
      extensionRate core (c.field start 4) (c.field (start + 4) 24) rate := by
  rw [extension, run_field_bind hc start 4 _ (by omega), extensionRate]
  by_cases hescape : c.field start 4 = 15
  · have hescaped : c.field start 4 = escapeIndex := hescape
    rw [if_pos hescape, if_pos hescaped, run_field_bind hc (start + 4) 24 _ (by omega), ← twice_eq]
    rfl
  · have hescaped : c.field start 4 ≠ escapeIndex := hescape
    rw [if_neg hescape, if_neg hescaped, ← indexed?_eq, ← twice_eq]
    rfl

/-- The bits of a configuration say what its fields say. -/
theorem run_configuration (implicit : Bool) (known : Nat) :
    (configuration c.bytes.length implicit known c.bits).1 = c.apply implicit known := by
  have hstart : c.bits = c.bits.drop 0 := rfl
  rw [hstart, configuration, run_field_bind hc 0 5 _ (by decide),
    run_field_bind hc 5 4 _ (by decide), run_field_bind hc 9 4 _ (by decide), apply, indexed?_eq,
    twice_eq]
  by_cases htype : c.field 0 5 = 5
  · have htyped : c.field 0 5 = replicationType := htype
    rw [if_pos htype, if_pos htyped, ← run_extension hc 13 _ _ (by decide)]
    rfl
  · have htyped : c.field 0 5 ≠ replicationType := htype
    rw [if_neg htype, if_neg htyped]
    by_cases hsize : 4 ≤ c.bytes.length
    · rw [if_pos hsize, run_field_bind hc 13 3 _ (by decide),
        run_field_bind hc 16 11 _ (by decide), run_field_bind hc 27 5 _ (by decide)]
      by_cases hsync : c.field 16 11 = 0x2b7 ∧ c.field 27 5 = 5
      · have hsynced : 4 ≤ c.bytes.length ∧ c.field 16 11 = syncPattern ∧
            c.field 27 5 = replicationType := ⟨hsize, hsync⟩
        rw [if_pos hsync, if_pos hsynced, run_field_bind hc 32 1 _ (by decide)]
        by_cases hflag : c.field 32 1 = 1
        · rw [if_pos hflag, if_pos hflag, ← run_extension hc 33 _ _ (by decide)]
          rfl
        · rw [if_neg hflag, if_neg hflag]
          rfl
      · have hsynced : ¬ (4 ≤ c.bytes.length ∧ c.field 16 11 = syncPattern ∧
            c.field 27 5 = replicationType) := fun h => hsync h.2
        rw [if_neg hsync, if_neg hsynced]
        rfl
    · have hsynced : ¬ (4 ≤ c.bytes.length ∧ c.field 16 11 = syncPattern ∧
          c.field 27 5 = replicationType) := fun h => hsize h.1
      rw [if_neg hsize, if_neg hsynced]
      rfl

end Reading

/-- Applying a configuration is reading the bits of its first eight octets, one field behind the
other, with zeros for octets that are not there. -/
theorem apply_eq_read_bits (data : Bytes) (implicit : Bool) (known : Nat) :
    (ofBytes data).apply implicit known =
      ((configuration data.length implicit known).run
        (Bits.ofBytes (data.take 8 ++ List.replicate (8 - data.length) 0))).1 := by
  have hc : (ofBytes data).bytes.length ≤ maxSize := List.length_take_le _ _
  have hsize : (4 ≤ (ofBytes data).bytes.length) = (4 ≤ data.length) := by
    rw [ofBytes, List.length_take, maxSize]
    exact propext (by omega)
  have hconfiguration : configuration (ofBytes data).bytes.length implicit known =
      configuration data.length implicit known := by
    unfold configuration
    simp only [hsize]
  have hbits : (ofBytes data).bits =
      Bits.ofBytes (data.take 8 ++ List.replicate (8 - data.length) 0) := by
    have hmissing : 8 - (data.take 8).length = 8 - data.length := by
      rw [List.length_take]
      omega
    rw [bits, ofBytes, maxSize, hmissing]
  rw [← run_configuration hc, hconfiguration, hbits]
  rfl

section Repetition
variable {c : DecoderConfig} {implicit : Bool}

def coreRate (c : DecoderConfig) (known : Nat) : Nat := rates[c.field 5 4]?.getD known

def extensionIndex? (c : DecoderConfig) : Option Nat :=
  if c.field 0 5 = replicationType then some (c.field 13 4)
  else if (4 ≤ c.bytes.length ∧ c.field 16 11 = syncPattern ∧ c.field 27 5 = replicationType) ∧
      c.field 32 1 = 1 then some (c.field 33 4)
  else none

/-- The configuration tells a rate: by the index of the core, or by an extension with an index or
with a rate of its own. -/
def TellsRate (c : DecoderConfig) : Prop :=
  c.field 5 4 < rates.length ∨
    ∃ index, c.extensionIndex? = some index ∧ (index < rates.length ∨ index = escapeIndex)

/-- All that a configuration can do: extend the core, deny an extension, or leave it open. -/
theorem apply_cases (c : DecoderConfig) :
    (∃ index explicit, c.extensionIndex? = some index ∧ ∀ implicit known,
      c.apply implicit known =
        (extensionRate (c.field 5 4) index explicit (c.coreRate known), true)) ∨
    c.extensionIndex? = none ∧
      ((∀ implicit known, c.apply implicit known = (c.coreRate known, false)) ∨
        ∀ implicit known, c.apply implicit known =
          if implicit ∧ c.coreRate known ≤ maxCoreRate then (double (c.coreRate known), true)
          else (c.coreRate known, false)) := by
  unfold apply extensionIndex?
  by_cases htype : c.field 0 5 = replicationType
  · simp only [if_pos htype]
    exact .inl ⟨_, _, rfl, fun _ _ => rfl⟩
  · by_cases hsync : 4 ≤ c.bytes.length ∧ c.field 16 11 = syncPattern ∧
        c.field 27 5 = replicationType
    · by_cases hflag : c.field 32 1 = 1
      · simp only [if_neg htype, if_pos hsync, if_pos hflag, if_pos (And.intro hsync hflag)]
        exact .inl ⟨_, _, rfl, fun _ _ => rfl⟩
      · simp only [if_neg htype, if_pos hsync, if_neg hflag, if_neg fun h => hflag (And.right h)]
        exact .inr ⟨trivial, .inl fun _ _ => rfl⟩
    · simp only [if_neg htype, if_neg hsync, if_neg fun h => hsync (And.left h)]
      exact .inr ⟨trivial, .inr fun _ _ => rfl⟩

theorem coreRate_of_lt (h : c.field 5 4 < rates.length) (a b : Nat) :
    c.coreRate a = c.coreRate b := by
  rw [coreRate, coreRate, List.getElem?_eq_getElem h, Option.getD_some, Option.getD_some]

theorem coreRate_of_not_lt (h : ¬ c.field 5 4 < rates.length) (known : Nat) :
    c.coreRate known = known := by
  rw [coreRate, List.getElem?_eq_none (Nat.le_of_not_lt h), Option.getD_none]

theorem extensionRate_of_tells {index : Nat} (h : index < rates.length ∨ index = escapeIndex)
    (core explicit a b : Nat) :
    extensionRate core index explicit a = extensionRate core index explicit b := by
  unfold extensionRate
  obtain h | h := h
  · rw [List.getElem?_eq_getElem h, Option.getD_some, Option.getD_some]
  · rw [if_pos h, if_pos h]

theorem extensionRate_of_silent {index : Nat} (h : ¬ (index < rates.length ∨ index = escapeIndex))
    (core explicit rate : Nat) :
    extensionRate core index explicit rate = if index = core then double rate else rate := by
  obtain ⟨hindex, hescape⟩ := not_or.mp h
  rw [extensionRate, if_neg hescape, List.getElem?_eq_none (Nat.le_of_not_lt hindex),
    Option.getD_none]

/-- A rate that the configuration tells does not depend on the one known before. -/
theorem apply_of_tellsRate (h : c.TellsRate) (a b : Nat) :
    c.apply implicit a = c.apply implicit b := by
  obtain hcore | ⟨index, hindex, htells⟩ := h
  · have hrate := coreRate_of_lt hcore a b
    obtain ⟨_, _, _, happly⟩ | ⟨_, happly | happly⟩ := c.apply_cases
    all_goals rw [happly, happly, hrate]
  · obtain ⟨found, _, hfound, happly⟩ | ⟨hnone, _⟩ := c.apply_cases
    · obtain rfl : found = index := Option.some.inj (hfound.symm.trans hindex)
      rw [happly, happly, extensionRate_of_tells htells]
    · cases hnone.symm.trans hindex

/-- A configuration that tells no rate keeps the known one or doubles it. -/
theorem apply_of_not_tellsRate (h : ¬ c.TellsRate) (implicit : Bool) :
    (∃ replicates, ∀ known, c.apply implicit known = (known, replicates)) ∨
      (∀ known, c.apply implicit known = (double known, true)) ∨
      ∀ known, c.apply implicit known =
        if known ≤ maxCoreRate then (double known, true) else (known, false) := by
  obtain ⟨hcore, hextension⟩ := not_or.mp h
  have hrate := coreRate_of_not_lt hcore
  obtain ⟨index, explicit, hindex, happly⟩ | ⟨_, happly | happly⟩ := c.apply_cases
  · have hsilent := extensionRate_of_silent (fun htells => hextension ⟨index, hindex, htells⟩)
      (c.field 5 4) explicit
    simp only [hrate, hsilent] at happly
    by_cases hsame : index = c.field 5 4
    · simp only [if_pos hsame] at happly
      exact .inr (.inl (happly implicit))
    · simp only [if_neg hsame] at happly
      exact .inl ⟨true, happly implicit⟩
  · simp only [hrate] at happly
    exact .inl ⟨false, happly implicit⟩
  · simp only [hrate] at happly
    cases implicit with
    | false => exact .inl ⟨false, fun known => (happly false known).trans (if_neg (by simp))⟩
    | true => exact .inr (.inr fun known => by simpa using happly true known)

theorem apply_apply_of_not_tellsRate (h : ¬ c.TellsRate) (known : Nat) :
    c.apply implicit (c.apply implicit known).1 = c.apply implicit known ↔
      (c.apply implicit known).1 = known ∨ 0x80000000 ≤ known := by
  obtain ⟨replicates, happly⟩ | happly | happly := apply_of_not_tellsRate h implicit
  · simp only [happly, true_or]
  · simp only [happly, double, Prod.mk.injEq, and_true]
    omega
  · by_cases hlow : known ≤ maxCoreRate
    · have hfirst : c.apply implicit known = (known * 2, true) := by
        rw [happly, if_pos hlow, double, Nat.min_eq_left (by unfold maxCoreRate at hlow; omega)]
      rw [hfirst, happly]
      dsimp only
      unfold maxCoreRate at hlow ⊢
      by_cases hagain : known * 2 ≤ 24000
      · rw [if_pos hagain, double, Prod.mk.injEq]
        simp only [and_true]
        omega
      · rw [if_neg hagain]
        exact iff_of_false (by simp) (by omega)
    · have hfirst : c.apply implicit known = (known, false) := (happly known).trans (if_neg hlow)
      simp only [hfirst, true_or]

/-- Applying a configuration again changes nothing if and only if it tells a rate, leaves the known
one as it is, or has it doubled beyond 32 bits. -/
theorem apply_apply_iff (data : Bytes) (implicit : Bool) (known : Nat) :
    let c := ofBytes data
    c.apply implicit (c.apply implicit known).1 = c.apply implicit known ↔
      c.TellsRate ∨ (c.apply implicit known).1 = known ∨ 0x80000000 ≤ known := by
  intro c
  by_cases h : c.TellsRate
  · exact iff_of_true (apply_of_tellsRate h _ _) (.inl h)
  · rw [apply_apply_of_not_tellsRate h]
    simp only [h, false_or]

/-- Two equal rate indices that stand for no rate double the known rate each time, and a rate that
was doubled because replication is assumed is too high for that the next time. -/
theorem apply_apply_ne :
    let reserved := ofBytes [0x2e, 0x86, 0x80]
    let unsignalled := ofBytes [0x16, 0x90]
    reserved.apply false 44100 = (88200, true) ∧ reserved.apply false 88200 = (176400, true) ∧
      unsignalled.apply true 24000 = (48000, true) ∧
      unsignalled.apply true 48000 = (48000, false) := by
  decide

end Repetition

end DecoderConfig

end AudioAtoms
