import AudioAtoms.Proofs.Checked.Atoms
import AudioAtoms.Proofs.Digits
import AudioAtoms.Proofs.Stopping

/-!
# Checked decoder configurations

The configuration of a decoder sits in a buffer of eight octets and is taken apart in words of four.
The words lie within the buffer, and a bit field of a word is the bit field of the whole.
-/
namespace AudioAtoms
open Checked Guarded

namespace DecoderConfig

def buffer (c : DecoderConfig) : Bytes := filled c.bytes maxSize

def ofBytesChecked (bs : Bytes) : Checked DecoderConfig := do
  let size := min bs.length maxSize
  range 0 size maxSize
  return ⟨← part bs 0 size⟩

def wordAt (c : DecoderConfig) (offset : Nat) : Checked Nat := do
  return Bytes.toNat (← part c.buffer offset (← add 64 offset 4))

def assume (implicit : Bool) (rate : Nat) : Nat × Bool :=
  if implicit ∧ rate ≤ maxCoreRate then (double rate, true) else (rate, false)

def applyChecked (c : DecoderConfig) (implicit : Bool) (known : Nat) : Checked (Nat × Bool) := do
  let bits ← c.wordAt 0
  let index := bits / 2 ^ 23 % 2 ^ 4
  let rate := rates[index]?.getD known
  if bits / 2 ^ 27 % 2 ^ 5 = replicationType then
    let extension := bits / 2 ^ 15 % 2 ^ 4
    let explicit ← if extension = escapeIndex then (· / 2 ^ 7 % 2 ^ 24) <$> c.wordAt 2 else pure 0
    return (extensionRate index extension explicit rate, true)
  else if 4 ≤ c.bytes.length ∧ bits / 2 ^ 5 % 2 ^ 11 = syncPattern then
    let more ← c.wordAt 4
    if bits % 2 ^ 5 = replicationType then
      if more / 2 ^ 31 % 2 = 1 then
        return (extensionRate index (more / 2 ^ 27 % 2 ^ 4) (more / 2 ^ 3 % 2 ^ 24) rate, true)
      else return (rate, false)
    else return assume implicit rate
  else return assume implicit rate

variable {c : DecoderConfig}

theorem ofBytesChecked_eq (bs : Bytes) : ofBytesChecked bs = .ok (ofBytes bs) := by
  unfold ofBytesChecked
  dsimp only
  rw [range_ok (Nat.zero_le _) (Nat.min_le_right _ _), ok_bind,
    part_ok (Nat.zero_le _) (Nat.min_le_left _ _), Nat.sub_zero, List.drop_zero, Nat.min_comm,
    ← List.take_eq_take_min]
  rfl

theorem length_ofBytes_le (bs : Bytes) : (ofBytes bs).bytes.length ≤ maxSize :=
  List.length_take_le _ _

/-- A word of the buffer is a field of 32 bits. -/
theorem wordAt_eq (hc : c.bytes.length ≤ maxSize) {offset : Nat} (ho : offset ≤ 4) :
    c.wordAt offset = .ok (c.field (8 * offset) 32) := by
  have hlen : c.buffer.length = maxSize := by
    rw [buffer, filled, List.length_append, List.length_replicate, Nat.add_sub_cancel' hc]
  have hbehind : (c.buffer.drop (offset + 4)).length = 4 - offset := by
    rw [List.length_drop, hlen, maxSize]
    omega
  have hmiddle : ((c.buffer.drop offset).take 4).length = 4 := by
    rw [List.length_take, List.length_drop, hlen, maxSize]
    omega
  have hsplit : c.buffer.take offset ++ (c.buffer.drop offset).take 4 ++
      c.buffer.drop (offset + 4) = c.buffer := by
    rw [List.append_assoc, ← List.drop_drop, List.take_append_drop, List.take_append_drop]
  have hword := Bytes.toNat_middle (c.buffer.take offset) ((c.buffer.drop offset).take 4)
    (c.buffer.drop (offset + 4))
  rw [hsplit, hbehind, hmiddle] at hword
  have hpow : 256 ^ (4 - offset) = 2 ^ (64 - 8 * offset - 32) := by
    rw [show 256 = 2 ^ 8 from rfl, ← Nat.pow_mul]
    congr 1
    omega
  rw [hpow] at hword
  have hin : offset + 4 ≤ c.buffer.length := by
    rw [hlen, maxSize]
    omega
  rw [wordAt, add_ok (by omega), ok_bind, part_ok (Nat.le_add_right _ _) hin,
    Nat.add_sub_cancel_left, ok_bind, ← hword]
  rfl

/-- A field within a field of 32 bits is a field. -/
theorem field_field (c : DecoderConfig) (start inner width : Nat) (hs : start ≤ 32)
    (hw : inner + width ≤ 32) :
    c.field start 32 / 2 ^ (32 - inner - width) % 2 ^ width = c.field (start + inner) width := by
  have hshift : 64 - start - 32 + (32 - inner - width) = 64 - (start + inner) - width := by omega
  have hsplit : 2 ^ 32 = 2 ^ (32 - inner - width) * 2 ^ (width + inner) := by
    rw [← Nat.pow_add]
    congr 1
    omega
  unfold field
  rw [← hshift, Nat.pow_add, ← Nat.div_div_eq_div_mul, hsplit, Nat.mod_mul_right_div_self,
    Nat.mod_mod_of_dvd _ (Nat.pow_dvd_pow 2 (Nat.le_add_right _ _))]

theorem apply_eq (implicit : Bool) (known : Nat) :
    c.apply implicit known =
      if c.field 0 5 = replicationType then
        (extensionRate (c.field 5 4) (c.field 13 4) (c.field 17 24)
          (rates[c.field 5 4]?.getD known), true)
      else if 4 ≤ c.bytes.length ∧ c.field 16 11 = syncPattern then
        if c.field 27 5 = replicationType then
          if c.field 32 1 = 1 then
            (extensionRate (c.field 5 4) (c.field 33 4) (c.field 37 24)
              (rates[c.field 5 4]?.getD known), true)
          else (rates[c.field 5 4]?.getD known, false)
        else assume implicit (rates[c.field 5 4]?.getD known)
      else assume implicit (rates[c.field 5 4]?.getD known) := by
  unfold apply assume
  dsimp only
  by_cases htype : c.field 0 5 = replicationType
  · rw [if_pos htype, if_pos htype]
  rw [if_neg htype, if_neg htype]
  by_cases hsync : 4 ≤ c.bytes.length ∧ c.field 16 11 = syncPattern
  · rw [if_pos hsync]
    by_cases hextension : c.field 27 5 = replicationType
    · rw [if_pos ⟨hsync.1, hsync.2, hextension⟩, if_pos hextension]
    · rw [if_neg fun h => hextension h.2.2, if_neg hextension]
  · rw [if_neg fun h => hsync ⟨h.1, h.2.1⟩, if_neg hsync]

/-- The rate of an extension looks at the explicit rate only behind the index that announces it. -/
theorem extensionRate_explicit {index extension : Nat} (h : extension ≠ escapeIndex)
    (explicit explicit' rate : Nat) :
    extensionRate index extension explicit rate = extensionRate index extension explicit' rate := by
  simp only [extensionRate, if_neg h]

theorem applyChecked_eq (hc : c.bytes.length ≤ maxSize) (implicit : Bool) (known : Nat) :
    c.applyChecked implicit known = .ok (c.apply implicit known) := by
  have hindex : c.field 0 32 / 2 ^ 23 % 2 ^ 4 = c.field 5 4 :=
    c.field_field 0 5 4 (by decide) (by decide)
  have htype : c.field 0 32 / 2 ^ 27 % 2 ^ 5 = c.field 0 5 :=
    c.field_field 0 0 5 (by decide) (by decide)
  have hextension : c.field 0 32 / 2 ^ 15 % 2 ^ 4 = c.field 13 4 :=
    c.field_field 0 13 4 (by decide) (by decide)
  have hexplicit : c.field 16 32 / 2 ^ 7 % 2 ^ 24 = c.field 17 24 :=
    c.field_field 16 1 24 (by decide) (by decide)
  have hsync : c.field 0 32 / 2 ^ 5 % 2 ^ 11 = c.field 16 11 :=
    c.field_field 0 16 11 (by decide) (by decide)
  have hlast : c.field 0 32 % 2 ^ 5 = c.field 27 5 := by
    rw [← Nat.div_one (c.field 0 32)]
    exact c.field_field 0 27 5 (by decide) (by decide)
  have hflag : c.field 32 32 / 2 ^ 31 % 2 = c.field 32 1 :=
    c.field_field 32 0 1 (by decide) (by decide)
  have hextension' : c.field 32 32 / 2 ^ 27 % 2 ^ 4 = c.field 33 4 :=
    c.field_field 32 1 4 (by decide) (by decide)
  have hexplicit' : c.field 32 32 / 2 ^ 3 % 2 ^ 24 = c.field 37 24 :=
    c.field_field 32 5 24 (by decide) (by decide)
  rw [applyChecked, wordAt_eq hc (Nat.zero_le _), ok_bind, apply_eq]
  dsimp only [Nat.mul_zero]
  rw [hindex, htype, hextension, hsync, hlast]
  by_cases htyped : c.field 0 5 = replicationType
  · rw [if_pos htyped, if_pos htyped]
    by_cases hescape : c.field 13 4 = escapeIndex
    · rw [if_pos hescape, wordAt_eq hc (by decide), ← hexplicit]
      rfl
    · rw [if_neg hescape]
      change Except.ok _ = _
      rw [extensionRate_explicit hescape]
  · rw [if_neg htyped, if_neg htyped]
    by_cases hsynced : 4 ≤ c.bytes.length ∧ c.field 16 11 = syncPattern
    · rw [if_pos hsynced, if_pos hsynced, wordAt_eq hc (by decide), ok_bind]
      rw [hflag, hextension', hexplicit']
      split
      · split <;> rfl
      · rfl
    · rw [if_neg hsynced, if_neg hsynced]
      rfl

theorem double_lt (rate : Nat) : double rate < 2 ^ 32 :=
  Nat.lt_of_le_of_lt (Nat.min_le_right _ _) (by decide)

theorem field_lt (start width : Nat) : c.field start width < 2 ^ width :=
  Nat.mod_lt _ (Nat.pow_pos (by decide))

theorem getD_rates_lt (index : Nat) {rate : Nat} (hr : rate < 2 ^ 32) :
    rates[index]?.getD rate < 2 ^ 32 := by
  cases h : rates[index]? with
  | none => exact hr
  | some found =>
    have hfound : ∀ r ∈ rates, r < 2 ^ 32 := by decide
    exact hfound found (List.mem_of_getElem? h)

theorem extensionRate_lt (index extension : Nat) {explicit rate : Nat} (he : explicit < 2 ^ 24)
    (hr : rate < 2 ^ 32) : extensionRate index extension explicit rate < 2 ^ 32 := by
  have hfound :
      (if extension = escapeIndex then explicit else rates[extension]?.getD rate) < 2 ^ 32 := by
    split
    · omega
    · exact getD_rates_lt extension hr
  unfold extensionRate
  dsimp only
  split
  · exact double_lt _
  · exact hfound

theorem assume_lt (implicit : Bool) {rate : Nat} (hr : rate < 2 ^ 32) :
    (assume implicit rate).1 < 2 ^ 32 := by
  unfold assume
  split
  · exact double_lt rate
  · exact hr

theorem apply_lt (implicit : Bool) {known : Nat} (hk : known < 2 ^ 32) :
    (c.apply implicit known).1 < 2 ^ 32 := by
  have hrate := getD_rates_lt (c.field 5 4) hk
  rw [apply_eq]
  repeat' split
  · exact extensionRate_lt _ _ (c.field_lt 17 24) hrate
  · exact extensionRate_lt _ _ (c.field_lt 37 24) hrate
  · exact hrate
  · exact assume_lt implicit hrate
  · exact assume_lt implicit hrate

end DecoderConfig

namespace Descriptor

theorem yields_lengthFrom (n value : Nat) : (lengthFrom n value).Yields fun _ => True := by
  induction n generalizing value with
  | zero => exact Read.yields_pure trivial
  | succ n ih =>
    refine (Read.yields_number 1).bind fun octet _ => ?_
    by_cases h : octet < 128
    · simp only [if_pos h]
      exact Read.yields_pure trivial
    · simp only [if_neg h]
      refine Read.yields_remaining.bind fun left _ => ?_
      by_cases hleft : left = 0
      · rw [if_pos hleft]
        exact Read.yields_pure trivial
      · rw [if_neg hleft]
        exact ih _

theorem yields_length : length.Yields fun _ => True := yields_lengthFrom 4 0

def Fits (found : Option DecoderConfig) : Prop :=
  ∀ c, found = some c → c.bytes.length ≤ DecoderConfig.maxSize

def readSpecificChecked : Guarded StreamError true (Option DecoderConfig) := do
  let tag ← ofRead (Read.number 1)
  if tag ≠ configTag then
    note (.noDecoderSpecific tag.toUInt8)
    return none
  let size := min (min (← ofRead length) (← ofRead Read.remaining)) DecoderConfig.maxSize
  check (range 0 size DecoderConfig.maxSize)
  let bs ← ofRead (Read.upTo size)
  let found ← check (part (filled bs DecoderConfig.maxSize) 0 size)
  return some (← check (DecoderConfig.ofBytesChecked found))

def readDecoderChecked : Guarded StreamError true (Option DecoderConfig) := do
  let tag ← ofRead (Read.number 1)
  if tag ≠ decoderTag then
    note (.noDecoderConfig tag.toUInt8)
    return none
  if (← ofRead length) < 13 then return none
  ofRead (Read.skip 13)
  readSpecificChecked

def configChecked : Guarded StreamError true (Option DecoderConfig) := do
  ofRead (Read.skip 4)
  if (← ofRead (Read.number 1)) = streamTag then
    if (← ofRead length) < 20 then return none
    ofRead (Read.skip 3)
    readDecoderChecked
  else
    ofRead (Read.skip 2)
    readDecoderChecked

theorem guards_readSpecific : readSpecificChecked.Guards readSpecific Fits := by
  refine (guards_ofRead (Read.yields_number 1)).bind fun tag _ => ?_
  by_cases h : tag ≠ configTag
  · rw [if_pos h, if_pos h]
    exact (guards_note _).bind fun _ _ => guards_pure nofun
  · rw [if_neg h, if_neg h]
    refine (guards_ofRead yields_length).bind fun size _ =>
      (guards_ofRead Read.yields_remaining).bind fun left _ => ?_
    have hsize : min (min size left) DecoderConfig.maxSize ≤ DecoderConfig.maxSize :=
      Nat.min_le_right _ _
    refine guards_check (range_ok (Nat.zero_le _) hsize) ?_
    refine (guards_ofRead (Read.yields_upTo _)).bind fun bs hbs => ?_
    refine guards_check (part_filled hbs hsize) ?_
    refine guards_check (DecoderConfig.ofBytesChecked_eq _) ?_
    exact guards_pure fun c hc => Option.some.inj hc ▸ DecoderConfig.length_ofBytes_le _

theorem guards_readDecoder : readDecoderChecked.Guards readDecoder Fits := by
  refine (guards_ofRead (Read.yields_number 1)).bind fun tag _ => ?_
  by_cases h : tag ≠ decoderTag
  · rw [if_pos h, if_pos h]
    exact (guards_note _).bind fun _ _ => guards_pure nofun
  · rw [if_neg h, if_neg h]
    refine (guards_ofRead yields_length).bind fun size _ => ?_
    by_cases hsize : size < 13
    · rw [if_pos hsize, if_pos hsize]
      exact guards_pure nofun
    · rw [if_neg hsize, if_neg hsize]
      exact (guards_ofRead (Read.yields_skip 13)).bind fun _ _ => guards_readSpecific

theorem guards_config : configChecked.Guards config Fits := by
  rw [config_eq]
  refine (guards_ofRead (Read.yields_skip 4)).bind fun _ _ =>
    (guards_ofRead (Read.yields_number 1)).bind fun tag _ => ?_
  by_cases h : tag = streamTag
  · rw [if_pos h, if_pos h]
    refine (guards_ofRead yields_length).bind fun size _ => ?_
    unfold readStream
    by_cases hsize : size < 20
    · rw [if_pos hsize, if_pos hsize]
      exact guards_pure nofun
    · rw [if_neg hsize, if_neg hsize]
      exact (guards_ofRead (Read.yields_skip 3)).bind fun _ _ => guards_readDecoder
  · rw [if_neg h, if_neg h]
    exact (guards_ofRead (Read.yields_skip 2)).bind fun _ _ => guards_readDecoder

end Descriptor

namespace ElementaryStream
variable {bounded : Bool}

def readChecked (size : Nat) : Guarded StreamError bounded ElementaryStream := do
  let (result, _) ← Descriptor.configChecked.run.withinChecked (.ofSize size)
  match result with
  | .ok config => return ⟨config⟩
  | .error (.error e) =>
    note (.descriptorsCut e)
    return ⟨none⟩
  | .error (.fault f) => throw (.fault f)

def applyChecked (s : ElementaryStream) (implicit : Bool) (known : Nat) : Checked (Nat × Bool) :=
  match s.config with
  | some config => config.applyChecked implicit known
  | none => return (known, false)

theorem lift_read (size : Nat) :
    (Read.lift (read size) : Read bounded ElementaryStream) = (do
      let (result, _) ← Read.lift (Descriptor.config.run.within (.ofSize size))
      match result with
      | .ok config => return ⟨config⟩
      | .error e =>
        Read.note (.descriptorsCut e)
        return ⟨none⟩) := by
  apply ExceptT.ext
  rw [Read.run_bind, Read.run_lift, Read.run_lift, read, Scan.bind_eq, Scan.bind_assoc,
    Scan.bind_assoc]
  congr 1
  funext found
  rcases found with ⟨e | config, w⟩ <;> rfl

theorem guards_read {size : Nat} (hsize : size < 2 ^ 64) :
    (readChecked size : Guarded StreamError bounded ElementaryStream).Guards (Read.lift (read size))
      fun s => Descriptor.Fits s.config := by
  rw [lift_read]
  refine guards_within Descriptor.guards_config.run hsize ?_
  intro r s w hr _
  cases hr with
  | ok found hfound => exact guards_pure hfound
  | error e => exact (guards_note _).bind fun _ _ => guards_pure nofun

variable {s : ElementaryStream}

theorem applyChecked_eq (hs : Descriptor.Fits s.config) (implicit : Bool) (known : Nat) :
    s.applyChecked implicit known = .ok (s.apply implicit known) := by
  unfold applyChecked apply
  cases h : s.config with
  | none => rfl
  | some c => exact c.applyChecked_eq (hs c h) implicit known

theorem apply_lt (implicit : Bool) {known : Nat} (hk : known < 2 ^ 32) :
    (s.apply implicit known).1 < 2 ^ 32 := by
  unfold apply
  split
  · exact DecoderConfig.apply_lt implicit hk
  · exact hk

end ElementaryStream

namespace SampleEntry
variable {bounded : Bool}

def innerChecked (dataSize : Nat) : Guarded StreamError bounded (Option Header) := do
  if dataSize - fixedSize < Header.minSize then return none
  ofRead (Read.skip fixedSize)
  return some (← Header.readChecked (dataSize - fixedSize))

def aacChecked (dataSize : Nat) : Guarded StreamError bounded (Option ElementaryStream) := do
  match ← innerChecked dataSize with
  | some ⟨.elementaryStream, _, size⟩ =>
    let room := dataSize - fixedSize - Header.minSize
    return some (← ElementaryStream.readChecked (min size room))
  | _ => return none

theorem guards_inner {dataSize : Nat} (hd : dataSize < 2 ^ 64) :
    (innerChecked dataSize : Guarded StreamError bounded (Option Header)).Guards (inner? dataSize)
      fun _ => True := by
  unfold innerChecked inner?
  by_cases h : dataSize - fixedSize < Header.minSize
  · rw [if_pos h, if_pos h]
    exact guards_pure trivial
  · rw [if_neg h, if_neg h]
    exact (guards_ofRead (Read.yields_skip _)).bind fun _ _ =>
      (Header.guards_read (Nat.lt_of_le_of_lt (Nat.sub_le _ _) hd)).bind fun _ _ =>
        guards_pure trivial

theorem guards_aac {dataSize : Nat} (hd : dataSize < 2 ^ 64) :
    (aacChecked dataSize : Guarded StreamError bounded (Option ElementaryStream)).Guards
      (aac dataSize) fun r => ∀ s, r = some s → Descriptor.Fits s.config := by
  refine (guards_inner hd).bind fun found _ => ?_
  have hroom (size : Nat) : min size (dataSize - fixedSize - Header.minSize) < 2 ^ 64 := by omega
  obtain _ | ⟨kind, wide, size⟩ := found
  · exact guards_pure nofun
  · cases kind with
    | elementaryStream =>
      exact (ElementaryStream.guards_read (hroom size)).bind fun s hs =>
        guards_pure fun t ht => Option.some.inj ht ▸ hs
    | _ => exact guards_pure nofun

def alacChecked (dataSize : Nat) : Guarded StreamError bounded (Option Nat) := do
  match ← innerChecked dataSize with
  | some ⟨.alacEntry, _, size⟩ =>
    if size < 28 then return none
    ofRead (Read.skip 24)
    return some (← ofRead (Read.number 4))
  | _ => return none

theorem guards_alac {dataSize : Nat} (hd : dataSize < 2 ^ 64) :
    (alacChecked dataSize : Guarded StreamError bounded (Option Nat)).Guards (alac dataSize)
      fun r => ∀ n, r = some n → n < 2 ^ 32 := by
  refine (guards_inner hd).bind fun found _ => ?_
  obtain _ | ⟨kind, wide, size⟩ := found
  · exact guards_pure nofun
  · cases kind with
    | alacEntry =>
      dsimp only
      by_cases h : size < 28
      · rw [if_pos h, if_pos h]
        exact guards_pure nofun
      · rw [if_neg h, if_neg h]
        exact (guards_ofRead (Read.yields_skip 24)).bind fun _ _ =>
          (guards_ofRead (Read.yields_number 4)).bind fun n hn =>
            guards_pure fun m hm => Option.some.inj hm ▸ hn
    | _ => exact guards_pure nofun

end SampleEntry

end AudioAtoms
