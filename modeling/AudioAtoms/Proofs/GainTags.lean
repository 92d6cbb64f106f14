import Mathlib
import AudioAtoms.Tag.Gain

/-!
# Rows of gain tags

The tags of a row are offered to a record one after the other. A name counts in any case of its
letters and may be one of several for its field, and a value need not be a number. In the end every
field has what it had, or the first number that the row tells for it. So the fields do not get into
each other's way, and the order matters only among the tags for one field.
-/
namespace AudioAtoms

namespace Text

def alike (c d : Char) : Bool :=
  c = d ∨ c.isUpper ∧ d.toNat = c.toNat + 32 ∨ d.isUpper ∧ c.toNat = d.toNat + 32

def sameLetters : List Char → List Char → Bool
  | [], [] => true
  | c :: cs, d :: ds => alike c d && sameLetters cs ds
  | _, _ => false

theorem isUpper_iff (c : Char) : c.isUpper = true ↔ 65 ≤ c.toNat ∧ c.toNat ≤ 90 := by
  rw [Char.isUpper, decide_eq_true_iff]
  rfl

theorem toNat_toLower (c : Char) :
    c.toLower.toNat = if c.isUpper then c.toNat + 32 else c.toNat := by
  by_cases h : c.val ≥ 'A'.val ∧ c.val ≤ 'Z'.val
  · have hle : c.val.toNat ≤ 90 := h.2
    rw [Char.isUpper, decide_eq_true h, if_pos rfl, Char.toLower, dif_pos h]
    change (c.val.toNat + 32) % 2 ^ 32 = c.val.toNat + 32
    omega
  · rw [Char.isUpper, decide_eq_false h, Char.toLower, dif_neg h]
    rfl

theorem alike_iff (c d : Char) : alike c d = true ↔ c.toLower = d.toLower := by
  rw [alike, decide_eq_true_iff, ← Char.toNat_inj, ← Char.toNat_inj, toNat_toLower, toNat_toLower]
  simp only [isUpper_iff]
  split <;> split <;> omega

/-- The texts are the same in lower case. -/
theorem sameLetters_iff (cs ds : List Char) :
    sameLetters cs ds = true ↔ cs.map Char.toLower = ds.map Char.toLower := by
  induction cs generalizing ds with
  | nil => cases ds <;> simp [sameLetters]
  | cons c cs ih =>
    cases ds with
    | nil => simp [sameLetters]
    | cons d ds => simp [sameLetters, alike_iff, ih]

end Text

namespace Gain

namespace Field

def names : Field → List String
  | trackGain => ["replaygain_track_gain", "rg_radio"]
  | albumGain => ["replaygain_album_gain", "rg_audiophile"]
  | trackPeak => ["replaygain_track_peak", "rg_peak"]
  | albumPeak => ["replaygain_album_peak"]

/-- Whether the key is a name of the field, up to the case of its letters. -/
def isCalled (f : Field) (key : String) : Bool :=
  f.names.any fun name => Text.sameLetters key.toList name.toList

theorem lookup_fieldNames (f : Field) (name : String) :
    fieldNames.lookup name = some f ↔ name ∈ f.names := by
  constructor
  · intro h
    obtain ⟨front, back, hsplit, -⟩ := List.lookup_eq_some_iff.mp h
    have hmem : (name, f) ∈ fieldNames := by simp [hsplit]
    simp only [fieldNames, List.mem_cons, Prod.mk.injEq, List.not_mem_nil, or_false] at hmem
    obtain ⟨rfl, rfl⟩ | ⟨rfl, rfl⟩ | ⟨rfl, rfl⟩ | ⟨rfl, rfl⟩ | ⟨rfl, rfl⟩ | ⟨rfl, rfl⟩ |
      ⟨rfl, rfl⟩ := hmem <;> simp [names]
  · intro h
    cases f <;> simp only [names, List.mem_cons, List.not_mem_nil, or_false] at h <;>
      (repeat' obtain rfl | h := h) <;> decide

theorem map_toLower_names (f : Field) :
    ∀ name ∈ f.names, name.toList.map Char.toLower = name.toList := by
  cases f <;> decide

/-- A key is looked up under the names of the fields. -/
theorem field?_eq_some_iff (f : Field) (key : String) :
    field? key = some f ↔ f.isCalled key = true := by
  rw [field?, lookup_fieldNames, isCalled, List.any_eq_true]
  constructor
  · intro h
    refine ⟨_, h, ?_⟩
    rw [Text.sameLetters_iff, map_toLower_names f _ h, String.toList_ofList]
  · rintro ⟨name, hname, h⟩
    rw [Text.sameLetters_iff, map_toLower_names f name hname] at h
    rwa [h, String.ofList_toList]

end Field

def offerAll (g : Gain) (tags : List (String × String)) : Gain :=
  tags.foldl (fun g tag => (g.offer tag.1 tag.2).gain g) g

/-- The first number in a row of tags, among those for a field. -/
def told (f : Field) (tags : List (String × String)) : Option Binary32 :=
  (tags.filter fun tag => f.isCalled tag.1).findSome? fun tag => value? tag.2

variable (g : Gain) (f : Field) (tags : List (String × String))

theorem told_cons (key value : String) :
    told f ((key, value) :: tags) =
      (if f.isCalled key then value? value else none).or (told f tags) := by
  rw [told, List.filter_cons]
  by_cases h : f.isCalled key = true
  · rw [if_pos h, if_pos h, List.findSome?_cons]
    cases value? value <;> rfl
  · rw [if_neg h, if_neg h, Option.none_or]
    rfl

/-- One tag gives its number to the field it is for. -/
theorem get_gain_offer_isCalled (key value : String) :
    ((g.offer key value).gain g).get f =
      (g.get f).or (if f.isCalled key then value? value else none) := by
  rw [get_gain_offer]
  by_cases h : f.isCalled key = true
  · rw [if_pos ((f.field?_eq_some_iff key).mpr h), if_pos h]
  · rw [if_neg (mt (f.field?_eq_some_iff key).mp h), if_neg h, Option.or_none]

theorem get_offerAll : (g.offerAll tags).get f = (g.get f).or (told f tags) := by
  induction tags generalizing g with
  | nil => exact Option.or_none.symm
  | cons tag tags ih =>
    obtain ⟨key, value⟩ := tag
    rw [offerAll, List.foldl_cons, ← offerAll, ih, get_gain_offer_isCalled, told_cons,
      Option.or_assoc]

/-- A value that is no number tells nothing. -/
theorem told_filter : told f (tags.filter fun tag => (value? tag.2).isSome) = told f tags := by
  induction tags with
  | nil => rfl
  | cons tag tags ih =>
    obtain ⟨key, value⟩ := tag
    rw [told_cons]
    cases hvalue : value? value with
    | some x => rw [List.filter_cons_of_pos (by simp [hvalue]), told_cons, ih, hvalue]
    | none => rw [List.filter_cons_of_neg (by simp [hvalue]), ih, ite_self, Option.none_or]

theorem offerAll_congr {tags tags' : List (String × String)} (h : ∀ f, told f tags = told f tags') :
    g.offerAll tags = g.offerAll tags' :=
  eq_of_get_eq fun f => by rw [get_offerAll, get_offerAll, h]

theorem isKnown_offer_eq_false_iff (key value : String) :
    (g.offer key value).isKnown = false ↔ ∀ f : Field, ¬ f.isCalled key = true := by
  rw [isKnown_offer, Option.isSome_eq_false_iff, Option.isNone_iff_eq_none]
  constructor
  · intro h f hf
    rw [(f.field?_eq_some_iff key).mpr hf] at h
    cases h
  · intro h
    cases hfield : field? key with
    | none => rfl
    | some f => exact absurd ((f.field?_eq_some_iff key).mp hfield) (h f)

/-- A row of tags leaves every field with what it had, or else with the first number among the
values of the tags for that field. Tags whose value is no number make no difference. A key that is
no name of a field is not known, and such a tag changes nothing. Rows that have the same tags for
each field, in the same order, leave the same record, however these are mixed. -/
theorem offerAll_first :
    (∀ f : Field, (g.offerAll tags).get f = (g.get f).or
      ((tags.filter fun tag => f.isCalled tag.1).findSome? fun tag => value? tag.2)) ∧
    g.offerAll (tags.filter fun tag => (value? tag.2).isSome) = g.offerAll tags ∧
    (∀ key value, (g.offer key value).isKnown = false ↔ ∀ f : Field, ¬ f.isCalled key = true) ∧
    (∀ key value, (∀ f : Field, ¬ f.isCalled key = true) → (g.offer key value).gain g = g) ∧
    ∀ tags', (∀ f : Field, (tags'.filter fun tag => f.isCalled tag.1) =
      tags.filter fun tag => f.isCalled tag.1) → g.offerAll tags' = g.offerAll tags := by
  refine ⟨fun f => g.get_offerAll f tags, ?_, g.isKnown_offer_eq_false_iff, ?_, ?_⟩
  · exact g.offerAll_congr fun f => told_filter f tags
  · intro key value h
    refine eq_of_get_eq fun f => ?_
    rw [get_gain_offer_isCalled, if_neg (h f), Option.or_none]
  · intro tags' h
    refine g.offerAll_congr fun f => ?_
    rw [told, told, h f]

/-- Two names for one field in mixed case, the first with a value that is no number, between tags
for another field and for none. Another order of them leaves the same record. -/
theorem offerAll_first_mixed :
    let tags := [("RG_Radio", "garbage"), ("rg_peak", " .5"), ("rg_loudness", "89.0 dB"),
      ("rg_radio", "-1.0 dB"), ("REPLAYGAIN_TRACK_GAIN", "-2"), ("Rg_Peak", "1")]
    let tags' := [("rg_peak", " .5"), ("RG_Radio", "garbage"), ("rg_radio", "-1.0 dB"),
      ("Rg_Peak", "1"), ("REPLAYGAIN_TRACK_GAIN", "-2"), ("rg_loudness", "89.0 dB")]
    let g : Gain := { albumPeak := some ⟨0x3f800000⟩ }
    g.offerAll tags' = g.offerAll tags ∧
      (g.offerAll tags).trackGain = some ⟨0xbf800000⟩ ∧
      (g.offer "rg_loudness" "89.0 dB").gain g = g := by
  intro tags tags' g
  obtain ⟨hfirst, -, -, hidle, hmixed⟩ := g.offerAll_first tags
  refine ⟨hmixed tags' ?_, ?_, hidle _ _ ?_⟩
  · intro f
    cases f <;> decide
  · have htold : ((tags.filter fun tag => Field.trackGain.isCalled tag.1).findSome? fun tag =>
        value? tag.2) = some ⟨0xbf800000⟩ := by
      decide +kernel
    exact (hfirst .trackGain).trans htold
  · intro f
    cases f <;> decide

end Gain

end AudioAtoms
