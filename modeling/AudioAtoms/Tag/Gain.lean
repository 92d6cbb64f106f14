import AudioAtoms.Decimal.Binary32
import AudioAtoms.Notice
import AudioAtoms.Text.Blank

/-!
# Loudness

Gain tags tell by how much to change the volume of a track or an album, peak tags how loud it gets.
The first value for a field counts.
-/
namespace AudioAtoms

structure Gain where
  trackGain : Option Binary32 := none
  albumGain : Option Binary32 := none
  trackPeak : Option Binary32 := none
  albumPeak : Option Binary32 := none
deriving DecidableEq, Repr

namespace Gain

inductive Field where
  | trackGain
  | albumGain
  | trackPeak
  | albumPeak
deriving DecidableEq, Repr

def get (g : Gain) : Field → Option Binary32
  | .trackGain => g.trackGain
  | .albumGain => g.albumGain
  | .trackPeak => g.trackPeak
  | .albumPeak => g.albumPeak

def set (g : Gain) (x : Binary32) : Field → Gain
  | .trackGain => { g with trackGain := some x }
  | .albumGain => { g with albumGain := some x }
  | .trackPeak => { g with trackPeak := some x }
  | .albumPeak => { g with albumPeak := some x }

def isEmpty (g : Gain) : Bool :=
  g.trackGain.isNone && g.albumGain.isNone && g.trackPeak.isNone && g.albumPeak.isNone

def fieldNames : List (String × Field) :=
  [("replaygain_track_gain", .trackGain), ("rg_radio", .trackGain),
   ("replaygain_album_gain", .albumGain), ("rg_audiophile", .albumGain),
   ("replaygain_track_peak", .trackPeak), ("rg_peak", .trackPeak),
   ("replaygain_album_peak", .albumPeak)]

/-- The field with a name, in any case of ASCII letters. -/
def field? (key : String) : Option Field :=
  fieldNames.lookup (String.ofList (key.toList.map Char.toLower))

/-- The number at the front of a value, behind blanks. -/
def value? (value : String) : Option Binary32 :=
  (Numeral.leading? (value.toList.dropWhile Text.isBlank)).bind Binary32.nearest?

inductive Outcome where
  | unknownName
  | alreadySet
  | malformed
  | stored (g : Gain)
deriving DecidableEq, Repr

def offer (g : Gain) (key value : String) : Outcome :=
  match field? key with
  | none => .unknownName
  | some field =>
    if (g.get field).isSome then .alreadySet
    else
      match value? value with
      | some x => .stored (g.set x field)
      | none => .malformed

namespace Outcome

def gain (old : Gain) : Outcome → Gain
  | stored g => g
  | _ => old

def isKnown : Outcome → Bool
  | unknownName => false
  | _ => true

def notice? (key value : String) : Outcome → Option Notice
  | malformed => some (.malformedGain key value)
  | _ => none

end Outcome

@[simp] theorem get_set (g : Gain) (x : Binary32) (f f' : Field) :
    (g.set x f).get f' = if f' = f then some x else g.get f' := by
  cases f <;> cases f' <;> rfl

theorem eq_of_get_eq {g h : Gain} (heq : ∀ f, g.get f = h.get f) : g = h := by
  cases g
  cases h
  rw [mk.injEq]
  exact ⟨heq .trackGain, heq .albumGain, heq .trackPeak, heq .albumPeak⟩

/-- A tag gives its value to the field of its name, if that has none. -/
theorem get_gain_offer (g : Gain) (key value : String) (f : Field) :
    ((g.offer key value).gain g).get f =
      if field? key = some f then (g.get f).or (value? value) else g.get f := by
  unfold offer
  cases field? key with
  | none => rfl
  | some field =>
    dsimp only
    by_cases hf : field = f
    · subst hf
      rw [if_pos rfl]
      cases hset : g.get field with
      | some x => exact hset
      | none =>
        cases hvalue : value? value with
        | none => exact hset
        | some x => exact (get_set g x field field).trans (if_pos rfl)
    · rw [if_neg (mt Option.some.inj hf)]
      split
      · rfl
      · cases hvalue : value? value with
        | none => rfl
        | some x => exact (get_set g x field f).trans (if_neg (Ne.symm hf))

theorem isKnown_offer (g : Gain) (key value : String) :
    (g.offer key value).isKnown = (field? key).isSome := by
  unfold offer
  cases field? key with
  | none => rfl
  | some field =>
    dsimp only
    split
    · rfl
    · cases value? value <;> rfl

end Gain

end AudioAtoms
