import AudioAtoms.Proofs.Recording
import AudioAtoms.Proofs.Steps
import AudioAtoms.Proofs.WalkVisit

/-!
# Gapless tags

How many samples to drop at the start and at the end stands in free-form tags of one name. Unlike
the other fields, these two are written anew by each such tag: the last one counts, and one without
a value sets both to zero.
-/
namespace AudioAtoms

def Audio.trims (a : Audio) : Nat × Nat := (a.leadTrim, a.tailTrim)

def Freeform.trims (value : String) : Nat × Nat := (gaplessField value 1, gaplessField value 2)

/-- The value of a gapless tag, empty if it has none. -/
def TagAtom.gapless? (tag : TagAtom) : Option String :=
  if Kind.ofCode tag.code = .freeform then
    match TagContent.name? tag.payload with
    | some (key, bs) =>
      if Freeform.key? key = some .gapless then
        some (Text.decode (Bytes.untilNul (TagContent.value ReadTag.maxGaplessSize bs)))
      else none
    | none => none
  else none

namespace TagAtom

theorem gapless?_freeform (value : Bytes) :
    (TagAtom.mk Kind.freeform.code (Recording.freeform "iTunSMPB" value)).gapless? =
      some (Text.decode (Bytes.untilNul (value.take ReadTag.maxGaplessSize))) := by
  have hkind : Kind.ofCode Kind.freeform.code = .freeform := Kind.ofCode_code .freeform (by decide)
  have hkey : Freeform.key? "iTunSMPB" = some .gapless := by decide
  have hname := Recording.name_freeform "iTunSMPB" value
    (by rw [Text.encode_eq]; decide) (by rw [Text.encode_eq]; decide)
  rw [gapless?, if_pos hkind, hname]
  simp only [hkey, if_true]
  rw [Recording.value_data]

/-- The numbers that were written into a gapless tag are those that it tells. -/
theorem trims_gaplessTag (lead tail : UInt32) :
    ∃ value, (Recording.gaplessTag lead tail).gapless? = some value ∧
      Freeform.trims value = (lead.toNat, tail.toNat) := by
  obtain ⟨hlen, hnul⟩ := Gapless.encode_text lead.toNat tail.toNat
  obtain ⟨hlead, htail⟩ := Gapless.gaplessField_text lead.toNat tail.toNat lead.toNat_lt tail.toNat_lt
  refine ⟨_, gapless?_freeform _, ?_⟩
  rw [List.take_of_length_le hlen, Bytes.untilNul_eq hnul, Text.decode_encode, Freeform.trims,
    hlead, htail]

end TagAtom

namespace TagContent
variable (o : Options) (bs : Bytes) (c : Collected)

theorem trims_freeform :
    (freeform o bs c).track.audio.trims =
      match name? bs with
      | some (key, bs) =>
        if Freeform.key? key = some .gapless then
          Freeform.trims (Text.decode (Bytes.untilNul (value ReadTag.maxGaplessSize bs)))
        else c.track.audio.trims
      | none => c.track.audio.trims := by
  rw [freeform]
  cases name? bs with
  | none => rfl
  | some named =>
    obtain ⟨key, bs⟩ := named
    dsimp only
    cases Freeform.key? key with
    | none =>
      rw [if_neg (by simp), audio_gain]
    | some known =>
      cases known with
      | gapless => rw [if_pos rfl]; rfl
      | _ => rw [if_neg (by decide), audio_text]

/-- A tag writes the samples to drop if and only if it is a gapless tag. -/
theorem trims_apply (pos : Nat) (tag : TagAtom) :
    (apply o (.ofCode tag.code) pos tag.payload c).track.audio.trims =
      (tag.gapless?.map Freeform.trims).getD c.track.audio.trims := by
  by_cases hk : Kind.ofCode tag.code = .freeform
  · rw [hk, apply, trims_freeform, TagAtom.gapless?, if_pos hk]
    split
    · split <;> rfl
    · rfl
  · rw [audio_apply o _ c hk, TagAtom.gapless?, if_neg hk]
    rfl

/-- Of several gapless tags the last one counts. -/
theorem trims_applyAll (pos : Nat) (tags : List TagAtom) :
    (applyAll o pos tags c).track.audio.trims =
      ((tags.filterMap TagAtom.gapless?).getLast?.map Freeform.trims).getD
        c.track.audio.trims := by
  induction tags generalizing pos c with
  | nil => rfl
  | cons tag tags ih =>
    rw [applyAll, ih, trims_apply]
    cases hvalue : tag.gapless? with
    | none =>
      rw [List.filterMap_cons_none hvalue]
      rfl
    | some value =>
      rw [List.filterMap_cons_some hvalue, List.getLast?_cons]
      cases (tags.filterMap TagAtom.gapless?).getLast? <;> rfl

end TagContent

namespace TagList

/-- The samples to drop are those that the last gapless tag of a list tells, zero for both if it
has no value, and what they were if there is no such tag. -/
theorem trims_read (o : Options) (tags : List TagAtom) (c : Collected) (pos : Nat) (tail : Bytes)
    (hs : ∀ tag ∈ tags, Header.minSize + tag.payload.length < 2 ^ 32) :
    let run := (read o (octets tags).length : Collect StreamError false Unit).exec c
      (Slice.mk pos (octets tags ++ tail))
    run.1.1 = .ok () ∧
      run.1.2.track.audio.trims =
        ((tags.filterMap TagAtom.gapless?).getLast?.map Freeform.trims).getD
          c.track.audio.trims := by
  intro run
  have hrun : run = _ := exec_read_octets o tags c pos tail hs
  rw [hrun]
  exact ⟨rfl, TagContent.trims_applyAll o c pos tags⟩

/-- A gapless tag without a value behind one that has one. -/
theorem trims_read_empty :
    let tags := [Recording.gaplessTag 0x840 0x1ca,
      ⟨Kind.freeform.code, Recording.freeform "iTunSMPB" []⟩]
    let run := (read {} (octets tags).length : Collect StreamError false Unit).exec (.start {})
      (Slice.mk 0 (octets tags ++ []))
    (tags.filterMap TagAtom.gapless?).map Freeform.trims = [(2112, 458), (0, 0)] ∧
      run.1.1 = .ok () ∧ run.1.2.track.audio.trims = (0, 0) := by
  intro tags run
  have hsize : Header.minSize + (octets tags).length < 2 ^ 32 := by cbv
  obtain ⟨value, hvalue, htrims⟩ := TagAtom.trims_gaplessTag 0x840 0x1ca
  have hempty : Text.decode (Bytes.untilNul (List.take ReadTag.maxGaplessSize [])) = "" := by cbv
  have hvalues : tags.filterMap TagAtom.gapless? = [value, ""] := by
    rw [List.filterMap_cons_some hvalue, List.filterMap_cons_some (TagAtom.gapless?_freeform []),
      hempty]
    rfl
  have hread := trims_read {} tags (.start {}) 0 [] (fits_of_length hsize)
  rw [hvalues] at hread ⊢
  exact ⟨by rw [List.map_cons, htrims]; rfl, hread⟩

/-- Of two gapless tags the first one is lost. -/
theorem first_gapless_lost :
    let tags := [Recording.gaplessTag 0x840 0x1ca, Recording.gaplessTag 0x111 0x222]
    let run := (read {} (octets tags).length : Collect StreamError false Unit).exec (.start {})
      (Slice.mk 0 (octets tags ++ []))
    (tags.filterMap TagAtom.gapless?).head?.map Freeform.trims = some (2112, 458) ∧
      run.1.2.track.audio.trims = (273, 546) := by
  intro tags run
  have hsize : Header.minSize + (octets tags).length < 2 ^ 32 := by cbv
  obtain ⟨first, hfirst, hlost⟩ := TagAtom.trims_gaplessTag 0x840 0x1ca
  obtain ⟨second, hsecond, htold⟩ := TagAtom.trims_gaplessTag 0x111 0x222
  have hvalues : tags.filterMap TagAtom.gapless? = [first, second] := by
    rw [List.filterMap_cons_some hfirst, List.filterMap_cons_some hsecond]
    rfl
  have hrun : run = _ := exec_read_octets {} tags (.start {}) 0 [] (fits_of_length hsize)
  rw [hrun, TagContent.trims_applyAll, hvalues]
  exact ⟨congrArg some hlost, htold⟩

end TagList

end AudioAtoms
