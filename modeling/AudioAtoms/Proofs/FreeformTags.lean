import AudioAtoms.Proofs.ArenaLayout

/-!
# The parts of a free-form tag

A free-form tag holds three atoms: whose name it has, the name and the value. Only the first octets
of the name are looked at, and nothing of what stands before it. The value is found behind them
whatever the lengths are. It is a text for three of the names and tells the samples to drop for one.
For all other names it is looked at as a gain and not kept.
-/
namespace AudioAtoms

namespace Freeform

def Key.name : Key → String
  | composer => "composer"
  | gapless => "iTunSMPB"
  | musicBrainzTrack => "musicbrainz track id"
  | albumArtist => "album artist"

theorem key?_eq_some_iff {name : String} {key : Key} : key? name = some key ↔ name = key.name := by
  constructor
  · intro h
    unfold key? at h
    repeat' split at h
    all_goals cases h
    all_goals assumption
  · rintro rfl
    cases key <;> decide

theorem Key.name_spec (key : Key) :
    Char.ofNat 0xFFFD ∉ key.name.toList ∧
      (Text.encode key.name).length < ReadTag.maxNameSize := by
  rw [Text.encode_eq]
  cases key <;> decide

/-- The names are short enough to be told by the octets that are looked at. -/
theorem key?_decode_take_iff {bs : Bytes} {key : Key} :
    key? (Text.decode (bs.take ReadTag.maxNameSize)) = some key ↔ bs = Text.encode key.name := by
  obtain ⟨hchars, hlen⟩ := key.name_spec
  rw [key?_eq_some_iff, Text.decode_eq_iff hchars]
  constructor
  · intro h
    have hshort : bs.length ≤ ReadTag.maxNameSize := by
      rw [← h, List.length_take] at hlen
      omega
    rwa [List.take_of_length_le hshort] at h
  · intro h
    rw [h, List.take_of_length_le (Nat.le_of_lt hlen)]

end Freeform

namespace Gain
variable {g : Gain} {key : String} {most : Nat} {value : Bytes}

def offered (g : Gain) (key : String) (most : Nat) (value : Bytes) : Gain :=
  if value = [] ∨ most = 0 then g
  else (g.offer key (Text.decode (Arena.trimmed most value))).gain g

theorem get_offered {field : Field} (h : field? key ≠ some field) :
    (g.offered key most value).get field = g.get field := by
  unfold offered
  split
  · rfl
  · rw [get_gain_offer, if_neg h]

end Gain

/-- The atom inside a tag that holds its value, behind the type and the locale of the value. -/
def TagValue.octets (type : Vector UInt8 8) (value : Bytes) : Bytes :=
  Atom.octets (.ofChars 'd' 'a' 't' 'a') (type.toList ++ value)

namespace TagContent
variable {o : Options} {c : Collected} {bs bs' : Bytes}

theorem value_octets (most : Nat) (type : Vector UInt8 8) (found : Bytes) :
    value most (TagValue.octets type found) = found.take most := by
  have hdrop : (TagValue.octets type found).drop TagValue.offset = found := by
    rw [TagValue.octets, Atom.octets, ← List.append_assoc, ← List.append_assoc]
    exact List.drop_left' (by simp [Code.toBytes, TagValue.offset])
  rw [value, hdrop]

/-- Nothing of a text tag counts but its value. -/
theorem text_congr {field : TextField} (h : value c.arena.room bs = value c.arena.room bs') :
    text o field bs c = text o field bs' c := by
  unfold text load
  rw [h]

theorem gain_eq (key : String) :
    gain o key bs c = (load bs c).mapTags fun tags => { tags with
      gain := tags.gain.offered key o.maxValueSize (value c.arena.room bs) } := by
  have hroom : (value c.arena.room bs).length ≤ c.arena.remaining :=
    Nat.le_trans (List.length_take_le _ _) (Nat.sub_le _ _)
  unfold gain Gain.offered
  by_cases hnone : value c.arena.room bs = [] ∨ o.maxValueSize = 0
  · have hpeek : (load bs c).arena.peek (value c.arena.room bs).length o.maxValueSize = none :=
      if_pos (hnone.imp_left fun h => congrArg List.length h)
    simp only [hpeek, if_pos hnone]
    rfl
  · obtain ⟨hne, hmost⟩ := not_or.mp hnone
    have hpeek : (load bs c).arena.peek (value c.arena.room bs).length o.maxValueSize =
        some (Text.decode (Arena.trimmed o.maxValueSize (value c.arena.room bs))) :=
      Arena.peek_written hne hmost hroom
    simp only [hpeek, if_neg hnone]

end TagContent

/-- The state `d` is what a plain text tag with the value makes of `c`, whatever type the value is
of and wherever the tag stands. -/
def ReadTag.StoresText (o : Options) (field : TextField) (value : Bytes) (c d : Collected) : Prop :=
  ∀ (type : Vector UInt8 8) (pos : Nat) (tail : Bytes),
    let bs := TagValue.octets type value
    ((text o field).exec c (Scoped.ofSize (Slice.mk pos (bs ++ tail)) bs.length)).1 = (.ok (), d)

theorem ReadTag.storesText_octets (o : Options) (field : TextField) (type : Vector UInt8 8)
    (value : Bytes) (c : Collected) :
    StoresText o field value c (TagContent.text o field (TagValue.octets type value) c) := by
  intro type' pos tail bs
  have hvalue : TagContent.value c.arena.room bs =
      TagContent.value c.arena.room (TagValue.octets type value) := by
    rw [TagContent.value_octets, TagContent.value_octets]
  rw [← TagContent.text_congr hvalue]
  exact exec_text_scoped pos bs tail (.ofSize bs.length) (Nat.zero_add _).symm

structure FreeformTag where
  mean : Bytes
  /-- The version and the flags before the name. -/
  flags : Vector UInt8 4
  name : Bytes
  /-- The type and the locale before the value. -/
  type : Vector UInt8 8
  value : Bytes
deriving DecidableEq, Repr

namespace FreeformTag
variable (t : FreeformTag)

def data : Bytes := TagValue.octets t.type t.value

def payload : Bytes :=
  Atom.octets (.ofChars 'm' 'e' 'a' 'n') t.mean ++
    (Atom.octets (.ofChars 'n' 'a' 'm' 'e') (t.flags.toList ++ t.name) ++ t.data)

/-- The sizes before the value fit into the four octets they have. That of the value is not looked
at. -/
def WellSized : Prop :=
  Header.minSize + t.mean.length < 2 ^ 32 ∧
    Header.minSize + (t.flags.toList ++ t.name).length < 2 ^ 32

def key : String := Text.decode (t.name.take ReadTag.maxNameSize)

/-- The name of a free-form tag is read back, and its value stands behind it. -/
theorem name_payload (hsized : t.WellSized) (hnul : 0 ∉ t.name) :
    TagContent.name? t.payload = some (t.key, t.data) := by
  obtain ⟨hmean, hname⟩ := hsized
  let named := t.flags.toList ++ t.name
  have hnamed : named.length = 4 + t.name.length := by
    rw [List.length_append, Vector.length_toList]
  have hminSize : Header.minSize = 8 := rfl
  have hmeanSize := Atom.numberAt_octets (.ofChars 'm' 'e' 'a' 'n') t.mean
    (Atom.octets (.ofChars 'n' 'a' 'm' 'e') named ++ t.data) hmean
  have hnameSize := Atom.numberAt_octets (.ofChars 'n' 'a' 'm' 'e') named t.data hname
  have hbehindMean : (t.payload.drop 4).drop (Content.numberAt t.payload 0 4 - 4) =
      Atom.octets (.ofChars 'n' 'a' 'm' 'e') named ++ t.data := by
    rw [payload, hmeanSize, List.drop_drop]
    refine List.drop_left' ?_
    rw [Atom.length_octets]
    omega
  have hbehindHead : (Atom.octets (.ofChars 'n' 'a' 'm' 'e') named ++ t.data).drop 12 =
      t.name ++ t.data := by
    rw [Atom.octets, ← List.append_assoc, ← List.append_assoc, List.append_assoc]
    exact List.drop_left' (by simp [Code.toBytes])
  have hsize : Header.minSize + named.length - 12 = t.name.length := by omega
  have hseen : 0 ∉ t.name.take ReadTag.maxNameSize := fun h => hnul (List.mem_of_mem_take h)
  rw [TagContent.name?, hbehindMean, hnameSize, hbehindHead, hsize, List.take_left, List.drop_left,
    Bytes.untilNul_eq hseen, if_pos, key]
  constructor
  · simp only [payload, List.length_append, Atom.length_octets]
    omega
  · simp only [List.length_append, Atom.length_octets]
    omega

/-- A free-form tag is passed as a whole, and what its value does depends on the first octets of
its name. Four names are known, and no other octets are taken for one of them. For three of them
the value is stored as that of a plain text tag is. For the fourth its first octets tell the samples
to drop. Under any other name at most the gain that it names changes, and nothing is kept in the
arena. -/
theorem readTag_aligned (o : Options) (h : Header) (hkind : h.kind = .freeform)
    (hsize : h.dataSize = t.payload.length) (hsized : t.WellSized) (hnul : 0 ∉ t.name)
    (c : Collected) (pos : Nat) (tail : Bytes) :
    ∃ d, (TagList.readTag o h : Collect StreamError false Unit).exec c
        (Slice.mk pos (t.payload ++ tail)) = ((.ok (), d), ⟨pos + t.payload.length, tail⟩) ∧
      (∀ key, Freeform.key? t.key = some key ↔ t.name = Text.encode key.name) ∧
      match Freeform.key? t.key with
      | some .composer => ReadTag.StoresText o .composer t.value c d
      | some .albumArtist => ReadTag.StoresText o .albumArtist t.value c d
      | some .musicBrainzTrack => ReadTag.StoresText o .musicBrainzTrack t.value c d
      | some .gapless =>
        let found := Text.decode (Bytes.untilNul (t.value.take ReadTag.maxGaplessSize))
        d = c.mapAudio fun a => { a with
          leadTrim := Freeform.gaplessField found 1, tailTrim := Freeform.gaplessField found 2 }
      | none =>
        let found := t.value.take c.arena.room
        d.arena = c.arena.write found ∧ d.arena.used = c.arena.used ∧
          d.track = { c.track with tags := { c.track.tags with gain := d.track.tags.gain } } ∧
          d.track.tags.gain = c.track.tags.gain.offered t.key o.maxValueSize found ∧
          ∀ field, Gain.field? t.key ≠ some field →
            d.track.tags.gain.get field = c.track.tags.gain.get field := by
  have heffect : TagContent.apply o h.kind pos t.payload c = TagContent.freeform o t.payload c := by
    rw [hkind]
    rfl
  refine ⟨_, TagList.exec_readTag_apply o h c pos t.payload tail hsize,
    fun key => Freeform.key?_decode_take_iff, ?_⟩
  rw [heffect, TagContent.freeform, t.name_payload hsized hnul]
  dsimp only
  cases Freeform.key? t.key with
  | none =>
    have hvalue : TagContent.value c.arena.room t.data = t.value.take c.arena.room :=
      TagContent.value_octets _ _ _
    dsimp only
    rw [TagContent.gain_eq, TagContent.load, hvalue]
    exact ⟨rfl, rfl, rfl, rfl, fun field hfield => Gain.get_offered hfield⟩
  | some key =>
    cases key with
    | composer => exact ReadTag.storesText_octets o .composer t.type t.value c
    | albumArtist => exact ReadTag.storesText_octets o .albumArtist t.type t.value c
    | musicBrainzTrack => exact ReadTag.storesText_octets o .musicBrainzTrack t.type t.value c
    | gapless =>
      have hvalue : TagContent.value ReadTag.maxGaplessSize t.data =
          t.value.take ReadTag.maxGaplessSize := TagContent.value_octets _ _ _
      dsimp only
      rw [TagContent.gapless, hvalue]

/-- A composer behind an owner of five octets, in an arena that has no room for all of it. -/
theorem readTag_aligned_composer :
    let t : FreeformTag := ⟨[1, 2, 3, 4, 5], #v[0, 0, 0, 0], Text.encode "composer",
      #v[0, 0, 0, 1, 0, 0, 0, 0], Text.encode "Bach"⟩
    let c : Collected := { arena := .ofCapacity 4 }
    t.WellSized ∧ 0 ∉ t.name ∧
      ∃ d, (TagList.readTag {} ⟨.freeform, false, 53⟩ : Collect StreamError false Unit).exec c
          (Slice.mk 8 (t.payload ++ [0x7a])) = ((.ok (), d), ⟨61, [0x7a]⟩) ∧
        ReadTag.StoresText {} .composer t.value c d ∧ d.track.tags.composer = some "Bac" := by
  intro t c
  have hname : Text.encode "composer" = [0x63, 0x6f, 0x6d, 0x70, 0x6f, 0x73, 0x65, 0x72] := by cbv
  have hvalue : Text.encode "Bach" = [0x42, 0x61, 0x63, 0x68] := by cbv
  have hsized : t.WellSized := by
    simp only [WellSized, t, hname]
    decide
  have hnul : 0 ∉ t.name := by
    simp only [t, hname]
    decide
  have hsize : t.payload.length = 53 := by
    simp only [t, hname, hvalue]
    cbv
  obtain ⟨d, hexec, hkeys, hd⟩ :=
    t.readTag_aligned {} ⟨.freeform, false, 53⟩ rfl hsize.symm hsized hnul c 8 [0x7a]
  rw [hsize] at hexec
  rw [(hkeys .composer).mpr rfl] at hd
  have hset := congrArg (·.2.track.tags.composer) (hd t.type 0 [])
  refine ⟨hsized, hnul, d, hexec, hd, hset.symm.trans ?_⟩
  simp only [t, c, hvalue]
  cbv

end FreeformTag

end AudioAtoms
