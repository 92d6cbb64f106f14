import AudioAtoms.Proofs.ArenaUse
import AudioAtoms.Proofs.ReadTrack
import AudioAtoms.Proofs.Recording
import AudioAtoms.Proofs.WalkVisit

/-!
# Round trip

The file of a recording is read back as the recording. The texts share the arena: each is kept as
it is, as long as all of them have room in it together.
-/
namespace AudioAtoms

namespace Arena

def need (text : String) : Nat := (Text.encode text).length + 1

/-- A value that was written into the arena and has room there is kept as it is. -/
theorem commit_write (a : Arena) (text : String) (most : Nat) (hnul : 0 ∉ Text.encode text)
    (hne : Text.encode text ≠ []) (hmost : need text ≤ most) (hroom : need text ≤ a.remaining) :
    ∃ b, (a.write (Text.encode text)).commit (Text.encode text).length most = .ok (text, b) ∧
      b.remaining + need text = a.remaining := by
  rw [need] at hmost hroom ⊢
  have htrimmed : trimmed most (Text.encode text) = Text.encode text := by
    rw [trimmed, Bytes.untilNul_eq hnul, List.take_of_length_le (by omega)]
  obtain ⟨b, hb, htakes⟩ := @commit_written a _ most hne (by omega) hroom
  rw [htrimmed, Text.decode_encode] at hb
  rw [htrimmed] at htakes
  exact ⟨b, hb, htakes.remaining⟩

theorem alloc_room (a : Arena) (text : String) (hroom : need text ≤ a.remaining) :
    ∃ b, a.alloc text = .ok (text, b) ∧ b.remaining + need text = a.remaining := by
  obtain ⟨b, hb, htakes⟩ := alloc_takes hroom
  exact ⟨b, hb, htakes.remaining⟩

end Arena

/-- The tags with a text put into a field, and the year if the field is the date. -/
def Tags.put (t : Tags) (text : String) : TextField → Tags
  | .date => { t with date := some text, year := Date.year? text }
  | field => t.setText (some text) field

theorem Tags.text_put (t : Tags) (text : String) (field other : TextField) :
    (t.put text field).text other = if other = field then some text else t.text other := by
  cases field <;> cases other <;> rfl

namespace TagContent
open Recording

theorem text_data (o : Options) (field : TextField) (text : String) (c : Collected)
    (hunset : c.track.tags.text field = none) (hne : text ≠ "") (hnul : 0 ∉ Text.encode text)
    (hmost : Arena.need text ≤ o.maxValueSize) (hroom : Arena.need text ≤ c.arena.remaining) :
    ∃ b, TagContent.text o field (data (Text.encode text)) c =
        ⟨{ c.track with tags := c.track.tags.setText (some text) field }, b⟩ ∧
      b.remaining + Arena.need text = c.arena.remaining := by
  have hencode : Text.encode text ≠ [] := by
    intro h
    have hdecode := Text.decode_encode text
    rw [h] at hdecode
    rw [Text.decode, Text.decodeChars] at hdecode
    exact hne hdecode.symm
  have hvalue : value c.arena.room (data (Text.encode text)) = Text.encode text := by
    rw [value_data, List.take_of_length_le]
    rw [Arena.need] at hroom
    rw [Arena.room]
    omega
  obtain ⟨b, hb, hleft⟩ := c.arena.commit_write text o.maxValueSize hnul hencode hmost hroom
  refine ⟨b, ?_, hleft⟩
  rw [TagContent.text, hvalue, if_pos ⟨hencode, by simp [load, Collected.mapArena, hunset]⟩]
  simp only [load, hvalue, Collected.mapArena, hb, Collected.keep, Collected.mapTags]

/-- A text tag puts its text into its field. -/
theorem apply_textTag (o : Options) (field : TextField) (text : String) (pos : Nat) (c : Collected)
    (hunset : c.track.tags.text field = none) (hne : text ≠ "") (hnul : 0 ∉ Text.encode text)
    (hmost : Arena.need text ≤ o.maxValueSize) (hroom : Arena.need text ≤ c.arena.remaining) :
    ∃ b, apply o (.ofCode (textTag field text).code) pos (textTag field text).payload c =
        ⟨{ c.track with tags := c.track.tags.put text field }, b⟩ ∧
      b.remaining + Arena.need text = c.arena.remaining := by
  obtain ⟨b, hb, hleft⟩ := text_data o field text c hunset hne hnul hmost hroom
  refine ⟨b, ?_, hleft⟩
  have hkind : Kind.ofCode (textTag field text).code = field.kind :=
    Kind.ofCode_code field.kind (by cases field <;> decide)
  rw [hkind]
  cases field with
  | date =>
    change date o _ c = _
    rw [date, show (textTag .date text).payload = data (Text.encode text) from rfl, hb]
    rfl
  | musicBrainzTrack =>
    have hname := name_freeform "musicbrainz track id" (Text.encode text)
      (by rw [Text.encode_eq]; decide) (by rw [Text.encode_eq]; decide)
    have hkey : Freeform.key? "musicbrainz track id" = some .musicBrainzTrack := by decide
    change freeform o (Recording.freeform "musicbrainz track id" (Text.encode text)) c = _
    rw [freeform, hname]
    simp only [hkey]
    exact hb
  | _ => exact hb

/-- Text tags for different fields fill these fields, if the arena has room for all of them. -/
theorem applyAll_textTags (o : Options) (text : TextField → String) (hne : ∀ field, text field ≠ "")
    (hnul : ∀ field, 0 ∉ Text.encode (text field))
    (hmost : ∀ field, Arena.need (text field) ≤ o.maxValueSize) (fields : List TextField)
    (hnodup : fields.Nodup) (rest : List TagAtom) (pos : Nat) (c : Collected)
    (hunset : ∀ field ∈ fields, c.track.tags.text field = none)
    (hroom : (fields.map fun field => Arena.need (text field)).sum ≤ c.arena.remaining) :
    ∃ behind b, applyAll o pos (fields.map (fun field => textTag field (text field)) ++ rest) c =
        applyAll o behind rest
          ⟨{ c.track with tags := fields.foldl (fun t field => t.put (text field) field) c.track.tags },
            b⟩ ∧
      b.remaining + (fields.map fun field => Arena.need (text field)).sum = c.arena.remaining := by
  induction fields generalizing pos c with
  | nil => exact ⟨pos, c.arena, rfl, rfl⟩
  | cons field fields ih =>
    rw [List.nodup_cons] at hnodup
    simp only [List.map_cons, List.sum_cons] at hroom ⊢
    obtain ⟨b, hb, hleft⟩ := apply_textTag o field (text field) (pos + Header.minSize) c
      (hunset field (by simp)) (hne field) (hnul field) (hmost field) (by omega)
    obtain ⟨behind, d, hd, hrest⟩ := ih hnodup.2
      (pos + Header.minSize + (textTag field (text field)).payload.length)
      ⟨{ c.track with tags := c.track.tags.put (text field) field }, b⟩
      (fun other hother => by
        have hdiff : other ≠ field := fun h => hnodup.1 (h ▸ hother)
        rw [Tags.text_put, if_neg hdiff]
        exact hunset other (List.mem_cons_of_mem field hother))
      (by dsimp only; omega)
    refine ⟨behind, d, ?_, by dsimp only at hrest; omega⟩
    rw [List.cons_append, applyAll, hb, hd]
    rfl

def numberingOf (numbers : UInt16 × UInt16) : Numbering :=
  ⟨some numbers.1.toNat,
    if 0 < numbers.2.toNat then some s!"{numbers.1.toNat}/{numbers.2.toNat}" else none⟩

def numberNeed (numbers : UInt16 × UInt16) : Nat :=
  if 0 < numbers.2.toNat then Arena.need s!"{numbers.1.toNat}/{numbers.2.toNat}" else 0

theorem apply_numberTag (o : Options) (field : NumberField) (numbers : UInt16 × UInt16) (pos : Nat)
    (c : Collected) (hunset : c.track.tags.numbering field = {})
    (hroom : numberNeed numbers ≤ c.arena.remaining) :
    ∃ b, apply o (.ofCode (numberTag field numbers).code) pos (numberTag field numbers).payload c =
        ⟨{ c.track with tags := c.track.tags.setNumbering (numberingOf numbers) field }, b⟩ ∧
      b.remaining + numberNeed numbers = c.arena.remaining := by
  obtain ⟨m, n⟩ := numbers
  let found : Bytes := [0, 0] ++ (Bytes.ofNat 2 m.toNat ++ Bytes.ofNat 2 n.toNat)
  have hvalue : value 6 (data found) = found := by
    rw [value_data, List.take_of_length_le (by simp [found])]
  have hm : Bytes.toNat ((found.drop 2).take 2) = m.toNat := by
    have hnumber := Content.numberAt_append [0, 0] (Bytes.ofNat 2 n.toNat) 2 m.toNat m.toNat_lt
    exact hnumber
  have hn : Bytes.toNat (found.drop 4) = n.toNat := by
    have hdrop : found.drop 4 = Bytes.ofNat 2 n.toNat := by
      rw [show found = ([0, 0] ++ Bytes.ofNat 2 m.toNat) ++ Bytes.ofNat 2 n.toNat from
        (List.append_assoc _ _ _).symm]
      exact List.drop_left' (by simp)
    rw [hdrop, Bytes.toNat_ofNat 2 n.toNat n.toNat_lt]
  have happly : apply o (.ofCode (numberTag field (m, n)).code) pos (numberTag field (m, n)).payload c =
      numbering field (data found) c := by
    cases field with
    | track => rfl
    | disc => rfl
  rw [happly, numbering, hvalue, hm, hn, if_pos ⟨by simp [found], by rw [hunset]; rfl⟩]
  simp only [numberNeed, numberingOf] at hroom ⊢
  by_cases htotal : 0 < n.toNat
  · rw [if_pos htotal] at hroom
    obtain ⟨b, hb, hleft⟩ := c.arena.alloc_room s!"{m.toNat}/{n.toNat}" hroom
    refine ⟨b, ?_, by rw [if_pos htotal]; exact hleft⟩
    rw [if_pos htotal, if_pos htotal]
    simp only [Collected.mapTags, hb, Collected.keep, hunset]
    cases field <;> rfl
  · refine ⟨c.arena, ?_, by rw [if_neg htotal]; rfl⟩
    rw [if_neg htotal, if_neg htotal]
    simp only [Collected.mapTags, hunset]

theorem apply_gaplessTag (o : Options) (lead tail : UInt32) (pos : Nat) (c : Collected) :
    apply o (.ofCode (gaplessTag lead tail).code) pos (gaplessTag lead tail).payload c =
      c.mapAudio fun a => { a with leadTrim := lead.toNat, tailTrim := tail.toNat } := by
  obtain ⟨hlen, hnul⟩ := Gapless.encode_text lead.toNat tail.toNat
  obtain ⟨hlead, htail⟩ := Gapless.gaplessField_text lead.toNat tail.toNat lead.toNat_lt tail.toNat_lt
  have hname := name_freeform "iTunSMPB"
    (Text.encode (String.ofList (Gapless.text lead.toNat tail.toNat)))
    (by rw [Text.encode_eq]; decide) (by rw [Text.encode_eq]; decide)
  have hkey : Freeform.key? "iTunSMPB" = some .gapless := by decide
  have hkind : Kind.ofCode (gaplessTag lead tail).code = .freeform :=
    Kind.ofCode_code .freeform (by decide)
  have hpayload : (gaplessTag lead tail).payload = Recording.freeform "iTunSMPB"
      (Text.encode (String.ofList (Gapless.text lead.toNat tail.toNat))) := rfl
  rw [hkind, apply, hpayload, freeform, hname]
  simp only [hkey]
  rw [gapless, value_data, List.take_of_length_le hlen, Bytes.untilNul_eq hnul, Text.decode_encode,
    hlead, htail]

end TagContent

namespace Recording
open TagContent

/-- What the texts of a recording take in the arena, with those made of its numbers. -/
def arenaNeed (r : Recording) : Nat :=
  (TextField.all.map fun field => Arena.need (r.text field)).sum +
    (numberNeed (r.numbers .track) + numberNeed (r.numbers .disc))

def tagRecord (r : Recording) : Tags where
  title := some (r.text .title)
  artist := some (r.text .artist)
  albumArtist := some (r.text .albumArtist)
  album := some (r.text .album)
  composer := some (r.text .composer)
  comment := some (r.text .comment)
  genre := some (r.text .genre)
  grouping := some (r.text .grouping)
  date := some (r.text .date)
  year := Date.year? (r.text .date)
  track := numberingOf (r.numbers .track)
  disc := numberingOf (r.numbers .disc)
  musicBrainzTrack := some (r.text .musicBrainzTrack)

/-- The tag list of a recording fills the tags and the trims. -/
theorem applyAll_tags (o : Options) (r : Recording) (pos : Nat) (c : Collected)
    (hempty : c.track.tags = {}) (hmost : ∀ field, Arena.need (r.text field) ≤ o.maxValueSize)
    (hroom : r.arenaNeed ≤ c.arena.remaining) :
    (applyAll o pos r.tags c).track =
      { c.track with
        tags := r.tagRecord
        audio := { c.track.audio with
          leadTrim := r.leadTrim.toNat, tailTrim := r.tailTrim.toNat } } := by
  have hunset : ∀ field ∈ TextField.all, c.track.tags.text field = none := by
    intro field _
    rw [hempty]
    cases field <;> rfl
  rw [arenaNeed] at hroom
  obtain ⟨behind, b, hb, hleft⟩ := applyAll_textTags o r.text r.text_ne r.text_nul hmost
    TextField.all (by decide)
    [numberTag .track (r.numbers .track), numberTag .disc (r.numbers .disc),
      gaplessTag r.leadTrim r.tailTrim] pos c hunset (by omega)
  have hfold : TextField.all.foldl (fun t field => t.put (r.text field) field) c.track.tags =
      { r.tagRecord with track := {}, disc := {} } := by
    rw [hempty]
    rfl
  rw [hfold] at hb
  obtain ⟨b', hb', hleft'⟩ := apply_numberTag o .track (r.numbers .track) (behind + Header.minSize)
    ⟨{ c.track with tags := { r.tagRecord with track := {}, disc := {} } }, b⟩ rfl
    (by dsimp only; omega)
  obtain ⟨b'', hb'', -⟩ := apply_numberTag o .disc (r.numbers .disc)
    (behind + Header.minSize + (numberTag .track (r.numbers .track)).payload.length +
      Header.minSize)
    ⟨{ c.track with tags := { r.tagRecord with disc := {} } }, b'⟩ rfl
    (by dsimp only at hleft' ⊢; omega)
  rw [tags, hb]
  simp only [applyAll]
  rw [hb']
  change Collected.track (apply o _ _ _ (apply o _ _ _
    ⟨{ c.track with tags := { r.tagRecord with disc := {} } }, b'⟩)) = _
  rw [hb'', apply_gaplessTag]
  rfl

end Recording

/-- A container that is got through hands on what was collected in it. -/
theorem Forest.visit_container {o : Options} {kind : Container}
    {fixed : Vector UInt8 kind.fixedSize} {inner next : Forest} {levels pos : Nat}
    {handler : Option Handler} {c d : Collected}
    (hsound : ¬ (kind = .mediaInfo ∧ handler ≠ some .sound))
    (hinner : inner.visit o levels none (pos + Header.minSize + fixed.toList.length) c =
      (.ok .proceed, d)) :
    (container kind fixed inner next).visit o (levels + 1) handler pos c =
      next.visit o (levels + 1) handler
        (pos + Header.minSize + fixed.toList.length + inner.octets.length) d := by
  rw [visit, visitContainer, if_neg hsound, if_neg (Nat.succ_ne_zero levels), Nat.add_sub_cancel, hinner]

theorem Forest.visit_handler {o : Options} {code : LeafCode} {payload : Bytes} {next : Forest}
    {levels pos : Nat} {handler : Option Handler} {c : Collected}
    (hk : Kind.ofCode code = .handler) :
    (leaf code payload next).visit o levels handler pos c =
      next.visit o levels (Content.handler? payload) (pos + Header.minSize + payload.length) c := by
  rw [visit, visitLeaf, hk]

theorem Content.withRuns_core {a : Audio} (h : a.codec ≠ .aacHe) (runs : List SampleRun) :
    withRuns runs a =
      { a with
        samples := SampleRun.total false runs
        durationsDoubled := runs.any (·.halved false) } := by
  rw [withRuns, decide_eq_false h]

namespace Recording
open TagContent

def samples (r : Recording) : Nat :=
  min (r.runs.map fun run => run.1.toNat * run.2.toNat).sum (2 ^ 64 - 1)

def length (r : Recording) : Nat :=
  min ((r.samples * 1000 + r.sampleRate.toNat / 2) / r.sampleRate.toNat) (2 ^ 64 - 1)

/-- The record that the file of a recording is read as. -/
def record (r : Recording) : Track where
  brand := some r.brand
  audio := {
    codec := .alac
    sampleRate := r.sampleRate.toNat
    samples := r.samples
    bytes := r.audio.length
    length := r.length
    bitrate := min (r.audio.length * 8 / r.length) (2 ^ 32 - 1)
    variableRate := true
    leadTrim := r.leadTrim.toNat
    tailTrim := r.tailTrim.toNat }
  tags := r.tagRecord

/-- The media of a recording tell the codec, the sample rate and the number of samples. -/
theorem visit_media (o : Options) (r : Recording) (levels pos : Nat) (c : Collected)
    (hruns : r.runs.length < 2 ^ 32) :
    r.media.visit o (levels + 3) none pos c =
      (.ok .proceed, c.mapAudio fun a => { a with
        sampleRate := r.sampleRate.toNat, codec := .alac, samples := r.samples,
        durationsDoubled := false }) := by
  let entered : Audio → Audio := fun a => { a with sampleRate := r.sampleRate.toNat, codec := .alac }
  let counted : Audio → Audio := fun a => { a with
    sampleRate := r.sampleRate.toNat, codec := .alac, samples := r.samples,
    durationsDoubled := false }
  have hentry (levels pos : Nat) :
      (Forest.leaf ⟨Kind.alacEntry.code, by decide⟩ r.sampleEntry .nil).visit o levels none pos c =
        (.ok .proceed, c.mapAudio entered) := by
    rw [Forest.visit_leaf _ _ _ _ _ _ _ _ (by decide) (by decide)]
    have happly : Content.apply o .alacEntry r.sampleEntry c = c.mapAudio entered := by
      simp only [Content.apply, alacRate_sampleEntry]
      rfl
    rw [← happly]
    rfl
  have htable (levels pos : Nat) :
      (Forest.leaf ⟨Kind.timeToSample.code, by decide⟩ r.sampleTable .nil).visit o levels none pos
          (c.mapAudio entered) = (.ok .proceed, c.mapAudio counted) := by
    rw [Forest.visit_leaf _ _ _ _ _ _ _ _ (by decide) (by decide)]
    have happly : Content.apply o .timeToSample r.sampleTable (c.mapAudio entered) =
        c.mapAudio counted := by
      have htotal : SampleRun.total false (r.runs.map fun run => ⟨run.1.toNat, run.2.toNat⟩) =
          r.samples := by
        rw [SampleRun.total_eq_min_sum, List.map_map]
        rfl
      have hhalved : (r.runs.map fun run => SampleRun.mk run.1.toNat run.2.toNat).any
          (·.halved false) = false := by
        rw [List.any_eq_false]
        simp [SampleRun.halved]
      simp only [Content.apply, sampleTable_table r hruns, Collected.mapAudio]
      rw [Content.withRuns_core (by simp [entered]), htotal, hhalved]
    rw [← happly]
    rfl
  have hhandler : Content.handler? (handlerOctets (.ofChars 's' 'o' 'u' 'n')) = some .sound := by
    decide
  rw [media, Forest.soundMedia, Forest.visit_handler (by decide), hhandler]
  exact Forest.visit_container (by simp) (Forest.visit_container (by simp)
    ((Forest.visit_container (by simp) (hentry levels _)).trans (htable _ _)))

theorem visit_metadata (o : Options) (r : Recording) (levels pos : Nat) (c : Collected) :
    r.metadata.visit o levels none pos c =
      (.ok .proceed, applyAll o (pos + Header.minSize +
        (handlerOctets (.ofChars 'm' 'd' 'i' 'r')).length + Header.minSize) r.tags c) := by
  have hhandler : Content.handler? (handlerOctets (.ofChars 'm' 'd' 'i' 'r')) = some .directory := by
    decide
  rw [metadata, Forest.visit_handler (by decide), hhandler, Forest.visit,
    Forest.visitTagList, Forest.visit, if_pos rfl]

/-- Audio data that is seen when the number of samples is known ends the visit. -/
theorem visit_audio (o : Options) (r : Recording) (levels pos : Nat) (c : Collected)
    (hsamples : 0 < c.track.audio.samples) :
    (Forest.leaf ⟨Kind.mediaData.code, by decide⟩ r.audio .nil).visit o levels none pos c =
      (.ok .stop, c.addAudio r.audio.length) := by
  have hkind : Kind.ofCode Kind.mediaData.code = .mediaData := by decide
  have hknown : 0 < (c.addAudio r.audio.length).track.audio.samples := hsamples
  simp only [Forest.visit, Forest.visitLeaf, hkind, if_neg r.audio_ne, if_pos hknown]

/-- The conditions under which the file of a recording can say all of it: every size fits into its
octets, every text can be kept and they have room in the arena together, and the recording has a
length. -/
structure Fits (r : Recording) (o : Options) : Prop where
  wellSized : r.file.WellSized
  values : ∀ field, Arena.need (r.text field) ≤ o.maxValueSize
  arena : r.arenaNeed ≤ o.arenaSize
  length : 1 ≤ r.length

theorem length_runOctets (runs : List (UInt32 × UInt32)) :
    (runOctets runs).length = 8 * runs.length := by
  induction runs with
  | nil => rfl
  | cons run runs ih =>
    simp only [runOctets, List.length_append, Bytes.length_ofNat, ih, List.length_cons]
    omega

/-- The runs are in the sample table and the audio is in the file, so neither is too long. -/
theorem Fits.lengths {r : Recording} {o : Options} (h : r.Fits o) :
    r.runs.length < 2 ^ 32 ∧ r.audio.length < 2 ^ 32 := by
  obtain ⟨-, -, ⟨-, ⟨-, hmedia, -⟩, -⟩, haudio, -⟩ := h.wellSized
  obtain ⟨-, -, ⟨-, ⟨-, -, htable, -⟩, -⟩, -⟩ := hmedia
  simp only [sampleTable, List.length_append, length_runOctets] at htable
  omega

theorem samples_pos (r : Recording) : 0 < r.samples := by
  have hsum := r.runs_pos
  rw [samples]
  omega

def collected (r : Recording) : Track :=
  { r.record with audio := { r.record.audio with length := 0, bitrate := 0, variableRate := false } }

theorem visit_file (o : Options) (r : Recording) (h : r.Fits o) :
    ∃ d, r.file.visit o (Walk.maxDepth - 1) none 0 (.start o) = (.ok .stop, d) ∧
      d.track = r.collected := by
  obtain ⟨hruns, haudio⟩ := h.lengths
  let c : Collected := ⟨{ brand := some r.brand, audio := {
    codec := .alac, sampleRate := r.sampleRate.toNat, samples := r.samples } },
    .ofCapacity o.arenaSize⟩
  have hroom : r.arenaNeed ≤ c.arena.remaining := by
    have hfit := h.arena
    simpa [c, Arena.remaining, Arena.ofCapacity] using hfit
  have htags (pos : Nat) := applyAll_tags o r pos c rfl h.values hroom
  have hmovie (pos : Nat) : ∃ start,
      (Forest.container .track #v[] (.container .media #v[] r.media .nil)
        (.container .userData #v[] (.container .metadata #v[0, 0, 0, 0] r.metadata .nil)
          .nil)).visit o 30 none pos
            (Content.apply o .fileType r.brand.toBytes (.start o)) =
        (.ok .proceed, applyAll o start r.tags c) := by
    have hmedia (pos : Nat) : (Forest.container .media #v[] r.media .nil).visit o 29 none pos
        (Content.apply o .fileType r.brand.toBytes (.start o)) = (.ok .proceed, c) :=
      Forest.visit_container (by simp) (visit_media o r 25 _ _ hruns)
    have hmetadata (pos : Nat) : ∃ start,
        (Forest.container .metadata #v[0, 0, 0, 0] r.metadata .nil).visit o 29 none pos c =
          (.ok .proceed, applyAll o start r.tags c) :=
      ⟨_, Forest.visit_container (by simp) (visit_metadata o r 28 _ c)⟩
    obtain ⟨start, hstart⟩ := hmetadata _
    exact ⟨start, (Forest.visit_container (by simp) (hmedia _)).trans
      (Forest.visit_container (by simp) hstart)⟩
  obtain ⟨start, hstart⟩ := hmovie _
  have hsamples : 0 < (applyAll o start r.tags c).track.audio.samples := by
    rw [htags]
    exact r.samples_pos
  refine ⟨(applyAll o start r.tags c).addAudio r.audio.length, ?_, ?_⟩
  · rw [file, Forest.visit_leaf _ _ _ _ _ _ _ _ (by decide) (by decide)]
    exact (Forest.visit_container (by simp) hstart).trans (visit_audio o r _ _ _ hsamples)
  · have hbytes : min (0 + r.audio.length) (2 ^ 64 - 1) = r.audio.length := by omega
    simp only [Collected.addAudio, Collected.mapAudio, htags, c, hbytes]
    rfl

/-- The file of a recording is read back as the recording. -/
theorem ofBytes_file (o : Options) (r : Recording) (h : r.Fits o) :
    Track.ofBytes o r.file.octets = .ok r.record := by
  obtain ⟨d, hvisit, htrack⟩ := visit_file o r h
  have hrun := (Walk.follows o r.file h.wellSized (Walk.maxDepth - 1) none 0 (.start o) []
    rfl).outcome
  rw [List.append_nil, hvisit] at hrun
  have hwalk : ((Walk.walk o r.file.octets.length).exec (.start o)
      (Slice.ofBytes r.file.octets)).1 = (.ok .stop, d) := hrun
  have hnamed : ¬ (r.collected.audio.samples = 0 ∨ r.collected.audio.sampleRate = 0 ∨
      r.collected.audio.bytes = 0) := by
    rintro (hz | hz | hz)
    · exact absurd hz (Nat.ne_of_gt r.samples_pos)
    · exact absurd hz (Nat.ne_of_gt r.sampleRate_pos)
    · exact r.audio_ne (List.eq_nil_of_length_eq_zero hz)
  have hcodec : ¬ r.collected.audio.codec = .unknown := by
    intro h
    cases h
  have hlength : r.collected.audio.milliseconds ≠ 0 := Nat.ne_of_gt h.length
  rw [Track.ofBytes, Track.read_eq, hwalk]
  simp only [htrack, Track.completed, Audio.completed]
  rw [if_neg hnamed, if_neg hcodec, if_neg hlength]
  rfl

def short : Recording where
  brand := .ofChars 'M' '4' 'A' ' '
  sampleRate := 44100
  runs := [(100, 4096)]
  audio := [1, 2, 3]
  leadTrim := 2112
  tailTrim := 458
  numbers
    | .track => (3, 12)
    | .disc => (1, 0)
  text _ := "Ärzte"
  sampleRate_pos := by decide
  runs_pos := by decide
  audio_ne := by decide
  text_ne := by
    intro field
    decide
  text_nul := by
    intro field
    rw [Text.encode_eq]
    decide

set_option maxRecDepth 100000 in
theorem short_fits : short.Fits {} where
  wellSized := by decide_cbv
  values := by
    intro field
    cbv
  arena := by cbv
  length := by decide

theorem ofBytes_file_short :
    short.Fits {} ∧ Track.ofBytes {} short.file.octets = .ok short.record :=
  ⟨short_fits, ofBytes_file {} short short_fits⟩

end Recording

end AudioAtoms
