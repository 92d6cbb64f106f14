import AudioAtoms.Proofs.FreeformTags

/-!
# Recordings and their files

A recording has a brand, audio with its sample rate and the runs of its samples, trims, numbers and
texts. Its file is a forest that says all of this once. Each payload in the file is read back as
what was put into it.
-/
namespace AudioAtoms

namespace TextField

def all : List TextField :=
  [title, artist, albumArtist, album, composer, comment, genre, grouping, date, musicBrainzTrack]

/-- The kind of the tag for a field. The one without a kind of its own has a free-form tag. -/
def kind : TextField → Kind
  | title => .title
  | artist => .artist
  | albumArtist => .albumArtist
  | album => .album
  | composer => .composer
  | comment => .comment
  | genre => .customGenre
  | grouping => .grouping
  | date => .date
  | musicBrainzTrack => .freeform

end TextField

structure Recording where
  brand : Code
  sampleRate : UInt32
  /-- The count and the duration of each run of frames. -/
  runs : List (UInt32 × UInt32)
  audio : Bytes
  leadTrim : UInt32
  tailTrim : UInt32
  /-- The number of the track or disc, and how many there are. -/
  numbers : NumberField → UInt16 × UInt16
  text : TextField → String
  sampleRate_pos : 0 < sampleRate.toNat
  runs_pos : 0 < (runs.map fun run => run.1.toNat * run.2.toNat).sum
  audio_ne : audio ≠ []
  text_ne : ∀ field, text field ≠ ""
  text_nul : ∀ field, 0 ∉ Text.encode (text field)

namespace LeafCode

abbrev alacEntry : LeafCode := ⟨Kind.alacEntry.code, by decide⟩

abbrev mediaData : LeafCode := ⟨Kind.mediaData.code, by decide⟩

end LeafCode

namespace Recording

def data (value : Bytes) : Bytes :=
  Atom.octets (.ofChars 'd' 'a' 't' 'a') ([0, 0, 0, 1, 0, 0, 0, 0] ++ value)

def freeform (name : String) (value : Bytes) : Bytes :=
  Atom.octets (.ofChars 'm' 'e' 'a' 'n') ([0, 0, 0, 0] ++ Text.encode "com.apple.iTunes") ++
    (Atom.octets (.ofChars 'n' 'a' 'm' 'e') ([0, 0, 0, 0] ++ Text.encode name) ++ data value)

def textTag (field : TextField) (text : String) : TagAtom :=
  ⟨field.kind.code,
    match field with
    | .musicBrainzTrack => freeform "musicbrainz track id" (Text.encode text)
    | _ => data (Text.encode text)⟩

def numberTag (field : NumberField) (numbers : UInt16 × UInt16) : TagAtom :=
  ⟨match field with
    | .track => Kind.trackNumber.code
    | .disc => Kind.discNumber.code,
    data ([0, 0] ++ (Bytes.ofNat 2 numbers.1.toNat ++ Bytes.ofNat 2 numbers.2.toNat))⟩

def gaplessTag (lead tail : UInt32) : TagAtom :=
  ⟨Kind.freeform.code,
    freeform "iTunSMPB" (Text.encode (String.ofList (Gapless.text lead.toNat tail.toNat)))⟩

def tags (r : Recording) : List TagAtom :=
  TextField.all.map (fun field => textTag field (r.text field)) ++
    [numberTag .track (r.numbers .track), numberTag .disc (r.numbers .disc),
      gaplessTag r.leadTrim r.tailTrim]

/-- The payload of the sample entry, with the sample rate inside the configuration of the
decoder. -/
def sampleEntry (r : Recording) : Bytes :=
  List.replicate 28 0 ++
    Atom.octets Kind.alacEntry.code (List.replicate 24 0 ++ Bytes.ofNat 4 r.sampleRate.toNat)

def runOctets : List (UInt32 × UInt32) → Bytes
  | [] => []
  | run :: runs => Bytes.ofNat 4 run.1.toNat ++ (Bytes.ofNat 4 run.2.toNat ++ runOctets runs)

def sampleTable (r : Recording) : Bytes :=
  List.replicate 4 0 ++ (Bytes.ofNat 4 r.runs.length ++ runOctets r.runs)

def handlerOctets (code : Code) : Bytes := List.replicate 8 0 ++ code.toBytes

end Recording

def Forest.soundMedia (code : LeafCode) (entry table : Bytes) : Forest :=
  .leaf ⟨Kind.handler.code, by decide⟩ (Recording.handlerOctets (.ofChars 's' 'o' 'u' 'n'))
    (.container .mediaInfo #v[]
      (.container .sampleTable #v[]
        (.container .sampleDescription #v[0, 0, 0, 0, 0, 0, 0, 1] (.leaf code entry .nil)
          (.leaf ⟨Kind.timeToSample.code, by decide⟩ table .nil)) .nil) .nil)

namespace Recording

def media (r : Recording) : Forest := .soundMedia .alacEntry r.sampleEntry r.sampleTable

def metadata (r : Recording) : Forest :=
  .leaf ⟨Kind.handler.code, by decide⟩ (handlerOctets (.ofChars 'm' 'd' 'i' 'r'))
    (.tagList r.tags .nil)

def file (r : Recording) : Forest :=
  .leaf ⟨Kind.fileType.code, by decide⟩ r.brand.toBytes
    (.container .movie #v[]
      (.container .track #v[] (.container .media #v[] r.media .nil)
        (.container .userData #v[] (.container .metadata #v[0, 0, 0, 0] r.metadata .nil) .nil))
      (.leaf .mediaData r.audio .nil))

end Recording

theorem Content.codeAt_append (front tail : Bytes) (code : Code) :
    codeAt (front ++ (code.toBytes ++ tail)) front.length = code := by
  have htake : (code.toBytes ++ tail).take 4 = code.toBytes := rfl
  rw [codeAt, List.drop_left, htake, Code.ofBytes_toBytes]

namespace Recording

theorem alacRate_sampleEntry (r : Recording) :
    Content.alacRate? r.sampleEntry = some r.sampleRate.toNat := by
  let zeros : Bytes := List.replicate 28 0
  let config : Bytes := List.replicate 24 0
  let rate := Bytes.ofNat 4 r.sampleRate.toNat
  have hentry : r.sampleEntry = zeros ++ (Bytes.ofNat 4 36 ++
      (Kind.alacEntry.code.toBytes ++ (config ++ rate))) := by
    have hsize : Header.minSize + (config ++ rate).length = 36 := by
      simp [config, rate, Header.minSize]
    rw [sampleEntry, Atom.octets, hsize]
  have hlen : r.sampleEntry.length = 64 := by
    simp [hentry, zeros, config, rate, Code.toBytes]
  have hsize : Content.numberAt r.sampleEntry 28 4 = 36 := by
    rw [hentry]
    exact Content.numberAt_append zeros _ 4 36 (by decide)
  have hcode : Content.codeAt r.sampleEntry 32 = Kind.alacEntry.code := by
    rw [hentry, ← List.append_assoc]
    exact Content.codeAt_append (zeros ++ Bytes.ofNat 4 36) _ Kind.alacEntry.code
  have hrate : Content.numberAt r.sampleEntry 60 4 = r.sampleRate.toNat := by
    rw [hentry, ← List.append_nil rate, ← List.append_assoc, ← List.append_assoc,
      ← List.append_assoc]
    exact Content.numberAt_append (zeros ++ Bytes.ofNat 4 36 ++ Kind.alacEntry.code.toBytes ++ config)
      [] 4 r.sampleRate.toNat r.sampleRate.toNat_lt
  have hinner : Content.innerSize? Kind.alacEntry.code r.sampleEntry = some 28 := by
    simp only [Content.innerSize?]
    rw [if_pos ⟨by omega, hcode, by omega⟩, if_neg (by omega), hsize]
  rw [Content.alacRate?, hinner]
  simp only
  rw [if_pos ⟨Nat.le_refl _, by omega⟩, hrate]

theorem runs_octets (runs : List (UInt32 × UInt32)) :
    Content.runs runs.length (runOctets runs) =
      runs.map fun run => ⟨run.1.toNat, run.2.toNat⟩ := by
  induction runs with
  | nil => rfl
  | cons run runs ih =>
    have hcount : Content.numberAt (runOctets (run :: runs)) 0 4 = run.1.toNat :=
      Content.numberAt_append [] _ 4 run.1.toNat run.1.toNat_lt
    have hdelta : Content.numberAt (runOctets (run :: runs)) 4 4 = run.2.toNat :=
      Content.numberAt_append (Bytes.ofNat 4 run.1.toNat) _ 4 run.2.toNat run.2.toNat_lt
    have hrest : (runOctets (run :: runs)).drop 8 = runOctets runs := by
      rw [runOctets, ← List.append_assoc]
      exact List.drop_left' (by simp)
    have hroom : ¬ (runOctets (run :: runs)).length < 8 := by
      simp only [runOctets, List.length_append, Bytes.length_ofNat]
      omega
    rw [List.length_cons, Content.runs, if_neg hroom, hcount, hdelta, hrest, ih, List.map_cons]

theorem sampleTable_table (r : Recording) (h : r.runs.length < 2 ^ 32) :
    Content.sampleTable? r.sampleTable =
      some (r.runs.map fun run => ⟨run.1.toNat, run.2.toNat⟩) := by
  have hlen : 8 ≤ r.sampleTable.length := by
    simp only [sampleTable, List.length_append, List.length_replicate, Bytes.length_ofNat]
    omega
  have hcount : Content.numberAt r.sampleTable 4 4 = r.runs.length :=
    Content.numberAt_append (List.replicate 4 0) _ 4 r.runs.length h
  have hrest : r.sampleTable.drop 8 = runOctets r.runs := by
    rw [sampleTable, ← List.append_assoc]
    exact List.drop_left' (by simp)
  rw [Content.sampleTable?, if_pos hlen, hcount, hrest, runs_octets]

theorem value_data (most : Nat) (value : Bytes) :
    TagContent.value most (data value) = value.take most :=
  TagContent.value_octets most #v[0, 0, 0, 1, 0, 0, 0, 0] value

/-- The name of a free-form tag is read back, and its value stands behind it. -/
theorem name_freeform (name : String) (value : Bytes)
    (hlen : (Text.encode name).length ≤ ReadTag.maxNameSize) (hnul : 0 ∉ Text.encode name) :
    TagContent.name? (freeform name value) = some (name, data value) := by
  let tag : FreeformTag :=
    ⟨[0, 0, 0, 0] ++ Text.encode "com.apple.iTunes", #v[0, 0, 0, 0], Text.encode name,
      #v[0, 0, 0, 1, 0, 0, 0, 0], value⟩
  have hmean : tag.mean.length = 20 := by
    have happle : (Text.encode "com.apple.iTunes").length = 16 := by
      rw [Text.encode_eq]
      rfl
    rw [List.length_append, happle]
    rfl
  have hmaxName : ReadTag.maxNameSize = 31 := rfl
  have hsized : tag.WellSized := by
    simp only [FreeformTag.WellSized, Header.minSize, hmean, List.length_append,
      Vector.length_toList, tag]
    omega
  have hkey : tag.key = name := by
    simp only [FreeformTag.key, tag]
    rw [List.take_of_length_le hlen, Text.decode_encode]
  have hname := tag.name_payload hsized hnul
  rw [hkey] at hname
  exact hname

end Recording

end AudioAtoms
