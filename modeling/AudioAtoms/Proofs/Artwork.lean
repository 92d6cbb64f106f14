import AudioAtoms.Proofs.ReadTrack
import AudioAtoms.Proofs.Visit

/-!
# Moving the cover image

The position of the cover image is the one thing in a record that says where in the file it was
found. A visit of atoms that stand further back finds the image further back and nothing else
changed, so moving the image goes through every step of a visit. A visit finds an image among the
octets that it visits.
-/
namespace AudioAtoms

section Move

def Tags.mapArtwork (f : Artwork → Artwork) (t : Tags) : Tags :=
  { t with artwork := t.artwork.map f }

def Track.mapArtwork (f : Artwork → Artwork) (t : Track) : Track :=
  { t with tags := t.tags.mapArtwork f }

def Collected.mapArtwork (f : Artwork → Artwork) (c : Collected) : Collected :=
  { c with track := c.track.mapArtwork f }

/-- Every image from a position on is moved back by `n` octets. -/
def Artwork.Moves (f : Artwork → Artwork) (start n : Nat) : Prop :=
  ∀ a : Artwork, start ≤ a.pos → f a = { a with pos := a.pos + n }

variable {f : Artwork → Artwork} {start n : Nat}

theorem Artwork.Moves.mono (hf : Artwork.Moves f start n) {pos : Nat} (h : start ≤ pos) :
    Artwork.Moves f pos n :=
  fun a ha => hf a (Nat.le_trans h ha)

namespace Tags

@[simp] theorem text_mapArtwork (t : Tags) (field : TextField) :
    (t.mapArtwork f).text field = t.text field := by
  cases field <;> rfl

@[simp] theorem numbering_mapArtwork (t : Tags) (field : NumberField) :
    (t.mapArtwork f).numbering field = t.numbering field := by
  cases field <;> rfl

theorem setText_mapArtwork (t : Tags) (value : Option String) (field : TextField) :
    (t.mapArtwork f).setText value field = (t.setText value field).mapArtwork f := by
  cases field <;> rfl

theorem setNumbering_mapArtwork (t : Tags) (value : Numbering) (field : NumberField) :
    (t.mapArtwork f).setNumbering value field = (t.setNumbering value field).mapArtwork f := by
  cases field <;> rfl

end Tags

namespace Collected

@[simp] theorem tags_mapArtwork (c : Collected) :
    (c.mapArtwork f).track.tags = c.track.tags.mapArtwork f := rfl

@[simp] theorem audio_mapArtwork (c : Collected) :
    (c.mapArtwork f).track.audio = c.track.audio := rfl

@[simp] theorem arena_mapArtwork (c : Collected) : (c.mapArtwork f).arena = c.arena := rfl

theorem mapTags_mapArtwork {g h : Tags → Tags} (hg : ∀ t, g (t.mapArtwork f) = (h t).mapArtwork f)
    (c : Collected) : (c.mapArtwork f).mapTags g = (c.mapTags h).mapArtwork f := by
  simp only [mapTags, mapArtwork, Track.mapArtwork, hg]

theorem keep_mapArtwork (c : Collected) (kept : Except Arena.Refusal (String × Arena)) :
    (c.mapArtwork f).keep kept = ((c.keep kept).1, (c.keep kept).2.mapArtwork f) := by
  cases kept <;> rfl

end Collected

namespace TagContent
variable (o : Options) (bs : Bytes) (c : Collected)

theorem load_mapArtwork : load bs (c.mapArtwork f) = (load bs c).mapArtwork f := rfl

theorem text_mapArtwork (field : TextField) :
    text o field bs (c.mapArtwork f) = (text o field bs c).mapArtwork f := by
  simp only [text, load_mapArtwork, Collected.arena_mapArtwork, Collected.tags_mapArtwork,
    Tags.text_mapArtwork]
  split
  · rw [Collected.keep_mapArtwork]
    exact Collected.mapTags_mapArtwork (fun t => t.setText_mapArtwork _ field) _
  · rfl

theorem date_mapArtwork : date o bs (c.mapArtwork f) = (date o bs c).mapArtwork f := by
  rw [date, text_mapArtwork]
  rfl

theorem genre_mapArtwork : genre bs (c.mapArtwork f) = (genre bs c).mapArtwork f := by
  by_cases h : (value 2 bs).length = 2 ∧ c.track.tags.genre.isNone = true
  · have hmoved : (value 2 bs).length = 2 ∧ (c.mapArtwork f).track.tags.genre.isNone = true := h
    rw [genre, if_pos hmoved, genre, if_pos h]
    rfl
  · have hmoved : ¬((value 2 bs).length = 2 ∧
        (c.mapArtwork f).track.tags.genre.isNone = true) := h
    rw [genre, if_neg hmoved, genre, if_neg h]

theorem numbering_mapArtwork (field : NumberField) :
    numbering field bs (c.mapArtwork f) = (numbering field bs c).mapArtwork f := by
  have hset (value : Numbering → Numbering) (d : Collected) :
      ((d.mapArtwork f).mapTags fun t => t.setNumbering (value (t.numbering field)) field) =
        (d.mapTags fun t => t.setNumbering (value (t.numbering field)) field).mapArtwork f := by
    refine Collected.mapTags_mapArtwork (fun t => ?_) d
    rw [Tags.numbering_mapArtwork, Tags.setNumbering_mapArtwork]
  simp only [numbering, Collected.tags_mapArtwork, Tags.numbering_mapArtwork]
  split
  · rw [hset fun old => { old with number := _ }]
    split
    · rw [Collected.arena_mapArtwork, Collected.keep_mapArtwork]
      exact hset (fun old => { old with text := _ }) _
    · rfl
  · rfl

/-- The cover is the one tag that says where it stands. -/
theorem cover_mapArtwork {pos : Nat} (hf : Artwork.Moves f pos n) :
    cover (pos + n) bs (c.mapArtwork f) = (cover pos bs c).mapArtwork f := by
  have hpos : pos + n + TagValue.offset = pos + TagValue.offset + n := Nat.add_right_comm _ _ _
  rw [cover, cover, Collected.tags_mapArtwork, Tags.mapArtwork, hpos]
  cases c.track.tags.artwork with
  | none =>
    cases ReadTag.imageType? (value 8 bs) with
    | none => rfl
    | some type =>
      have hmoved := hf ⟨type, pos + TagValue.offset, bs.length - TagValue.offset⟩
        (Nat.le_add_right _ _)
      simp only [Collected.mapTags, Collected.mapArtwork, Track.mapArtwork, Tags.mapArtwork,
        Option.map_none, Option.map_some, hmoved]
  | some art => rfl

theorem gain_mapArtwork (key : String) :
    gain o key bs (c.mapArtwork f) = (gain o key bs c).mapArtwork f := by
  simp only [gain, load_mapArtwork, Collected.arena_mapArtwork]
  split <;> rfl

theorem freeform_mapArtwork : freeform o bs (c.mapArtwork f) = (freeform o bs c).mapArtwork f := by
  rw [freeform, freeform]
  split
  · rfl
  · split
    · exact text_mapArtwork o _ c .composer
    · rfl
    · exact text_mapArtwork o _ c .musicBrainzTrack
    · exact text_mapArtwork o _ c .albumArtist
    · exact gain_mapArtwork o _ c _

theorem apply_mapArtwork (kind : Kind) {pos : Nat} (hf : Artwork.Moves f pos n) :
    apply o kind (pos + n) bs (c.mapArtwork f) = (apply o kind pos bs c).mapArtwork f := by
  cases kind with
  | title | artist | albumArtist | grouping | album | composer | comment | customGenre =>
    exact text_mapArtwork o bs c _
  | date => exact date_mapArtwork o bs c
  | genre => exact genre_mapArtwork bs c
  | trackNumber | discNumber => exact numbering_mapArtwork bs c _
  | cover =>
    rw [apply, apply]
    split
    · exact cover_mapArtwork bs c hf
    · rfl
  | freeform => exact freeform_mapArtwork o bs c
  | _ => rfl

theorem applyAll_mapArtwork {pos : Nat} (tags : List TagAtom) (hf : Artwork.Moves f pos n) :
    applyAll o (pos + n) tags (c.mapArtwork f) = (applyAll o pos tags c).mapArtwork f := by
  induction tags generalizing pos c with
  | nil => rfl
  | cons tag tags ih =>
    rw [applyAll, applyAll, Nat.add_right_comm pos n,
      apply_mapArtwork o _ c _ (hf.mono (Nat.le_add_right _ _)), Nat.add_right_comm _ n]
    exact ih _ (hf.mono (by omega))

end TagContent

theorem Content.apply_mapArtwork (o : Options) (kind : Kind) (bs : Bytes) (c : Collected) :
    apply o kind bs (c.mapArtwork f) = (apply o kind bs c).mapArtwork f := by
  cases kind with
  | timeToSample | aacEntry | alacEntry | chapterList =>
    rw [apply, apply]
    split <;> rfl
  | _ => rfl

/-- A forest further back in the file is visited as before, but for the position of the cover. -/
theorem Forest.visit_mapArtwork (o : Options) (forest : Forest) (levels : Nat)
    (handler : Option Handler) {pos : Nat} (c : Collected) (hf : Artwork.Moves f pos n) :
    forest.visit o levels handler (pos + n) (c.mapArtwork f) =
      (forest.visit o levels handler pos c).map id (.mapArtwork f) := by
  induction forest generalizing levels handler pos c with
  | nil => rfl
  | leaf code payload next ih =>
    have hbehind : pos + n + Header.minSize + payload.length =
        pos + Header.minSize + payload.length + n := by omega
    have haudio : (c.mapArtwork f).addAudio payload.length =
        (c.addAudio payload.length).mapArtwork f := rfl
    have hnext := hf.mono (show pos ≤ pos + Header.minSize + payload.length by omega)
    simp only [visit, visitLeaf, hbehind, haudio, Collected.audio_mapArtwork, Content.apply_mapArtwork]
    split
    · exact ih _ _ _ hnext
    · split
      · exact ih _ _ _ hnext
      · split
        · rfl
        · exact ih _ _ _ hnext
    · exact ih _ _ _ hnext
  | tagList tags next ih =>
    have hstart : pos + n + Header.minSize = pos + Header.minSize + n := Nat.add_right_comm _ _ _
    have happly : (if handler = some .directory then
          TagContent.applyAll o (pos + Header.minSize + n) tags (c.mapArtwork f)
          else c.mapArtwork f) =
        (if handler = some .directory then
          TagContent.applyAll o (pos + Header.minSize) tags c else c).mapArtwork f := by
      rw [TagContent.applyAll_mapArtwork o c tags (hf.mono (Nat.le_add_right _ _))]
      split <;> rfl
    simp only [visit, visitTagList, hstart, happly]
    rw [Nat.add_right_comm]
    exact ih _ _ _ (hf.mono (by omega))
  | container kind fixed inner next ihInner ihNext =>
    have hstart : pos + n + Header.minSize + fixed.toList.length =
        pos + Header.minSize + fixed.toList.length + n := by omega
    have hbehind : pos + Header.minSize + fixed.toList.length + n + inner.octets.length =
        pos + Header.minSize + fixed.toList.length + inner.octets.length + n := by omega
    have hinner := ihInner (levels - 1) none c
      (hf.mono (show pos ≤ pos + Header.minSize + fixed.toList.length by omega))
    have hnext (d : Collected) := ihNext levels handler d (hf.mono
      (show pos ≤ pos + Header.minSize + fixed.toList.length + inner.octets.length by omega))
    simp only [visit, visitContainer, hstart, hbehind, hinner]
    split
    · exact hnext c
    · split
      · rfl
      · rcases inner.visit o (levels - 1) none (pos + Header.minSize + fixed.toList.length) c
          with ⟨_ | _ | _, d⟩
        · rfl
        · exact hnext d
        · rfl

theorem Track.completed_mapArtwork (t : Track) :
    (t.mapArtwork f).completed = t.completed.map (.mapArtwork f) := by
  have haudio : (t.mapArtwork f).audio = t.audio := rfl
  rw [completed, completed, haudio]
  cases t.audio.completed <;> rfl

end Move

section Before

/-- The cover found so far starts before a position. -/
def Collected.ArtworkBefore (c : Collected) (pos : Nat) : Prop :=
  ∀ art, c.track.tags.artwork = some art → art.pos < pos

variable {c d : Collected} {pos : Nat}

theorem Collected.ArtworkBefore.of_eq (hc : c.ArtworkBefore pos)
    (h : d.track.tags.artwork = c.track.tags.artwork) : d.ArtworkBefore pos := by
  intro art hart
  exact hc art (h ▸ hart)

theorem Collected.ArtworkBefore.mono (hc : c.ArtworkBefore pos) {stop : Nat} (h : pos ≤ stop) :
    c.ArtworkBefore stop :=
  fun art hart => Nat.lt_of_lt_of_le (hc art hart) h

namespace TagContent

theorem artwork_text (o : Options) (field : TextField) (bs : Bytes) (c : Collected) :
    (text o field bs c).track.tags.artwork = c.track.tags.artwork := by
  have hset (t : Tags) (value : Option String) : (t.setText value field).artwork = t.artwork := by
    cases field <;> rfl
  rw [text]
  split
  · simp only [Collected.mapTags, hset, Collected.track_keep]
    rfl
  · rfl

theorem artwork_numbering (field : NumberField) (bs : Bytes) (c : Collected) :
    (numbering field bs c).track.tags.artwork = c.track.tags.artwork := by
  have hset (t : Tags) (n : Numbering) : (t.setNumbering n field).artwork = t.artwork := by
    cases field <;> rfl
  rw [numbering]
  split
  · split
    · simp only [Collected.mapTags, hset, Collected.track_keep]
    · exact hset _ _
  · rfl

theorem artwork_freeform (o : Options) (bs : Bytes) (c : Collected) :
    (freeform o bs c).track.tags.artwork = c.track.tags.artwork := by
  rw [freeform]
  split
  · rfl
  · split
    · exact artwork_text o .composer _ c
    · rfl
    · exact artwork_text o .musicBrainzTrack _ c
    · exact artwork_text o .albumArtist _ c
    · rw [gain]
      split <;> rfl

/-- An image is recognised by octets of its own. -/
theorem artworkBefore_cover (bs : Bytes) (hc : c.ArtworkBefore pos) :
    (cover pos bs c).ArtworkBefore (pos + bs.length) := by
  rw [cover]
  split
  · next type hart htype =>
    have hlong : TagValue.offset < bs.length := by
      refine Nat.lt_of_not_le fun hshort => ?_
      rw [value, List.drop_eq_nil_of_le hshort] at htype
      cases htype
    rintro art ⟨⟩
    exact Nat.add_lt_add_left hlong pos
  · exact hc.mono (Nat.le_add_right _ _)

theorem artworkBefore_apply (o : Options) (kind : Kind) (bs : Bytes) (hc : c.ArtworkBefore pos) :
    (apply o kind pos bs c).ArtworkBefore (pos + bs.length) := by
  have hkept {d : Collected} (h : d.track.tags.artwork = c.track.tags.artwork) :
      d.ArtworkBefore (pos + bs.length) := (hc.of_eq h).mono (Nat.le_add_right _ _)
  cases kind with
  | title | artist | albumArtist | grouping | album | composer | comment | customGenre =>
    exact hkept (artwork_text o _ bs c)
  | date => exact hkept (artwork_text o .date bs c)
  | genre =>
    refine hkept ?_
    rw [apply, genre]
    split <;> rfl
  | trackNumber | discNumber => exact hkept (artwork_numbering _ bs c)
  | cover =>
    rw [apply]
    split
    · exact artworkBefore_cover bs hc
    · exact hkept rfl
  | freeform => exact hkept (artwork_freeform o bs c)
  | _ => exact hkept rfl

theorem artworkBefore_applyAll (o : Options) (tags : List TagAtom) (hc : c.ArtworkBefore pos) :
    (applyAll o pos tags c).ArtworkBefore (pos + (TagList.octets tags).length) := by
  induction tags generalizing pos c with
  | nil => exact hc
  | cons tag tags ih =>
    have htag := artworkBefore_apply o (.ofCode tag.code) tag.payload
      (hc.mono (Nat.le_add_right pos Header.minSize))
    have hrest := ih htag
    rw [TagList.octets, List.length_append, Atom.length_octets, ← Nat.add_assoc, ← Nat.add_assoc]
    exact hrest

end TagContent

/-- A visit finds an image among the octets that it visits. -/
theorem Forest.artworkBefore_visit (o : Options) (forest : Forest) (levels : Nat)
    (handler : Option Handler) (hc : c.ArtworkBefore pos) :
    (forest.visit o levels handler pos c).2.ArtworkBefore (pos + forest.octets.length) := by
  induction forest generalizing levels handler pos c with
  | nil => exact hc
  | leaf code payload next ih =>
    have hbehind : pos + (leaf code payload next).octets.length =
        pos + Header.minSize + payload.length + next.octets.length := by
      rw [octets, List.length_append, Atom.length_octets]
      omega
    have hnext {d : Collected} (handler : Option Handler)
        (h : d.track.tags.artwork = c.track.tags.artwork) :=
      ih levels handler ((hc.of_eq h).mono
        (show pos ≤ pos + Header.minSize + payload.length by omega))
    rw [hbehind, visit, visitLeaf]
    split
    · exact hnext _ rfl
    · split
      · exact hnext handler rfl
      · dsimp only
        split
        · exact (hc.of_eq rfl).mono (by omega)
        · exact hnext handler rfl
    · exact hnext handler (congrArg Tags.artwork (Content.tags_apply o _ payload c))
  | tagList tags next ih =>
    have hbehind : pos + (tagList tags next).octets.length =
        pos + Header.minSize + (TagList.octets tags).length + next.octets.length := by
      rw [octets, List.length_append, Atom.length_octets]
      omega
    rw [hbehind, visit, visitTagList]
    refine ih levels handler ?_
    split
    · exact TagContent.artworkBefore_applyAll o tags (hc.mono (Nat.le_add_right _ _))
    · exact hc.mono (by omega)
  | container kind fixed inner next ihInner ihNext =>
    have hbehind : pos + (container kind fixed inner next).octets.length =
        pos + Header.minSize + fixed.toList.length + inner.octets.length + next.octets.length := by
      rw [octets, List.length_append, Atom.length_octets, List.length_append]
      omega
    have hinner := ihInner (levels - 1) none
      (hc.mono (show pos ≤ pos + Header.minSize + fixed.toList.length by omega))
    rw [hbehind, visit, visitContainer]
    split
    · exact ihNext levels handler (hc.mono (by omega))
    · split
      · exact hc.mono (by omega)
      · generalize inner.visit o (levels - 1) none
          (pos + Header.minSize + fixed.toList.length) c = run at hinner ⊢
        obtain ⟨_ | _ | _, d⟩ := run
        · exact hinner.mono (by omega)
        · exact ihNext levels handler hinner
        · exact hinner.mono (by omega)

end Before

end AudioAtoms
