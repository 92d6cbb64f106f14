import AudioAtoms.Proofs.Forest

/-!
# A fold over the atom tree

`Forest.visit` goes over a forest from left to right and applies what each leaf and each tag says to
what was collected before. The handler of a row of siblings, the levels of containers left and the
position in the file go with it. It stops at the first audio data seen when the number of samples
is known, and fails only where containers are nested too deeply.
-/
namespace AudioAtoms

namespace Content

def withRuns (runs : List SampleRun) (a : Audio) : Audio :=
  { a with
    samples := SampleRun.total (a.codec = .aacHe) runs
    durationsDoubled := runs.any (·.halved (a.codec = .aacHe)) }

def withStream (o : Options) (stream : ElementaryStream) (a : Audio) : Audio :=
  let applied := stream.apply o.implicitReplication a.sampleRate
  { a with sampleRate := applied.1, codec := if applied.2 then .aacHe else .aac }

def apply (o : Options) (kind : Kind) (bs : Bytes) (c : Collected) : Collected :=
  match kind with
  | .timeToSample =>
    match sampleTable? bs with
    | some runs => c.mapAudio (withRuns runs)
    | none => c
  | .aacEntry =>
    match elementaryStream? bs with
    | some stream => c.mapAudio (withStream o stream)
    | none => c
  | .alacEntry =>
    match alacRate? bs with
    | some rate => c.mapAudio fun a => { a with sampleRate := rate, codec := .alac }
    | none => c
  | .chapterList =>
    match firstChapter? bs with
    | some tick => c.mapAudio fun a => { a with leadTrim := Leaf.samplesBefore tick a.sampleRate }
    | none => c
  | .fileType => { c with track := { c.track with brand := c.track.brand <|> brand? bs } }
  | _ => c

end Content

def TagContent.applyAll (o : Options) : Nat → List TagAtom → Collected → Collected
  | _, [], c => c
  | pos, tag :: tags, c =>
    applyAll o (pos + Header.minSize + tag.payload.length) tags
      (apply o (.ofCode tag.code) (pos + Header.minSize) tag.payload c)

def Collected.addAudio (n : Nat) : Collected → Collected :=
  mapAudio fun a => { a with bytes := min (a.bytes + n) (2 ^ 64 - 1) }

namespace Forest

/-- What comes of a row of atoms, given the handler of the siblings so far, the position of the row
and what was collected before it. -/
abbrev Visit := Option Handler → Nat → Collected → Except ReadError Walk.Step × Collected

def visitLeaf (o : Options) (code : Code) (payload : Bytes) (next : Visit) : Visit :=
  fun handler pos c =>
    let behind := pos + Header.minSize + payload.length
    match Kind.ofCode code with
    | .handler => next (Content.handler? payload) behind c
    | .mediaData =>
      if payload = [] then next handler behind c
      else
        let c := c.addAudio payload.length
        if 0 < c.track.audio.samples then (.ok .stop, c)
        else next handler behind c
    | kind => next handler behind (Content.apply o kind payload c)

/-- A tag list of the given size whose tags have the given effect from their position on. -/
def visitTagList (size : Nat) (effect : Nat → Collected → Collected) (next : Visit) : Visit :=
  fun handler pos c =>
    let start := pos + Header.minSize
    next handler (start + size) (if handler = some .directory then effect start c else c)

def visitContainer (kind : Container) (fixed size : Nat) (inner : Nat → Visit) (levels : Nat)
    (next : Visit) : Visit :=
  fun handler pos c =>
    let start := pos + Header.minSize + fixed
    let behind := start + size
    if kind = .mediaInfo ∧ handler ≠ some .sound then next handler behind c
    else if levels = 0 then (.error .tooDeep, c)
    else
      match inner (levels - 1) none start c with
      | (.ok .proceed, c) => next handler behind c
      | outcome => outcome

/-- The outcome of a walk over a forest and what is collected then. So many levels of containers may
still be entered. -/
def visit (o : Options) : Forest → Nat → Visit
  | nil, _ => fun _ _ c => (.ok .proceed, c)
  | leaf code payload next, levels => visitLeaf o code payload (next.visit o levels)
  | tagList tags next, levels =>
    visitTagList (TagList.octets tags).length (fun start => TagContent.applyAll o start tags)
      (next.visit o levels)
  | container kind fixed inner next, levels =>
    visitContainer kind fixed.toList.length inner.octets.length (fun left => inner.visit o left)
      levels (next.visit o levels)

end Forest

namespace Collected

def YearKnown (c : Collected) : Prop := c.track.tags.year = c.track.tags.date.bind Date.year?

theorem YearKnown.of_eq {c d : Collected} (hc : c.YearKnown)
    (hyear : d.track.tags.year = c.track.tags.year)
    (hdate : d.track.tags.date = c.track.tags.date) : d.YearKnown := by
  rw [YearKnown, hyear, hdate]
  exact hc

theorem track_keep (c : Collected) (kept : Except Arena.Refusal (String × Arena)) :
    (c.keep kept).2.track = c.track := by
  cases kept <;> rfl

end Collected

namespace TagContent

theorem yearKnown_text (o : Options) (field : TextField) (hf : field ≠ .date) (bs : Bytes)
    (c : Collected) (hc : c.YearKnown) : (text o field bs c).YearKnown := by
  have hset (t : Tags) (value : Option String) :
      (t.setText value field).year = t.year ∧ (t.setText value field).date = t.date := by
    cases field with
    | date => exact absurd rfl hf
    | _ => exact ⟨rfl, rfl⟩
  rw [text]
  split
  · refine hc.of_eq ?_ ?_
    · simp only [Collected.mapTags, hset, Collected.track_keep]
      rfl
    · simp only [Collected.mapTags, hset, Collected.track_keep]
      rfl
  · exact hc

theorem yearKnown_genre (bs : Bytes) (c : Collected) (hc : c.YearKnown) :
    (genre bs c).YearKnown := by
  rw [genre]
  split
  · exact hc.of_eq rfl rfl
  · exact hc

theorem yearKnown_numbering (field : NumberField) (bs : Bytes) (c : Collected)
    (hc : c.YearKnown) : (numbering field bs c).YearKnown := by
  have hset (t : Tags) (n : Numbering) :
      (t.setNumbering n field).year = t.year ∧ (t.setNumbering n field).date = t.date := by
    cases field <;> exact ⟨rfl, rfl⟩
  rw [numbering]
  split
  · split
    · refine hc.of_eq ?_ ?_
      · simp only [Collected.mapTags, hset, Collected.track_keep]
      · simp only [Collected.mapTags, hset, Collected.track_keep]
    · exact hc.of_eq (hset _ _).1 (hset _ _).2
  · exact hc

theorem yearKnown_cover (pos : Nat) (bs : Bytes) (c : Collected) (hc : c.YearKnown) :
    (cover pos bs c).YearKnown := by
  rw [cover]
  split
  · exact hc.of_eq rfl rfl
  · exact hc

theorem yearKnown_freeform (o : Options) (bs : Bytes) (c : Collected) (hc : c.YearKnown) :
    (freeform o bs c).YearKnown := by
  rw [freeform]
  split
  · exact hc
  · split
    · exact yearKnown_text o .composer (by decide) _ c hc
    · exact hc.of_eq rfl rfl
    · exact yearKnown_text o .musicBrainzTrack (by decide) _ c hc
    · exact yearKnown_text o .albumArtist (by decide) _ c hc
    · rw [gain]
      split
      · exact hc.of_eq rfl rfl
      · exact hc

theorem yearKnown_apply (o : Options) (kind : Kind) (pos : Nat) (bs : Bytes) (c : Collected)
    (hc : c.YearKnown) : (apply o kind pos bs c).YearKnown := by
  cases kind with
  | title => exact yearKnown_text o .title (by decide) bs c hc
  | artist => exact yearKnown_text o .artist (by decide) bs c hc
  | albumArtist => exact yearKnown_text o .albumArtist (by decide) bs c hc
  | grouping => exact yearKnown_text o .grouping (by decide) bs c hc
  | album => exact yearKnown_text o .album (by decide) bs c hc
  | composer => exact yearKnown_text o .composer (by decide) bs c hc
  | comment => exact yearKnown_text o .comment (by decide) bs c hc
  | customGenre => exact yearKnown_text o .genre (by decide) bs c hc
  | date => exact rfl
  | genre => exact yearKnown_genre bs c hc
  | trackNumber => exact yearKnown_numbering .track bs c hc
  | discNumber => exact yearKnown_numbering .disc bs c hc
  | cover =>
    rw [apply]
    split
    · exact yearKnown_cover pos bs c hc
    · exact hc
  | freeform => exact yearKnown_freeform o bs c hc
  | _ => exact hc

theorem yearKnown_applyAll (o : Options) (pos : Nat) (tags : List TagAtom) (c : Collected)
    (hc : c.YearKnown) : (applyAll o pos tags c).YearKnown := by
  induction tags generalizing pos c with
  | nil => exact hc
  | cons tag tags ih => exact ih _ _ (yearKnown_apply o _ _ _ c hc)

theorem value_nil (most : Nat) : value most [] = [] := by
  rw [value, List.drop_nil, List.take_nil]

theorem load_nil (c : Collected) : load [] c = c := by
  simp only [load, value_nil, Collected.mapArena, Arena.write, List.take_nil, List.length_nil,
    List.drop_zero, List.nil_append]

/-- A tag without a payload has no effect. -/
theorem apply_nil (o : Options) (kind : Kind) (pos : Nat) (c : Collected) (hc : c.YearKnown) :
    apply o kind pos [] c = c := by
  have htext (field : TextField) : text o field [] c = c := by
    rw [text, value_nil, if_neg (fun h => h.1 rfl), load_nil]
  have hnumber (field : NumberField) : numbering field [] c = c := by
    rw [numbering, value_nil, if_neg (fun h => absurd h.1 (by decide))]
  cases kind with
  | title => exact htext .title
  | artist => exact htext .artist
  | albumArtist => exact htext .albumArtist
  | grouping => exact htext .grouping
  | album => exact htext .album
  | composer => exact htext .composer
  | comment => exact htext .comment
  | customGenre => exact htext .genre
  | date =>
    rw [apply, date, htext]
    simp only [Collected.mapTags, ← show _ = _ from hc]
  | genre =>
    rw [apply, genre, value_nil, if_neg (fun h => absurd h.1 (by decide))]
  | trackNumber => exact hnumber .track
  | discNumber => exact hnumber .disc
  | cover =>
    have himage : ReadTag.imageType? (value 8 []) = none := by decide
    rw [apply, cover, himage]
    cases c.track.tags.artwork <;> exact ite_self c
  | freeform => rfl
  | _ => rfl

/-- A tag list that is too short for a tag with a payload has no effect. -/
theorem applyAll_short (o : Options) (pos : Nat) (tags : List TagAtom) (c : Collected)
    (hc : c.YearKnown) (hs : (TagList.octets tags).length ≤ Header.minSize) :
    applyAll o pos tags c = c := by
  cases tags with
  | nil => rfl
  | cons tag tags =>
    rw [TagList.octets, List.length_append, Atom.length_octets] at hs
    have hpayload : tag.payload = [] := List.eq_nil_of_length_eq_zero (by omega)
    have htags : tags = [] := by
      cases tags with
      | nil => rfl
      | cons next tags =>
        rw [TagList.octets, List.length_append, Atom.length_octets] at hs
        simp only [Header.minSize] at hs
        omega
    rw [applyAll, hpayload, htags, apply_nil o _ _ c hc]
    rfl

end TagContent

theorem Content.tags_apply (o : Options) (kind : Kind) (bs : Bytes) (c : Collected) :
    (apply o kind bs c).track.tags = c.track.tags := by
  cases kind with
  | timeToSample | aacEntry | alacEntry | chapterList =>
    rw [apply]
    split <;> rfl
  | _ => rfl

namespace Forest

theorem visitLeaf_apply (o : Options) (code : Code) (payload : Bytes) (next : Visit)
    (handler : Option Handler) (pos : Nat) (c : Collected)
    (hh : Kind.ofCode code ≠ .handler) (hd : Kind.ofCode code ≠ .mediaData) :
    visitLeaf o code payload next handler pos c =
      next handler (pos + Header.minSize + payload.length)
        (Content.apply o (.ofCode code) payload c) := by
  unfold visitLeaf
  split
  · exact absurd ‹_› hh
  · exact absurd ‹_› hd
  · rfl

theorem visit_leaf (o : Options) (code : LeafCode) (payload : Bytes) (next : Forest) (levels : Nat)
    (handler : Option Handler) (pos : Nat) (c : Collected)
    (hh : Kind.ofCode code ≠ .handler) (hd : Kind.ofCode code ≠ .mediaData) :
    (leaf code payload next).visit o levels handler pos c =
      next.visit o levels handler (pos + Header.minSize + payload.length)
        (Content.apply o (.ofCode code) payload c) :=
  visitLeaf_apply o code payload (next.visit o levels) handler pos c hh hd

/-- The visit fails only for want of levels. -/
theorem visit_error {o : Options} {f : Forest} {levels : Nat} {handler : Option Handler} {pos : Nat}
    {c : Collected} {e : ReadError} (h : (f.visit o levels handler pos c).1 = .error e) :
    e = .tooDeep ∧ levels < f.depth := by
  induction f generalizing levels handler pos c with
  | nil => cases h
  | leaf code payload next ih =>
    rw [visit, visitLeaf] at h
    split at h
    · exact ih h
    · split at h
      · exact ih h
      · dsimp only at h
        split at h
        · cases h
        · exact ih h
    · exact ih h
  | tagList tags next ih => exact ih h
  | container kind fixed inner next ihInner ihNext =>
    rw [visit, visitContainer] at h
    rw [depth]
    split at h
    · obtain ⟨he, hl⟩ := ihNext h
      exact ⟨he, by omega⟩
    · split at h
      · cases h
        exact ⟨rfl, by omega⟩
      · split at h
        · obtain ⟨he, hl⟩ := ihNext h
          exact ⟨he, by omega⟩
        · obtain ⟨he, hl⟩ := ihInner h
          exact ⟨he, by omega⟩

end Forest

end AudioAtoms
