import AudioAtoms.Proofs.Containment
import AudioAtoms.Proofs.Recording
import AudioAtoms.Proofs.Steps
import AudioAtoms.Proofs.Truncation

/-!
# Playback data

How much room there is for the values of tags, and whether a cover is looked for, says what is kept
of the tags. It says nothing about the audio: two readings of one file that differ in these options
go through the same atoms, end at the same octet and tell the same error, and their records agree
in all that is needed to play the file.
-/
namespace AudioAtoms

/-- Two records agree but for the texts of their tags and the gains. The covers have to agree only
under a condition. -/
structure Track.PlaysLike (art : Prop) (t u : Track) : Prop where
  brand : u.brand = t.brand
  audio : u.audio = t.audio
  number : ∀ field, (u.tags.numbering field).number = (t.tags.numbering field).number
  artwork : art → u.tags.artwork = t.tags.artwork

namespace Track.PlaysLike
variable {art : Prop} {t t' u u' : Track}

theorem refl (t : Track) : t.PlaysLike art t := ⟨rfl, rfl, fun _ => rfl, fun _ => rfl⟩

/-- Changes that leave the playback data alone do so on both sides. -/
theorem both (h : t.PlaysLike art u) (ht : t.PlaysLike art t') (hu : u.PlaysLike art u') :
    t'.PlaysLike art u' where
  brand := hu.brand.trans (h.brand.trans ht.brand.symm)
  audio := hu.audio.trans (h.audio.trans ht.audio.symm)
  number field := (hu.number field).trans ((h.number field).trans (ht.number field).symm)
  artwork ha := (hu.artwork ha).trans ((h.artwork ha).trans (ht.artwork ha).symm)

theorem mono {art' : Prop} (h : t.PlaysLike art u) (himp : art' → art) : t.PlaysLike art' u :=
  ⟨h.brand, h.audio, h.number, fun ha => h.artwork (himp ha)⟩

theorem setText (t : Track) (value : Option String) (field : TextField) :
    t.PlaysLike art { t with tags := t.tags.setText value field } where
  brand := rfl
  audio := rfl
  number field' := by cases field <;> cases field' <;> rfl
  artwork _ := by cases field <;> rfl

end Track.PlaysLike

namespace Collected

def PlaysLike (art : Prop) (c d : Collected) : Prop := c.track.PlaysLike art d.track

/-- What is done to the audio is the same on both sides. -/
theorem PlaysLike.mapAudio {art : Prop} {c d : Collected} (h : c.PlaysLike art d)
    {f f' : Audio → Audio} (hf : f' c.track.audio = f c.track.audio) :
    (c.mapAudio f).PlaysLike art (d.mapAudio f') where
  brand := h.brand
  audio := (congrArg f' h.audio).trans hf
  number := h.number
  artwork := h.artwork

end Collected

namespace TagContent

variable {art : Prop}

section Storing
variable (o : Options) (bs : Bytes) (c : Collected)

theorem playsLike_text (field : TextField) : c.PlaysLike art (text o field bs c) := by
  rw [Collected.PlaysLike]
  obtain h | ⟨_, value, h⟩ := track_text o bs c field
  · rw [h]
    exact .refl _
  · rw [h]
    exact .setText _ value field

theorem playsLike_date : c.PlaysLike art (date o bs c) := by
  obtain ⟨hbrand, haudio, hnumber, hart⟩ : c.PlaysLike art _ := playsLike_text o bs c .date
  rw [date]
  generalize text o .date bs c = d at hbrand haudio hnumber hart ⊢
  refine ⟨hbrand, haudio, fun field => ?_, hart⟩
  rw [← hnumber field]
  cases field <;> rfl

theorem playsLike_genre : c.PlaysLike art (genre bs c) := by
  rw [Collected.PlaysLike]
  obtain h | ⟨_, value, h⟩ := track_genre bs c
  · rw [h]
    exact .refl _
  · rw [h]
    exact .setText _ value .genre

theorem playsLike_gain (key : String) : c.PlaysLike art (gain o key bs c) := by
  rw [Collected.PlaysLike]
  obtain ⟨g, h, _⟩ := track_gain o bs c key
  rw [h]
  exact ⟨rfl, rfl, fun field => by cases field <;> rfl, fun _ => rfl⟩

end Storing

variable {o o' : Options} {c d : Collected}

/-- Whether a numbering is set, and to which number, follows from the payload and from whether
there is a number. Only the text of it takes room. -/
theorem number_numbering (field field' : NumberField) (bs : Bytes) (c : Collected) :
    ((numbering field bs c).track.tags.numbering field').number =
      if ((value 6 bs).length = 6 ∧ (c.track.tags.numbering field).number.isNone) ∧
          field' = field then
        some (Bytes.toNat (((value 6 bs).drop 2).take 2))
      else (c.track.tags.numbering field').number := by
  have htext (d : Collected) (kept : Except Arena.Refusal (String × Arena)) :
      (((d.keep kept).2.mapTags fun t =>
          t.setNumbering { t.numbering field with text := (d.keep kept).1 } field).track.tags.numbering
        field').number = (d.track.tags.numbering field').number := by
    simp only [Collected.mapTags, Tags.numbering_setNumbering, Collected.track_keep]
    split
    · rename_i hf
      rw [hf]
    · rfl
  have hnumber (m : Nat) : ((c.mapTags fun t =>
      t.setNumbering { t.numbering field with number := some m } field).track.tags.numbering
        field').number = if field' = field then some m else (c.track.tags.numbering field').number := by
    simp only [Collected.mapTags, Tags.numbering_setNumbering]
    split <;> rfl
  rw [numbering]
  by_cases hset : (value 6 bs).length = 6 ∧ (c.track.tags.numbering field).number.isNone
  · rw [if_pos hset]
    simp only [and_iff_right hset]
    refine Eq.trans ?_ (hnumber _)
    split
    · exact htext _ _
    · rfl
  · rw [if_neg hset, if_neg fun h => hset h.1]

theorem playsLike_numbering (h : c.PlaysLike art d) (field : NumberField) (bs : Bytes) :
    (numbering field bs c).PlaysLike art (numbering field bs d) := by
  have hkept (c : Collected) : (numbering field bs c).track.brand = c.track.brand ∧
      (numbering field bs c).track.audio = c.track.audio ∧
      (numbering field bs c).track.tags.artwork = c.track.tags.artwork := by
    obtain h | ⟨_, m, text, h⟩ := track_numbering bs c field
    · rw [h]
      exact ⟨rfl, rfl, rfl⟩
    · rw [h]
      exact ⟨rfl, rfl, by cases field <;> rfl⟩
  obtain ⟨hbrand, haudio, hart⟩ := hkept c
  obtain ⟨hbrand', haudio', hart'⟩ := hkept d
  refine ⟨?_, ?_, fun field' => ?_, fun ha => ?_⟩
  · rw [hbrand, hbrand', h.brand]
  · rw [haudio, haudio', h.audio]
  · rw [number_numbering, number_numbering, h.number field, h.number field']
  · rw [hart, hart', h.artwork ha]

/-- A cover changes nothing but the cover. -/
theorem playsLike_cover (pos : Nat) (bs : Bytes) (c : Collected) :
    c.PlaysLike False (cover pos bs c) := by
  rw [cover]
  split
  · exact ⟨rfl, rfl, fun field => by cases field <;> rfl, False.elim⟩
  · exact .refl _

/-- Whether a cover is taken follows from the payload and the cover before. -/
theorem artwork_cover (h : d.track.tags.artwork = c.track.tags.artwork) (pos : Nat) (bs : Bytes) :
    (cover pos bs d).track.tags.artwork = (cover pos bs c).track.tags.artwork := by
  rw [cover, cover, h]
  cases c.track.tags.artwork with
  | some artwork => exact h
  | none =>
    cases ReadTag.imageType? (value 8 bs) with
    | none => exact h
    | some type => rfl

theorem playsLike_freeform (h : c.PlaysLike art d) (bs : Bytes) :
    (freeform o bs c).PlaysLike art (freeform o' bs d) := by
  rw [freeform, freeform]
  cases name? bs with
  | none => exact h
  | some named =>
    obtain ⟨key, bs⟩ := named
    dsimp only
    cases Freeform.key? key with
    | none => exact h.both (playsLike_gain o bs c key) (playsLike_gain o' bs d key)
    | some known =>
      cases known with
      | gapless => exact h.mapAudio rfl
      | _ => exact h.both (playsLike_text o bs c _) (playsLike_text o' bs d _)

/-- A tag whose payload is all there leaves the playback data the same on both sides. -/
theorem playsLike_apply (hart : art → o'.findArtwork = o.findArtwork) (h : c.PlaysLike art d)
    (kind : Kind) (pos : Nat) (bs : Bytes) :
    (apply o kind pos bs c).PlaysLike art (apply o' kind pos bs d) := by
  cases kind with
  | title | artist | albumArtist | grouping | album | composer | comment | customGenre =>
    exact h.both (playsLike_text o bs c _) (playsLike_text o' bs d _)
  | date => exact h.both (playsLike_date o bs c) (playsLike_date o' bs d)
  | genre => exact h.both (playsLike_genre bs c) (playsLike_genre bs d)
  | trackNumber | discNumber => exact playsLike_numbering h _ bs
  | cover =>
    have hkept (o : Options) (c : Collected) : c.PlaysLike False (apply o .cover pos bs c) := by
      rw [apply]
      split
      · exact playsLike_cover pos bs c
      · exact .refl _
    have hrest := (h.mono False.elim).both (hkept o c) (hkept o' d)
    refine ⟨hrest.brand, hrest.audio, hrest.number, fun ha => ?_⟩
    rw [apply, apply, hart ha]
    split
    · exact artwork_cover (h.artwork ha) pos bs
    · exact h.artwork ha
  | freeform => exact playsLike_freeform h bs
  | _ => exact h

end TagContent

namespace Collect
variable {ε α β : Type} {R : Collected → Collected → Prop}

/-- Two runs that end alike: with the same result at the same octet and in related states, or with
the same error. -/
inductive EndAlike (R : Collected → Collected → Prop) :
    (Except ε α × Collected) × Slice → (Except ε α × Collected) × Slice → Prop
  | ok {c d : Collected} (a : α) (t : Slice) (h : R c d) :
    EndAlike R ((.ok a, c), t) ((.ok a, d), t)
  | error (e : ε) (c d : Collected) (t u : Slice) :
    EndAlike R ((.error e, c), t) ((.error e, d), u)

structure InStep (R : Collected → Collected → Prop) (p q : Collect ε false α) : Prop where
  exec : ∀ (c d : Collected) (s : Slice), R c d → EndAlike R (p.exec c s) (q.exec d s)

theorem inStep_pure (a : α) : (pure a : Collect ε false α).InStep R (pure a) :=
  ⟨fun _ _ s h => .ok a s h⟩

theorem inStep_throw (e : ε) : (throw e : Collect ε false α).InStep R (throw e) :=
  ⟨fun c d s _ => .error e c d s s⟩

theorem inStep_note (m : Notice) : (note m : Collect ε false Unit).InStep R (note m) :=
  ⟨fun _ _ s h => .ok () s h⟩

theorem inStep_modify {f g : Collected → Collected} (h : ∀ c d, R c d → R (f c) (g d)) :
    (modify f : Collect ε false Unit).InStep R (modify g) :=
  ⟨fun c d s hcd => .ok () s (h c d hcd)⟩

/-- A reader that does not look at what was collected. -/
theorem inStep_read (p : Read false α) : (read p).InStep R (read p) := by
  refine ⟨fun c d s h => ?_⟩
  rw [exec_read, exec_read]
  cases (p.exec s).1 with
  | ok a => exact .ok a _ h
  | error e => exact .error e c d _ _

theorem InStep.bind {p q : Collect ε false α} {f g : α → Collect ε false β} (hp : p.InStep R q)
    (hf : ∀ a, (f a).InStep R (g a)) : (p >>= f).InStep R (q >>= g) := by
  refine ⟨fun c d s h => ?_⟩
  have hfirst := hp.exec c d s h
  rw [exec_bind, exec_bind]
  generalize p.exec c s = run, q.exec d s = run' at hfirst ⊢
  cases hfirst with
  | ok a t h => exact (hf a).exec _ _ t h
  | error e c d t u => exact .error e c d t u

theorem inStep_get_bind {f g : Collected → Collect ε false β}
    (h : ∀ c d, R c d → (f c).InStep R (g d)) : (get >>= f).InStep R (get >>= g) :=
  ⟨fun c d s hcd => (h c d hcd).exec c d s hcd⟩

end Collect

namespace TagList
open Collect
variable {art : Prop} {o o' : Options}

/-- A tag that is cut off by the end of the slice is an error, whatever its kind. -/
theorem exec_readTag_short (o : Options) (h : Header) (c : Collected) {s : Slice}
    (hs : s.rest.length < h.dataSize) :
    ((readTag o h : Collect StreamError false Unit).exec c s).1.1 = .error .underrun := by
  have hcandid := (ReadTag.strict_readTag o h.kind).candid c
  have hcut := (quiet_readTag o h c).not_cut s
  rw [runFrom_readTag] at hcut
  rw [Collect.exec, runFrom_readTag]
  exact StreamError.of?_eq_some.mp
    (((closes h.kind).run_short hcandid hs).2.resolve_right hcut)

variable (hart : art → o'.findArtwork = o.findArtwork)
include hart

theorem inStep_readTag (h : Header) :
    (readTag o h : Collect StreamError false Unit).InStep (Collected.PlaysLike art)
      (readTag o' h) := by
  refine ⟨fun c d s hcd => ?_⟩
  rcases Nat.lt_or_ge s.rest.length h.dataSize with hshort | henough
  · have hc := exec_readTag_short o h c hshort
    have hd := exec_readTag_short o' h d hshort
    rcases hrc : (readTag o h : Collect StreamError false Unit).exec c s with ⟨⟨_, c'⟩, t⟩
    rcases hrd : (readTag o' h : Collect StreamError false Unit).exec d s with ⟨⟨_, d'⟩, u⟩
    rw [hrc] at hc
    rw [hrd] at hd
    subst hc hd
    exact .error _ c' d' t u
  · obtain ⟨pos, rest⟩ := s
    have hlen : h.dataSize = (rest.take h.dataSize).length :=
      (List.length_take_of_le henough).symm
    have hexec (o : Options) (c : Collected) :=
      exec_readTag_apply o h c pos (rest.take h.dataSize) (rest.drop h.dataSize) hlen
    rw [← List.take_append_drop h.dataSize rest, hexec o c, hexec o' d]
    exact .ok () _ (TagContent.playsLike_apply hart hcd h.kind pos _)

theorem inStep_read (budget : Nat) :
    (TagList.read o budget : Collect StreamError false Unit).InStep (Collected.PlaysLike art)
      (TagList.read o' budget) := by
  induction budget using Nat.strongRecOn with
  | ind budget ih =>
    rw [TagList.read, TagList.read]
    split
    · exact (Collect.inStep_read _).bind fun h => (inStep_readTag hart h).bind fun _ =>
        ih _ (h.leave_lt ‹_›)
    · exact Collect.inStep_read _

end TagList

namespace Walk
open Collect
variable {α : Type} {R : Collected → Collected → Prop} {art : Prop} {o o' : Options}
  {child child' : Nat → Walk Step}

theorem inStep_lift {p q : Collect StreamError false α} (h : p.InStep R q) :
    (lift p).InStep R (lift q) := by
  refine ⟨fun c d s hcd => ?_⟩
  have hends := h.exec c d s hcd
  rw [exec_lift, exec_lift]
  generalize p.exec c s = run, q.exec d s = run' at hends ⊢
  cases hends with
  | ok a t h => exact .ok a t h
  | error e c d t u => exact .error _ c d t u

theorem inStep_skip (n : Nat) : (skip n).InStep R (skip n) := inStep_lift (Collect.inStep_read _)

theorem inStep_leaf (h : Header) (payload : Read true α) :
    (leaf h payload).InStep R (leaf h payload) :=
  inStep_lift (Collect.inStep_read _)

theorem inStep_pass (h : Header) : (pass h).InStep R (pass h) :=
  (inStep_skip _).bind fun _ => inStep_pure _

/-- The audio changes in the same way on both sides. -/
theorem inStep_modifyAudio (f : Audio → Audio) :
    (modifyAudio f : Walk Unit).InStep (Collected.PlaysLike art) (modifyAudio f) :=
  inStep_modify fun _ _ h => h.mapAudio rfl

theorem inStep_sampleTable (h : Header) :
    (sampleTable h).InStep (Collected.PlaysLike art) (sampleTable h) := by
  refine (inStep_leaf h _).bind ?_
  rintro (_ | runs)
  · exact inStep_pure _
  · exact (inStep_modifyAudio _).bind fun _ => inStep_pure _

theorem inStep_aacEntry (hsbr : o'.implicitReplication = o.implicitReplication) (h : Header) :
    (aacEntry o h).InStep (Collected.PlaysLike art) (aacEntry o' h) := by
  rw [aacEntry, aacEntry, hsbr]
  refine (inStep_leaf h _).bind ?_
  rintro (_ | _ | stream)
  · exact inStep_pure _
  · exact inStep_pure _
  · exact (inStep_modifyAudio _).bind fun _ => inStep_pure _

theorem inStep_alacEntry (h : Header) :
    (alacEntry h).InStep (Collected.PlaysLike art) (alacEntry h) := by
  refine (inStep_leaf h _).bind ?_
  rintro (_ | _ | rate)
  · exact inStep_pure _
  · exact inStep_pure _
  · exact (inStep_modifyAudio _).bind fun _ => inStep_pure _

theorem inStep_chapterList (h : Header) :
    (chapterList h).InStep (Collected.PlaysLike art) (chapterList h) := by
  refine (inStep_leaf h _).bind ?_
  rintro (_ | _ | tick)
  · exact inStep_pure _
  · exact inStep_pure _
  · refine inStep_get_bind fun c d hcd => ?_
    rw [hcd.audio]
    exact (inStep_note _).bind fun _ => (inStep_modifyAudio _).bind fun _ => inStep_pure _

theorem inStep_fileType (h : Header) :
    (fileType h).InStep (Collected.PlaysLike art) (fileType h) := by
  refine (inStep_leaf h _).bind fun brand => (inStep_modify fun c d hcd => ?_).bind fun _ =>
    inStep_pure _
  exact ⟨congrArg (· <|> brand) hcd.brand, hcd.audio, hcd.number, hcd.artwork⟩

theorem inStep_mediaData (h : Header) :
    (mediaData h).InStep (Collected.PlaysLike art) (mediaData h) := by
  unfold mediaData
  split
  · exact inStep_pure _
  · refine (inStep_modifyAudio _).bind fun _ => inStep_get_bind fun c d hcd => ?_
    rw [hcd.audio]
    split
    · exact inStep_pure _
    · exact inStep_pass h

section Tree
variable (hsbr : o'.implicitReplication = o.implicitReplication)
  (hart : art → o'.findArtwork = o.findArtwork)
include hsbr hart

theorem inStep_content
    (hchild : ∀ budget, (child budget).InStep (Collected.PlaysLike art) (child' budget))
    (handler : Option Handler) (h : Header) :
    (content o child handler h).InStep (Collected.PlaysLike art)
      (content o' child' handler h) := by
  obtain ⟨kind, wide, dataSize⟩ := h
  have henter (fixed : Nat) : (enter child fixed dataSize).InStep (Collected.PlaysLike art)
      (enter child' fixed dataSize) := (inStep_skip _).bind fun _ => hchild _
  cases kind with
  | movie | userData | media | sampleTable | track => exact hchild _
  | metadata => exact henter 4
  | sampleDescription => exact henter 8
  | mediaInfo =>
    unfold content
    dsimp only
    split
    · exact hchild _
    · exact inStep_pass _
  | tagList =>
    unfold content
    dsimp only
    split
    · exact (inStep_lift (TagList.inStep_read hart _)).bind fun _ => inStep_pure _
    · exact inStep_pass _
  | timeToSample => exact inStep_sampleTable _
  | aacEntry => exact inStep_aacEntry hsbr _
  | alacEntry => exact inStep_alacEntry _
  | mediaData => exact inStep_mediaData _
  | chapterList => exact inStep_chapterList _
  | fileType => exact inStep_fileType _
  | _ => exact inStep_pass _

theorem inStep_siblings
    (hchild : ∀ budget, (child budget).InStep (Collected.PlaysLike art) (child' budget))
    (handler : Option Handler) (budget : Nat) :
    (siblings o child handler budget).InStep (Collected.PlaysLike art)
      (siblings o' child' handler budget) := by
  have hatom (handler : Option Handler) (h : Header) : (atom o child handler h).InStep
      (Collected.PlaysLike art) (atom o' child' handler h) := by
    unfold atom
    split
    · exact (inStep_leaf h _).bind fun _ => inStep_pure _
    · exact (inStep_content hsbr hart hchild handler h).bind fun _ => inStep_pure _
  induction budget using Nat.strongRecOn generalizing handler with
  | ind budget ih =>
    rw [siblings, siblings]
    split
    · refine (inStep_lift (Collect.inStep_read _)).bind fun h => (hatom handler h).bind ?_
      rintro ⟨_ | _, handler'⟩
      · exact ih _ (h.leave_lt ‹_›) handler'
      · exact inStep_pure _
    · exact (inStep_skip _).bind fun _ => inStep_pure _

theorem inStep_forest (levels budget : Nat) :
    (forest o levels budget).InStep (Collected.PlaysLike art) (forest o' levels budget) := by
  induction levels generalizing budget with
  | zero => exact inStep_throw _
  | succ levels ih => exact inStep_siblings hsbr hart ih none budget

end Tree

end Walk

namespace Track
variable {art : Prop} {t u : Track}

/-- Records that agree in their audio are both completed, or refused with the same error. -/
theorem PlaysLike.completed (h : t.PlaysLike art u) :
    (∃ e, t.completed = .error e ∧ u.completed = .error e) ∨
      ∃ t' u', t.completed = .ok t' ∧ u.completed = .ok u' ∧ t'.PlaysLike art u' := by
  rw [Track.completed, Track.completed, h.audio]
  cases t.audio.completed with
  | error e => exact .inl ⟨e, rfl, rfl⟩
  | ok a => exact .inr ⟨_, _, rfl, rfl, ⟨h.brand, rfl, h.number, h.artwork⟩⟩

/-- The room for tag values and the look for a cover decide neither whether a file is read nor how
it is played. -/
theorem read_playsLike (o o' : Options) (size : Nat) (bs : Bytes)
    (hsbr : o'.implicitReplication = o.implicitReplication) :
    (∃ e, Track.read o size (Slice.ofBytes bs) = .error e ∧
        Track.read o' size (Slice.ofBytes bs) = .error e) ∨
      ∃ t u, Track.read o size (Slice.ofBytes bs) = .ok t ∧
        Track.read o' size (Slice.ofBytes bs) = .ok u ∧
        t.PlaysLike (o'.findArtwork = o.findArtwork) u := by
  have hstart : (Collected.start o).PlaysLike (o'.findArtwork = o.findArtwork)
      (Collected.start o') := Track.PlaysLike.refl _
  have hends := (Walk.inStep_forest hsbr id Walk.maxDepth size).exec _ _ (Slice.ofBytes bs) hstart
  rw [Track.read_eq, Track.read_eq, Walk.walk, Walk.walk]
  generalize (Walk.forest o Walk.maxDepth size).exec (.start o) (Slice.ofBytes bs) = run,
    (Walk.forest o' Walk.maxDepth size).exec (.start o') (Slice.ofBytes bs) = run' at hends ⊢
  cases hends with
  | ok _ _ h => exact h.completed
  | error e => exact .inl ⟨e, rfl, rfl⟩

set_option maxRecDepth 2048 in
/-- A title that finds no room is lost, and the file is played all the same. -/
theorem read_playsLike_noRoom :
    let room (size : Nat) : Options := { arenaSize := size, maxValueSize := size }
    let title := TagList.octets [⟨Kind.title.code, Recording.data [97, 98]⟩]
    let file := Atom.octets Kind.handler.code
        (Recording.handlerOctets (.ofChars 'm' 'd' 'i' 'r')) ++
      Atom.octets Kind.tagList.code title ++ sampleAtoms ++
      Atom.octets Kind.mediaData.code [1, 2, 3, 4]
    ∃ t u, Track.read (room 0) file.length (Slice.ofBytes file) = .ok t ∧
      Track.read (room 8) file.length (Slice.ofBytes file) = .ok u ∧
      t.PlaysLike (true = true) u ∧ t.tags.title = none ∧ u.tags.title = some "ab" := by
  intro room title file
  let audio : Audio :=
    { codec := .alac, sampleRate := 48000, samples := 1024000, bytes := 4, length := 21333,
      variableRate := true }
  have hnone : Track.read (room 0) file.length (Slice.ofBytes file) = .ok { audio } := by cbv
  have hsome : Track.read (room 8) file.length (Slice.ofBytes file) =
      .ok { audio, tags := { title := some "ab" } } := by cbv
  obtain ⟨e, he, -⟩ | ⟨t, u, ht, hu, hlike⟩ :=
    read_playsLike (room 0) (room 8) file.length file rfl
  · cases hnone.symm.trans he
  · cases hnone.symm.trans ht
    cases hsome.symm.trans hu
    exact ⟨_, _, hnone, hsome, hlike, rfl, rfl⟩

end Track

end AudioAtoms
