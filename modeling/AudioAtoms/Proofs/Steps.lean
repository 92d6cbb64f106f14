import AudioAtoms.Proofs.Traversal
import AudioAtoms.Proofs.Visit
import Mathlib.Logic.Relation

/-!
# The steps of a run

Whatever a stream answers, and whatever comes of the run, what was collected changes in a few ways
only. A tag adds what some payload of it would say, and a tag that cannot be read adds nothing. A
leaf sets what it is about. So a property of what was collected that every step keeps is kept by
every run.
-/
namespace AudioAtoms

/-- A gain that is set is not replaced. -/
theorem Gain.get_offer {g : Gain} {field : Field} {x : Binary32} (h : g.get field = some x)
    (key value : String) : ((g.offer key value).gain g).get field = some x := by
  rw [get_gain_offer, h, Option.some_or, ite_self]

/-- The audio without the samples to drop, which tags and chapters tell. -/
def Audio.untrimmed (a : Audio) : Audio := { a with leadTrim := 0, tailTrim := 0 }

namespace TagContent
variable (o : Options) (bs : Bytes) (c : Collected)

/-- A text is set only where there is none. -/
theorem track_text (field : TextField) :
    (text o field bs c).track = c.track ∨ c.track.tags.text field = none ∧
      ∃ value, (text o field bs c).track =
        { c.track with tags := c.track.tags.setText value field } := by
  let kept := (load bs c).keep
    ((load bs c).arena.commit (value c.arena.room bs).length o.maxValueSize)
  have hkept : kept.2.track = c.track := Collected.track_keep _ _
  rw [text]
  split
  · rename_i h
    refine .inr ⟨Option.isNone_iff_eq_none.mp h.2, kept.1, ?_⟩
    rw [← hkept]
    rfl
  · exact .inl rfl

theorem track_genre :
    (genre bs c).track = c.track ∨ c.track.tags.text .genre = none ∧
      ∃ value, (genre bs c).track =
        { c.track with tags := c.track.tags.setText value .genre } := by
  rw [genre]
  split
  · rename_i h
    exact .inr ⟨Option.isNone_iff_eq_none.mp h.2, _, rfl⟩
  · exact .inl rfl

/-- A numbering is set only where there is no number, and then has one. -/
theorem track_numbering (field : NumberField) :
    (numbering field bs c).track = c.track ∨ (c.track.tags.numbering field).number = none ∧
      ∃ m text, (numbering field bs c).track =
        { c.track with tags := c.track.tags.setNumbering ⟨some m, text⟩ field } := by
  have hset (t : Tags) (a b : Numbering) :
      (t.setNumbering a field).setNumbering b field = t.setNumbering b field := by
    cases field <;> rfl
  have hkeep (d : Collected) (kept : Except Arena.Refusal (String × Arena)) :
      ∃ text, ((d.keep kept).2.mapTags fun t =>
          t.setNumbering { t.numbering field with text := (d.keep kept).1 } field).track =
        { d.track with tags :=
          d.track.tags.setNumbering { d.track.tags.numbering field with text } field } := by
    cases kept <;> exact ⟨_, rfl⟩
  rw [numbering]
  split
  · rename_i h
    refine .inr ⟨Option.isNone_iff_eq_none.mp h.2, Bytes.toNat (((value 6 bs).drop 2).take 2), ?_⟩
    split
    · obtain ⟨text, htext⟩ := hkeep _ _
      refine ⟨text, htext.trans ?_⟩
      simp only [Collected.mapTags, hset, Tags.numbering_setNumbering, if_true]
    · exact ⟨_, rfl⟩
  · exact .inl rfl

/-- A gain tag keeps the gains that are set. -/
theorem track_gain (key : String) :
    ∃ g, (gain o key bs c).track = { c.track with tags := { c.track.tags with gain := g } } ∧
      ∀ field x, c.track.tags.gain.get field = some x → g.get field = some x := by
  rw [gain]
  split
  · exact ⟨_, rfl, fun field x h => Gain.get_offer h _ _⟩
  · exact ⟨_, rfl, fun field x h => h⟩

theorem audio_text (field : TextField) : (text o field bs c).track.audio = c.track.audio := by
  obtain h | ⟨_, _, h⟩ := track_text o bs c field <;> rw [h]

theorem audio_genre : (genre bs c).track.audio = c.track.audio := by
  obtain h | ⟨_, _, h⟩ := track_genre bs c <;> rw [h]

theorem audio_numbering (field : NumberField) :
    (numbering field bs c).track.audio = c.track.audio := by
  obtain h | ⟨_, _, _, h⟩ := track_numbering bs c field <;> rw [h]

theorem audio_gain (key : String) : (gain o key bs c).track.audio = c.track.audio := by
  obtain ⟨_, h, _⟩ := track_gain o bs c key
  rw [h]

theorem audio_cover (pos : Nat) : (cover pos bs c).track.audio = c.track.audio := by
  rw [cover]
  split <;> rfl

/-- Only a free-form tag says something about the audio. -/
theorem audio_apply {kind : Kind} (hk : kind ≠ .freeform) (pos : Nat) :
    (apply o kind pos bs c).track.audio = c.track.audio := by
  cases kind with
  | freeform => exact absurd rfl hk
  | title | artist | albumArtist | grouping | album | composer | comment | customGenre =>
    exact audio_text o bs c _
  | date => exact audio_text o bs c .date
  | genre => exact audio_genre bs c
  | trackNumber | discNumber => exact audio_numbering bs c _
  | cover =>
    rw [apply]
    split
    · exact audio_cover bs c pos
    · rfl
  | _ => rfl

end TagContent

namespace Collected

/-- What reading a tag of a kind can do. Only tags of their own kind set the genre and the cover. -/
inductive TagStep (o : Options) (kind : Kind) (c : Collected) : Collected → Prop
  | stay : TagStep o kind c c
  | text (field : TextField) (hf : field ≠ .date) (hg : field = .genre → kind = .customGenre)
      (bs : Bytes) : TagStep o kind c (TagContent.text o field bs c)
  | date (bs : Bytes) : TagStep o kind c (TagContent.date o bs c)
  | genre (hk : kind = .genre) (bs : Bytes) : TagStep o kind c (TagContent.genre bs c)
  | numbering (field : NumberField) (bs : Bytes) :
    TagStep o kind c (TagContent.numbering field bs c)
  | cover (hk : kind = .cover) (art : Artwork) (h : c.track.tags.artwork = none) :
    TagStep o kind c (c.mapTags fun t => { t with artwork := some art })
  | gapless (bs : Bytes) : TagStep o kind c (TagContent.gapless bs c)
  | gain (key : String) (bs : Bytes) : TagStep o kind c (TagContent.gain o key bs c)

/-- A tag tells nothing about the audio but the samples to drop. -/
theorem TagStep.untrimmed {o : Options} {kind : Kind} {c d : Collected} (h : TagStep o kind c d) :
    d.track.audio.untrimmed = c.track.audio.untrimmed := by
  cases h with
  | stay => rfl
  | text field hf hg bs => rw [TagContent.audio_text]
  | date bs => exact congrArg _ (TagContent.audio_text o bs c .date)
  | genre hk bs => rw [TagContent.audio_genre]
  | numbering field bs => rw [TagContent.audio_numbering]
  | cover hk art hnone => rfl
  | gapless bs => rfl
  | gain key bs => rw [TagContent.audio_gain]

/-- The effect of a payload that is all there is such a step. -/
theorem tagStep_apply (o : Options) (kind : Kind) (pos : Nat) (bs : Bytes) (c : Collected) :
    TagStep o kind c (TagContent.apply o kind pos bs c) := by
  cases kind with
  | title | artist | albumArtist | grouping | album | composer | comment | customGenre =>
    exact .text _ (by decide) (by decide) bs
  | date => exact .date bs
  | genre => exact .genre rfl bs
  | trackNumber | discNumber => exact .numbering _ bs
  | cover =>
    rw [TagContent.apply, TagContent.cover]
    split
    · split
      · exact .cover rfl _ ‹_›
      · exact .stay
    · exact .stay
  | freeform =>
    rw [TagContent.apply, TagContent.freeform]
    cases TagContent.name? bs with
    | none => exact .stay
    | some named =>
      obtain ⟨key, bs⟩ := named
      dsimp only
      cases Freeform.key? key with
      | none => exact .gain key bs
      | some known =>
        cases known with
        | gapless => exact .gapless bs
        | _ => exact .text _ (by decide) (by decide) bs
  | _ => exact .stay

inductive Step (o : Options) (c : Collected) : Collected → Prop
  | tag {kind : Kind} {d : Collected} (h : TagStep o kind c d) : Step o c d
  | runs (runs : List SampleRun) : Step o c (c.mapAudio (Content.withRuns runs))
  | stream (stream : ElementaryStream) : Step o c (c.mapAudio (Content.withStream o stream))
  | lossless (rate : Nat) :
    Step o c (c.mapAudio fun a => { a with sampleRate := rate, codec := .alac })
  | chapter (trim : Nat) : Step o c (c.mapAudio fun a => { a with leadTrim := trim })
  | brand (brand : Option Code) :
    Step o c { c with track := { c.track with brand := c.track.brand <|> brand } }
  | audio (n : Nat) : Step o c (c.addAudio n)

def AfterTag (o : Options) (kind : Kind) (c : Collected) :
    Except StreamError Unit × Collected → Prop
  | (.ok _, d) => TagStep o kind c d
  | (.error _, d) => d = c

theorem AfterTag.step {o : Options} {kind : Kind} {c : Collected}
    {r : Except StreamError Unit × Collected} (h : AfterTag o kind c r) : TagStep o kind c r.2 := by
  match r, h with
  | (.ok _, _), h => exact h
  | (.error _, _), h => exact h ▸ .stay

end Collected

namespace TagValue
variable {σ : Type} [ByteStream true σ]

theorem length_le {most : Nat} {bs : Bytes} {s t : σ} (h : (read most).exec s = (.ok bs, t)) :
    bs.length ≤ most := by
  rw [read] at h
  obtain ⟨_, _, _, h⟩ := Read.exec_bind_eq_ok h
  split at h
  · cases h
    exact Nat.zero_le most
  · obtain ⟨_, _, _, h⟩ := Read.exec_bind_eq_ok h
    obtain ⟨size, _, _, h⟩ := Read.exec_bind_eq_ok h
    obtain ⟨found, _, _, h⟩ := Read.exec_bind_eq_ok h
    cases h
    have hle : min size most ≤ most := Nat.min_le_right size most
    split
    · omega
    · exact Nat.zero_le most

/-- A value that is read is that of some payload. -/
theorem finds_or_fails (most : Nat) (s : σ) :
    (∃ bs t, Finds most bs s t) ∨ ∃ e t, (read most).exec s = (.error e, t) := by
  rcases hr : (read most).exec s with ⟨e | bs, t⟩
  · exact .inr ⟨e, t, rfl⟩
  · refine .inl ⟨List.replicate offset 0 ++ bs, t, ?_⟩
    have hdrop : (List.replicate offset 0 ++ bs).drop offset = bs :=
      List.drop_left' List.length_replicate
    rw [Finds, hr, TagContent.value, hdrop, List.take_of_length_le (length_le hr)]

end TagValue

namespace ReadTag
open Collected (AfterTag)
variable {σ : Type} [ByteStream true σ] (o : Options) {kind : Kind} (c : Collected) (s : σ)

theorem after_bind_read {α : Type} {p : Read true α} {f : α → ReadTag Unit}
    (h : ∀ a (t : σ), AfterTag o kind c ((f a).exec c t).1) :
    AfterTag o kind c ((Collect.read p >>= f).exec c s).1 := by
  rcases hp : p.exec s with ⟨e | a, t⟩
  · rw [Collect.exec_bind_error (Collect.exec_read_error hp c)]
    rfl
  · rw [Collect.exec_bind_ok (Collect.exec_read_ok hp c)]
    exact h a t

/-- A reader that first reads a value takes the step for what it found, if it found something. -/
theorem after_found {p : ReadTag Unit} {most : Nat}
    (hfound : ∀ bs t, TagValue.Finds most bs s t → AfterTag o kind c (p.exec c s).1)
    (hfailed : ∀ e t, (TagValue.read most).exec s = (.error e, t) →
      p.exec c s = ((.error e, c), t)) : AfterTag o kind c (p.exec c s).1 := by
  obtain ⟨bs, t, h⟩ | ⟨e, t, h⟩ := TagValue.finds_or_fails most s
  · exact hfound bs t h
  · rw [hfailed e t h]
    rfl

theorem exec_valueIntoArena_error {e : StreamError} {t : σ}
    (h : (TagValue.read c.arena.room).exec s = (.error e, t)) :
    valueIntoArena.exec c s = ((.error e, c), t) := by
  rw [valueIntoArena, Collect.exec_bind_ok (Collect.exec_get c s),
    Collect.exec_bind_error (Collect.exec_read_error h c)]

theorem after_text (field : TextField) (hf : field ≠ .date)
    (hg : field = .genre → kind = .customGenre) :
    AfterTag o kind c ((text o field).exec c s).1 := by
  refine after_found o c s (fun bs t h => ?_) fun e t h =>
    Collect.exec_bind_error (exec_valueIntoArena_error c s h) _
  rw [exec_text o field h]
  exact .text field hf hg bs

theorem after_date : AfterTag o kind c ((date o).exec c s).1 := by
  refine after_found o c s (fun bs t h => ?_) fun e t h =>
    Collect.exec_bind_error (Collect.exec_bind_error (exec_valueIntoArena_error c s h) _) _
  rw [exec_date o h]
  exact .date bs

theorem after_genre (hk : kind = .genre) : AfterTag o kind c (genre.exec c s).1 := by
  refine after_found o c s (fun bs t h => ?_) fun e t h =>
    Collect.exec_bind_error (Collect.exec_read_error h c) _
  rw [exec_genre h]
  exact .genre hk bs

theorem after_numbering (field : NumberField) :
    AfterTag o kind c ((numbering field).exec c s).1 := by
  refine after_found o c s (fun bs t h => ?_) fun e t h =>
    Collect.exec_bind_error (Collect.exec_read_error h c) _
  rw [exec_numbering field h]
  exact .numbering field bs

theorem after_gapless : AfterTag o kind c (gapless.exec c s).1 := by
  refine after_found o c s (fun bs t h => ?_) fun e t h =>
    Collect.exec_bind_error (Collect.exec_read_error h c) _
  rw [exec_gapless h]
  exact .gapless bs

theorem after_gain (key : String) : AfterTag o kind c ((gain o key).exec c s).1 := by
  refine after_found o c s (fun bs t h => ?_) fun e t h =>
    Collect.exec_bind_error (exec_valueIntoArena_error c s h) _
  rw [exec_gain o key h]
  exact .gain key bs

theorem after_cover (hk : kind = .cover) : AfterTag o kind c (cover.exec c s).1 := by
  rw [cover, Collect.exec_bind_ok (Collect.exec_getTags c s)]
  by_cases hart : c.track.tags.artwork = none
  · rw [if_pos (by rw [hart]; rfl)]
    refine after_bind_read o c s fun pos t => after_bind_read o c t fun size t =>
      after_bind_read o c t fun bs t => ?_
    cases imageType? bs with
    | none => exact .stay
    | some type => exact .cover hk _ hart
  · rw [if_neg (fun h => hart (Option.isNone_iff_eq_none.mp h))]
    exact .stay

theorem after_freeform : AfterTag o .freeform c ((freeform o).exec c s).1 := by
  refine after_bind_read o c s fun key t => ?_
  cases Freeform.key? key with
  | none => exact after_gain o c t key
  | some known =>
    cases known with
    | composer => exact after_text o c t .composer (by decide) (by decide)
    | gapless => exact after_gapless o c t
    | musicBrainzTrack => exact after_text o c t .musicBrainzTrack (by decide) (by decide)
    | albumArtist => exact after_text o c t .albumArtist (by decide) (by decide)

/-- Reading a tag takes one step, and none if it fails, whatever the stream answers. -/
theorem after_read (kind : Kind) : AfterTag o kind c ((read o kind).exec c s).1 := by
  cases kind with
  | title | artist | albumArtist | grouping | album | composer | comment | customGenre =>
    exact after_text o c s _ (by decide) (by decide)
  | date => exact after_date o c s
  | genre => exact after_genre o c s rfl
  | trackNumber | discNumber => exact after_numbering o c s _
  | cover =>
    rw [read]
    split
    · exact after_cover o c s rfl
    · exact .stay
  | freeform => exact after_freeform o c s
  | _ => exact .stay

end ReadTag

namespace Collect
variable {ε α β : Type} {bounded : Bool} {R : Collected → Collected → Prop}

/-- Whatever the stream answers and whatever comes of it, the reader takes such steps only. -/
structure Makes (R : Collected → Collected → Prop) (p : Collect ε bounded α) : Prop where
  exec : ∀ {σ : Type} [ByteStream bounded σ] (c : Collected) (s : σ),
    Relation.ReflTransGen R c (p.exec c s).1.2

theorem makes_pure (a : α) : (pure a : Collect ε bounded α).Makes R := ⟨fun _ _ => .refl⟩

theorem makes_throw (e : ε) : (throw e : Collect ε bounded α).Makes R := ⟨fun _ _ => .refl⟩

theorem makes_note (m : Notice) : (note m : Collect ε bounded Unit).Makes R := ⟨fun _ _ => .refl⟩

theorem makes_get : (get : Collect ε bounded Collected).Makes R := ⟨fun _ _ => .refl⟩

theorem makes_modify {f : Collected → Collected} (h : ∀ c, R c (f c)) :
    (modify f : Collect ε bounded Unit).Makes R :=
  ⟨fun c _ => .single (h c)⟩

theorem makes_read (p : Read bounded α) : (read p).Makes R := by
  refine ⟨fun c s => ?_⟩
  rw [exec_read]

theorem Makes.bind {p : Collect ε bounded α} {f : α → Collect ε bounded β} (hp : p.Makes R)
    (hf : ∀ a, (f a).Makes R) : (p >>= f).Makes R := by
  refine ⟨fun c s => ?_⟩
  have hfirst := hp.exec c s
  rcases hr : p.exec c s with ⟨⟨e | a, d⟩, t⟩
  · rw [hr] at hfirst
    rw [exec_bind_error hr]
    exact hfirst
  · rw [hr] at hfirst
    rw [exec_bind_ok hr]
    exact hfirst.trans ((hf a).exec d t)

end Collect

namespace TagList

theorem collected_close {σ : Type} [ByteStream false σ] (kind : Kind)
    (r : (Except StreamError Unit × Collected) × Window) (s : σ) :
    ((close kind r).run s).1.2 = r.1.2 := by
  have hskip : ((Collect.read (Read.skip r.2.left) : Collect StreamError false Unit).exec
      r.1.2 s).1.2 = r.1.2 := by
    rw [Collect.exec_read]
  rw [close]
  split
  · exact hskip
  · split
    · exact hskip
    · rfl

/-- A tag takes one step also inside its window. -/
theorem tagStep_readTag (o : Options) (h : Header) {σ : Type} [ByteStream false σ] (c : Collected)
    (s : σ) : Collected.TagStep o h.kind c
      ((readTag o h : Collect StreamError false Unit).exec c s).1.2 := by
  have hafter := ReadTag.after_read o c (⟨s, .ofSize h.dataSize⟩ : Scoped σ) h.kind
  rw [Collect.exec, runFrom_readTag, Scan.enclose, Scan.run_bind, collected_close,
    Scoped.run_within]
  exact hafter.step

/-- A list takes the steps that its tags take. -/
theorem makes_of_readTag {R : Collected → Collected → Prop} {o : Options}
    (hR : ∀ h, (readTag o h : Collect StreamError false Unit).Makes R) (budget : Nat) :
    (TagList.read o budget : Collect StreamError false Unit).Makes R :=
  read_of_parts (P := fun p => p.Makes R) Collect.Makes.bind (fun _ => Collect.makes_read _)
    (fun _ => Collect.makes_read _) hR budget

theorem makes_read (o : Options) (budget : Nat) :
    (TagList.read o budget : Collect StreamError false Unit).Makes (Collected.Step o) :=
  makes_of_readTag (fun h => ⟨fun c s => .single (.tag (tagStep_readTag o h c s))⟩) budget

end TagList

namespace Walk
open Collect
variable {α : Type} {R : Collected → Collected → Prop} {o : Options} {child : Nat → Walk Step}

theorem makes_lift {p : Collect StreamError false α} (hp : p.Makes R) : (lift p).Makes R := by
  refine ⟨fun c s => ?_⟩
  rw [exec_lift]
  exact hp.exec c s

theorem makes_skip (n : Nat) : (skip n).Makes R := makes_lift (Collect.makes_read _)

theorem makes_leaf (h : Header) (payload : Read true α) : (leaf h payload).Makes R :=
  makes_lift (Collect.makes_read _)

theorem makes_pass (h : Header) : (pass h).Makes R := (makes_skip _).bind fun _ => makes_pure _

theorem makes_sampleTable (h : Header) : (sampleTable h).Makes (Collected.Step o) := by
  refine (makes_leaf h _).bind ?_
  rintro (_ | runs)
  · exact makes_pure _
  · exact (makes_modify fun _ => .runs runs).bind fun _ => makes_pure _

theorem makes_aacEntry (h : Header) : (aacEntry o h).Makes (Collected.Step o) := by
  refine (makes_leaf h _).bind ?_
  rintro (_ | _ | stream)
  · exact makes_pure _
  · exact makes_pure _
  · exact (makes_modify fun _ => .stream stream).bind fun _ => makes_pure _

theorem makes_alacEntry (h : Header) : (alacEntry h).Makes (Collected.Step o) := by
  refine (makes_leaf h _).bind ?_
  rintro (_ | _ | rate)
  · exact makes_pure _
  · exact makes_pure _
  · exact (makes_modify fun _ => .lossless rate).bind fun _ => makes_pure _

theorem makes_chapterList (h : Header) : (chapterList h).Makes (Collected.Step o) := by
  refine (makes_leaf h _).bind ?_
  rintro (_ | _ | tick)
  · exact makes_pure _
  · exact makes_pure _
  · exact makes_get.bind fun _ => (makes_note _).bind fun _ =>
      (makes_modify fun _ => .chapter _).bind fun _ => makes_pure _

theorem makes_fileType (h : Header) : (fileType h).Makes (Collected.Step o) :=
  (makes_leaf h _).bind fun brand => (makes_modify fun _ => .brand brand).bind fun _ =>
    makes_pure _

theorem makes_mediaData (h : Header) : (mediaData h).Makes (Collected.Step o) := by
  unfold mediaData
  split
  · exact makes_pure _
  · refine (makes_modify fun _ => .audio h.dataSize).bind fun _ => makes_get.bind fun _ => ?_
    split
    · exact makes_pure _
    · exact makes_pass h

theorem makes_tagList (h : Header) : (tagList o h).Makes (Collected.Step o) :=
  (makes_lift (TagList.makes_read o _)).bind fun _ => makes_pure _

section Tree
variable (hchild : ∀ budget, (child budget).Makes (Collected.Step o))
include hchild

theorem makes_content (handler : Option Handler) (h : Header) :
    (content o child handler h).Makes (Collected.Step o) := by
  obtain ⟨kind, wide, dataSize⟩ := h
  have henter (fixed : Nat) : (enter child fixed dataSize).Makes (Collected.Step o) :=
    (makes_skip _).bind fun _ => hchild _
  cases kind with
  | movie | userData | media | sampleTable | track => exact hchild _
  | metadata => exact henter 4
  | sampleDescription => exact henter 8
  | mediaInfo =>
    unfold content
    dsimp only
    split
    · exact hchild _
    · exact makes_pass _
  | tagList =>
    unfold content
    dsimp only
    split
    · exact makes_tagList _
    · exact makes_pass _
  | timeToSample => exact makes_sampleTable _
  | aacEntry => exact makes_aacEntry _
  | alacEntry => exact makes_alacEntry _
  | mediaData => exact makes_mediaData _
  | chapterList => exact makes_chapterList _
  | fileType => exact makes_fileType _
  | _ => exact makes_pass _

theorem makes_atom (handler : Option Handler) (h : Header) :
    (atom o child handler h).Makes (Collected.Step o) := by
  unfold atom
  split
  · exact (makes_leaf h _).bind fun _ => makes_pure _
  · exact (makes_content hchild handler h).bind fun _ => makes_pure _

theorem makes_siblings (handler : Option Handler) (budget : Nat) :
    (siblings o child handler budget).Makes (Collected.Step o) := by
  induction budget using Nat.strongRecOn generalizing handler with
  | ind budget ih =>
    rw [siblings]
    split
    · refine (makes_lift (Collect.makes_read _)).bind fun h =>
        (makes_atom hchild handler h).bind ?_
      rintro ⟨_ | _, handler'⟩
      · exact ih _ (h.leave_lt ‹_›) handler'
      · exact makes_pure _
    · exact (makes_skip _).bind fun _ => makes_pure _

end Tree

theorem makes_forest (o : Options) (levels budget : Nat) :
    (forest o levels budget).Makes (Collected.Step o) := by
  induction levels generalizing budget with
  | zero => exact makes_throw _
  | succ levels ih => exact makes_siblings ih none budget

end Walk

end AudioAtoms
