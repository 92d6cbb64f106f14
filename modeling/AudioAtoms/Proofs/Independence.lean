import AudioAtoms.Proofs.ArenaUse
import AudioAtoms.Proofs.Insertion

/-!
# Tags about different things

Two tags that are about different parts of the record can change places. The parts have nothing in
common, but all tags share the arena, and how much of a value is read depends on what is left
there. The limit on the size of a value makes up for it: where the arena has room for the largest
value, what is kept of a value no longer depends on the room.

What a tag does is described by comparing two states with room in their arenas. If they agree on
the part that the tag is about, the tag leaves them agreeing on it, changes nothing else, and takes
the same room from both.
-/
namespace AudioAtoms

/-- A part of the record that a tag is about. The year goes with the date, the text of a numbering
with its number. -/
inductive Subject where
  | nothing
  | text (field : TextField)
  | numbering (field : NumberField)
  | artwork
  | trims
  | gain (field : Gain.Field)
deriving DecidableEq, Repr

namespace Subject

def ofName (name : String) : Subject :=
  match Freeform.key? name with
  | some .composer => .text .composer
  | some .gapless => .trims
  | some .musicBrainzTrack => .text .musicBrainzTrack
  | some .albumArtist => .text .albumArtist
  | none => ((Gain.field? name).map .gain).getD .nothing

/-- What a tag is about. A free-form tag without a name that can be read is about nothing. -/
def of (kind : Kind) (payload : Bytes) : Subject :=
  match kind with
  | .title => .text .title
  | .artist => .text .artist
  | .albumArtist => .text .albumArtist
  | .grouping => .text .grouping
  | .album => .text .album
  | .composer => .text .composer
  | .comment => .text .comment
  | .customGenre | .genre => .text .genre
  | .date => .text .date
  | .trackNumber => .numbering .track
  | .discNumber => .numbering .disc
  | .cover => .artwork
  | .freeform => ((TagContent.name? payload).map fun named => ofName named.1).getD .nothing
  | _ => .nothing

def Apart (x y : Subject) : Prop := x = y → x = nothing

instance (x y : Subject) : Decidable (x.Apart y) :=
  inferInstanceAs (Decidable (x = y → x = nothing))

theorem Apart.symm {x y : Subject} (h : x.Apart y) : y.Apart x :=
  fun hyx => hyx ▸ h hyx.symm

end Subject

def Gain.graft (g h : Gain) : Field → Gain
  | .trackGain => { g with trackGain := h.trackGain }
  | .albumGain => { g with albumGain := h.albumGain }
  | .trackPeak => { g with trackPeak := h.trackPeak }
  | .albumPeak => { g with albumPeak := h.albumPeak }

namespace Track
variable (t u v : Track) (x y : Subject)

/-- A record with one part taken from another record. -/
def graft (t : Track) (x : Subject) (u : Track) : Track :=
  match x with
  | .nothing => t
  | .text .date => { t with tags := { t.tags with date := u.tags.date, year := u.tags.year } }
  | .text field => { t with tags := t.tags.setText (u.tags.text field) field }
  | .numbering field => { t with tags := t.tags.setNumbering (u.tags.numbering field) field }
  | .artwork => { t with tags := { t.tags with artwork := u.tags.artwork } }
  | .trims =>
    { t with audio := { t.audio with leadTrim := u.audio.leadTrim, tailTrim := u.audio.tailTrim } }
  | .gain field => { t with tags := { t.tags with gain := t.tags.gain.graft u.tags.gain field } }

theorem graft_self : t.graft x t = t := by
  cases x with
  | text field | numbering field | gain field => cases field <;> rfl
  | _ => rfl

/-- Of two parts taken one after the other the second replaces the first if they are the same. -/
theorem graft_graft :
    (t.graft x u).graft y v = if x = y then t.graft y v else (t.graft y v).graft x u := by
  obtain _ | ⟨⟨⟩⟩ | ⟨⟨⟩⟩ | _ | _ | ⟨⟨⟩⟩ := x <;> obtain _ | ⟨⟨⟩⟩ | ⟨⟨⟩⟩ | _ | _ | ⟨⟨⟩⟩ := y <;> rfl

theorem graft_comm {x y : Subject} (h : x.Apart y) :
    (t.graft x u).graft y v = (t.graft y v).graft x u := by
  rw [graft_graft]
  split
  · rename_i hxy
    rw [← hxy, h hxy]
    rfl
  · rfl

/-- A record that was changed in one part still has the other parts. -/
theorem graft_of_apart {t u : Track} {x y : Subject} (hxy : x.Apart y) (hu : u = t.graft x u) :
    u = u.graft y t := by
  rw [hu, graft_comm _ _ _ hxy, graft_self]

theorem text_graft (field : TextField) :
    (t.graft (.text field) u).tags.text field = u.tags.text field := by
  cases field <;> rfl

theorem numbering_graft (field : NumberField) :
    (t.graft (.numbering field) u).tags.numbering field = u.tags.numbering field := by
  cases field <;> rfl

end Track

/-- The arena has room for whatever a single tag keeps: the largest value, or two numbers of 16
bits with a slash. -/
def Collected.HasRoom (o : Options) (c : Collected) : Prop :=
  max o.maxValueSize 12 ≤ c.arena.remaining

/-- The effect of a tag is that on one part of the record. Where there is room it depends on this
part alone, and so does what it takes of the arena. -/
def Confined (o : Options) (x : Subject) (effect : Collected → Collected) : Prop :=
  ∀ ⦃c d : Collected⦄, c.HasRoom o → d.HasRoom o → ∀ t : Track, c.track = t.graft x d.track →
    (effect c).track = t.graft x (effect d).track ∧ ∃ size ≤ max o.maxValueSize 12,
      c.arena.Takes size (effect c).arena ∧ d.arena.Takes size (effect d).arena

namespace Confined
variable {o : Options} {x y : Subject} {f g : Collected → Collected}

theorem of_idle (htrack : ∀ c, (f c).track = c.track)
    (htakes : ∀ c : Collected, c.arena.Takes 0 (f c).arena) : Confined o x f := by
  intro c d _ _ t h
  rw [htrack, htrack]
  exact ⟨h, 0, Nat.zero_le _, htakes c, htakes d⟩

theorem idle (o : Options) (x : Subject) : Confined o x fun c => c :=
  of_idle (fun _ => rfl) fun _ => ⟨rfl, rfl⟩

theorem load (o : Options) (x : Subject) (bs : Bytes) : Confined o x (TagContent.load bs) :=
  of_idle (fun _ => rfl) fun c => c.arena.takes_write _

/-- A change of the part itself may come on top. -/
theorem mapTags (h : Confined o x f) {change : Tags → Tags}
    (hchange : ∀ t u : Track, { t.graft x u with tags := change (t.graft x u).tags } =
      t.graft x { u with tags := change u.tags }) :
    Confined o x fun c => (f c).mapTags change := by
  intro c d hc hd t htrack
  obtain ⟨hafter, htakes⟩ := h hc hd t htrack
  refine ⟨?_, htakes⟩
  simp only [Collected.mapTags, hafter, hchange]

/-- A tag does the same after one that is about something else. Together they take what each of
them takes. -/
theorem after (hf : Confined o x f) (hg : Confined o y g) (hxy : x.Apart y) {c : Collected}
    (hroom : 2 * max o.maxValueSize 12 ≤ c.arena.remaining) :
    (g (f c)).track = (c.track.graft x (f c).track).graft y (g c).track ∧
      (g (f c)).arena.used + c.arena.used = (f c).arena.used + (g c).arena.used := by
  have hc : c.HasRoom o := by
    unfold Collected.HasRoom
    omega
  obtain ⟨hfirst, m, hm, hmf, -⟩ := hf hc hc c.track (Track.graft_self _ _).symm
  have hfc : (f c).HasRoom o := by
    have hleft := hmf.remaining
    unfold Collected.HasRoom
    omega
  obtain ⟨hsecond, n, -, hnf, hn⟩ := hg hfc hc (f c).track (Track.graft_of_apart hxy hfirst)
  rw [← hfirst]
  exact ⟨hsecond, by rw [hnf.used, hn.used]; omega⟩

/-- Tags about different things can change places. -/
theorem comm (hf : Confined o x f) (hg : Confined o y g) (hxy : x.Apart y) {c : Collected}
    (hroom : 2 * max o.maxValueSize 12 ≤ c.arena.remaining) :
    (g (f c)).track = (f (g c)).track ∧ (g (f c)).arena.used = (f (g c)).arena.used := by
  obtain ⟨htrack, hused⟩ := hf.after hg hxy hroom
  obtain ⟨htrack', hused'⟩ := hg.after hf hxy.symm hroom
  refine ⟨?_, by omega⟩
  rw [htrack, htrack', Track.graft_comm _ _ _ hxy]

end Confined

theorem Bytes.untilNul_take (bs : Bytes) (n : Nat) :
    Bytes.untilNul (bs.take n) = bs.untilNul.take n := by
  induction bs generalizing n with
  | nil => rw [List.take_nil, untilNul, List.takeWhile_nil, List.take_nil]
  | cons octet bs ih =>
    cases n with
    | zero => rfl
    | succ n =>
      simp only [untilNul, List.take_succ_cons, List.takeWhile_cons] at ih ⊢
      split
      · rw [List.take_succ_cons, ih]
      · rfl

namespace TagContent
variable {o : Options} {c : Collected} {bs : Bytes}

def kept (o : Options) (bs : Bytes) : Bytes :=
  Arena.trimmed o.maxValueSize (bs.drop TagValue.offset)

section Room
variable (hc : c.HasRoom o)
include hc

theorem length_value_lt : (value c.arena.room bs).length < c.arena.remaining := by
  have hle := List.length_take_le c.arena.room (bs.drop TagValue.offset)
  unfold Collected.HasRoom at hc
  rw [value]
  unfold Arena.room at hle ⊢
  omega

theorem value_ne_nil (hne : bs.drop TagValue.offset ≠ []) : value c.arena.room bs ≠ [] := by
  unfold Collected.HasRoom at hc
  rw [value, Arena.room, Ne, List.take_eq_nil_iff]
  rintro (h | h)
  · omega
  · exact hne h

/-- What is kept of a value does not depend on the room. -/
theorem trimmed_value : Arena.trimmed o.maxValueSize (value c.arena.room bs) = kept o bs := by
  unfold Collected.HasRoom at hc
  have hle : o.maxValueSize - 1 ≤ c.arena.room := by
    unfold Arena.room
    omega
  rw [Arena.trimmed, value, Bytes.untilNul_take, List.take_take, Nat.min_eq_left hle, kept,
    Arena.trimmed]

/-- A text that is not set yet is set to what is kept of the value. -/
theorem text_eq_kept {field : TextField} (hne : bs.drop TagValue.offset ≠ [])
    (hmost : o.maxValueSize ≠ 0) (hunset : c.track.tags.text field = none) :
    ∃ b, text o field bs c =
        { c.mapTags (·.setText (some (Text.decode (kept o bs))) field) with arena := b } ∧
      c.arena.Takes ((kept o bs).length + 1) b := by
  obtain ⟨b, hb, htakes⟩ := text_of_value (value_ne_nil hc hne) hmost hunset
  rw [trimmed_value hc] at hb htakes
  exact ⟨b, hb, htakes⟩

theorem peek_load (hne : bs.drop TagValue.offset ≠ []) (hmost : o.maxValueSize ≠ 0) :
    (load bs c).arena.peek (value c.arena.room bs).length o.maxValueSize =
      some (Text.decode (kept o bs)) := by
  rw [← trimmed_value hc]
  exact Arena.peek_written (value_ne_nil hc hne) hmost (length_value_lt hc).le

end Room

/-- Nothing comes of a text without a value, without a limit, or for a field that is set. -/
theorem text_eq_load {field : TextField} (h : bs.drop TagValue.offset = [] ∨ o.maxValueSize = 0 ∨
    c.track.tags.text field ≠ none) : text o field bs c = load bs c := by
  rw [text]
  split
  · rename_i hset
    have hunset := Option.isNone_iff_eq_none.1 hset.2
    obtain hnil | hzero | hfull := h
    · exact absurd (by rw [value, hnil, List.take_nil]) hset.1
    · rw [hzero, Arena.commit, if_pos (.inr rfl)]
      simp only [Collected.keep, Collected.mapTags, Tags.setText_none hunset]
    · exact absurd hunset hfull
  · rfl

theorem peek_load_eq_none (h : bs.drop TagValue.offset = [] ∨ o.maxValueSize = 0) :
    (load bs c).arena.peek (value c.arena.room bs).length o.maxValueSize = none := by
  refine if_pos (h.imp_left fun hnil => ?_)
  rw [value, hnil, List.take_nil, List.length_nil]

theorem confined_text (o : Options) (field : TextField) (bs : Bytes) :
    Confined o (.text field) (text o field bs) := by
  intro c d hc hd t htrack
  have hsame : c.track.tags.text field = d.track.tags.text field := by
    rw [htrack, Track.text_graft]
  by_cases hload : bs.drop TagValue.offset = [] ∨ o.maxValueSize = 0 ∨
      d.track.tags.text field ≠ none
  · rw [text_eq_load hload, text_eq_load (hsame ▸ hload)]
    exact Confined.load o _ bs hc hd t htrack
  · simp only [not_or, not_not] at hload
    obtain ⟨hne, hmost, hunset⟩ := hload
    obtain ⟨a, ha, htakes⟩ := text_eq_kept hc hne hmost (hsame.trans hunset)
    obtain ⟨b, hb, htakes'⟩ := text_eq_kept hd hne hmost hunset
    rw [ha, hb]
    refine ⟨?_, _, ?_, htakes, htakes'⟩
    · simp only [Collected.mapTags, htrack]
      cases field <;> rfl
    · have hle := List.length_take_le (o.maxValueSize - 1)
        (Bytes.untilNul (bs.drop TagValue.offset))
      rw [kept, Arena.trimmed]
      omega

theorem confined_date (o : Options) (bs : Bytes) : Confined o (.text .date) (date o bs) :=
  (confined_text o .date bs).mapTags fun _ _ => rfl

theorem confined_genre (o : Options) (bs : Bytes) : Confined o (.text .genre) (genre bs) := by
  intro c d hc hd t htrack
  have hsame : c.track.tags.genre = d.track.tags.genre := by
    rw [htrack]
    rfl
  unfold genre
  dsimp only
  rw [hsame]
  split
  · exact (Confined.idle o _).mapTags (fun _ _ => rfl) hc hd t htrack
  · exact Confined.idle o _ hc hd t htrack

theorem confined_numbering (o : Options) (field : NumberField) (bs : Bytes) :
    Confined o (.numbering field) (numbering field bs) := by
  intro c d hc hd t htrack
  have hsame : c.track.tags.numbering field = d.track.tags.numbering field := by
    rw [htrack, Track.numbering_graft]
  unfold numbering
  dsimp only
  rw [hsame]
  split
  · rename_i h
    have hm := @Bytes.toNat_le_word (((value 6 bs).drop 2).take 2) (by simp [h.1])
    have hn := @Bytes.toNat_le_word ((value 6 bs).drop 4) (by simp [h.1])
    generalize Bytes.toNat (((value 6 bs).drop 2).take 2) = m at hm ⊢
    generalize Bytes.toNat ((value 6 bs).drop 4) = n at hn ⊢
    split
    · have hlen := Text.length_encode_numbering_le hm hn
      unfold Collected.HasRoom at hc hd
      obtain ⟨a, ha, htakes⟩ := @Arena.alloc_takes c.arena s!"{m}/{n}" (by omega)
      obtain ⟨b, hb, htakes'⟩ := @Arena.alloc_takes d.arena s!"{m}/{n}" (by omega)
      simp only [Collected.mapTags, ha, hb, Collected.keep]
      refine ⟨?_, _, by omega, htakes, htakes'⟩
      rw [htrack]
      cases field <;> rfl
    · refine (Confined.idle o _).mapTags (fun t u => ?_) hc hd t htrack
      cases field <;> rfl
  · exact Confined.idle o _ hc hd t htrack

theorem confined_cover (o : Options) (pos : Nat) (bs : Bytes) :
    Confined o .artwork (cover pos bs) := by
  intro c d hc hd t htrack
  have hsame : c.track.tags.artwork = d.track.tags.artwork := by
    rw [htrack]
    rfl
  unfold cover
  rw [hsame]
  split
  · exact (Confined.idle o _).mapTags (fun _ _ => rfl) hc hd t htrack
  · exact Confined.idle o _ hc hd t htrack

theorem confined_gapless (o : Options) (bs : Bytes) : Confined o .trims (gapless bs) := by
  intro c d _ _ t htrack
  refine ⟨?_, 0, Nat.zero_le _, ⟨rfl, rfl⟩, ⟨rfl, rfl⟩⟩
  simp only [gapless, Collected.mapAudio, htrack]
  rfl

/-- Offering a value changes the field of its name at most. -/
theorem offer_graft {key : String} {field : Gain.Field} (hfield : Gain.field? key = some field)
    (value : String) (g h : Gain) :
    ((g.graft h field).offer key value).gain (g.graft h field) =
      g.graft ((h.offer key value).gain h) field := by
  have hget : (g.graft h field).get field = h.get field := by
    cases field <;> rfl
  simp only [Gain.offer, hfield, hget]
  split
  · rfl
  · split
    · cases field <;> rfl
    · rfl

theorem confined_gain (o : Options) (key : String) (bs : Bytes) :
    Confined o (((Gain.field? key).map .gain).getD .nothing) (gain o key bs) := by
  intro c d hc hd t htrack
  have hload := Confined.load o _ bs hc hd t htrack
  by_cases hnone : bs.drop TagValue.offset = [] ∨ o.maxValueSize = 0
  · simp only [gain, peek_load_eq_none hnone]
    exact hload
  · rw [not_or] at hnone
    simp only [gain, peek_load hc hnone.1 hnone.2, peek_load hd hnone.1 hnone.2]
    refine (Confined.load o _ bs).mapTags (fun t u => ?_) hc hd t htrack
    cases hfield : Gain.field? key with
    | none =>
      simp only [Gain.offer, hfield]
      rfl
    | some field =>
      have hoffer := offer_graft hfield (Text.decode (kept o bs)) t.tags.gain u.tags.gain
      simp only [Option.map_some, Option.getD_some, Track.graft, hoffer]

theorem confined_freeform (o : Options) (bs : Bytes) :
    Confined o (.of .freeform bs) (freeform o bs) := by
  unfold freeform
  simp only [Subject.of]
  cases name? bs with
  | none => exact .idle o _
  | some named =>
    obtain ⟨key, bs⟩ := named
    simp only [Option.map_some, Option.getD_some, Subject.ofName]
    cases Freeform.key? key with
    | none => exact confined_gain o key bs
    | some key =>
      cases key with
      | composer => exact confined_text o .composer bs
      | gapless => exact confined_gapless o bs
      | musicBrainzTrack => exact confined_text o .musicBrainzTrack bs
      | albumArtist => exact confined_text o .albumArtist bs

/-- A tag does what it does to the part of the record that it is about. -/
theorem confined_apply (o : Options) (kind : Kind) (pos : Nat) (bs : Bytes) :
    Confined o (.of kind bs) (apply o kind pos bs) := by
  cases kind with
  | title | artist | albumArtist | grouping | album | composer | comment | customGenre =>
    exact confined_text o _ bs
  | date => exact confined_date o bs
  | genre => exact confined_genre o bs
  | trackNumber | discNumber => exact confined_numbering o _ bs
  | cover =>
    change Confined o .artwork fun c => if o.findArtwork then cover pos bs c else c
    by_cases hfind : o.findArtwork
    · simp only [if_pos hfind]
      exact confined_cover o pos bs
    · simp only [if_neg hfind]
      exact .idle o _
  | freeform => exact confined_freeform o bs
  | _ => exact .idle o _

/-- Only the cover image depends on where the tag stands. -/
theorem apply_pos {kind : Kind} (hkind : kind ≠ .cover) (o : Options) (pos pos' : Nat) (bs : Bytes)
    (c : Collected) : apply o kind pos bs c = apply o kind pos' bs c := by
  cases kind with
  | cover => exact absurd rfl hkind
  | _ => rfl

end TagContent

namespace Filler

def WellSized (x : Filler) : Prop := x.Unread fun _ => false

instance (x : Filler) : Decidable x.WellSized := inferInstanceAs (Decidable (x.Unread _))

def subject (x : Filler) : Subject := .of x.header.kind x.payload

def effect (o : Options) (x : Filler) : Collected → Collected :=
  TagContent.apply o x.header.kind 0 x.payload

theorem confined_effect (o : Options) (x : Filler) : Confined o x.subject (x.effect o) :=
  TagContent.confined_apply o x.header.kind 0 x.payload

end Filler

namespace TagList
variable {o : Options} {x y : Filler}

theorem exec_read_effect (hx : x.WellSized) (hcover : x.header.kind ≠ .cover) (left pos : Nat)
    (c : Collected) (tail : Bytes) :
    (read o (x.octets.length + left) : Collect StreamError false Unit).exec c
        (Slice.mk pos (x.octets ++ tail)) =
      (read o left : Collect StreamError false Unit).exec (x.effect o c)
        (Slice.mk (pos + x.octets.length) tail) := by
  rw [exec_read_atom hx, TagContent.apply_pos hcover o _ 0]
  rfl

/-- Two atoms have their effects one after the other. -/
theorem exec_read_pair (hx : x.WellSized) (hy : y.WellSized) (hxcover : x.header.kind ≠ .cover)
    (hycover : y.header.kind ≠ .cover) (pos : Nat) (c : Collected) (tail : Bytes) :
    (read o (x.octets ++ y.octets).length : Collect StreamError false Unit).exec c
        (Slice.mk pos (x.octets ++ y.octets ++ tail)) =
      ((.ok (), y.effect o (x.effect o c)), ⟨pos + (x.octets ++ y.octets).length, tail⟩) := by
  have hlast := @exec_read_effect o y hy hycover 0 (pos + x.octets.length) (x.effect o c) tail
  rw [Nat.add_zero, exec_read_nil] at hlast
  rw [List.length_append, List.append_assoc, exec_read_effect hx hxcover, hlast, Nat.add_assoc]

/-- Two tags about different things can change places, whatever was collected before and whatever
is in them, if neither holds a cover image and the arena has room for both. -/
theorem exec_read_swap (o : Options) (c : Collected)
    (hroom : 2 * max o.maxValueSize 12 ≤ c.arena.remaining) (x y : Filler) (hx : x.WellSized)
    (hy : y.WellSized) (hxcover : x.header.kind ≠ .cover) (hycover : y.header.kind ≠ .cover)
    (hapart : x.subject.Apart y.subject) (pos : Nat) (tail : Bytes) :
    ∃ (d e : Collected) (behind : Slice),
      (read o (x.octets ++ y.octets).length : Collect StreamError false Unit).exec c
        (Slice.mk pos (x.octets ++ y.octets ++ tail)) = ((.ok (), d), behind) ∧
      (read o (y.octets ++ x.octets).length : Collect StreamError false Unit).exec c
        (Slice.mk pos (y.octets ++ x.octets ++ tail)) = ((.ok (), e), behind) ∧
      d.track = e.track ∧ d.arena.used = e.arena.used := by
  have hforth := @exec_read_pair o x y hx hy hxcover hycover pos c tail
  have hback := @exec_read_pair o y x hy hx hycover hxcover pos c tail
  have hbehind : pos + (y.octets ++ x.octets).length = pos + (x.octets ++ y.octets).length := by
    rw [List.length_append, List.length_append, Nat.add_comm y.octets.length]
  rw [hbehind] at hback
  exact ⟨_, _, _, hforth, hback, (x.confined_effect o).comm (y.confined_effect o) hapart hroom⟩

set_option maxRecDepth 2048 in
/-- A date that is cut to its year and the number of a track, in an arena with just the room that
is asked for. -/
theorem exec_read_swap_date :
    let o : Options := { maxValueSize := 5 }
    let date : Filler :=
      .plain Kind.date.code (List.replicate 16 0 ++ [0x32, 0x30, 0x31, 0x39, 0x2d, 0x30, 0x35])
    let number : Filler :=
      .plain Kind.trackNumber.code (List.replicate 16 0 ++ [0, 0, 0, 3, 0, 12])
    let c : Collected :=
      { track := { tags := { title := some "A" } }, arena := ⟨[0x41, 0], List.replicate 24 0⟩ }
    2 * max o.maxValueSize 12 ≤ c.arena.remaining ∧ date.WellSized ∧ number.WellSized ∧
      date.header.kind ≠ .cover ∧ number.header.kind ≠ .cover ∧
      date.subject.Apart number.subject ∧
      ∃ (e : Collected) (behind : Slice),
        (read o (number.octets ++ date.octets).length : Collect StreamError false Unit).exec c
          (Slice.mk 0 (number.octets ++ date.octets ++ [])) = ((.ok (), e), behind) ∧
        e.track.tags =
          { title := some "A", date := some "2019", year := some 2019
            track := ⟨some 3, some "3/12"⟩ } ∧
        e.arena.used = 12 := by
  intro o date number c
  have hroom : 2 * max o.maxValueSize 12 ≤ c.arena.remaining := by decide
  have hdate : date.WellSized := by decide
  have hnumber : number.WellSized := by decide
  have hkind : date.header.kind ≠ .cover := by decide
  have hkind' : number.header.kind ≠ .cover := by decide
  have hapart : date.subject.Apart number.subject := by decide
  obtain ⟨d, e, behind, hforth, hback, htrack, hused⟩ :=
    exec_read_swap o c hroom date number hdate hnumber hkind hkind' hapart 0 []
  refine ⟨hroom, hdate, hnumber, hkind, hkind', hapart, e, behind, hback, ?_⟩
  have hrun := @exec_read_pair o date number hdate hnumber hkind hkind' 0 c []
  rw [hforth, Prod.mk.injEq, Prod.mk.injEq] at hrun
  rw [← htrack, ← hused, hrun.1.2]
  simp only [o, date, number, c]
  exact ⟨by cbv, by cbv⟩

end TagList

end AudioAtoms
