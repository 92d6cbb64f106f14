import AudioAtoms.Proofs.Descriptors

/-!
# What a tag adds to the record

The effect of a tag as a function of its payload and of what was collected before. The reader of a
tag, run on a payload that is all there, has this effect. A payload that ends inside the name of a
free-form tag has none.
-/
namespace AudioAtoms

theorem Bytes.toNat_le_word {bs : Bytes} (h : bs.length = 2) : Bytes.toNat bs ≤ 65535 := by
  have hlt := Bytes.toNat_lt bs
  rw [h] at hlt
  exact Nat.le_of_lt_succ hlt

namespace Collected

def mapTags (f : Tags → Tags) (c : Collected) : Collected :=
  { c with track := { c.track with tags := f c.track.tags } }

def mapAudio (f : Audio → Audio) (c : Collected) : Collected :=
  { c with track := { c.track with audio := f c.track.audio } }

def mapArena (f : Arena → Arena) (c : Collected) : Collected := { c with arena := f c.arena }

def keep (c : Collected) (kept : Except Arena.Refusal (String × Arena)) :
    Option String × Collected :=
  match kept with
  | .ok (text, arena) => (some text, { c with arena := arena })
  | .error _ => (none, c)

end Collected

namespace TagContent

def value (most : Nat) (bs : Bytes) : Bytes := (bs.drop TagValue.offset).take most

def load (bs : Bytes) (c : Collected) : Collected :=
  c.mapArena (·.write (value c.arena.room bs))

def text (o : Options) (field : TextField) (bs : Bytes) (c : Collected) : Collected :=
  let found := value c.arena.room bs
  let c := load bs c
  if found ≠ [] ∧ (c.track.tags.text field).isNone then
    let kept := c.keep (c.arena.commit found.length o.maxValueSize)
    kept.2.mapTags (·.setText kept.1 field)
  else c

def date (o : Options) (bs : Bytes) (c : Collected) : Collected :=
  (text o .date bs c).mapTags fun t => { t with year := t.date.bind Date.year? }

def genre (bs : Bytes) (c : Collected) : Collected :=
  let found := value 2 bs
  if found.length = 2 ∧ c.track.tags.genre.isNone then
    c.mapTags fun t => { t with genre := Genre.nameFromOne? (Bytes.toNat found) }
  else c

def numbering (field : NumberField) (bs : Bytes) (c : Collected) : Collected :=
  let found := value 6 bs
  let m := Bytes.toNat ((found.drop 2).take 2)
  let n := Bytes.toNat (found.drop 4)
  if found.length = 6 ∧ (c.track.tags.numbering field).number.isNone then
    let c := c.mapTags fun t => t.setNumbering { t.numbering field with number := some m } field
    if 0 < n then
      let kept := c.keep (c.arena.alloc s!"{m}/{n}")
      kept.2.mapTags fun t => t.setNumbering { t.numbering field with text := kept.1 } field
    else c
  else c

def cover (pos : Nat) (bs : Bytes) (c : Collected) : Collected :=
  match c.track.tags.artwork, ReadTag.imageType? (value 8 bs) with
  | none, some type =>
    c.mapTags fun t =>
      { t with artwork := some ⟨type, pos + TagValue.offset, bs.length - TagValue.offset⟩ }
  | _, _ => c

/-- The name in the payload of a free-form tag, and the octets from its value on. -/
def name? (bs : Bytes) : Option (String × Bytes) :=
  let named := (bs.drop 4).drop (Content.numberAt bs 0 4 - 4)
  let size := Content.numberAt named 0 4 - 12
  if 4 ≤ bs.length ∧ 12 ≤ named.length then
    some (Text.decode (Bytes.untilNul (((named.drop 12).take size).take ReadTag.maxNameSize)),
      (named.drop 12).drop size)
  else none

def gapless (bs : Bytes) (c : Collected) : Collected :=
  let found := Text.decode (Bytes.untilNul (value ReadTag.maxGaplessSize bs))
  c.mapAudio fun a => { a with
    leadTrim := Freeform.gaplessField found 1, tailTrim := Freeform.gaplessField found 2 }

def gain (o : Options) (key : String) (bs : Bytes) (c : Collected) : Collected :=
  let found := value c.arena.room bs
  let c := load bs c
  match c.arena.peek found.length o.maxValueSize with
  | some value => c.mapTags fun t => { t with gain := (t.gain.offer key value).gain t.gain }
  | none => c

def freeform (o : Options) (bs : Bytes) (c : Collected) : Collected :=
  match name? bs with
  | none => c
  | some (key, bs) =>
    match Freeform.key? key with
    | some .composer => text o .composer bs c
    | some .gapless => gapless bs c
    | some .musicBrainzTrack => text o .musicBrainzTrack bs c
    | some .albumArtist => text o .albumArtist bs c
    | none => gain o key bs c

def apply (o : Options) (kind : Kind) (pos : Nat) (bs : Bytes) (c : Collected) : Collected :=
  match kind with
  | .title => text o .title bs c
  | .artist => text o .artist bs c
  | .albumArtist => text o .albumArtist bs c
  | .grouping => text o .grouping bs c
  | .album => text o .album bs c
  | .composer => text o .composer bs c
  | .comment => text o .comment bs c
  | .customGenre => text o .genre bs c
  | .date => date o bs c
  | .genre => genre bs c
  | .trackNumber => numbering .track bs c
  | .discNumber => numbering .disc bs c
  | .cover => if o.findArtwork then cover pos bs c else c
  | .freeform => freeform o bs c
  | _ => c

end TagContent

namespace Collect
variable {ε α σ : Type} {bounded : Bool} [ByteStream bounded σ]

@[simp] theorem exec_getTags (c : Collected) (s : σ) :
    (getTags : Collect ε bounded Tags).exec c s = ((.ok c.track.tags, c), s) := rfl

@[simp] theorem exec_modifyTags (f : Tags → Tags) (c : Collected) (s : σ) :
    (modifyTags f : Collect ε bounded Unit).exec c s = ((.ok (), c.mapTags f), s) := rfl

@[simp] theorem exec_modifyAudio (f : Audio → Audio) (c : Collected) (s : σ) :
    (modifyAudio f : Collect ε bounded Unit).exec c s = ((.ok (), c.mapAudio f), s) := rfl

@[simp] theorem exec_modifyArena (f : Arena → Arena) (c : Collected) (s : σ) :
    (modifyArena f : Collect ε bounded Unit).exec c s = ((.ok (), c.mapArena f), s) := rfl

@[simp] theorem exec_keep (kept : Except Arena.Refusal (String × Arena)) (c : Collected) (s : σ) :
    (keep kept : Collect ε bounded (Option String)).exec c s =
      ((.ok (c.keep kept).1, (c.keep kept).2), s) := by
  cases kept with
  | ok kept => rfl
  | error refusal => cases refusal <;> rfl

theorem exec_read_ok {p : Read bounded α} {s t : σ} {a : α} (h : p.exec s = (.ok a, t))
    (c : Collected) : (read p).exec c s = ((.ok a, c), t) := by
  rw [exec_read, h]

theorem exec_read_error {p : Read bounded α} {s t : σ} {e : StreamError}
    (h : p.exec s = (.error e, t)) (c : Collected) : (read p).exec c s = ((.error e, c), t) := by
  rw [exec_read, h]

end Collect

namespace TagValue

/-- The value that a stream gives is that of the payload. -/
def Finds {σ : Type} [ByteStream true σ] (most : Nat) (bs : Bytes) (s t : σ) : Prop :=
  (TagValue.read most).exec s = (.ok (TagContent.value most bs), t)

/-- The value of a tag is read as far as it goes. -/
theorem finds_rest (most : Nat) (s : Payload) : ∃ t, Finds most s.rest s t := by
  simp only [Finds]
  rw [TagValue.read, Payload.exec_remaining_bind]
  by_cases h : s.rest.length < offset
  · have hnil : TagContent.value most s.rest = [] := by
      rw [TagContent.value, List.drop_eq_nil_of_le (by omega), List.take_nil]
    rw [if_pos h, hnil]
    exact ⟨s, rfl⟩
  · have hlen : ((s.rest.drop offset).take (min (s.rest.drop offset).length most)).length =
        min (s.rest.drop offset).length most := by
      rw [List.length_take]
      omega
    have htake : (s.rest.drop offset).take (min (s.rest.drop offset).length most) =
        TagContent.value most s.rest := by
      rw [TagContent.value, Nat.min_comm, ← List.take_eq_take_min]
    rw [if_neg h, Payload.exec_skip_bind, if_pos (by omega), Payload.exec_remaining_bind,
      Payload.exec_upTo_bind]
    rw [← htake]
    exact ⟨_, congrArg (fun bs => (Except.ok bs, _)) (if_pos hlen)⟩

end TagValue

namespace ReadTag

section Found
variable {σ : Type} [ByteStream true σ] {c : Collected} {s t : σ} {bs : Bytes}

theorem exec_valueIntoArena (h : TagValue.Finds c.arena.room bs s t) :
    valueIntoArena.exec c s =
      ((.ok (TagContent.value c.arena.room bs), TagContent.load bs c), t) := by
  rw [valueIntoArena, Collect.exec_bind_ok (Collect.exec_get c s),
    Collect.exec_bind_ok (Collect.exec_read_ok h c),
    Collect.exec_bind_ok (Collect.exec_modifyArena _ c t)]
  rfl

theorem exec_text (o : Options) (field : TextField) (h : TagValue.Finds c.arena.room bs s t) :
    (text o field).exec c s = ((.ok (), TagContent.text o field bs c), t) := by
  rw [text, Collect.exec_bind_ok (exec_valueIntoArena h),
    Collect.exec_bind_ok (Collect.exec_getTags _ t), TagContent.text]
  by_cases hset : TagContent.value c.arena.room bs ≠ [] ∧
      ((TagContent.load bs c).track.tags.text field).isNone
  · rw [if_pos hset, if_pos hset, Collect.exec_bind_ok (Collect.exec_get _ t),
      Collect.exec_bind_ok (Collect.exec_keep _ _ t), Collect.exec_modifyTags]
  · rw [if_neg hset, if_neg hset, Collect.exec_pure]

theorem exec_date (o : Options) (h : TagValue.Finds c.arena.room bs s t) :
    (date o).exec c s = ((.ok (), TagContent.date o bs c), t) := by
  rw [date, Collect.exec_bind_ok (exec_text o .date h), Collect.exec_modifyTags, TagContent.date]

theorem exec_genre (h : TagValue.Finds 2 bs s t) :
    genre.exec c s = ((.ok (), TagContent.genre bs c), t) := by
  rw [genre, Collect.exec_bind_ok (Collect.exec_read_ok h c),
    Collect.exec_bind_ok (Collect.exec_getTags _ t), TagContent.genre]
  by_cases hset : (TagContent.value 2 bs).length = 2 ∧ c.track.tags.genre.isNone
  · rw [if_pos hset, if_pos hset, Collect.exec_modifyTags]
  · rw [if_neg hset, if_neg hset, Collect.exec_pure]

theorem exec_numbering (field : NumberField) (h : TagValue.Finds 6 bs s t) :
    (numbering field).exec c s = ((.ok (), TagContent.numbering field bs c), t) := by
  rw [numbering, Collect.exec_bind_ok (Collect.exec_read_ok h c),
    Collect.exec_bind_ok (Collect.exec_getTags _ t), TagContent.numbering]
  by_cases hset : (TagContent.value 6 bs).length = 6 ∧
      (c.track.tags.numbering field).number.isNone
  · rw [if_pos hset, if_pos hset, Collect.exec_bind_ok (Collect.exec_modifyTags _ _ t)]
    by_cases hn : 0 < Bytes.toNat ((TagContent.value 6 bs).drop 4)
    · rw [if_pos hn, if_pos hn, Collect.exec_bind_ok (Collect.exec_get _ t),
        Collect.exec_bind_ok (Collect.exec_keep _ _ t), Collect.exec_modifyTags]
    · rw [if_neg hn, if_neg hn, Collect.exec_pure]
  · rw [if_neg hset, if_neg hset, Collect.exec_pure]

theorem exec_gapless (h : TagValue.Finds maxGaplessSize bs s t) :
    gapless.exec c s = ((.ok (), TagContent.gapless bs c), t) := by
  rw [gapless, Collect.exec_bind_ok (Collect.exec_read_ok h c),
    Collect.exec_bind_ok (Collect.exec_modifyAudio _ c t), Collect.exec_note, TagContent.gapless]

theorem exec_gain (o : Options) (key : String) (h : TagValue.Finds c.arena.room bs s t) :
    (gain o key).exec c s = ((.ok (), TagContent.gain o key bs c), t) := by
  rw [gain, Collect.exec_bind_ok (exec_valueIntoArena h),
    Collect.exec_bind_ok (Collect.exec_get _ t), TagContent.gain]
  cases (TagContent.load bs c).arena.peek (TagContent.value c.arena.room bs).length
      o.maxValueSize with
  | none => rfl
  | some value =>
    rw [Collect.exec_bind_ok (Collect.exec_getTags _ t),
      Collect.exec_bind_ok (Collect.exec_modifyTags _ _ t), Collect.exec_noteIfAny]
    rfl

end Found

/-- A text tag has its effect where its payload fills the rest of a window. -/
theorem exec_text_scoped {o : Options} {field : TextField} {c : Collected} (pos : Nat)
    (bs tail : Bytes) (w : Window) (hw : w.size = w.used + bs.length) :
    ((text o field).exec c (⟨⟨pos, bs ++ tail⟩, w⟩ : Scoped Slice)).1 =
      (.ok (), TagContent.text o field bs c) := by
  obtain ⟨t, ht⟩ := TagValue.finds_rest c.arena.room ⟨pos, bs, w.refused⟩
  have hpayload := congrArg Prod.fst (exec_text o field ht)
  exact (Slice.run_scoped _ pos bs tail w hw).trans hpayload

theorem exec_cover (c : Collected) (s : Payload) :
    ∃ t, cover.exec c s = ((.ok (), TagContent.cover s.pos s.rest c), t) := by
  rw [cover, Collect.exec_bind_ok (Collect.exec_getTags c s), TagContent.cover]
  cases hart : c.track.tags.artwork with
  | some artwork => exact ⟨s, rfl⟩
  | none =>
    obtain ⟨t, ht⟩ := TagValue.finds_rest 8 s
    have hpos : (Read.position : Read true Nat).exec s = (.ok s.pos, s) := rfl
    have hsize : Read.remaining.exec s = (.ok s.rest.length, s) := rfl
    refine ⟨t, ?_⟩
    rw [if_pos (by rfl), Collect.exec_bind_ok (Collect.exec_read_ok hpos c),
      Collect.exec_bind_ok (Collect.exec_read_ok hsize c),
      Collect.exec_bind_ok (Collect.exec_read_ok ht c)]
    cases imageType? (TagContent.value 8 s.rest) with
    | none => rfl
    | some type => rfl

theorem drop_min_length (n : Nat) (bs : Bytes) : bs.drop (min n bs.length) = bs.drop n := by
  by_cases h : n ≤ bs.length
  · rw [Nat.min_eq_left h]
  · rw [Nat.min_eq_right (by omega), List.drop_length, List.drop_eq_nil_of_le (by omega)]

def nameBehindMean : Read true String := do
  let nameSize ← Read.number 4
  Read.skip 8
  let size := min (nameSize - 12) (← Read.remaining)
  let seen := min size maxNameSize
  let bs ← Read.upTo seen
  Read.skip (size - seen)
  return if bs.length = seen then Text.decode (Bytes.untilNul bs) else ""

theorem exec_nameBehindMean (s : Payload) (h : 12 ≤ s.rest.length) :
    let size := Content.numberAt s.rest 0 4 - 12
    ∃ pos, nameBehindMean.exec s =
      (.ok (Text.decode (Bytes.untilNul (((s.rest.drop 12).take size).take maxNameSize))),
        ⟨pos, (s.rest.drop 12).drop size, s.refused⟩) := by
  intro size
  have h4 : 4 ≤ s.rest.length := by omega
  have h8 : 8 ≤ (s.advance 4).rest.length := by
    simp only [Payload.advance, List.length_drop]
    omega
  have hrest : ((s.advance 4).advance 8).rest = s.rest.drop 12 := by
    simp only [Payload.advance, List.drop_drop]
  have hnumber : Bytes.toNat (s.rest.take 4) - 12 = size := by
    simp only [size, Content.numberAt, List.drop_zero]
  rw [nameBehindMean, Payload.exec_number_bind, if_pos h4, Payload.exec_skip_bind, if_pos h8,
    Payload.exec_remaining_bind, hnumber, hrest]
  generalize s.rest.drop 12 = bs at *
  let seen := min (min size bs.length) maxNameSize
  have hseen : bs.take seen = (bs.take size).take maxNameSize := by
    rw [List.take_take, List.take_eq_take_min, List.take_eq_take_min (i := min _ size)]
    refine congrArg (bs.take ·) ?_
    omega
  have hlen : (bs.take seen).length = seen := by
    rw [List.length_take]
    omega
  have hmin : min seen bs.length = seen := by omega
  have hleft : min size bs.length - seen ≤ (((s.advance 4).advance 8).advance seen).rest.length := by
    rw [Payload.advance, hrest, List.length_drop]
    omega
  have hdrop : bs.drop (seen + (min size bs.length - seen)) = bs.drop size := by
    rw [← drop_min_length size bs]
    refine congrArg (bs.drop ·) ?_
    omega
  rw [Payload.exec_upTo_bind, hrest, hmin, Payload.exec_skip_bind, if_pos hleft, Read.exec_pure,
    if_pos hlen, hseen]
  refine ⟨s.pos + 4 + 8 + seen + (min size bs.length - seen), ?_⟩
  rw [← hdrop, ← List.drop_drop]
  subst hrest
  rfl

/-- The name of a free-form tag, and where its reader stands then. -/
theorem exec_name (s : Payload) :
    match TagContent.name? s.rest with
    | some (key, bs) => ∃ pos, name.exec s = (.ok key, ⟨pos, bs, s.refused⟩)
    | none => ∃ e t, name.exec s = (.error e, t) ∧ t.refused = true := by
  have hname : name = (do
      let meanSize ← Read.number 4
      Read.skip (min (meanSize - 4) (← Read.remaining))
      nameBehindMean) := rfl
  by_cases h4 : 4 ≤ s.rest.length
  · let mean := Content.numberAt s.rest 0 4 - 4
    let named : Payload := ⟨s.pos + 4 + min mean (s.rest.drop 4).length, (s.rest.drop 4).drop mean, s.refused⟩
    have hskip : name.exec s = nameBehindMean.exec named := by
      rw [hname, Payload.exec_number_bind, if_pos h4, Payload.exec_remaining_bind,
        Payload.exec_skip_bind, if_pos (Nat.min_le_right _ _)]
      have hdrop := drop_min_length mean (s.rest.drop 4)
      simp only [Payload.advance, named, ← hdrop]
      rfl
    by_cases h12 : 12 ≤ ((s.rest.drop 4).drop (Content.numberAt s.rest 0 4 - 4)).length
    · rw [TagContent.name?, if_pos ⟨h4, h12⟩, hskip]
      exact exec_nameBehindMean named h12
    · rw [TagContent.name?, if_neg (fun h => h12 h.2), hskip, nameBehindMean,
        Payload.exec_number_bind]
      by_cases hn : 4 ≤ named.rest.length
      · rw [if_pos hn, Payload.exec_skip_bind, if_neg]
        · exact ⟨_, _, rfl, rfl⟩
        · simp only [Payload.advance, List.length_drop, named] at h12 hn ⊢
          omega
      · rw [if_neg hn]
        exact ⟨_, _, rfl, rfl⟩
  · rw [TagContent.name?, if_neg (fun h => h4 h.1), hname, Payload.exec_number_bind, if_neg h4]
    exact ⟨_, _, rfl, rfl⟩

/-- A free-form tag has its effect also where its name ends too early: none. -/
theorem exec_freeform (o : Options) (c : Collected) (s : Payload) :
    ∃ r t, (freeform o).exec c s = ((r, TagContent.freeform o s.rest c), t) ∧
      ∀ e, r = .error e → t.refused = true := by
  have hname := exec_name s
  rw [freeform, TagContent.freeform]
  cases hn : TagContent.name? s.rest with
  | none =>
    rw [hn] at hname
    obtain ⟨e, t, he, ht⟩ := hname
    have hread : (Collect.read name).exec c s = ((.error e, c), t) := by
      rw [Collect.exec_read, he]
    exact ⟨.error e, t, Collect.exec_bind_error hread _, fun _ _ => ht⟩
  | some found =>
    obtain ⟨key, bs⟩ := found
    rw [hn] at hname
    obtain ⟨pos, hok⟩ := hname
    rw [Collect.exec_bind_ok (Collect.exec_read_ok hok c)]
    have hdone {p : ReadTag Unit} {d : Collected} {t : Payload}
        (h : p.exec c (Payload.mk pos bs s.refused) = ((.ok (), d), t)) :
        ∃ r t, p.exec c (Payload.mk pos bs s.refused) = ((r, d), t) ∧
          ∀ e, r = .error e → t.refused = true :=
      ⟨.ok (), t, h, fun e he => by cases he⟩
    obtain ⟨t, ht⟩ := TagValue.finds_rest c.arena.room ⟨pos, bs, s.refused⟩
    obtain ⟨u, hu⟩ := TagValue.finds_rest maxGaplessSize ⟨pos, bs, s.refused⟩
    dsimp only
    cases Freeform.key? key with
    | none => exact hdone (exec_gain o key ht)
    | some known =>
      cases known with
      | composer => exact hdone (exec_text o .composer ht)
      | gapless => exact hdone (exec_gapless hu)
      | musicBrainzTrack => exact hdone (exec_text o .musicBrainzTrack ht)
      | albumArtist => exact hdone (exec_text o .albumArtist ht)

/-- The reader of a tag has the effect of the tag, and fails only by being refused. -/
theorem exec_read (o : Options) (kind : Kind) (c : Collected) (pos : Nat) (bs : Bytes) :
    ∃ r t, (read o kind).exec c (Payload.ofBytes pos bs) = ((r, TagContent.apply o kind pos bs c), t) ∧
      ∀ e, r = .error e → t.refused = true := by
  have hdone {p : ReadTag Unit} {d : Collected} {t : Payload}
      (h : p.exec c (Payload.ofBytes pos bs) = ((.ok (), d), t)) :
      ∃ r t, p.exec c (Payload.ofBytes pos bs) = ((r, d), t) ∧
        ∀ e, r = .error e → t.refused = true :=
    ⟨.ok (), t, h, fun e he => by cases he⟩
  have hnone : (pure () : ReadTag Unit).exec c (Payload.ofBytes pos bs) =
      ((.ok (), c), .ofBytes pos bs) := rfl
  obtain ⟨t, ht⟩ := TagValue.finds_rest c.arena.room (.ofBytes pos bs)
  cases kind with
  | title | artist | albumArtist | grouping | album | composer | comment | customGenre =>
    exact hdone (exec_text o _ ht)
  | date => exact hdone (exec_date o ht)
  | genre =>
    obtain ⟨u, hu⟩ := TagValue.finds_rest 2 (.ofBytes pos bs)
    exact hdone (exec_genre hu)
  | trackNumber | discNumber =>
    obtain ⟨u, hu⟩ := TagValue.finds_rest 6 (.ofBytes pos bs)
    exact hdone (exec_numbering _ hu)
  | cover =>
    rw [read, TagContent.apply]
    by_cases ho : o.findArtwork
    · rw [if_pos ho, if_pos ho]
      obtain ⟨u, hu⟩ := exec_cover c (.ofBytes pos bs)
      exact hdone hu
    · rw [if_neg ho, if_neg ho]
      exact hdone hnone
  | freeform => exact exec_freeform o c (.ofBytes pos bs)
  | _ => exact hdone hnone

end ReadTag

/-- A tag whose payload is all there has its effect and is passed as a whole. -/
theorem TagList.exec_readTag_apply (o : Options) (h : Header) (c : Collected) (pos : Nat)
    (bs tail : Bytes) (hb : h.dataSize = bs.length) :
    (readTag o h : Collect StreamError false Unit).exec c (Slice.mk pos (bs ++ tail)) =
      ((.ok (), TagContent.apply o h.kind pos bs c), ⟨pos + bs.length, tail⟩) := by
  obtain ⟨r, t, hr, ht⟩ := ReadTag.exec_read o h.kind c pos bs
  rw [TagList.exec_readTag h pos bs tail o c hb, hr]
  cases r with
  | ok _ => rfl
  | error e =>
    have hrefused : t.refused = true := ht e rfl
    simp only [hrefused, if_true]

end AudioAtoms
