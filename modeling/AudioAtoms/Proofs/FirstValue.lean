import AudioAtoms.Proofs.Steps

/-!
# The first value counts

A field of the record that is set keeps its value, through any number of walks and whatever comes
of them. For most fields every single step of a run looks before it writes. The year is written
anew with every date, and the text of a numbering is written without a look at the old one: these
two keep their values because the record stays settled.
-/
namespace AudioAtoms

namespace Tags

/-- What is set is the same later, the year and the text of a numbering apart. -/
structure Retains (t u : Tags) : Prop where
  text : ∀ field value, t.text field = some value → u.text field = some value
  numbering : ∀ field m, (t.numbering field).number = some m → u.numbering field = t.numbering field
  artwork : ∀ art, t.artwork = some art → u.artwork = some art
  gain : ∀ field x, t.gain.get field = some x → u.gain.get field = some x

namespace Retains
variable {t u v : Tags}

theorem refl (t : Tags) : t.Retains t :=
  ⟨fun _ _ h => h, fun _ _ _ => rfl, fun _ h => h, fun _ _ h => h⟩

theorem trans (htu : t.Retains u) (huv : u.Retains v) : t.Retains v where
  text field value h := huv.text field value (htu.text field value h)
  numbering field m h := by
    have hu := htu.numbering field m h
    rw [huv.numbering field m (by rw [hu, h]), hu]
  artwork art h := huv.artwork art (htu.artwork art h)
  gain field x h := huv.gain field x (htu.gain field x h)

theorem setText {field : TextField} (h : t.text field = none) (value : Option String) :
    t.Retains (t.setText value field) where
  text field' value' h' := by
    rw [text_setText, if_neg]
    · exact h'
    · rintro rfl
      cases h.symm.trans h'
  numbering field' _ _ := by cases field <;> cases field' <;> rfl
  artwork art h' := by cases field <;> exact h'
  gain field' x h' := by cases field <;> exact h'

theorem setNumbering {field : NumberField} (h : (t.numbering field).number = none)
    (value : Numbering) : t.Retains (t.setNumbering value field) where
  text field' value' h' := by cases field <;> cases field' <;> exact h'
  numbering field' m h' := by
    rw [numbering_setNumbering, if_neg]
    rintro rfl
    cases h.symm.trans h'
  artwork art h' := by cases field <;> exact h'
  gain field' x h' := by cases field <;> exact h'

theorem setYear (year : Option Nat) : t.Retains { t with year } where
  text field _ h := by cases field <;> exact h
  numbering field _ _ := by cases field <;> rfl
  artwork _ h := h
  gain _ _ h := h

theorem setArtwork (h : t.artwork = none) (artwork : Option Artwork) :
    t.Retains { t with artwork } where
  text field _ h' := by cases field <;> exact h'
  numbering field _ _ := by cases field <;> rfl
  artwork _ h' := by cases h.symm.trans h'
  gain _ _ h' := h'

theorem setGain {gain : Gain} (h : ∀ field x, t.gain.get field = some x → gain.get field = some x) :
    t.Retains { t with gain } where
  text field _ h' := by cases field <;> exact h'
  numbering field _ _ := by cases field <;> rfl
  artwork _ h' := h'
  gain := h

end Retains

end Tags

namespace Collected
variable {o : Options} {kind : Kind} {c d : Collected}

theorem retains_text (bs : Bytes) (c : Collected) (field : TextField) :
    c.track.tags.Retains (TagContent.text o field bs c).track.tags ∧
      (TagContent.text o field bs c).track.brand = c.track.brand := by
  obtain h | ⟨hnone, value, h⟩ := TagContent.track_text o bs c field
  · rw [h]
    exact ⟨.refl _, rfl⟩
  · rw [h]
    exact ⟨.setText hnone value, rfl⟩

theorem TagStep.retains (h : TagStep o kind c d) :
    c.track.tags.Retains d.track.tags ∧ d.track.brand = c.track.brand := by
  cases h with
  | stay => exact ⟨.refl _, rfl⟩
  | text field hf hg bs => exact retains_text bs c field
  | date bs =>
    have htext := retains_text (o := o) bs c .date
    rw [TagContent.date]
    generalize TagContent.text o .date bs c = d at htext ⊢
    exact ⟨htext.1.trans (.setYear _), htext.2⟩
  | genre hk bs =>
    obtain h | ⟨hnone, value, h⟩ := TagContent.track_genre bs c
    · rw [h]
      exact ⟨.refl _, rfl⟩
    · rw [h]
      exact ⟨.setText hnone value, rfl⟩
  | numbering field bs =>
    obtain h | ⟨hnone, m, text, h⟩ := TagContent.track_numbering bs c field
    · rw [h]
      exact ⟨.refl _, rfl⟩
    · rw [h]
      exact ⟨.setNumbering hnone _, rfl⟩
  | cover hk art hnone => exact ⟨.setArtwork hnone _, rfl⟩
  | gapless bs => exact ⟨.refl _, rfl⟩
  | gain key bs =>
    obtain ⟨g, h, hget⟩ := TagContent.track_gain o bs c key
    rw [h]
    exact ⟨.setGain hget, rfl⟩

/-- The year is that of the date, and only a number has a text. -/
structure Settled (c : Collected) : Prop where
  yearKnown : c.YearKnown
  numbered : ∀ field text, (c.track.tags.numbering field).text = some text →
    ∃ m, (c.track.tags.numbering field).number = some m

theorem settled_start (o : Options) : (start o).Settled :=
  ⟨rfl, fun field text h => by cases field <;> cases h⟩

theorem Settled.of_numbering_eq (hc : c.Settled) (hd : d.YearKnown)
    (h : ∀ field, d.track.tags.numbering field = c.track.tags.numbering field) : d.Settled := by
  refine ⟨hd, fun field => ?_⟩
  rw [h]
  exact hc.numbered field

theorem numbering_text (bs : Bytes) (c : Collected) (field : TextField) (field' : NumberField) :
    (TagContent.text o field bs c).track.tags.numbering field' =
      c.track.tags.numbering field' := by
  obtain h | ⟨_, value, h⟩ := TagContent.track_text o bs c field
  · rw [h]
  · rw [h]
    cases field <;> cases field' <;> rfl

theorem TagStep.yearKnown (h : TagStep o kind c d) (hc : c.YearKnown) : d.YearKnown := by
  cases h with
  | stay => exact hc
  | text field hf hg bs => exact TagContent.yearKnown_text o field hf bs c hc
  | date bs => exact rfl
  | genre hk bs => exact TagContent.yearKnown_genre bs c hc
  | numbering field bs => exact TagContent.yearKnown_numbering field bs c hc
  | cover hk art hnone => exact hc.of_eq rfl rfl
  | gapless bs => exact hc
  | gain key bs =>
    obtain ⟨g, h, _⟩ := TagContent.track_gain o bs c key
    exact hc.of_eq (by rw [h]) (by rw [h])

/-- Only a numbering changes a numbering. -/
theorem TagStep.numbering_cases (h : TagStep o kind c d) :
    (∃ field bs, d = TagContent.numbering field bs c) ∨
      ∀ field, d.track.tags.numbering field = c.track.tags.numbering field := by
  cases h with
  | numbering field bs => exact .inl ⟨field, bs, rfl⟩
  | stay | gapless bs => exact .inr fun _ => rfl
  | text field hf hg bs => exact .inr (numbering_text bs c field)
  | date bs =>
    have htext := numbering_text (o := o) bs c .date
    rw [TagContent.date]
    generalize TagContent.text o .date bs c = d at htext ⊢
    exact .inr fun field => by rw [← htext]; cases field <;> rfl
  | genre hk bs =>
    refine .inr fun field => ?_
    obtain h | ⟨_, value, h⟩ := TagContent.track_genre bs c
    · rw [h]
    · rw [h]
      cases field <;> rfl
  | cover hk art hnone => exact .inr fun field => by cases field <;> rfl
  | gain key bs =>
    obtain ⟨g, h, _⟩ := TagContent.track_gain o bs c key
    refine .inr fun field => ?_
    rw [h]
    cases field <;> rfl

theorem TagStep.settled (h : TagStep o kind c d) (hc : c.Settled) : d.Settled := by
  have hyear := h.yearKnown hc.yearKnown
  obtain ⟨field, bs, rfl⟩ | hsame := h.numbering_cases
  · refine ⟨hyear, fun field' text htext => ?_⟩
    obtain h | ⟨_, m, _, h⟩ := TagContent.track_numbering bs c field
    · rw [h] at htext ⊢
      exact hc.numbered field' text htext
    · rw [h, Tags.numbering_setNumbering] at htext ⊢
      split at htext
      · exact ⟨m, by rw [if_pos ‹_›]⟩
      · rw [if_neg ‹_›]
        exact hc.numbered field' text htext
  · exact hc.of_numbering_eq hyear hsame

theorem Step.settled (h : c.Step o d) (hc : c.Settled) : d.Settled := by
  cases h with
  | tag h => exact h.settled hc
  | _ => exact hc.of_numbering_eq hc.yearKnown fun _ => rfl

structure Retains (c d : Collected) : Prop where
  tags : c.track.tags.Retains d.track.tags
  brand : ∀ brand, c.track.brand = some brand → d.track.brand = some brand

theorem Step.retains (h : c.Step o d) : c.Retains d := by
  cases h with
  | tag h => exact ⟨h.retains.1, fun _ hb => h.retains.2.trans hb⟩
  | brand brand => exact ⟨.refl _, fun b hb => by rw [hb]; rfl⟩
  | _ => exact ⟨.refl _, fun _ hb => hb⟩

/-- What holds of a step holds of a run. -/
theorem retains_of_steps (h : Relation.ReflTransGen (Step o) c d) (hc : c.Settled) :
    c.Retains d ∧ d.Settled := by
  induction h with
  | refl => exact ⟨⟨.refl _, fun _ hb => hb⟩, hc⟩
  | tail _ hstep ih =>
    have hnext := hstep.retains
    exact ⟨⟨ih.1.tags.trans hnext.tags, fun b hb => hnext.brand b (ih.1.brand b hb)⟩,
      hstep.settled ih.2⟩

end Collected

/-- Every field that is set in one record has the same value in another, and a numbering without a
text stays without one. -/
structure Track.Keeps (t u : Track) : Prop where
  text : ∀ field value, t.tags.text field = some value → u.tags.text field = some value
  year : ∀ year, t.tags.year = some year → u.tags.year = some year
  number : ∀ field m, (t.tags.numbering field).number = some m →
    (u.tags.numbering field).number = some m
  numberText : ∀ field text, (t.tags.numbering field).text = some text →
    (u.tags.numbering field).text = some text
  noNumberText : ∀ field m, (t.tags.numbering field).number = some m →
    (t.tags.numbering field).text = none → (u.tags.numbering field).text = none
  brand : ∀ brand, t.brand = some brand → u.brand = some brand
  artwork : ∀ art, t.tags.artwork = some art → u.tags.artwork = some art
  gain : ∀ field x, t.tags.gain.get field = some x → u.tags.gain.get field = some x

/-- Between settled records also the year and the text of a numbering are kept. -/
theorem Collected.Retains.keeps {c d : Collected} (h : c.Retains d) (hc : c.Settled)
    (hd : d.Settled) : c.track.Keeps d.track where
  text := h.tags.text
  year year hyear := by
    have hdate := hc.yearKnown
    rw [Collected.YearKnown, hyear] at hdate
    obtain ⟨date, hsome, hyear⟩ := Option.bind_eq_some_iff.mp hdate.symm
    have hkept : d.track.tags.date = some date := h.tags.text .date date hsome
    rw [show _ = _ from hd.yearKnown, hkept, Option.bind_some, hyear]
  number field m hm := by rw [h.tags.numbering field m hm, hm]
  numberText field text htext := by
    obtain ⟨m, hm⟩ := hc.numbered field text htext
    rw [h.tags.numbering field m hm, htext]
  noNumberText field m hm hnone := by rw [h.tags.numbering field m hm, hnone]
  brand := h.brand
  artwork := h.tags.artwork
  gain := h.tags.gain

namespace Walk

/-- What walks over streams of any kind lead to, whatever comes of them. -/
inductive Reachable (o : Options) : Collected → Prop
  | start : Reachable o (.start o)
  | walk {σ : Type} [ByteStream false σ] {c : Collected} (hc : Reachable o c) (budget : Nat)
    (s : σ) : Reachable o ((Walk.walk o budget).exec c s).1.2

theorem Reachable.settled {o : Options} {c : Collected} (hc : Reachable o c) : c.Settled := by
  induction hc with
  | start => exact Collected.settled_start o
  | walk _ budget s ih =>
    exact (Collected.retains_of_steps ((makes_forest o maxDepth budget).exec _ s) ih).2

/-- A field that is set keeps its value through every further walk, whatever comes of it. -/
theorem keeps_walk {o : Options} {c : Collected} (hc : Reachable o c) {σ : Type}
    [ByteStream false σ] (budget : Nat) (s : σ) :
    c.track.Keeps ((walk o budget).exec c s).1.2.track := by
  obtain ⟨hretains, hsettled⟩ :=
    Collected.retains_of_steps ((makes_forest o maxDepth budget).exec c s) hc.settled
  exact hretains.keeps hc.settled hsettled

/-- A second title is not taken over, also by a walk that fails behind it. -/
theorem keeps_walk_title :
    let o : Options := { arenaSize := 4 }
    let file (title : UInt8) : Bytes := Atom.octets Kind.metadata.code ([0, 0, 0, 0] ++
      Atom.octets Kind.handler.code
        (List.replicate 8 0 ++ (Code.ofChars 'm' 'd' 'i' 'r').toBytes) ++
      Atom.octets Kind.tagList.code
        (Atom.octets Kind.title.code (List.replicate 16 0 ++ [title])))
    let first := (walk o 65).exec (.start o) (Slice.ofBytes (file 65))
    let second := (walk o 73).exec first.1.2 (Slice.ofBytes (file 66))
    first.1.2.track.tags.title = some "A" ∧ second.1.1 = .error (.stream .underrun) ∧
      second.1.2.track.tags.title = some "A" := by
  intro o file
  have hfirst : ((walk o 65).exec (.start o) (Slice.ofBytes (file 65))).1.2.track.tags.title =
      some "A" := by cbv
  refine ⟨hfirst, ?_, ?_⟩
  · cbv
  · exact (keeps_walk (.walk .start 65 (Slice.ofBytes (file 65))) 73
      (Slice.ofBytes (file 66))).text .title "A" hfirst

end Walk

end AudioAtoms
