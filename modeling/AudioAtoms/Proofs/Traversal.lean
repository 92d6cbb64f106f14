import AudioAtoms.Proofs.Stopping

/-!
# Properties of a whole walk

A walk is put together from a few parts: it moves over octets, reads headers, payloads and tag
lists, and changes what the record says besides the tags. A property of readers that all of these
parts have, and that two readers in a row take over from each of them, is a property of every walk.
A tag list is put together in the same way from headers and tags.
-/
namespace AudioAtoms

theorem TagList.read_of_parts {P : ∀ {α : Type}, Collect StreamError false α → Prop} {o : Options}
    (hbind : ∀ {α β : Type} {p : Collect StreamError false α} {f : α → Collect StreamError false β},
      P p → (∀ a, P (f a)) → P (p >>= f))
    (hheader : ∀ budget, P (Collect.read (Header.read budget)))
    (hskip : ∀ n, P (Collect.read (Read.skip n))) (htag : ∀ h, P (readTag o h)) (budget : Nat) :
    P (TagList.read o budget) := by
  induction budget using Nat.strongRecOn with
  | ind budget ih =>
    rw [TagList.read]
    by_cases hb : Header.minSize ≤ budget
    · rw [dif_pos hb]
      exact hbind (hheader budget) fun h => hbind (htag h) fun _ => ih _ (h.leave_lt hb)
    · rw [dif_neg hb]
      exact hskip budget

namespace Walk

/-- The parts of a walk have the property, and it goes over from parts to a whole. -/
structure Composed (P : ∀ {α : Type}, Walk α → Prop) : Prop where
  pure : ∀ {α : Type} (a : α), P (pure a : Walk α)
  bind : ∀ {α β : Type} {p : Walk α} {f : α → Walk β}, P p → (∀ a, P (f a)) → P (p >>= f)
  get : P (get : Walk Collected)
  track : ∀ f : Track → Track, (∀ t, (f t).tags = t.tags) →
    P (modify fun c => { c with track := f c.track } : Walk Unit)
  note : ∀ m : Notice, m ≠ .descriptorsCut .underrun → P (Collect.note m : Walk Unit)
  tooDeep : P (throw .tooDeep : Walk Step)
  skip : ∀ n, P (skip n)
  header : ∀ budget, P (read (Header.read budget))
  leaf : ∀ {α : Type} (h : Header) (payload : Read true α), payload.Watchful → P (leaf h payload)
  tags : ∀ o n, P (lift (TagList.read o n))

namespace Composed
variable {P : ∀ {α : Type}, Walk α → Prop} (hP : Composed P)
include hP

theorem ofAudio (f : Audio → Audio) : P (Collect.modifyAudio f : Walk Unit) :=
  hP.track (fun t => { t with audio := f t.audio }) fun _ => rfl

theorem passing (h : Header) : P (pass h) :=
  hP.bind (hP.skip h.dataSize) fun _ => hP.pure _

theorem ofSampleTable (h : Header) : P (sampleTable h) := by
  refine hP.bind (hP.leaf h _ (SampleRun.strict_readTable _).watchful) ?_
  rintro (_ | runs)
  · exact hP.pure _
  · exact hP.bind (hP.ofAudio _) fun _ => hP.pure _

theorem ofAacEntry (o : Options) (h : Header) : P (aacEntry o h) := by
  refine hP.bind (hP.leaf h _ (SampleEntry.watchful_aac _)) ?_
  rintro (_ | _ | stream)
  · exact hP.pure _
  · exact hP.pure _
  · exact hP.bind (hP.ofAudio _) fun _ => hP.pure _

theorem ofAlacEntry (h : Header) : P (alacEntry h) := by
  refine hP.bind (hP.leaf h _ (SampleEntry.strict_alac _).watchful) ?_
  rintro (_ | _ | rate)
  · exact hP.pure _
  · exact hP.pure _
  · exact hP.bind (hP.ofAudio _) fun _ => hP.pure _

theorem ofChapterList (h : Header) : P (chapterList h) := by
  refine hP.bind (hP.leaf h _ Leaf.strict_firstChapter.watchful) ?_
  rintro (_ | _ | tick)
  · exact hP.pure _
  · exact hP.pure _
  · exact hP.bind hP.get fun _ => hP.bind (hP.note _ (by nofun)) fun _ =>
      hP.bind (hP.ofAudio _) fun _ => hP.pure _

theorem ofFileType (h : Header) : P (fileType h) :=
  hP.bind (hP.leaf h _ Leaf.strict_brand.watchful) fun brand =>
    hP.bind (hP.track (fun t => { t with brand := t.brand <|> brand }) fun _ => rfl) fun _ =>
      hP.pure _

theorem ofMediaData (h : Header) : P (mediaData h) := by
  unfold mediaData
  by_cases h0 : h.dataSize = 0
  · rw [if_pos h0]
    exact hP.pure _
  · rw [if_neg h0]
    refine hP.bind (hP.ofAudio _) fun _ => hP.bind hP.get fun c => ?_
    by_cases hs : 0 < c.track.audio.samples
    · rw [if_pos hs]
      exact hP.pure _
    · rw [if_neg hs]
      exact hP.passing h

variable {child : Nat → Walk Step} (hchild : ∀ n, P (child n))
include hchild

theorem ofContent (o : Options) (handler : Option Handler) (h : Header) :
    P (content o child handler h) := by
  have henter (fixed : Nat) : P (enter child fixed h.dataSize) :=
    hP.bind (hP.skip _) fun _ => hchild _
  obtain ⟨kind, wide, dataSize⟩ := h
  cases kind with
  | movie | userData | media | sampleTable | track => exact hchild dataSize
  | metadata => exact henter 4
  | sampleDescription => exact henter 8
  | mediaInfo =>
    simp only [content]
    by_cases hs : handler = some .sound
    · rw [if_pos hs]
      exact hchild dataSize
    · rw [if_neg hs]
      exact hP.passing _
  | tagList =>
    simp only [content]
    by_cases hd : handler = some .directory ∧ Header.minSize < dataSize
    · rw [if_pos hd]
      exact hP.bind (hP.tags o dataSize) fun _ => hP.pure _
    · rw [if_neg hd]
      exact hP.passing _
  | timeToSample => exact hP.ofSampleTable _
  | aacEntry => exact hP.ofAacEntry o _
  | alacEntry => exact hP.ofAlacEntry _
  | mediaData => exact hP.ofMediaData _
  | chapterList => exact hP.ofChapterList _
  | fileType => exact hP.ofFileType _
  | _ => exact hP.passing _

theorem ofAtom (o : Options) (handler : Option Handler) (h : Header) :
    P (atom o child handler h) := by
  unfold atom
  by_cases hk : h.kind = .handler
  · rw [if_pos hk]
    exact hP.bind (hP.leaf h _ Leaf.strict_handler.watchful) fun _ => hP.pure _
  · rw [if_neg hk]
    exact hP.bind (hP.ofContent hchild o handler h) fun _ => hP.pure _

theorem ofSiblings (o : Options) (handler : Option Handler) (budget : Nat) :
    P (siblings o child handler budget) := by
  induction budget using Nat.strongRecOn generalizing handler with
  | ind budget ih =>
    rw [siblings]
    by_cases hb : Header.minSize ≤ budget
    · rw [dif_pos hb]
      refine hP.bind (hP.header budget) fun h => hP.bind (hP.ofAtom hchild o handler h) ?_
      rintro ⟨_ | _, handler'⟩
      · exact ih _ (h.leave_lt hb) handler'
      · exact hP.pure _
    · rw [dif_neg hb]
      exact hP.bind (hP.skip budget) fun _ => hP.pure _

omit hchild in
theorem ofForest (o : Options) (levels budget : Nat) : P (forest o levels budget) := by
  induction levels generalizing budget with
  | zero => exact hP.tooDeep
  | succ levels ih => exact hP.ofSiblings ih o none budget

end Composed

end Walk

end AudioAtoms
