import AudioAtoms.Proofs.Artwork
import AudioAtoms.Proofs.FirstValue
import AudioAtoms.Proofs.Pace
import AudioAtoms.Proofs.Traversal

/-!
# Covers that are there

Where a cover stands and how long it is are noted before anything of it is read, from the position
of the stream and the size of a window that may reach beyond the file. They are right all the same:
the octets read next start with the signature of the image, and the file counts only if the stream
can be moved to the end of the window. So the cover in the record of a file stands in that file.
-/
namespace AudioAtoms

def ImageType.signature : ImageType → Bytes
  | .jpeg => ReadTag.jpegSignature
  | .png => ReadTag.pngSignature

theorem ImageType.length_signature_pos (type : ImageType) : 0 < type.signature.length := by
  cases type <;> decide

theorem ReadTag.signature_of_imageType {bs : Bytes} {type : ImageType}
    (h : imageType? bs = some type) : type.signature <+: bs := by
  rw [imageType?] at h
  split at h
  · cases h
    exact List.isPrefixOf_iff_prefix.mp ‹_›
  · split at h
    · cases h
      exact List.isPrefixOf_iff_prefix.mp ‹_›
    · cases h

/-- The octets below a stream: those that come stand at its position, and it is moved over no octets
behind a limit. -/
structure Ground (σ : Type) [ByteStream false σ] extends Pace σ where
  content : Bytes
  limit : Nat
  upTo : ∀ (n : Nat) (s : σ) (bs : Bytes), Good s →
    (ByteStream.answer (.upTo n : Request false) s).1 = .ok bs → bs <+: content.drop (pos s)
  skip : ∀ (n : Nat) (s : σ), Good s →
    (ByteStream.answer (.skip n : Request false) s).1 = .ok () → pos s + n ≤ limit

def Slice.ground (content : Bytes) : Ground Slice where
  toPace := Slice.pace content
  content := content
  limit := content.length
  upTo n s bs hs h := by
    rw [Slice.answer_upTo] at h
    cases h
    exact hs.rest ▸ List.take_prefix n s.rest
  skip n s hs h := by
    have hlen := RestOf.length_rest hs
    rw [Slice.answer_skip] at h
    split at h
    · exact hlen ▸ Nat.add_le_add_left ‹_› s.pos
    · cases h

def Tape.ground (content : Bytes) (lastPos : Nat) : Ground Tape where
  toPace := Tape.pace content lastPos
  content := content
  limit := lastPos
  upTo n t bs ht h := by
    obtain ⟨rfl, rfl⟩ := ht
    cases h
    exact List.take_prefix n _
  skip n t ht h := by
    obtain ⟨rfl, rfl⟩ := ht
    simp only [ByteStream.answer, Tape.answer] at h
    split at h
    · cases h
    · split at h
      · cases h
      · exact Nat.le_of_not_lt ‹_›

theorem Scoped.exec_remaining {σ : Type} [ByteStream false σ] (s : Scoped σ) :
    Read.remaining.exec s = (.ok s.window.left, s) := rfl

namespace Ground
variable {σ : Type} [ByteStream false σ] (g : Ground σ)

theorem good_run {α : Type} (p : Scan false α) {s : σ} (hs : g.Good s) : g.Good (p.run s).2 := by
  induction p generalizing s with
  | done a => exact hs
  | ask q next ih => exact ih _ (g.good_answer q s hs)
  | note m rest ih => exact ih hs

/-- The window starts at a position, and was used up to where the stream stands. -/
structure Anchored (start size : Nat) (s : Scoped σ) : Prop where
  good : g.Good s.inner
  size_eq : s.window.size = size
  pos_eq : g.pos s.inner = start + s.window.used
  used_le : s.window.used ≤ size

variable {g} {start size n : Nat} {s t : Scoped σ} {bs : Bytes}

theorem anchored_ofSize {s : σ} (hs : g.Good s) (size : Nat) :
    g.Anchored (g.pos s) size (.ofSize s size) :=
  ⟨hs, rfl, rfl, Nat.zero_le _⟩

theorem Anchored.position (hs : g.Anchored start size s) :
    ∃ t, (Read.position : Read true Nat).exec s = (.ok (start + s.window.used), t) ∧
      g.Anchored start size t ∧ t.window = s.window := by
  have hmoves := (g.moves .position s.inner hs.good).eq rfl
  refine ⟨⟨(ByteStream.answer (.position : Request false) s.inner).2, s.window⟩, ?_,
    ⟨g.good_answer _ _ hs.good, hs.size_eq, hmoves.trans hs.pos_eq, hs.used_le⟩, rfl⟩
  rw [← hs.pos_eq, ← g.position s.inner hs.good]
  rfl

theorem Anchored.skip (hs : g.Anchored start size s)
    (h : (Read.skip n : Read true Unit).exec s = (.ok (), t)) :
    g.Anchored start size t ∧ t.window.used = s.window.used + n := by
  have hsize := hs.size_eq
  rw [Read.exec_skip] at h
  simp only [ByteStream.answer, Window.answer] at h
  split at h
  · cases h
  · rename_i hleft
    rw [Window.left] at hleft
    simp only [Scan.run_ask, Scan.run_done, Prod.mk.injEq] at h
    obtain ⟨hok, rfl⟩ := h
    have hused := hs.used_le
    have hmoves := g.moves (.skip n) s.inner hs.good
    refine ⟨⟨g.good_answer _ _ hs.good, hs.size_eq, ?_, ?_⟩, rfl⟩
    · have heq := hmoves.eq (by rw [hok]; rfl)
      have hpos := hs.pos_eq
      simp only [Window.charge, Request.cost] at heq ⊢
      omega
    · simp only [Window.charge]
      omega

theorem Anchored.upTo (hs : g.Anchored start size s)
    (h : (Read.upTo n : Read true Bytes).exec s = (.ok bs, t)) :
    g.Anchored start size t ∧ t.window.used = s.window.used + bs.length ∧
      bs <+: g.content.drop (start + s.window.used) := by
  have hsize := hs.size_eq
  have hused := hs.used_le
  have hpos := hs.pos_eq
  have hmoves := g.moves (.upTo (min s.window.left n)) s.inner hs.good
  have hcame := g.upTo (min s.window.left n) s.inner bs hs.good
  have hrun := @Window.run_upTo true σ _ s.window n s.inner
  have hanswer : (Read.upTo n : Read true Bytes).exec s =
      ByteStream.answer (.upTo n : Request true) s := rfl
  rw [hanswer] at h
  simp only [ByteStream.answer] at h
  rw [hrun] at h
  simp only [Prod.mk.injEq] at h
  obtain ⟨hok, rfl⟩ := h
  have hcost : (.upTo (min s.window.left n) : Request false).cost
      (ByteStream.answer (.upTo (min s.window.left n) : Request false) s.inner).1 = bs.length := by
    rw [hok]
    rfl
  have hle := hmoves.cost_le
  have heq := hmoves.eq (by rw [hok]; rfl)
  rw [hcost] at hle heq
  simp only [Request.need, Window.left] at hle
  rw [hpos] at hcame heq
  refine ⟨⟨g.good_answer _ _ hs.good, hs.size_eq, ?_, ?_⟩, ?_, hcame hok⟩
  · simp only [Window.charge, hcost]
    omega
  · simp only [Window.charge, hcost]
    omega
  · simp only [Window.charge, hcost]

/-- A value that is read stands behind the octets before values, inside the window. -/
theorem Anchored.value {most : Nat} (hs : g.Anchored start size s) (hunused : s.window.used = 0)
    (h : (TagValue.read most).exec s = (.ok bs, t)) :
    g.Anchored start size t ∧ bs <+: g.content.drop (start + TagValue.offset) ∧
      bs.length ≤ size - TagValue.offset := by
  rw [TagValue.read, Read.exec_bind_ok s.exec_remaining] at h
  split at h
  · cases h
    exact ⟨hs, List.nil_prefix, Nat.zero_le _⟩
  · obtain ⟨_, u, hskip, h⟩ := Read.exec_bind_eq_ok h
    obtain ⟨hu, huused⟩ := hs.skip hskip
    rw [Read.exec_bind_ok u.exec_remaining] at h
    obtain ⟨found, v, hupTo, h⟩ := Read.exec_bind_eq_ok h
    obtain ⟨hv, hvused, hcame⟩ := hu.upTo hupTo
    have hle := hv.used_le
    rw [hunused, Nat.zero_add] at huused
    rw [huused] at hcame hvused
    cases h
    refine ⟨hv, ?_⟩
    split
    · exact ⟨hcame, by omega⟩
    · exact ⟨List.nil_prefix, Nat.zero_le _⟩

/-- A stream that is moved to the end of the window shows that the window ends before the limit. -/
theorem Anchored.end_le (hs : g.Anchored start size s)
    (h : (ByteStream.answer (.skip s.window.left : Request false) s.inner).1 = .ok ()) :
    start + size ≤ g.limit := by
  have hskip := g.skip _ s.inner hs.good h
  have hused := hs.used_le
  rw [hs.pos_eq, Window.left, hs.size_eq] at hskip
  omega

/-- An image stands on the ground: its signature is there, and it ends before the limit. -/
structure Holds (g : Ground σ) (art : Artwork) : Prop where
  starts : art.type.signature <+: g.content.drop art.pos
  signature_le : art.type.signature.length ≤ art.size
  ends : art.pos + art.size ≤ g.limit

/-- A cover that is found starts with its signature. It fills the window, which may reach beyond
the limit. -/
theorem Anchored.cover {c d : Collected} (hs : g.Anchored start size s)
    (hunused : s.window.used = 0) (hnone : c.track.tags.artwork = none)
    (h : ReadTag.cover.exec c s = ((.ok (), d), t)) :
    g.Anchored start size t ∧ ∀ art, d.track.tags.artwork = some art →
      start + size ≤ g.limit → g.Holds art := by
  rw [ReadTag.cover, Collect.exec_bind_ok (Collect.exec_getTags c s),
    if_pos (by rw [hnone]; rfl)] at h
  obtain ⟨u, hposition, hu, hwindow⟩ := hs.position
  rw [hunused, Nat.add_zero] at hposition
  rw [Collect.exec_bind_ok (Collect.exec_read_ok hposition c)] at h
  have hremaining : Read.remaining.exec u = (.ok size, u) := by
    have hleft : u.window.left = size := by
      rw [hwindow, Window.left, hs.size_eq, hunused, Nat.sub_zero]
    rw [← hleft]
    exact u.exec_remaining
  rw [Collect.exec_bind_ok (Collect.exec_read_ok hremaining c)] at h
  rcases hvalue : (TagValue.read 8).exec u with ⟨e | bs, v⟩
  · rw [Collect.exec_bind_error (Collect.exec_read_error hvalue c)] at h
    cases h
  · rw [Collect.exec_bind_ok (Collect.exec_read_ok hvalue c)] at h
    obtain ⟨hv, hcame, hlen⟩ := hu.value (by rw [hwindow, hunused]) hvalue
    cases htype : ReadTag.imageType? bs with
    | none =>
      rw [htype] at h
      cases h
      refine ⟨hv, fun art hart => ?_⟩
      cases hnone.symm.trans hart
    | some type =>
      rw [htype] at h
      cases h
      refine ⟨hv, fun art hart hlimit => ?_⟩
      cases hart
      have hsigned := ReadTag.signature_of_imageType htype
      have hpos := type.length_signature_pos
      have hle := hsigned.length_le
      exact ⟨hsigned.trans hcame, by simp only; omega, by simp only; omega⟩

end Ground

namespace Collected
variable {o : Options} {kind : Kind} {c d : Collected}

/-- Only a cover sets a cover. -/
theorem TagStep.artwork_eq (h : TagStep o kind c d) (hk : kind ≠ .cover) :
    d.track.tags.artwork = c.track.tags.artwork := by
  cases h with
  | stay | gapless bs => rfl
  | text field hf hg bs => exact TagContent.artwork_text o field bs c
  | date bs => exact TagContent.artwork_text o .date bs c
  | genre hk bs =>
    rw [TagContent.genre]
    split <;> rfl
  | numbering field bs => exact TagContent.artwork_numbering field bs c
  | cover hkind art hnone => exact absurd hkind hk
  | gain key bs =>
    rw [TagContent.gain]
    split <;> rfl

end Collected

section Found
variable {σ : Type} [ByteStream false σ] {g : Ground σ}

def Ground.Bears (g : Ground σ) (c : Collected) : Prop :=
  ∀ art, c.track.tags.artwork = some art → g.Holds art

/-- A reader that succeeds finds covers on the ground only. -/
structure Collect.Finds {ε α : Type} (g : Ground σ) (p : Collect ε false α) : Prop where
  exec : ∀ {c d : Collected} {s t : σ} {a : α}, g.Good s → g.Bears c →
    p.exec c s = ((.ok a, d), t) → g.Bears d

namespace Collect
variable {ε α β : Type}

theorem Finds.bind {p : Collect ε false α} {f : α → Collect ε false β} (hp : p.Finds g)
    (hf : ∀ a, (f a).Finds g) : (p >>= f).Finds g := by
  refine ⟨fun {c d s t b} hs hc h => ?_⟩
  have hgood := g.good_run (p.runFrom c) hs
  rcases hr : p.exec c s with ⟨⟨e | a, c'⟩, u⟩
  · rw [exec_bind_error hr] at h
    cases h
  · rw [exec_bind_ok hr] at h
    rw [show (p.runFrom c).run s = _ from hr] at hgood
    exact (hf a).exec hgood (hp.exec hs hc hr) h

/-- A reader that does not touch the tags finds nothing. -/
theorem finds_of_tags {p : Collect ε false α}
    (h : ∀ c (s : σ), (p.exec c s).1.2.track.tags = c.track.tags) : p.Finds g := by
  refine ⟨fun {c d s t a} hs hc hr art hart => hc art ?_⟩
  have htags := h c s
  rw [hr] at htags
  rw [← htags]
  exact hart

theorem finds_read (p : Read false α) : (read p).Finds g := by
  refine finds_of_tags fun c s => ?_
  rw [exec_read]

end Collect

namespace TagList

/-- A tag that was read is passed by a move to the end of its window. -/
theorem exec_readTag_eq_ok {o : Options} {h : Header} {c d : Collected} {s t : σ}
    (hr : (readTag o h : Collect StreamError false Unit).exec c s = ((.ok (), d), t)) :
    ∃ r u, (ReadTag.read o h.kind).exec c (Scoped.ofSize s h.dataSize) = ((r, d), u) ∧
      (r = .ok () →
        (ByteStream.answer (.skip u.window.left : Request false) u.inner).1 = .ok ()) := by
  rw [Collect.exec, runFrom_readTag, Scan.enclose, Scan.run_bind, Scoped.run_within] at hr
  have hd := congrArg (·.1.2) hr
  rw [collected_close] at hd
  rcases hx : (ReadTag.read o h.kind).exec c (Scoped.ofSize s h.dataSize) with ⟨⟨r, c'⟩, u⟩
  rw [show ((ReadTag.read o h.kind).runFrom c).run (⟨s, .ofSize h.dataSize⟩ : Scoped σ) = _ from hx]
    at hr hd
  obtain rfl : c' = d := hd
  refine ⟨r, u, rfl, ?_⟩
  rintro rfl
  have hskip := congrArg (·.1.1) hr
  exact hskip

theorem finds_readTag (o : Options) (h : Header) :
    (readTag o h : Collect StreamError false Unit).Finds g := by
  refine ⟨fun {c d s t _} hs hc hr => ?_⟩
  have hstep := tagStep_readTag o h c s
  rw [hr] at hstep
  cases hold : c.track.tags.artwork with
  | some art =>
    have hkept := hstep.retains.1.artwork art hold
    intro art' hart
    exact hc art' (by rw [hold, ← hkept, hart])
  | none =>
    by_cases hk : h.kind = .cover
    · have hafter := ReadTag.after_read o c (Scoped.ofSize s h.dataSize) h.kind
      obtain ⟨r, u, hx, hskip⟩ := exec_readTag_eq_ok hr
      rw [hx] at hafter
      intro art hart
      cases r with
      | error e =>
        obtain rfl : d = c := hafter
        cases hold.symm.trans hart
      | ok _ =>
        rw [hk, ReadTag.read] at hx
        split at hx
        · obtain ⟨hu, hfound⟩ := (Ground.anchored_ofSize hs h.dataSize).cover rfl hold hx
          exact hfound art hart (hu.end_le (hskip rfl))
        · cases hx
          cases hold.symm.trans hart
    · intro art hart
      cases (hold.symm.trans (hstep.artwork_eq hk).symm).trans hart

theorem finds_read (o : Options) (budget : Nat) :
    (TagList.read o budget : Collect StreamError false Unit).Finds g :=
  read_of_parts (P := fun p => p.Finds g) Collect.Finds.bind (fun _ => Collect.finds_read _)
    (fun _ => Collect.finds_read _) (finds_readTag o) budget

end TagList

namespace Walk

theorem finds_lift {α : Type} {p : Collect StreamError false α} (hp : p.Finds g) :
    (lift p).Finds g := by
  refine ⟨fun {c d s t a} hs hc h => ?_⟩
  rw [exec_lift] at h
  rcases hr : p.exec c s with ⟨⟨e | b, c'⟩, u⟩
  · rw [hr] at h
    cases h
  · rw [hr] at h
    cases h
    exact hp.exec hs hc hr

theorem composed_finds (g : Ground σ) : Composed fun p => p.Finds g where
  pure _ := Collect.finds_of_tags fun _ _ => rfl
  bind := Collect.Finds.bind
  get := Collect.finds_of_tags fun _ _ => rfl
  track _ hf := Collect.finds_of_tags fun c _ => hf c.track
  note _ _ := Collect.finds_of_tags fun _ _ => rfl
  tooDeep := Collect.finds_of_tags fun _ _ => rfl
  skip _ := finds_lift (Collect.finds_read _)
  header _ := finds_lift (Collect.finds_read _)
  leaf _ _ _ := finds_lift (Collect.finds_read _)
  tags o n := finds_lift (TagList.finds_read o n)

end Walk

/-- The cover in the record of a file stands on the ground of its stream. -/
theorem Ground.holds_read {s : σ} (hs : g.Good s) {o : Options} {size : Nat} {t : Track}
    {art : Artwork} (h : Track.read o size s = .ok t) (hart : t.tags.artwork = some art) :
    g.Holds art := by
  rw [Track.read_eq] at h
  rcases hw : (Walk.walk o size).exec (.start o) s with ⟨⟨e | step, c⟩, u⟩
  · rw [hw] at h
    cases h
  · rw [hw] at h
    have hstart : g.Bears (.start o) := fun art hart => by cases hart
    have hfound := ((Walk.composed_finds g).ofForest o Walk.maxDepth size).exec hs hstart hw
    exact hfound art (by rw [← Track.tags_completed h, hart])

end Found

namespace Track

theorem read_ofSource {source : Source} (hs : source.Reliable) (o : Options) (size : Nat)
    {capacity : Nat} (h : 0 < capacity) :
    read o size (Buffered.ofSource source capacity h) = read o size source.tape := by
  obtain ⟨hcoherent, htape⟩ := Buffered.coherent_ofSource hs h
  rw [← htape]
  exact hcoherent.run _

/-- The cover of a file in memory stands in that memory as a whole and starts with its signature.
That of a file in a source starts with its signature in the content of the source, wherever in that
content the file starts. -/
theorem cover_stands (o : Options) (size : Nat) :
    (∀ (data : Bytes) (t : Track) (art : Artwork), read o size (Slice.ofBytes data) = .ok t →
      t.tags.artwork = some art →
        art.pos + art.size ≤ data.length ∧ art.type.signature <+: data.drop art.pos ∧
          art.type.signature.length ≤ art.size) ∧
    ∀ (content : Array UInt8) (start : Nat) (schedule : Schedule) (capacity : Nat)
      (h : 0 < capacity) (t : Track) (art : Artwork), content.size < 2 ^ 64 → start < 2 ^ 64 →
      schedule.Reliable →
      read o size (Buffered.ofSource (.ofContent content start schedule) capacity h) = .ok t →
      t.tags.artwork = some art →
        art.type.signature <+: content.toList.drop art.pos ∧
          art.type.signature.length ≤ art.size := by
  refine ⟨fun data t art hread hart => ?_, ?_⟩
  · have hholds := Ground.holds_read (g := Slice.ground data) (Slice.restOf_ofBytes data) hread hart
    exact ⟨hholds.ends, hholds.starts, hholds.signature_le⟩
  · intro content start schedule capacity h t art hsize hstart hs hread hart
    have hreliable := Source.reliable_ofContent hsize hstart hs
    rw [read_ofSource hreliable] at hread
    let source := Source.ofContent content start schedule
    have hholds := Ground.holds_read (g := Tape.ground content.toList source.lastPos)
      (s := source.tape) ⟨rfl, rfl⟩ hread hart
    exact ⟨hholds.starts, hholds.signature_le⟩

set_option maxRecDepth 2048 in
/-- A file with a cover, in memory and behind three octets of a source that is read two octets
ahead. -/
theorem cover_stands_behind :
    let o : Options := { arenaSize := 0 }
    let image : Bytes := ImageType.png.signature ++ [1, 2]
    let file := Atom.octets Kind.timeToSample.code
        (Bytes.ofNat 4 0 ++ Bytes.ofNat 4 1 ++ Bytes.ofNat 4 1000 ++ Bytes.ofNat 4 1024) ++
      Atom.octets Kind.alacEntry.code (List.replicate 28 0 ++
        Atom.octets Kind.alacEntry.code (List.replicate 24 0 ++ Bytes.ofNat 4 48000)) ++
      Atom.octets Kind.metadata.code ([0, 0, 0, 0] ++
        Atom.octets Kind.handler.code
          (List.replicate 8 0 ++ (Code.ofChars 'm' 'd' 'i' 'r').toBytes) ++
        Atom.octets Kind.tagList.code
          (Atom.octets Kind.cover.code (List.replicate 16 0 ++ image))) ++
      Atom.octets Kind.mediaData.code [1, 2, 3]
    let source := Source.ofContent ([7, 7, 7] ++ file).toArray 3 .steady
    let m (pos : Nat) : Track :=
      { audio :=
          { codec := .alac, sampleRate := 48000, samples := 1024000, bytes := 3,
            length := 21333, variableRate := true }
        tags := { artwork := some ⟨.png, pos, 10⟩ } }
    (read o 181 (Slice.ofBytes file) = .ok (m 160) ∧ 160 + 10 ≤ file.length ∧
        ImageType.png.signature <+: file.drop 160) ∧
      read o 181 (Buffered.ofSource source 2 (by decide)) = .ok (m 163) ∧
        ImageType.png.signature <+: ([7, 7, 7] ++ file).drop 163 := by
  intro o image file source m
  have hmemory : read o 181 (Slice.ofBytes file) = .ok (m 160) := by cbv
  have hsize : ([7, 7, 7] ++ file).toArray.size < 2 ^ 64 := by decide
  have hsource : read o 181 (Buffered.ofSource source 2 (by decide)) = .ok (m 163) := by
    rw [read_ofSource (Source.reliable_ofContent hsize (by decide) Schedule.reliable_steady)]
    cbv
  obtain ⟨hinside, hstarts, -⟩ := (cover_stands o 181).1 file _ _ hmemory rfl
  exact ⟨⟨hmemory, hinside, hstarts⟩, hsource, ((cover_stands o 181).2 _ 3 _ 2 (by decide) _ _ hsize
    (by decide) Schedule.reliable_steady hsource rfl).1⟩

end Track

end AudioAtoms
