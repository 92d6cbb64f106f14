import AudioAtoms.Proofs.Visit

/-!
# The walk is the fold

The walk over the octets of a forest gives the outcome of the visit and collects what the visit
collects. Each atom is read from its own octets and left where it ends, so the walk stands in front
of the next one whatever the payload said. This carries over to rows of siblings, and through the
containers to the whole tree.
-/
namespace AudioAtoms

namespace Walk
variable {α : Type}

theorem exec_lift_ok {p : Collect StreamError false α} {c d : Collected} {s t : Slice} {a : α}
    (h : p.exec c s = ((.ok a, d), t)) : (lift p).exec c s = ((.ok a, d), t) := by
  rw [exec_lift, h]
  rfl

theorem exec_read_ok {p : Read false α} {s t : Slice} {a : α} (h : p.exec s = (.ok a, t))
    (c : Collected) : (read p).exec c s = ((.ok a, c), t) :=
  exec_lift_ok (Collect.exec_read_ok h c)

section Enclosed
variable (h : Header) (c : Collected) (pos : Nat) (bs tail : Bytes)

theorem exec_leaf {p : Read true α} (hp : p.Watchful) (hb : h.dataSize = bs.length) :
    (leaf h p).exec c (Slice.mk pos (bs ++ tail)) =
      ((.ok (p.result (.ofBytes pos bs)), c), ⟨pos + bs.length, tail⟩) :=
  exec_read_ok (Leaf.exec_read_result hp h pos bs tail hb) c

theorem exec_pass (hb : h.dataSize = bs.length) :
    (pass h).exec c (Slice.mk pos (bs ++ tail)) =
      ((.ok .proceed, c), ⟨pos + bs.length, tail⟩) := by
  rw [pass, hb]
  exact Collect.exec_bind_ok (exec_read_ok (Slice.exec_skip_append pos bs tail) c) _

theorem exec_sampleTable (o : Options) (hb : h.dataSize = bs.length) :
    (sampleTable h).exec c (Slice.mk pos (bs ++ tail)) =
      ((.ok .proceed, Content.apply o .timeToSample bs c), ⟨pos + bs.length, tail⟩) := by
  rw [sampleTable, Collect.exec_bind_ok
    (exec_leaf h c pos bs tail (SampleRun.strict_readTable _).watchful hb), hb, SampleRun.result_readTable]
  simp only [Content.apply]
  cases Content.sampleTable? bs with
  | none => rfl
  | some runs => rfl

theorem exec_aacEntry (o : Options) (hb : h.dataSize = bs.length) :
    (aacEntry o h).exec c (Slice.mk pos (bs ++ tail)) =
      ((.ok .proceed, Content.apply o .aacEntry bs c), ⟨pos + bs.length, tail⟩) := by
  have hresult := SampleEntry.result_aac pos bs
  rw [aacEntry, Collect.exec_bind_ok
    (exec_leaf h c pos bs tail (SampleEntry.watchful_aac _) hb), hb]
  simp only [Content.apply, ← hresult]
  rcases (SampleEntry.aac bs.length).result (.ofBytes pos bs) with _ | _ | stream <;> rfl

theorem exec_alacEntry (o : Options) (hb : h.dataSize = bs.length) :
    (alacEntry h).exec c (Slice.mk pos (bs ++ tail)) =
      ((.ok .proceed, Content.apply o .alacEntry bs c), ⟨pos + bs.length, tail⟩) := by
  have hresult := SampleEntry.result_alac pos bs
  rw [alacEntry, Collect.exec_bind_ok
    (exec_leaf h c pos bs tail (SampleEntry.strict_alac _).watchful hb), hb]
  simp only [Content.apply, ← hresult]
  rcases (SampleEntry.alac bs.length).result (.ofBytes pos bs) with _ | _ | rate <;> rfl

theorem exec_chapterList (o : Options) (hb : h.dataSize = bs.length) :
    (chapterList h).exec c (Slice.mk pos (bs ++ tail)) =
      ((.ok .proceed, Content.apply o .chapterList bs c), ⟨pos + bs.length, tail⟩) := by
  have hresult := Leaf.result_firstChapter pos bs
  rw [chapterList, Collect.exec_bind_ok
    (exec_leaf h c pos bs tail Leaf.strict_firstChapter.watchful hb)]
  simp only [Content.apply, ← hresult]
  rcases Leaf.firstChapter.result (.ofBytes pos bs) with _ | _ | tick <;> rfl

theorem exec_fileType (o : Options) (hb : h.dataSize = bs.length) :
    (fileType h).exec c (Slice.mk pos (bs ++ tail)) =
      ((.ok .proceed, Content.apply o .fileType bs c), ⟨pos + bs.length, tail⟩) := by
  rw [fileType, Collect.exec_bind_ok (exec_leaf h c pos bs tail Leaf.strict_brand.watchful hb),
    Leaf.result_brand]
  rfl

/-- A leaf that is neither a handler nor audio data has its effect and is passed. -/
theorem exec_content_leaf (o : Options) (child : Nat → Walk Step) (handler : Option Handler)
    (hb : h.dataSize = bs.length) (hleaf : h.kind.isLeaf = true) (hdata : h.kind ≠ .mediaData) :
    (content o child handler h).exec c (Slice.mk pos (bs ++ tail)) =
      ((.ok .proceed, Content.apply o h.kind bs c), ⟨pos + bs.length, tail⟩) := by
  obtain ⟨kind, wide, dataSize⟩ := h
  cases kind with
  | movie | userData | track | media | mediaInfo | sampleTable | sampleDescription | metadata
  | tagList => cases hleaf
  | mediaData => exact absurd rfl hdata
  | timeToSample => exact exec_sampleTable _ c pos bs tail o hb
  | aacEntry => exact exec_aacEntry _ c pos bs tail o hb
  | alacEntry => exact exec_alacEntry _ c pos bs tail o hb
  | chapterList => exact exec_chapterList _ c pos bs tail o hb
  | fileType => exact exec_fileType _ c pos bs tail o hb
  | _ => exact exec_pass _ c pos bs tail hb

theorem exec_mediaData (hb : h.dataSize = bs.length) (hne : bs ≠ []) :
    (mediaData h).exec c (Slice.mk pos (bs ++ tail)) =
      if 0 < (c.addAudio bs.length).track.audio.samples then
        ((.ok .stop, c.addAudio bs.length), ⟨pos, bs ++ tail⟩)
      else ((.ok .proceed, c.addAudio bs.length), ⟨pos + bs.length, tail⟩) := by
  have hpos : h.dataSize ≠ 0 := by
    rw [hb]
    exact fun hz => hne (List.eq_nil_of_length_eq_zero hz)
  have hadd : (Collect.modifyAudio fun a =>
      { a with bytes := min (a.bytes + h.dataSize) (2 ^ 64 - 1) } : Walk Unit).exec c
        (Slice.mk pos (bs ++ tail)) = ((.ok (), c.addAudio bs.length), ⟨pos, bs ++ tail⟩) := by
    rw [hb]
    rfl
  rw [mediaData, if_neg hpos, Collect.exec_bind_ok hadd, Collect.exec_bind_ok (Collect.exec_get _ _)]
  by_cases hs : 0 < (c.addAudio bs.length).track.audio.samples
  · rw [if_pos hs, if_pos hs]
    rfl
  · rw [if_neg hs, if_neg hs]
    exact exec_pass h _ pos bs tail hb

end Enclosed

end Walk

namespace TagList

theorem exec_read_nil (o : Options) (c : Collected) (s : Slice) :
    (read o 0 : Collect StreamError false Unit).exec c s = ((.ok (), c), s) := by
  have hskip := @Slice.exec_skip_append false s.pos [] s.rest
  rw [read, dif_neg (by decide)]
  exact Collect.exec_read_ok hskip c

/-- Tags that declare their true sizes have their effect one after the other, whatever follows. -/
theorem exec_read_front (o : Options) (tags : List TagAtom) (left : Nat) (c : Collected) (pos : Nat)
    (tail : Bytes) (hs : ∀ tag ∈ tags, Header.minSize + tag.payload.length < 2 ^ 32) :
    (read o ((octets tags).length + left) : Collect StreamError false Unit).exec c
        (Slice.mk pos (octets tags ++ tail)) =
      (read o left : Collect StreamError false Unit).exec (TagContent.applyAll o pos tags c)
        (Slice.mk (pos + (octets tags).length) tail) := by
  induction tags generalizing c pos with
  | nil =>
    have hlen : (octets []).length + left = left := Nat.zero_add left
    rw [hlen]
    rfl
  | cons tag tags ih =>
    obtain ⟨htag, htags⟩ := List.forall_mem_cons.mp hs
    have hlen : (octets (tag :: tags)).length + left =
        Header.minSize + tag.payload.length + ((octets tags).length + left) := by
      rw [octets, List.length_append, Atom.length_octets, Nat.add_assoc]
    have hcons : octets (tag :: tags) ++ tail =
        Atom.octets tag.code tag.payload ++ (octets tags ++ tail) := by
      rw [octets, List.append_assoc]
    have hbehind : pos + (octets (tag :: tags)).length =
        pos + Header.minSize + tag.payload.length + (octets tags).length := by
      rw [octets, List.length_append, Atom.length_octets]
      omega
    have hheader := Header.exec_read_octets tag.code tag.payload
      (Header.minSize + tag.payload.length + ((octets tags).length + left)) pos
      (octets tags ++ tail) htag
    have hread := exec_readTag_apply o ⟨.ofCode tag.code, false, tag.payload.length⟩ c
      (pos + Header.minSize) tag.payload (octets tags ++ tail) rfl
    have hleave : (Header.mk (.ofCode tag.code) false tag.payload.length).leave
        (Header.minSize + tag.payload.length + ((octets tags).length + left)) =
          (octets tags).length + left :=
      Nat.add_sub_cancel_left _ _
    rw [hlen, hcons, hbehind, read, dif_pos (by omega),
      Collect.exec_bind_ok (Collect.exec_read_ok hheader c), Collect.exec_bind_ok hread, hleave,
      ih _ _ htags]
    rfl

theorem exec_read_octets (o : Options) (tags : List TagAtom) (c : Collected) (pos : Nat)
    (tail : Bytes) (hs : ∀ tag ∈ tags, Header.minSize + tag.payload.length < 2 ^ 32) :
    (read o (octets tags).length : Collect StreamError false Unit).exec c
        (Slice.mk pos (octets tags ++ tail)) =
      ((.ok (), TagContent.applyAll o pos tags c), ⟨pos + (octets tags).length, tail⟩) :=
  (exec_read_front o tags 0 c pos tail hs).trans (exec_read_nil o _ _)

/-- A list that fits into its atom has tags that fit into theirs. -/
theorem fits_of_length {tags : List TagAtom} (h : Header.minSize + (octets tags).length < 2 ^ 32) :
    ∀ tag ∈ tags, Header.minSize + tag.payload.length < 2 ^ 32 := by
  induction tags with
  | nil => exact fun _ hmem => nomatch hmem
  | cons tag tags ih =>
    rw [octets, List.length_append, Atom.length_octets] at h
    exact List.forall_mem_cons.mpr ⟨by omega, ih (by omega)⟩

/-- What the octets of a tag list do to what was collected, from a position on. A list that is too
short to be read does nothing. -/
structure Effect (o : Options) (payload : Bytes) (effect : Nat → Collected → Collected) : Prop where
  read : ∀ c pos tail, (read o payload.length : Collect StreamError false Unit).exec c
    (Slice.mk pos (payload ++ tail)) = ((.ok (), effect pos c), ⟨pos + payload.length, tail⟩)
  short : payload.length ≤ Header.minSize → ∀ pos c, c.YearKnown → effect pos c = c
  yearKnown : ∀ pos c, c.YearKnown → (effect pos c).YearKnown

theorem effect_applyAll (o : Options) (tags : List TagAtom)
    (hfit : Header.minSize + (octets tags).length < 2 ^ 32) :
    Effect o (octets tags) fun pos => TagContent.applyAll o pos tags where
  read c pos tail := exec_read_octets o tags c pos tail (fits_of_length hfit)
  short hs pos c hc := TagContent.applyAll_short o pos tags c hc hs
  yearKnown pos c hc := TagContent.yearKnown_applyAll o pos tags c hc

end TagList

namespace Walk
variable (o : Options) (child : Nat → Walk Step) (handler : Option Handler) (code : Code)
  (payload : Bytes) (left pos : Nat) (c : Collected) (tail : Bytes)

theorem exec_siblings_nil (s : Slice) :
    (siblings o child handler 0).exec c s = ((.ok .proceed, c), s) := by
  have hskip := @Slice.exec_skip_append false s.pos [] s.rest
  rw [siblings, dif_neg (by decide)]
  exact Collect.exec_bind_ok (exec_read_ok hskip c) _

/-- The walk visits an atom whose header it has read, and goes on with what the atom leaves. -/
theorem exec_siblings_header (h : Header) {s t : Slice}
    (hheader : (Header.read (h.size + left) : Read false Header).exec s = (.ok h, t)) :
    (siblings o child handler (h.size + left)).exec c s =
      (atom o child handler h >>= fun visited =>
        match visited.1 with
        | .stop => pure .stop
        | .proceed => siblings o child visited.2 left).exec c t := by
  have hsize := h.minSize_le_size
  have hleave : h.leave (h.size + left) = left := Nat.add_sub_cancel_left _ _
  have hrun := Collect.exec_bind_ok (exec_read_ok hheader c) fun h' =>
    atom o child handler h' >>= fun visited =>
      match visited.1 with
      | .stop => pure .stop
      | .proceed => siblings o child visited.2 (h'.leave (h.size + left))
  simp only [hleave] at hrun
  rw [siblings, dif_pos (by omega)]
  exact hrun

section Step
variable (hfit : Header.minSize + payload.length < 2 ^ 32)
include hfit

theorem exec_siblings_atom :
    (siblings o child handler (Header.minSize + payload.length + left)).exec c
        (Slice.mk pos (Atom.octets code payload ++ tail)) =
      (atom o child handler ⟨.ofCode code, false, payload.length⟩ >>= fun visited =>
        match visited.1 with
        | .stop => pure .stop
        | .proceed => siblings o child visited.2 left).exec c
          (Slice.mk (pos + Header.minSize) (payload ++ tail)) :=
  exec_siblings_header o child handler left c ⟨.ofCode code, false, payload.length⟩
    (Header.exec_read_octets code payload (Header.minSize + payload.length + left) pos tail hfit)

theorem exec_siblings_handler (hk : Kind.ofCode code = .handler) :
    (siblings o child handler (Header.minSize + payload.length + left)).exec c
        (Slice.mk pos (Atom.octets code payload ++ tail)) =
      (siblings o child (Content.handler? payload) left).exec c
        ⟨pos + Header.minSize + payload.length, tail⟩ := by
  have hleaf := exec_leaf ⟨.handler, false, payload.length⟩ c (pos + Header.minSize) payload tail
    Leaf.strict_handler.watchful rfl
  rw [Leaf.result_handler] at hleaf
  rw [exec_siblings_atom o child handler code payload left pos c tail hfit, hk, atom, if_pos rfl,
    bind_assoc, Collect.exec_bind_ok hleaf]
  rfl

variable {d : Collected}

/-- An atom that is read to its end lets the walk go on behind it. -/
theorem exec_siblings_proceed (hk : Kind.ofCode code ≠ .handler)
    (hcontent : (content o child handler ⟨.ofCode code, false, payload.length⟩).exec c
      (Slice.mk (pos + Header.minSize) (payload ++ tail)) =
        ((.ok .proceed, d), ⟨pos + Header.minSize + payload.length, tail⟩)) :
    (siblings o child handler (Header.minSize + payload.length + left)).exec c
        (Slice.mk pos (Atom.octets code payload ++ tail)) =
      (siblings o child handler left).exec d ⟨pos + Header.minSize + payload.length, tail⟩ := by
  rw [exec_siblings_atom o child handler code payload left pos c tail hfit, atom, if_neg hk,
    bind_assoc, Collect.exec_bind_ok hcontent]
  rfl

/-- An atom that ends the walk or fails leaves nothing else to be visited. -/
theorem exec_siblings_end {outcome : Except ReadError Step} {t : Slice}
    (hk : Kind.ofCode code ≠ .handler) (ho : outcome ≠ .ok .proceed)
    (hcontent : (content o child handler ⟨.ofCode code, false, payload.length⟩).exec c
      (Slice.mk (pos + Header.minSize) (payload ++ tail)) = ((outcome, d), t)) :
    (siblings o child handler (Header.minSize + payload.length + left)).exec c
        (Slice.mk pos (Atom.octets code payload ++ tail)) = ((outcome, d), t) := by
  rw [exec_siblings_atom o child handler code payload left pos c tail hfit, atom, if_neg hk,
    bind_assoc]
  match outcome, ho with
  | .error e, _ => exact Collect.exec_bind_error hcontent _
  | .ok .stop, _ =>
    rw [Collect.exec_bind_ok hcontent]
    rfl
  | .ok .proceed, ho => exact absurd rfl ho

end Step

/-- A container is entered behind its fixed octets, media information only for sound. -/
theorem content_container (kind : Container) (fixed : Vector UInt8 kind.fixedSize)
    (inner : Bytes) :
    content o child handler ⟨kind.kind, false, (fixed.toList ++ inner).length⟩ =
      if kind = .mediaInfo ∧ handler ≠ some .sound then
        pass ⟨kind.kind, false, (fixed.toList ++ inner).length⟩
      else if kind.fixedSize = 0 then child inner.length
      else skip fixed.toList.length >>= fun _ => child inner.length := by
  have hlen : fixed.toList.length = kind.fixedSize := fixed.length_toList
  have hsize : (fixed.toList ++ inner).length = kind.fixedSize + inner.length := by
    rw [List.length_append, hlen]
  have henter : enter child kind.fixedSize (fixed.toList ++ inner).length =
      skip fixed.toList.length >>= fun _ => child inner.length := by
    rw [enter, hsize, hlen, Nat.min_eq_left (Nat.le_add_right _ _), Nat.add_sub_cancel_left]
  have hplain (h0 : kind.fixedSize = 0) :
      child (fixed.toList ++ inner).length = child inner.length := by
    rw [hsize, h0, Nat.zero_add]
  cases kind with
  | mediaInfo =>
    by_cases hsound : handler = some .sound
    · rw [if_neg (fun h => h.2 hsound), if_pos (by decide), ← hplain rfl]
      simp only [content, Container.kind, if_pos hsound]
    · rw [if_pos ⟨rfl, hsound⟩]
      simp only [content, Container.kind, if_neg hsound]
  | metadata | sampleDescription =>
    rw [if_neg (fun h => absurd h.1 (by decide)), if_neg (by decide), ← henter]
    rfl
  | _ =>
    rw [if_neg (fun h => absurd h.1 (by decide)), if_pos (by decide), ← hplain rfl]
    rfl

theorem exec_content_container (kind : Container) (fixed : Vector UInt8 kind.fixedSize)
    (inner : Bytes) :
    (content o child handler
        ⟨kind.kind, false, (fixed.toList ++ inner).length⟩).exec c
          (Slice.mk pos ((fixed.toList ++ inner) ++ tail)) =
      if kind = .mediaInfo ∧ handler ≠ some .sound then
        ((.ok .proceed, c), ⟨pos + (fixed.toList ++ inner).length, tail⟩)
      else (child inner.length).exec c ⟨pos + fixed.toList.length, inner ++ tail⟩ := by
  rw [content_container]
  split
  · exact exec_pass _ c pos _ tail rfl
  · split
    · have hnil : fixed.toList = [] :=
        List.eq_nil_of_length_eq_zero (fixed.length_toList.trans ‹_›)
      rw [hnil]
      rfl
    · rw [List.append_assoc]
      exact Collect.exec_bind_ok
        (exec_read_ok (Slice.exec_skip_append pos fixed.toList (inner ++ tail)) c) _

/-- A tag list is read in a directory only. -/
theorem exec_content_tagEffect {effect : Nat → Collected → Collected}
    (heffect : TagList.Effect o payload effect) (hc : c.YearKnown) :
    (content o child handler ⟨.tagList, false, payload.length⟩).exec c
        (Slice.mk pos (payload ++ tail)) =
      ((.ok .proceed, if handler = some .directory then effect pos c else c),
        ⟨pos + payload.length, tail⟩) := by
  have hpass := exec_pass ⟨.tagList, false, payload.length⟩ c pos payload tail rfl
  simp only [content]
  by_cases hdir : handler = some .directory
  · by_cases hsize : Header.minSize < payload.length
    · rw [if_pos ⟨hdir, hsize⟩, if_pos hdir]
      exact Collect.exec_bind_ok (exec_lift_ok (heffect.read c pos tail)) _
    · rw [if_neg (fun h => hsize h.2), if_pos hdir, heffect.short (by omega) pos c hc]
      exact hpass
  · rw [if_neg (fun h => hdir h.1), if_neg hdir]
    exact hpass

theorem exec_content_tagList (tags : List TagAtom) (hc : c.YearKnown)
    (hfit : Header.minSize + (TagList.octets tags).length < 2 ^ 32) :
    (content o child handler ⟨.tagList, false, (TagList.octets tags).length⟩).exec c
        (Slice.mk pos (TagList.octets tags ++ tail)) =
      ((.ok .proceed,
        if handler = some .directory then TagContent.applyAll o pos tags c else c),
        ⟨pos + (TagList.octets tags).length, tail⟩) :=
  exec_content_tagEffect o child handler _ pos c tail (TagList.effect_applyAll o tags hfit) hc

end Walk

namespace Walk

theorem forest_succ (o : Options) (levels budget : Nat) :
    forest o (levels + 1) budget = siblings o (forest o levels) none budget := rfl

/-- A run that agrees with a visit: the outcome is the same, and a walk that goes on stands behind
the forest. -/
structure Agrees (run : (Except ReadError Step × Collected) × Slice)
    (visited : Except ReadError Step × Collected) (behind : Slice) : Prop where
  outcome : run.1 = visited
  yearKnown : visited.2.YearKnown
  behind : visited.1 = .ok .proceed → run.2 = behind

/-- The walk over the octets of a row of siblings agrees with a visit, whatever was collected before
and whatever stands behind. -/
def Matches (o : Options) (levels : Nat) (row : Bytes) (visit : Forest.Visit) : Prop :=
  ∀ (handler : Option Handler) (pos : Nat) (c : Collected) (tail : Bytes), c.YearKnown →
    Agrees ((siblings o (forest o levels) handler row.length).exec c (Slice.mk pos (row ++ tail)))
      (visit handler pos c) ⟨pos + row.length, tail⟩

def Follows (o : Options) (levels : Nat) (f : Forest) : Prop :=
  Matches o levels f.octets (f.visit o levels)

section Agrees
variable {o : Options} {levels : Nat} {handler : Option Handler} {code : Code}
  {payload row tail : Bytes} {next : Forest.Visit} {pos : Nat} {c d : Collected}

/-- Behind an atom that is read to its end the walk goes on with the rest of the row. -/
theorem agrees_behind (hnext : Matches o levels row next) (hd : d.YearKnown)
    {handler' : Option Handler}
    (hstep : (siblings o (forest o levels) handler
        (Header.minSize + payload.length + row.length)).exec c
        (Slice.mk pos (Atom.octets code payload ++ (row ++ tail))) =
      (siblings o (forest o levels) handler' row.length).exec d
        ⟨pos + Header.minSize + payload.length, row ++ tail⟩) :
    Agrees ((siblings o (forest o levels) handler (Atom.octets code payload ++ row).length).exec c
        (Slice.mk pos ((Atom.octets code payload ++ row) ++ tail)))
      (next handler' (pos + Header.minSize + payload.length) d)
      ⟨pos + (Atom.octets code payload ++ row).length, tail⟩ := by
  have hrest := hnext handler' (pos + Header.minSize + payload.length) d tail hd
  rw [List.length_append, Atom.length_octets, List.append_assoc, hstep]
  simpa only [Nat.add_assoc] using hrest

theorem agrees_proceed (hnext : Matches o levels row next) (hd : d.YearKnown)
    (hfit : Header.minSize + payload.length < 2 ^ 32) (hk : Kind.ofCode code ≠ .handler)
    (hcontent : (content o (forest o levels) handler ⟨.ofCode code, false, payload.length⟩).exec c
      (Slice.mk (pos + Header.minSize) (payload ++ (row ++ tail))) =
        ((.ok .proceed, d), ⟨pos + Header.minSize + payload.length, row ++ tail⟩)) :
    Agrees ((siblings o (forest o levels) handler (Atom.octets code payload ++ row).length).exec c
        (Slice.mk pos ((Atom.octets code payload ++ row) ++ tail)))
      (next handler (pos + Header.minSize + payload.length) d)
      ⟨pos + (Atom.octets code payload ++ row).length, tail⟩ :=
  agrees_behind hnext hd (exec_siblings_proceed o _ handler code payload row.length pos c
    (row ++ tail) hfit hk hcontent)

theorem agrees_end (hd : d.YearKnown) (hfit : Header.minSize + payload.length < 2 ^ 32)
    (hk : Kind.ofCode code ≠ .handler) {t : Slice} {outcome : Except ReadError Step}
    (ho : outcome ≠ .ok .proceed)
    (hcontent : (content o (forest o levels) handler ⟨.ofCode code, false, payload.length⟩).exec c
      (Slice.mk (pos + Header.minSize) (payload ++ (row ++ tail))) = ((outcome, d), t)) :
    Agrees ((siblings o (forest o levels) handler (Atom.octets code payload ++ row).length).exec c
        (Slice.mk pos ((Atom.octets code payload ++ row) ++ tail)))
      (outcome, d) ⟨pos + (Atom.octets code payload ++ row).length, tail⟩ := by
  rw [List.length_append, Atom.length_octets, List.append_assoc, exec_siblings_end o _ handler code
    payload row.length pos c (row ++ tail) hfit hk ho hcontent]
  exact ⟨rfl, hd, fun h => absurd h ho⟩

end Agrees

section Matches
variable {o : Options} {levels : Nat} {row : Bytes} {next : Forest.Visit}

/-- Audio data is passed over until the number of samples is known. -/
theorem matches_mediaData (code : Code) (payload : Bytes) (hm : Kind.ofCode code = .mediaData)
    (hfit : Header.minSize + payload.length < 2 ^ 32) (hnext : Matches o levels row next) :
    Matches o levels (Atom.octets code payload ++ row) (Forest.visitLeaf o code payload next) := by
  intro handler pos c tail hc
  have hk : Kind.ofCode code ≠ .handler := by simp [hm]
  have hcontent : content o (forest o levels) handler ⟨.ofCode code, false, payload.length⟩ =
      mediaData ⟨.ofCode code, false, payload.length⟩ := by
    simp only [content, hm]
  by_cases hp : payload = []
  · simp only [Forest.visitLeaf, hm, if_pos hp]
    refine agrees_proceed hnext hc hfit hk ?_
    rw [hcontent, hp]
    rfl
  · have hread := exec_mediaData ⟨.ofCode code, false, payload.length⟩ c (pos + Header.minSize)
      payload (row ++ tail) rfl hp
    rw [← hcontent] at hread
    have hd : (c.addAudio payload.length).YearKnown := hc
    by_cases hs : 0 < (c.addAudio payload.length).track.audio.samples
    · rw [if_pos hs] at hread
      simp only [Forest.visitLeaf, hm, if_neg hp, if_pos hs]
      exact agrees_end hd hfit hk (by simp) hread
    · rw [if_neg hs] at hread
      simp only [Forest.visitLeaf, hm, if_neg hp, if_neg hs]
      exact agrees_proceed hnext hd hfit hk hread

theorem matches_leaf (code : LeafCode) (payload : Bytes)
    (hfit : Header.minSize + payload.length < 2 ^ 32) (hnext : Matches o levels row next) :
    Matches o levels (Atom.octets code payload ++ row) (Forest.visitLeaf o code payload next) := by
  by_cases hm : Kind.ofCode code = .mediaData
  · exact matches_mediaData code payload hm hfit hnext
  · intro handler pos c tail hc
    by_cases hh : Kind.ofCode code = .handler
    · rw [Forest.visitLeaf, hh]
      exact agrees_behind hnext hc (exec_siblings_handler o _ handler code payload
        row.length pos c (row ++ tail) hfit hh)
    · have hd : (Content.apply o (.ofCode code) payload c).YearKnown :=
        hc.of_eq (by rw [Content.tags_apply]) (by rw [Content.tags_apply])
      rw [Forest.visitLeaf_apply o code payload next handler pos c hh hm]
      exact agrees_proceed hnext hd hfit hh (exec_content_leaf _ c (pos + Header.minSize) payload
        (row ++ tail) o _ handler rfl code.property hm)

theorem matches_tagList {payload : Bytes} {effect : Nat → Collected → Collected}
    (heffect : TagList.Effect o payload effect) (hfit : Header.minSize + payload.length < 2 ^ 32)
    (hnext : Matches o levels row next) :
    Matches o levels (Atom.octets Kind.tagList.code payload ++ row)
      (Forest.visitTagList payload.length effect next) := by
  intro handler pos c tail hc
  have hkind : Kind.ofCode Kind.tagList.code = .tagList := by decide
  have hd : (if handler = some .directory then effect (pos + Header.minSize) c else c).YearKnown := by
    split
    · exact heffect.yearKnown _ c hc
    · exact hc
  have hcontent := exec_content_tagEffect o (forest o levels) handler payload (pos + Header.minSize)
    c (row ++ tail) heffect hc
  rw [← hkind] at hcontent
  exact agrees_proceed hnext hd hfit (by decide) hcontent

/-- A container is followed if what is in it is followed with one level less. -/
theorem matches_container {inner : Bytes} {visit : Nat → Forest.Visit} (kind : Container)
    (fixed : Vector UInt8 kind.fixedSize)
    (hfit : Header.minSize + (fixed.toList ++ inner).length < 2 ^ 32)
    (hinner : ∀ left, levels = left + 1 → Matches o left inner (visit left))
    (hnext : Matches o levels row next) :
    Matches o levels (Atom.octets kind.kind.code (fixed.toList ++ inner) ++ row)
      (Forest.visitContainer kind fixed.toList.length inner.length visit levels next) := by
  intro handler pos c tail hc
  have hkind : Kind.ofCode kind.kind.code = kind.kind := by cases kind <;> decide
  have hh : Kind.ofCode kind.kind.code ≠ .handler := by cases kind <;> decide
  have hcontent := exec_content_container o (forest o levels) handler (pos + Header.minSize) c
    (row ++ tail) kind fixed inner
  have hbehind : pos + Header.minSize + fixed.toList.length + inner.length =
      pos + Header.minSize + (fixed.toList ++ inner).length := by
    rw [List.length_append]
    omega
  rw [← hkind] at hcontent
  by_cases hskip : kind = .mediaInfo ∧ handler ≠ some .sound
  · rw [if_pos hskip] at hcontent
    rw [Forest.visitContainer, if_pos hskip, hbehind]
    exact agrees_proceed hnext hc hfit hh hcontent
  · rw [if_neg hskip] at hcontent
    rw [Forest.visitContainer, if_neg hskip]
    cases levels with
    | zero =>
      rw [if_pos rfl]
      exact agrees_end hc hfit hh (by simp) hcontent
    | succ left =>
      have hrun := hinner left rfl none (pos + Header.minSize + fixed.toList.length) c
        (row ++ tail) hc
      rw [← forest_succ] at hrun
      rw [if_neg (by simp), Nat.add_sub_cancel]
      rcases hv : visit left none (pos + Header.minSize + fixed.toList.length) c with ⟨outcome, d⟩
      rw [hv] at hrun
      obtain ⟨t, ht⟩ : ∃ t, (forest o (left + 1) inner.length).exec c
          (Slice.mk (pos + Header.minSize + fixed.toList.length)
            (inner ++ (row ++ tail))) = ((outcome, d), t) :=
        ⟨_, Prod.ext hrun.outcome rfl⟩
      rw [ht] at hcontent
      obtain e | step := outcome
      · exact agrees_end hrun.yearKnown hfit hh (by simp) hcontent
      cases step with
      | proceed =>
        have hstand : t = ⟨pos + Header.minSize + (fixed.toList ++ inner).length,
            row ++ tail⟩ := by
          rw [← hbehind, ← hrun.behind rfl, ht]
        rw [hstand] at hcontent
        rw [hbehind]
        exact agrees_proceed hnext hrun.yearKnown hfit hh hcontent
      | stop => exact agrees_end hrun.yearKnown hfit hh (by simp) hcontent

end Matches

theorem follows (o : Options) (f : Forest) (hf : f.WellSized) (levels : Nat) :
    Follows o levels f := by
  induction f generalizing levels with
  | nil =>
    intro handler pos c tail hc
    have hnil := exec_siblings_nil o (forest o levels) handler c ⟨pos, tail⟩
    exact ⟨congrArg Prod.fst hnil, hc, fun _ => congrArg Prod.snd hnil⟩
  | leaf code payload next ih => exact matches_leaf code payload hf.1 (ih hf.2 levels)
  | tagList tags next ih =>
    exact matches_tagList (TagList.effect_applyAll o tags hf.1) hf.1 (ih hf.2 levels)
  | container kind fixed inner next ihInner ihNext =>
    exact matches_container kind fixed hf.1 (fun left _ => ihInner hf.2.1 left)
      (ihNext hf.2.2 levels)

/-- The walk over a file in which every atom declares its true size is the fold over its atom tree.
It fails only where containers are nested too deeply. -/
theorem walk_eq_visit (o : Options) (f : Forest) (hf : f.WellSized) :
    let run := (walk o f.octets.length).exec (.start o) (Slice.ofBytes f.octets)
    run.1 = f.visit o (maxDepth - 1) none 0 (.start o) ∧
      ∀ e, run.1.1 = .error e → e = .tooDeep ∧ maxDepth ≤ f.depth := by
  intro run
  have hrun := (follows o f hf (maxDepth - 1) none 0 (.start o) [] rfl).outcome
  rw [List.append_nil] at hrun
  refine ⟨hrun, fun e he => ?_⟩
  have hvisit : (f.visit o (maxDepth - 1) none 0 (.start o)).1 = .error e := by
    rw [← hrun]
    exact he
  obtain ⟨hdeep, hlevels⟩ := Forest.visit_error hvisit
  exact ⟨hdeep, by simp only [maxDepth] at hlevels ⊢; omega⟩

/-- A file with a tag list inside three containers. -/
theorem walk_eq_visit_titled :
    let title : TagAtom := ⟨Kind.title.code, List.replicate 16 0 ++ [65]⟩
    let handler : Bytes := List.replicate 8 0 ++ (Code.ofChars 'm' 'd' 'i' 'r').toBytes
    let file : Forest :=
      .leaf ⟨Kind.fileType.code, by decide⟩ (Code.ofChars 'M' '4' 'A' ' ').toBytes
        (.container .movie #v[]
          (.container .userData #v[]
            (.container .metadata #v[0, 0, 0, 0]
              (.leaf ⟨Kind.handler.code, by decide⟩ handler (.tagList [title] .nil)) .nil) .nil)
          (.leaf ⟨Kind.mediaData.code, by decide⟩ [1] .nil))
    file.WellSized ∧
      ((walk {} file.octets.length).exec (.start {}) (Slice.ofBytes file.octets)).1 =
        file.visit {} (maxDepth - 1) none 0 (.start {}) :=
  ⟨by decide, (walk_eq_visit {} _ (by decide)).1⟩

end Walk

end AudioAtoms
