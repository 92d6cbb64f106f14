import AudioAtoms.Proofs.Containment
import AudioAtoms.Proofs.Truncation
import AudioAtoms.Proofs.WalkVisit

/-!
# A file with true sizes has all its octets

Where every atom declares its true size, no request of the walk asks for more octets than there
are. What a leaf asks for lies in its own payload, and behind a payload the walk stands in front of
the next atom.
-/
namespace AudioAtoms

namespace Collect
variable {ε α β : Type} {p : Collect ε false α} {c : Collected} {s : Slice}

theorem Admits.enough {u : ε} (hp : p.Admits u) (hq : p.Quiet) (h : (p.exec c s).1.1 ≠ .error u) :
    p.Enough c s :=
  (hp c s).mpr ⟨h, (hq c).not_cut s⟩

theorem enough_bind {f : α → Collect ε false β} (hp : p.Enough c s)
    (hf : ∀ a d t, p.exec c s = ((.ok a, d), t) → (f a).Enough d t) : (p >>= f).Enough c s := by
  rcases hr : p.exec c s with ⟨⟨e | a, d⟩, t⟩
  · exact (enough_bind_error hr).mpr hp
  · exact (enough_bind_ok hr).mpr ⟨hp, hf a d t hr⟩

/-- The reader asks for nothing beyond the next `n` octets. -/
structure Within (n : Nat) (p : Collect ε false α) : Prop where
  enough : ∀ c (s : Slice), n ≤ s.rest.length → p.Enough c s

theorem within_pure (n : Nat) (a : α) : (pure a : Collect ε false α).Within n :=
  ⟨fun _ _ _ => trivial⟩

theorem within_modify (n : Nat) (g : Collected → Collected) :
    (modify g : Collect ε false Unit).Within n :=
  ⟨fun _ _ _ => trivial⟩

theorem within_note (n : Nat) (m : Notice) : (note m : Collect ε false Unit).Within n :=
  ⟨fun _ _ _ => trivial⟩

theorem within_get (n : Nat) : (get : Collect ε false Collected).Within n :=
  ⟨fun _ _ _ => trivial⟩

/-- Behind the octets only what asks for none may follow. -/
theorem Within.bind {n : Nat} {f : α → Collect ε false β} (hp : p.Within n)
    (hf : ∀ a, (f a).Within 0) : (p >>= f).Within n :=
  ⟨fun c s hs => enough_bind (hp.enough c s hs) fun a d t _ =>
    (hf a).enough d t (Nat.zero_le _)⟩

end Collect

namespace Walk
open Collect
variable {α : Type} {o : Options} {child : Nat → Walk Step} {handler : Option Handler}

theorem within_skip (n : Nat) : (skip n).Within n :=
  ⟨fun _ _ hs => enough_lift.mpr (enough_read.mpr ⟨hs, trivial⟩)⟩

theorem within_pass (h : Header) : (pass h).Within h.dataSize :=
  (within_skip _).bind fun _ => within_pure _ _

theorem within_leaf (h : Header) {p : Read true α} (hp : p.Watchful) :
    (leaf h p).Within h.dataSize := by
  refine ⟨fun c s hs => ?_⟩
  rw [leaf, Walk.read, enough_lift, enough_read, Leaf.run_read]
  exact ((Leaf.closes h.kind).run_enough hp.candid hs).1

theorem within_sampleTable (h : Header) : (sampleTable h).Within h.dataSize := by
  refine (within_leaf h (SampleRun.strict_readTable _).watchful).bind ?_
  rintro (_ | runs)
  · exact within_pure _ _
  · exact (within_modify _ _).bind fun _ => within_pure _ _

theorem within_aacEntry (h : Header) : (aacEntry o h).Within h.dataSize := by
  refine (within_leaf h (SampleEntry.watchful_aac _)).bind ?_
  rintro (_ | _ | stream)
  · exact within_pure _ _
  · exact within_pure _ _
  · exact (within_modify _ _).bind fun _ => within_pure _ _

theorem within_alacEntry (h : Header) : (alacEntry h).Within h.dataSize := by
  refine (within_leaf h (SampleEntry.strict_alac _).watchful).bind ?_
  rintro (_ | _ | rate)
  · exact within_pure _ _
  · exact within_pure _ _
  · exact (within_modify _ _).bind fun _ => within_pure _ _

theorem within_chapterList (h : Header) : (chapterList h).Within h.dataSize := by
  refine (within_leaf h Leaf.strict_firstChapter.watchful).bind ?_
  rintro (_ | _ | tick)
  · exact within_pure _ _
  · exact within_pure _ _
  · exact (within_get _).bind fun _ => (within_note _ _).bind fun _ =>
      (within_modify _ _).bind fun _ => within_pure _ _

theorem within_fileType (h : Header) : (fileType h).Within h.dataSize :=
  (within_leaf h Leaf.strict_brand.watchful).bind fun _ =>
    (within_modify _ _).bind fun _ => within_pure _ _

theorem within_mediaData (h : Header) : (mediaData h).Within h.dataSize := by
  unfold mediaData
  by_cases h0 : h.dataSize = 0
  · rw [if_pos h0]
    exact within_pure _ _
  · rw [if_neg h0]
    refine ⟨fun c s hs => ?_⟩
    refine (enough_bind_ok (exec_modifyAudio _ c s)).mpr ⟨trivial, ?_⟩
    refine (enough_bind_ok (exec_get _ s)).mpr ⟨trivial, ?_⟩
    split
    · trivial
    · exact (within_pass h).enough _ s hs

/-- A leaf asks for nothing outside its payload. -/
theorem within_content_leaf (h : Header) (hleaf : h.kind.isLeaf = true) :
    (content o child handler h).Within h.dataSize := by
  obtain ⟨kind, wide, dataSize⟩ := h
  cases kind with
  | movie | userData | track | media | mediaInfo | sampleTable | sampleDescription | metadata
  | tagList => cases hleaf
  | mediaData => exact within_mediaData _
  | timeToSample => exact within_sampleTable _
  | aacEntry => exact within_aacEntry _
  | alacEntry => exact within_alacEntry _
  | chapterList => exact within_chapterList _
  | fileType => exact within_fileType _
  | _ => exact within_pass _

theorem enough_content_tagList (tags : List TagAtom) (c : Collected) (pos : Nat) (tail : Bytes)
    (hfit : Header.minSize + (TagList.octets tags).length < 2 ^ 32) :
    (content o child handler ⟨.tagList, false, (TagList.octets tags).length⟩).Enough c
      ⟨pos, TagList.octets tags ++ tail⟩ := by
  have hread := TagList.exec_read_octets o tags c pos tail (TagList.fits_of_length hfit)
  have hrun : (TagList.read o (TagList.octets tags).length :
      Collect StreamError false Unit).Enough c ⟨pos, TagList.octets tags ++ tail⟩ := by
    refine (TagList.admits_read o _).enough (TagList.quiet_read o _) ?_
    rw [hread]
    nofun
  simp only [content]
  split
  · exact enough_bind (enough_lift.mpr hrun) fun _ _ _ _ => trivial
  · exact (within_pass _).enough c _ (by simp)

/-- A container asks for its fixed octets, and for what the atoms in it ask for. -/
theorem enough_content_container (kind : Container) (fixed : Vector UInt8 kind.fixedSize)
    (inner : Bytes) (c : Collected) (pos : Nat) (tail : Bytes)
    (hchild : (child inner.length).Enough c ⟨pos + fixed.toList.length, inner ++ tail⟩) :
    (content o child handler ⟨kind.kind, false, (fixed.toList ++ inner).length⟩).Enough c
      ⟨pos, (fixed.toList ++ inner) ++ tail⟩ := by
  rw [content_container]
  split
  · exact (within_pass _).enough c _ (by simp)
  · split
    · have hnil : fixed.toList = [] :=
        List.eq_nil_of_length_eq_zero (fixed.length_toList.trans ‹_›)
      rw [hnil] at hchild ⊢
      exact hchild
    · have hskip := exec_read_ok (Slice.exec_skip_append pos fixed.toList (inner ++ tail)) c
      rw [List.append_assoc]
      exact (enough_bind_ok hskip).mpr ⟨(within_skip _).enough c _ (by simp), hchild⟩

section Step
variable {code : Code} {payload tail : Bytes} {left pos : Nat} {c : Collected}
  (hfit : Header.minSize + payload.length < 2 ^ 32)
include hfit

theorem enough_siblings_atom {handler : Option Handler}
    (hatom : (atom o child handler ⟨.ofCode code, false, payload.length⟩ >>= fun visited =>
        match visited.1 with
        | .stop => pure .stop
        | .proceed => siblings o child visited.2 left).Enough c
          ⟨pos + Header.minSize, payload ++ tail⟩) :
    (siblings o child handler (Header.minSize + payload.length + left)).Enough c
      ⟨pos, Atom.octets code payload ++ tail⟩ := by
  have hheader := Header.exec_read_octets code payload (Header.minSize + payload.length + left) pos
    tail hfit
  have henough : (read (Header.read (Header.minSize + payload.length + left))).Enough c
      ⟨pos, Atom.octets code payload ++ tail⟩ := by
    refine enough_lift.mpr ((admits_header _).enough (quiet_read (Header.strict_read _)) ?_)
    rw [exec_read, hheader]
    nofun
  have hleave : (Header.mk (.ofCode code) false payload.length).leave
      (Header.minSize + payload.length + left) = left := Nat.add_sub_cancel_left _ _
  rw [siblings, dif_pos (by omega)]
  refine (enough_bind_ok (exec_read_ok hheader c)).mpr ⟨henough, ?_⟩
  rw [hleave]
  exact hatom

theorem enough_siblings_handler (hk : Kind.ofCode code = .handler)
    (hrest : (siblings o child (Content.handler? payload) left).Enough c
      ⟨pos + Header.minSize + payload.length, tail⟩) :
    (siblings o child handler (Header.minSize + payload.length + left)).Enough c
      ⟨pos, Atom.octets code payload ++ tail⟩ := by
  have hleaf := exec_leaf ⟨.handler, false, payload.length⟩ c (pos + Header.minSize) payload tail
    Leaf.strict_handler.watchful rfl
  rw [Leaf.result_handler] at hleaf
  refine enough_siblings_atom hfit ?_
  rw [hk, atom, if_pos rfl, bind_assoc]
  exact (enough_bind_ok hleaf).mpr
    ⟨(within_leaf _ Leaf.strict_handler.watchful).enough c _ (by simp), hrest⟩

theorem enough_siblings_content (hk : Kind.ofCode code ≠ .handler)
    (hcontent : (content o child handler ⟨.ofCode code, false, payload.length⟩).Enough c
      ⟨pos + Header.minSize, payload ++ tail⟩)
    (hrest : ∀ d t, (content o child handler ⟨.ofCode code, false, payload.length⟩).exec c
        (Slice.mk (pos + Header.minSize) (payload ++ tail)) = ((.ok .proceed, d), t) →
      (siblings o child handler left).Enough d t) :
    (siblings o child handler (Header.minSize + payload.length + left)).Enough c
      ⟨pos, Atom.octets code payload ++ tail⟩ := by
  refine enough_siblings_atom hfit ?_
  rw [atom, if_neg hk, bind_assoc]
  refine enough_bind hcontent ?_
  rintro (_ | _) d t hr
  · exact hrest d t hr
  · trivial

end Step

/-- The walk over a row of siblings finds all octets that it asks for, whatever was collected
before and whatever stands behind the row. -/
structure Served (o : Options) (levels : Nat) (f : Forest) : Prop where
  enough : ∀ (handler : Option Handler) (pos : Nat) (c : Collected) (tail : Bytes), c.YearKnown →
    (siblings o (forest o levels) handler f.octets.length).Enough c ⟨pos, f.octets ++ tail⟩

section Served
variable {levels : Nat} {code : Code} {payload tail : Bytes} {next : Forest} {pos : Nat}
  {c : Collected}

/-- Behind an atom that is read to its end the rest of the row is asked for. -/
theorem enough_proceed (hnext : Served o levels next)
    (hfit : Header.minSize + payload.length < 2 ^ 32) (hk : Kind.ofCode code ≠ .handler)
    (hcontent : (content o (forest o levels) handler ⟨.ofCode code, false, payload.length⟩).Enough c
      ⟨pos + Header.minSize, payload ++ (next.octets ++ tail)⟩)
    (hbehind : ∀ d t, (content o (forest o levels) handler
        ⟨.ofCode code, false, payload.length⟩).exec c
        (Slice.mk (pos + Header.minSize) (payload ++ (next.octets ++ tail))) =
          ((.ok .proceed, d), t) →
      d.YearKnown ∧ t = ⟨pos + Header.minSize + payload.length, next.octets ++ tail⟩) :
    (siblings o (forest o levels) handler (Atom.octets code payload ++ next.octets).length).Enough c
      ⟨pos, (Atom.octets code payload ++ next.octets) ++ tail⟩ := by
  rw [List.length_append, Atom.length_octets, List.append_assoc]
  refine enough_siblings_content hfit hk hcontent fun d t hrun => ?_
  obtain ⟨hd, rfl⟩ := hbehind d t hrun
  exact hnext.enough handler _ d tail hd

end Served

/-- A leaf that the walk gets through leaves the tags alone. -/
theorem behind_content_leaf {h : Header} {c d : Collected} {pos : Nat} {bs tail : Bytes} {t : Slice}
    (hb : h.dataSize = bs.length) (hleaf : h.kind.isLeaf = true)
    (hrun : (content o child handler h).exec c (Slice.mk pos (bs ++ tail)) =
      ((.ok .proceed, d), t)) :
    d.track.tags = c.track.tags ∧ t = ⟨pos + bs.length, tail⟩ := by
  by_cases hm : h.kind = .mediaData
  · have hcontent : content o child handler h = mediaData h := by simp only [content, hm]
    rw [hcontent] at hrun
    by_cases hp : bs = []
    · have hzero : h.dataSize = 0 := by rw [hb, hp, List.length_nil]
      rw [mediaData, if_pos hzero, hp] at hrun
      cases hrun
      exact ⟨rfl, by rw [hp, List.length_nil, Nat.add_zero, List.nil_append]⟩
    · rw [exec_mediaData h c pos bs tail hb hp] at hrun
      split at hrun
      · cases hrun
      · cases hrun
        exact ⟨rfl, rfl⟩
  · rw [exec_content_leaf h c pos bs tail o child handler hb hleaf hm] at hrun
    cases hrun
    exact ⟨Content.tags_apply o _ bs c, rfl⟩

theorem served_leaf {levels : Nat} {next : Forest} (code : LeafCode) (payload : Bytes)
    (hfit : Header.minSize + payload.length < 2 ^ 32) (hnext : Served o levels next) :
    Served o levels (.leaf code payload next) := by
  refine ⟨fun handler pos c tail hc => ?_⟩
  by_cases hh : Kind.ofCode code = .handler
  · rw [Forest.octets, List.length_append, Atom.length_octets, List.append_assoc]
    exact enough_siblings_handler hfit hh (hnext.enough _ _ c tail hc)
  · refine enough_proceed hnext hfit hh ?_ fun d t hrun => ?_
    · exact (within_content_leaf _ code.property).enough c _ (by simp)
    · obtain ⟨htags, ht⟩ := behind_content_leaf rfl code.property hrun
      exact ⟨hc.of_eq (by rw [htags]) (by rw [htags]), ht⟩

theorem served_tagList {levels : Nat} {next : Forest} (tags : List TagAtom)
    (hfit : Header.minSize + (TagList.octets tags).length < 2 ^ 32)
    (hnext : Served o levels next) : Served o levels (.tagList tags next) := by
  refine ⟨fun handler pos c tail hc => ?_⟩
  have hkind : Kind.ofCode Kind.tagList.code = .tagList := by decide
  refine enough_proceed hnext hfit (by decide) ?_ fun d t hrun => ?_
  · rw [hkind]
    exact enough_content_tagList tags c _ _ hfit
  · rw [hkind, exec_content_tagList o _ handler _ c _ tags hc hfit] at hrun
    cases hrun
    refine ⟨?_, rfl⟩
    split
    · exact TagContent.yearKnown_applyAll o _ tags c hc
    · exact hc

/-- A container is served if what is in it is served with one level less. -/
theorem served_container {levels : Nat} {inner next : Forest} (kind : Container)
    (fixed : Vector UInt8 kind.fixedSize)
    (hfit : Header.minSize + (fixed.toList ++ inner.octets).length < 2 ^ 32)
    (hfollows : ∀ left, Follows o left inner) (hinner : ∀ left, Served o left inner)
    (hnext : Served o levels next) : Served o levels (.container kind fixed inner next) := by
  refine ⟨fun handler pos c tail hc => ?_⟩
  have hkind : Kind.ofCode kind.kind.code = kind.kind := by cases kind <;> decide
  refine enough_proceed hnext hfit (by cases kind <;> decide) ?_ fun d t hrun => ?_
  · rw [hkind]
    refine enough_content_container kind fixed inner.octets c _ _ ?_
    cases levels with
    | zero => trivial
    | succ left => exact (hinner left).enough none _ c _ hc
  · rw [hkind, exec_content_container] at hrun
    split at hrun
    · cases hrun
      exact ⟨hc, rfl⟩
    · cases levels with
      | zero => cases hrun
      | succ left =>
        rw [forest_succ] at hrun
        have hrest := hfollows left none (pos + Header.minSize + fixed.toList.length) c
          (next.octets ++ tail) hc
        rw [hrun] at hrest
        have hvisited := hrest.outcome
        have hd := hrest.yearKnown
        rw [← hvisited] at hd
        refine ⟨hd, (hrest.behind (by rw [← hvisited])).trans ?_⟩
        rw [List.length_append, Nat.add_assoc (pos + Header.minSize)]

theorem served (o : Options) (f : Forest) (hf : f.WellSized) (levels : Nat) :
    Served o levels f := by
  induction f generalizing levels with
  | nil =>
    refine ⟨fun handler pos c tail _ => ?_⟩
    rw [Forest.octets, siblings, dif_neg (by decide)]
    exact ((within_skip _).bind fun _ => within_pure _ _).enough c _ (Nat.zero_le _)
  | leaf code payload next ih => exact served_leaf code payload hf.1 (ih hf.2 levels)
  | tagList tags next ih => exact served_tagList tags hf.1 (ih hf.2 levels)
  | container kind fixed inner next ihInner ihNext =>
    exact served_container kind fixed hf.1 (follows o inner hf.2.1) (ihInner hf.2.1)
      (ihNext hf.2.2 levels)

/-- A file with true sizes has all the octets that the walk asks for, wherever it starts. -/
theorem enough_walk (o : Options) (f : Forest) (hf : f.WellSized) (pos : Nat) :
    (walk o f.octets.length).Enough (.start o) ⟨pos, f.octets⟩ := by
  have henough := (served o f hf (maxDepth - 1)).enough none pos (.start o) [] rfl
  rw [List.append_nil] at henough
  exact henough

end Walk

end AudioAtoms
