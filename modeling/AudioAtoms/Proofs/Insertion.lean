import AudioAtoms.Proofs.Artwork
import AudioAtoms.Proofs.WalkVisit

/-!
# Atoms that are passed over

An atom that nobody reads may be put between any two atoms of a file. Nobody reads an atom of a
kind without a reader where it stands, and nobody reads an atom with a 64-bit size, of whatever
kind. The file with such an atom has the record of the file without it, but for the position of a
cover image that stands behind.

The proof goes over the file once. Up to the gap both files are visited alike, and no image found
so far stands behind the gap. From the gap on one file is visited `n` octets further back.
-/
namespace AudioAtoms

namespace Kind

def isWalked : Kind → Bool
  | movie | userData | track | media | mediaInfo | sampleTable | sampleDescription | metadata
  | tagList | handler | timeToSample | aacEntry | alacEntry | mediaData | chapterList | fileType =>
    true
  | _ => false

def isTag (o : Options) : Kind → Bool
  | title | artist | albumArtist | album | composer | comment | customGenre | grouping | date
  | genre | trackNumber | discNumber | freeform => true
  | cover => o.findArtwork
  | _ => false

end Kind

inductive Filler where
  | plain (code : Code) (payload : Bytes)
  | wide (code : Code) (payload : Bytes)

namespace Filler

def octets : Filler → Bytes
  | plain code payload => Atom.octets code payload
  | wide code payload =>
    Bytes.ofNat 4 1 ++ (code.toBytes ++
      (Bytes.ofNat 8 (Header.minSize + 8 + payload.length) ++ payload))

/-- Its size fits into the octets it has, and it has a wide size or is of a kind that is not
read. -/
def Unread (isRead : Kind → Bool) : Filler → Prop
  | plain code payload =>
    isRead (.ofCode code) = false ∧ Header.minSize + payload.length < 2 ^ 32
  | wide _ payload => Header.minSize + 8 + payload.length < 2 ^ 64

instance (isRead : Kind → Bool) : (x : Filler) → Decidable (x.Unread isRead)
  | plain code payload =>
    inferInstanceAs (Decidable
      (isRead (.ofCode code) = false ∧ Header.minSize + payload.length < 2 ^ 32))
  | wide _ payload => inferInstanceAs (Decidable (Header.minSize + 8 + payload.length < 2 ^ 64))

def payload : Filler → Bytes
  | plain _ payload | wide _ payload => payload

def header : Filler → Header
  | plain code payload => ⟨.ofCode code, false, payload.length⟩
  | wide _ payload => ⟨.other ⟨0, 0, 0, 0⟩, true, payload.length⟩

theorem length_octets (x : Filler) : x.octets.length = x.header.size := by
  cases x with
  | plain code payload => exact Atom.length_octets code payload
  | wide code payload =>
    simp only [octets, List.length_append, Bytes.length_ofNat, Code.toBytes, List.length_cons,
      List.length_nil, header, Header.size, Header.ownSize, Header.minSize, if_true]
    omega

theorem dataSize_header (x : Filler) : x.header.dataSize = x.payload.length := by
  cases x <;> rfl

theorem minSize_le (x : Filler) : Header.minSize ≤ x.octets.length := by
  rw [length_octets]
  exact x.header.minSize_le_size

/-- Behind header and payload stands what follows the atom. -/
theorem pos_behind (x : Filler) (pos : Nat) :
    pos + x.header.ownSize + x.payload.length = pos + x.octets.length := by
  rw [length_octets, Header.size, dataSize_header, Nat.add_assoc]

variable {isRead : Kind → Bool} {x : Filler}

theorem exec_header (hx : x.Unread isRead) (budget pos : Nat) (tail : Bytes) :
    (Header.read budget : Read false Header).exec (Slice.mk pos (x.octets ++ tail)) =
      (.ok x.header, ⟨pos + x.header.ownSize, x.payload ++ tail⟩) := by
  cases x with
  | plain code payload => exact Header.exec_read_octets code payload budget pos tail hx.2
  | wide code payload =>
    have hfit : Header.minSize + 8 + payload.length < 2 ^ 64 := hx
    have hoctets : (wide code payload).octets ++ tail =
        Header.wideOctets code payload.length ++ (payload ++ tail) := by
      simp only [octets, Header.wideOctets, Header.minSize, List.append_assoc]
    have hheader := Header.ofOctets_wideOctets budget code (payload ++ tail) hfit
    rw [hoctets]
    exact Header.exec_read_append hheader rfl

end Filler

namespace Walk
variable (o : Options) (child : Nat → Walk Step) (handler : Option Handler)

theorem content_unread {h : Header} (hk : h.kind.isWalked = false) :
    content o child handler h = pass h := by
  obtain ⟨kind, wide, dataSize⟩ := h
  cases kind with
  | movie | userData | track | media | mediaInfo | sampleTable | sampleDescription | metadata
  | tagList | handler | timeToSample | aacEntry | alacEntry | mediaData | chapterList | fileType =>
    cases hk
  | _ => rfl

theorem isWalked_filler {x : Filler} (hx : x.Unread Kind.isWalked) :
    x.header.kind.isWalked = false := by
  cases x with
  | plain code payload => exact hx.1
  | wide code payload => rfl

/-- The walk passes over an atom that is not read, and goes on behind it. -/
theorem exec_siblings_filler {x : Filler} (hx : x.Unread Kind.isWalked) (left pos : Nat)
    (c : Collected) (tail : Bytes) :
    (siblings o child handler (x.octets.length + left)).exec c
        (Slice.mk pos (x.octets ++ tail)) =
      (siblings o child handler left).exec c ⟨pos + x.octets.length, tail⟩ := by
  have hkind := isWalked_filler hx
  have hhandler : x.header.kind ≠ .handler := by
    intro h
    rw [h] at hkind
    cases hkind
  have hpass := exec_pass x.header c (pos + x.header.ownSize) x.payload tail x.dataSize_header
  rw [x.length_octets, exec_siblings_header o child handler left c x.header
    (Filler.exec_header hx _ pos tail), atom, if_neg hhandler, content_unread o child handler hkind,
    bind_assoc, Collect.exec_bind_ok hpass, x.pos_behind, x.length_octets]
  rfl

end Walk

namespace TagList
variable {o : Options} {x : Filler}

theorem apply_unread {kind : Kind} (hk : kind.isTag o = false) (pos : Nat) (bs : Bytes)
    (c : Collected) : TagContent.apply o kind pos bs c = c := by
  cases kind with
  | title | artist | albumArtist | album | composer | comment | customGenre | grouping | date
  | genre | trackNumber | discNumber | freeform => cases hk
  | cover =>
    have hfind : o.findArtwork = false := hk
    rw [TagContent.apply, hfind]
    rfl
  | _ => rfl

/-- An atom in a tag list has its effect, and the list goes on behind it. -/
theorem exec_read_atom {isRead : Kind → Bool} (hx : x.Unread isRead) (left pos : Nat)
    (c : Collected) (tail : Bytes) :
    (read o (x.octets.length + left) : Collect StreamError false Unit).exec c
        (Slice.mk pos (x.octets ++ tail)) =
      (read o left : Collect StreamError false Unit).exec
        (TagContent.apply o x.header.kind (pos + x.header.ownSize) x.payload c)
        (Slice.mk (pos + x.octets.length) tail) := by
  have hsize := x.minSize_le
  have hheader := Filler.exec_header hx (x.octets.length + left) pos tail
  have htag := exec_readTag_apply o x.header c (pos + x.header.ownSize) x.payload tail
    x.dataSize_header
  have hleave : x.header.leave (x.octets.length + left) = left := by
    rw [x.length_octets]
    exact Nat.add_sub_cancel_left _ _
  rw [x.pos_behind] at htag
  rw [read, dif_pos (by omega), Collect.exec_bind_ok (Collect.exec_read_ok hheader c),
    Collect.exec_bind_ok htag, hleave]

/-- A tag list passes over an atom that is not read, and goes on behind it. -/
theorem exec_read_filler (hx : x.Unread (Kind.isTag o)) (left pos : Nat) (c : Collected)
    (tail : Bytes) :
    (read o (x.octets.length + left) : Collect StreamError false Unit).exec c
        (Slice.mk pos (x.octets ++ tail)) =
      (read o left : Collect StreamError false Unit).exec c
        (Slice.mk (pos + x.octets.length) tail) := by
  have hkind : x.header.kind.isTag o = false := by
    cases x with
    | plain code payload => exact hx.1
    | wide code payload => rfl
  rw [exec_read_atom hx, apply_unread hkind]

theorem octets_append (front back : List TagAtom) :
    octets (front ++ back) = octets front ++ octets back := by
  induction front with
  | nil => rfl
  | cons tag front ih => rw [List.cons_append, octets, octets, ih, List.append_assoc]

theorem eq_nil_of_length {tags : List TagAtom} (h : (octets tags).length < Header.minSize) :
    tags = [] := by
  cases tags with
  | nil => rfl
  | cons tag tags =>
    rw [octets, List.length_append, Atom.length_octets] at h
    omega

/-- Tags with an atom between them that is not read have their effects, the later ones further
back. -/
theorem effect_filled (front back : List TagAtom) (hx : x.Unread (Kind.isTag o))
    (hfit : Header.minSize + (octets (front ++ back)).length < 2 ^ 32) :
    Effect o (octets front ++ (x.octets ++ octets back)) fun pos c =>
      TagContent.applyAll o (pos + (octets front).length + x.octets.length) back
        (TagContent.applyAll o pos front c) where
  read c pos tail := by
    have hlen : (octets front ++ (x.octets ++ octets back)).length =
        (octets front).length + (x.octets.length + (octets back).length) := by
      rw [List.length_append, List.length_append]
    have hbehind : pos + (octets front).length + x.octets.length + (octets back).length =
        pos + ((octets front).length + (x.octets.length + (octets back).length)) := by omega
    rw [octets_append, List.length_append] at hfit
    rw [hlen, List.append_assoc, List.append_assoc,
      exec_read_front o front _ c pos _ (fits_of_length (by omega)), exec_read_filler hx,
      exec_read_octets o back _ _ tail (fits_of_length (by omega)), hbehind]
  short hs pos c _ := by
    have hx := x.minSize_le
    have hpos : 0 < Header.minSize := by decide
    rw [List.length_append, List.length_append] at hs
    have hfront : front = [] := eq_nil_of_length (by omega)
    have hback : back = [] := eq_nil_of_length (by omega)
    rw [hfront, hback]
    rfl
  yearKnown pos c hc :=
    TagContent.yearKnown_applyAll o _ back _ (TagContent.yearKnown_applyAll o pos front c hc)

end TagList

/-- A forest with a gap: in front of one of its rows or behind an atom of it, or between two
tags. -/
inductive Gap where
  | before (row : Forest)
  | behindLeaf (code : LeafCode) (payload : Bytes) (next : Gap)
  | behindTagList (tags : List TagAtom) (next : Gap)
  | behindContainer (kind : Container) (fixed : Vector UInt8 kind.fixedSize) (inner : Forest)
      (next : Gap)
  | amongTags (front back : List TagAtom) (next : Forest)
  | inside (kind : Container) (fixed : Vector UInt8 kind.fixedSize) (inner : Gap) (next : Forest)

namespace Gap

def closed : Gap → Forest
  | before row => row
  | behindLeaf code payload next => .leaf code payload next.closed
  | behindTagList tags next => .tagList tags next.closed
  | behindContainer kind fixed inner next => .container kind fixed inner next.closed
  | amongTags front back next => .tagList (front ++ back) next
  | inside kind fixed inner next => .container kind fixed inner.closed next

/-- The octets of the forest with some more in the gap. The atoms around the gap declare sizes to
match. -/
def filled (filler : Bytes) : Gap → Bytes
  | before row => filler ++ row.octets
  | behindLeaf code payload next => Atom.octets code payload ++ next.filled filler
  | behindTagList tags next =>
    Atom.octets Kind.tagList.code (TagList.octets tags) ++ next.filled filler
  | behindContainer kind fixed inner next =>
    Atom.octets kind.kind.code (fixed.toList ++ inner.octets) ++ next.filled filler
  | amongTags front back next =>
    Atom.octets Kind.tagList.code (TagList.octets front ++ (filler ++ TagList.octets back)) ++
      next.octets
  | inside kind fixed inner next =>
    Atom.octets kind.kind.code (fixed.toList ++ inner.filled filler) ++ next.octets

def offset : Gap → Nat
  | before _ => 0
  | behindLeaf _ payload next => Header.minSize + payload.length + next.offset
  | behindTagList tags next => Header.minSize + (TagList.octets tags).length + next.offset
  | behindContainer _ fixed inner next =>
    Header.minSize + fixed.toList.length + inner.octets.length + next.offset
  | amongTags front _ _ => Header.minSize + (TagList.octets front).length
  | inside _ fixed inner _ => Header.minSize + fixed.toList.length + inner.offset

def isRead (o : Options) : Gap → Kind → Bool
  | before _ => Kind.isWalked
  | behindLeaf _ _ next | behindTagList _ next | behindContainer _ _ _ next => next.isRead o
  | amongTags .. => Kind.isTag o
  | inside _ _ inner _ => inner.isRead o

def Fits (n : Nat) : Gap → Prop
  | before _ => True
  | behindLeaf _ _ next | behindTagList _ next | behindContainer _ _ _ next => next.Fits n
  | amongTags front back _ => Header.minSize + ((TagList.octets (front ++ back)).length + n) < 2 ^ 32
  | inside _ fixed inner _ =>
    Header.minSize + (fixed.toList.length + (inner.closed.octets.length + n)) < 2 ^ 32 ∧
      inner.Fits n

instance (n : Nat) : (g : Gap) → Decidable (g.Fits n)
  | before _ => inferInstanceAs (Decidable True)
  | behindLeaf _ _ next | behindTagList _ next | behindContainer _ _ _ next =>
    instDecidableFits n next
  | amongTags front back _ =>
    inferInstanceAs (Decidable
      (Header.minSize + ((TagList.octets (front ++ back)).length + n) < 2 ^ 32))
  | inside _ fixed inner _ =>
    have := instDecidableFits n inner
    inferInstanceAs (Decidable
      (Header.minSize + (fixed.toList.length + (inner.closed.octets.length + n)) < 2 ^ 32 ∧
        inner.Fits n))

/-- The visit of a forest with `n` octets in its gap that are passed over. -/
def visit (o : Options) (n : Nat) : Gap → Nat → Forest.Visit
  | before row, levels => fun handler pos c => row.visit o levels handler (pos + n) c
  | behindLeaf code payload next, levels => Forest.visitLeaf o code payload (next.visit o n levels)
  | behindTagList tags next, levels =>
    Forest.visitTagList (TagList.octets tags).length (fun start => TagContent.applyAll o start tags)
      (next.visit o n levels)
  | behindContainer kind fixed inner next, levels =>
    Forest.visitContainer kind fixed.toList.length inner.octets.length (fun left => inner.visit o left)
      levels (next.visit o n levels)
  | amongTags front back next, levels =>
    Forest.visitTagList ((TagList.octets (front ++ back)).length + n)
      (fun start c =>
        TagContent.applyAll o (start + (TagList.octets front).length + n) back
          (TagContent.applyAll o start front c))
      (next.visit o levels)
  | inside kind fixed inner next, levels =>
    Forest.visitContainer kind fixed.toList.length (inner.closed.octets.length + n)
      (fun left => inner.visit o n left) levels (next.visit o levels)

theorem length_filled (g : Gap) (filler : Bytes) :
    (g.filled filler).length = g.closed.octets.length + filler.length := by
  induction g with
  | before row => rw [filled, List.length_append, closed, Nat.add_comm]
  | behindLeaf code payload next ih =>
    rw [filled, closed, Forest.octets, List.length_append, List.length_append, ih, Nat.add_assoc]
  | behindTagList tags next ih =>
    rw [filled, closed, Forest.octets, List.length_append, List.length_append, ih, Nat.add_assoc]
  | behindContainer kind fixed inner next ih =>
    rw [filled, closed, Forest.octets, List.length_append, List.length_append, ih, Nat.add_assoc]
  | amongTags front back next =>
    simp only [filled, closed, Forest.octets, List.length_append, Atom.length_octets,
      TagList.octets_append]
    omega
  | inside kind fixed inner next ih =>
    simp only [filled, closed, Forest.octets, List.length_append, Atom.length_octets, ih]
    omega

open Walk in
/-- The walk passes over what is in the gap and does what it does without it. -/
theorem matches_filled {o : Options} (g : Gap) {x : Filler} (hg : g.closed.WellSized)
    (hx : x.Unread (g.isRead o)) (hn : g.Fits x.octets.length) (levels : Nat) :
    Matches o levels (g.filled x.octets) (g.visit o x.octets.length levels) := by
  induction g generalizing levels with
  | before row =>
    intro handler pos c tail hc
    have hrow := follows o row hg levels handler (pos + x.octets.length) c tail hc
    rw [filled, List.append_assoc, List.length_append,
      exec_siblings_filler o _ handler hx, ← Nat.add_assoc]
    exact hrow
  | behindLeaf code payload next ih => exact matches_leaf code payload hg.1 (ih hg.2 hx hn levels)
  | behindTagList tags next ih =>
    exact matches_tagList (TagList.effect_applyAll o tags hg.1) hg.1 (ih hg.2 hx hn levels)
  | behindContainer kind fixed inner next ih =>
    exact matches_container kind fixed hg.1 (fun left _ => follows o inner hg.2.1 left)
      (ih hg.2.2 hx hn levels)
  | amongTags front back next =>
    have hsize : (TagList.octets front ++ (x.octets ++ TagList.octets back)).length =
        (TagList.octets (front ++ back)).length + x.octets.length := by
      simp only [TagList.octets_append, List.length_append]
      omega
    have hrow := matches_tagList (TagList.effect_filled front back hx hg.1)
      (by rw [hsize]; exact hn) (follows o next hg.2 levels)
    rw [hsize] at hrow
    exact hrow
  | inside kind fixed inner next ih =>
    have hrow : Matches o levels
        (Atom.octets kind.kind.code (fixed.toList ++ inner.filled x.octets) ++ next.octets)
        (Forest.visitContainer kind fixed.toList.length (inner.filled x.octets).length
          (fun left => inner.visit o x.octets.length left) levels (next.visit o levels)) :=
      matches_container kind fixed (by rw [List.length_append, length_filled]; exact hn.1)
        (fun left _ => ih hg.2.1 hx hn.2 left) (follows o next hg.2.2 levels)
    rw [length_filled] at hrow
    exact hrow

end Gap

/-- Images from a position on stand `n` octets further back. -/
def Artwork.displace (start n : Nat) (a : Artwork) : Artwork :=
  if start ≤ a.pos then { a with pos := a.pos + n } else a

def Track.displace (start n : Nat) (t : Track) : Track := t.mapArtwork (.displace start n)

def Collected.displace (start n : Nat) (c : Collected) : Collected :=
  c.mapArtwork (.displace start n)

theorem Artwork.moves_displace (start n : Nat) : Artwork.Moves (.displace start n) start n :=
  fun _ ha => if_pos ha

/-- An image in front of the position stays where it is. -/
theorem Collected.ArtworkBefore.displace {c : Collected} {pos start : Nat}
    (hc : c.ArtworkBefore pos) (h : pos ≤ start) (n : Nat) : c.displace start n = c := by
  have htags : c.track.tags.mapArtwork (.displace start n) = c.track.tags := by
    have hart : c.track.tags.artwork.map (.displace start n) = c.track.tags.artwork := by
      cases hfound : c.track.tags.artwork with
      | none => rfl
      | some art =>
        have hbefore := hc art hfound
        exact congrArg some (if_neg (by omega))
    rw [Tags.mapArtwork, hart]
  rw [Collected.displace, Collected.mapArtwork, Track.mapArtwork, htags]

namespace Gap
variable {o : Options} {levels pos n : Nat} {c : Collected} {handler : Option Handler}

theorem offset_le (g : Gap) : g.offset ≤ g.closed.octets.length := by
  induction g with
  | before row => exact Nat.zero_le _
  | behindLeaf code payload next ih =>
    rw [offset, closed, Forest.octets, List.length_append, Atom.length_octets]
    omega
  | behindTagList tags next ih =>
    rw [offset, closed, Forest.octets, List.length_append, Atom.length_octets]
    omega
  | behindContainer kind fixed inner next ih =>
    rw [offset, closed, Forest.octets, List.length_append, Atom.length_octets, List.length_append]
    omega
  | amongTags front back next =>
    rw [offset, closed, Forest.octets, List.length_append, Atom.length_octets,
      TagList.octets_append, List.length_append]
    omega
  | inside kind fixed inner next ih =>
    rw [offset, closed, Forest.octets, List.length_append, Atom.length_octets, List.length_append]
    omega

/-- From the gap on everything stands `n` octets further back. -/
theorem visit_behind (f : Forest) {start : Nat} (h : start ≤ pos) :
    f.visit o levels handler (pos + n) (c.displace start n) =
      (f.visit o levels handler pos c).map id (.displace start n) :=
  f.visit_mapArtwork o levels handler c ((Artwork.moves_displace start n).mono h)

/-- What a row does behind a leaf it does behind the leaf in the other file. -/
theorem visitLeaf_displace {code : Code} {payload : Bytes} {next next' : Forest.Visit} {start : Nat}
    (hc : c.ArtworkBefore pos) (h : pos ≤ start)
    (hnext : ∀ handler d, d.ArtworkBefore (pos + Header.minSize + payload.length) →
      next' handler (pos + Header.minSize + payload.length) d =
        (next handler (pos + Header.minSize + payload.length) d).map id (.displace start n)) :
    Forest.visitLeaf o code payload next' handler pos c =
      (Forest.visitLeaf o code payload next handler pos c).map id (.displace start n) := by
  have hbehind {d : Collected} (hd : d.track.tags.artwork = c.track.tags.artwork) :
      d.ArtworkBefore (pos + Header.minSize + payload.length) :=
    (hc.of_eq hd).mono (by omega)
  unfold Forest.visitLeaf
  split
  · exact hnext _ c (hbehind rfl)
  · split
    · exact hnext _ c (hbehind rfl)
    · dsimp only
      split
      · have hstop : (c.addAudio payload.length).ArtworkBefore pos := hc.of_eq rfl
        exact congrArg _ (hstop.displace h n).symm
      · exact hnext _ _ (hbehind rfl)
  · exact hnext _ _ (hbehind (congrArg Tags.artwork (Content.tags_apply o _ payload c)))

/-- What a row does behind a container it does behind the container in the other file. -/
theorem visitContainer_displace {kind : Container} {fixed size size' : Nat}
    {inner inner' : Nat → Forest.Visit} {next next' : Forest.Visit} {start : Nat}
    (hc : c.ArtworkBefore pos) (h : pos ≤ start)
    (hskip : next' handler (pos + Header.minSize + fixed + size') c =
      (next handler (pos + Header.minSize + fixed + size) c).map id (.displace start n))
    (hinner : ∀ left, inner' left none (pos + Header.minSize + fixed) c =
      (inner left none (pos + Header.minSize + fixed) c).map id (.displace start n))
    (hnext : ∀ left d, inner left none (pos + Header.minSize + fixed) c = (.ok .proceed, d) →
      next' handler (pos + Header.minSize + fixed + size') (d.displace start n) =
        (next handler (pos + Header.minSize + fixed + size) d).map id (.displace start n)) :
    Forest.visitContainer kind fixed size' inner' levels next' handler pos c =
      (Forest.visitContainer kind fixed size inner levels next handler pos c).map id
        (.displace start n) := by
  unfold Forest.visitContainer
  dsimp only
  split
  · exact hskip
  · split
    · exact congrArg _ (hc.displace h n).symm
    · rw [hinner]
      have hproceed := hnext (levels - 1)
      generalize inner (levels - 1) none (pos + Header.minSize + fixed) c = run at hproceed ⊢
      obtain ⟨_ | _ | _, d⟩ := run
      · rfl
      · exact hproceed d rfl
      · rfl

theorem applyAll_append (front back : List TagAtom) :
    TagContent.applyAll o pos (front ++ back) c =
      TagContent.applyAll o (pos + (TagList.octets front).length) back
        (TagContent.applyAll o pos front c) := by
  induction front generalizing pos c with
  | nil => rfl
  | cons tag front ih =>
    have hbehind : pos + (TagList.octets (tag :: front)).length =
        pos + Header.minSize + tag.payload.length + (TagList.octets front).length := by
      rw [TagList.octets, List.length_append, Atom.length_octets]
      omega
    rw [List.cons_append, TagContent.applyAll, ih, hbehind]
    rfl

/-- The tags behind the gap have their effect further back. -/
theorem applyAll_displace (front back : List TagAtom) (hc : c.ArtworkBefore pos) :
    TagContent.applyAll o (pos + (TagList.octets front).length + n) back
        (TagContent.applyAll o pos front c) =
      (TagContent.applyAll o pos (front ++ back) c).displace
        (pos + (TagList.octets front).length) n := by
  have hfront := TagContent.artworkBefore_applyAll o front hc
  rw [applyAll_append]
  generalize TagContent.applyAll o pos front c = d at hfront ⊢
  generalize pos + (TagList.octets front).length = start at hfront ⊢
  have hback : TagContent.applyAll o (start + n) back (d.displace start n) =
      (TagContent.applyAll o start back d).displace start n :=
    TagContent.applyAll_mapArtwork o d back (Artwork.moves_displace start n)
  rw [hfront.displace (Nat.le_refl _)] at hback
  exact hback

/-- The visit with a filled gap is that of the closed forest, but for an image behind the gap. -/
theorem visit_eq_displace (g : Gap) (hc : c.ArtworkBefore pos) :
    g.visit o n levels handler pos c =
      (g.closed.visit o levels handler pos c).map id (.displace (pos + g.offset) n) := by
  induction g generalizing levels handler pos c with
  | before row =>
    have hrow := @visit_behind o levels pos n c handler row pos (Nat.le_refl _)
    rw [hc.displace (Nat.le_refl _)] at hrow
    exact hrow
  | behindLeaf code payload next ih =>
    refine visitLeaf_displace hc (Nat.le_add_right _ _) fun handler d hd => ?_
    rw [ih hd, offset, ← Nat.add_assoc, ← Nat.add_assoc]
  | behindTagList tags next ih =>
    have hd : (if handler = some .directory then
        TagContent.applyAll o (pos + Header.minSize) tags c else c).ArtworkBefore
          (pos + Header.minSize + (TagList.octets tags).length) := by
      split
      · exact TagContent.artworkBefore_applyAll o tags (hc.mono (Nat.le_add_right _ _))
      · exact hc.mono (by omega)
    rw [offset, ← Nat.add_assoc, ← Nat.add_assoc]
    exact ih hd
  | behindContainer kind fixed inner next ih =>
    have hstart : c.ArtworkBefore (pos + Header.minSize + fixed.toList.length) :=
      hc.mono (by omega)
    have hoffset : pos + (behindContainer kind fixed inner next).offset =
        pos + Header.minSize + fixed.toList.length + inner.octets.length + next.offset := by
      rw [offset]
      omega
    have hinner (left : Nat) := inner.artworkBefore_visit o left none hstart
    rw [hoffset]
    refine visitContainer_displace hc (by omega) (ih (hc.mono (by omega))) (fun left => ?_)
      (fun left d hd => ?_)
    · exact Prod.ext rfl ((hinner left).displace (Nat.le_add_right _ _) n).symm
    · have hfound := hinner left
      rw [hd] at hfound
      rw [hfound.displace (Nat.le_add_right _ _)]
      exact ih hfound
  | amongTags front back next =>
    have hsize : pos + Header.minSize + ((TagList.octets (front ++ back)).length + n) =
        pos + Header.minSize + (TagList.octets (front ++ back)).length + n := by omega
    have hoffset : pos + (amongTags front back next).offset =
        pos + Header.minSize + (TagList.octets front).length := by
      rw [offset]
      omega
    have hle : (TagList.octets front).length ≤ (TagList.octets (front ++ back)).length := by
      rw [TagList.octets_append, List.length_append]
      omega
    have htags := @applyAll_displace o (pos + Header.minSize) n c front back
      (hc.mono (Nat.le_add_right _ _))
    have hrow (d : Collected) := @visit_behind o levels
      (pos + Header.minSize + (TagList.octets (front ++ back)).length) n d handler next
      (pos + Header.minSize + (TagList.octets front).length) (by omega)
    rw [hoffset]
    simp only [visit, closed, Forest.visit, Forest.visitTagList, hsize, htags]
    by_cases hdir : handler = some .directory
    · rw [if_pos hdir, if_pos hdir]
      exact hrow _
    · rw [if_neg hdir, if_neg hdir, ← hrow, hc.displace (by omega)]
  | inside kind fixed inner next ih =>
    have hoffset : pos + (inside kind fixed inner next).offset =
        pos + Header.minSize + fixed.toList.length + inner.offset := by
      rw [offset]
      omega
    have hle := inner.offset_le
    have hrow (d : Collected) : next.visit o levels handler
        (pos + Header.minSize + fixed.toList.length + (inner.closed.octets.length + n))
        (d.displace (pos + Header.minSize + fixed.toList.length + inner.offset) n) =
          (next.visit o levels handler
            (pos + Header.minSize + fixed.toList.length + inner.closed.octets.length) d).map id
            (.displace (pos + Header.minSize + fixed.toList.length + inner.offset) n) := by
      rw [← Nat.add_assoc _ inner.closed.octets.length]
      exact visit_behind next (by omega)
    rw [hoffset]
    refine visitContainer_displace hc (by omega) ?_ (fun left => ih (hc.mono (by omega)))
      (fun left d _ => hrow d)
    have hskip := hrow c
    rw [hc.displace (by omega)] at hskip
    exact hskip

theorem walk_filled (g : Gap) {x : Filler} (hg : g.closed.WellSized) (hx : x.Unread (g.isRead o))
    (hn : g.Fits x.octets.length) :
    ((Walk.walk o (g.filled x.octets).length).exec (.start o)
        (Slice.ofBytes (g.filled x.octets))).1 =
      ((Walk.walk o g.closed.octets.length).exec (.start o) (Slice.ofBytes g.closed.octets)).1.map id
        (.displace g.offset x.octets.length) := by
  have hfilled := (g.matches_filled hg hx hn (Walk.maxDepth - 1) none 0 (.start o) [] rfl).outcome
  have hclosed := (Walk.follows o g.closed hg (Walk.maxDepth - 1) none 0 (.start o) [] rfl).outcome
  have hstart : (Collected.start o).ArtworkBefore 0 := nofun
  have hvisit := @visit_eq_displace o (Walk.maxDepth - 1) 0 x.octets.length (.start o) none g hstart
  rw [List.append_nil] at hfilled hclosed
  rw [← hfilled, ← hclosed, Nat.zero_add] at hvisit
  exact hvisit

end Gap

/-- An atom that is not read can be put into a file anywhere, if the atoms around it can declare
their new sizes. The record, or the error, stays the same, but a cover image behind the atom stands
further back by the size of the atom. -/
theorem Track.ofBytes_filled (o : Options) (g : Gap) (x : Filler) (hg : g.closed.WellSized)
    (hx : x.Unread (g.isRead o)) (hn : g.Fits x.octets.length) :
    Track.ofBytes o (g.filled x.octets) =
      (Track.ofBytes o g.closed.octets).map (.displace g.offset x.octets.length) := by
  rw [ofBytes, read_eq, g.walk_filled hg hx hn, ofBytes, read_eq]
  rcases ((Walk.walk o g.closed.octets.length).exec (.start o)
    (Slice.ofBytes g.closed.octets)).1 with ⟨_ | _, c⟩
  · rfl
  · exact c.track.completed_mapArtwork

set_option maxRecDepth 2048 in
/-- An atom that calls itself a handler but has a 64-bit size stands between a handler and the tags
that it announces. It is passed over, and the cover stands nineteen octets further back. -/
theorem Track.ofBytes_filled_cover :
    let o : Options := { arenaSize := 0 }
    let cover : TagAtom := ⟨Kind.cover.code, List.replicate 16 0 ++ [0xff, 0xd8, 0xff, 0xe0, 1]⟩
    let handler : Bytes := List.replicate 8 0 ++ (Code.ofChars 'm' 'd' 'i' 'r').toBytes
    let times := Bytes.ofNat 4 0 ++ Bytes.ofNat 4 1 ++ Bytes.ofNat 4 1000 ++ Bytes.ofNat 4 1024
    let entry := List.replicate 28 0 ++
      Atom.octets Kind.alacEntry.code (List.replicate 24 0 ++ Bytes.ofNat 4 48000)
    let x : Filler := .wide Kind.handler.code [1, 2, 3]
    let g : Gap :=
      .behindLeaf ⟨Kind.timeToSample.code, by decide⟩ times
        (.behindLeaf ⟨Kind.alacEntry.code, by decide⟩ entry
          (.inside .metadata #v[0, 0, 0, 0]
            (.behindLeaf ⟨Kind.handler.code, by decide⟩ handler (.before (.tagList [cover] .nil)))
            (.leaf ⟨Kind.mediaData.code, by decide⟩ [1, 2, 3] .nil)))
    let m : Track :=
      { audio :=
          { codec := .alac, sampleRate := 48000, samples := 1024000, bytes := 3,
            length := 21333, variableRate := true }
        tags := { artwork := some ⟨.jpeg, 160, 5⟩ } }
    g.closed.WellSized ∧ x.Unread (g.isRead o) ∧ g.Fits x.octets.length ∧
      Track.ofBytes o g.closed.octets = .ok m ∧
      Track.ofBytes o (g.filled x.octets) =
        .ok { m with tags := { artwork := some ⟨.jpeg, 179, 5⟩ } } := by
  intro o cover handler times entry x g m
  have hg : g.closed.WellSized := by decide
  have hx : x.Unread (g.isRead o) := by decide
  have hn : g.Fits x.octets.length := by decide
  have hread : Track.ofBytes o g.closed.octets = .ok m := by cbv
  refine ⟨hg, hx, hn, hread, ?_⟩
  have hfilled := ofBytes_filled o g x hg hx hn
  rw [hread] at hfilled
  exact hfilled

end AudioAtoms
