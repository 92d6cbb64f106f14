import AudioAtoms.Proofs.Feeds
import AudioAtoms.Proofs.Forest
import AudioAtoms.Proofs.ReadTrack

/-!
# Reading ahead does not show

A tape is a plain position over the content of a source. A buffered source answers every request as
the tape at its position does: which octets stand in the buffer, and in how many calls the source
gave them, makes no difference. So the record of a file depends on the content of its source and on
the position where the file starts, and on nothing else.
-/
namespace AudioAtoms

structure Tape where
  content : Bytes
  pos : Nat
  /-- The largest position that can be reached by a skip. -/
  lastPos : Nat
deriving DecidableEq, Repr

namespace Tape

def ahead (t : Tape) (n : Nat) : Bytes := (t.content.drop t.pos).take n

def advance (t : Tape) (n : Nat) : Tape := { t with pos := t.pos + n }

/-- Reading stops short at the end of the content. A skip may go beyond it. -/
def answer (q : Request false) (t : Tape) : q.Answer × Tape :=
  match q with
  | .exactly n =>
    (if (t.ahead n).length < n then .error .endOfStream else .ok (t.ahead n),
      t.advance (t.ahead n).length)
  | .upTo n => (.ok (t.ahead n), t.advance (t.ahead n).length)
  | .skip n =>
    if 2 ^ 63 ≤ n then (.error .skipTooLarge, t)
    else if t.lastPos < t.pos + n then (.error .badSeek, t)
    else (.ok (), t.advance n)
  | .position => (t.pos, t)

instance : ByteStream false Tape where
  answer := answer

/-- A tape keeps its content, and the last position it can be moved to. -/
theorem content_answer (q : Request false) (t : Tape) :
    (ByteStream.answer q t).2.content = t.content ∧
      (ByteStream.answer q t).2.lastPos = t.lastPos := by
  cases q with
  | skip n =>
    simp only [ByteStream.answer, Tape.answer]
    split
    · exact ⟨rfl, rfl⟩
    · split <;> exact ⟨rfl, rfl⟩
  | remaining h => cases h
  | _ => exact ⟨rfl, rfl⟩

/-- Moves by a distance and gives the new position. A move may go beyond the end of the content. -/
def seekBy (t : Tape) (delta : Int) : Except StreamError Nat × Tape :=
  if t.pos + delta < 0 ∨ t.lastPos < t.pos + delta then (.error .badSeek, t)
  else (.ok (t.pos + delta).toNat, { t with pos := (t.pos + delta).toNat })

/-- A skip is a seek, unless it is too long for one. -/
theorem answer_skip (t : Tape) (n : Nat) :
    t.answer (.skip n) =
      if 2 ^ 63 ≤ n then (.error .skipTooLarge, t)
      else ((t.seekBy n).1.map fun _ => (), (t.seekBy n).2) := by
  simp only [answer, seekBy]
  by_cases hlast : t.lastPos < t.pos + n
  · rw [if_pos hlast, if_pos (show (t.pos + n : Int) < 0 ∨ (t.lastPos : Int) < t.pos + n by omega)]
    rfl
  · rw [if_neg hlast,
      if_neg (show ¬((t.pos + n : Int) < 0 ∨ (t.lastPos : Int) < t.pos + n) by omega)]
    rfl

/-- Behind the content there is nothing to read. -/
theorem ahead_end {t : Tape} (h : t.content.length ≤ t.pos) (n : Nat) : t.ahead n = [] := by
  rw [ahead, List.drop_eq_nil_of_le h, List.take_nil]

theorem advance_advance (t : Tape) (m n : Nat) : (t.advance m).advance n = t.advance (m + n) := by
  simp only [advance, Nat.add_assoc]

/-- Octets can be read in two parts. -/
theorem ahead_append (t : Tape) {k n : Nat} (hkn : k ≤ n) :
    t.ahead k ++ (t.advance k).ahead (n - k) = t.ahead n := by
  have hn : k + (n - k) = n := Nat.add_sub_cancel' hkn
  rw [ahead, ahead, ahead, advance, ← List.drop_drop, ← List.take_add, hn]

end Tape

namespace Schedule

/-- No call fails, and a call that is not interrupted yields an octet if there is one. -/
def Reliable (s : Schedule) : Prop :=
  ∀ n outcome, s.attempt n = some outcome → ∃ most, outcome = .yields most ∧ most ≠ some 0

theorem reliable_steady : steady.Reliable := by
  intro n outcome h
  exact ⟨none, (Option.some.inj h).symm, nofun⟩

theorem reliable_periodic {period : Nat} (h : period ≠ 1) {most : Option Nat}
    (hmost : most ≠ some 0) : (periodic period h most none).Reliable := by
  intro n outcome hn
  simp only [periodic] at hn
  split at hn
  · cases hn
  · exact ⟨most, (Option.some.inj hn).symm, hmost⟩

theorem resume_of_some {s : Schedule} {n : Nat} {outcome : Attempt}
    (h : s.attempt n = some outcome) : s.resume n = (n, outcome) := by
  rw [resume]
  split
  · rw [Option.some.inj (h.symm.trans ‹_›)]
  · cases h.symm.trans ‹_›

theorem resume_of_none {s : Schedule} {n : Nat} (h : s.attempt n = none) :
    s.resume n = s.resume (n + 1) := by
  rw [resume]
  split
  · cases h.symm.trans ‹_›
  · rfl

/-- The retries of an interrupted call come to an end, and that end is no failure. -/
theorem Reliable.resume {s : Schedule} (hs : s.Reliable) (n : Nat) :
    ∃ call most, s.resume n = (call, .yields most) ∧ most ≠ some 0 := by
  induction n using resume.induct s with
  | case1 n outcome hn =>
    obtain ⟨most, rfl, hmost⟩ := hs n outcome hn
    exact ⟨n, most, resume_of_some hn, hmost⟩
  | case2 n hn ih =>
    rw [resume_of_none hn]
    exact ih

end Schedule

namespace Source

/-- A source that gives its octets, if in several calls, and that can be sought inside its content
and at its position. -/
structure Reliable (s : Source) : Prop where
  schedule : s.schedule.Reliable
  seekable : s.seekable = true
  size_le : s.content.size ≤ s.lastPos
  pos_le : s.pos ≤ s.lastPos

theorem size_ahead (s : Source) (n : Nat) :
    (s.ahead n).size = min (s.pos + n) s.content.size - s.pos := by
  rw [ahead, Array.size_extract]

/-- What is ahead is ahead up to its own size. -/
theorem extract_size_ahead (s : Source) (n : Nat) :
    s.content.extract s.pos (s.pos + (s.ahead n).size) = s.ahead n := by
  apply Array.toList_inj.mp
  rw [size_ahead, ahead, Array.toList_extract, Array.toList_extract, List.extract_eq_take_drop,
    List.extract_eq_take_drop, List.take_eq_take_iff, List.length_drop, Array.length_toList]
  omega

def tape (s : Source) : Tape := ⟨s.content.toList, s.pos, s.lastPos⟩

theorem reliable_ofContent {content : Array UInt8} {pos : Nat} {schedule : Schedule}
    (hsize : content.size < 2 ^ 64) (hpos : pos < 2 ^ 64) (hs : schedule.Reliable) :
    (ofContent content pos schedule).Reliable :=
  ⟨hs, rfl, Nat.le_sub_one_of_lt hsize, Nat.le_sub_one_of_lt hpos⟩

/-- The sources stand at the same place of the same content. How they answer a read and how often
they were read before does not matter. -/
structure SameFile (a b : Source) : Prop where
  content : a.content = b.content
  pos : a.pos = b.pos
  lastPos : a.lastPos = b.lastPos
  lengthKnown : a.lengthKnown = b.lengthKnown

/-- A read gives at least one of the octets ahead, and all of them if it gives none. It gives no
more than asked for. -/
theorem Reliable.read {s : Source} (hs : s.Reliable) {n : Nat} (hn : 0 < n) :
    ∃ k call, 0 < k ∧ k ≤ n ∧ s.read n = (.ok (s.ahead k),
      { s with pos := s.pos + (s.ahead k).size, calls := call }) := by
  obtain ⟨call, most, hresume, hmost⟩ := hs.schedule.resume (s.calls + 1)
  have hlimit : 0 < (most.map (min n)).getD n ∧ (most.map (min n)).getD n ≤ n := by
    cases most with
    | none => exact ⟨hn, Nat.le_refl n⟩
    | some limit =>
      have hpos : limit ≠ 0 := fun h => hmost (congrArg some h)
      simp only [Option.map_some, Option.getD_some]
      omega
  exact ⟨_, call, hlimit.1, hlimit.2, by rw [Source.read, hresume]⟩

end Source

namespace Buffered

def tape (s : Buffered) : Tape := ⟨s.source.content.toList, s.pos, s.source.lastPos⟩

/-- The buffer holds the octets before the position of the source. -/
structure Coherent (s : Buffered) : Prop where
  source : s.source.Reliable
  taken_le : s.taken ≤ s.buffer.size
  endPos_eq : s.endPos = s.source.pos
  size_le_endPos : s.buffer.size ≤ s.endPos
  size_le_capacity : s.buffer.size ≤ s.capacity
  buffer_eq : s.buffer = s.source.content.extract (s.endPos - s.buffer.size) s.endPos

theorem coherent_ofSource {source : Source} (hs : source.Reliable) {capacity : Nat}
    (h : 0 < capacity) :
    (ofSource source capacity h).Coherent ∧
      (ofSource source capacity h).tape = source.tape := by
  have htell : source.tell?.getD 0 = source.pos := by
    rw [Source.tell?, if_pos hs.seekable, Option.getD_some]
  refine ⟨⟨hs, Nat.le_refl _, htell, Nat.zero_le _, Nat.zero_le _, ?_⟩, ?_⟩
  · exact (Array.extract_empty_of_stop_le_start (Nat.le_refl _)).symm
  · simp only [tape, pos, unread, ofSource, htell]
    rfl

variable {s : Buffered}

theorem Coherent.unread_le_endPos (hs : s.Coherent) : s.unread ≤ s.endPos :=
  Nat.le_trans (Nat.sub_le _ _) hs.size_le_endPos

theorem length_front (s : Buffered) (n : Nat) : (s.front n).length = min n s.unread := by
  rw [Buffered.front, Array.length_toList, Array.size_extract, unread]
  omega

/-- The unread octets of the buffer are those ahead on the tape. -/
theorem Coherent.front (hs : s.Coherent) (n : Nat) :
    s.front n = s.tape.ahead (min n s.unread) := by
  have hbuffer := hs.buffer_eq
  have htaken := hs.taken_le
  have hsize := hs.size_le_endPos
  have hstart : s.endPos - s.buffer.size + s.taken = s.pos := by
    simp only [pos, unread]
    omega
  have hend : min (s.endPos - s.buffer.size + (s.taken + n)) s.endPos =
      s.pos + min n s.unread := by
    simp only [pos, unread]
    omega
  rw [Buffered.front, hbuffer, Array.extract_extract, hstart, hend, Array.toList_extract,
    List.extract_eq_take_drop, Nat.add_sub_cancel_left, Tape.ahead, tape]

/-- Any part of the buffer may be handed out. -/
theorem Coherent.withTaken (hs : s.Coherent) {n : Nat} (hn : n ≤ s.buffer.size) :
    { s with taken := n }.Coherent :=
  ⟨hs.source, hn, hs.endPos_eq, hs.size_le_endPos, hs.size_le_capacity, hs.buffer_eq⟩

/-- Handing out unread octets moves along the tape. -/
theorem Coherent.take (hs : s.Coherent) {n : Nat} (hn : n ≤ s.unread) :
    let t := { s with taken := s.taken + n }
    t.Coherent ∧ t.tape = s.tape.advance n := by
  have htaken := hs.taken_le
  have hsize := hs.size_le_endPos
  have hunread : s.unread = s.buffer.size - s.taken := rfl
  refine ⟨hs.withTaken (by omega), ?_⟩
  simp only [tape, Tape.advance, pos, unread, Tape.mk.injEq, true_and, and_true]
  omega

theorem Coherent.takeFront (hs : s.Coherent) (n : Nat) :
    (s.takeFront n).Coherent ∧ (s.takeFront n).tape = s.tape.advance (s.front n).length := by
  apply hs.take
  rw [length_front]
  exact Nat.min_le_right n s.unread

/-- After a fetch there are unread octets, or the tape is at its end. -/
theorem Coherent.fetch (hs : s.Coherent) :
    ∃ t, s.fetch = (.ok (), t) ∧ t.Coherent ∧ t.tape = s.tape ∧
      (t.unread = 0 → s.tape.content.length ≤ s.tape.pos) := by
  by_cases hunread : s.unread = 0
  · obtain ⟨k, call, hk, hcapacity, hread⟩ := hs.source.read s.capacity_pos
    have hpos : s.pos = s.source.pos := by
      rw [pos, hunread, Nat.sub_zero, hs.endPos_eq]
    have hsize := s.source.size_ahead k
    have hlast := hs.source.size_le
    have hend := hs.source.pos_le
    refine ⟨_, by rw [Buffered.fetch, if_pos hunread, hread], ⟨⟨?_, ?_, ?_, ?_⟩, ?_, ?_, ?_, ?_, ?_⟩,
      ?_, ?_⟩
    · exact hs.source.schedule
    · exact hs.source.seekable
    · exact hs.source.size_le
    · simp only
      omega
    · exact Nat.zero_le _
    · simp only [hs.endPos_eq]
    · exact Nat.le_add_left _ _
    · simp only
      omega
    · simp only [Nat.add_sub_cancel, hs.endPos_eq]
      exact (s.source.extract_size_ahead k).symm
    · simp only [tape, hpos, Tape.mk.injEq, true_and, and_true]
      simp only [pos, unread, Nat.sub_zero, Nat.add_sub_cancel, hs.endPos_eq]
    · intro hnone
      simp only [unread, Nat.sub_zero] at hnone
      simp only [tape, Array.length_toList]
      omega
  · exact ⟨s, by rw [Buffered.fetch, if_neg hunread], hs, rfl, fun h => absurd h hunread⟩

/-- A buffered source gives all octets ahead, in however many fetches. -/
theorem Coherent.readUpTo (hs : s.Coherent) (n : Nat) :
    ∃ t, s.readUpTo n = (.ok (s.tape.ahead n), t) ∧ t.Coherent ∧
      t.tape = s.tape.advance (s.tape.ahead n).length := by
  induction n using Nat.strongRecOn generalizing s with
  | ind n ih =>
    rw [Buffered.readUpTo]
    by_cases hn : n = 0
    · rw [if_pos hn, hn]
      exact ⟨s, rfl, hs, rfl⟩
    · obtain ⟨t, hfetch, ht, htape, hend⟩ := hs.fetch
      have hlen := t.length_front n
      rw [if_neg hn, hfetch, ← htape]
      simp only
      by_cases hfront : t.front n = []
      · have hnone : t.unread = 0 := by
          rw [hfront, List.length_nil] at hlen
          omega
        have hahead : t.tape.ahead n = [] := by
          rw [htape]
          exact Tape.ahead_end (hend hnone) n
        rw [dif_pos hfront, hahead]
        exact ⟨t, rfl, ht, rfl⟩
      · obtain ⟨hcoherent, hmoved⟩ := ht.takeFront n
        have hfirst : t.front n = t.tape.ahead (t.front n).length := by
          rw [hlen]
          exact ht.front n
        have hpos : 0 < (t.front n).length := List.length_pos_iff.mpr hfront
        have hle : (t.front n).length ≤ n := by omega
        obtain ⟨u, hrest, hu, hutape⟩ := ih (n - (t.front n).length) (by omega) hcoherent
        have hparts := t.tape.ahead_append hle
        rw [← hfirst, ← hmoved] at hparts
        rw [dif_neg hfront, hrest, ← hparts]
        refine ⟨u, rfl, hu, ?_⟩
        rw [hutape, hmoved, Tape.advance_advance, ← hmoved, List.length_append]

theorem Coherent.readExactly (hs : s.Coherent) (n : Nat) :
    ∃ t, s.readExactly n =
        (if (s.tape.ahead n).length < n then .error .endOfStream else .ok (s.tape.ahead n), t) ∧
      t.Coherent ∧ t.tape = s.tape.advance (s.tape.ahead n).length := by
  obtain ⟨t, hread, ht⟩ := hs.readUpTo n
  exact ⟨t, by rw [Buffered.readExactly, hread], ht⟩

/-- A seek beyond the buffer goes through the source, which stands behind the unread octets. The
distance that the source has to move does not wrap unless the seek goes back by nearly `2 ^ 63`. -/
theorem Coherent.seek_source (hs : s.Coherent) {delta : Int}
    (hlow : -2 ^ 63 ≤ delta - s.unread) (hhigh : delta < 2 ^ 63) :
    s.source.seekBy ((delta - s.unread).bmod (2 ^ 64)) =
      if s.tape.pos + delta < 0 ∨ s.tape.lastPos < s.tape.pos + delta then
        (.error .badSeek, s.source)
      else (.ok (s.tape.pos + delta).toNat, { s.source with pos := (s.tape.pos + delta).toNat }) := by
  have hend := hs.endPos_eq
  have hunread := hs.unread_le_endPos
  have hword : (delta - s.unread).bmod (2 ^ 64) = delta - s.unread :=
    Int.bmod_eq_of_le (by omega) (by omega)
  have htarget : (s.source.pos : Int) + (delta - s.unread) = s.tape.pos + delta := by
    simp only [tape, pos]
    omega
  rw [hword, Source.seekBy, htarget, if_neg (by simp [hs.source.seekable])]
  rfl

/-- With an empty buffer the source may stand wherever it can be sought. -/
theorem Coherent.moved (hs : s.Coherent) {target : Nat} (h : target ≤ s.source.lastPos) :
    { s with
      source := { s.source with pos := target }, buffer := #[], taken := 0,
      endPos := target }.Coherent :=
  ⟨⟨hs.source.schedule, hs.source.seekable, hs.source.size_le, h⟩, Nat.le_refl _, rfl,
    Nat.zero_le _, Nat.zero_le _, (Array.extract_empty_of_stop_le_start (Nat.le_refl _)).symm⟩

/-- A seek lands where that of the tape lands, inside the buffer or beyond it. -/
theorem Coherent.seekBy (hs : s.Coherent) (delta : Int)
    (hlow : 0 ≤ delta ∨ -2 ^ 63 ≤ delta - s.unread) (hhigh : delta < 2 ^ 63) :
    ∃ t, s.seekBy delta = ((s.tape.seekBy delta).1, t) ∧ t.Coherent ∧
      t.tape = (s.tape.seekBy delta).2 := by
  have hunread := hs.unread_le_endPos
  have htaken := hs.taken_le
  have hsize := hs.size_le_endPos
  have hlast : s.endPos ≤ s.source.lastPos := hs.endPos_eq ▸ hs.source.pos_le
  have hpos : s.tape.pos = s.endPos - s.unread := rfl
  have htape : s.tape.lastPos = s.source.lastPos := rfl
  have hleft : s.unread = s.buffer.size - s.taken := rfl
  rw [Buffered.seekBy, Tape.seekBy]
  by_cases hahead : 0 ≤ delta ∧ delta ≤ s.unread
  · obtain ⟨hcoherent, hmoved⟩ := hs.take (show delta.toNat ≤ s.unread by omega)
    have htarget : (s.tape.pos + delta).toNat = s.tape.pos + delta.toNat := by omega
    rw [if_pos hahead, if_neg (by omega), htarget]
    exact ⟨_, congrArg (fun t => (Except.ok t.pos, _)) hmoved, hcoherent, hmoved⟩
  · rw [if_neg hahead]
    by_cases hback : delta < 0 ∧ -delta ≤ s.taken
    · have hmoved : { s with taken := s.taken - delta.natAbs }.tape =
          { s.tape with pos := (s.tape.pos + delta).toNat } := by
        simp only [tape, pos, unread, Tape.mk.injEq, true_and, and_true]
        omega
      rw [if_pos hback, if_neg (by omega)]
      exact ⟨_, congrArg (fun t => (Except.ok t.pos, _)) hmoved, hs.withTaken (by omega), hmoved⟩
    · rw [if_neg hback, hs.seek_source (by omega) hhigh]
      by_cases hbad : s.tape.pos + delta < 0 ∨ s.tape.lastPos < s.tape.pos + delta
      · rw [if_pos hbad, if_pos hbad]
        exact ⟨s, rfl, hs, rfl⟩
      · rw [if_neg hbad, if_neg hbad]
        exact ⟨_, rfl, hs.moved (by omega), rfl⟩

/-- A skip is a seek, unless it is too long for one. -/
theorem Coherent.skip (hs : s.Coherent) (n : Nat) :
    ∃ t, s.skip n = ((ByteStream.answer (.skip n : Request false) s.tape).1, t) ∧ t.Coherent ∧
      t.tape = (ByteStream.answer (.skip n : Request false) s.tape).2 := by
  simp only [ByteStream.answer, Buffered.skip, Tape.answer_skip]
  by_cases hn : n < 2 ^ 63
  · obtain ⟨t, hseek, ht, htape⟩ := hs.seekBy n (by omega) (by omega)
    rw [if_pos hn, if_neg (Nat.not_le_of_lt hn), hseek]
    refine ⟨t, ?_, ht, htape⟩
    rcases s.tape.seekBy n with ⟨_ | _, u⟩ <;> rfl
  · rw [if_neg hn, if_pos (Nat.le_of_not_lt hn)]
    exact ⟨s, rfl, hs, rfl⟩

/-- A buffered source answers as its tape does, and goes on doing so. -/
theorem Coherent.answer (hs : s.Coherent) (q : Request false) :
    ∃ t, ByteStream.answer q s = ((ByteStream.answer q s.tape).1, t) ∧ t.Coherent ∧
      t.tape = (ByteStream.answer q s.tape).2 := by
  cases q with
  | exactly n => exact hs.readExactly n
  | upTo n => exact hs.readUpTo n
  | skip n => exact hs.skip n
  | position => exact ⟨s, rfl, hs, rfl⟩
  | remaining h => cases h

def feed : Feed false Buffered where
  Good := Coherent
  pos := Buffered.pos
  ahead s := s.tape.content.drop s.tape.pos
  position _ _ := rfl
  exactly s n hs h := by
    obtain ⟨t, hanswer, ht, htape⟩ := hs.answer (.exactly n)
    have hahead : (s.tape.ahead n).length = n := List.length_take_of_le h
    have htape' : t.tape = s.tape.advance n := htape.trans (congrArg s.tape.advance hahead)
    refine ⟨t, ?_, ht, congrArg Tape.pos htape', ?_⟩
    · rw [hanswer]
      exact congrArg (·, t) (if_neg (Nat.not_lt.mpr (Nat.le_of_eq hahead.symm)))
    · rw [htape', List.drop_drop]
      rfl
  tooFew s n hs h := by
    obtain ⟨t, hanswer, -, -⟩ := hs.answer (.exactly n)
    have hahead : (s.tape.ahead n).length < n := by
      rw [Tape.ahead, List.length_take]
      omega
    refine ⟨.endOfStream, t, ?_⟩
    rw [hanswer]
    exact congrArg (·, t) (if_pos hahead)
  remaining h := by cases h

/-- Every scan of a buffered source gives what it gives on the tape. -/
theorem Coherent.run {α : Type} (hs : s.Coherent) (p : Scan false α) :
    (p.run s).1 = (p.run s.tape).1 := by
  refine (Scan.run_of_alike (fun s t => s.Coherent ∧ s.tape = t) ?_ p s s.tape ⟨hs, rfl⟩).1
  rintro q s _ ⟨hs, rfl⟩
  obtain ⟨t, hanswer, ht⟩ := hs.answer q
  rw [hanswer]
  exact ⟨rfl, ht⟩

end Buffered

namespace Track

/-- The record of a file in a source is that of the tape. -/
theorem ofSource_eq_read {source : Source} (hs : source.Reliable) (o : Options) {capacity : Nat}
    (h : 0 < capacity) :
    Track.ofSource o source capacity h =
      match source.length? with
      | some size => Track.read o (size - source.pos) source.tape
      | none => .error .lengthUnknown := by
  obtain ⟨hcoherent, htape⟩ := Buffered.coherent_ofSource hs h
  have hpos : (Buffered.ofSource source capacity h).pos = source.pos := congrArg Tape.pos htape
  have hlength : (Buffered.ofSource source capacity h).length? = source.length? := rfl
  rw [ofSource, ofBuffered, ReadFile.buffered, hpos, hlength, ← htape]
  cases source.length? with
  | none => rfl
  | some size => exact hcoherent.run _

/-- The record of a file does not depend on how far it is read ahead, nor on how many octets each
read gives and which reads are interrupted. -/
theorem ofSource_eq_of_sameFile {a b : Source} (ha : a.Reliable) (hb : b.Reliable)
    (h : a.SameFile b) (o : Options) {m n : Nat} (hm : 0 < m) (hn : 0 < n) :
    Track.ofSource o a m hm = Track.ofSource o b n hn := by
  have htape : a.tape = b.tape := by
    rw [Source.tape, Source.tape, h.content, h.pos, h.lastPos]
  have hlength : a.length? = b.length? := by
    rw [Source.length?, Source.length?, h.content, h.lengthKnown]
  rw [ofSource_eq_read ha, ofSource_eq_read hb, htape, hlength, h.pos]

/-- A file behind five octets, read octet by octet with every third call interrupted. -/
theorem ofSource_eq_of_sameFile_interrupted :
    let o : Options := { arenaSize := 0 }
    let file := Atom.octets Kind.timeToSample.code
        (Bytes.ofNat 4 0 ++ Bytes.ofNat 4 1 ++ Bytes.ofNat 4 1000 ++ Bytes.ofNat 4 1024) ++
      Atom.octets Kind.alacEntry.code (List.replicate 28 0 ++
        Atom.octets Kind.alacEntry.code (List.replicate 24 0 ++ Bytes.ofNat 4 48000)) ++
      Atom.octets Kind.mediaData.code [1, 2, 3]
    let source := Source.ofContent (List.replicate 5 7 ++ file).toArray 5
    let m : Track :=
      { audio :=
          { codec := .alac, sampleRate := 48000, samples := 1024000, bytes := 3,
            length := 21333, variableRate := true } }
    Track.ofSource o (source (.periodic 3 (by decide) (some 2) none)) 1 (by decide) =
        Track.ofSource o (source .steady) 4096 (by decide) ∧
      Track.ofSource o (source .steady) 4096 (by decide) = .ok m := by
  intro o file source m
  have hsize : (List.replicate 5 7 ++ file).toArray.size < 2 ^ 64 := by decide
  have hslow : (source (.periodic 3 (by decide) (some 2) none)).Reliable :=
    Source.reliable_ofContent hsize (by decide) (Schedule.reliable_periodic _ (by decide))
  have hfast : (source .steady).Reliable :=
    Source.reliable_ofContent hsize (by decide) Schedule.reliable_steady
  refine ⟨ofSource_eq_of_sameFile hslow hfast ⟨rfl, rfl, rfl, rfl⟩ o (by decide) (by decide), ?_⟩
  rw [ofSource_eq_read hfast]
  cbv

end Track

end AudioAtoms
