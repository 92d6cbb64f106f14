import AudioAtoms.Proofs.Buffering
import AudioAtoms.Proofs.Shortage

/-!
# How far answers move a stream

An answer accounts for a number of octets: those that a request of fixed size asked for, or those
that came for any other. A stream keeps pace if each answer moves its position on by that number,
and by no more than that if the request fails. Octets in memory keep pace, and so does a buffered
source as long as no read of the source fails.
-/
namespace AudioAtoms

namespace Request
variable {bounded : Bool}

/-- The octets that an answer accounts for. A request of fixed size is accounted for in full, also
if it fails. -/
def cost : (q : Request bounded) → q.Answer → Nat
  | exactly n, _ | skip n, _ => n
  | upTo _, r => (r.toOption.getD []).length
  | position, _ | remaining _, _ => 0

/-- The answer takes the position from `m` to `n`. -/
structure Moves (q : Request bounded) (r : q.Answer) (m n : Nat) : Prop where
  cost_le : q.cost r ≤ q.need
  le : n ≤ m + q.cost r
  eq : q.failure? r = none → n = m + q.cost r

end Request

/-- A window cuts a request for up to so many octets, and charges what came. -/
theorem Window.run_upTo {bounded : Bool} {σ : Type} [ByteStream false σ] (w : Window) (n : Nat)
    (s : σ) :
    let p : Request false := .upTo (min w.left n)
    let a := ByteStream.answer p s
    (w.answer (.upTo n : Request bounded) : Scan false _).run s =
      ((a.1, w.charge (p.cost a.1)), a.2) := by
  intro p a
  rcases ha : ByteStream.answer (.upTo (min w.left n) : Request false) s with ⟨e | bs, t⟩
  · rw [answer, Scan.run_ask, ha, show a = (.error e, t) from ha]
    rfl
  · rw [answer, Scan.run_ask, ha, show a = (.ok bs, t) from ha]
    rfl

/-- The states of a stream in which its answers keep pace with its position. -/
structure Pace (σ : Type) [ByteStream false σ] where
  Good : σ → Prop
  pos : σ → Nat
  good_answer : ∀ (q : Request false) (s : σ), Good s → Good (ByteStream.answer q s).2
  position : ∀ s : σ, Good s → (ByteStream.answer (.position : Request false) s).1 = pos s
  moves : ∀ (q : Request false) (s : σ), Good s →
    q.Moves (ByteStream.answer q s).1 (pos s) (pos (ByteStream.answer q s).2)

namespace Slice
variable {content : Bytes} {s : Slice}

structure RestOf (content : Bytes) (s : Slice) : Prop where
  rest : s.rest = content.drop s.pos
  pos_le : s.pos ≤ content.length

theorem restOf_ofBytes (content : Bytes) : (ofBytes content).RestOf content :=
  ⟨rfl, Nat.zero_le _⟩

theorem RestOf.length_rest (hs : s.RestOf content) :
    s.pos + s.rest.length = content.length := by
  have hpos := hs.pos_le
  rw [hs.rest, List.length_drop]
  omega

theorem RestOf.advance (hs : s.RestOf content) {n : Nat} (hn : n ≤ s.rest.length) :
    (s.advance n).RestOf content := by
  have hlen := hs.length_rest
  refine ⟨?_, ?_⟩
  · simp only [Slice.advance, hs.rest, List.drop_drop]
  · simp only [Slice.advance]
    omega

theorem RestOf.answer (hs : s.RestOf content) (q : Request false) :
    (ByteStream.answer q s).2.RestOf content := by
  cases q with
  | exactly n =>
    rw [answer_exactly]
    split
    · exact hs.advance ‹_›
    · exact hs
  | upTo n =>
    rw [answer_upTo]
    exact hs.advance (Nat.min_le_right _ _)
  | skip n =>
    rw [answer_skip]
    split
    · exact hs.advance ‹_›
    · exact hs
  | position => exact hs
  | remaining h => cases h

theorem moves_answer (q : Request false) (s : Slice) :
    q.Moves (ByteStream.answer q s).1 s.pos (ByteStream.answer q s).2.pos := by
  cases q with
  | exactly n =>
    rw [answer_exactly]
    split
    · exact ⟨Nat.le_refl n, Nat.le_refl _, fun _ => rfl⟩
    · exact ⟨Nat.le_refl n, Nat.le_add_right _ _, nofun⟩
  | upTo n =>
    rw [answer_upTo]
    have hlen : (s.rest.take n).length = min n s.rest.length := List.length_take
    refine ⟨?_, ?_, fun _ => ?_⟩
    · exact Nat.le_trans (Nat.le_of_eq hlen) (Nat.min_le_left _ _)
    · exact Nat.le_of_eq (congrArg (s.pos + ·) hlen.symm)
    · exact congrArg (s.pos + ·) hlen.symm
  | skip n =>
    rw [answer_skip]
    split
    · exact ⟨Nat.le_refl n, Nat.le_refl _, fun _ => rfl⟩
    · exact ⟨Nat.le_refl n, Nat.le_add_right _ _, nofun⟩
  | position => exact ⟨Nat.le_refl 0, Nat.le_refl _, fun _ => rfl⟩
  | remaining h => cases h

def pace (content : Bytes) : Pace Slice where
  Good := RestOf content
  pos := Slice.pos
  good_answer q _ hs := hs.answer q
  position _ _ := rfl
  moves q s _ := moves_answer q s

end Slice

namespace Tape

theorem moves_answer (q : Request false) (t : Tape) :
    q.Moves (ByteStream.answer q t).1 t.pos (ByteStream.answer q t).2.pos := by
  have hahead (n : Nat) : (t.ahead n).length ≤ n := List.length_take_le _ _
  cases q with
  | exactly n =>
    refine ⟨Nat.le_refl n, Nat.add_le_add_left (hahead n) _, fun h => ?_⟩
    have hle := hahead n
    simp only [ByteStream.answer, Tape.answer] at h ⊢
    by_cases hshort : (t.ahead n).length < n
    · rw [if_pos hshort] at h
      cases h
    · simp only [Request.cost, Tape.advance]
      omega
  | upTo n => exact ⟨hahead n, Nat.le_refl _, fun _ => rfl⟩
  | skip n =>
    simp only [ByteStream.answer, Tape.answer]
    split
    · exact ⟨Nat.le_refl n, Nat.le_add_right _ _, fun h => by cases h⟩
    · split
      · exact ⟨Nat.le_refl n, Nat.le_add_right _ _, fun h => by cases h⟩
      · exact ⟨Nat.le_refl n, Nat.le_refl _, fun _ => rfl⟩
  | position => exact ⟨Nat.le_refl 0, Nat.le_refl _, fun _ => rfl⟩
  | remaining h => cases h

def pace (content : Bytes) (lastPos : Nat) : Pace Tape where
  Good t := t.content = content ∧ t.lastPos = lastPos
  pos := Tape.pos
  good_answer q t ht := by
    obtain ⟨hcontent, hlast⟩ := t.content_answer q
    exact ⟨hcontent.trans ht.1, hlast.trans ht.2⟩
  position _ _ := rfl
  moves q t _ := moves_answer q t

end Tape

def Schedule.Unfailing (s : Schedule) : Prop := ∀ n, s.attempt n ≠ some .fails

theorem Schedule.Reliable.unfailing {s : Schedule} (hs : s.Reliable) : s.Unfailing := by
  intro n hn
  obtain ⟨most, hmost, -⟩ := hs n .fails hn
  cases hmost

theorem Schedule.Unfailing.resume {s : Schedule} (hs : s.Unfailing) (n : Nat) :
    ∃ call most, s.resume n = (call, .yields most) := by
  induction n using Schedule.resume.induct s with
  | case1 n outcome hn =>
    cases outcome with
    | fails => exact absurd hn (hs n)
    | yields most => exact ⟨n, most, resume_of_some hn⟩
  | case2 n hn ih =>
    rw [resume_of_none hn]
    exact ih

theorem Source.read_of_unfailing {s : Source} (hs : s.schedule.Unfailing) (n : Nat) :
    ∃ bs call, s.read n = (.ok bs, { s with pos := s.pos + bs.size, calls := call }) := by
  obtain ⟨call, most, hresume⟩ := hs.resume (s.calls + 1)
  exact ⟨_, call, by rw [Source.read, hresume]⟩

namespace Buffered
variable {s : Buffered}

/-- The buffer stands before the position of the source, if the source has one, and no read of the
source fails. -/
structure Aligned (s : Buffered) : Prop where
  unfailing : s.source.schedule.Unfailing
  taken_le : s.taken ≤ s.buffer.size
  size_le : s.buffer.size ≤ s.endPos
  endPos_eq : s.source.seekable = true → s.endPos = s.source.pos

theorem aligned_ofSource {source : Source} (hs : source.schedule.Unfailing) {capacity : Nat}
    (h : 0 < capacity) : (ofSource source capacity h).Aligned := by
  refine ⟨hs, Nat.le_refl _, Nat.zero_le _, fun hseek => ?_⟩
  simp only [ofSource] at hseek ⊢
  rw [Source.tell?, if_pos hseek, Option.getD_some]

/-- A fetch does not move the stream. -/
theorem Aligned.fetch (hs : s.Aligned) :
    ∃ t, s.fetch = (.ok (), t) ∧ t.Aligned ∧ t.pos = s.pos := by
  by_cases hunread : s.unread = 0
  · obtain ⟨bs, call, hread⟩ := Source.read_of_unfailing hs.unfailing s.capacity
    refine ⟨_, by rw [Buffered.fetch, if_pos hunread, hread],
      ⟨?_, Nat.zero_le _, Nat.le_add_left _ _, fun hseek => ?_⟩, ?_⟩
    · exact hs.unfailing
    · exact congrArg (· + bs.size) (hs.endPos_eq hseek)
    · simp only [pos, hunread]
      simp only [unread, Nat.sub_zero, Nat.add_sub_cancel]
  · exact ⟨s, by rw [Buffered.fetch, if_neg hunread], hs, rfl⟩

theorem Aligned.take (hs : s.Aligned) {n : Nat} (hn : n ≤ s.unread) :
    let t := { s with taken := s.taken + n }
    t.Aligned ∧ t.pos = s.pos + n := by
  have htaken := hs.taken_le
  have hsize := hs.size_le
  unfold unread at hn
  refine ⟨⟨hs.unfailing, ?_, hs.size_le, hs.endPos_eq⟩, ?_⟩
  · simp only
    omega
  · simp only [pos, unread]
    omega

/-- The stream moves on by the octets that it gives. -/
theorem Aligned.readUpTo (hs : s.Aligned) (n : Nat) :
    ∃ bs t, s.readUpTo n = (.ok bs, t) ∧ bs.length ≤ n ∧ t.Aligned ∧ t.pos = s.pos + bs.length := by
  induction n using Nat.strongRecOn generalizing s with
  | ind n ih =>
    rw [Buffered.readUpTo]
    by_cases hn : n = 0
    · rw [if_pos hn]
      exact ⟨[], s, rfl, Nat.zero_le n, hs, rfl⟩
    · obtain ⟨t, hfetch, ht, hpos⟩ := hs.fetch
      have hlen := t.length_front n
      rw [if_neg hn, hfetch]
      simp only
      by_cases hfront : t.front n = []
      · rw [dif_pos hfront]
        exact ⟨[], t, rfl, Nat.zero_le n, ht, hpos⟩
      · obtain ⟨htaken, hmoved⟩ := ht.take (show (t.front n).length ≤ t.unread by omega)
        have hfirst : 0 < (t.front n).length := List.length_pos_iff.mpr hfront
        obtain ⟨bs, u, hrest, hbs, hu, hupos⟩ := ih (n - (t.front n).length) (by omega) htaken
        rw [dif_neg hfront, takeFront, hrest]
        refine ⟨t.front n ++ bs, u, rfl, ?_, hu, ?_⟩
        · rw [List.length_append]
          omega
        · rw [hupos, hmoved, hpos, List.length_append, Nat.add_assoc]

/-- A skip moves the stream on by the octets skipped, or not at all. -/
theorem Aligned.skip (hs : s.Aligned) (n : Nat) :
    (∃ t, s.skip n = (.ok (), t) ∧ t.Aligned ∧ t.pos = s.pos + n) ∨
      ∃ e, s.skip n = (.error e, s) := by
  unfold Buffered.skip
  by_cases hn : n < 2 ^ 63
  · rw [if_pos hn, Buffered.seekBy]
    by_cases hahead : (0 : Int) ≤ n ∧ (n : Int) ≤ s.unread
    · have hmoved := hs.take (show n ≤ s.unread by omega)
      rw [if_pos hahead]
      exact .inl ⟨_, rfl, hmoved⟩
    · have hword : ((n : Int) - s.unread).bmod (2 ^ 64) = n - s.unread :=
        Int.bmod_eq_of_le (by omega) (by omega)
      rw [if_neg hahead, if_neg (by omega), hword, Source.seekBy]
      by_cases hseek : s.source.seekable = true
      · have hend := hs.endPos_eq hseek
        have hunread : s.unread ≤ s.endPos := Nat.le_trans (Nat.sub_le _ _) hs.size_le
        rw [if_neg (by simp [hseek])]
        by_cases hbad : (s.source.pos : Int) + (n - s.unread) < 0 ∨
            (s.source.lastPos : Int) < s.source.pos + (n - s.unread)
        · rw [if_pos hbad]
          exact .inr ⟨_, rfl⟩
        · rw [if_neg hbad]
          refine .inl ⟨_, rfl, ⟨hs.unfailing, Nat.le_refl _, Nat.zero_le _, fun _ => rfl⟩, ?_⟩
          simp only [pos, unread] at hunread ⊢
          simp only [List.size_toArray, List.length_nil, Nat.sub_zero]
          omega
      · rw [if_pos (by simp [hseek])]
        exact .inr ⟨_, rfl⟩
  · rw [if_neg hn]
    exact .inr ⟨_, rfl⟩

theorem Aligned.answer (hs : s.Aligned) (q : Request false) :
    (ByteStream.answer q s).2.Aligned ∧
      q.Moves (ByteStream.answer q s).1 s.pos (ByteStream.answer q s).2.pos := by
  cases q with
  | exactly n =>
    obtain ⟨bs, t, hread, hbs, ht, hpos⟩ := hs.readUpTo n
    have hanswer : ByteStream.answer (.exactly n : Request false) s =
        (if bs.length < n then .error .endOfStream else .ok bs, t) := by
      simp only [ByteStream.answer, readExactly, hread]
    rw [hanswer]
    refine ⟨ht, Nat.le_refl n, hpos ▸ Nat.add_le_add_left hbs _, fun hok => ?_⟩
    by_cases hshort : bs.length < n
    · simp only [if_pos hshort] at hok
      cases hok
    · rw [hpos, Nat.le_antisymm hbs (Nat.le_of_not_lt hshort)]
      rfl
  | upTo n =>
    obtain ⟨bs, t, hread, hbs, ht, hpos⟩ := hs.readUpTo n
    have hanswer : ByteStream.answer (.upTo n : Request false) s = (.ok bs, t) := hread
    rw [hanswer]
    exact ⟨ht, hbs, Nat.le_of_eq hpos, fun _ => hpos⟩
  | skip n =>
    have hanswer : ByteStream.answer (.skip n : Request false) s = s.skip n := rfl
    rw [hanswer]
    obtain ⟨t, hskip, ht, hpos⟩ | ⟨e, hskip⟩ := hs.skip n
    · rw [hskip]
      exact ⟨ht, Nat.le_refl n, Nat.le_of_eq hpos, fun _ => hpos⟩
    · rw [hskip]
      exact ⟨hs, Nat.le_refl n, Nat.le_add_right _ _, fun h => by cases h⟩
  | position => exact ⟨hs, Nat.le_refl 0, Nat.le_refl _, fun _ => rfl⟩
  | remaining h => cases h

def pace : Pace Buffered where
  Good := Aligned
  pos := Buffered.pos
  good_answer q _ hs := (hs.answer q).1
  position _ _ := rfl
  moves q _ hs := (hs.answer q).2

end Buffered

end AudioAtoms
