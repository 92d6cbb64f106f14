import AudioAtoms.Proofs.Scripts

/-!
# Where a seek lands

A buffered source moves by a signed word of 64 bits. A move beyond the buffer is made by the source,
which stands behind the octets not handed out yet, so the distance that it moves is less by these,
and it is a signed word again. As long as this distance is not below all such words, a seek lands on
its target or is refused and changes nothing. Below them a seek does neither. A program that checks
its words stops there. In one that does not, the distance wraps, and a seek back by nearly `2 ^ 63`
octets ends far ahead.
-/
namespace AudioAtoms

namespace Command
variable {σ : Type} [ByteStream false σ] [Seekable σ]

def after (s : σ) : List Command → σ
  | [] => s
  | command :: script => after (command.run s).2 script

end Command

/-- A source that refuses to move stays as it is. -/
theorem Source.eq_of_seekBy_error {s t : Source} {delta : Int} {e : StreamError}
    (h : s.seekBy delta = (.error e, t)) : t = s := by
  simp only [seekBy] at h
  split at h
  · exact (congrArg Prod.snd h).symm
  · split at h
    · exact (congrArg Prod.snd h).symm
    · cases h

namespace Buffered

/-- The distance that the source has to move is below all signed words of 64 bits. -/
def Wraps (s : Buffered) (delta : Int) : Prop := delta - s.unread < -2 ^ 63

/-- What a seek should come to: the stream is at the target and says so, or it fails and is what it
was. -/
inductive Reaches (s : Buffered) (target : Int) : Except StreamError Nat × Buffered → Prop
  | lands {p : Nat} {t : Buffered} (hp : (p : Int) = target) (ht : t.pos = p) :
    Reaches s target (.ok p, t)
  | refused (e : StreamError) : Reaches s target (.error e, s)

/-- A coherent stream on the given octets, whose positions go up to the given one. -/
structure On (content : Bytes) (lastPos : Nat) (s : Buffered) : Prop where
  coherent : s.Coherent
  content_eq : s.tape.content = content
  lastPos_eq : s.tape.lastPos = lastPos

variable {s : Buffered} {content : Bytes} {lastPos : Nat} {delta : Int}

theorem On.answer (hs : s.On content lastPos) (q : Request false) :
    (ByteStream.answer q s).2.On content lastPos := by
  obtain ⟨t, hanswer, ht, htape⟩ := hs.coherent.answer q
  obtain ⟨hcontent, hlast⟩ := s.tape.content_answer q
  rw [hanswer]
  exact ⟨ht, by rw [htape, hcontent, hs.content_eq], by rw [htape, hlast, hs.lastPos_eq]⟩

/-- A seek of any distance keeps the buffer to the source, also one that wraps. -/
theorem On.seekBy (hs : s.On content lastPos) (delta : Int) :
    (s.seekBy delta).2.On content lastPos := by
  have htaken := hs.coherent.taken_le
  have hunread : s.unread = s.buffer.size - s.taken := rfl
  rw [Buffered.seekBy]
  by_cases hahead : 0 ≤ delta ∧ delta ≤ s.unread
  · rw [if_pos hahead]
    exact ⟨hs.coherent.withTaken (by omega), hs.content_eq, hs.lastPos_eq⟩
  · rw [if_neg hahead]
    by_cases hback : delta < 0 ∧ -delta ≤ s.taken
    · rw [if_pos hback]
      exact ⟨hs.coherent.withTaken (by omega), hs.content_eq, hs.lastPos_eq⟩
    · rw [if_neg hback, Source.seekBy, if_neg (by simp [hs.coherent.source.seekable])]
      generalize (delta - s.unread).bmod (2 ^ 64) = distance
      by_cases hbad : s.source.pos + distance < 0 ∨ (s.source.lastPos : Int) < s.source.pos + distance
      · rw [if_pos hbad]
        exact hs
      · rw [if_neg hbad]
        exact ⟨hs.coherent.moved (by omega), hs.content_eq, hs.lastPos_eq⟩

theorem On.run (hs : s.On content lastPos) (command : Command) :
    (command.run s).2.On content lastPos := by
  cases command with
  | exactly n => exact hs.answer (.exactly n)
  | upTo n => exact hs.answer (.upTo n)
  | skip n => exact hs.answer (.skip n)
  | seek delta => exact hs.seekBy delta

theorem On.after (hs : s.On content lastPos) (script : List Command) :
    (Command.after s script).On content lastPos := by
  induction script generalizing s with
  | nil => exact hs
  | cons command script ih => exact ih (hs.run command)

theorem eq_of_seekBy_error {t : Buffered} {e : StreamError} (h : s.seekBy delta = (.error e, t)) :
    t = s := by
  rw [seekBy] at h
  split at h
  · cases h
  · split at h
    · cases h
    · split at h
      · cases h
      · rename_i hsource
        cases h
        rw [Source.eq_of_seekBy_error hsource]

/-- What stands in the buffer stands in the content. -/
theorem Coherent.endPos_le (hs : s.Coherent) (h : 0 < s.unread) :
    s.endPos ≤ s.tape.content.length := by
  have hsize := congrArg Array.size hs.buffer_eq
  have hend := hs.size_le_endPos
  rw [Array.size_extract] at hsize
  simp only [tape, Array.length_toList]
  unfold unread at h
  omega

/-- A seek whose distance for the source is a signed word lands on its target, if there is such a
position. -/
theorem Coherent.seekBy_lands (hs : s.Coherent) (hword : ¬ s.Wraps delta) (hhigh : delta < 2 ^ 63)
    {p : Nat} (hp : (p : Int) = s.pos + delta) (hlast : p ≤ s.tape.lastPos) :
    ∃ t, s.seekBy delta = (.ok p, t) ∧ t.pos = p := by
  obtain ⟨t, hseek, -, htape⟩ := hs.seekBy delta (.inr (Int.not_lt.mp hword)) hhigh
  have hpos : s.tape.pos = s.pos := rfl
  have htarget : s.tape.seekBy delta = (.ok p, { s.tape with pos := p }) := by
    rw [Tape.seekBy, hpos, ← hp, if_neg (by omega), Int.toNat_natCast]
  rw [htarget] at hseek htape
  exact ⟨t, hseek, congrArg Tape.pos htape⟩

/-- Otherwise it is refused. -/
theorem Coherent.seekBy_refused (hs : s.Coherent) (hword : ¬ s.Wraps delta)
    (hhigh : delta < 2 ^ 63) (hbad : s.pos + delta < 0 ∨ s.tape.lastPos < s.pos + delta) :
    s.seekBy delta = (.error .badSeek, s) := by
  obtain ⟨t, hseek, -⟩ := hs.seekBy delta (.inr (Int.not_lt.mp hword)) hhigh
  have htarget : (s.tape.seekBy delta).1 = .error .badSeek := by
    rw [Tape.seekBy]
    exact congrArg Prod.fst (if_pos hbad)
  rw [htarget] at hseek
  rw [hseek, eq_of_seekBy_error hseek]

/-- A seek that wraps lands too far ahead, by all words of 64 bits. -/
theorem On.seekBy_wraps (hs : s.On content (2 ^ 64 - 1)) (hsize : content.length ≤ maxCapacity)
    (hlow : -2 ^ 63 ≤ delta) (hwraps : s.Wraps delta) {p : Nat}
    (hp : (p : Int) = s.pos + delta + 2 ^ 64) :
    ∃ t, s.seekBy delta = (.ok p, t) ∧ t.pos = p := by
  have hcoherent := hs.coherent
  have htaken := hcoherent.taken_le
  have hend := hcoherent.endPos_eq
  have hbuffer := hcoherent.size_le_endPos
  have hlast : s.source.lastPos = 2 ^ 64 - 1 := hs.lastPos_eq
  have hpos : s.pos = s.endPos - s.unread := rfl
  have hunread : s.unread = s.buffer.size - s.taken := rfl
  unfold Wraps at hwraps
  have hcontent := hcoherent.endPos_le (by omega)
  rw [hs.content_eq] at hcontent
  unfold maxCapacity at hsize
  have hword : (delta - s.unread).bmod (2 ^ 64) = delta - s.unread + 2 ^ 64 := by
    rw [← Int.add_bmod_right]
    exact Int.bmod_eq_of_le (by omega) (by omega)
  have htarget : (s.source.pos : Int) + (delta - s.unread + 2 ^ 64) = p := by omega
  have hfar : ¬ ((p : Int) < 0 ∨ (s.source.lastPos : Int) < p) := by omega
  rw [Buffered.seekBy, if_neg (by omega), if_neg (by omega), hword, Source.seekBy, htarget,
    if_neg (by simp [hcoherent.source.seekable]), if_neg hfar, Int.toNat_natCast]
  exact ⟨_, rfl, rfl⟩

/-- No move inside the buffer is so long that it would wrap. -/
theorem On.not_wraps_of_holds (hs : s.On content lastPos) (hsize : content.length ≤ maxCapacity)
    (hlow : -2 ^ 63 ≤ delta) (h : s.holds delta = true) : ¬ s.Wraps delta := by
  intro hwraps
  have htaken := hs.coherent.taken_le
  have hbuffer := hs.coherent.size_le_endPos
  have hunread : s.unread = s.buffer.size - s.taken := rfl
  have hback : -(s.taken : Int) ≤ delta := (of_decide_eq_true h).1
  unfold Wraps at hwraps
  have hcontent := hs.coherent.endPos_le (by omega)
  rw [hs.content_eq] at hcontent
  unfold maxCapacity at hsize
  omega

/-- A program that checks its words stops where the distance would wrap. -/
theorem On.seek?_eq_none (hs : s.On content lastPos) (hsize : content.length ≤ maxCapacity)
    (hlow : -2 ^ 63 ≤ delta) (hwraps : s.Wraps delta) : s.seek? delta = none := by
  refine if_neg ?_
  rintro (hheld | hword)
  · exact hs.not_wraps_of_holds hsize hlow hheld hwraps
  · exact Int.not_lt.mpr hword hwraps

theorem seek?_eq_some (hword : ¬ s.Wraps delta) : s.seek? delta = some (s.seekBy delta) :=
  if_pos (.inr (Int.not_lt.mp hword))

/-- Whatever was read and sought before, a seek by a signed word lands on its target or is refused
and changes nothing, unless the distance for the source wraps. It is refused for want of such a
position alone. If the distance wraps, the seek succeeds and lands `2 ^ 64` octets beyond its
target. A program that checks its words stops in just these cases, and seeks alike in the others. -/
theorem seekBy_reaches_iff (content : Array UInt8) (start : Nat) {schedule : Schedule}
    (hs : schedule.Reliable) (hsize : content.size ≤ maxCapacity) (hstart : start < 2 ^ 64)
    {capacity : Nat} (h : 0 < capacity) (script : List Command) (delta : Int)
    (hlow : -2 ^ 63 ≤ delta) (hhigh : delta < 2 ^ 63) :
    let s := Command.after (ofSource (.ofContent content start schedule) capacity h) script
    (Reaches s (s.pos + delta) (s.seekBy delta) ↔ ¬ s.Wraps delta) ∧
    ((∃ e, s.seekBy delta = (.error e, s)) ↔
      ¬ s.Wraps delta ∧ (s.pos + delta < 0 ∨ 2 ^ 64 ≤ s.pos + delta)) ∧
    (s.Wraps delta → ∃ p t, s.seekBy delta = (.ok p, t) ∧ (p : Int) = s.pos + delta + 2 ^ 64 ∧
      t.pos = p) ∧
    (s.Wraps delta → s.seek? delta = none) ∧
    (¬ s.Wraps delta → s.seek? delta = some (s.seekBy delta)) := by
  intro s
  have hfits : content.size < 2 ^ 64 := Nat.lt_of_le_of_lt hsize (by decide)
  obtain ⟨hcoherent, htape⟩ :=
    coherent_ofSource (Source.reliable_ofContent hfits hstart hs) h
  have hon : s.On content.toList (2 ^ 64 - 1) :=
    On.after ⟨hcoherent, congrArg Tape.content htape, congrArg Tape.lastPos htape⟩ script
  have hlength : content.toList.length ≤ maxCapacity := by simpa using hsize
  have hlast := hon.lastPos_eq
  have hstops : s.Wraps delta → s.seek? delta = none := hon.seek?_eq_none hlength hlow
  have hseeks : ¬ s.Wraps delta → s.seek? delta = some (s.seekBy delta) := seek?_eq_some
  by_cases hwraps : s.Wraps delta
  · have hpos : s.unread ≤ s.endPos := hon.coherent.unread_le_endPos
    obtain ⟨p, hp⟩ := Int.eq_ofNat_of_zero_le (show 0 ≤ (s.pos : Int) + delta + 2 ^ 64 by omega)
    obtain ⟨t, hseek, ht⟩ := hon.seekBy_wraps hlength hlow hwraps hp.symm
    rw [hseek] at hseeks ⊢
    refine ⟨iff_of_false ?_ (not_not_intro hwraps), iff_of_false ?_ fun h => h.1 hwraps,
      fun _ => ⟨p, t, rfl, hp.symm, ht⟩, hstops, hseeks⟩
    · rintro (⟨hexact, -⟩ | _)
      omega
    · rintro ⟨e, h⟩
      cases h
  · by_cases hbad : (s.pos : Int) + delta < 0 ∨ 2 ^ 64 ≤ (s.pos : Int) + delta
    · have hseek := hon.coherent.seekBy_refused hwraps hhigh (by omega)
      rw [hseek] at hseeks ⊢
      exact ⟨iff_of_true (.refused _) hwraps, iff_of_true ⟨_, rfl⟩ ⟨hwraps, hbad⟩,
        fun h => absurd h hwraps, hstops, hseeks⟩
    · obtain ⟨p, hp⟩ := Int.eq_ofNat_of_zero_le (show 0 ≤ (s.pos : Int) + delta by omega)
      obtain ⟨t, hseek, ht⟩ := hon.coherent.seekBy_lands hwraps hhigh hp.symm (by omega)
      rw [hseek] at hseeks ⊢
      refine ⟨iff_of_true (.lands hp.symm ht) hwraps, iff_of_false ?_ fun h => hbad h.2,
        fun h => absurd h hwraps, hstops, hseeks⟩
      rintro ⟨e, h⟩
      cases h

/-- One octet of four in the buffer was handed out. Going back from there, the longest distance that
does not wrap is refused, and the next one lands ahead or stops the program. -/
theorem seekBy_reaches_iff_edge :
    let s := Command.after
      (ofSource (.ofContent #[1, 2, 3, 4, 5, 6, 7, 8] 0 .steady) 4 (by decide)) [.exactly 1]
    s.unread = 3 ∧ (∃ e, s.seekBy (-2 ^ 63 + 3) = (.error e, s)) ∧
      s.seek? (-2 ^ 63 + 3) = some (s.seekBy (-2 ^ 63 + 3)) ∧
      ¬ Reaches s (s.pos + (-2 ^ 63 + 2)) (s.seekBy (-2 ^ 63 + 2)) ∧
      s.seek? (-2 ^ 63 + 2) = none := by
  intro s
  have hs : s.pos = 1 ∧ s.unread = 3 := by
    simp only [s]
    cbv
  have hedge := seekBy_reaches_iff #[1, 2, 3, 4, 5, 6, 7, 8] 0 Schedule.reliable_steady (by decide)
    (by decide) (show 0 < 4 by decide) [.exactly 1] (-2 ^ 63 + 3) (by decide)
    (by decide)
  have hbeyond := seekBy_reaches_iff #[1, 2, 3, 4, 5, 6, 7, 8] 0 Schedule.reliable_steady (by decide)
    (by decide) (show 0 < 4 by decide) [.exactly 1] (-2 ^ 63 + 2) (by decide)
    (by decide)
  have hword : ¬ s.Wraps (-2 ^ 63 + 3) := by
    unfold Wraps
    omega
  have hwraps : s.Wraps (-2 ^ 63 + 2) := by
    unfold Wraps
    omega
  have hnegative : (s.pos : Int) + (-2 ^ 63 + 3) < 0 := by omega
  exact ⟨hs.2, hedge.2.1.mpr ⟨hword, .inl hnegative⟩, hedge.2.2.2.2 hword,
    fun h => hbeyond.1.mp h hwraps, hbeyond.2.2.2.1 hwraps⟩

/-- From the second octet of a file, a seek back by `2 ^ 63` succeeds and ends `2 ^ 63` octets ahead,
or stops the program. -/
theorem seekBy_back_lands_ahead :
    let s := Command.after
      (ofSource (.ofContent #[1, 2, 3, 4, 5, 6, 7, 8] 0 .steady) 4 (by decide)) [.exactly 1]
    s.pos = 1 ∧ (s.seekBy (-2 ^ 63)).1 = .ok (2 ^ 63 + 1) ∧
      (s.seekBy (-2 ^ 63)).2.pos = 2 ^ 63 + 1 ∧
      ¬ Reaches s (s.pos + -2 ^ 63) (s.seekBy (-2 ^ 63)) ∧ s.seek? (-2 ^ 63) = none := by
  intro s
  have hs : s.pos = 1 ∧ (s.seekBy (-2 ^ 63)).1 = .ok (2 ^ 63 + 1) ∧
      (s.seekBy (-2 ^ 63)).2.pos = 2 ^ 63 + 1 := by
    simp only [s]
    cbv
  have hstops : s.seek? (-2 ^ 63) = none := by
    simp only [s]
    cbv
  refine ⟨hs.1, hs.2.1, hs.2.2, fun h => ?_, hstops⟩
  generalize hseek : s.seekBy (-2 ^ 63) = r at h hs
  cases h with
  | lands hp ht =>
    have hok := Except.ok.inj hs.2.1
    omega
  | refused e => cases hs.2.1

end Buffered

end AudioAtoms
