import AudioAtoms.Proofs.ShortWindow

/-!
# Streams that hand out octets

A stream stands before a row of octets. A request for exactly so many of them is answered by the
front of the row, and it fails if the row is shorter. Octets in memory are such a stream. So is any
such stream behind a window, and the row then ends no later than the window.
-/
namespace AudioAtoms

/-- The octets ahead of a stream in its good states, and its position before them. A stream that
knows how many octets it has left is at the end if it knows of none. -/
structure Feed (bounded : Bool) (σ : Type) [ByteStream bounded σ] where
  Good : σ → Prop
  pos : σ → Nat
  ahead : σ → Bytes
  position : ∀ s, Good s → (ByteStream.answer (.position : Request bounded) s).1 = pos s
  exactly : ∀ s n, Good s → n ≤ (ahead s).length → ∃ t,
    ByteStream.answer (.exactly n : Request bounded) s = (.ok ((ahead s).take n), t) ∧
      Good t ∧ pos t = pos s + n ∧ ahead t = (ahead s).drop n
  tooFew : ∀ s n, Good s → (ahead s).length < n → ∃ e t,
    ByteStream.answer (.exactly n : Request bounded) s = (.error e, t)
  remaining : ∀ (h : bounded = true) s, Good s → ∃ n : Nat,
    ByteStream.answer (.remaining h : Request bounded) s = (n, s) ∧ (n = 0 → ahead s = [])

def Slice.feed {bounded : Bool} : Feed bounded Slice where
  Good _ := True
  pos := Slice.pos
  ahead := Slice.rest
  position _ _ := rfl
  exactly s n _ h := ⟨s.advance n, by rw [answer_exactly, if_pos h], trivial, rfl, rfl⟩
  tooFew s n _ h := ⟨_, _, by rw [answer_exactly, if_neg (Nat.not_le.mpr h)]⟩
  remaining _ s _ := ⟨s.rest.length, rfl, List.eq_nil_of_length_eq_zero⟩

def Payload.feed (refused : Bool) : Feed true Payload where
  Good s := s.refused = refused
  pos := Payload.pos
  ahead := Payload.rest
  position _ _ := rfl
  exactly s n hs h := ⟨s.advance n, if_pos h, hs, rfl, rfl⟩
  tooFew _ _ _ h := ⟨_, _, if_neg (Nat.not_le.mpr h)⟩
  remaining _ s _ := ⟨s.rest.length, rfl, List.eq_nil_of_length_eq_zero⟩

namespace Feed
variable {bounded : Bool} {α σ : Type}

section Windows
variable [ByteStream false σ]

/-- From one state to another the window is used as far as the stream behind it is moved. -/
structure InStep (f : Feed false σ) (s t : Scoped σ) : Prop where
  good : f.Good t.inner
  size_eq : t.window.size = s.window.size
  used : f.pos t.inner + s.window.used = f.pos s.inner + t.window.used

variable {f : Feed false σ} {start s : Scoped σ} {n : Nat}

theorem InStep.exactly (hs : f.InStep start s)
    (h : n ≤ ((f.ahead s.inner).take s.window.left).length) :
    ∃ t, ByteStream.answer (.exactly n : Request bounded) s =
        (.ok (((f.ahead s.inner).take s.window.left).take n), t) ∧
      f.InStep start t ∧ f.pos t.inner = f.pos s.inner + n ∧
      (f.ahead t.inner).take t.window.left = ((f.ahead s.inner).take s.window.left).drop n := by
  rw [List.length_take] at h
  have hused := hs.used
  obtain ⟨t, hanswer, ht, hpos, hahead⟩ := f.exactly s.inner n hs.good (by omega)
  refine ⟨⟨t, s.window.charge n⟩, ?_, ⟨ht, hs.size_eq, ?_⟩, hpos, ?_⟩
  · rw [List.take_take, Nat.min_eq_left (by omega)]
    simp only [ByteStream.answer, Window.answer]
    rw [if_neg (by omega), Scan.run_ask, hanswer]
    rfl
  · simp only [hpos, Window.charge]
    omega
  · simp only [hahead, Window.left_charge, List.drop_take]

theorem InStep.tooFew (hs : f.InStep start s)
    (h : ((f.ahead s.inner).take s.window.left).length < n) :
    ∃ e t, ByteStream.answer (.exactly n : Request bounded) s = (.error e, t) := by
  rw [List.length_take] at h
  simp only [ByteStream.answer, Window.answer]
  by_cases hleft : s.window.left < n
  · rw [if_pos hleft]
    exact ⟨_, _, rfl⟩
  · obtain ⟨e, t, hanswer⟩ := f.tooFew s.inner n hs.good (by omega)
    rw [if_neg hleft, Scan.run_ask, hanswer]
    exact ⟨e, _, rfl⟩

def behindWindow (f : Feed false σ) (start : Scoped σ) : Feed bounded (Scoped σ) where
  Good := f.InStep start
  pos s := f.pos s.inner
  ahead s := (f.ahead s.inner).take s.window.left
  position s hs := f.position s.inner hs.good
  exactly _ _ hs h := hs.exactly h
  tooFew _ _ hs h := hs.tooFew h
  remaining _ s _ := ⟨s.window.left, rfl, fun hleft => hleft ▸ List.take_zero⟩

theorem inStep_self (hs : f.Good s.inner) : f.InStep s s :=
  ⟨hs, rfl, rfl⟩

end Windows

variable [ByteStream bounded σ]

/-- The stream was moved over so many octets. -/
structure Moved (f : Feed bounded σ) (n : Nat) (s t : σ) : Prop where
  good : f.Good t
  pos : f.pos t = f.pos s + n
  ahead : f.ahead t = (f.ahead s).drop n

variable {f : Feed bounded σ} {m n : Nat} {s t u : σ}

theorem Moved.trans (hm : f.Moved m s t) (hn : f.Moved n t u) : f.Moved (m + n) s u where
  good := hn.good
  pos := by rw [hn.pos, hm.pos, Nat.add_assoc]
  ahead := by rw [hn.ahead, hm.ahead, List.drop_drop]

theorem Moved.eq_advance {s t : Slice} (h : (Slice.feed : Feed bounded Slice).Moved n s t) :
    t = s.advance n := by
  cases t
  cases h.pos
  cases h.ahead
  rfl

theorem Moved.eq_advance_payload {s t : Payload} (h : (Payload.feed s.refused).Moved n s t) :
    t = s.advance n := by
  cases t
  cases h.good
  cases h.pos
  cases h.ahead
  rfl

theorem Moved.length_ahead (h : f.Moved n s t) :
    (f.ahead t).length = (f.ahead s).length - n := by
  rw [h.ahead, List.length_drop]

variable (hs : f.Good s)
include hs

theorem exec_exactly (hn : n ≤ (f.ahead s).length) :
    ∃ t, (Read.exactly n : Read bounded Bytes).exec s = (.ok ((f.ahead s).take n), t) ∧
      f.Moved n s t := by
  obtain ⟨t, hanswer, ht, hpos, hahead⟩ := f.exactly s n hs hn
  exact ⟨t, hanswer, ht, hpos, hahead⟩

theorem exec_exactly_tooFew (hn : (f.ahead s).length < n) :
    ∃ e t, (Read.exactly n : Read bounded Bytes).exec s = (.error e, t) :=
  f.tooFew s n hs hn

theorem exec_number (hn : n ≤ (f.ahead s).length) :
    ∃ t, (Read.number n : Read bounded Nat).exec s =
      (.ok (Bytes.toNat ((f.ahead s).take n)), t) ∧ f.Moved n s t := by
  obtain ⟨t, hexec, ht⟩ := exec_exactly hs hn
  exact ⟨t, Read.exec_bind_ok hexec _, ht⟩

theorem exec_number_tooFew (hn : (f.ahead s).length < n) :
    ∃ e t, (Read.number n : Read bounded Nat).exec s = (.error e, t) := by
  obtain ⟨e, t, hexec⟩ := exec_exactly_tooFew hs hn
  exact ⟨e, t, Read.exec_bind_error hexec _⟩

theorem exec_code (hn : 4 ≤ (f.ahead s).length) :
    ∃ t, (Read.code : Read bounded Code).exec s = (.ok (.ofBytes ((f.ahead s).take 4)), t) ∧
      f.Moved 4 s t := by
  obtain ⟨t, hexec, ht⟩ := exec_exactly hs hn
  exact ⟨t, Read.exec_bind_ok hexec _, ht⟩

theorem exec_code_tooFew (hn : (f.ahead s).length < 4) :
    ∃ e t, (Read.code : Read bounded Code).exec s = (.error e, t) := by
  obtain ⟨e, t, hexec⟩ := exec_exactly_tooFew hs hn
  exact ⟨e, t, Read.exec_bind_error hexec _⟩

end Feed

end AudioAtoms
