import AudioAtoms.Proofs.Execution
import AudioAtoms.Stream.Slice

/-!
# Payloads on their own

A payload that is all there can be read without the stream around it: a request beyond its end is
refused, every other one is answered from its octets. A window of the size of the payload, opened
on any stream that has these octets ahead, gives the same answers, whatever stands behind them.
-/
namespace AudioAtoms

structure Payload where
  pos : Nat
  rest : Bytes
  refused : Bool
deriving DecidableEq, Repr

namespace Payload
variable {α β : Type}

def ofBytes (pos : Nat) (bs : Bytes) : Payload := ⟨pos, bs, false⟩

def advance (s : Payload) (n : Nat) : Payload := ⟨s.pos + n, s.rest.drop n, s.refused⟩

def refuse (s : Payload) : Payload := { s with refused := true }

def answer (q : Request true) (s : Payload) : q.Answer × Payload :=
  match q with
  | .exactly n =>
    if n ≤ s.rest.length then (.ok (s.rest.take n), s.advance n)
    else (.error .outOfBounds, s.refuse)
  | .upTo n => (.ok (s.rest.take n), s.advance (min n s.rest.length))
  | .skip n =>
    if n ≤ s.rest.length then (.ok (), s.advance n) else (.error .outOfBounds, s.refuse)
  | .position => (s.pos, s)
  | .remaining _ => (s.rest.length, s)

instance : ByteStream true Payload where
  answer := answer

def finish (s : Payload) : Nat := s.pos + s.rest.length

/-- A request moves forward in the payload, and not beyond its end. -/
theorem exists_advance_answer (q : Request true) (s : Payload) :
    ∃ n ≤ s.rest.length, (ByteStream.answer q s).2.pos = s.pos + n ∧
      (ByteStream.answer q s).2.rest = s.rest.drop n := by
  cases q with
  | exactly n | skip n =>
    simp only [ByteStream.answer, answer]
    split
    · exact ⟨n, ‹_›, rfl, rfl⟩
    · exact ⟨0, Nat.zero_le _, rfl, rfl⟩
  | upTo n => exact ⟨min n s.rest.length, Nat.min_le_right _ _, rfl, rfl⟩
  | position | remaining h => exact ⟨0, Nat.zero_le _, rfl, rfl⟩

theorem length_answer_le (q : Request true) (s : Payload) :
    (ByteStream.answer q s).2.rest.length ≤ s.rest.length := by
  obtain ⟨n, -, -, hrest⟩ := s.exists_advance_answer q
  rw [hrest, List.length_drop]
  exact Nat.sub_le _ _

/-- A reader moves forward in the payload, and not beyond its end. -/
theorem exists_advance (p : Scan true α) (s : Payload) :
    ∃ n ≤ s.rest.length, (p.run s).2.pos = s.pos + n ∧ (p.run s).2.rest = s.rest.drop n := by
  induction p generalizing s with
  | done a => exact ⟨0, Nat.zero_le _, rfl, rfl⟩
  | ask q next ih =>
    obtain ⟨m, hm, hpos, hrest⟩ := s.exists_advance_answer q
    obtain ⟨n, hn, hpos', hrest'⟩ := ih (ByteStream.answer q s).1 (ByteStream.answer q s).2
    rw [hrest, List.length_drop] at hn
    refine ⟨m + n, by omega, ?_, ?_⟩
    · rw [Scan.run_ask, hpos', hpos, Nat.add_assoc]
    · rw [Scan.run_ask, hrest', hrest, List.drop_drop]
  | note m rest ih => exact ih s

theorem length_run_le (p : Scan true α) (s : Payload) :
    (p.run s).2.rest.length ≤ s.rest.length := by
  obtain ⟨n, -, -, hrest⟩ := s.exists_advance p
  rw [hrest, List.length_drop]
  exact Nat.sub_le _ _

theorem finish_run (p : Scan true α) (s : Payload) : (p.run s).2.finish = s.finish := by
  obtain ⟨n, hn, hpos, hrest⟩ := s.exists_advance p
  rw [finish, hpos, hrest, List.length_drop, finish]
  omega

section Exec

theorem exec_exactly (n : Nat) (s : Payload) :
    (Read.exactly n : Read true Bytes).exec s =
      if n ≤ s.rest.length then (.ok (s.rest.take n), s.advance n)
      else (.error .outOfBounds, s.refuse) := rfl

theorem exec_skip (n : Nat) (s : Payload) :
    (Read.skip n : Read true Unit).exec s =
      if n ≤ s.rest.length then (.ok (), s.advance n) else (.error .outOfBounds, s.refuse) := rfl

theorem exec_number (n : Nat) (s : Payload) :
    (Read.number n : Read true Nat).exec s =
      if n ≤ s.rest.length then (.ok (Bytes.toNat (s.rest.take n)), s.advance n)
      else (.error .outOfBounds, s.refuse) :=
  Read.exec_bind_ite (exec_exactly n s) _

theorem exec_code (s : Payload) :
    (Read.code : Read true Code).exec s =
      if 4 ≤ s.rest.length then (.ok (.ofBytes (s.rest.take 4)), s.advance 4)
      else (.error .outOfBounds, s.refuse) :=
  Read.exec_bind_ite (exec_exactly 4 s) _

@[simp] theorem exec_skip_bind (n : Nat) (s : Payload) (f : Unit → Read true β) :
    (Read.skip n >>= f).exec s =
      if n ≤ s.rest.length then (f ()).exec (s.advance n) else (.error .outOfBounds, s.refuse) :=
  Read.exec_bind_ite (exec_skip n s) f

@[simp] theorem exec_number_bind (n : Nat) (s : Payload) (f : Nat → Read true β) :
    (Read.number n >>= f).exec s =
      if n ≤ s.rest.length then (f (Bytes.toNat (s.rest.take n))).exec (s.advance n)
      else (.error .outOfBounds, s.refuse) :=
  Read.exec_bind_ite (exec_number n s) f

@[simp] theorem exec_code_bind (s : Payload) (f : Code → Read true β) :
    (Read.code >>= f).exec s =
      if 4 ≤ s.rest.length then (f (.ofBytes (s.rest.take 4))).exec (s.advance 4)
      else (.error .outOfBounds, s.refuse) :=
  Read.exec_bind_ite (exec_code s) f

@[simp] theorem exec_upTo_bind (n : Nat) (s : Payload) (f : Bytes → Read true β) :
    (Read.upTo n >>= f).exec s = (f (s.rest.take n)).exec (s.advance (min n s.rest.length)) :=
  Read.exec_bind_ok rfl f

@[simp] theorem exec_remaining_bind (s : Payload) (f : Nat → Read true β) :
    (Read.remaining >>= f).exec s = (f s.rest.length).exec s :=
  Read.exec_bind_ok rfl f

@[simp] theorem exec_note_bind (m : Notice) (s : Payload) (f : Unit → Read true β) :
    (Read.note m >>= f).exec s = (f ()).exec s :=
  Read.exec_bind_ok rfl f

end Exec

end Payload

/-- The streams `stand pos bs` are at position `pos` and have the octets `bs` ahead of them, which
they hand out as asked. -/
structure Supplies (inner : Bool) {σ : Type} [ByteStream inner σ] (stand : Nat → Bytes → σ) :
    Prop where
  exactly : ∀ pos bs n, n ≤ bs.length →
    ByteStream.answer (.exactly n : Request inner) (stand pos bs) =
      (.ok (bs.take n), stand (pos + n) (bs.drop n))
  upTo : ∀ pos bs n, n ≤ bs.length →
    ByteStream.answer (.upTo n : Request inner) (stand pos bs) =
      (.ok (bs.take n), stand (pos + n) (bs.drop n))
  skip : ∀ pos bs n, n ≤ bs.length →
    ByteStream.answer (.skip n : Request inner) (stand pos bs) =
      (.ok (), stand (pos + n) (bs.drop n))
  position : ∀ pos bs,
    ByteStream.answer (.position : Request inner) (stand pos bs) = (pos, stand pos bs)

theorem Slice.supplies {inner : Bool} : Supplies inner Slice.mk where
  exactly pos bs n h := by rw [Slice.answer_exactly, if_pos h]; rfl
  upTo pos bs n h := by rw [Slice.answer_upTo, Nat.min_eq_left h]; rfl
  skip pos bs n h := by rw [Slice.answer_skip, if_pos h]; rfl
  position _ _ := rfl

theorem Payload.supplies (refused : Bool) : Supplies true (fun pos bs => Payload.mk pos bs refused) where
  exactly pos bs n h := if_pos h
  upTo pos bs n h := by
    change (_, Payload.advance _ (min n bs.length)) = _
    rw [Nat.min_eq_left h]
    rfl
  skip pos bs n h := if_pos h
  position _ _ := rfl

namespace Supplies
variable {inner : Bool} {α σ : Type} [ByteStream inner σ] {stand : Nat → Bytes → σ}

/-- One request through a window that spans the payload. -/
theorem run_answer (hs : Supplies inner stand) (q : Request true) (s : Payload) (w : Window)
    (tail : Bytes) (hw : w.size = w.used + s.rest.length) (hr : w.refused = s.refused) :
    (w.answer q : Scan inner _).run (stand s.pos (s.rest ++ tail)) =
      let r := ByteStream.answer q s
      ((r.1, ⟨w.size, w.size - r.2.rest.length, r.2.refused⟩),
        stand r.2.pos (r.2.rest ++ tail)) := by
  obtain ⟨size, used, refused⟩ := w
  obtain ⟨pos, rest, _⟩ := s
  obtain rfl : refused = _ := hr
  obtain rfl : size = used + rest.length := hw
  have hleft : (Window.mk (used + rest.length) used refused).left = rest.length := by
    simp only [Window.left]
    omega
  have happ (n : Nat) (h : n ≤ rest.length) :
      (rest ++ tail).take n = rest.take n ∧ (rest ++ tail).drop n = rest.drop n ++ tail :=
    ⟨List.take_append_of_le_length h, List.drop_append_of_le_length h⟩
  have hlen (n : Nat) (h : n ≤ rest.length) : n ≤ (rest ++ tail).length := by
    rw [List.length_append]
    omega
  have hcharge (n : Nat) (h : n ≤ rest.length) :
      used + rest.length - (rest.drop n).length = used + n := by
    rw [List.length_drop]
    omega
  have hkeep : used + rest.length - rest.length = used := by omega
  cases q with
  | exactly n =>
    simp only [Window.answer, hleft, ByteStream.answer, Payload.answer]
    by_cases h : n ≤ rest.length
    · rw [if_neg (by omega), if_pos h, Scan.run_ask, hs.exactly _ _ _ (hlen n h),
        (happ n h).1, (happ n h).2]
      simp only [Scan.run_done, Window.charge, Payload.advance, hcharge n h]
    · rw [if_pos (by omega), if_neg h]
      simp only [Scan.run_done, Window.refuse, Payload.refuse, hkeep]
  | upTo n =>
    have hk : min (Window.mk (used + rest.length) used refused).left n = min n rest.length := by
      rw [hleft, Nat.min_comm]
    have h := Nat.min_le_right n rest.length
    simp only [Window.answer, ByteStream.answer, Payload.answer]
    rw [Scan.run_ask, hs.upTo _ _ _ (hk ▸ hlen _ h), hk, (happ _ h).1, (happ _ h).2]
    simp only [Scan.run_done, Window.charge, Payload.advance, hcharge _ h, List.length_take,
      ← List.take_eq_take_min]
  | skip n =>
    simp only [Window.answer, hleft, ByteStream.answer, Payload.answer]
    by_cases h : n ≤ rest.length
    · rw [if_neg (by omega), if_pos h, Scan.run_ask, hs.skip _ _ _ (hlen n h), (happ n h).2]
      simp only [Scan.run_done, Window.charge, Payload.advance, hcharge n h]
    · rw [if_pos (by omega), if_neg h]
      simp only [Scan.run_done, Window.refuse, Payload.refuse, hkeep]
  | position =>
    simp only [Window.answer, Scan.run_ask, hs.position, Scan.run_done, ByteStream.answer,
      Payload.answer, hkeep]
  | remaining _ =>
    simp only [Window.answer, Scan.run_done, hleft, ByteStream.answer, Payload.answer, hkeep]

/-- A scan inside a window that spans the payload ahead takes no notice of what stands behind. -/
theorem run_within (hs : Supplies inner stand) (p : Scan true α) (s : Payload) (w : Window)
    (tail : Bytes) (hw : w.size = w.used + s.rest.length) (hr : w.refused = s.refused) :
    (p.within w : Scan inner _).run (stand s.pos (s.rest ++ tail)) =
      let r := p.run s
      ((r.1, ⟨w.size, w.size - r.2.rest.length, r.2.refused⟩),
        stand r.2.pos (r.2.rest ++ tail)) := by
  induction p generalizing s w with
  | done a =>
    have hkeep : w.size - s.rest.length = w.used := by omega
    simp only [Scan.within, Scan.run_done, hkeep, ← hr]
  | ask q next ih =>
    have hlen : (ByteStream.answer q s).2.rest.length ≤ s.rest.length :=
      s.length_answer_le q
    rw [Scan.within, Scan.run_bind, hs.run_answer q s w tail hw hr, Scan.run_ask]
    exact ih _ _ _ (by simp only; omega) rfl
  | note m rest ih => exact ih s w hw hr

end Supplies

/-- Behind a window that spans the octets ahead, a scan gives what it gives on those octets. -/
theorem Slice.run_scoped {α : Type} (p : Scan true α) (pos : Nat) (bs tail : Bytes) (w : Window)
    (hw : w.size = w.used + bs.length) :
    (p.run (⟨⟨pos, bs ++ tail⟩, w⟩ : Scoped Slice)).1 =
      (p.run (Payload.mk pos bs w.refused)).1 := by
  have hwithin := (Scoped.run_within p w (Slice.mk pos (bs ++ tail))).symm.trans
    (Slice.supplies.run_within p ⟨pos, bs, w.refused⟩ w tail hw rfl)
  exact congrArg (·.1.1) hwithin

section Enclosing
variable {α β : Type}

/-- Reads inside a window of the given size, and then goes on behind it. -/
def Scan.enclose (n : Nat) (p : Scan true α) (k : α × Window → Scan false β) : Scan false β :=
  (p.within (.ofSize n)).bind k

def Leaf.close (kind : Kind) (r : Except StreamError α × Window) :
    Scan false (Except StreamError (Option α)) :=
  match r.1 with
  | .ok a => (Read.skip r.2.left >>= fun _ => pure (some a) : Read false _).run
  | .error e =>
    if r.2.refused then
      .note (.malformedAtom kind e) (Read.skip r.2.left >>= fun _ => pure none : Read false _).run
    else .done (.error e)

theorem Leaf.run_read (h : Header) (p : Read true α) :
    (Leaf.read h p : Read false (Option α)).run =
      Scan.enclose h.dataSize p.run (Leaf.close h.kind) := by
  rw [Leaf.read, Read.run_bind, Read.run_lift, Scan.bind_assoc]
  rfl

def TagList.close (kind : Kind) (r : (Except StreamError Unit × Collected) × Window) :
    Scan false (Except StreamError Unit × Collected) :=
  match r.1.1 with
  | .ok _ => (Collect.read (Read.skip r.2.left)).runFrom r.1.2
  | .error e =>
    if r.2.refused then
      .note (.malformedTag kind e) ((Collect.read (Read.skip r.2.left)).runFrom r.1.2)
    else .done (.error e, r.1.2)

theorem TagList.runFrom_readTag (o : Options) (h : Header) (c : Collected) :
    (TagList.readTag o h : Collect StreamError false Unit).runFrom c =
      Scan.enclose h.dataSize ((ReadTag.read o h.kind).runFrom c) (TagList.close h.kind) := by
  rw [TagList.readTag, Collect.runFrom_bind, Collect.runFrom_get, Scan.bind_done]
  simp only
  rw [Collect.runFrom_bind, Collect.runFrom_liftScan, Scan.bind_assoc, Scan.enclose]
  congr 1
  funext ⟨⟨r, d⟩, ⟨size, used, refused⟩⟩
  cases r <;> cases refused <;> rfl

end Enclosing

section Enclosed
variable {α : Type} (h : Header) (pos : Nat) (bs tail : Bytes)

theorem run_within_ofSize (p : Scan true α) (hb : h.dataSize = bs.length) :
    (p.within (.ofSize h.dataSize) : Scan false _).run (Slice.mk pos (bs ++ tail)) =
      let r := p.run (Payload.ofBytes pos bs)
      ((r.1, ⟨bs.length, bs.length - r.2.rest.length, r.2.refused⟩),
        Slice.mk r.2.pos (r.2.rest ++ tail)) := by
  rw [hb]
  exact Slice.supplies.run_within p (.ofBytes pos bs) (.ofSize bs.length) tail
    (Nat.zero_add _).symm rfl

/-- What is left of a payload can be passed over. -/
theorem exec_skip_left (s : Payload) (hs : s.finish = pos + bs.length)
    (hle : s.rest.length ≤ bs.length) :
    (Read.skip (Window.mk bs.length (bs.length - s.rest.length) s.refused).left :
      Read false Unit).exec (Slice.mk s.pos (s.rest ++ tail)) =
        (.ok (), Slice.mk (pos + bs.length) tail) := by
  have hleft : (Window.mk bs.length (bs.length - s.rest.length) s.refused).left =
      s.rest.length := by
    simp only [Window.left]
    omega
  rw [hleft, Read.exec_skip, Slice.supplies.skip _ _ _ (by simp), List.drop_left, ← hs]
  rfl

/-- A leaf whose payload is all there depends on that payload alone, and is passed as a whole. -/
theorem Leaf.exec_read (p : Read true α) (hb : h.dataSize = bs.length) :
    (Leaf.read h p : Read false (Option α)).exec (Slice.mk pos (bs ++ tail)) =
      match p.exec (Payload.ofBytes pos bs) with
      | (.ok a, _) => (.ok (some a), ⟨pos + bs.length, tail⟩)
      | (.error e, s) =>
        if s.refused then (.ok none, ⟨pos + bs.length, tail⟩)
        else (.error e, ⟨s.pos, s.rest ++ tail⟩) := by
  have hfin := Payload.finish_run p.run (.ofBytes pos bs)
  have hle := Payload.length_run_le p.run (.ofBytes pos bs)
  obtain ⟨r, s, hp⟩ : ∃ r s, p.run.run (Payload.ofBytes pos bs) = (r, s) := ⟨_, _, rfl⟩
  rw [hp] at hfin hle
  have hskip := exec_skip_left pos bs tail s hfin hle
  rw [Read.exec, Leaf.run_read, Scan.enclose, Scan.run_bind,
    run_within_ofSize h pos bs tail p.run hb, hp,
    show p.exec (Payload.ofBytes pos bs) = (r, s) from hp]
  cases r with
  | ok a => exact Read.exec_bind_ok hskip _
  | error e =>
    by_cases hw : s.refused
    · simp only [hw, if_true, Leaf.close] at hskip ⊢
      exact Read.exec_bind_ok hskip _
    · simp only [hw, Leaf.close]
      rfl

/-- A tag whose payload is all there depends on that payload alone, and is passed as a whole. -/
theorem TagList.exec_readTag (o : Options) (c : Collected) (hb : h.dataSize = bs.length) :
    (TagList.readTag o h : Collect StreamError false Unit).exec c (Slice.mk pos (bs ++ tail)) =
      match (ReadTag.read o h.kind).exec c (Payload.ofBytes pos bs) with
      | ((.ok _, d), _) => ((.ok (), d), ⟨pos + bs.length, tail⟩)
      | ((.error e, d), s) =>
        if s.refused then ((.ok (), d), ⟨pos + bs.length, tail⟩)
        else ((.error e, d), ⟨s.pos, s.rest ++ tail⟩) := by
  have hfin := Payload.finish_run ((ReadTag.read o h.kind).runFrom c) (.ofBytes pos bs)
  have hle := Payload.length_run_le ((ReadTag.read o h.kind).runFrom c) (.ofBytes pos bs)
  obtain ⟨r, d, s, hp⟩ : ∃ r d s,
      ((ReadTag.read o h.kind).runFrom c).run (Payload.ofBytes pos bs) = ((r, d), s) :=
    ⟨_, _, _, rfl⟩
  rw [hp] at hfin hle
  have hskip := exec_skip_left pos bs tail s hfin hle
  have hclose : (Collect.read (Read.skip
      (Window.mk bs.length (bs.length - s.rest.length) s.refused).left) :
        Collect StreamError false Unit).exec d (Slice.mk s.pos (s.rest ++ tail)) =
      ((.ok (), d), ⟨pos + bs.length, tail⟩) := by
    rw [Collect.exec_read, hskip]
  rw [Collect.exec, TagList.runFrom_readTag, Scan.enclose, Scan.run_bind,
    run_within_ofSize h pos bs tail _ hb, hp,
    show (ReadTag.read o h.kind).exec c (Payload.ofBytes pos bs) = ((r, d), s) from hp]
  cases r with
  | ok a => exact hclose
  | error e =>
    by_cases hw : s.refused
    · simp only [hw, if_true, TagList.close] at hclose ⊢
      exact hclose
    · simp only [hw, TagList.close]
      rfl

end Enclosed

end AudioAtoms
